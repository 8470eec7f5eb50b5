import TcpIp.Lib.Spans
import TcpIp.Tcp.Conservation
import TcpIp.Tcp.Reading
import TcpIp.Tcp.SendPointers

/-! Reassembly of data that comes in pieces cut and ordered in any way, with a `Read` between any
two of them. -/
namespace TcpIp

open Runs Spans

/-- The payload is the piece of `S`, numbered from `f` on, at the segment's sequence number. -/
def Segment.sliceOf (f : ℕ) (S : List U8) (seg : Segment) : Bool :=
  seg.payload.isEmpty ||
    (f ≤ seg.hdr.seqNum.toNat && seg.payload.isPrefixOf (S.drop (seg.hdr.seqNum.toNat - f)))

/-- Neither side closes. -/
def ReaderEvent.keepsOpen : ReaderEvent → Bool
  | .conn (.segment seg) => !seg.hdr.hasFin
  | .conn .close => false
  | _ => true

/-- A segment that comes in is a piece of the stream. -/
def ReaderEvent.carries (f : ℕ) (S : List U8) : ReaderEvent → Bool
  | .conn (.segment seg) => seg.sliceOf f S
  | _ => true

/-- The bytes all calls of `Read` have returned, in order. -/
def returnedBytes (tr : List (Move Reader ReaderLabel)) : List U8 :=
  tr.flatMap fun x => (x.ev.out.read.map ReadOutcome.bytes).getD []

/-- The move leaves every unread byte in its slot. -/
def KeepsUnread (x : Move Reader ReaderLabel) : Prop :=
  ∀ q, x.src.conn.tcb.rcv.lbr.toNat ≤ q → q < x.src.conn.tcb.rcv.nxt.toNat →
    x.dst.conn.tcb.rcv.buffer (q % 65535) = x.src.conn.tcb.rcv.buffer (q % 65535)

/-- A connection before any close, holding only bytes that `R` allows. -/
structure Assembling (R : ℕ → U8 → Prop) (r : Reader) : Prop where
  phase : DataPhase r.conn
  abandoned : r.conn.tcb.timeoutCancelled = true → r.conn.tcb.state ≠ .established
  holding : r.conn.receiver.Holding R (2 ^ 32 - 1)
  /-- what a call is about to copy is there -/
  copying : ∀ call n, r.pc = .copying call n →
    r.conn.tcb.rcv.lbr.toNat + n.toNat ≤ r.conn.tcb.rcv.nxt.toNat

section Receiver

variable {c : Conn} {ev : Event} {o : Option ReadOutcome} {r : Receiver} {R : ℕ → U8 → Prop}
  {hi : ℕ}

theorem ReceiverMove.lbr_eq (hm : ReceiverMove c ev o r) (hread : ev.isRead = false)
    (hopen : c.tcb.state ≠ .synSent) : r.rcv.lbr = c.tcb.rcv.lbr := by
  cases hm with
  | same | inOrder | early | finCounted => rfl
  | opened hs => exact absurd hs hopen
  | read hcall => cases hcall <;> cases hread

/-- Where nothing is passed on to `Receive` and no FIN is counted, RCV.NXT stays. -/
theorem ReceiverMove.nxt_eq (hm : ReceiverMove c ev o r) (hopen : c.tcb.state ≠ .synSent)
    (hfin : c.countsFin ev = false) (hno : ∀ seg, ev = .segment seg →
      c.passesToReceive seg.hdr = false) : r.rcv.nxt = c.tcb.rcv.nxt := by
  cases hm with
  | same => rfl
  | opened hs => exact absurd hs hopen
  | inOrder hp | early hp => simp [hno _ rfl] at hp
  | finCounted h => simp [h] at hfin
  | read _ he =>
    obtain ⟨n, -, rfl, -⟩ := he.consumed
    rfl

/-- After ESTABLISHED, and before any close, no more data is taken. -/
theorem DataPhase.nxt_eq (hd : DataPhase c) (hm : ReceiverMove c ev o r)
    (hstate : c.tcb.state ≠ .established) : r.rcv.nxt = c.tcb.rcv.nxt := by
  have hst : c.tcb.state = .closeWait ∨ c.tcb.state = .closed := hd.state.resolve_left hstate
  refine hm.nxt_eq hd.not_opening.1 ?_ fun seg _ => ?_
  · cases ev with
    | segment seg => rcases hst with hs | hs <;> simp [Conn.countsFin, hs]
    | _ => rfl
  · rcases hst with hs | hs <;> simp [Conn.passesToReceive, hs]

/-- Data is stored between RCV.NXT and the right edge of the window, never over unread bytes. -/
theorem ReceiverMove.keeps (hm : ReceiverMove c ev o r) (h : c.receiver.Holding R hi) {q : ℕ}
    (hlo : c.tcb.rcv.lbr.toNat ≤ q) (hq : q < c.tcb.rcv.nxt.toNat) :
    r.rcv.buffer (q % 65535) = c.tcb.rcv.buffer (q % 65535) := by
  have hwnd := h.wnd
  have hle := h.lbr_le
  simp only [Conn.receiver_rcv] at hwnd hle
  cases hm with
  | same | opened | finCounted => rfl
  | @inOrder seg _ _ hc hfit =>
    have hroom : c.tcb.rcv.nxt.toNat + c.tcb.rcv.room c.tcb.rcv.nxt =
        c.tcb.rcv.lbr.toNat + 65535 :=
      h.room (Nat.le_refl _) (by simp only [Conn.receiver_rcv]; omega)
    exact Ring.store_apply_of_lt (by omega) hq (by omega)
  | @early seg _ _ hc hfit =>
    obtain ⟨hgt, hlt⟩ := classify_early hc
    have hroom : seg.hdr.seqNum.toNat + c.tcb.rcv.room seg.hdr.seqNum =
        c.tcb.rcv.lbr.toNat + 65535 :=
      h.room (by simp only [Conn.receiver_rcv]; bv_omega)
        (by simp only [Conn.receiver_rcv]; bv_omega)
    exact Ring.store_apply_of_lt (by omega) (by bv_omega) (by omega)
  | read _ he =>
    obtain ⟨n, -, rfl, -⟩ := he.consumed
    rfl

theorem Step.not_established {c c' : Conn} {l : Label} (h : Step c l c') (hd : DataPhase c)
    (hne : c.tcb.state ≠ .established) : c'.tcb.state ≠ .established := by
  have hm := h.state
  generalize c'.tcb.state = st at hm
  generalize l.ev = ev at hm
  cases hm with
  | same => exact hne
  | established hs => exact absurd hs (not_or.mpr hd.not_opening)
  | finWait1Fin | finSent => split <;> simp
  | _ => simp

end Receiver

theorem countsFin_of_keepsOpen {c : Conn} {ev : Event}
    (h : (ReaderEvent.conn ev).keepsOpen = true) : c.countsFin ev = false := by
  cases ev with
  | segment seg =>
    have hf : seg.hdr.hasFin = false := by simpa [ReaderEvent.keepsOpen] using h
    simp [Conn.countsFin, hf]
  | _ => rfl

section Assembling

variable {R : ℕ → U8 → Prop} {r r' : Reader} {l : ReaderLabel} {f : ℕ} {S : List U8}
  {tr : List (Move Reader ReaderLabel)}

theorem Segment.numbered_of_sliceOf {seg : Segment} (h : seg.sliceOf f S = true) (j : ℕ) (b : U8)
    (hb : seg.payload[j]? = some b) : Ring.Numbered f S (seg.hdr.seqNum.toNat + j) b := by
  simp only [Segment.sliceOf, Bool.or_eq_true, List.isEmpty_iff, Bool.and_eq_true,
    decide_eq_true_eq, List.isPrefixOf_iff_prefix] at h
  rcases h with hnil | ⟨hle, t, ht⟩
  · simp [hnil] at hb
  · refine ⟨by omega, ?_⟩
    have hlt := (List.getElem?_eq_some_iff.mp hb).1
    have hleft : (seg.payload ++ t)[j]? = seg.payload[j]? := List.getElem?_append_left hlt
    rw [← hb, ← hleft, ht, List.getElem?_drop]
    congr 1
    omega

theorem Established.assembling (h : Established r.conn) (hpc : r.pc = .outside) :
    Assembling R r where
  phase := h.dataPhase
  abandoned := by simp [h.timeoutCancelled]
  holding := h.toUntouched.holding (by omega)
  copying := by simp [hpc]

/-- A step of the connection outside `Read`. -/
theorem Assembling.conn (h : Assembling R r) {ev : Event} {o : Output} {c : Conn}
    (hs : Step r.conn ⟨ev, o⟩ c) (hread : ev.isRead = false)
    (hopen : (ReaderEvent.conn ev).keepsOpen = true)
    (hR : ∀ seg, ev = .segment seg → ∀ j b, seg.payload[j]? = some b →
      R (seg.hdr.seqNum.toNat + j) b) : Assembling R { r with conn := c } := by
  have hclose : ev ≠ .close := by
    rintro rfl
    cases hopen
  obtain ⟨hhold, hnxt, -⟩ := h.holding.move hs.receiver (by omega) h.phase.not_opening.1
    (countsFin_of_keepsOpen hopen) fun seg hev _ hlo hup hfit => ⟨h.holding.end_lt hlo hup hfit, hR seg hev⟩
  have hlbr : c.tcb.rcv.lbr = r.conn.tcb.rcv.lbr :=
    hs.receiver.lbr_eq hread h.phase.not_opening.1
  refine ⟨h.phase.step hs hclose, fun hcan => ?_, hhold, fun call n hcopy => ?_⟩
  · rcases hs.timeoutCancelled_cases with heq | ⟨-, hst⟩
    · exact hs.not_established h.phase (h.abandoned (heq ▸ hcan))
    · simp [hst]
  · simp only [Conn.receiver_rcv] at hnxt
    rw [hlbr]
    exact (h.copying call n hcopy).trans hnxt

/-- A step of the call changes the connection by what it copies out, and nothing else. -/
theorem ReaderMove.readBy {ev : ReaderEvent} {o : Option ReadOutcome} (hm : ReaderMove r ev o r')
    (hev : ∀ e, ev ≠ .conn e) : ∃ n, r'.conn = { r.conn with tcb := r.conn.tcb.readBy n } := by
  have hsame : r.conn = { r.conn with tcb := r.conn.tcb.readBy 0 } := by rw [TCB.readBy_zero]
  cases hm with
  | conn => exact absurd rfl (hev _)
  | copied => exact ⟨_, rfl⟩
  | cancel | refused | entered | returned | eof | waits | fixed => exact ⟨0, hsame⟩

/-- What a call fixes is there when it copies, whatever comes in between. -/
theorem ReaderMove.held {ev : ReaderEvent} {o : Option ReadOutcome} {hi : ℕ}
    (hm : ReaderMove r ev o r') (hev : ∀ e, ev ≠ .conn e) (h : r.conn.receiver.Holding R hi)
    (hcopy : ∀ call n, r.pc = .copying call n →
      r.conn.tcb.rcv.lbr.toNat + n.toNat ≤ r.conn.tcb.rcv.nxt.toNat) :
    r'.conn.receiver.Holding R hi ∧ ∀ call n, r'.pc = .copying call n →
      r'.conn.tcb.rcv.lbr.toNat + n.toNat ≤ r'.conn.tcb.rcv.nxt.toNat := by
  have hle := h.lbr_le
  simp only [Conn.receiver_rcv] at hle
  cases hm with
  | conn => exact absurd rfl (hev _)
  | cancel | refused => exact ⟨h, hcopy⟩
  | entered | returned | eof | waits => exact ⟨h, fun _ _ hc => by cases hc⟩
  | @fixed call =>
    refine ⟨h, fun call' n hc => ?_⟩
    obtain ⟨rfl, rfl⟩ := ReadPc.copying.inj hc
    have hav : (r.conn.tcb.available call).toNat ≤ _ := r.conn.tcb.available_le
    have hun := h.unread_le
    simp only [Conn.receiver_rcv] at hun ⊢
    omega
  | @copied call n hpc =>
    have hn := hcopy _ _ hpc
    have hread := Receiver.Holding.read (n := n) (o := r.conn.reading) h (by bv_omega)
    exact ⟨hread.1, fun _ _ hc => by cases hc⟩

theorem Assembling.step (h : Assembling R r) (hs : ReaderStep r l r')
    (hopen : l.ev.keepsOpen = true)
    (hR : ∀ seg, l.ev = .conn (.segment seg) → ∀ j b, seg.payload[j]? = some b →
      R (seg.hdr.seqNum.toNat + j) b) : Assembling R r' := by
  have hm := hs.moved
  generalize l.ev = ev at hm hopen hR
  generalize l.out.read = o at hm
  by_cases hev : ∀ e, ev ≠ .conn e
  · obtain ⟨hhold, hcopy⟩ := hm.held hev h.holding h.copying
    obtain ⟨n, hconn⟩ := hm.readBy hev
    refine ⟨?_, ?_, hhold, hcopy⟩
    · rw [hconn]
      exact { h.phase with }
    · rw [hconn]
      exact h.abandoned
  · cases hm with
    | conn hread hstep => exact h.conn hstep hread hopen fun seg hev => hR seg (by rw [hev])
    | _ => simp at hev

/-- No step writes over an unread byte. -/
theorem Assembling.keepsUnread (h : Assembling R r) (hs : ReaderStep r l r') :
    KeepsUnread ⟨r, l, r'⟩ := by
  intro q hlo hq
  have hm := hs.moved
  generalize l.ev = ev at hm
  generalize l.out.read = o at hm
  cases hm with
  | conn hread hstep => exact hstep.receiver.keeps h.holding hlo hq
  | _ => rfl

end Assembling

/-- The bytes the call under way has in hand. -/
def ReadPc.data (pc : ReadPc) : List U8 := (pc.call.map ReadCall.data).getD []

/-- What has been returned and what is in hand make up the stream up to LBR. Only a call that ends
with EOF drops bytes, and then no byte follows. -/
structure Assembled (f : ℕ) (S : List U8) (tr : List (Move Reader ReaderLabel)) (r : Reader) :
    Prop extends Assembling (Ring.Numbered f S) r where
  accounting : Accounting tr r
  first : f ≤ r.conn.tcb.rcv.lbr.toNat
  given : returnedBytes tr ++ r.pc.data = S.take (r.conn.tcb.rcv.lbr.toNat - f) ∨
    returnedBytes tr <+: S ∧ r.pc.data = [] ∧ r.conn.tcb.state ≠ .established ∧
      r.conn.tcb.rcv.lbr = r.conn.tcb.rcv.nxt

section Safety

variable {r r' : Reader} {l : ReaderLabel} {f : ℕ} {S : List U8}
  {tr : List (Move Reader ReaderLabel)}

theorem returnedBytes_snoc (x : Move Reader ReaderLabel) :
    returnedBytes (tr ++ [x]) = returnedBytes tr ++ (x.ev.out.read.map ReadOutcome.bytes).getD [] := by
  simp [returnedBytes]

theorem ReadPc.data_of_call {pc : ReadPc} {call : ReadCall} (h : pc.call = some call) :
    pc.data = call.data := by
  simp [ReadPc.data, h]

theorem Assembled.returned_initial (h : Assembled f S tr r) : returnedBytes tr <+: S := by
  rcases h.given with heq | ⟨hpre, -⟩
  · exact (List.prefix_append _ _).trans (heq ▸ List.take_prefix _ _)
  · exact hpre

/-- The stream up to LBR goes on with what is copied from there. -/
theorem Receiver.Holding.take_load {R : Receiver} {hi n : ℕ}
    (h : R.Holding (Ring.Numbered f S) hi) (hf : f ≤ R.rcv.lbr.toNat)
    (hn : R.rcv.lbr.toNat + n ≤ R.rcv.nxt.toNat) :
    S.take (R.rcv.lbr.toNat - f) ++ Ring.load 65535 R.rcv.buffer R.rcv.lbr.toNat n =
      S.take (R.rcv.lbr.toNat + n - f) := by
  have hload : Ring.load 65535 R.rcv.buffer R.rcv.lbr.toNat n =
      (S.drop (R.rcv.lbr.toNat - f)).take n :=
    h.held.load_eq hf (Nat.le_refl _) hn
  rw [hload, ← List.take_add]
  congr 1
  omega

theorem timeoutCancelled_of_eofByTimeout {ev : ReaderEvent} (h : r.eofByTimeout ev = true) :
    r.conn.tcb.timeoutCancelled = true := by
  cases ev with
  | step =>
    simp only [Reader.eofByTimeout, Bool.and_eq_true] at h
    exact h.1.1.1
  | _ => cases h

theorem enter_eof {n : U32} {readAll : Bool} (h : (r.enter n readAll).2.read = some .eof) :
    r.conn.tcb.state = .closeWait ∧ r.conn.tcb.rcv.lbr = r.conn.tcb.rcv.nxt := by
  simp only [Reader.enter] at h
  split at h
  · cases h
  split at h
  · cases h
  split at h
  · cases h
  split at h
  · rename_i hend
    exact hend
  · cases h

/-- An EOF is reported with nothing left to read, and it ends the call. -/
theorem ReaderStep.eof (hs : ReaderStep r l r') (hout : l.out.read = some .eof) :
    r.conn.tcb.rcv.lbr = r.conn.tcb.rcv.nxt ∧
      (r.conn.tcb.state = .closeWait ∨ r.eofByTimeout l.ev = true) ∧
      r' = { r with pc := .outside } := by
  have hm := hs.moved
  obtain ⟨ev, out⟩ := l
  simp only at hm hout ⊢
  rw [hout] at hm
  cases hm with
  | @refused n readAll _ hpc =>
    obtain ⟨env, h⟩ := hs
    simp only [Reader.step] at h
    split at h
    · have hread : (r.enter n readAll).2.read = some .eof := by rw [Option.some.inj h, hout]
      obtain ⟨hcw, hempty⟩ := enter_eof hread
      exact ⟨hempty, Or.inl hcw, by rw [← hpc]⟩
    · cases h
  | @eof call hpc hempty hend =>
    refine ⟨hempty, ?_, rfl⟩
    by_cases hcw : r.conn.tcb.state = .closeWait
    · exact Or.inl hcw
    · have hcan := hend.resolve_left hcw
      refine Or.inr ?_
      rcases hpc with ⟨hpc, hlt, hall⟩ | hpc
      · have hfull : call.readAll = true ∨ call.amountReadSoFar = 0 := by
          by_contra hno
          obtain ⟨hpart, hpos⟩ := not_or.mp hno
          exact hall ⟨Bool.eq_false_of_not_eq_true hpart, by bv_omega⟩
        simpa [Reader.eofByTimeout, hcan, hcw, hempty, hpc, hlt] using hfull
      · simp [Reader.eofByTimeout, hcan, hcw, hempty, hpc]

/-- A step that reports no EOF keeps what is returned and what is in hand the stream up to LBR. -/
theorem ReaderStep.given {hi : ℕ} (hs : ReaderStep r l r') (hout : l.out.read ≠ some .eof)
    (hopen : r.conn.tcb.state ≠ .synSent) (hacc : Accounting tr r)
    (h : r.conn.receiver.Holding (Ring.Numbered f S) hi)
    (hcopy : ∀ call n, r.pc = .copying call n →
      r.conn.tcb.rcv.lbr.toNat + n.toNat ≤ r.conn.tcb.rcv.nxt.toNat)
    (hfirst : f ≤ r.conn.tcb.rcv.lbr.toNat)
    (hgiven : returnedBytes tr ++ r.pc.data = S.take (r.conn.tcb.rcv.lbr.toNat - f)) :
    f ≤ r'.conn.tcb.rcv.lbr.toNat ∧ returnedBytes (tr ++ [⟨r, l, r'⟩]) ++ r'.pc.data =
      S.take (r'.conn.tcb.rcv.lbr.toNat - f) := by
  rw [returnedBytes_snoc]
  have hm := hs.moved
  obtain ⟨ev, out⟩ := l
  simp only at hm hout ⊢
  generalize out.read = o at hm hout
  cases hm with
  | conn hread hstep =>
    have hlbr := hstep.receiver.lbr_eq hread hopen
    simp only [Conn.receiver_rcv] at hlbr
    simp only [Option.map_none, Option.getD_none, List.append_nil, hlbr]
    exact ⟨hfirst, hgiven⟩
  | cancel => simpa using ⟨hfirst, hgiven⟩
  | @refused _ _ o hpc ho =>
    have hnil : o.bytes = [] := by rcases ho with rfl | rfl <;> rfl
    simpa [hnil] using ⟨hfirst, hgiven⟩
  | entered hpc =>
    rw [hpc] at hgiven
    simp only [Option.map_none, Option.getD_none, List.append_nil]
    exact ⟨hfirst, hgiven⟩
  | @returned call hpc =>
    obtain ⟨-, hlen, -⟩ := hacc.taken call (by rw [hpc]; rfl)
    have hbytes : (ReadOutcome.returned call.amountReadSoFar call.data).bytes = r.pc.data := by
      rw [hpc, ReadOutcome.bytes, hlen, List.take_length]
      rfl
    have hnil : (ReadPc.outside).data = [] := rfl
    rw [Option.map_some, Option.getD_some, hbytes, hnil, List.append_nil]
    exact ⟨hfirst, hgiven⟩
  | eof => exact absurd rfl hout
  | waits hpc | fixed hpc =>
    rw [ReadPc.data_of_call hpc] at hgiven
    simpa [ReadPc.data, ReadPc.call] using And.intro hfirst hgiven
  | @copied call n hpc =>
    have hle := hcopy call n hpc
    have hcall : r.pc.call = some call := by rw [hpc]; rfl
    have hlbr : (r.conn.tcb.readBy n).rcv.lbr.toNat = r.conn.tcb.rcv.lbr.toNat + n.toNat := by
      show (r.conn.tcb.rcv.lbr + n).toNat = _
      bv_omega
    rw [ReadPc.data_of_call hcall] at hgiven
    simp only [Option.map_none, Option.getD_none, List.append_nil, hlbr]
    refine ⟨by omega, ?_⟩
    have hload := h.take_load hfirst hle
    simp only [Conn.receiver_rcv] at hload
    rw [← hload, ← hgiven]
    simp [ReadPc.data, ReadPc.call]

/-- After an EOF that dropped bytes nothing more comes. -/
theorem Assembled.ended (h : Assembled f S tr r) (hs : ReaderStep r l r')
    (hnil : r.pc.data = []) (hne : r.conn.tcb.state ≠ .established)
    (hempty : r.conn.tcb.rcv.lbr = r.conn.tcb.rcv.nxt) :
    (l.out.read.map ReadOutcome.bytes).getD [] = [] ∧ r'.pc.data = [] ∧
      r'.conn.tcb.state ≠ .established ∧ r'.conn.tcb.rcv.lbr = r.conn.tcb.rcv.lbr ∧
      r'.conn.tcb.rcv.nxt = r.conn.tcb.rcv.nxt := by
  have hm := hs.moved
  obtain ⟨ev, out⟩ := l
  simp only at hm ⊢
  generalize out.read = o at hm
  cases hm with
  | conn hread hstep =>
    exact ⟨rfl, hnil, hstep.not_established h.phase hne,
      hstep.receiver.lbr_eq hread h.phase.not_opening.1, h.phase.nxt_eq hstep.receiver hne⟩
  | cancel => exact ⟨rfl, hnil, hne, rfl, rfl⟩
  | refused hpc ho => rcases ho with rfl | rfl <;> exact ⟨rfl, hnil, hne, rfl, rfl⟩
  | entered | eof => exact ⟨rfl, rfl, hne, rfl, rfl⟩
  | returned hpc =>
    rw [ReadPc.data_of_call (by rw [hpc]; rfl)] at hnil
    exact ⟨by simp [ReadOutcome.bytes, hnil], rfl, hne, rfl, rfl⟩
  | waits hpc | fixed hpc =>
    rw [ReadPc.data_of_call hpc] at hnil
    exact ⟨rfl, hnil, hne, rfl, rfl⟩
  | @copied call n hpc =>
    have hle := h.copying call n hpc
    rw [hempty] at hle
    obtain rfl : n = 0 := by bv_omega
    rw [ReadPc.data_of_call (by rw [hpc]; rfl)] at hnil
    rw [TCB.readBy_zero]
    exact ⟨rfl, by simp [ReadPc.data, ReadPc.call, hnil, Ring.load], hne, rfl, rfl⟩

theorem Assembled.step (h : Assembled f S tr r) (hs : ReaderStep r l r')
    (hopen : l.ev.keepsOpen = true) (hS : l.ev.carries f S = true) :
    Assembled f S (tr ++ [⟨r, l, r'⟩]) r' := by
  have hnext : Assembling (Ring.Numbered f S) r' := h.toAssembling.step hs hopen fun seg hev =>
    Segment.numbered_of_sliceOf (by rw [hev] at hS; exact hS)
  have hacc := h.accounting.step hs
  rcases h.given with heq | ⟨hpre, hnil, hne, hempty⟩
  · by_cases hout : l.out.read = some .eof
    · -- whatever the call had in hand is gone, and nothing comes after it
      obtain ⟨hempty, hend, rfl⟩ := hs.eof hout
      have hne : r.conn.tcb.state ≠ .established := by
        rcases hend with hcw | htime
        · simp [hcw]
        · exact h.abandoned (timeoutCancelled_of_eofByTimeout htime)
      refine ⟨hnext, hacc, h.first, Or.inr ⟨?_, rfl, hne, hempty⟩⟩
      rw [returnedBytes_snoc, hout]
      simpa [ReadOutcome.bytes] using h.returned_initial
    · obtain ⟨hfirst, hgiven⟩ :=
        hs.given hout h.phase.not_opening.1 h.accounting h.holding h.copying h.first heq
      exact ⟨hnext, hacc, hfirst, Or.inl hgiven⟩
  · obtain ⟨hbytes, hnil', hne', hlbr, hnxt⟩ := h.ended hs hnil hne hempty
    refine ⟨hnext, hacc, hlbr ▸ h.first, Or.inr ⟨?_, hnil', hne', ?_⟩⟩
    · rw [returnedBytes_snoc, hbytes, List.append_nil]
      exact hpre
    · rw [hlbr, hnxt]
      exact hempty

/-- However the stream is cut into segments and whatever order and overlaps they come in, `Read`
returns a prefix of it, and no segment is stored over an unread byte. -/
theorem reassembly_safe (h0 : Established r.conn) (hpc : r.pc = .outside)
    (hirs : r.conn.tcb.rcv.nxt = r.conn.tcb.rcv.irs + 1) (h : Run ReaderStep r tr r')
    (hopen : ∀ x ∈ tr, x.ev.ev.keepsOpen = true)
    (hS : ∀ x ∈ tr, x.ev.ev.carries (r.conn.tcb.rcv.irs + 1).toNat S = true) :
    returnedBytes tr <+: S ∧ ∀ x ∈ tr, KeepsUnread x := by
  have hstart : Assembled (r.conn.tcb.rcv.irs + 1).toNat S [] r :=
    { h0.assembling hpc with
      accounting := ⟨by simp [hpc, ReadPc.call], by simp [hpc]⟩
      first := by rw [h0.lbr, hirs]
      given := by
        refine Or.inl ?_
        rw [h0.lbr, hirs]
        simp [returnedBytes, ReadPc.data, hpc, ReadPc.call] }
  have hinv : ∀ {tr r'}, Run ReaderStep r tr r' → (∀ x ∈ tr, x.ev.ev.keepsOpen = true ∧
      x.ev.ev.carries (r.conn.tcb.rcv.irs + 1).toNat S = true) →
      Assembled (r.conn.tcb.rcv.irs + 1).toNat S tr r' := by
    intro tr r' h hok
    exact h.inv (I := Assembled (r.conn.tcb.rcv.irs + 1).toNat S) hstart
      (along_of_forall_mem hok) fun tr t l u ht hs hx => ht.step hs hx.1 hx.2
  refine ⟨(hinv h fun x hx => ⟨hopen x hx, hS x hx⟩).returned_initial, fun x hx => ?_⟩
  obtain ⟨pre, post, htr⟩ := List.append_of_mem hx
  obtain ⟨hpre, hstep⟩ := h.pre htr
  have hmem : ∀ y ∈ pre, y ∈ tr := fun y hy => by simp [htr, hy]
  have hI := hinv hpre fun y hy => ⟨hopen y (hmem y hy), hS y (hmem y hy)⟩
  exact hI.toAssembling.keepsUnread hstep

/-- Overlapping pieces out of order, and a read between them. -/
theorem reassembly_safe_overlaps :
    let r : Reader := { conn := Conn.fresh 100 100 500 }
    let S : List U8 := [1, 2, 3, 4, 5, 6]
    let tr := (r.play [.conn (.segment (Segment.fromPeer 502 100 16 1000 [3, 4] (by simp))),
      .conn (.segment (Segment.fromPeer 501 100 16 1000 [2, 3, 4, 5] (by simp))),
      .conn (.segment (Segment.fromPeer 500 100 16 1000 [1, 2] (by simp))), .enter 3 true, .step,
      .step, .step, .conn (.segment (Segment.fromPeer 504 100 16 1000 [5, 6] (by simp)))]).1
    returnedBytes tr = [1, 2, 3] ∧ tr.length = 8 ∧
      (returnedBytes tr <+: S ∧ ∀ x ∈ tr, KeepsUnread x) :=
  ⟨by decide, by decide, reassembly_safe (established_fresh (Or.inl rfl)) rfl (by decide)
    (Reader.play_run _ _) (by decide) (by decide)⟩

end Safety

end TcpIp
