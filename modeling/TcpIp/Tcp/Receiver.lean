import TcpIp.Lib.Run
import TcpIp.Tcp.Moves

/-! The receiving half of a connection as a machine of its own, and the connection's refinement
of it. -/
namespace TcpIp

/-- What the receiving half reads and writes. -/
structure Receiver where
  rcv : Receive
  early : List EarlyArrivalEntry
  reading : Option ReadCall

def Conn.receiver (c : Conn) : Receiver := ⟨c.tcb.rcv, c.tcb.earlyArrivals, c.reading⟩

@[simp] theorem Conn.receiver_rcv (c : Conn) : c.receiver.rcv = c.tcb.rcv := rfl

@[simp] theorem Conn.receiver_early (c : Conn) : c.receiver.early = c.tcb.earlyArrivals := rfl

@[simp] theorem Conn.receiver_reading (c : Conn) : c.receiver.reading = c.reading := rfl

/-- The call of `Read` that an event enters or wakes. -/
inductive ReadCalls (c : Conn) : Event → ReadCall → ReadOutcome → Prop
  | enter {n : U32} {readAll : Bool} {o : ReadOutcome} (hr : c.reading = none)
      (hh : c.hasHandle = true) (ht : c.tcb.timeoutCancelled = true → o = .failed) :
      ReadCalls c (.read n readAll) { amountToRead := n, readAll } o
  | wake {call : ReadCall} {o : ReadOutcome} (hr : c.reading = some call) :
      ReadCalls c .readWake call o

/-- What a step can do to the receiving half, and what `Read` shows. -/
inductive ReceiverMove (c : Conn) : Event → Option ReadOutcome → Receiver → Prop
  | same {ev : Event} (h : c.countsFin ev = false) : ReceiverMove c ev none c.receiver
  | opened {seg : Segment} (hs : c.tcb.state = .synSent) :
      ReceiverMove c (.segment seg) none
        { c.receiver with
          rcv := { c.tcb.rcv with
            nxt := seg.hdr.seqNum + 1
            lbr := seg.hdr.seqNum + 1
            irs := seg.hdr.seqNum } }
  | inOrder {seg : Segment} (hp : c.passesToReceive seg.hdr = true) (hpos : 0 < seg.payload.length)
      (hc : c.tcb.rcv.classify seg.hdr.seqNum = .inOrder)
      (hfit : seg.payload.length ≤ c.tcb.rcv.room c.tcb.rcv.nxt) :
      ReceiverMove c (.segment seg) none
        ⟨(c.tcb.tookInOrder seg.payload).rcv, (c.tcb.tookInOrder seg.payload).earlyArrivals,
          c.reading⟩
  | early {seg : Segment} (hp : c.passesToReceive seg.hdr = true) (hpos : 0 < seg.payload.length)
      (hc : c.tcb.rcv.classify seg.hdr.seqNum = .early)
      (hfit : seg.payload.length ≤ c.tcb.rcv.room seg.hdr.seqNum) :
      ReceiverMove c (.segment seg) none
        ⟨(c.tcb.tookEarly seg.hdr.seqNum seg.payload).rcv,
          (c.tcb.tookEarly seg.hdr.seqNum seg.payload).earlyArrivals, c.reading⟩
  | finCounted {seg : Segment} (h : c.countsFin (.segment seg) = true) :
      ReceiverMove c (.segment seg) none
        { c.receiver with rcv := { c.tcb.rcv with nxt := c.tcb.rcv.nxt + 1 } }
  | read {ev : Event} {call : ReadCall} {t : TCB} {o : ReadOutcome} (hcall : ReadCalls c ev call o)
      (h : ReadEffect c.tcb call t o) :
      ReceiverMove c ev o.shown ⟨t.rcv, c.tcb.earlyArrivals, o.pending⟩

section Refinement

variable {c c' : Conn} {seg : Segment} {out : List Msg} {l : Label}

theorem countsFin_of_passes (h : c.passesToReceive seg.hdr = true) :
    c.countsFin (.segment seg) = false := by
  simp only [Conn.passesToReceive, Bool.and_eq_true] at h
  obtain ⟨hack, h⟩ := h
  cases hs : c.tcb.state <;> simp_all [Conn.countsFin]
  rcases h with h | h <;> simp [h]

theorem received_receiver {st : ConnectionState} {u t : TCB} {o₁ o₂ : List Msg}
    (hp : c.passesToReceive seg.hdr = true)
    (hd : DataEffect { c.tcb with state := st } c.key seg u o₁)
    (ha : AckEffect u c.key seg.hdr t o₂) :
    ReceiverMove c (.segment seg) none ({ c with tcb := t } : Conn).receiver := by
  obtain ⟨snd, q, cwnd, b, rfl⟩ := ha.frame
  cases hd with
  | empty | refused => exact .same (countsFin_of_passes hp)
  | inOrder hpos hc hfit =>
    rw [TCB.ackData_eq]
    exact .inOrder hp hpos hc hfit
  | early hpos hc hfit =>
    rw [TCB.ackData_eq]
    exact .early hp hpos hc hfit

theorem Handled.receiver (h : Handled c seg c' out) :
    ReceiverMove c (.segment seg) none c'.receiver := by
  cases h with
  | ignored _ hf => exact .same hf
  | synSent iss hs _ _ hc' =>
    subst hc'
    exact .opened hs
  | synRepeated hs | accepted hs => exact .same (by simp [Conn.countsFin, hs])
  | received hr hack hd ha => exact received_receiver (hr.passes hack) hd ha
  | fin hs =>
    have hsame : ({ c with tcb := (c.tcb.receiveFin c.key seg.hdr).1 } : Conn).receiver =
        c.receiver := by
      unfold TCB.receiveFin
      split
      · rfl
      · split <;> rfl
    rw [hsame]
    exact .same (by simp [Conn.countsFin, hs])
  | finWait1Fin hs hack ha hf => exact .finCounted (by simp [Conn.countsFin, hs, hack, ha, hf])
  | finWait2Fin hs hf hseq hs' =>
    subst hs'
    exact .finCounted (by simp [Conn.countsFin, hs, hf, hseq])
  | closingAcked hs => exact .same (by simp [Conn.countsFin, hs])
  | finRepeated hs => exact .same (by rcases hs with hs | hs <;> simp [Conn.countsFin, hs])
  | lastAcked k hs => exact .same (by simp [Conn.countsFin, hs])

/-- Every step of the connection is a step of its receiving half. -/
theorem Step.receiver (h : Step c l c') : ReceiverMove c l.ev l.out.read c'.receiver := by
  have hm := h.moved
  generalize l.ev = ev at hm
  generalize l.out = o at hm
  cases hm with
  | segment hin hh => exact hh.receiver
  | wrote hh hw =>
    obtain ⟨-, -, buffer, rfl, -⟩ := writeRound_wrote hw
    exact .same rfl
  | read hr hh hin he ht =>
    have hm := ReceiverMove.read (.enter hr hh ht) he
    obtain ⟨n, -, rfl, -⟩ := he.consumed
    exact hm
  | readWake hr he =>
    have hm := ReceiverMove.read (.wake hr) he
    obtain ⟨n, -, rfl, -⟩ := he.consumed
    exact hm
  | send he =>
    generalize c.send = pc at he
    cases he <;> exact .same rfl
  | closeWaits hc | closes hc => cases hc <;> exact .same rfl
  | handshakeGaveUp hev => rcases hev with ⟨rfl, -⟩ | ⟨rfl, -⟩ <;> exact .same rfl
  | handshakeResent hev => rcases hev with ⟨rfl, -⟩ | ⟨rfl, -⟩ <;> exact .same rfl
  | notWritten | probe | closeReturn | timerStopped | timerIdle | gaveUp | resent | ackToken
  | expired | enableCC | initCC => exact .same rfl

theorem Step.rcv_of_countsFin (h : Step c l c') (hf : c.countsFin l.ev = true) :
    c'.tcb.rcv = { c.tcb.rcv with nxt := c.tcb.rcv.nxt + 1 } := by
  have hm := h.receiver
  rw [← Conn.receiver_rcv c']
  generalize l.ev = ev at hm hf
  generalize c'.receiver = r at hm
  generalize l.out.read = o at hm
  cases hm with
  | same h => simp [h] at hf
  | opened hs => simp [Conn.countsFin, hs] at hf
  | inOrder hp | early hp => simp [countsFin_of_passes hp] at hf
  | finCounted => rfl
  | read hcalls => cases hcalls <;> simp [Conn.countsFin] at hf

end Refinement

/-- The receiving half holds from LBR on, in order and early, only bytes that `R` allows, all
below `hi`; window and unread data fill the buffer. -/
structure Receiver.Holding (R : ℕ → U8 → Prop) (hi : ℕ) (r : Receiver) : Prop where
  lbr_le : r.rcv.lbr.toNat ≤ r.rcv.nxt.toNat
  nxt_le : r.rcv.nxt.toNat ≤ hi
  wnd : r.rcv.wnd.toNat + r.rcv.nxt.toNat = r.rcv.lbr.toNat + 65535
  held : Ring.Holds 65535 r.rcv.buffer R r.rcv.lbr.toNat r.rcv.nxt.toNat
  early : ∀ e ∈ r.early,
    e.sequenceNum.toNat + e.payloadLen.toNat ≤ hi ∧
    e.sequenceNum.toNat + e.payloadLen.toNat ≤ r.rcv.lbr.toNat + 65535 ∧
    Ring.Holds 65535 r.rcv.buffer R (max r.rcv.lbr.toNat e.sequenceNum.toNat)
      (e.sequenceNum.toNat + e.payloadLen.toNat)

section Holding

variable {R R' : ℕ → U8 → Prop} {hi hi' : ℕ} {r : Receiver} {s : TCB} {payload : List U8}
  {call : Option ReadCall}

theorem Receiver.Holding.mono (h : r.Holding R hi) (hhi : hi ≤ hi') (hR : ∀ q b, R q b → R' q b) :
    r.Holding R' hi' where
  lbr_le := h.lbr_le
  nxt_le := h.nxt_le.trans hhi
  wnd := h.wnd
  held := h.held.mono (Nat.le_refl _) (Nat.le_refl _) hR
  early e he := by
    obtain ⟨h1, h2, h3⟩ := h.early e he
    exact ⟨h1.trans hhi, h2, h3.mono (Nat.le_refl _) (Nat.le_refl _) hR⟩

theorem Receiver.Holding.unread_le (h : r.Holding R hi) :
    (r.rcv.nxt - r.rcv.lbr).toNat = r.rcv.nxt.toNat - r.rcv.lbr.toNat ∧
      r.rcv.nxt.toNat - r.rcv.lbr.toNat ≤ 65535 := by
  have hle := h.lbr_le
  have hwnd := h.wnd
  constructor
  · bv_omega
  · omega

theorem Receiver.Holding.room (h : r.Holding R hi) {start : U32}
    (hlo : r.rcv.nxt.toNat ≤ start.toNat) (hhi : start.toNat ≤ r.rcv.lbr.toNat + 65535) :
    start.toNat + r.rcv.room start = r.rcv.lbr.toNat + 65535 := by
  have hle := h.lbr_le
  have hsub : (start - r.rcv.lbr).toNat = start.toNat - r.rcv.lbr.toNat := by bv_omega
  rw [Receive.room, BitVec.toNat_sub, toNat_maxBufSize, hsub]
  omega

/-- Storing allowed bytes inside the window keeps what was held. -/
theorem Receiver.Holding.store (h : r.Holding R hi) {start lo up : ℕ}
    (hbytes : ∀ j b, payload[j]? = some b → R (start + j) b) (hlo : r.rcv.lbr.toNat ≤ lo)
    (hup : up ≤ r.rcv.lbr.toNat + 65535) (hs : r.rcv.nxt.toNat ≤ start)
    (hlen : start + payload.length ≤ r.rcv.lbr.toNat + 65535)
    (hheld : Ring.Holds 65535 r.rcv.buffer R lo up) :
    Ring.Holds 65535 (Ring.store 65535 r.rcv.buffer start payload) R lo up :=
  hheld.store (by omega) hbytes hlo hup (h.lbr_le.trans hs) hlen

theorem Receiver.Holding.inOrder (h : (⟨s.rcv, s.earlyArrivals, call⟩ : Receiver).Holding R hi)
    (hhi : hi < 2 ^ 32) (hlen : payload.length ≤ 65535)
    (hfit : payload.length ≤ s.rcv.room s.rcv.nxt)
    (hbytes : ∀ j b, payload[j]? = some b → R (s.rcv.nxt.toNat + j) b)
    (hend : s.rcv.nxt.toNat + payload.length ≤ hi) :
    (⟨(s.tookInOrder payload).rcv, (s.tookInOrder payload).earlyArrivals, call⟩ :
        Receiver).Holding R hi ∧
      s.rcv.nxt.toNat + payload.length ≤ (s.tookInOrder payload).rcv.nxt.toNat := by
  have hle : s.rcv.lbr.toNat ≤ s.rcv.nxt.toNat := h.lbr_le
  have hwnd : s.rcv.wnd.toNat + s.rcv.nxt.toNat = s.rcv.lbr.toNat + 65535 := h.wnd
  have hroom : s.rcv.nxt.toNat + s.rcv.room s.rcv.nxt = s.rcv.lbr.toNat + 65535 :=
    h.room (Nat.le_refl _) (by simp only; omega)
  have hL := toNat_ofNat_length hlen
  have hkeep : ∀ lo up, s.rcv.lbr.toNat ≤ lo → up ≤ s.rcv.lbr.toNat + 65535 →
      Ring.Holds 65535 s.rcv.buffer R lo up →
      Ring.Holds 65535 (Ring.store 65535 s.rcv.buffer s.rcv.nxt.toNat payload) R lo up :=
    fun lo up hlo hup => h.store hbytes hlo hup (Nat.le_refl _) (by simp only; omega)
  have hnxt : (s.rcv.nxt + BitVec.ofNat 32 payload.length).toNat =
      s.rcv.nxt.toNat + payload.length := by
    rw [BitVec.toNat_add, hL]
    omega
  have hearly : ∀ e ∈ s.earlyArrivals, _ := h.early
  -- the merge goes from entry to entry, each of which continues the data held so far
  have hmerged := updateAckNum_induction (q := s.earlyArrivals)
    (n := s.rcv.nxt + BitVec.ofNat 32 payload.length)
    (P := fun n => s.rcv.nxt.toNat + payload.length ≤ n.toNat ∧ n.toNat ≤ hi ∧
      n.toNat ≤ s.rcv.lbr.toNat + 65535 ∧
      Ring.Holds 65535 (Ring.store 65535 s.rcv.buffer s.rcv.nxt.toNat payload) R
        s.rcv.lbr.toNat n.toNat)
    ⟨by omega, by omega, by omega, by
      rw [hnxt]
      exact (hkeep s.rcv.lbr.toNat s.rcv.nxt.toNat (Nat.le_refl _) (by omega) h.held).append
        (Ring.holds_store (by omega) hlen hbytes)⟩
    (by
      rintro e he ⟨hlo, hhi', hedge, hheld⟩
      obtain ⟨he1, he2, he3⟩ := hearly e he
      have hsum : (e.sequenceNum + e.payloadLen).toNat =
          e.sequenceNum.toNat + e.payloadLen.toNat := by
        rw [BitVec.toNat_add]
        omega
      rw [hsum]
      simp only at he3
      rw [Nat.max_eq_right (by omega)] at he3
      exact ⟨by omega, he1, he2, hheld.append (hkeep _ _ (by omega) he2 he3)⟩)
  obtain ⟨hlo, hhi', hedge, hheld⟩ := hmerged
  refine ⟨⟨?_, hhi', ?_, hheld, fun e he => ?_⟩, hlo⟩
  · show s.rcv.lbr.toNat ≤ _
    exact (by omega : s.rcv.lbr.toNat ≤ s.rcv.nxt.toNat + payload.length).trans hlo
  · simp only [TCB.tookInOrder, Receive.stored]
    rw [BitVec.toNat_sub, BitVec.toNat_sub, BitVec.toNat_sub, hnxt, hL]
    omega
  · obtain ⟨he1, he2, he3⟩ := hearly e (updateAckNum_subset he)
    exact ⟨he1, he2, hkeep _ _ (Nat.le_max_left _ _) he2 he3⟩

theorem Receiver.Holding.takenEarly (h : (⟨s.rcv, s.earlyArrivals, call⟩ : Receiver).Holding R hi)
    {seqNum : U32} (hlen : payload.length ≤ 65535) (hc : s.rcv.classify seqNum = .early)
    (hfit : payload.length ≤ s.rcv.room seqNum)
    (hbytes : ∀ j b, payload[j]? = some b → R (seqNum.toNat + j) b)
    (hend : seqNum.toNat + payload.length ≤ hi) :
    (⟨(s.tookEarly seqNum payload).rcv, (s.tookEarly seqNum payload).earlyArrivals, call⟩ :
      Receiver).Holding R hi := by
  obtain ⟨hgt, hlt⟩ := classify_early hc
  have hle : s.rcv.lbr.toNat ≤ s.rcv.nxt.toNat := h.lbr_le
  have hwnd : s.rcv.wnd.toNat + s.rcv.nxt.toNat = s.rcv.lbr.toNat + 65535 := h.wnd
  have hseq : s.rcv.nxt.toNat ≤ seqNum.toNat := by bv_omega
  have hedge : seqNum.toNat ≤ s.rcv.lbr.toNat + 65535 := by bv_omega
  have hroom : seqNum.toNat + s.rcv.room seqNum = s.rcv.lbr.toNat + 65535 := h.room hseq hedge
  have hL := toNat_ofNat_length hlen
  have hkeep : ∀ lo up, s.rcv.lbr.toNat ≤ lo → up ≤ s.rcv.lbr.toNat + 65535 →
      Ring.Holds 65535 s.rcv.buffer R lo up →
      Ring.Holds 65535 (Ring.store 65535 s.rcv.buffer seqNum.toNat payload) R lo up :=
    fun lo up hlo hup => h.store hbytes hlo hup hseq (by simp only; omega)
  have hheld := hkeep s.rcv.lbr.toNat s.rcv.nxt.toNat (Nat.le_refl _) (by omega) h.held
  refine ⟨hle, h.nxt_le, hwnd, hheld, ?_⟩
  intro e he
  rcases EarlyArrivalQueue.mem_push.mp he with rfl | he
  · simp only [hL]
    have hedge' : seqNum.toNat + payload.length ≤ s.rcv.lbr.toNat + 65535 := by omega
    refine ⟨hend, hedge', ?_⟩
    show Ring.Holds 65535 (Ring.store 65535 s.rcv.buffer seqNum.toNat payload) R
      (max s.rcv.lbr.toNat seqNum.toNat) _
    rw [Nat.max_eq_right (by omega)]
    exact Ring.holds_store (by omega) hlen hbytes
  · obtain ⟨he1, he2, he3⟩ := h.early e he
    exact ⟨he1, he2, hkeep _ _ (Nat.le_max_left _ _) he2 he3⟩

/-- `Read` frees the room of what it consumes. -/
theorem Receiver.Holding.read {n : U32} {o : Option ReadCall}
    (h : (⟨s.rcv, s.earlyArrivals, call⟩ : Receiver).Holding R hi)
    (hn : n ≤ s.rcv.nxt - s.rcv.lbr) :
    (⟨(s.readBy n).rcv, s.earlyArrivals, o⟩ : Receiver).Holding R hi ∧
      (s.readBy n).rcv.lbr.toNat = s.rcv.lbr.toNat + n.toNat ∧
      s.rcv.lbr.toNat + n.toNat ≤ s.rcv.nxt.toNat := by
  have hle : s.rcv.lbr.toNat ≤ s.rcv.nxt.toNat := h.lbr_le
  have hwnd : s.rcv.wnd.toNat + s.rcv.nxt.toNat = s.rcv.lbr.toNat + 65535 := h.wnd
  have hn' : s.rcv.lbr.toNat + n.toNat ≤ s.rcv.nxt.toNat := by bv_omega
  have hlbr : (s.readBy n).rcv.lbr.toNat = s.rcv.lbr.toNat + n.toNat := by
    show (s.rcv.lbr + n).toNat = _
    rw [BitVec.toNat_add]
    omega
  refine ⟨⟨?_, h.nxt_le, ?_, ?_, fun e he => ?_⟩, hlbr, hn'⟩
  · simp only [hlbr]
    exact hn'
  · show (s.rcv.wnd + n).toNat + s.rcv.nxt.toNat = (s.readBy n).rcv.lbr.toNat + 65535
    rw [hlbr, BitVec.toNat_add]
    omega
  · simp only [hlbr]
    exact h.held.sub (Nat.le_add_right _ _) (Nat.le_refl _)
  · obtain ⟨he1, he2, he3⟩ := h.early e he
    simp only [hlbr]
    simp only at he2 he3
    exact ⟨he1, by omega, he3.sub (by omega) (Nat.le_refl _)⟩

/-- One step of the receiving half after the handshake, all data that it takes being allowed. -/
theorem Receiver.Holding.move {c : Conn} {ev : Event} {o : Option ReadOutcome}
    (h : c.receiver.Holding R hi) (hm : ReceiverMove c ev o r) (hhi : hi < 2 ^ 32)
    (hopen : c.tcb.state ≠ .synSent) (hfin : c.countsFin ev = false)
    (htake : ∀ seg, ev = .segment seg → 0 < seg.payload.length →
      c.tcb.rcv.nxt ≤ seg.hdr.seqNum →
      seg.hdr.seqNum < c.tcb.rcv.nxt + c.tcb.rcv.wnd →
      seg.payload.length ≤ c.tcb.rcv.room seg.hdr.seqNum →
      seg.hdr.seqNum.toNat + seg.payload.length ≤ hi ∧
        ∀ j b, seg.payload[j]? = some b → R (seg.hdr.seqNum.toNat + j) b) :
    r.Holding R hi ∧ c.tcb.rcv.nxt.toNat ≤ r.rcv.nxt.toNat ∧
      c.tcb.rcv.lbr.toNat ≤ r.rcv.lbr.toNat := by
  cases hm with
  | same => exact ⟨h, Nat.le_refl _, Nat.le_refl _⟩
  | opened hs => exact absurd hs hopen
  | @inOrder seg _ hpos hc hfit =>
    obtain ⟨hseq, hlt⟩ := classify_inOrder hc
    obtain ⟨hend, hbytes⟩ := htake seg rfl hpos (by simp [hseq]) (by rwa [hseq]) (by rwa [hseq])
    rw [hseq] at hend hbytes
    obtain ⟨hhold, hnxt⟩ := h.inOrder hhi seg.payload_le hfit hbytes hend
    exact ⟨hhold, by simp only; omega, Nat.le_refl _⟩
  | @early seg _ hpos hc hfit =>
    obtain ⟨hgt, hlt⟩ := classify_early hc
    obtain ⟨hend, hbytes⟩ := htake seg rfl hpos (BitVec.le_of_lt hgt) hlt hfit
    exact ⟨h.takenEarly seg.payload_le hc hfit hbytes hend, Nat.le_refl _, Nat.le_refl _⟩
  | finCounted h' => simp [h'] at hfin
  | read _ he =>
    obtain ⟨n, hn, rfl, -⟩ := he.consumed
    obtain ⟨hhold, hlbr, -⟩ := h.read hn
    exact ⟨hhold, Nat.le_refl _, by simp only [hlbr]; omega⟩

end Holding

end TcpIp
