import TcpIp.Tcp.Closing

/-! The zero-window prober as a goroutine of its own, which `Send` cancels through a channel. -/
namespace TcpIp

open Runs

/-- A connection with its probe goroutine. -/
structure Prober where
  conn : Conn
  /-- the goroutine runs -/
  ticking : Bool := false
  /-- `Send` has counted the probed byte and offers the cancel message, with the lock -/
  cancelling : Bool := false

inductive ProberEvent
  /-- a step of anything but `Send` and its prober -/
  | conn (ev : Event)
  | send
  /-- a tick of the goroutine's timer -/
  | tick
  /-- the goroutine receives from `cancelChan` -/
  | cancel
  deriving DecidableEq

/-- A step of `Send` or of its prober as the connection has it. -/
def Event.isSend : Event → Bool
  | .send | .probe => true
  | _ => false

namespace Prober

/-- The step of `Send` counts the probed byte. -/
def leaves (r : Prober) : Bool :=
  r.conn.send = .zeroWait && !r.conn.tcb.cancelled && r.conn.tcb.snd.wnd ≠ 0

/-- One step; while `Send` offers the cancel message it holds the lock, and nothing but the
goroutine moves. -/
def step (r : Prober) (env : Env) : ProberEvent → Option (Prober × Output)
  | .conn ev =>
    if r.cancelling ∨ ev.isSend then none
    else (r.conn.step env ev).map fun q => ({ r with conn := q.1 }, q.2)
  | .send =>
    if r.cancelling then none
    else if r.leaves then
      let s := r.conn.tcb
      some ({ r with
        conn := { r.conn with tcb := { s with snd := { s.snd with nxt := s.snd.nxt + 1 } } }
        cancelling := true }, {})
    else (r.conn.step env .send).map fun q =>
      ({ r with conn := q.1, ticking := r.ticking || q.1.send = .zeroWait }, q.2)
  | .tick =>
    if r.ticking then
      some ({ r with ticking := !r.conn.tcb.cancelled }, { msgs := r.conn.tcb.probe r.conn.key })
    else none
  | .cancel =>
    if r.ticking ∧ r.cancelling then
      some ({
        conn := { r.conn with send := r.conn.tcb.sendWindow }
        ticking := false
        cancelling := false }, {})
    else none

end Prober

structure ProberLabel where
  ev : ProberEvent
  out : Output

def ProberStep (r : Prober) (l : ProberLabel) (r' : Prober) : Prop :=
  ∃ env, r.step env l.ev = some (r', l.out)

/-- What a step can do. -/
inductive ProberMove (r : Prober) : ProberEvent → Output → Prober → Prop
  | conn {ev : Event} {o : Output} {c : Conn} (hfree : r.cancelling = false)
      (hsend : ev ≠ .send) (h : Step r.conn ⟨ev, o⟩ c) :
      ProberMove r (.conn ev) o { r with conn := c }
  | leaves (hfree : r.cancelling = false) (hz : r.conn.send = .zeroWait)
      (hc : r.conn.tcb.cancelled = false) :
      ProberMove r .send {}
        { r with
          conn := { r.conn with
            tcb := { r.conn.tcb with
              snd := { r.conn.tcb.snd with nxt := r.conn.tcb.snd.nxt + 1 } } }
          cancelling := true }
  | send {o : Output} {c : Conn} (hfree : r.cancelling = false)
      (hz : r.conn.send = .zeroWait → r.conn.tcb.cancelled = true ∨ c.send = .zeroWait)
      (h : Step r.conn ⟨.send, o⟩ c) :
      ProberMove r .send o { r with conn := c, ticking := r.ticking || c.send = .zeroWait }
  | stops (ht : r.ticking = true) (hc : r.conn.tcb.cancelled = true) :
      ProberMove r .tick {} { r with ticking := false }
  | probes (ht : r.ticking = true) (hc : r.conn.tcb.cancelled = false) :
      ProberMove r .tick
        { msgs := [r.conn.tcb.dataMsg r.conn.key .probe
            [r.conn.tcb.snd.buffer (sequenceToBufferInd r.conn.tcb.snd.nxt).toNat]] } r
  | cancelled (ht : r.ticking = true) (hcancel : r.cancelling = true) :
      ProberMove r .cancel {}
        { conn := { r.conn with send := r.conn.tcb.sendWindow }
          ticking := false
          cancelling := false }

section Moves

variable {r r' r₁ : Prober} {l : ProberLabel} {env : Env}

theorem ProberStep.moved (h : ProberStep r l r') : ProberMove r l.ev l.out r' := by
  obtain ⟨env, h⟩ := h
  obtain ⟨ev, o⟩ := l
  simp only at h ⊢
  cases ev with
  | conn ev =>
    simp only [Prober.step] at h
    split at h
    · cases h
    · rename_i hno
      rw [not_or] at hno
      obtain ⟨q, hq, heq⟩ := Option.map_eq_some_iff.mp h
      obtain ⟨rfl, rfl⟩ := Prod.mk.inj heq
      refine .conn (Bool.eq_false_of_not_eq_true hno.1) ?_ ⟨env, hq⟩
      rintro rfl
      exact hno.2 rfl
  | send =>
    simp only [Prober.step] at h
    split at h
    · cases h
    rename_i hfree
    have hfree' := Bool.eq_false_of_not_eq_true hfree
    split at h
    · rename_i hleaves
      simp only [Prober.leaves, Bool.and_eq_true, decide_eq_true_eq, Bool.not_eq_true'] at hleaves
      obtain ⟨rfl, rfl⟩ := Prod.mk.inj (Option.some.inj h)
      exact .leaves hfree' hleaves.1.1 hleaves.1.2
    · rename_i hstays
      obtain ⟨q, hq, heq⟩ := Option.map_eq_some_iff.mp h
      obtain ⟨rfl, rfl⟩ := Prod.mk.inj heq
      refine .send hfree' (fun hz => ?_) ⟨env, hq⟩
      simp only [Prober.leaves, hz, decide_true, Bool.true_and, Bool.and_eq_true,
        Bool.not_eq_true', decide_eq_true_eq, not_and, not_not] at hstays
      by_cases hc : r.conn.tcb.cancelled = true
      · exact Or.inl hc
      · have hw := hstays (Bool.eq_false_of_not_eq_true hc)
        simp only [Conn.step, hz, TCB.sendStep, if_neg hc, if_pos hw] at hq
        cases hq
        exact Or.inr rfl
  | tick =>
    simp only [Prober.step, TCB.probe] at h
    split at h
    · rename_i ht
      obtain ⟨rfl, rfl⟩ := Prod.mk.inj (Option.some.inj h)
      split
      · rename_i hc
        rw [hc]
        exact .stops ht hc
      · rename_i hc
        rw [Bool.eq_false_of_not_eq_true hc, Bool.not_false, ← ht]
        exact .probes ht (Bool.eq_false_of_not_eq_true hc)
    · cases h
  | cancel =>
    simp only [Prober.step] at h
    split at h
    · rename_i hboth
      obtain ⟨rfl, rfl⟩ := Prod.mk.inj (Option.some.inj h)
      exact .cancelled hboth.1 hboth.2
    · cases h

/-- With nothing in between, counting the byte and the hand-over are the connection's one step. -/
theorem leaves_cancel (hleaves : r.leaves = true) (hfree : r.cancelling = false)
    (ht : r.ticking = true) (h : r.step env .send = some (r₁, {})) :
    (r₁.step env .cancel).map (fun q => (q.1.conn, q.2)) = r.conn.step env .send := by
  have hboth := hleaves
  simp only [Prober.leaves, Bool.and_eq_true, decide_eq_true_eq, Bool.not_eq_true'] at hboth
  obtain ⟨⟨hz, hc⟩, hw⟩ := hboth
  simp only [Prober.step, hfree, hleaves, if_true, Bool.false_eq_true, if_false] at h
  obtain ⟨rfl, -⟩ := Prod.mk.inj (Option.some.inj h)
  simp only [Prober.step, ht, and_self, if_true, Option.map_some, Conn.step, hz, TCB.sendStep, hc,
    Bool.false_eq_true, if_false, if_neg hw]

end Moves

/-- The bytes a move puts in the send buffer. -/
def Prober.written (x : Move Prober ProberLabel) : List U8 :=
  match x.ev.ev with
  | .conn ev => x.src.conn.written ev
  | _ => []

/-- All that the application has written. -/
def writtenBytes (tr : List (Move Prober ProberLabel)) : List U8 := tr.flatMap Prober.written

/-- A probe lies below LBW and carries the byte written under its number; the first byte of all
has the number `f`. -/
def ProbesWritten (f : ℕ) (pre : List (Move Prober ProberLabel)) (x : Move Prober ProberLabel) :
    Prop :=
  x.ev.ev = .tick → ∀ m ∈ x.ev.out.msgs, m.hdr.seqNum < x.src.conn.tcb.snd.lbw ∧
    ∃ b, m.payload = [b] ∧ Ring.Numbered f (writtenBytes pre) m.hdr.seqNum.toNat b

/-- No write takes LBW past the last number, and no probe is sent after `Send` has counted the
last written byte, or after its slot was written again. -/
def Prober.inTime (r : Prober) : ProberEvent → Bool
  | .conn ev => r.conn.tcb.snd.lbw.toNat + (r.conn.written ev).length < 2 ^ 32
  | .tick =>
    r.conn.tcb.cancelled ||
      (!(r.cancelling && r.conn.tcb.snd.nxt = r.conn.tcb.snd.lbw) &&
        r.conn.tcb.snd.lbw - r.conn.tcb.snd.nxt ≤ maxBufSize)
  | _ => true

/-- The last ring of written bytes is in its slots, and until the FIN the prober stays behind
LBW. -/
structure Probing (f : ℕ) (tr : List (Move Prober ProberLabel)) (r : Prober) : Prop where
  state : r.conn.tcb.state ≠ .synSent ∧ r.conn.tcb.state ≠ .synReceived
  stream : r.conn.tcb.snd.lbw.toNat = f + (writtenBytes tr).length
  holds : Ring.Holds 65535 r.conn.tcb.snd.buffer (Ring.Numbered f (writtenBytes tr))
    (max f (r.conn.tcb.snd.lbw.toNat - 65535)) r.conn.tcb.snd.lbw.toNat
  paced : r.conn.tcb.cancelled = false → r.cancelling = false → r.conn.sender.Paced
  first : r.conn.tcb.cancelled = false → f ≤ r.conn.tcb.snd.nxt.toNat
  waiting : r.ticking = true → r.conn.tcb.cancelled = false → r.conn.send = .zeroWait
  counted : r.cancelling = true → r.conn.tcb.cancelled = false ∧
    r.conn.tcb.snd.nxt ≤ r.conn.tcb.snd.lbw

section Probing

variable {c c' : Conn} {l : Label} {ev : Event} {s : Sender} {f : ℕ} {r r' : Prober}
  {tr : List (Move Prober ProberLabel)} {x : Move Prober ProberLabel}

/-- What a step writes goes into the ring at LBW, around it at most once. -/
theorem Step.ring (h : Step c l c')
    (hs : c.tcb.state ≠ .synSent ∧ c.tcb.state ≠ .synReceived)
    (hcross : c.tcb.snd.lbw.toNat + (c.written l.ev).length < 2 ^ 32) :
    c'.tcb.snd.buffer =
        Ring.store 65535 c.tcb.snd.buffer c.tcb.snd.lbw.toNat (c.written l.ev) ∧
      c'.tcb.snd.lbw.toNat = c.tcb.snd.lbw.toNat + (c.written l.ev).length ∧
      c.tcb.snd.lbw.toNat % 65535 + (c.written l.ev).length ≤ 131070 := by
  have hmod := Nat.mod_lt c.tcb.snd.lbw.toNat (show 65535 > 0 by decide)
  obtain ⟨ev, o⟩ := l
  -- where nothing is written
  have hnone : c.written ev = [] → c'.tcb.snd.buffer = c.tcb.snd.buffer →
      c'.tcb.snd.lbw = c.tcb.snd.lbw → c'.tcb.snd.buffer =
          Ring.store 65535 c.tcb.snd.buffer c.tcb.snd.lbw.toNat (c.written ev) ∧
        c'.tcb.snd.lbw.toNat = c.tcb.snd.lbw.toNat + (c.written ev).length ∧
        c.tcb.snd.lbw.toNat % 65535 + (c.written ev).length ≤ 131070 := by
    intro hw hb hl
    rw [hw, hb, hl, Ring.store_nil (by decide)]
    exact ⟨rfl, rfl, by simp only [List.length_nil]; omega⟩
  cases ev with
  | write data =>
    cases h.moved with
    | notWritten hw => exact hnone hw rfl rfl
    | wrote hh hw =>
      obtain ⟨-, rfl, buffer, rfl, hb⟩ := writeRound_wrote hw
      have hwritten : c.written (.write data) = data.take (c.tcb.snd.writable data).toNat := by
        simp [Conn.written, TCB.written, hw]
      have hlen : (c.written (.write data)).length = (c.tcb.snd.writable data).toNat := by
        rw [hwritten, List.length_take, Nat.min_eq_left (Send.writable_le_length _ _)]
      simp only [hlen] at hcross ⊢
      obtain ⟨hstore, hbound⟩ := hb (by have := Nat.mod_le c.tcb.snd.lbw.toNat 65535; omega)
      refine ⟨by rw [hwritten]; exact hstore, ?_, hbound⟩
      rw [BitVec.toNat_add]
      omega
    | closeWaits hc | closes hc => cases hc
    | handshakeGaveUp hev | handshakeResent hev => simp at hev
  | _ =>
    obtain ⟨hb, hl, -⟩ := h.sender.ring_kept hs rfl
    exact hnone rfl hb hl

theorem writtenBytes_snoc : writtenBytes (tr ++ [x]) = writtenBytes tr ++ Prober.written x := by
  simp [writtenBytes]

/-- A step of the connection keeps the last ring of written bytes in its slots. -/
theorem Probing.ring {o : Output} {ys : List U8} (hi : Probing f tr r)
    (h : Step r.conn ⟨ev, o⟩ c) (hys : ys = r.conn.written ev)
    (hcross : r.conn.tcb.snd.lbw.toNat + ys.length < 2 ^ 32) :
    c.tcb.snd.lbw.toNat = f + (writtenBytes tr ++ ys).length ∧
      Ring.Holds 65535 c.tcb.snd.buffer (Ring.Numbered f (writtenBytes tr ++ ys))
        (max f (c.tcb.snd.lbw.toNat - 65535)) c.tcb.snd.lbw.toNat := by
  subst hys
  obtain ⟨hb, hl, hbound⟩ := h.ring hi.state hcross
  simp only at hb hl hbound
  have hstream := hi.stream
  refine ⟨by rw [hl, hstream, List.length_append]; omega, ?_⟩
  have hold : Ring.Holds 65535 _ (Ring.Numbered f (writtenBytes tr ++ r.conn.written ev)) _ _ :=
    hi.holds.mono (Nat.le_refl _) (Nat.le_refl _) fun q b hq => hq.append _
  rw [hb, hl]
  refine (hold.store_latest (by decide) (fun j b hj => ?_) hbound).sub (by omega) (Nat.le_refl _)
  rw [hstream]
  exact Ring.numbered_append_right hj

/-- A step of the connection outside `Send`. -/
theorem Probing.conn {o : Output} (hi : Probing f tr r) (hfree : r.cancelling = false)
    (hsend : ev ≠ .send) (h : Step r.conn ⟨ev, o⟩ c)
    (hcross : r.conn.tcb.snd.lbw.toNat + (r.conn.written ev).length < 2 ^ 32) :
    Probing f (tr ++ [⟨r, ⟨.conn ev, o⟩, { r with conn := c }⟩]) { r with conn := c } := by
  obtain ⟨hstream, hholds⟩ := hi.ring h rfl hcross
  obtain ⟨-, hlbw, -⟩ := h.ring hi.state hcross
  have hle : r.conn.tcb.snd.lbw ≤ c.tcb.snd.lbw := by
    rw [BitVec.le_def, hlbw]
    exact Nat.le_add_right _ _
  -- until the FIN is sent `Send` and SND.NXT stay where they are
  have hkept : c.tcb.cancelled = false → r.conn.tcb.cancelled = false ∧ c.send = r.conn.send ∧
      c.tcb.snd.nxt = r.conn.tcb.snd.nxt ∧ c.sender.Paced := by
    intro hc
    cases h.closing with
    | waits hcl =>
      cases hcl <;>
      · have hp := hi.paced hc hfree
        exact ⟨hc, rfl, rfl, hp.le, hp.transmit, hp.zero⟩
    | fin => simp [Conn.sendFin] at hc
    | other hev _ _ hcancelled =>
      obtain ⟨hpc, hnxt, -⟩ := h.sender_kept hsend hev hi.state
      have hc' := hcancelled.symm.trans hc
      exact ⟨hc', hpc, hnxt, (hi.paced hc' hfree).move h.sender hi.state
        ⟨hev.1, fun hw => absurd hw hev.2⟩ hle⟩
  refine ⟨h.not_opening hi.state, ?_, ?_, fun hc _ => (hkept hc).2.2.2, fun hc => ?_,
    fun ht hc => ?_, fun hcancel => absurd hcancel (by simp [hfree])⟩
  · rw [writtenBytes_snoc]
    exact hstream
  · rw [writtenBytes_snoc]
    exact hholds
  · obtain ⟨hc', -, hnxt, -⟩ := hkept hc
    simp only [hnxt]
    exact hi.first hc'
  · obtain ⟨hc', hpc, -⟩ := hkept hc
    exact hpc.trans (hi.waiting ht hc')

/-- A step of `Send` that does not count the probed byte. -/
theorem Probing.send {o : Output} (hi : Probing f tr r) (hfree : r.cancelling = false)
    (hz : r.conn.send = .zeroWait → r.conn.tcb.cancelled = true ∨ c.send = .zeroWait)
    (h : Step r.conn ⟨.send, o⟩ c) :
    Probing f (tr ++ [⟨r, ⟨.send, o⟩,
        { r with conn := c, ticking := r.ticking || c.send = .zeroWait }⟩])
      { r with conn := c, ticking := r.ticking || c.send = .zeroWait } := by
  have hlt := r.conn.tcb.snd.lbw.isLt
  obtain ⟨hstream, hholds⟩ := hi.ring h rfl hlt
  obtain ⟨-, hlbw, -⟩ := h.ring hi.state hlt
  have hcancelled : c.tcb.cancelled = r.conn.tcb.cancelled := (h.close_kept (by simp)).2.2
  have hle : r.conn.tcb.snd.lbw ≤ c.tcb.snd.lbw := by
    rw [BitVec.le_def, hlbw]
    exact Nat.le_add_right _ _
  refine ⟨h.not_opening hi.state, ?_, ?_, fun hc _ => ?_, fun hc => ?_, fun ht hc => ?_,
    fun hcancel => absurd hcancel (by simp [hfree])⟩
  · rw [writtenBytes_snoc]
    exact hstream
  · rw [writtenBytes_snoc]
    exact hholds
  · exact (hi.paced (hcancelled.symm.trans hc) hfree).move h.sender hi.state (by simp) hle
  · have hc' := hcancelled.symm.trans hc
    exact (hi.first hc').trans ((hi.paced hc' hfree).nxt_le h.sender)
  · have hc' := hcancelled.symm.trans hc
    simp only [Bool.or_eq_true, decide_eq_true_eq] at ht
    rcases ht with ht | ht
    · rcases hz (hi.waiting ht hc') with hno | hstays
      · simp [hc'] at hno
      · exact hstays
    · exact ht

theorem sendWindow_not_sending (t : TCB) :
    (∀ a b, t.sendWindow ≠ .transmit a b) ∧ t.sendWindow ≠ .zeroWait := by
  unfold TCB.sendWindow
  split
  · split <;> simp
  · simp

/-- The moves of the prober and its hand-over write nothing. -/
theorem Probing.unwritten (hi : Probing f tr r) (e : ProberEvent) (o : Output) (r₁ : Prober)
    (hne : ∀ ev, e ≠ .conn ev) (hlbw : r₁.conn.tcb.snd.lbw = r.conn.tcb.snd.lbw)
    (hbuffer : r₁.conn.tcb.snd.buffer = r.conn.tcb.snd.buffer) :
    r₁.conn.tcb.snd.lbw.toNat = f + (writtenBytes (tr ++ [⟨r, ⟨e, o⟩, r₁⟩])).length ∧
      Ring.Holds 65535 r₁.conn.tcb.snd.buffer
        (Ring.Numbered f (writtenBytes (tr ++ [⟨r, ⟨e, o⟩, r₁⟩])))
        (max f (r₁.conn.tcb.snd.lbw.toNat - 65535)) r₁.conn.tcb.snd.lbw.toNat := by
  have hsame : writtenBytes (tr ++ [⟨r, ⟨e, o⟩, r₁⟩]) = writtenBytes tr := by
    rw [writtenBytes_snoc]
    cases e with
    | conn ev => exact absurd rfl (hne ev)
    | _ => simp [Prober.written]
  rw [hsame, hlbw, hbuffer]
  exact ⟨hi.stream, hi.holds⟩

theorem Probing.step {l : ProberLabel} (hi : Probing f tr r) (h : ProberStep r l r')
    (hin : r.inTime l.ev = true) : Probing f (tr ++ [⟨r, l, r'⟩]) r' := by
  obtain ⟨ev, o⟩ := l
  have hm := h.moved
  have hsame := hi.unwritten ev o r'
  simp only at hm hin
  cases hm with
  | conn hfree hsend hs =>
    exact hi.conn hfree hsend hs (by simpa [Prober.inTime] using hin)
  | send hfree hz hs => exact hi.send hfree hz hs
  | leaves hfree hz hc =>
    obtain ⟨hstream, hholds⟩ := hsame (by simp) rfl rfl
    have hlt := (hi.paced hc hfree).zero hz
    have hfirst := hi.first hc
    simp only [Conn.sender_snd] at hlt
    refine ⟨hi.state, hstream, hholds, by simp, fun _ => ?_, hi.waiting, fun _ => ⟨hc, ?_⟩⟩
    · simp only
      bv_omega
    · simp only
      bv_omega
  | stops =>
    obtain ⟨hstream, hholds⟩ := hsame (by simp) rfl rfl
    exact ⟨hi.state, hstream, hholds, hi.paced, hi.first, by simp, hi.counted⟩
  | probes =>
    obtain ⟨hstream, hholds⟩ := hsame (by simp) rfl rfl
    exact ⟨hi.state, hstream, hholds, hi.paced, hi.first, hi.waiting, hi.counted⟩
  | cancelled ht hcancel =>
    obtain ⟨hstream, hholds⟩ := hsame (by simp) rfl rfl
    obtain ⟨htransmit, hzero⟩ := sendWindow_not_sending r.conn.tcb
    refine ⟨hi.state, hstream, hholds, fun _ _ => ⟨(hi.counted hcancel).2, ?_, ?_⟩, hi.first,
      by simp, by simp⟩
    · exact fun a b hab => absurd hab (htransmit a b)
    · exact fun hz => absurd hz hzero

/-- A tick in time sends the written byte at SND.NXT. -/
theorem Probing.probesWritten {l : ProberLabel} (hi : Probing f tr r) (h : ProberStep r l r')
    (hin : r.inTime l.ev = true) : ProbesWritten f tr ⟨r, l, r'⟩ := by
  obtain ⟨ev, o⟩ := l
  have hm := h.moved
  simp only at hm hin
  rintro rfl m hmem
  cases hm with
  | stops => simp at hmem
  | probes ht hc =>
    simp only [List.mem_singleton] at hmem
    subst hmem
    simp only [Prober.inTime, hc, Bool.false_or, Bool.and_eq_true, Bool.not_eq_true',
      decide_eq_true_eq, Bool.and_eq_false_iff, decide_eq_false_iff_not] at hin
    obtain ⟨hcount, hslot⟩ := hin
    have hlt : r.conn.tcb.snd.nxt < r.conn.tcb.snd.lbw := by
      cases hcancel : r.cancelling with
      | false => exact (hi.paced hc hcancel).zero (hi.waiting ht hc)
      | true =>
        have hle := (hi.counted hcancel).2
        have hne : r.conn.tcb.snd.nxt ≠ r.conn.tcb.snd.lbw := by simpa [hcancel] using hcount
        bv_omega
    refine ⟨hlt, _, rfl, ?_⟩
    have hfirst := hi.first hc
    have hmax := toNat_maxBufSize
    rw [toNat_sequenceToBufferInd]
    show Ring.Numbered f _ r.conn.tcb.snd.nxt.toNat _
    exact hi.holds _ (by bv_omega) hlt

end Probing

section Run

variable {c : Conn} {r : Prober} {tr : List (Move Prober ProberLabel)}

theorem Established.probing (h0 : Established c) :
    Probing c.tcb.snd.lbw.toNat [] { conn := c } where
  state := by simp [h0.state]
  stream := rfl
  holds := by
    intro q hq hq'
    have hge := (Nat.le_max_left _ _).trans hq
    exact absurd hq' (Nat.not_lt.mpr hge)
  paced := fun _ _ => h0.paced
  first := fun _ => by
    simp only [h0.lbw]
    exact Nat.le_refl _
  waiting := by simp
  counted := by simp

/-- In every run in which no tick comes too late, each probe lies below SND.LBW and carries the
byte written under its number. -/
theorem probes_written (h0 : Established c) (h : Run ProberStep { conn := c } tr r)
    (hin : ∀ x ∈ tr, x.src.inTime x.ev.ev = true) :
    Along (ProbesWritten c.tcb.snd.lbw.toNat) tr := by
  refine (h.along_iff (C := fun _ _ => True) (I := Probing c.tcb.snd.lbw.toNat)
    (H := fun _ x => x.src.inTime x.ev.ev = true) h0.probing (along_of_forall_mem hin)
    ?_ ?_).mpr fun _ _ _ _ => trivial
  · intro tr t l u hi hs hx _
    exact hi.step hs hx
  · intro tr t l u hi hs hx
    exact iff_of_true (hi.probesWritten hs hx) trivial

/-- One event as a function. -/
def Prober.next (r : Prober) (ev : ProberEvent) : Option (ProberLabel × Prober) :=
  (r.step ⟨0, 0, true⟩ ev).map fun q => (⟨ev, q.2⟩, q.1)

def Prober.play (r : Prober) (events : List ProberEvent) :
    List (Move Prober ProberLabel) × Prober :=
  Runs.play Prober.next r events

theorem Prober.play_run (r : Prober) (events : List ProberEvent) :
    Run ProberStep r (r.play events).1 (r.play events).2 :=
  play_map_run ProberLabel.mk (fun _ _ _ _ h => ⟨_, h⟩) r events

/-- The peer closes its window after the first byte, and takes the second one from a probe. -/
theorem probes_written_zero_window :
    let c := Conn.fresh 100 100 500
    let tr := (Prober.play { conn := c } [.conn (.write [1]), .send, .send,
      .conn (.segment (Segment.fromPeer 500 101 16 0 [] (by simp))), .conn (.write [2]), .send,
      .tick, .conn (.segment (Segment.fromPeer 500 102 16 1000 [] (by simp))), .send, .cancel]).1
    (tr.length = 10 ∧ ∃ x ∈ tr, ∃ m ∈ x.ev.out.msgs, m.origin = .probe ∧ m.payload = [2]) ∧
      Along (ProbesWritten c.tcb.snd.lbw.toNat) tr :=
  ⟨by decide, probes_written (established_fresh (Or.inl rfl)) (Prober.play_run _ _) (by decide)⟩

/-- The same run with a tick between the count of the probed byte and the cancel message: the
probe has the number SND.LBW, which nobody wrote. -/
theorem probes_unwritten_byte :
    ¬ ∀ (c : Conn) (r : Prober) (tr : List (Move Prober ProberLabel)), Established c →
      Run ProberStep { conn := c } tr r → Along (ProbesWritten c.tcb.snd.lbw.toNat) tr := by
  intro h
  have hrun := Prober.play_run { conn := Conn.fresh 100 100 500 }
    [.conn (.write [1]), .send, .send,
      .conn (.segment (Segment.fromPeer 500 101 16 0 [] (by simp))), .conn (.write [2]), .send,
      .tick, .conn (.segment (Segment.fromPeer 500 102 16 1000 [] (by simp))), .send, .tick]
  have hlast := (h _ _ _ (established_fresh (Or.inl rfl)) hrun).get ⟨9, by decide⟩ (by decide)
  obtain ⟨m, hm, hseq⟩ : ∃ m ∈ (((Prober.play { conn := Conn.fresh 100 100 500 }
      [.conn (.write [1]), .send, .send,
        .conn (.segment (Segment.fromPeer 500 101 16 0 [] (by simp))), .conn (.write [2]), .send,
        .tick, .conn (.segment (Segment.fromPeer 500 102 16 1000 [] (by simp))), .send,
        .tick]).1).get ⟨9, by decide⟩).ev.out.msgs, m.hdr.seqNum = 102 := by decide
  have hlt := (hlast m hm).1
  rw [hseq] at hlt
  revert hlt
  decide

end Run

end TcpIp
