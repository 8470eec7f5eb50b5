import TcpIp.Tcp.CopyLoop

/-! The sending half under `ReceivePacket`, before and after the peer's FIN. -/
namespace TcpIp

/-- The condition variables that goroutines of the sending half wait on. -/
inductive SendCond
  /-- `WriteBlockedCond`, for writers and for `Send` -/
  | writeBlocked
  /-- `ZeroBlockedCond` -/
  | zeroBlocked
  deriving DecidableEq

/-- What a segment leaves in the sending half, and whom its handler has woken. -/
structure SendingHalf where
  una : U32
  wnd : U32
  retransmissionQueue : List RetransmitSegment
  retransmitCounter : ℕ
  woken : List SendCond
  deriving DecidableEq

namespace TCB

/-- The broadcast and the signal at the end of `Receive`. -/
def ackWakeUps (s : TCB) (hdr : TCPFields) : List SendCond :=
  if s.thirdDuplicate hdr then []
  else
    let s1 := if s.cControlEnabled ∧ hdr.ackNum = s.currentAck then
        { s with currentAckFreq := s.currentAckFreq + 1 }
      else s
    if s1.ackDropped hdr then []
    else .writeBlocked :: if hdr.windowSize > 0 then [.zeroBlocked] else []

def sendingHalf (s : TCB) (woken : List SendCond) : SendingHalf where
  una := s.snd.una
  wnd := s.snd.wnd
  retransmissionQueue := s.retransmissionQueue
  retransmitCounter := s.retransmitCounter
  woken

/-- The sending half once the acknowledgement is taken: UNA and WND are the segment's, what it
acknowledges is released, and everybody who waits is woken. -/
def acknowledgedHalf (s : TCB) (hdr : TCPFields) : SendingHalf where
  una := hdr.ackNum
  wnd := hdr.windowSize.setWidth 32
  retransmissionQueue := (s.removeFromRetransmissionQueue hdr.ackNum).retransmissionQueue
  retransmitCounter := (s.removeFromRetransmissionQueue hdr.ackNum).retransmitCounter
  woken := .writeBlocked :: if hdr.windowSize > 0 then [.zeroBlocked] else []

end TCB

namespace Conn

/-- The wake-ups of `ReceivePacket` in the sending half; no handler but `Receive` has any. -/
def wakeUps (c : Conn) (seg : Segment) : List SendCond :=
  if c.passesToReceive seg.hdr then
    match c.tcb.receiveData c.key seg.hdr seg.payload with
    | some (s, _) => s.ackWakeUps seg.hdr
    | none => []
  else []

/-- The effect of `ReceivePacket` on the sending half; `none` where it does not return. -/
def sendingEffect (c : Conn) (env : Env) (seg : Segment) : Option SendingHalf :=
  (c.receivePacket env seg).map fun r => r.1.tcb.sendingHalf (c.wakeUps seg)

def inState (c : Conn) (state : ConnectionState) : Conn := { c with tcb := { c.tcb with state } }

end Conn

section Acknowledgement

variable {s : TCB} {key : SocketData} {now : Int64} {hdr : TCPFields}

theorem ackDropped_counted :
    (if s.cControlEnabled = true ∧ hdr.ackNum = s.currentAck then
      ({ s with currentAckFreq := s.currentAckFreq + 1 } : TCB) else s).ackDropped hdr =
      s.ackDropped hdr := by
  split <;> rfl

theorem ackWakeUps_eq (s : TCB) (hdr : TCPFields) : s.ackWakeUps hdr =
    if s.acceptsAck hdr then .writeBlocked :: if hdr.windowSize > 0 then [.zeroBlocked] else []
    else [] := by
  unfold TCB.ackWakeUps TCB.acceptsAck
  simp only [ackDropped_counted]
  cases s.thirdDuplicate hdr <;> cases s.ackDropped hdr <;> simp

theorem acknowledgedHalf_congr {t : TCB} (hq : t.retransmissionQueue = s.retransmissionQueue)
    (hn : t.retransmitCounter = s.retransmitCounter) :
    t.acknowledgedHalf hdr = s.acknowledgedHalf hdr := by
  simp only [TCB.acknowledgedHalf, TCB.removeFromRetransmissionQueue, hq]
  split <;> simp [hq, hn]

theorem updateTimeout_sendingHalf (n : U32) (woken : List SendCond) :
    (s.updateTimeout now n).sendingHalf woken = s.sendingHalf woken := by
  unfold TCB.updateTimeout
  split <;> rfl

theorem acceptAck_sendingHalf : (s.acceptAck now hdr).sendingHalf
    (.writeBlocked :: if hdr.windowSize > 0 then [.zeroBlocked] else []) =
      s.acknowledgedHalf hdr := by
  unfold TCB.acceptAck
  rw [updateTimeout_sendingHalf]
  simp only [updateCWNDWindow_eq]
  split <;> rfl

/-- The acknowledgement half of `Receive`: a third duplicate only resends. -/
theorem receiveAck_sendingHalf :
    (s.receiveAck key now hdr).1.sendingHalf (s.ackWakeUps hdr) =
      if s.acceptsAck hdr then s.acknowledgedHalf hdr else s.sendingHalf [] := by
  rw [ackWakeUps_eq]
  unfold TCB.receiveAck TCB.acceptsAck
  simp only [ackDropped_counted]
  cases s.thirdDuplicate hdr with
  | true =>
    simp only [if_true, Bool.not_true, Bool.false_and, Bool.false_eq_true, if_false,
      TCB.fastRetransmit]
    split <;> rfl
  | false =>
    cases s.ackDropped hdr with
    | true =>
      simp only [Bool.false_eq_true, if_false, if_true, Bool.not_true, Bool.and_false]
      split <;> rfl
    | false =>
      simp only [Bool.false_eq_true, if_false, if_true, Bool.not_false, Bool.and_self]
      rw [acceptAck_sendingHalf]
      split
      · exact acknowledgedHalf_congr rfl rfl
      · rfl

end Acknowledgement

section Effect

variable {c : Conn} {env : Env} {seg : Segment}

/-- ESTABLISHED on a segment without FIN. -/
theorem sendingEffect_established (hfin : seg.hdr.hasFin = false) :
    (c.inState .established).sendingEffect env seg =
      ((c.inState .established).receivePacket env seg).map fun _ =>
        if seg.hdr.hasAck ∧ c.tcb.acceptsAck seg.hdr then c.tcb.acknowledgedHalf seg.hdr
        else c.tcb.sendingHalf [] := by
  cases hack : seg.hdr.hasAck with
  | false =>
    simp [Conn.sendingEffect, Conn.receivePacket, Conn.inState, Conn.handleEstablished, hfin,
      Conn.receive, TCB.receive, hack, Conn.wakeUps, Conn.passesToReceive, TCB.sendingHalf]
  | true =>
    simp only [Conn.sendingEffect, Conn.receivePacket, Conn.inState, Conn.handleEstablished, hfin,
      Bool.false_eq_true, if_false, Conn.receive, TCB.receive, hack, if_true, Conn.wakeUps,
      Conn.passesToReceive, Bool.not_false, Bool.and_true, Option.map_map, true_and]
    cases hdata : ({ c.tcb with state := .established } : TCB).receiveData c.key seg.hdr
        seg.payload with
    | none => rfl
    | some r =>
      -- the data half leaves everything alone that the acknowledgement half looks at
      obtain ⟨st, rcv, early, hr⟩ := (receiveData_effect hdata).frame
      have haccepts : r.1.acceptsAck seg.hdr = c.tcb.acceptsAck seg.hdr := by rw [hr]; rfl
      have hahead : r.1.acknowledgedHalf seg.hdr = c.tcb.acknowledgedHalf seg.hdr := by
        rw [hr]
        exact acknowledgedHalf_congr rfl rfl
      have hsame : r.1.sendingHalf [] = c.tcb.sendingHalf [] := by rw [hr]; rfl
      simp only [Option.map_some, Function.comp_apply, receiveAck_sendingHalf, haccepts, hahead,
        hsame]

/-- CLOSE_WAIT on a segment without FIN. -/
theorem sendingEffect_closeWait (hfin : seg.hdr.hasFin = false) :
    (c.inState .closeWait).sendingEffect env seg = some (c.tcb.sendingHalf []) := by
  simp [Conn.sendingEffect, Conn.receivePacket, Conn.inState, Conn.handleCloseWait, hfin,
    Conn.wakeUps, Conn.passesToReceive, TCB.sendingHalf]

/-- ESTABLISHED gets through with a segment unless it runs past the right edge of the window. -/
theorem receivePacket_established_isSome (c : Conn) (env : Env) (hfin : seg.hdr.hasFin = false) :
    ((c.inState .established).receivePacket env seg).isSome = true ↔
      (seg.hdr.hasAck = true → c.tcb.rcv.copies seg = true → c.tcb.rcv.fits seg = true) := by
  have hdata := receiveData_isSome_iff { c.tcb with state := .established } c.key seg
  cases hack : seg.hdr.hasAck with
  | false =>
    simp [Conn.receivePacket, Conn.inState, Conn.handleEstablished, hfin, Conn.receive,
      TCB.receive, hack]
  | true =>
    simpa [Conn.receivePacket, Conn.inState, Conn.handleEstablished, hfin, Conn.receive,
      TCB.receive, hack] using hdata

/-- On a segment without FIN the sending half fares alike in CLOSE_WAIT and in ESTABLISHED exactly
if it has no ACK, or what it brings of data fits into the window and its acknowledgement is not
taken. -/
theorem half_close_iff (c : Conn) (env : Env) (seg : Segment) (hfin : seg.hdr.hasFin = false) :
    (c.inState .closeWait).sendingEffect env seg =
        (c.inState .established).sendingEffect env seg ↔
      (seg.hdr.hasAck = true →
        (c.tcb.rcv.copies seg = true → c.tcb.rcv.fits seg = true) ∧
          c.tcb.acceptsAck seg.hdr = false) := by
  rw [imp_and, ← receivePacket_established_isSome c env hfin, sendingEffect_closeWait hfin,
    sendingEffect_established hfin]
  cases (c.inState .established).receivePacket env seg with
  | none => simp
  | some r =>
    simp only [Option.map_some, Option.some.injEq, Option.isSome_some, true_and]
    split
    · rename_i htaken
      obtain ⟨hack, haccepts⟩ := htaken
      have hne : c.tcb.sendingHalf [] ≠ c.tcb.acknowledgedHalf seg.hdr := by
        intro heq
        have huna : c.tcb.snd.una = seg.hdr.ackNum := congrArg SendingHalf.una heq
        have hlt := una_lt_of_acceptsAck haccepts
        rw [huna] at hlt
        exact BitVec.lt_irrefl _ hlt
      simp [hne, hack, haccepts]
    · rename_i hno
      simp only [not_and, Bool.not_eq_true] at hno
      simpa using hno

/-- A segment that acknowledges nothing new. -/
theorem half_close_iff_old_ack :
    let c := Conn.fresh 100 100 500
    let seg := Segment.fromPeer 500 100 tcpFlagAck 1000 [] (by simp)
    seg.hdr.hasFin = false ∧
      ((c.inState .closeWait).sendingEffect ⟨0, 0, true⟩ seg =
          (c.inState .established).sendingEffect ⟨0, 0, true⟩ seg ↔
        (seg.hdr.hasAck = true →
          (c.tcb.rcv.copies seg = true → c.tcb.rcv.fits seg = true) ∧
            c.tcb.acceptsAck seg.hdr = false)) :=
  ⟨by decide, half_close_iff _ _ _ (by decide)⟩

/-- Two bytes are in flight when the peer's FIN arrives; the acknowledgement of the bytes that
follows it is lost on CLOSE_WAIT. -/
theorem close_wait_ignores_ack :
    ¬ ∀ (c : Conn) (env : Env) (seg : Segment), seg.hdr.hasFin = false →
      (c.inState .closeWait).sendingEffect env seg =
        (c.inState .established).sendingEffect env seg := by
  intro h
  let c := ((Conn.fresh 100 100 500).play [.write [1, 2], .send, .send,
    .segment (Segment.fromPeer 500 100 (tcpFlagFin ||| tcpFlagAck) 1000 [] (by simp))]).2
  have heq := h c ⟨0, 0, true⟩ (Segment.fromPeer 501 102 tcpFlagAck 1000 [] (by simp)) (by decide)
  have hsame : c.inState .closeWait = c := rfl
  rw [hsame] at heq
  exact absurd heq (by decide)

end Effect

end TcpIp
