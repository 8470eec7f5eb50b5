import TcpIp.Tcp.Tcb

/-! Congestion control, round-trip estimation and the retransmission queue. -/
namespace TcpIp

def rtoUpper : Int64 := 1000000000
def rtoLower : Int64 := 1000000
def maxRetransmissions : ℕ := 5
def initCwnd : U32 := mssData
def initThreshold : U32 := 65535

@[simp] theorem toNat_initCwnd : initCwnd.toNat = 1360 := rfl

def min64f (val1 val2 : Float) : Float := if val1 < val2 then val1 else val2
def max64f (val1 val2 : Float) : Float := if val1 > val2 then val1 else val2

/-- ALPHA is 0.85; Go folds the constant `1 - ALPHA` exactly. -/
def calculateSRTT (srttLast rtt : Int64) : Int64 :=
  (srttLast.toFloat * 0.85 + rtt.toFloat * 0.15).toInt64

/-- BETA is 1.5. -/
def calculateRTO (srtt : Int64) : Int64 :=
  (min64f rtoUpper.toFloat (max64f (1.5 * srtt.toFloat) rtoLower.toFloat)).toInt64

namespace TCB

/-- `SetCCForSocket` stores the flag before it takes the lock, so the initialisation is a
second step. -/
def enableCC (s : TCB) : TCB := { s with cControlEnabled := true }

def initCC (s : TCB) : TCB := { s with cwnd := initCwnd, ssthresh := initThreshold }

def updateCWNDWindow (s : TCB) : TCB :=
  if s.cwnd < s.ssthresh then { s with cwnd := s.cwnd + mssData }
  else { s with cwnd := s.cwnd + mssData * mssData / s.cwnd }

def afterLoss (s : TCB) : TCB := { s with ssthresh := s.cwnd / 2, cwnd := initCwnd }

/-- The entries before the first one at or past `ackNum`; the loop stops at that one. -/
def removeFromRetransmissionQueue (s : TCB) (ackNum : U32) : TCB :=
  let toRemove := (s.retransmissionQueue.takeWhile fun r => r.tcpHeader.seqNum < ackNum).length
  if 0 < toRemove then
    { s with retransmissionQueue := s.retransmissionQueue.drop toRemove, retransmitCounter := 0 }
  else s

def setTimestamp (s : TCB) (ackNum : U32) (now : Int64) : TCB :=
  { s with segmentToTimestamp := Function.update s.segmentToTimestamp ackNum (some now) }

def updateTimeout (s : TCB) (now : Int64) (segmentReceivedNum : U32) : TCB :=
  match s.segmentToTimestamp segmentReceivedNum with
  | none => s
  | some sent =>
    let rtt := now - sent
    let srtt := if s.srtt = -1 then calculateSRTT rtt rtt else calculateSRTT s.srtt rtt
    { s with
      segmentToTimestamp := Function.update s.segmentToTimestamp segmentReceivedNum none
      srtt
      rto := calculateRTO srtt }

/-- The payload of a queued segment, read back from the ring. -/
def retransmitPayload (s : TCB) (packet : RetransmitSegment) : List U8 :=
  let seqNumIndex := sequenceToBufferInd packet.tcpHeader.seqNum
  if 0 < packet.payloadLen then
    if seqNumIndex + packet.payloadLen > maxBufSize then
      let firstCopy := maxBufSize - seqNumIndex
      let secondCopy := seqNumIndex + packet.payloadLen - maxBufSize
      Ring.slots s.snd.buffer seqNumIndex.toNat firstCopy.toNat ++
        Ring.slots s.snd.buffer 0 secondCopy.toNat
    else Ring.slots s.snd.buffer seqNumIndex.toNat packet.payloadLen.toNat
  else []

/-- The common part of `fastRetransmit` and `waitTimeout`: resend a queued segment under its
stored header, and back off. -/
def resend (s : TCB) (key : SocketData) (now : Int64) (packet : RetransmitSegment) : TCB × Msg :=
  let seqNumIndex := sequenceToBufferInd packet.tcpHeader.seqNum
  ({ s.setTimestamp (seqNumIndex + packet.payloadLen) now with rto := s.rto * 2 },
    { origin := .resend
      addrs := some (key.localAddr, key.destAddr)
      hdr := packet.tcpHeader
      payload := s.retransmitPayload packet })

/-- Called by `Receive` with a non-empty queue. -/
def fastRetransmit (s : TCB) (key : SocketData) (now : Int64) : TCB × List Msg :=
  match s.retransmissionQueue with
  | [] => (s, [])
  | packet :: _ =>
    let r := ({ s.afterLoss with currentAckFreq := 0 }).resend key now packet
    (r.1, [r.2])

end TCB

/-- What the timer branch of `waitTimeout` does. -/
inductive TimeoutResult
  /-- a finalising state: the goroutine returns -/
  | stop
  /-- nothing queued: the timer is set again -/
  | idle
  /-- too many retransmissions: CLOSED, and the socket leaves the table -/
  | giveUp (s : TCB)
  | resent (s : TCB) (m : Msg)

def TCB.waitTimeout (s : TCB) (key : SocketData) (now : Int64) : TimeoutResult :=
  if s.state = .timeWait ∨ s.state = .closed then .stop
  else
    match s.retransmissionQueue with
    | [] => .idle
    | packet :: _ =>
      if s.retransmitCounter = maxRetransmissions then
        .giveUp { s with state := .closed, timeoutCancelled := true }
      else
        let s1 := if s.cControlEnabled then s.afterLoss else s
        let r := ({ s1 with retransmitCounter := s1.retransmitCounter + 1 }).resend key now packet
        .resent r.1 r.2

/-- Timer and counter fields, which no property of the sequence space reads. -/
structure Book where
  rto : Int64
  srtt : Int64
  retransmitCounter : ℕ
  segmentToTimestamp : U32 → Option Int64
  ssthresh : U32
  currentAck : U32
  currentAckFreq : ℕ

namespace TCB

/-- Replace the bookkeeping fields. -/
@[reducible] def withBook (s : TCB) (b : Book) : TCB :=
  { s with
    rto := b.rto
    srtt := b.srtt
    retransmitCounter := b.retransmitCounter
    segmentToTimestamp := b.segmentToTimestamp
    ssthresh := b.ssthresh
    currentAck := b.currentAck
    currentAckFreq := b.currentAckFreq }

def book (s : TCB) : Book :=
  ⟨s.rto, s.srtt, s.retransmitCounter, s.segmentToTimestamp, s.ssthresh, s.currentAck,
    s.currentAckFreq⟩

theorem drop_takeWhile_length {α : Type*} (p : α → Bool) (l : List α) :
    l.drop (l.takeWhile p).length = l.dropWhile p := by
  induction l with
  | nil => rfl
  | cons a l ih => by_cases h : p a <;> simp [h, ih]

variable (s : TCB) (key : SocketData) (now : Int64) (ackNum : U32) (packet : RetransmitSegment)

theorem removeFromRetransmissionQueue_eq : ∃ k, s.removeFromRetransmissionQueue ackNum =
    { s with
        retransmissionQueue :=
          s.retransmissionQueue.dropWhile fun r => r.tcpHeader.seqNum < ackNum
        retransmitCounter := k } := by
  have hdrop := drop_takeWhile_length (fun r : RetransmitSegment => r.tcpHeader.seqNum < ackNum)
    s.retransmissionQueue
  by_cases h0 : 0 < (s.retransmissionQueue.takeWhile fun r => r.tcpHeader.seqNum < ackNum).length
  · exact ⟨0, by simp only [removeFromRetransmissionQueue, if_pos h0, hdrop]⟩
  · rw [Nat.eq_zero_of_not_pos h0, List.drop_zero] at hdrop
    exact ⟨s.retransmitCounter, by simp only [removeFromRetransmissionQueue, if_neg h0, ← hdrop]⟩

end TCB

end TcpIp
