import TcpIp.Tcp.Timeout

/-! `Receive`: the data half, the acknowledgement half, and `ReceiveFin`. -/
namespace TcpIp

/-- `xs[lo:hi]`. -/
def slice (xs : List U8) (lo hi : U32) : List U8 := (xs.take hi.toNat).drop lo.toNat

/-- How `Receive` sorts a data segment by its sequence number. -/
inductive Arrival
  | alreadyReceived | beyondWindow | inOrder | early
  deriving DecidableEq

def Receive.classify (r : Receive) (seqNumReceived : U32) : Arrival :=
  if seqNumReceived < r.nxt then .alreadyReceived
  else if seqNumReceived ≥ r.nxt + r.wnd then .beyondWindow
  else if seqNumReceived > r.nxt then .early
  else .inOrder

/-- The variables of the copy loop. -/
structure Copy where
  rcv : Receive
  amountCopied : U32
  startCopyIndex : U32

/-- One iteration of the copy loop. -/
def copyStep (earlyArrivals : Bool) (payload : List U8) (c : Copy) : Copy :=
  let amountToCopy : U32 := BitVec.ofNat 32 payload.length
  let nxtIndex := sequenceToBufferInd c.startCopyIndex
  let remainingBufSize := maxBufSize - (c.startCopyIndex - c.rcv.lbr)
  let toCopy := min32 remainingBufSize (amountToCopy - c.amountCopied)
  let buffer :=
    if nxtIndex + toCopy ≥ maxBufSize then
      let firstCopy := maxBufSize - nxtIndex
      let secondCopy := toCopy - firstCopy
      Ring.copyAt
        (Ring.copyAt c.rcv.buffer nxtIndex.toNat
          (slice payload c.amountCopied (c.amountCopied + firstCopy))) 0
        (slice payload (c.amountCopied + firstCopy) (c.amountCopied + firstCopy + secondCopy))
    else
      Ring.copyAt c.rcv.buffer nxtIndex.toNat
        (slice payload c.amountCopied (c.amountCopied + toCopy))
  { rcv :=
      if earlyArrivals then { c.rcv with buffer }
      else { c.rcv with buffer, nxt := c.rcv.nxt + toCopy, wnd := c.rcv.wnd - toCopy }
    amountCopied := c.amountCopied + toCopy
    startCopyIndex := c.startCopyIndex + toCopy }

/-- The copy loop; `none` when it has not ended after `fuel` iterations. -/
def copyLoop (earlyArrivals : Bool) (payload : List U8) : ℕ → Copy → Option Copy
  | 0, _ => none
  | fuel + 1, c =>
    if c.amountCopied < BitVec.ofNat 32 payload.length then
      copyLoop earlyArrivals payload fuel (copyStep earlyArrivals payload c)
    else some c

namespace TCB

/-- The segment's bytes into the ring, and the pointers or the early-arrival queue updated. Each
useful iteration copies a byte, so a loop that outlasts the fuel never ends (and `Receive`
with it, its lock held): `none`. -/
def takeData (s : TCB) (seqNumReceived : U32) (payload : List U8) : Option TCB :=
  let earlyArrivals : Bool := seqNumReceived > s.rcv.nxt
  let startCopyIndex := if earlyArrivals then seqNumReceived else s.rcv.nxt
  (copyLoop earlyArrivals payload (payload.length + 1) ⟨s.rcv, 0, startCopyIndex⟩).map fun c =>
    if earlyArrivals then
      { s with
        rcv := c.rcv
        earlyArrivals := EarlyArrivalQueue.push s.earlyArrivals
          ⟨seqNumReceived, BitVec.ofNat 32 payload.length⟩ }
    else
      let merged := updateAckNum s.earlyArrivals c.rcv.nxt
      { s with
        rcv := { c.rcv with nxt := merged.2, wnd := c.rcv.wnd - (merged.2 - c.rcv.nxt) }
        earlyArrivals := merged.1 }

/-- A remembered FIN that has become current is acknowledged with the data. -/
def ackData (s : TCB) (key : SocketData) : TCB × List Msg :=
  if s.rcv.nxt = s.pendingReceivedFin then
    ({ s with state := .closeWait }, [s.ackMsg key (s.rcv.nxt + 1)])
  else (s, [s.ackMsg key s.rcv.nxt])

/-- The receiver's part of `Receive`. -/
def receiveData (s : TCB) (key : SocketData) (hdr : TCPFields) (payload : List U8) :
    Option (TCB × List Msg) :=
  if payload.length > 0 then
    match s.rcv.classify hdr.seqNum with
    | .alreadyReceived => some (s, [s.ackMsg key s.rcv.nxt])
    | .beyondWindow => some (s, [s.ackMsg key s.rcv.nxt])
    | .inOrder | .early => (s.takeData hdr.seqNum payload).map fun t => t.ackData key
  else some (s, [])

/-- The acknowledgement is too old, or out of the range of the window. -/
def ackDropped (s : TCB) (hdr : TCPFields) : Bool :=
  if hdr.windowSize = 0 then hdr.ackNum ≤ s.snd.una ∨ hdr.ackNum > s.snd.nxt
  else hdr.ackNum ≤ s.snd.una ∨ (hdr.ackNum > s.snd.una + s.snd.wnd ∧ s.snd.wnd ≠ 0)

/-- The third duplicate of the current acknowledgement, with a segment to resend. -/
def thirdDuplicate (s : TCB) (hdr : TCPFields) : Bool :=
  s.cControlEnabled ∧ hdr.ackNum = s.currentAck ∧ s.currentAckFreq = 3 ∧
    s.retransmissionQueue.length > 0

def acceptAck (s : TCB) (now : Int64) (hdr : TCPFields) : TCB :=
  let s1 := s.removeFromRetransmissionQueue hdr.ackNum
  let s2 := if s1.cControlEnabled then
      { s1.updateCWNDWindow with currentAck := hdr.ackNum, currentAckFreq := 1 }
    else s1
  let s3 := { s2 with snd := { s2.snd with wnd := hdr.windowSize.setWidth 32, una := hdr.ackNum } }
  s3.updateTimeout now hdr.ackNum

/-- The sender's part of `Receive`. -/
def receiveAck (s : TCB) (key : SocketData) (now : Int64) (hdr : TCPFields) : TCB × List Msg :=
  if s.thirdDuplicate hdr then
    ({ s with currentAckFreq := 0 } : TCB).fastRetransmit key now
  else
    let s1 := if s.cControlEnabled ∧ hdr.ackNum = s.currentAck then
        { s with currentAckFreq := s.currentAckFreq + 1 }
      else s
    if s1.ackDropped hdr then (s1, []) else (s1.acceptAck now hdr, [])

def receive (s : TCB) (key : SocketData) (now : Int64) (seg : Segment) :
    Option (TCB × List Msg) :=
  if seg.hdr.hasAck then
    (s.receiveData key seg.hdr seg.payload).map fun r =>
      let a := r.1.receiveAck key now seg.hdr
      (a.1, r.2 ++ a.2)
  else some (s, [])

/-- A FIN in ESTABLISHED. An old one is answered with the unset `nxtToSend`. -/
def receiveFin (s : TCB) (key : SocketData) (hdr : TCPFields) : TCB × List Msg :=
  if hdr.seqNum = s.rcv.nxt then
    ({ s with state := .closeWait }, [s.ackMsg key (s.rcv.nxt + 1)])
  else if hdr.seqNum > s.rcv.nxt then
    ({ s with pendingReceivedFin := hdr.seqNum }, [s.ackMsg key s.rcv.nxt])
  else (s, [s.ackMsg key 0])

end TCB

end TcpIp
