import TcpIp.Lib.Monitor
import TcpIp.Tcp.Reading
import TcpIp.Tcp.Handler

/-! The locks of the routines that work on a TCB. Each routine is written out with every lock,
unlock, wait and return it has; what lies between two of them is an action on the data. -/
namespace TcpIp

open Monitor

inductive Mutex
  | tcbLock
  /-- `PendingConnMutex` of the listener -/
  | pendingConnMutex
  deriving DecidableEq

/-- What a routine reads and writes: the connection, the handles, the listener's queue, and the
variables of the routine itself. -/
structure Frame where
  conn : Conn
  /-- the clock, `rand.Uint32`, and whether the table has the listener's entry -/
  env : Env
  readCancelled : Bool := false
  writeCancelled : Bool := false
  /-- `Cancelled` of the listener's handle -/
  listenerCancelled : Bool := false
  pendingConnections : List SocketData := []
  /-- what was put on `IPLayerChannel` -/
  sent : List Msg := []
  /-- the entries that `HandleStateListen` has made -/
  spawned : List Conn := []
  readCall : ReadCall := ⟨0, false, 0, []⟩
  bytesToRead : U32 := 0
  writeCall : WriteCall := ⟨[], 0⟩
  amountToSend : U32 := 0
  amountSent : U32 := 0
  amountToCopy : U32 := 0
  /-- a packet that is built but not yet sent -/
  packet : List Msg := []
  rtt : Int64 := 0
  connEntry : SocketData := ⟨0, 0, 0, 0⟩

inductive Return
  /-- from a function without a result -/
  | done
  | n (amount : U32)
  | eof
  | conn (key : SocketData)
  | error (text : String)
  deriving DecidableEq

/-- The tests that decide which mutexes a return leaves locked. -/
inductive Test
  /-- of `Write`, at the top of its loop -/
  | loopTop
  /-- of `Accept`, when it wakes -/
  | waking
  deriving DecidableEq

abbrev Routine := Cmd Mutex Test Frame Return

namespace Frame

abbrev tcb (f : Frame) : TCB := f.conn.tcb

def setTCB (f : Frame) (s : TCB) : Frame := { f with conn := { f.conn with tcb := s } }

def emit (f : Frame) (msgs : List Msg) : Frame := { f with sent := f.sent ++ msgs }

variable (f : Frame) (s t : TCB) (msgs : List Msg)

@[simp] theorem setTCB_setTCB : (f.setTCB s).setTCB t = f.setTCB t := rfl

@[simp] theorem setTCB_conn : (f.setTCB s).conn = { f.conn with tcb := s } := rfl

@[simp] theorem setTCB_env : (f.setTCB s).env = f.env := rfl

@[simp] theorem emit_conn : (f.emit msgs).conn = f.conn := rfl

@[simp] theorem emit_env : (f.emit msgs).env = f.env := rfl

@[simp] theorem emit_nil : f.emit [] = f := by
  simp [emit]

end Frame

namespace TCB

/-- A new acknowledgement under congestion control. -/
def countAck (s : TCB) (ackNum : U32) : TCB :=
  { s.updateCWNDWindow with currentAck := ackNum, currentAckFreq := 1 }

def setAckFreq (s : TCB) (k : ℕ) : TCB := { s with currentAckFreq := k }

def moveUna (s : TCB) (hdr : TCPFields) : TCB :=
  { s with snd := { s.snd with wnd := hdr.windowSize.setWidth 32, una := hdr.ackNum } }

end TCB

namespace Routine

open Cmd

/-- An action on the TCB. -/
def onTCB (g : TCB → TCB) : Routine := .modify fun f => f.setTCB (g f.tcb)

def unlockReturn (r : Frame → Return) : Routine := block [.unlock .tcbLock, .ret r]

def read (amountToRead : U32) (readAll : Bool) : Routine :=
  block [
    when (·.readCancelled) (.ret fun _ => .error "Read operation is not permitted"),
    when (!·.conn.inTable) (.ret fun _ => .error "Connection doesn't exist"),
    .modify fun f => { f with readCall := { amountToRead, readAll } },
    .lock .tcbLock,
    when (·.tcb.timeoutCancelled) (unlockReturn fun _ => .error "Read on timed out connection"),
    when (fun f => f.tcb.state = .closeWait && f.tcb.rcv.lbr = f.tcb.rcv.nxt)
      (unlockReturn fun _ => .eof),
    .loop (fun f => f.readCall.amountReadSoFar < f.readCall.amountToRead) (block [
      when (fun f => f.tcb.rcv.lbr = f.tcb.rcv.nxt)
        (.ite (fun f => !f.readCall.readAll && f.readCall.amountReadSoFar > 0)
          (unlockReturn fun f => .n f.readCall.amountReadSoFar)
          (.ite (fun f => f.tcb.state = .closeWait || f.tcb.timeoutCancelled)
            (unlockReturn fun _ => .eof)
            (.loop (fun f => f.tcb.rcv.lbr = f.tcb.rcv.nxt) (block [
              .wait .tcbLock,
              when (fun f => f.tcb.rcv.lbr = f.tcb.rcv.nxt &&
                  (f.tcb.state = .closeWait || f.tcb.timeoutCancelled))
                (unlockReturn fun _ => .eof)])))),
      .modify fun f => { f with bytesToRead := f.tcb.available f.readCall },
      .unlock .tcbLock,
      -- the copy is made without the lock
      .act fun f => (f.tcb.readOut f.readCall f.bytesToRead).map fun r =>
        { f.setTCB r.1 with readCall := r.2 },
      .lock .tcbLock]),
    unlockReturn fun f => .n f.readCall.amountReadSoFar]

def write (data : List U8) : Routine :=
  block [
    when (·.writeCancelled) (.ret fun _ => .error "Write operation not permitted"),
    when (!·.conn.inTable) (.ret fun _ => .error "Connection doesn't exist"),
    when (·.tcb.timeoutCancelled) (.ret fun _ => .error "Write on timed out connection"),
    .modify fun f => { f with writeCall := { data } },
    .loop (fun f => f.writeCall.amountWritten < f.writeCall.amountToWrite) (block [
      .lock .tcbLock,
      .check .loopTop (fun f => f.tcb.state ≠ .established && f.tcb.state ≠ .closeWait)
        (.ret fun _ => .error "Connection is closing"),
      .loop (fun f => f.tcb.snd.lbw - f.tcb.snd.una = maxBufSize) (block [
        .wait .tcbLock,
        when (·.writeCancelled) (unlockReturn fun _ => .error "Write on a closed socket"),
        when (·.tcb.timeoutCancelled)
          (unlockReturn fun _ => .error "Write on timed out connection")]),
      .act fun f => (f.tcb.writePart f.writeCall.rest).map fun r =>
        { f.setTCB r.1 with
          writeCall := { f.writeCall with amountWritten := f.writeCall.amountWritten + r.2 } },
      .unlock .tcbLock]),
    .ret fun f => .n f.writeCall.amountToWrite]

/-- The first of the listener's pending connections; a panic if there is none. -/
def popPending : Routine :=
  .act fun f =>
    match f.pendingConnections with
    | [] => none
    | key :: rest => some { f with connEntry := key, pendingConnections := rest }

def accept : Routine :=
  block [
    when (!·.env.listener) (.ret fun _ => .error "Listener socket does not exist"),
    when (0 < ·.pendingConnections.length) (block [popPending, .ret fun f => .conn f.connEntry]),
    .lock .pendingConnMutex,
    .loop (·.pendingConnections.length = 0) (block [
      .wait .pendingConnMutex,
      .check .waking (·.listenerCancelled)
        (.ret fun _ => .error "Listener has been cancelled due to close")]),
    popPending,
    .deferUnlock .pendingConnMutex (.ret fun f => .conn f.connEntry)]

def updateTimeout (segmentReceivedNum : U32) : Routine :=
  block [
    .lock .tcbLock,
    when (fun f => (f.tcb.segmentToTimestamp segmentReceivedNum).isNone)
      (unlockReturn fun _ => .done),
    .act fun f => (f.tcb.segmentToTimestamp segmentReceivedNum).map fun sent =>
      { f with rtt := f.env.now - sent },
    onTCB fun s =>
      { s with
        segmentToTimestamp := Function.update s.segmentToTimestamp segmentReceivedNum none },
    .unlock .tcbLock,
    .modify fun f => f.setTCB { f.tcb with
      srtt := if f.tcb.srtt = -1 then calculateSRTT f.rtt f.rtt
        else calculateSRTT f.tcb.srtt f.rtt },
    onTCB fun s => { s with rto := calculateRTO s.srtt },
    .ret fun _ => .done]

/-- Entered with the lock, which it releases. -/
def fastRetransmit : Routine :=
  block [
    onTCB TCB.afterLoss,
    onTCB (·.setAckFreq 0),
    .act fun f => f.tcb.retransmissionQueue.head?.map fun packet =>
      let r := f.tcb.resend f.conn.key f.env.now packet
      { f.setTCB r.1 with packet := [r.2] },
    .unlock .tcbLock,
    .modify fun f => f.emit f.packet,
    .ret fun _ => .done]

/-- An acknowledgement out of range ends `Receive`. -/
def dropAck (hdr : TCPFields) : Routine :=
  .ite (fun _ => hdr.windowSize = 0)
    (when (fun f => hdr.ackNum ≤ f.tcb.snd.una || hdr.ackNum > f.tcb.snd.nxt)
      (unlockReturn fun _ => .done))
    (when (fun f => hdr.ackNum ≤ f.tcb.snd.una ||
        hdr.ackNum > f.tcb.snd.una + f.tcb.snd.wnd && f.tcb.snd.wnd ≠ 0)
      (unlockReturn fun _ => .done))

/-- `Receive` from its test of the acknowledgement on. -/
def newAck (hdr : TCPFields) : Routine :=
  block [
    dropAck hdr,
    onTCB (·.removeFromRetransmissionQueue hdr.ackNum),
    when (·.tcb.cControlEnabled) (onTCB (·.countAck hdr.ackNum)),
    onTCB (·.moveUna hdr),
    .unlock .tcbLock,
    .call (updateTimeout hdr.ackNum),
    .ret fun _ => .done]

/-- The sender's part of `Receive`. -/
def receiveAck (hdr : TCPFields) : Routine :=
  block [
    when (fun f => f.tcb.cControlEnabled && hdr.ackNum = f.tcb.currentAck)
      (.ite (fun f => f.tcb.currentAckFreq = 3 && 0 < f.tcb.retransmissionQueue.length)
        (block [
          onTCB (·.setAckFreq 0),
          .call fastRetransmit,
          .ret fun _ => .done])
        (onTCB fun s => s.setAckFreq (s.currentAckFreq + 1))),
    newAck hdr]

def receive (seg : Segment) : Routine :=
  block [
    when (fun _ => !seg.hdr.hasAck) (.ret fun _ => .done),
    .lock .tcbLock,
    .act fun f => (f.tcb.receiveData f.conn.key seg.hdr seg.payload).map fun r =>
      (f.setTCB r.1).emit r.2,
    receiveAck seg.hdr]

def receiveFin (hdr : TCPFields) : Routine :=
  block [
    .lock .tcbLock,
    .deferUnlock .tcbLock (block [
      .modify fun f =>
        let r := f.tcb.receiveFin f.conn.key hdr
        (f.setTCB r.1).emit r.2,
      .ret fun _ => .done])]

def handleStateListen (localAddr : U32) (key : SocketData) (hdr : TCPFields) : Routine :=
  block [
    when (fun _ => hdr.hasAck) (.ret fun _ => .done),
    when (fun _ => hdr.hasSyn) (.modify fun f =>
      let c := Conn.handleStateListen localAddr key f.env.newISS hdr
      { f.emit [c.synAckMsg .control] with spawned := f.spawned ++ [c] }),
    .ret fun _ => .done]

def handleStateSynSent (hdr : TCPFields) : Routine :=
  block [
    .modify fun f =>
      let r := f.conn.handleStateSynSent f.env hdr
      { f.emit r.2 with conn := r.1 },
    .ret fun _ => .done]

def handleStateSynReceived (seg : Segment) : Routine :=
  block [
    when (fun _ => 0 < seg.payload.length) (.ret fun _ => .done),
    when (fun _ => seg.hdr.hasSyn) (.modify fun f => f.emit [f.conn.synAckMsg .control]),
    .ite (fun _ => seg.hdr.hasAck)
      (when (fun f => f.tcb.snd.una < seg.hdr.ackNum && seg.hdr.ackNum ≤ f.tcb.snd.nxt)
        (block [
          onTCB fun s =>
            { s with
              state := .established
              snd := { s.snd with wnd := seg.hdr.windowSize.setWidth 32 } },
          -- an active open finds no receiver on `RTOTimeoutChan`
          .act fun f => if f.conn.passive then
            some { f with conn := { f.conn with send := .top, timer := true } } else none,
          .act fun f => if f.env.listener then
            some { f with pendingConnections := f.pendingConnections ++ [f.conn.key] } else none,
          .lock .pendingConnMutex,
          .unlock .pendingConnMutex]))
      (.ret fun _ => .done),
    .ret fun _ => .done]

def handleEstablished (seg : Segment) : Routine :=
  block [
    .ite (fun _ => seg.hdr.hasFin) (.call (receiveFin seg.hdr)) (.call (receive seg)),
    .ret fun _ => .done]

def handleFinWait1 (seg : Segment) : Routine :=
  block [
    .lock .tcbLock,
    .ite (fun _ => seg.hdr.hasAck)
      (when (fun f => seg.hdr.ackNum = f.tcb.snd.nxt) (block [
        onTCB fun s => { s with state := .finWait2 },
        .unlock .tcbLock,
        .call (receive seg),
        .ret fun _ => .done]))
      (unlockReturn fun _ => .done),
    when (fun _ => seg.hdr.hasFin) (block [
      .modify fun f =>
        let r := f.conn.finInFinWait1 seg.hdr
        { f.emit r.2 with conn := r.1 },
      unlockReturn fun _ => .done]),
    .unlock .tcbLock,
    .call (receive seg),
    .ret fun _ => .done]

def handleFinWait2 (seg : Segment) : Routine :=
  block [
    .ite (fun _ => seg.hdr.hasFin)
      (block [
        .lock .tcbLock,
        when (fun f => seg.hdr.seqNum ≠ f.tcb.rcv.nxt) (unlockReturn fun _ => .done),
        onTCB fun s =>
          { s with state := .timeWait, rcv := { s.rcv with nxt := s.rcv.nxt + 1 } },
        .modify fun f => f.emit [f.tcb.ackMsg f.conn.key f.tcb.rcv.nxt],
        onTCB fun s => { s with resetWaitChan := true },
        .unlock .tcbLock,
        .modify fun f =>
          { f with conn := { f.conn with waitForClosed := f.conn.waitForClosed + 1 } }])
      (.call (receive seg)),
    .ret fun _ => .done]

def handleClosing (hdr : TCPFields) : Routine :=
  block [
    .lock .tcbLock,
    .deferUnlock .tcbLock (block [
      .modify fun f =>
        let r := f.conn.handleClosing hdr
        { f.emit r.2 with conn := r.1 },
      .ret fun _ => .done])]

def handleTimeWait (hdr : TCPFields) : Routine :=
  block [
    when (fun _ => hdr.hasFin) (block [
      .lock .tcbLock,
      .modify fun f => f.emit [f.tcb.ackMsg f.conn.key f.tcb.rcv.nxt],
      -- a send on a nil `ResetWaitChan` never returns
      .act fun f => if f.tcb.resetWaitChan then some f else none,
      .unlock .tcbLock]),
    .ret fun _ => .done]

def handleCloseWait (hdr : TCPFields) : Routine :=
  block [
    when (fun _ => hdr.hasFin) (block [
      .lock .tcbLock,
      .modify fun f => f.emit [f.tcb.ackMsg f.conn.key f.tcb.rcv.nxt],
      .unlock .tcbLock]),
    .ret fun _ => .done]

def handleLastAck (hdr : TCPFields) : Routine :=
  block [
    when (fun _ => hdr.hasAck) (block [
      .lock .tcbLock,
      when (fun f => hdr.ackNum = f.tcb.snd.nxt) (.modify fun f =>
        let s := ({ f.tcb with state := .closed } : TCB).removeFromRetransmissionQueue hdr.ackNum
        { f with conn := { f.conn with tcb := s, closedNotice := true } }),
      .unlock .tcbLock]),
    .ret fun _ => .done]

/-- The two waits of `Send` for data. -/
def waitForData : Routine :=
  .loop (fun f => f.tcb.snd.nxt = f.tcb.snd.lbw) (block [
    when (·.tcb.pendingSendingFin) (unlockReturn fun _ => .done),
    when (·.tcb.cancelled) (unlockReturn fun _ => .done),
    .wait .tcbLock,
    when (·.tcb.cancelled) (unlockReturn fun _ => .done)])

/-- One iteration of the transmit loop, without the lock but for the timestamp. -/
def sendSegment : Routine :=
  block [
    .modify fun f =>
      let amountToCopy := min32 (f.amountToSend - f.amountSent) mssData
      { f with
        amountToCopy
        packet := [f.tcb.dataMsg f.conn.key .data (f.tcb.sendPayload amountToCopy)] },
    when (·.tcb.cancelled) (.ret fun _ => .done),
    .modify fun f => f.setTCB { f.tcb with
      retransmissionQueue := f.tcb.retransmissionQueue ++
        f.packet.map fun m => ⟨m.hdr, BitVec.ofNat 32 m.payload.length⟩ },
    .modify fun f => f.emit f.packet,
    .modify fun f =>
      { f.setTCB { f.tcb with snd := { f.tcb.snd with nxt := f.tcb.snd.nxt + f.amountToCopy } } with
        amountSent := f.amountSent + f.amountToCopy },
    .lock .tcbLock,
    .modify fun f => f.setTCB (f.tcb.setTimestamp f.tcb.snd.nxt f.env.now),
    .unlock .tcbLock]

def send : Routine :=
  .loop (fun _ => true) (block [
    .lock .tcbLock,
    .loop (fun f => f.tcb.snd.nxt - f.tcb.snd.una < min32 f.tcb.snd.wnd f.tcb.cwnd) (block [
      waitForData,
      .modify fun f => { f with amountToSend := f.tcb.amountToSend, amountSent := 0 },
      .unlock .tcbLock,
      .loop (fun f => f.amountSent < f.amountToSend) sendSegment,
      .lock .tcbLock]),
    waitForData,
    when (fun f => f.tcb.snd.wnd = 0 && f.tcb.snd.lbw > f.tcb.snd.nxt) (block [
      .loop (·.tcb.snd.wnd = 0) (block [
        .wait .tcbLock,
        when (·.tcb.cancelled) (unlockReturn fun _ => .done)]),
      onTCB fun s => { s with snd := { s.snd with nxt := s.snd.nxt + 1 } }]),
    .loop (fun f => f.tcb.snd.nxt - f.tcb.snd.una = min32 f.tcb.snd.wnd f.tcb.cwnd &&
        f.tcb.snd.wnd ≠ 0) (block [
      when (·.tcb.cancelled) (unlockReturn fun _ => .done),
      .wait .tcbLock,
      when (·.tcb.cancelled) (unlockReturn fun _ => .done)]),
    .unlock .tcbLock])

/-- The handler that `ReceivePacket` calls for a state. -/
def handle (localAddr : U32) (key : SocketData) (seg : Segment) : ConnectionState → Routine
  | .closed => .ret fun _ => .done
  | .listen => handleStateListen localAddr key seg.hdr
  | .synSent => handleStateSynSent seg.hdr
  | .synReceived => handleStateSynReceived seg
  | .established => handleEstablished seg
  | .finWait1 => handleFinWait1 seg
  | .finWait2 => handleFinWait2 seg
  | .closing => handleClosing seg.hdr
  | .timeWait => handleTimeWait seg.hdr
  | .closeWait => handleCloseWait seg.hdr
  | .lastAck => handleLastAck seg.hdr

end Routine

/-- A call of one of the routines, or the start of a `Send`. -/
inductive Invocation
  | read (amountToRead : U32) (readAll : Bool)
  | write (data : List U8)
  | accept
  | receive (seg : Segment)
  | receiveFin (hdr : TCPFields)
  | handle (localAddr : U32) (key : SocketData) (seg : Segment) (st : ConnectionState)
  | send

def Invocation.body : Invocation → Routine
  | .read amountToRead readAll => Routine.read amountToRead readAll
  | .write data => Routine.write data
  | .accept => Routine.accept
  | .receive seg => Routine.receive seg
  | .receiveFin hdr => Routine.receiveFin hdr
  | .handle localAddr key seg st => Routine.handle localAddr key seg st
  | .send => Routine.send

section Balance

variable {bad : Test → Frame → Bool} {Q K : Finset Mutex → Bool → Prop} {held : Finset Mutex}
  {found : Bool}

open Cmd

@[simp] theorem Routine.safe_onTCB {g : TCB → TCB} :
    (Routine.onTCB g).Safe bad Q K held found ↔ K held found := Iff.rfl

@[simp] theorem Routine.safe_unlockReturn {r : Frame → Return} :
    (Routine.unlockReturn r).Safe bad Q K held found ↔
      Mutex.tcbLock ∈ held ∧ Q (held.erase .tcbLock) found := Iff.rfl

theorem Routine.safe_updateTimeout (n : U32) (hQ : Q ∅ found) :
    (Routine.updateTimeout n).Safe bad Q K ∅ found := by
  simp [Routine.updateTimeout, Cmd.Safe, hQ]

/-- `fastRetransmit` releases the lock of its caller. -/
theorem Routine.safe_fastRetransmit (hQ : Q ∅ found) :
    Routine.fastRetransmit.Safe bad Q K {.tcbLock} found := by
  simp [Routine.fastRetransmit, Cmd.Safe, hQ]

theorem Routine.safe_newAck (hdr : TCPFields) (hQ : Q ∅ found) :
    (Routine.newAck hdr).Safe bad Q K {.tcbLock} found := by
  simp [Routine.newAck, Routine.dropAck, Cmd.Safe, hQ, Routine.safe_updateTimeout]

theorem Routine.safe_receive (seg : Segment) (hQ : Q ∅ found) :
    (Routine.receive seg).Safe bad Q K ∅ found := by
  simp [Routine.receive, Routine.receiveAck, Cmd.Safe, hQ, Routine.safe_fastRetransmit,
    Routine.safe_newAck seg.hdr hQ]

theorem Routine.safe_receiveFin (hdr : TCPFields) (hQ : Q ∅ found) :
    (Routine.receiveFin hdr).Safe bad Q K ∅ found := by
  simp [Routine.receiveFin, Cmd.Safe, hQ]

theorem Routine.safe_handle {localAddr : U32} {key : SocketData} {seg : Segment}
    (st : ConnectionState) (hQ : Q ∅ found) :
    (Routine.handle localAddr key seg st).Safe bad Q K ∅ found := by
  cases st with
  | closed => exact hQ
  | listen => simp [Routine.handle, Routine.handleStateListen, Cmd.Safe, hQ]
  | synSent => simp [Routine.handle, Routine.handleStateSynSent, Cmd.Safe, hQ]
  | synReceived => simp [Routine.handle, Routine.handleStateSynReceived, Cmd.Safe, hQ]
  | established =>
    simp [Routine.handle, Routine.handleEstablished, Cmd.Safe, hQ, Routine.safe_receive,
      Routine.safe_receiveFin]
  | finWait1 =>
    simp [Routine.handle, Routine.handleFinWait1, Cmd.Safe, hQ, Routine.safe_receive]
  | finWait2 =>
    simp [Routine.handle, Routine.handleFinWait2, Cmd.Safe, hQ, Routine.safe_receive]
  | closing => simp [Routine.handle, Routine.handleClosing, Cmd.Safe, hQ]
  | timeWait => simp [Routine.handle, Routine.handleTimeWait, Cmd.Safe, hQ]
  | closeWait => simp [Routine.handle, Routine.handleCloseWait, Cmd.Safe, hQ]
  | lastAck => simp [Routine.handle, Routine.handleLastAck, Cmd.Safe, hQ]

theorem Routine.safe_send (hQ : Q ∅ found) (hK : K ∅ found) :
    Routine.send.Safe bad Q K ∅ found := by
  simp [Routine.send, Routine.waitForData, Routine.sendSegment, Cmd.Safe, hQ, hK]

/-- The connection takes no more data; the listener is closed. -/
def Test.fails : Test → Frame → Bool
  | .loopTop, f => f.tcb.state ≠ .established && f.tcb.state ≠ .closeWait
  | .waking, f => f.listenerCancelled

theorem Invocation.safe (i : Invocation) :
    i.body.Safe Test.fails (fun held found => held = ∅ ↔ found = false)
      (fun held found => held = ∅ ↔ found = false) ∅ false := by
  cases i with
  | read => simp [Invocation.body, Routine.read, Cmd.Safe]
  | write => simp [Invocation.body, Routine.write, Cmd.Safe, Test.fails]
  | accept => simp [Invocation.body, Routine.accept, Routine.popPending, Cmd.Safe, Test.fails]
  | receive => exact Routine.safe_receive _ (by simp)
  | receiveFin => exact Routine.safe_receiveFin _ (by simp)
  | handle => exact Routine.safe_handle _ (by simp)
  | send => exact Routine.safe_send (by simp) (by simp)

/-- No routine releases a mutex that it does not hold, or locks one twice. -/
theorem Invocation.not_misused (i : Invocation) {env : Frame → Frame → Prop} {f : Frame}
    {tests : List (Test × Frame)} : ¬ Exec env i.body ∅ f tests .misused :=
  fun h => h.meets i.safe

/-- A return leaves no mutex locked exactly if `Write` has found ESTABLISHED or CLOSE_WAIT at every
top of its loop and `Accept` has found the listener open each time it woke, whatever other threads
do and however often a wait ends. -/
theorem locks_released_iff (i : Invocation) {env : Frame → Frame → Prop} {f f' : Frame}
    {tests : List (Test × Frame)} {held : Finset Mutex} {r : Return}
    (h : Exec env i.body ∅ f tests (.returned held r f')) :
    held = ∅ ↔
      (∀ g, (.loopTop, g) ∈ tests → g.tcb.state = .established ∨ g.tcb.state = .closeWait) ∧
        ∀ g, (.waking, g) ∈ tests → g.listenerCancelled = false := by
  have hheld : held = ∅ ↔ (false || finds Test.fails tests) = false := h.meets i.safe
  rw [hheld, Bool.false_or, finds, List.any_eq_false]
  constructor
  · intro hpass
    refine ⟨fun g hg => ?_, fun g hg => ?_⟩
    · have htop := hpass _ hg
      simp only [Test.fails, Bool.and_eq_true, decide_eq_true_eq] at htop
      tauto
    · simpa [Test.fails] using hpass _ hg
  · rintro ⟨htop, hwake⟩ ⟨t, g⟩ hg
    cases t with
    | loopTop => rcases htop g hg with hs | hs <;> simp [Test.fails, hs]
    | waking => simp [Test.fails, hwake g hg]

section Sample

/-- A call on a connection in the given state. -/
def Frame.sample (st : ConnectionState) : Frame where
  conn := { Conn.fresh 100 100 500 with tcb := { (Conn.fresh 100 100 500).tcb with state := st } }
  env := ⟨0, 0, true⟩

/-- A connection arrives while `Accept` waits. -/
theorem locks_released_iff_accept :
    let key : SocketData := ⟨1, 1000, 2, 2000⟩
    let wake := fun f : Frame => { f with pendingConnections := [key] }
    let f := Frame.sample .listen
    ∃ tests, Exec (fun s t => t = wake s) Invocation.accept.body ∅ f tests
        (.returned ∅ (.conn key) { f with connEntry := key }) ∧
      ((∅ : Finset Mutex) = ∅ ↔
        (∀ g, (.loopTop, g) ∈ tests → g.tcb.state = .established ∨ g.tcb.state = .closeWait) ∧
          ∀ g, (.waking, g) ∈ tests → g.listenerCancelled = false) := by
  intro key wake f
  have hrun : Invocation.accept.body.run wake 2 ∅ f =
      some (.returned ∅ (.conn key) { f with connEntry := key }) := rfl
  obtain ⟨tests, h⟩ := exec_run hrun
  exact ⟨tests, h, locks_released_iff .accept h⟩

/-- `Write` on a connection that has sent its FIN returns with the lock of the TCB held. -/
theorem write_keeps_lock :
    ¬ ∀ (i : Invocation) (env : Frame → Frame → Prop) (f f' : Frame)
      (tests : List (Test × Frame)) (held : Finset Mutex) (r : Return),
      Exec env i.body ∅ f tests (.returned held r f') → held = ∅ := by
  intro h
  have hrun : (Invocation.write [1]).body.run id 2 ∅ (Frame.sample .finWait1) =
      some (.returned {.tcbLock} (.error "Connection is closing")
        { Frame.sample .finWait1 with writeCall := { data := [1] } }) := rfl
  obtain ⟨tests, hexec⟩ := exec_run hrun
  have hheld := h _ _ _ _ _ _ _ hexec
  revert hheld
  decide

-- the listener is closed while `Accept` waits
example :
    let wake := fun f : Frame => { f with listenerCancelled := true }
    Invocation.accept.body.run wake 2 ∅ (Frame.sample .listen) =
      some (.returned {.pendingConnMutex} (.error "Listener has been cancelled due to close")
        (wake (Frame.sample .listen))) := rfl

end Sample

end Balance

section Alone

variable {wake : Frame → Frame} {fuel : ℕ} {f : Frame} {seg : Segment} {c : Conn}
  {msgs : List Msg}

namespace Routine

open Cmd

@[simp] theorem run_onTCB {g : TCB → TCB} {held : Finset Mutex} :
    (onTCB g).run wake fuel held f = some (.through held (f.setTCB (g f.tcb))) := by
  rfl

@[simp] theorem run_unlockReturn {r : Frame → Return} :
    (unlockReturn r).run wake fuel {.tcbLock} f = some (.returned ∅ (r f) f) := by
  simp [unlockReturn]

/-- Running on its own, the routine brings the connection to `c` and sends `msgs`. -/
def Leaves (p : Routine) (held : Finset Mutex) (f : Frame) (c : Conn) (msgs : List Msg) : Prop :=
  ∀ wake fuel, ∃ f', p.run wake fuel held f = some (.returned ∅ .done f') ∧ f'.conn = c ∧
    f'.sent = f.sent ++ msgs

theorem leaves_updateTimeout (n : U32) :
    (updateTimeout n).Leaves ∅ f { f.conn with tcb := f.conn.tcb.updateTimeout f.env.now n } [] := by
  intro wake fuel
  cases h : f.conn.tcb.segmentToTimestamp n with
  | none => exact ⟨f, by simp [updateTimeout, h], by simp [TCB.updateTimeout, h], by simp⟩
  | some sent =>
    refine ⟨_, by simp [updateTimeout, h, Frame.setTCB]; rfl, ?_, by simp⟩
    simp [TCB.updateTimeout, h]

theorem leaves_fastRetransmit (hq : f.conn.tcb.retransmissionQueue ≠ []) :
    fastRetransmit.Leaves {.tcbLock} f
      { f.conn with tcb := (f.conn.tcb.fastRetransmit f.conn.key f.env.now).1 }
      (f.conn.tcb.fastRetransmit f.conn.key f.env.now).2 := by
  intro wake fuel
  obtain ⟨packet, rest, hq⟩ := List.exists_cons_of_ne_nil hq
  refine ⟨_, by
    simp [fastRetransmit, TCB.afterLoss, TCB.setAckFreq, hq, Frame.setTCB, Frame.emit]
    rfl, ?_, ?_⟩
  · simp [TCB.fastRetransmit, TCB.afterLoss, hq]
  · simp [TCB.fastRetransmit, TCB.afterLoss, hq]


theorem run_dropAck (hdr : TCPFields) :
    (dropAck hdr).run wake fuel {.tcbLock} f =
      if f.conn.tcb.ackDropped hdr then some (.returned ∅ .done f)
      else some (.through {.tcbLock} f) := by
  simp only [dropAck, TCB.ackDropped, run_ite, run_when, run_unlockReturn, decide_eq_true_eq]
  split <;> simp

theorem leaves_newAck (hdr : TCPFields) :
    (newAck hdr).Leaves {.tcbLock} f
      { f.conn with
        tcb := if f.conn.tcb.ackDropped hdr then f.conn.tcb
          else f.conn.tcb.acceptAck f.env.now hdr } [] := by
  intro wake fuel
  by_cases hd : f.conn.tcb.ackDropped hdr = true
  · exact ⟨f, by simp [newAck, run_dropAck, hd], by simp [hd], by simp⟩
  · rw [if_neg hd, TCB.acceptAck]
    generalize hs1 : f.conn.tcb.removeFromRetransmissionQueue hdr.ackNum = s1
    obtain ⟨f', hrun, hconn, hsent⟩ := leaves_updateTimeout
      (f := f.setTCB (TCB.moveUna (if s1.cControlEnabled then s1.countAck hdr.ackNum else s1) hdr))
      hdr.ackNum wake fuel
    refine ⟨f', ?_, hconn, hsent⟩
    by_cases hcc : s1.cControlEnabled = true
    · rw [if_pos hcc] at hrun
      simp [newAck, run_dropAck, Frame.tcb, hd, hs1, hcc, hrun]
    · rw [if_neg hcc] at hrun
      simp [newAck, run_dropAck, Frame.tcb, hd, hs1, hcc, hrun]

theorem leaves_receiveAck (hdr : TCPFields) :
    (receiveAck hdr).Leaves {.tcbLock} f
      { f.conn with tcb := (f.conn.tcb.receiveAck f.conn.key f.env.now hdr).1 }
      (f.conn.tcb.receiveAck f.conn.key f.env.now hdr).2 := by
  intro wake fuel
  by_cases hdup : f.conn.tcb.cControlEnabled = true ∧ hdr.ackNum = f.conn.tcb.currentAck
  · by_cases hthird : f.conn.tcb.currentAckFreq = 3 ∧ 0 < f.conn.tcb.retransmissionQueue.length
    · have hq : f.conn.tcb.retransmissionQueue ≠ [] := List.ne_nil_of_length_pos hthird.2
      obtain ⟨f', hrun, hconn, hsent⟩ := leaves_fastRetransmit
        (f := f.setTCB (f.conn.tcb.setAckFreq 0)) hq wake fuel
      have ht : f.conn.tcb.thirdDuplicate hdr = true := by simp [TCB.thirdDuplicate, hdup, hthird]
      refine ⟨f', ?_, ?_⟩
      · simp [receiveAck, Frame.tcb, hdup, hthird, hrun]
      · rw [TCB.receiveAck, if_pos ht]
        exact ⟨hconn, hsent⟩
    · obtain ⟨f', hrun, hconn, hsent⟩ := leaves_newAck
        (f := f.setTCB (f.conn.tcb.setAckFreq (f.conn.tcb.currentAckFreq + 1))) hdr wake fuel
      have ht : f.conn.tcb.thirdDuplicate hdr = false := by
        simpa [TCB.thirdDuplicate, hdup] using hthird
      refine ⟨f', ?_, ?_⟩
      · simp [receiveAck, Frame.tcb, hdup, hthird, hrun]
      · rw [TCB.receiveAck, if_neg (by simp [ht])]
        simp only [if_pos hdup, apply_ite Prod.fst, apply_ite Prod.snd, ite_self]
        exact ⟨hconn, hsent⟩
  · obtain ⟨f', hrun, hconn, hsent⟩ := leaves_newAck (f := f) hdr wake fuel
    have ht : f.conn.tcb.thirdDuplicate hdr = false := by
      simp only [TCB.thirdDuplicate, decide_eq_false_iff_not]
      tauto
    refine ⟨f', ?_, ?_⟩
    · simp [receiveAck, Frame.tcb, hdup, hrun]
    · rw [TCB.receiveAck, if_neg (by simp [ht])]
      simp only [if_neg hdup, apply_ite Prod.fst, apply_ite Prod.snd, ite_self]
      exact ⟨hconn, hsent⟩

theorem leaves_receive (h : f.conn.receive f.env seg = some (c, msgs)) :
    (receive seg).Leaves ∅ f c msgs := by
  intro wake fuel
  simp only [Conn.receive, TCB.receive] at h
  split at h
  · rename_i hack
    simp only [Option.map_map, Option.map_eq_some_iff] at h
    obtain ⟨r, hr, hc⟩ := h
    cases hc
    obtain ⟨f', hrun, hconn, hsent⟩ := leaves_receiveAck (f := (f.setTCB r.1).emit r.2) seg.hdr
      wake fuel
    refine ⟨f', ?_, hconn, ?_⟩
    · simp [receive, hack, hr, hrun]
    · rw [hsent]
      simp [Frame.emit, Frame.setTCB]
  · rename_i hack
    cases h
    exact ⟨f, by simp [receive, hack], rfl, by simp⟩

theorem leaves_receiveFin (hdr : TCPFields) :
    (receiveFin hdr).Leaves ∅ f
      { f.conn with tcb := (f.conn.tcb.receiveFin f.conn.key hdr).1 }
      (f.conn.tcb.receiveFin f.conn.key hdr).2 := by
  intro wake fuel
  refine ⟨_, by simp [receiveFin]; rfl, ?_, ?_⟩ <;> simp [Frame.emit, Frame.setTCB]

theorem Leaves.of_some {p : Routine} {held : Finset Mutex} {x : Conn × List Msg}
    (hl : p.Leaves held f x.1 x.2) (h : some x = some (c, msgs)) : p.Leaves held f c msgs := by
  cases h
  exact hl

theorem leaves_handleStateSynReceived (hpassive : f.conn.passive = true)
    (h : f.conn.handleStateSynReceived f.env seg = some (c, msgs)) :
    (handleStateSynReceived seg).Leaves ∅ f c msgs := by
  intro wake fuel
  simp only [Conn.handleStateSynReceived] at h
  by_cases hpay : 0 < seg.payload.length
  · rw [if_pos hpay] at h
    cases h
    exact ⟨f, by simp [handleStateSynReceived, hpay], rfl, by simp⟩
  rw [if_neg hpay] at h
  generalize hout : (if seg.hdr.hasSyn = true then [f.conn.synAckMsg .control] else []) = out at h
  have hsyn : (when (fun _ => seg.hdr.hasSyn)
      (.modify fun f => f.emit [f.conn.synAckMsg .control]) : Routine).run wake fuel ∅ f =
        some (.through ∅ (f.emit out)) := by
    subst hout
    by_cases hsyn : seg.hdr.hasSyn = true
    · simp [hsyn]
    · simp [hsyn]
  by_cases hack : seg.hdr.hasAck = true
  · rw [if_pos hack] at h
    by_cases hnew : f.conn.tcb.snd.una < seg.hdr.ackNum ∧ seg.hdr.ackNum ≤ f.conn.tcb.snd.nxt
    · rw [if_pos hnew] at h
      rw [if_neg (not_not.mpr hpassive)] at h
      by_cases hl : f.env.listener = true
      · rw [if_pos hl] at h
        cases h
        refine ⟨_, by simp [handleStateSynReceived, hpay, hsyn, hack, hnew, hpassive, hl,
          Frame.tcb]; rfl, ?_, rfl⟩
        simp [hpassive]
      · rw [if_neg hl] at h
        cases h
    · rw [if_neg hnew] at h
      cases h
      have hnew' : ¬ ((f.emit msgs).tcb.snd.una < seg.hdr.ackNum ∧
        seg.hdr.ackNum ≤ (f.emit msgs).tcb.snd.nxt) := hnew
      exact ⟨f.emit msgs, by simp [handleStateSynReceived, hpay, hsyn, hack, hnew'], rfl, rfl⟩
  · rw [if_neg hack] at h
    cases h
    exact ⟨f.emit msgs, by simp [handleStateSynReceived, hpay, hsyn, hack], rfl, rfl⟩

theorem leaves_handleEstablished (h : f.conn.handleEstablished f.env seg = some (c, msgs)) :
    (handleEstablished seg).Leaves ∅ f c msgs := by
  intro wake fuel
  simp only [Conn.handleEstablished] at h
  by_cases hf : seg.hdr.hasFin = true
  · rw [if_pos hf] at h
    cases h
    obtain ⟨f', hrun, hend⟩ := leaves_receiveFin (f := f) seg.hdr wake fuel
    exact ⟨f', by simp [handleEstablished, hf, hrun], hend⟩
  · rw [if_neg hf] at h
    obtain ⟨f', hrun, hend⟩ := leaves_receive h wake fuel
    exact ⟨f', by simp [handleEstablished, hf, hrun], hend⟩

theorem leaves_handleFinWait1 (h : f.conn.handleFinWait1 f.env seg = some (c, msgs)) :
    (handleFinWait1 seg).Leaves ∅ f c msgs := by
  intro wake fuel
  simp only [Conn.handleFinWait1] at h
  by_cases hack : seg.hdr.hasAck = true
  · rw [if_pos hack] at h
    by_cases hnxt : seg.hdr.ackNum = f.conn.tcb.snd.nxt
    · rw [if_pos hnxt] at h
      obtain ⟨f', hrun, hend⟩ := leaves_receive
        (f := f.setTCB { f.conn.tcb with state := .finWait2 }) h wake fuel
      exact ⟨f', by simp [handleFinWait1, Frame.tcb, hack, hnxt, hrun], hend⟩
    · rw [if_neg hnxt] at h
      by_cases hf : seg.hdr.hasFin = true
      · rw [if_pos hf] at h
        exact Leaves.of_some (fun _ _ =>
          ⟨_, by simp [handleFinWait1, Frame.tcb, hack, hnxt, hf]; rfl, rfl, rfl⟩) h wake fuel
      · rw [if_neg hf] at h
        obtain ⟨f', hrun, hend⟩ := leaves_receive h wake fuel
        exact ⟨f', by simp [handleFinWait1, Frame.tcb, hack, hnxt, hf, hrun], hend⟩
  · rw [if_neg hack] at h
    cases h
    exact ⟨f, by simp [handleFinWait1, hack], rfl, by simp⟩

theorem leaves_handleFinWait2 (h : f.conn.handleFinWait2 f.env seg = some (c, msgs)) :
    (handleFinWait2 seg).Leaves ∅ f c msgs := by
  intro wake fuel
  simp only [Conn.handleFinWait2] at h
  by_cases hf : seg.hdr.hasFin = true
  · rw [if_pos hf] at h
    by_cases hseq : seg.hdr.seqNum = f.conn.tcb.rcv.nxt
    · rw [if_neg (not_not.mpr hseq)] at h
      cases h
      exact ⟨_, by simp [handleFinWait2, Frame.tcb, hf, hseq]; rfl, rfl, rfl⟩
    · rw [if_pos hseq] at h
      cases h
      exact ⟨f, by simp [handleFinWait2, hf, hseq], rfl, by simp⟩
  · rw [if_neg hf] at h
    obtain ⟨f', hrun, hend⟩ := leaves_receive h wake fuel
    exact ⟨f', by simp [handleFinWait2, hf, hrun], hend⟩

/-- Without other threads, the handlers do what the atomic model says, where they come to their
end. -/
theorem leaves_handle {localAddr : U32} {key : SocketData} {st : ConnectionState}
    (hst : st ≠ .listen) (hpassive : st = .synReceived → f.conn.passive = true)
    (hreset : st = .timeWait → seg.hdr.hasFin = true → f.conn.tcb.resetWaitChan = true)
    (h : f.conn.handle f.env seg st = some (c, msgs)) :
    (handle localAddr key seg st).Leaves ∅ f c msgs := by
  cases st with
  | closed =>
    cases h
    exact fun _ _ => ⟨f, rfl, rfl, by simp⟩
  | listen => exact absurd rfl hst
  | synSent =>
    exact Leaves.of_some (fun _ _ => ⟨_, by simp [handle, handleStateSynSent]; rfl, rfl, rfl⟩) h
  | synReceived => exact leaves_handleStateSynReceived (hpassive rfl) h
  | established => exact leaves_handleEstablished h
  | finWait1 => exact leaves_handleFinWait1 h
  | finWait2 => exact leaves_handleFinWait2 h
  | closing =>
    exact Leaves.of_some (fun _ _ => ⟨_, by simp [handle, handleClosing]; rfl, rfl, rfl⟩) h
  | timeWait =>
    refine Leaves.of_some (fun wake fuel => ?_) h
    by_cases hf : seg.hdr.hasFin = true
    · refine ⟨_, by simp [handle, handleTimeWait, Frame.tcb, hf, hreset rfl hf]; rfl, ?_, ?_⟩ <;>
        simp [Conn.handleTimeWait, hf, Frame.emit]
    · exact ⟨f, by simp [handle, handleTimeWait, hf], by simp [Conn.handleTimeWait, hf],
        by simp [Conn.handleTimeWait, hf]⟩
  | closeWait =>
    refine Leaves.of_some (fun wake fuel => ?_) h
    by_cases hf : seg.hdr.hasFin = true
    · refine ⟨_, by simp [handle, handleCloseWait, hf]; rfl, ?_, ?_⟩ <;>
        simp [Conn.handleCloseWait, hf, Frame.emit]
    · exact ⟨f, by simp [handle, handleCloseWait, hf], by simp [Conn.handleCloseWait, hf],
        by simp [Conn.handleCloseWait, hf]⟩
  | lastAck =>
    refine Leaves.of_some (fun wake fuel => ?_) h
    by_cases hack : seg.hdr.hasAck = true
    · by_cases hnxt : seg.hdr.ackNum = f.conn.tcb.snd.nxt
      · refine ⟨_, by simp [handle, handleLastAck, Frame.tcb, hack, hnxt]; rfl, ?_, ?_⟩ <;>
          simp [Conn.handleLastAck, hack, hnxt]
      · exact ⟨f, by simp [handle, handleLastAck, hack, hnxt], by simp [Conn.handleLastAck, hnxt],
          by simp [Conn.handleLastAck, hnxt]⟩
    · exact ⟨f, by simp [handle, handleLastAck, hack], by simp [Conn.handleLastAck, hack],
        by simp [Conn.handleLastAck, hack]⟩

end Routine

end Alone

end TcpIp
