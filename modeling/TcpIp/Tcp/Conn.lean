import TcpIp.Tcp.Send

/-! One connection with its goroutines: the segment handlers, `Close`, the timers, and the
machine of all their steps. -/
namespace TcpIp

/-- A TCB together with the control state of the goroutines that work on it. -/
structure Conn where
  /-- the handler's own `LocalAddr`, which `Close` uses in place of the key's -/
  localAddr : U32
  key : SocketData
  tcb : TCB
  /-- made by a listener, whose key it keeps -/
  passive : Bool
  /-- the socket table still has the entry -/
  inTable : Bool := true
  send : SendPc := .notStarted
  /-- `Connect` still waits in its select -/
  connecting : Bool := false
  /-- `WaitForAckReceiver` is running -/
  waitForAck : Bool := false
  /-- `waitTimeout` is running -/
  timer : Bool := false
  /-- number of running `WaitForClosed` goroutines -/
  waitForClosed : ℕ := 0
  /-- number of `Close` calls waiting for all data to be sent -/
  closeWaiting : ℕ := 0
  /-- number of `Close` calls that have sent their FIN and wait for CLOSED -/
  closeSent : ℕ := 0
  /-- a notice of CLOSED lies ready for `Close` -/
  closedNotice : Bool := false
  /-- the `Read` call that waits for data -/
  reading : Option ReadCall := none

/-- What a step takes from outside: the clock, `rand.Uint32`, and whether the table has the
listener's entry. -/
structure Env where
  now : Int64
  newISS : U32
  listener : Bool

namespace Conn

def synAckMsg (c : Conn) (origin : Origin) : Msg where
  origin
  addrs := some (c.key.localAddr, c.key.destAddr)
  hdr := createTCPHeader c.key.localAddr c.key.destAddr c.key.localPort c.key.destPort
    c.tcb.snd.iss c.tcb.rcv.nxt (tcpFlagSyn ||| tcpFlagAck) c.tcb.rcv.wnd []
  payload := []

def synMsg (c : Conn) (origin : Origin) : Msg where
  origin
  addrs := some (c.key.localAddr, c.key.destAddr)
  hdr := createTCPHeader c.key.localAddr c.key.destAddr c.key.localPort c.key.destPort
    c.tcb.snd.iss 0 tcpFlagSyn maxBufSize []
  payload := []

/-- The entry `Connect` makes, and its SYN. -/
def connect (key : SocketData) (iss : U32) : Conn where
  localAddr := key.localAddr
  key
  passive := false
  tcb :=
    { state := .synSent
      snd := ⟨fun _ => 0, iss, iss + 1, 0, iss, iss + 1⟩
      rcv := ⟨fun _ => 0, 0, maxBufSize, 0, 0⟩
      rto := rtoUpper
      srtt := -1
      cwnd := maxBufSize }
  connecting := true

/-- The entry `HandleStateListen` makes for a SYN, before it sends the SYN-ACK. -/
def handleStateListen (localAddr : U32) (key : SocketData) (iss : U32) (hdr : TCPFields) :
    Conn where
  localAddr
  key
  passive := true
  tcb :=
    { state := .synReceived
      snd := ⟨fun _ => 0, iss, iss + 1, 0, iss, iss + 1⟩
      rcv := ⟨fun _ => 0, hdr.seqNum + 1, maxBufSize, hdr.seqNum, hdr.seqNum + 1⟩
      rto := rtoUpper
      srtt := -1
      cwnd := maxBufSize }
  waitForAck := true

def handleStateSynSent (c : Conn) (env : Env) (hdr : TCPFields) : Conn × List Msg :=
  let s := c.tcb
  if hdr.hasAck ∧ (hdr.ackNum ≤ s.snd.iss ∨ hdr.ackNum > s.snd.nxt) then (c, [])
  else if hdr.hasSyn then
    let s1 := { s with
      rcv := { s.rcv with nxt := hdr.seqNum + 1, lbr := hdr.seqNum + 1, irs := hdr.seqNum }
      snd := { s.snd with wnd := hdr.windowSize.setWidth 32, una := hdr.ackNum } }
    if s1.snd.una > s1.snd.iss then
      -- `Connect` takes the signal and starts the count of retransmissions anew
      let s2 := { s1 with
        state := .established
        snd := { s1.snd with iss := env.newISS }
        retransmitCounter := 0 }
      ({ c with tcb := s2, connecting := false, send := .top, timer := true },
        [{ origin := .ack
           addrs := some (c.key.localAddr, c.key.destAddr)
           hdr := createTCPHeader c.key.localAddr c.key.destAddr c.key.localPort c.key.destPort
             s2.snd.nxt s2.rcv.nxt tcpFlagAck maxBufSize []
           payload := [] }])
    else
      -- simultaneous open: the SYN-ACK goes out without the two leading addresses
      let s2 := { s1 with state := .synReceived, snd := { s1.snd with iss := env.newISS } }
      let c2 := { c with tcb := s2 }
      (c2, [{ c2.synAckMsg .control with addrs := none }])
  else (c, [])

/-- `none` where the listener's entry is dereferenced although it is gone. The goroutine of an active
open stays at its send on `RTOTimeoutChan`, which has no receiver: `Send` is never started. -/
def handleStateSynReceived (c : Conn) (env : Env) (seg : Segment) : Option (Conn × List Msg) :=
  if seg.payload.length > 0 then some (c, [])
  else
    let out := if seg.hdr.hasSyn then [c.synAckMsg .control] else []
    if seg.hdr.hasAck then
      if c.tcb.snd.una < seg.hdr.ackNum ∧ seg.hdr.ackNum ≤ c.tcb.snd.nxt then
        let s1 := { c.tcb with
          state := .established
          snd := { c.tcb.snd with wnd := seg.hdr.windowSize.setWidth 32 } }
        if ¬ c.passive then some ({ c with tcb := s1 }, out)
        else if env.listener then some ({ c with tcb := s1, send := .top, timer := true }, out)
        else none
      else some (c, out)
    else some (c, out)

/-- `Receive` as the handlers call it. -/
def receive (c : Conn) (env : Env) (seg : Segment) : Option (Conn × List Msg) :=
  (c.tcb.receive c.key env.now seg).map fun r => ({ c with tcb := r.1 }, r.2)

def handleEstablished (c : Conn) (env : Env) (seg : Segment) : Option (Conn × List Msg) :=
  if seg.hdr.hasFin then
    let r := c.tcb.receiveFin c.key seg.hdr
    some ({ c with tcb := r.1 }, r.2)
  else c.receive env seg

/-- A FIN in FIN_WAIT_1: its sequence number is not looked at. -/
def finInFinWait1 (c : Conn) (hdr : TCPFields) : Conn × List Msg :=
  let s := c.tcb
  let s1 := { s with
    state := if hdr.ackNum = s.snd.nxt - 1 then .closing else .timeWait
    rcv := { s.rcv with nxt := s.rcv.nxt + 1 } }
  ({ c with
      tcb := s1
      waitForClosed := if s1.state = .timeWait then c.waitForClosed + 1 else c.waitForClosed },
    [s1.ackMsg c.key s1.rcv.nxt])

def handleFinWait1 (c : Conn) (env : Env) (seg : Segment) : Option (Conn × List Msg) :=
  if seg.hdr.hasAck then
    if seg.hdr.ackNum = c.tcb.snd.nxt then
      ({ c with tcb := { c.tcb with state := .finWait2 } } : Conn).receive env seg
    else if seg.hdr.hasFin then some (c.finInFinWait1 seg.hdr)
    else c.receive env seg
  else some (c, [])

def handleFinWait2 (c : Conn) (env : Env) (seg : Segment) : Option (Conn × List Msg) :=
  if seg.hdr.hasFin then
    if seg.hdr.seqNum ≠ c.tcb.rcv.nxt then some (c, [])
    else
      let s1 := { c.tcb with
        state := .timeWait
        rcv := { c.tcb.rcv with nxt := c.tcb.rcv.nxt + 1 }
        resetWaitChan := true }
      some ({ c with tcb := s1, waitForClosed := c.waitForClosed + 1 },
        [s1.ackMsg c.key s1.rcv.nxt])
  else c.receive env seg

def handleClosing (c : Conn) (hdr : TCPFields) : Conn × List Msg :=
  if hdr.hasAck ∧ hdr.ackNum = c.tcb.snd.nxt then
    ({ c with tcb := { c.tcb with state := .timeWait }, waitForClosed := c.waitForClosed + 1 }, [])
  else (c, [])

/-- The answer to a repeated FIN; the handler then sends on `ResetWaitChan`. -/
def handleTimeWait (c : Conn) (hdr : TCPFields) : Conn × List Msg :=
  if hdr.hasFin then (c, [c.tcb.ackMsg c.key c.tcb.rcv.nxt]) else (c, [])

def handleCloseWait (c : Conn) (hdr : TCPFields) : Conn × List Msg :=
  if hdr.hasFin then (c, [c.tcb.ackMsg c.key c.tcb.rcv.nxt]) else (c, [])

def handleLastAck (c : Conn) (hdr : TCPFields) : Conn × List Msg :=
  if hdr.hasAck ∧ hdr.ackNum = c.tcb.snd.nxt then
    let s1 := ({ c.tcb with state := .closed } : TCB).removeFromRetransmissionQueue hdr.ackNum
    ({ c with tcb := s1, closedNotice := true }, [])
  else (c, [])

/-- The switch of `ReceivePacket` on the state of the connection the segment belongs to. -/
def receivePacket (c : Conn) (env : Env) (seg : Segment) : Option (Conn × List Msg) :=
  match c.tcb.state with
  | .closed | .listen => some (c, [])
  | .synSent => some (c.handleStateSynSent env seg.hdr)
  | .synReceived => c.handleStateSynReceived env seg
  | .established => c.handleEstablished env seg
  | .finWait1 => c.handleFinWait1 env seg
  | .finWait2 => c.handleFinWait2 env seg
  | .closing => some (c.handleClosing seg.hdr)
  | .timeWait => some (c.handleTimeWait seg.hdr)
  | .closeWait => some (c.handleCloseWait seg.hdr)
  | .lastAck => some (c.handleLastAck seg.hdr)

/-- The part of `Close` after its wait: the FIN, queued for retransmission. -/
def sendFin (c : Conn) : Conn × List Msg :=
  let s := c.tcb
  let nextToSend := if s.state = .closeWait then s.rcv.nxt + 1 else s.rcv.nxt
  let hdr := createTCPHeader c.localAddr c.key.destAddr c.key.localPort c.key.destPort
    s.snd.nxt nextToSend (tcpFlagFin ||| tcpFlagAck) s.rcv.wnd []
  let s1 := { s with
    cancelled := true
    state := if s.state = .closeWait then .lastAck else .finWait1
    snd := { s.snd with nxt := s.snd.nxt + 1 }
    retransmissionQueue := s.retransmissionQueue ++ [⟨hdr, 0⟩] }
  ({ c with tcb := s1, closeSent := c.closeSent + 1 },
    [{ origin := .control, addrs := some (c.localAddr, c.key.destAddr), hdr, payload := [] }])

end Conn

/-- The steps of the application, the network, the goroutines and the timers. -/
inductive Event
  /-- `ReceivePacket` on a segment for this connection -/
  | segment (seg : Segment)
  /-- a round of `Write` on the data it has left -/
  | write (data : List U8)
  | read (amountToRead : U32) (readAll : Bool)
  | readWake
  | send
  | probe
  | close
  | closeWake
  | closeReturn
  /-- the retransmission timer -/
  | timeout
  /-- the timer of `Connect` -/
  | connectTimeout
  /-- the timer of `WaitForAckReceiver` -/
  | ackTimeout
  /-- `WaitForAckReceiver` takes the token that ends it -/
  | ackToken
  /-- the 2 MSL timer of `WaitForClosed` -/
  | expire
  | enableCC
  | initCC
  deriving DecidableEq

/-- What a step shows to the outside. -/
structure Output where
  msgs : List Msg := []
  read : Option ReadOutcome := none

namespace Conn

/-- The application holds the connection only after the handshake, which also starts `Send`. -/
def hasHandle (c : Conn) : Bool := c.send ≠ .notStarted

def applyRead (c : Conn) : TCB × ReadOutcome → Conn × Output
  | (s, .waiting call) => ({ c with tcb := s, reading := some call }, {})
  | (s, o) => ({ c with tcb := s, reading := none }, { read := some o })

/-- `Close` with the lock held: the FIN waits until everything written has been sent. -/
def closeStep (c : Conn) : Conn × Output :=
  if c.tcb.snd.nxt ≠ c.tcb.snd.lbw then ({ c with closeWaiting := c.closeWaiting + 1 }, {})
  else (c.sendFin.1, { msgs := c.sendFin.2 })

def applyTimeout (c : Conn) : TimeoutResult → Conn × Output
  | .stop => ({ c with timer := false }, {})
  | .idle => (c, {})
  | .giveUp s => ({ c with tcb := s, timer := false, inTable := false }, {})
  | .resent s m => ({ c with tcb := s }, { msgs := [m] })

/-- A handshake timer: give up after the last retransmission, else send `m` again. -/
def handshakeTimeout (c : Conn) (m : Msg) : Conn × Output :=
  if c.tcb.retransmitCounter = maxRetransmissions then
    ({ c with
        tcb := { c.tcb with state := .closed }
        inTable := false
        connecting := false
        waitForAck := false }, {})
  else
    ({ c with tcb := { c.tcb with retransmitCounter := c.tcb.retransmitCounter + 1 } },
      { msgs := [m] })

/-- One atomic step; `none` when the event is not possible, or the step never ends or panics. -/
def step (c : Conn) (env : Env) : Event → Option (Conn × Output)
  | .segment seg =>
    if c.inTable then (c.receivePacket env seg).map fun r => (r.1, { msgs := r.2 }) else none
  | .write data =>
    if c.hasHandle then
      match c.tcb.writeRound data with
      | .wrote s _ => some ({ c with tcb := s }, {})
      | .closing | .blocked => some (c, {})
      | .panicked => none
    else none
  | .read amountToRead readAll =>
    if c.hasHandle ∧ c.inTable ∧ c.reading.isNone then
      some (c.applyRead (c.tcb.read amountToRead readAll))
    else none
  | .readWake => c.reading.map fun call => c.applyRead (c.tcb.readRun call)
  | .send =>
    let r := c.tcb.sendStep c.key env.now c.send
    some ({ c with send := r.1, tcb := r.2.1 }, { msgs := r.2.2 })
  | .probe => if c.send = .zeroWait then some (c, { msgs := c.tcb.probe c.key }) else none
  | .close =>
    if c.hasHandle ∧ c.inTable then
      some (({ c with tcb := { c.tcb with pendingSendingFin := true } } : Conn).closeStep)
    else none
  | .closeWake =>
    if c.closeWaiting > 0 then
      some (({ c with closeWaiting := c.closeWaiting - 1 } : Conn).closeStep)
    else none
  | .closeReturn =>
    if c.closeSent > 0 ∧ c.closedNotice then
      some ({ c with inTable := false, closeSent := c.closeSent - 1, closedNotice := false }, {})
    else none
  | .timeout => if c.timer then some (c.applyTimeout (c.tcb.waitTimeout c.key env.now)) else none
  | .connectTimeout =>
    if c.connecting then some (c.handshakeTimeout (c.synMsg .resend)) else none
  | .ackTimeout =>
    if c.waitForAck then some (c.handshakeTimeout (c.synAckMsg .resend)) else none
  | .ackToken =>
    if c.waitForAck ∧ c.hasHandle then
      some ({ c with waitForAck := false, tcb := { c.tcb with retransmitCounter := 0 } }, {})
    else none
  | .expire =>
    if c.waitForClosed > 0 then
      some ({ c with
        tcb := { c.tcb with state := .closed }
        waitForClosed := c.waitForClosed - 1
        closedNotice := true }, {})
    else none
  | .enableCC =>
    if c.hasHandle ∧ c.inTable then some ({ c with tcb := c.tcb.enableCC }, {}) else none
  | .initCC =>
    if c.tcb.cControlEnabled then some ({ c with tcb := c.tcb.initCC }, {}) else none

end Conn

/-- An event with what it showed. -/
structure Label where
  ev : Event
  out : Output

def Step (c : Conn) (l : Label) (c' : Conn) : Prop := ∃ env, c.step env l.ev = some (c', l.out)

end TcpIp
