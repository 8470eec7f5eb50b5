import TcpIp.Tcp.SendRing

/-! The TCP handler: its socket table, the handles of the application, and the goroutines that
work on TCBs. A goroutine runs in one step to its next look-up in the table, its next wait or its
end. The locks only put such steps in an order and are left out. -/
namespace TcpIp

/-- A handle of a connection. -/
structure VTCPConn where
  socketTableKey : SocketData
  readCancelled : Bool := false
  writeCancelled : Bool := false

/-- A handle of a listener. -/
structure VTCPListener where
  socketTableKey : SocketData
  cancelled : Bool := false

/-- What an entry of the table points to. -/
structure Entry where
  /-- `none` for a listener, which has neither `SND` nor `RCV` and none of the flags -/
  tcb : Option TCB
  listenKey : SocketData := ⟨0, 0, 0, 0⟩
  pendingConnections : List SocketData := []
  /-- `RTOTimeoutChan` has a buffer -/
  buffered : Bool := false
  /-- `HandleStateSynReceived` or `Close` has sent on `RTOTimeoutChan` -/
  token : Bool := false

def Entry.state (e : Entry) : ConnectionState := (e.tcb.map TCB.state).getD .listen

/-- The next use that `CloseListener` makes of the table. -/
inductive ListenerClosing
  | signal | unlock | delete
  deriving DecidableEq

/-- A goroutine or a call of the application between two steps; `p` points to its TCB. -/
inductive Goroutine
  /-- `Connect` in its select -/
  | connect (p : ℕ) (key : SocketData)
  /-- `Accept` of the listener handle `l` on `PendingConnCond` -/
  | accept (p l : ℕ)
  /-- `Read` on `ReadBlockedCond` -/
  | read (p : ℕ) (call : ReadCall)
  /-- `Write` on the handle `i` -/
  | write (p i : ℕ) (pc : WritePc)
  /-- the second half of `SetCCForSocket` -/
  | initCC (p : ℕ)
  /-- `Close` until everything written has been sent -/
  | close (p : ℕ) (key : SocketData)
  /-- `Close` at `ReceiveChan` -/
  | closeSent (p : ℕ) (key : SocketData)
  | closeListener (key : SocketData) (next : ListenerClosing)
  /-- `ReceivePacket` with the entry that it found under `key` -/
  | found (p : ℕ) (key socketData : SocketData) (seg : Segment)
  /-- the handler for the state that the switch has read -/
  | handle (st : ConnectionState) (p : ℕ) (key socketData : SocketData) (seg : Segment)
  /-- `HandleStateSynSent` at `ReceiveChan`, with what it sends afterwards -/
  | connected (p : ℕ) (key : SocketData) (msgs : List Msg)
  /-- `HandleStateSynReceived` at `RTOTimeoutChan` -/
  | acked (p : ℕ) (key : SocketData)
  /-- `HandleLastAck` or `WaitForClosed` at `ReceiveChan` -/
  | closed (p : ℕ)
  | send (p : ℕ) (key : SocketData) (pc : SendPc)
  | waitTimeout (p : ℕ) (key : SocketData)
  | waitForAckReceiver (p : ℕ) (key : SocketData)
  | waitForClosed (p : ℕ)

/-- A receiver of `RTOTimeoutChan` besides `WaitForAckReceiver`. -/
def Goroutine.takesToken (p : ℕ) : Goroutine → Bool
  | .waitTimeout q _ => p = q
  | _ => false

/-- A sender on `ReceiveChan`: its TCB, and what it starts and sends once its value is taken. -/
def Goroutine.afterSignal : Goroutine → Option (ℕ × List Goroutine × List Msg)
  | .connected p key msgs => some (p, [.send p key .top, .waitTimeout p key], msgs)
  | .closed p => some (p, [], [])
  | _ => none

structure Handler where
  localAddr : U32
  currentPort : U16
  socketTable : SocketData → Option ℕ := fun _ => none
  heap : List Entry := []
  conns : List VTCPConn := []
  listeners : List VTCPListener := []
  goroutines : List Goroutine := []
  /-- a panic has ended the process -/
  crashed : Bool := false

inductive HandlerEvent
  | listen (port : U16)
  | connect (destAddr : U32) (port : U16)
  | accept (l : ℕ)
  | read (i : ℕ) (amountToRead : U32) (readAll : Bool)
  | write (i : ℕ) (data : List U8)
  | setCCForSocket (i : ℕ)
  | vShutdown (i : ℕ) (sdType : ℤ)
  | vClose (i : ℕ)
  | closeListener (l : ℕ)
  /-- `ReceivePacket` on a packet from `destAddr` to the node's own `localAddr` -/
  | receivePacket (localAddr destAddr : U32) (seg : Segment)
  /-- the next step of goroutine `k`; for a goroutine in a select, the branch of its timer -/
  | run (k : ℕ)
  /-- goroutine `i` hands a value to goroutine `j` over `ReceiveChan` -/
  | signal (i j : ℕ)
  /-- `WaitForAckReceiver` takes a token from `RTOTimeoutChan` -/
  | token (k : ℕ)
  /-- `Connect` takes an error from `IPErrorChannel` -/
  | ipError (k : ℕ) (err : String)
  /-- a tick of the zero-window probe of a `Send` -/
  | probe (k : ℕ)

inductive Answer
  | ok
  | read (o : ReadOutcome)
  | error (text : String)
  /-- the segment is dropped -/
  | dropped
  /-- an entry is dereferenced that the table does not have -/
  | missing
  /-- any other panic -/
  | panicked
  /-- the goroutine never ends -/
  | stuck
  deriving DecidableEq

structure HandlerOutput where
  answer : Answer := .ok
  msgs : List Msg := []

/-- The switch of `ReceivePacket` on a state that was read before. -/
def Conn.handle (c : Conn) (env : Env) (seg : Segment) :
    ConnectionState → Option (Conn × List Msg)
  | .closed | .listen => some (c, [])
  | .synSent => some (c.handleStateSynSent env seg.hdr)
  | .synReceived => c.handleStateSynReceived env seg
  | .established => c.handleEstablished env seg
  | .finWait1 => c.handleFinWait1 env seg
  | .finWait2 => c.handleFinWait2 env seg
  | .closing => some (c.handleClosing seg.hdr)
  | .timeWait => some (c.handleTimeWait seg.hdr)
  | .closeWait => some (c.handleCloseWait seg.hdr)
  | .lastAck => some (c.handleLastAck seg.hdr)

theorem Conn.handle_state (c : Conn) (env : Env) (seg : Segment) :
    c.handle env seg c.tcb.state = c.receivePacket env seg := by
  unfold Conn.handle Conn.receivePacket
  cases c.tcb.state <;> rfl

namespace Handler

def init (localAddr : U32) (currentPort : U16) : Handler where
  localAddr
  currentPort

def store (h : Handler) (key : SocketData) (e : Entry) : Handler :=
  { h with
    heap := h.heap ++ [e]
    socketTable := Function.update h.socketTable key (some h.heap.length) }

def delete (h : Handler) (key : SocketData) : Handler :=
  { h with socketTable := Function.update h.socketTable key none }

def modify (h : Handler) (p : ℕ) (f : Entry → Entry) : Handler :=
  { h with heap := h.heap.modify p f }

def setTCB (h : Handler) (p : ℕ) (s : TCB) : Handler := h.modify p fun e => { e with tcb := some s }

def spawn (h : Handler) (gs : List Goroutine) : Handler :=
  { h with goroutines := h.goroutines ++ gs }

/-- Goroutine `k` goes on as the first of `gs` and starts the others. -/
def become (h : Handler) (k : ℕ) (gs : List Goroutine) : Handler :=
  { h with goroutines := h.goroutines.eraseIdx k ++ gs }

def addConn (h : Handler) (key : SocketData) : Handler :=
  { h with conns := h.conns ++ [⟨key, false, false⟩] }

/-- The process ends. -/
def crash (h : Handler) (answer : Answer) : Handler × HandlerOutput :=
  ({ h with crashed := true }, { answer })

def fail (h : Handler) (text : String) : Handler × HandlerOutput := (h, { answer := .error text })

def tcb? (h : Handler) (p : ℕ) : Option TCB := (h.heap[p]?).bind Entry.tcb

/-- A TCB as the segment handlers and timers see it. No goroutine is counted in it, so that those
which a handler starts show in the result; the look-up of the listener is a step of its own. -/
def conn (h : Handler) (key : SocketData) (s : TCB) : Conn where
  localAddr := h.localAddr
  key
  tcb := s
  passive := true

def listen (h : Handler) (port : U16) : Handler × HandlerOutput :=
  let socketTableKey : SocketData := ⟨h.localAddr, port, 0, 0⟩
  if port ≤ 1024 then h.fail "Invalid port number"
  else if (h.socketTable socketTableKey).isSome then h.fail "Listener socket already exists"
  else
    ({ h.store socketTableKey { tcb := none } with
        listeners := h.listeners ++ [⟨socketTableKey, false⟩] }, {})

def connect (h : Handler) (env : Env) (destAddr : U32) (port : U16) : Handler × HandlerOutput :=
  let socketData : SocketData := ⟨h.localAddr, h.currentPort, destAddr, port⟩
  let h1 := { h with currentPort := h.currentPort + 1 }
  if (h.socketTable socketData).isSome then h1.fail "Socket for this address already exists"
  else
    let c := Conn.connect socketData env.newISS
    ((h1.store socketData { tcb := some c.tcb }).spawn [.connect h.heap.length socketData],
      { msgs := [c.synMsg .control] })

def accept (h : Handler) (l : ℕ) (vl : VTCPListener) : Option (Handler × HandlerOutput) :=
  match h.socketTable vl.socketTableKey with
  | none => some (h.fail "Listener socket does not exist")
  | some p =>
    (h.heap[p]?).map fun e =>
      match e.pendingConnections with
      | connEntry :: rest =>
        ((h.modify p fun e => { e with pendingConnections := rest }).addConn connEntry, {})
      | [] =>
        -- the condition variable of a connection's TCB has no lock
        if e.tcb.isSome then h.crash .panicked else (h.spawn [.accept p l], {})

/-- `Read` has returned or waits. -/
def applyRead (h : Handler) (p : ℕ) : TCB × ReadOutcome → Handler × HandlerOutput
  | (s, .waiting call) => ((h.setTCB p s).spawn [.read p call], {})
  | (s, o) => (h.setTCB p s, { answer := .read o })

def read (h : Handler) (vc : VTCPConn) (amountToRead : U32) (readAll : Bool) :
    Handler × HandlerOutput :=
  if vc.readCancelled then h.fail "Read operation is not permitted"
  else
    match h.socketTable vc.socketTableKey with
    | none => h.fail "Connection doesn't exist"
    | some p =>
      match h.tcb? p with
      | none => h.crash .panicked
      | some s => h.applyRead p (s.read amountToRead readAll)

def write (h : Handler) (i : ℕ) (vc : VTCPConn) (data : List U8) : Handler × HandlerOutput :=
  if vc.writeCancelled then h.fail "Write operation not permitted"
  else
    match h.socketTable vc.socketTableKey with
    | none => h.fail "Connection doesn't exist"
    | some p =>
      match h.tcb? p with
      | none => h.crash .panicked
      | some s =>
        if s.timeoutCancelled then h.fail "Write on timed out connection"
        else (h.spawn [.write p i (.looping { data })], {})

def setCCForSocket (h : Handler) (vc : VTCPConn) : Handler × HandlerOutput :=
  match h.socketTable vc.socketTableKey with
  | none => h.fail "Socket doesn't exist"
  | some p =>
    match h.tcb? p with
    | none => (h, {})
    | some s => ((h.setTCB p s.enableCC).spawn [.initCC p], {})

/-- `Close` up to its wait for the data, or with its FIN up to `ReceiveChan`. -/
def applyClose (h : Handler) (p : ℕ) (r : Conn × Output) : Handler × HandlerOutput :=
  if r.1.closeWaiting > 0 then ((h.setTCB p r.1.tcb).spawn [.close p r.1.key], {})
  else
    (((h.setTCB p r.1.tcb).modify p fun e => { e with token := true }).spawn
      [.closeSent p r.1.key], { msgs := r.2.msgs })

/-- The look-up is not checked. -/
def close (h : Handler) (key : SocketData) : Handler × HandlerOutput :=
  match h.socketTable key with
  | none => h.crash .missing
  | some p =>
    match h.tcb? p with
    | none => h.crash .panicked
    | some s => h.applyClose p (h.conn key { s with pendingSendingFin := true }).closeStep

def cancel (h : Handler) (i : ℕ) (vc : VTCPConn) (noRead noWrite : Bool) : Handler :=
  { h with
    conns := h.conns.set i
      { vc with
        readCancelled := vc.readCancelled || noRead
        writeCancelled := vc.writeCancelled || noWrite } }

def vClose (h : Handler) (i : ℕ) (vc : VTCPConn) : Handler × HandlerOutput :=
  (h.cancel i vc true true).close vc.socketTableKey

def vShutdown (h : Handler) (i : ℕ) (vc : VTCPConn) (sdType : ℤ) : Handler × HandlerOutput :=
  if sdType = 0 then (h.cancel i vc true false, {})
  else if sdType = 1 then (h.cancel i vc false true).close vc.socketTableKey
  else if sdType = 2 then h.vClose i vc
  else h.fail "Invalid shutdown type"

/-- One of the unchecked look-ups of `CloseListener`, which goes on in `h'`. -/
def lookUpListener (h : Handler) (key : SocketData) (h' : Handler) : Handler × HandlerOutput :=
  match h.socketTable key with
  | none => h.crash .missing
  | some _ => (h', {})

def closeListener (h : Handler) (l : ℕ) (vl : VTCPListener) : Handler × HandlerOutput :=
  let h1 := { h with listeners := h.listeners.set l { vl with cancelled := true } }
  h1.lookUpListener vl.socketTableKey (h1.spawn [.closeListener vl.socketTableKey .signal])

def receivePacket (h : Handler) (localAddr destAddr : U32) (seg : Segment) :
    Handler × HandlerOutput :=
  if ¬ seg.hdr.checksumValid localAddr destAddr seg.payload then (h, { answer := .dropped })
  else
    let socketData : SocketData := ⟨localAddr, seg.hdr.dstPort, destAddr, seg.hdr.srcPort⟩
    let listenerKey : SocketData := ⟨localAddr, seg.hdr.dstPort, 0, 0⟩
    let key :=
      if (h.socketTable socketData).isNone ∧ (h.socketTable listenerKey).isSome then listenerKey
      else socketData
    match h.socketTable key with
    | none => (h, { answer := .dropped })
    | some p => (h.spawn [.found p key socketData seg], {})

def handleStateListen (h : Handler) (env : Env) (k : ℕ) (key socketData : SocketData)
    (seg : Segment) : Handler × HandlerOutput :=
  if seg.hdr.hasAck then (h.become k [], { answer := .dropped })
  else if seg.hdr.hasSyn then
    let c := Conn.handleStateListen h.localAddr socketData env.newISS seg.hdr
    ((h.store socketData { tcb := some c.tcb, listenKey := key, buffered := true }).become k
        [.waitForAckReceiver h.heap.length socketData],
      { msgs := [c.synAckMsg .control] })
  else (h.become k [], { answer := .dropped })

/-- A segment handler of a connection has run up to its first send on a channel. -/
def handled (h : Handler) (k p : ℕ) (key : SocketData) (s : TCB) (st : ConnectionState)
    (c : Conn) (msgs : List Msg) : Handler × HandlerOutput :=
  if c.send = .top ∧ st = .synSent then
    -- `Connect` resets the count when it takes the signal
    ((h.setTCB p { c.tcb with retransmitCounter := s.retransmitCounter }).become k
      [.connected p key msgs], {})
  else
    ((h.setTCB p c.tcb).become k
        ((if c.send = .top then [.acked p key] else []) ++
          (if c.closedNotice then [.closed p] else []) ++
          List.replicate c.waitForClosed (.waitForClosed p)),
      { msgs })

def handle (h : Handler) (env : Env) (k : ℕ) (st : ConnectionState) (p : ℕ)
    (key socketData : SocketData) (seg : Segment) : Option (Handler × HandlerOutput) :=
  if st = .listen then some (h.handleStateListen env k key socketData seg)
  else
    (h.tcb? p).map fun s =>
      match (h.conn key s).handle { env with listener := true } seg st with
      | none => (h.become k [], { answer := .stuck })
      | some (c, msgs) => h.handled k p key s st c msgs

/-- `HandleStateSynReceived` from `RTOTimeoutChan` on; the look-up is not checked. -/
def signalListener (h : Handler) (k p : ℕ) (key : SocketData) (e : Entry) :
    Option (Handler × HandlerOutput) :=
  if e.buffered ∨ h.goroutines.any (·.takesToken p) then
    some <| match h.socketTable e.listenKey with
      | none => h.crash .missing
      | some q =>
        (((h.modify p fun e => { e with token := true }).modify q fun e =>
            { e with pendingConnections := e.pendingConnections ++ [key] }).become k
          [.send p key .top, .waitTimeout p key], {})
  else none

/-- The timer of `Connect` or of `WaitForAckReceiver`. -/
def handshakeTimeout (h : Handler) (k p : ℕ) (key : SocketData) (r : Conn × Output)
    (answer : Answer) : Handler × HandlerOutput :=
  if r.1.inTable then (h.setTCB p r.1.tcb, { msgs := r.2.msgs })
  else (((h.setTCB p r.1.tcb).delete key).become k [], { answer })

def applyTimeout (h : Handler) (k p : ℕ) (key : SocketData) :
    TimeoutResult → Handler × HandlerOutput
  | .stop => (h.become k [], {})
  | .idle => (h, {})
  | .giveUp s => (((h.setTCB p s).delete key).become k [], {})
  | .resent s m => (h.setTCB p s, { msgs := [m] })

/-- A step of `Write` on the handle `i`; `text` is its error, if it fails. -/
def applyWrite (h : Handler) (k p i : ℕ) (text : String) :
    Option (Writer × Option WriteOutcome) → Handler × HandlerOutput
  | none => h.crash .panicked
  | some (w, none) => ((h.setTCB p w.conn.tcb).become k [.write p i w.pc], {})
  | some (_, some .failed) => (h.become k []).fail text
  | some (_, some (.returned _)) => (h.become k [], {})

def writeStep (h : Handler) (k p i : ℕ) (w : Writer) : Option (Handler × HandlerOutput) :=
  match w.pc with
  | .outside => none
  | .looping call => some (h.applyWrite k p i "Connection is closing" (w.round call))
  | .blocked call =>
    let text :=
      if w.writeCancelled then "Write on a closed socket" else "Write on timed out connection"
    some (h.applyWrite k p i text (w.woken call))

def acceptStep (h : Handler) (k p : ℕ) (vl : VTCPListener) (e : Entry) : Handler × HandlerOutput :=
  if vl.cancelled then (h.become k []).fail "Listener has been cancelled due to close"
  else
    match e.pendingConnections with
    | [] => (h, {})
    | connEntry :: rest =>
      (((h.modify p fun e => { e with pendingConnections := rest }).addConn connEntry).become k [],
        {})

/-- The next step of a goroutine; `none` while it waits for another one. -/
def resume (h : Handler) (env : Env) (k : ℕ) : Goroutine → Option (Handler × HandlerOutput)
  | .connect p key => (h.tcb? p).map fun s =>
    h.handshakeTimeout k p key
      ((h.conn key s).handshakeTimeout ((h.conn key s).synMsg .resend))
      (.error "Connection timed out")
  | .accept p l => (h.heap[p]?).bind fun e => (h.listeners[l]?).map fun vl => h.acceptStep k p vl e
  | .read p call => (h.tcb? p).map fun s => (h.become k []).applyRead p (s.readRun call)
  | .write p i pc => (h.tcb? p).bind fun s => (h.conns[i]?).bind fun vc =>
    h.writeStep k p i ⟨h.conn vc.socketTableKey s, vc.writeCancelled, pc⟩
  | .initCC p => (h.tcb? p).map fun s => ((h.setTCB p s.initCC).become k [], {})
  | .close p key => (h.tcb? p).map fun s => (h.become k []).applyClose p (h.conn key s).closeStep
  | .closeListener key .signal =>
    some (h.lookUpListener key (h.become k [.closeListener key .unlock]))
  | .closeListener key .unlock =>
    some (h.lookUpListener key (h.become k [.closeListener key .delete]))
  | .closeListener key .delete => some ((h.delete key).become k [], {})
  | .found p key socketData seg =>
    (h.heap[p]?).map fun e => (h.become k [.handle e.state p key socketData seg], {})
  | .handle st p key socketData seg => h.handle env k st p key socketData seg
  | .acked p key => (h.heap[p]?).bind fun e => h.signalListener k p key e
  | .send p key pc => (h.tcb? p).map fun s =>
    let r := s.sendStep key env.now pc
    ((h.setTCB p r.2.1).become k [.send p key r.1], { msgs := r.2.2 })
  | .waitTimeout p key =>
    (h.tcb? p).map fun s => h.applyTimeout k p key (s.waitTimeout key env.now)
  | .waitForAckReceiver p key => (h.tcb? p).map fun s =>
    h.handshakeTimeout k p key
      ((h.conn key s).handshakeTimeout ((h.conn key s).synAckMsg .resend)) .ok
  | .waitForClosed p => (h.tcb? p).map fun s =>
    ((h.setTCB p { s with state := .closed }).become k [.closed p], {})
  | .closeSent .. | .connected .. | .closed _ => none

/-- A receiver on the `ReceiveChan` of `p` has got a value and returns. -/
def received (h : Handler) (p : ℕ) : Goroutine → Option Handler
  | .connect q key =>
    if p = q then
      (h.tcb? p).map fun s => (h.setTCB p { s with retransmitCounter := 0 }).addConn key
    else none
  | .closeSent q key => if p = q then some (h.delete key) else none
  | _ => none

def signal (h : Handler) (i j : ℕ) (sender receiver : Goroutine) :
    Option (Handler × HandlerOutput) :=
  sender.afterSignal.bind fun r => (h.received r.1 receiver).map fun h' =>
    -- the goroutine with the larger index goes first, so that the other one keeps its place
    (((h'.become (max i j) []).become (min i j) []).spawn r.2.1, { msgs := r.2.2 })

def step (h : Handler) (env : Env) (ev : HandlerEvent) : Option (Handler × HandlerOutput) :=
  if h.crashed then none
  else
    match ev with
    | .listen port => some (h.listen port)
    | .connect destAddr port => some (h.connect env destAddr port)
    | .accept l => (h.listeners[l]?).bind fun vl => h.accept l vl
    | .read i amountToRead readAll =>
      (h.conns[i]?).map fun vc => h.read vc amountToRead readAll
    | .write i data => (h.conns[i]?).map fun vc => h.write i vc data
    | .setCCForSocket i => (h.conns[i]?).map fun vc => h.setCCForSocket vc
    | .vShutdown i sdType => (h.conns[i]?).map fun vc => h.vShutdown i vc sdType
    | .vClose i => (h.conns[i]?).map fun vc => h.vClose i vc
    | .closeListener l => (h.listeners[l]?).map fun vl => h.closeListener l vl
    | .receivePacket localAddr destAddr seg => some (h.receivePacket localAddr destAddr seg)
    | .run k => (h.goroutines[k]?).bind fun g => h.resume env k g
    | .signal i j => (h.goroutines[i]?).bind fun g => (h.goroutines[j]?).bind fun g' =>
      h.signal i j g g'
    | .token k =>
      match h.goroutines[k]? with
      | some (.waitForAckReceiver p _) => (h.heap[p]?).bind fun e => (h.tcb? p).bind fun s =>
        if e.token then
          some ((h.setTCB p { s with retransmitCounter := 0 }).become k [], {})
        else none
      | _ => none
    | .ipError k err =>
      match h.goroutines[k]? with
      | some (.connect ..) => some ((h.become k []).fail err)
      | _ => none
    | .probe k =>
      match h.goroutines[k]? with
      | some (.send p key .zeroWait) =>
        (h.tcb? p).map fun s => (h, { msgs := s.probe key })
      | _ => none

end Handler

/-- An event with what it showed. -/
structure HandlerLabel where
  ev : HandlerEvent
  out : HandlerOutput

def HandlerStep (h : Handler) (l : HandlerLabel) (h' : Handler) : Prop :=
  ∃ env, h.step env l.ev = some (h', l.out)

end TcpIp
