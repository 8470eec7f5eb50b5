import TcpIp.Tcp.SocketTable

/-! The node's commands that open sockets, and what a failing one leaves in the tables. -/
namespace TcpIp

/-- An entry of the index table: the handle of a connection, or that of a listener, which is a nil
pointer where `VListen` has failed. -/
inductive Socket
  | conn (handle : ℕ)
  | listener (handle : Option ℕ)
  deriving DecidableEq

structure Node where
  handler : Handler
  /-- `TCPHandler.Listeners` -/
  listeners : List SocketData := []
  socketIndexTable : List (Option Socket) := []

/-- The error exits of `Connect` and `Listen`. -/
inductive OpenError
  | alreadyExists
  | timedOut
  /-- taken from `IPErrorChannel` -/
  | ip (err : String)
  | invalidPort
  | listenerExists
  deriving DecidableEq

def OpenError.text : OpenError → String
  | .alreadyExists => "Socket for this address already exists"
  | .timedOut => "Connection timed out"
  | .ip err => err
  | .invalidPort => "Invalid port number"
  | .listenerExists => "Listener socket already exists"

/-- The branches of the select in `Connect`. -/
inductive SelectBranch
  | timeout
  | ipError (err : String)
  | received
  deriving DecidableEq

/-- A turn of `Connect`: the TCBs as other goroutines have left them, and the branch taken. -/
structure Turn where
  heap : List Entry
  branch : SelectBranch

namespace Handler

/-- The loop of `Connect`, as goroutine `k` on the entry at `p`; `none` while it goes on. -/
def connectLoop (env : Env) (k p : ℕ) (key : SocketData) :
    Handler → List Turn → Option (Handler × Except OpenError ℕ)
  | _, [] => none
  | h, turn :: turns =>
    let h := { h with heap := turn.heap }
    match turn.branch with
    | .timeout =>
      (h.resume env k (.connect p key)).bind fun r =>
        if r.2.answer = .ok then connectLoop env k p key r.1 turns
        else some (r.1, .error .timedOut)
    | .ipError err => some (h.become k [], .error (.ip err))
    | .received =>
      (h.received p (.connect p key)).map fun h' => (h'.become k [], .ok h.conns.length)

end Handler

namespace Node

/-- The key goes into `Listeners` before the table is looked at. -/
def listen (n : Node) (port : U16) : Node × Except OpenError ℕ :=
  if port ≤ 1024 then (n, .error .invalidPort)
  else
    let socketTableKey : SocketData := ⟨n.handler.localAddr, port, 0, 0⟩
    let n := { n with listeners := n.listeners ++ [socketTableKey] }
    if (n.handler.socketTable socketTableKey).isSome then (n, .error .listenerExists)
    else ({ n with handler := (n.handler.listen port).1 }, .ok n.handler.listeners.length)

/-- `Connect` with the turns of its loop; `none` while it has not returned. -/
def connect (n : Node) (env : Env) (destAddr : U32) (port : U16) (turns : List Turn) :
    Option (Node × Except OpenError ℕ) :=
  let h := n.handler
  let socketData : SocketData := ⟨h.localAddr, h.currentPort, destAddr, port⟩
  let h' := (h.connect env destAddr port).1
  if (h.socketTable socketData).isSome then
    some ({ n with handler := h' }, .error .alreadyExists)
  else
    (h'.connectLoop env h.goroutines.length h.heap.length socketData turns).map fun r =>
      ({ n with handler := r.1 }, r.2)

/-- `AddToTable`: the first free place, else a new one. -/
def addToTable (newSocket : Socket) : List (Option Socket) → List (Option Socket)
  | [] => [some newSocket]
  | none :: sockets => some newSocket :: sockets
  | some socket :: sockets => some socket :: addToTable newSocket sockets

/-- The listener is entered before its error is looked at; the goroutine of `acceptHelper`, which
a success starts, is the caller of `Accept`. -/
def acceptCommand (n : Node) (port : U16) : Node × Except OpenError Unit :=
  let r := n.listen port
  let n' := { r.1 with
    socketIndexTable := addToTable (.listener r.2.toOption) r.1.socketIndexTable }
  match r.2 with
  | .error err => (n', .error err)
  | .ok _ => (n', .ok ())

end Node

/-- The calls that open a socket. -/
inductive OpenCall
  | connect (destAddr : U32) (port : U16) (turns : List Turn)
  | listen (port : U16)
  | acceptCommand (port : U16)

/-- The error that a call returns. -/
def errorOf {α : Type} : Except OpenError α → Option OpenError
  | .error err => some err
  | .ok _ => none

theorem errorOf_eq_some {α : Type} {r : Except OpenError α} {err : OpenError} :
    errorOf r = some err ↔ r = .error err := by
  cases r <;> simp [errorOf]

/-- A call that has returned: the node it leaves, and its error, if any. -/
def Node.call (n : Node) (env : Env) : OpenCall → Option (Node × Option OpenError)
  | .connect destAddr port turns =>
    (n.connect env destAddr port turns).map fun r => (r.1, errorOf r.2)
  | .listen port => some ((n.listen port).1, errorOf (n.listen port).2)
  | .acceptCommand port => some ((n.acceptCommand port).1, errorOf (n.acceptCommand port).2)

structure Node.SameTables (n n' : Node) : Prop where
  socketTable : n'.handler.socketTable = n.handler.socketTable
  listeners : n'.listeners = n.listeners
  socketIndexTable : n'.socketIndexTable = n.socketIndexTable

/-- The turn ends the loop of a `Connect` on the entry at `p`: a timeout does so when all
retransmissions are used up. -/
def Turn.isLast (p : ℕ) (turn : Turn) : Bool :=
  match turn.branch with
  | .timeout =>
    ((turn.heap[p]?).bind Entry.tcb).any (·.retransmitCounter = maxRetransmissions)
  | .ipError _ | .received => true

/-- The branch by which a `Connect` on the entry at `p` ends, if it does. -/
def lastBranch (p : ℕ) (turns : List Turn) : Option SelectBranch :=
  (turns.find? (Turn.isLast p)).map Turn.branch

/-- A `Connect` with a free key that an error of the IP layer ends, a `Listen` on a good port that
has a listener, and an `AcceptCommand` that fails. -/
def Node.LeavesTrace (n : Node) : OpenCall → Prop
  | .connect destAddr port turns =>
    n.handler.socketTable ⟨n.handler.localAddr, n.handler.currentPort, destAddr, port⟩ = none ∧
      ∃ err, lastBranch n.handler.heap.length turns = some (.ipError err)
  | .listen port =>
    1024 < port ∧ (n.handler.socketTable ⟨n.handler.localAddr, port, 0, 0⟩).isSome = true
  | .acceptCommand port =>
    port ≤ 1024 ∨ (n.handler.socketTable ⟨n.handler.localAddr, port, 0, 0⟩).isSome = true

section Handler

variable {h h' : Handler} {env : Env} {k p : ℕ} {key : SocketData}

/-- The node's calls are those of the handler, errors included. -/
theorem listen_handler (n : Node) (port : U16) :
    (n.listen port).1.handler = (n.handler.listen port).1 ∧
      ∀ err, (n.listen port).2 = .error err →
        (n.handler.listen port).2.answer = .error err.text := by
  unfold Node.listen
  split
  · rename_i hport
    simp only [Handler.listen, if_pos hport, Except.error.injEq, forall_eq']
    exact ⟨rfl, rfl⟩
  · rename_i hport
    simp only
    split
    · rename_i hkey
      simp only [Handler.listen, if_neg hport, if_pos hkey, Except.error.injEq, forall_eq']
      exact ⟨rfl, rfl⟩
    · simp

/-- The timer of `Connect` keeps the table, or takes the entry out and gives up. -/
theorem resume_connect {r : Handler × HandlerOutput} {turn : Turn} (hheap : h.heap = turn.heap)
    (hbranch : turn.branch = .timeout) (hr : h.resume env k (.connect p key) = some r) :
    turn.isLast p = false ∧ r.2.answer = .ok ∧ r.1.socketTable = h.socketTable ∨
      turn.isLast p = true ∧ r.2.answer ≠ .ok ∧
        r.1.socketTable = Function.update h.socketTable key none := by
  obtain ⟨s, hs, rfl⟩ := Option.map_eq_some_iff.mp hr
  have hlast : turn.isLast p =
      decide ((h.conn key s).tcb.retransmitCounter = maxRetransmissions) := by
    rw [Handler.tcb?, hheap] at hs
    simp only [Turn.isLast, hbranch, hs, Option.any_some]
    rfl
  rw [hlast]
  unfold Conn.handshakeTimeout
  by_cases hc : (h.conn key s).tcb.retransmitCounter = maxRetransmissions
  · rw [if_pos hc]
    exact Or.inr ⟨decide_eq_true hc, by simp [Handler.handshakeTimeout], rfl⟩
  · rw [if_neg hc]
    exact Or.inl ⟨decide_eq_false hc, rfl, rfl⟩

/-- The loop ends in an error with the entry taken out, or with an error of the IP layer and the
entry still there. -/
theorem connectLoop_error {turns : List Turn} {err : OpenError}
    (hr : h.connectLoop env k p key turns = some (h', .error err)) :
    lastBranch p turns = some .timeout ∧
        h'.socketTable = Function.update h.socketTable key none ∨
      (∃ text, lastBranch p turns = some (.ipError text)) ∧ h'.socketTable = h.socketTable := by
  induction turns generalizing h with
  | nil => cases hr
  | cons turn turns ih =>
    unfold Handler.connectLoop at hr
    cases hbranch : turn.branch with
    | timeout =>
      simp only [hbranch] at hr
      obtain ⟨r, hresume, hr⟩ := Option.bind_eq_some_iff.mp hr
      rcases resume_connect rfl hbranch hresume with ⟨hlast, hok, htable⟩ | ⟨hlast, hno, htable⟩
      · rw [if_pos hok] at hr
        have hrest := ih hr
        rw [htable] at hrest
        simpa [lastBranch, hlast] using hrest
      · rw [if_neg hno] at hr
        obtain ⟨rfl, -⟩ := Prod.mk.inj (Option.some.inj hr)
        exact Or.inl ⟨by simp [lastBranch, hlast, hbranch], htable⟩
    | ipError text =>
      simp only [hbranch, Option.some.injEq, Prod.mk.injEq, Except.error.injEq] at hr
      obtain ⟨rfl, rfl⟩ := hr
      exact Or.inr ⟨⟨text, by simp [lastBranch, Turn.isLast, hbranch]⟩, rfl⟩
    | received =>
      simp only [hbranch] at hr
      obtain ⟨h₁, -, heq⟩ := Option.map_eq_some_iff.mp hr
      cases (Prod.mk.inj heq).2

end Handler

section Trace

variable {n n' : Node} {env : Env} {err : OpenError}

theorem listen_error {port : U16} (h : n.listen port = (n', .error err)) :
    port ≤ 1024 ∧ n' = n ∨
      1024 < port ∧ (n.handler.socketTable ⟨n.handler.localAddr, port, 0, 0⟩).isSome = true ∧
        ∃ key, n' = { n with listeners := n.listeners ++ [key] } := by
  unfold Node.listen at h
  split at h
  · rename_i hport
    obtain ⟨rfl, -⟩ := Prod.mk.inj h
    exact Or.inl ⟨hport, rfl⟩
  · rename_i hport
    simp only at h
    split at h
    · rename_i hkey
      obtain ⟨rfl, -⟩ := Prod.mk.inj h
      exact Or.inr ⟨BitVec.not_le.mp hport, hkey, _, rfl⟩
    · cases (Prod.mk.inj h).2

theorem addToTable_ne (socket : Socket) (sockets : List (Option Socket)) :
    Node.addToTable socket sockets ≠ sockets := by
  induction sockets with
  | nil => simp [Node.addToTable]
  | cons s sockets ih => cases s <;> simp [Node.addToTable, ih]

theorem acceptCommand_error {port : U16} (h : n.acceptCommand port = (n', .error err)) :
    n.LeavesTrace (.acceptCommand port) ∧ ¬ n.SameTables n' := by
  unfold Node.acceptCommand at h
  cases hlisten : n.listen port with
  | mk n₁ res =>
    simp only [hlisten] at h
    cases res with
    | ok _ => cases (Prod.mk.inj h).2
    | error err' =>
      obtain ⟨rfl, -⟩ := Prod.mk.inj h
      have hfailed := listen_error hlisten
      refine ⟨hfailed.imp And.left fun hkey => hkey.2.1, fun hsame => ?_⟩
      have hindex : n₁.socketIndexTable = n.socketIndexTable := by
        rcases hfailed with ⟨-, rfl⟩ | ⟨-, -, key, rfl⟩ <;> rfl
      have hadded := hsame.socketIndexTable
      rw [← hindex] at hadded
      exact addToTable_ne _ _ hadded

theorem connect_error {destAddr : U32} {port : U16} {turns : List Turn}
    (h : n.connect env destAddr port turns = some (n', .error err)) :
    n.SameTables n' ↔ ¬ n.LeavesTrace (.connect destAddr port turns) := by
  unfold Node.connect at h
  simp only at h
  split at h
  · rename_i hkey
    obtain ⟨rfl, -⟩ := Prod.mk.inj (Option.some.inj h)
    refine iff_of_true ⟨?_, rfl, rfl⟩ fun htrace => by simp [htrace.1] at hkey
    simp only [Handler.connect, if_pos hkey]
    rfl
  · rename_i hkey
    have hnone : n.handler.socketTable
        ⟨n.handler.localAddr, n.handler.currentPort, destAddr, port⟩ = none := by simpa using hkey
    obtain ⟨r, hloop, heq⟩ := Option.map_eq_some_iff.mp h
    obtain ⟨rfl, herr⟩ := Prod.mk.inj heq
    have hstored : (n.handler.connect env destAddr port).1.socketTable =
        Function.update n.handler.socketTable
          ⟨n.handler.localAddr, n.handler.currentPort, destAddr, port⟩
          (some n.handler.heap.length) := by
      simp only [Handler.connect, if_neg hkey]
      rfl
    have hloop' : Handler.connectLoop env n.handler.goroutines.length n.handler.heap.length
        ⟨n.handler.localAddr, n.handler.currentPort, destAddr, port⟩
        (n.handler.connect env destAddr port).1 turns = some (r.1, .error err) := by
      rw [hloop, ← herr]
    rcases connectLoop_error hloop' with ⟨hlast, htable⟩ | ⟨hlast, htable⟩
    · -- the entry is out again
      refine iff_of_true ⟨?_, rfl, rfl⟩ fun ⟨_, text, hip⟩ => by simp [hlast] at hip
      rw [htable, hstored, Function.update_idem, ← hnone, Function.update_eq_self]
    · refine iff_of_false (fun hsame => ?_) (not_not.mpr ⟨hnone, hlast⟩)
      have hentry := congrFun hsame.socketTable
        ⟨n.handler.localAddr, n.handler.currentPort, destAddr, port⟩
      rw [hnone] at hentry
      simp [htable, hstored] at hentry

/-- A call that fails leaves the three tables as they were exactly if it is no `Connect` with a free
key that an error of the IP layer ends, no `Listen` on a good port that has a listener, and no
`AcceptCommand` on a bad port or on one that has a listener. -/
theorem failed_open_iff (n : Node) (env : Env) (call : OpenCall) (n' : Node) (err : OpenError)
    (h : n.call env call = some (n', some err)) :
    n.SameTables n' ↔ ¬ n.LeavesTrace call := by
  cases call with
  | connect destAddr port turns =>
    obtain ⟨⟨n₁, res⟩, hconnect, heq⟩ := Option.map_eq_some_iff.mp h
    obtain ⟨rfl, herr⟩ := Prod.mk.inj heq
    obtain rfl := errorOf_eq_some.mp herr
    exact connect_error hconnect
  | listen port =>
    obtain ⟨hn, herr⟩ := Prod.mk.inj (Option.some.inj h)
    have hlisten : n.listen port = (n', .error err) := Prod.ext hn (errorOf_eq_some.mp herr)
    rcases listen_error hlisten with ⟨hport, rfl⟩ | ⟨hport, hkey, key, rfl⟩
    · exact iff_of_true ⟨rfl, rfl, rfl⟩ fun htrace => BitVec.not_lt.mpr hport htrace.1
    · refine iff_of_false (fun hsame => ?_) (not_not.mpr ⟨hport, hkey⟩)
      simpa using hsame.listeners
  | acceptCommand port =>
    obtain ⟨hn, herr⟩ := Prod.mk.inj (Option.some.inj h)
    have haccept : n.acceptCommand port = (n', .error err) :=
      Prod.ext hn (errorOf_eq_some.mp herr)
    obtain ⟨htrace, hchanged⟩ := acceptCommand_error haccept
    exact iff_of_false hchanged (not_not.mpr htrace)

/-- The last timeout of a `Connect`. -/
theorem failed_open_iff_timeout :
    let n : Node := { handler := Handler.init 1 1024 }
    let tcb := { (Conn.connect ⟨1, 1024, 2, 5000⟩ 99).tcb with retransmitCounter := 5 }
    let call := OpenCall.connect 2 5000 [⟨[{ tcb := some tcb }], .timeout⟩]
    ∃ n', n.call ⟨0, 99, true⟩ call = some (n', some .timedOut) ∧
      (n.SameTables n' ↔ ¬ n.LeavesTrace call) :=
  ⟨_, rfl, failed_open_iff _ _ _ _ _ rfl⟩

/-- `No route to host` leaves the entry in SYN_SENT behind. -/
theorem failed_open_leaves_entry :
    ¬ ∀ (n : Node) (env : Env) (call : OpenCall) (n' : Node) (err : OpenError),
      n.call env call = some (n', some err) → n.SameTables n' := by
  intro h
  have hsame := h { handler := Handler.init 1 1024 } ⟨0, 99, true⟩
    (.connect 2 5000 [⟨[], .ipError "No route to host"⟩]) _ _ rfl
  have hentry := congrFun hsame.socketTable ⟨1, 1024, 2, 5000⟩
  exact absurd hentry (by decide)

end Trace

end TcpIp
