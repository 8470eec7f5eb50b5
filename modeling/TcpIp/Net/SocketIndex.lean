import TcpIp.Lib.Run
import TcpIp.Net.Node

/-! The places of the socket index table under the node's commands and their goroutines. The
table has no lock: an operation is cut at each look at a place, each change of one and each wait.

A `range` loop goes over the slice as it was when the loop began. That is the table itself as long
as no `append` has moved it to a larger array; the loops here read the table, so runs in which it is
moved under a loop are left out. -/
namespace TcpIp

open Runs

/-- What the caller of `AddToTable` does with the index. -/
inductive AfterAdd
  /-- `AcceptCommand`, `acceptHelper` and `ConnectCommand` at most print it -/
  | nothing
  | sendFile
  /-- `ReadFileTCPCommand` with its listener -/
  | accept
  /-- and with the connection it has accepted -/
  | read (listener : Socket) (listenerIndex : ℕ)
  deriving DecidableEq

/-- Where an operation on the table stands. -/
inductive SlotTask
  /-- the loop of `AddToTable`, about to look at place `i` of `n` -/
  | adding (newSocket : Socket) (i n : ℕ) (next : AfterAdd)
  /-- `AddToTable` with place `i` found free -/
  | putting (newSocket : Socket) (i : ℕ) (next : AfterAdd)
  /-- the first loop of `ListSocketCommand`, about to look at place `i` of `n` -/
  | listing (i n : ℕ) (toDelete : List (Socket × ℕ))
  /-- its second loop -/
  | cleaning (toDelete : List (Socket × ℕ))
  /-- `CloseTCPCommand` on a listener, about to clear its place -/
  | droppingListener (listener : Socket) (socketID : ℕ)
  /-- and about to call `VClose` -/
  | closingListener (listener : Socket)
  /-- the goroutine of `CloseTCPCommand` in `VClose` or `VShutdown` -/
  | closing (conn : Socket) (socketID : ℕ)
  /-- `HandleDeletion`, notified -/
  | deleting (conn : Socket) (socketID : ℕ)
  /-- `SendFileTCPCommand` up to its `VClose` -/
  | sendingFile (newConn : Socket) (socketID : ℕ)
  /-- and with `VClose` returned -/
  | sentFile (newConn : Socket) (socketID : ℕ)
  /-- `ReadFileTCPCommand` in `VAccept` -/
  | accepting (listener : Socket) (listenerIndex : ℕ)
  /-- `ReadFileTCPCommand` in its read loop -/
  | readingFile (listener : Socket) (listenerIndex : ℕ) (newConn : Socket) (connIndex : ℕ)
  /-- the connection is closed, the listener is not -/
  | closedConn (listener : Socket) (listenerIndex : ℕ) (newConn : Socket) (connIndex : ℕ)
  /-- both are closed -/
  | closedBoth (listener : Socket) (listenerIndex : ℕ) (newConn : Socket) (connIndex : ℕ)
  /-- the listener's place is cleared -/
  | clearedListener (newConn : Socket) (connIndex : ℕ)
  | returned
  deriving DecidableEq

/-- The goroutine once `AddToTable` has returned. -/
def AfterAdd.resume (newSocket : Socket) (i : ℕ) : AfterAdd → SlotTask
  | .nothing => .returned
  | .sendFile => .sendingFile newSocket i
  | .accept => .accepting newSocket i
  | .read listener listenerIndex => .readingFile listener listenerIndex newSocket i

structure Slots where
  socketIndexTable : List (Option Socket) := []
  /-- the keys with an entry in `SocketTable` -/
  socketTable : SocketData → Bool := fun _ => false
  tasks : List SlotTask := []

namespace Slots

/-- What place `i` holds. -/
def holds (m : Slots) (i : ℕ) : Option Socket := m.socketIndexTable[i]?.join

def setSlot (m : Slots) (i : ℕ) (socket : Option Socket) : Slots :=
  { m with socketIndexTable := m.socketIndexTable.set i socket }

/-- An operation under way that starts. -/
def spawn (m : Slots) (t : SlotTask) : Slots := { m with tasks := m.tasks ++ [t] }

/-- `CloseTCPCommand` up to its first change of the table or its goroutine. -/
def closeTCPCommand (m : Slots) (socketID : ℤ) : Except String SlotTask :=
  if socketID ≥ m.socketIndexTable.length ∨ socketID < 0 then .error "Invalid socket id\n"
  else
    match m.holds socketID.toNat with
    | none => .error "Socket does not exist\n"
    | some (.listener h) => .ok (.droppingListener (.listener h) socketID.toNat)
    | some (.conn h) => .ok (.closing (.conn h) socketID.toNat)

section Key

-- `GetSocketTableKey`, which panics on a nil pointer
variable (key : Socket → Option SocketData)

/-- `Close` and `CloseListener` end by taking the socket's entry out of `SocketTable`. -/
def unlist (m : Slots) (socket : Socket) : Option Slots :=
  (key socket).map fun socketData =>
    { m with socketTable := Function.update m.socketTable socketData false }

/-- `CloseListener`, which looks its entry up and panics where there is none. -/
def closeListener (m : Slots) (listener : Socket) : Option Slots :=
  if (key listener).any m.socketTable then m.unlist key listener else none

/-- The next step of an operation; `none` where it panics or is waiting. -/
def run (m : Slots) : SlotTask → Option (Slots × SlotTask)
  | .adding newSocket i n next =>
    if i < n then
      match m.socketIndexTable[i]? with
      | some none => some (m, .putting newSocket i next)
      | some (some _) => some (m, .adding newSocket (i + 1) n next)
      | none => none
    else
      some ({ m with socketIndexTable := m.socketIndexTable ++ [some newSocket] },
        next.resume newSocket m.socketIndexTable.length)
  | .putting newSocket i next => some (m.setSlot i (some newSocket), next.resume newSocket i)
  | .listing i n toDelete =>
    if i < n then
      match m.holds i with
      | none => some (m, .listing (i + 1) n toDelete)
      | some socket =>
        (key socket).map fun socketData =>
          (m, .listing (i + 1) n
            (if m.socketTable socketData then toDelete else toDelete ++ [(socket, i)]))
    else some (m, .cleaning toDelete)
  | .cleaning [] => some (m, .returned)
  | .cleaning ((_, index) :: toDelete) => some (m.setSlot index none, .cleaning toDelete)
  | .droppingListener listener socketID =>
    some (m.setSlot socketID none, .closingListener listener)
  | .closingListener listener => (m.closeListener key listener).map fun m => (m, .returned)
  | .closing conn socketID => (m.unlist key conn).map fun m => (m, .deleting conn socketID)
  | .deleting _ socketID => some (m.setSlot socketID none, .returned)
  | .sendingFile newConn socketID =>
    (m.unlist key newConn).map fun m => (m, .sentFile newConn socketID)
  | .sentFile _ socketID => some (m.setSlot socketID none, .returned)
  | .accepting .. => none
  | .readingFile listener listenerIndex newConn connIndex =>
    (m.unlist key newConn).map fun m => (m, .closedConn listener listenerIndex newConn connIndex)
  | .closedConn listener listenerIndex newConn connIndex =>
    (m.closeListener key listener).map fun m =>
      (m, .closedBoth listener listenerIndex newConn connIndex)
  | .closedBoth _ listenerIndex newConn connIndex =>
    some (m.setSlot listenerIndex none, .clearedListener newConn connIndex)
  | .clearedListener _ connIndex => some (m.setSlot connIndex none, .returned)
  | .returned => none

end Key

end Slots

inductive SlotEvent
  /-- the TCP layer enters a key in `SocketTable` or takes it out -/
  | entry (socketData : SocketData) (present : Bool)
  /-- a command or `acceptHelper` calls `AddToTable` on a new socket -/
  | addToTable (newSocket : Socket)
  | listSocketCommand
  | closeTCPCommand (socketID : ℤ)
  /-- `SendFileTCPCommand`, connected -/
  | sendFileTCPCommand (newConn : Socket)
  /-- `ReadFileTCPCommand`, listening -/
  | readFileTCPCommand (listener : Socket)
  /-- operation `k` takes its next step -/
  | run (k : ℕ)
  /-- `VAccept` returns -/
  | accepted (k : ℕ) (newConn : Socket)
  /-- a read or write of the file or the connection fails, and the command returns -/
  | failed (k : ℕ)
  deriving DecidableEq

def Slots.step (key : Socket → Option SocketData) (m : Slots) : SlotEvent → Option Slots
  | .entry socketData present =>
    some { m with socketTable := Function.update m.socketTable socketData present }
  | .addToTable newSocket =>
    some (m.spawn (.adding newSocket 0 m.socketIndexTable.length .nothing))
  | .listSocketCommand => some (m.spawn (.listing 0 m.socketIndexTable.length []))
  | .closeTCPCommand socketID =>
    match m.closeTCPCommand socketID with
    | .ok t => some (m.spawn t)
    | .error _ => some m
  | .sendFileTCPCommand newConn =>
    some (m.spawn (.adding newConn 0 m.socketIndexTable.length .sendFile))
  | .readFileTCPCommand listener =>
    some (m.spawn (.adding listener 0 m.socketIndexTable.length .accept))
  | .run k =>
    m.tasks[k]?.bind fun t => (m.run key t).map fun r => { r.1 with tasks := m.tasks.set k r.2 }
  | .accepted k newConn =>
    match m.tasks[k]? with
    | some (.accepting listener listenerIndex) =>
      some { m with
        tasks := m.tasks.set k
          (.adding newConn 0 m.socketIndexTable.length (.read listener listenerIndex)) }
    | _ => none
  | .failed k =>
    match m.tasks[k]? with
    | some (.sendingFile ..) | some (.readingFile ..) =>
      some { m with tasks := m.tasks.set k .returned }
    | _ => none

def SlotStep (key : Socket → Option SocketData) (m : Slots) (ev : SlotEvent) (m' : Slots) : Prop :=
  m.step key ev = some m'

def AfterAdd.remembers : AfterAdd → List (Socket × ℕ)
  | .read listener listenerIndex => [(listener, listenerIndex)]
  | _ => []

/-- The places an operation has in mind, each with the socket it knows there. -/
def SlotTask.remembers : SlotTask → List (Socket × ℕ)
  | .adding _ _ _ next | .putting _ _ next => next.remembers
  | .listing _ _ toDelete | .cleaning toDelete => toDelete
  | .droppingListener socket i | .closing socket i | .deleting socket i | .sendingFile socket i
  | .sentFile socket i | .accepting socket i | .clearedListener socket i => [(socket, i)]
  | .readingFile listener listenerIndex newConn connIndex
  | .closedConn listener listenerIndex newConn connIndex
  | .closedBoth listener listenerIndex newConn connIndex =>
    [(listener, listenerIndex), (newConn, connIndex)]
  | .closingListener _ | .returned => []

/-- The place the next step clears, and the socket on whose behalf. -/
def SlotTask.clears : SlotTask → Option (Socket × ℕ)
  | .cleaning (e :: _) => some e
  | .droppingListener socket i | .deleting socket i | .sentFile socket i
  | .closedBoth socket i _ _ | .clearedListener socket i => some (socket, i)
  | _ => none

/-- All the places in mind. -/
def Slots.remembered (m : Slots) : List (Socket × ℕ) := m.tasks.flatMap SlotTask.remembers

/-- The place the next step fills, and the socket. -/
def SlotTask.fills : SlotTask → Option (Socket × ℕ)
  | .putting newSocket i _ => some (newSocket, i)
  | _ => none

/-- The place a move clears, and the socket on whose behalf. -/
def clearedBy (x : Move Slots SlotEvent) : Option (Socket × ℕ) :=
  match x.ev with
  | .run k => x.src.tasks[k]?.bind SlotTask.clears
  | _ => none

/-- The free place a move fills, and the socket. -/
def filledBy (x : Move Slots SlotEvent) : Option (Socket × ℕ) :=
  match x.ev with
  | .run k => x.src.tasks[k]?.bind SlotTask.fills
  | _ => none

/-- A place cleared on behalf of a socket still holds it. -/
def ClearsHeld (x : Move Slots SlotEvent) : Prop :=
  ∀ e ∈ clearedBy x, x.src.holds e.2 = some e.1

/-- A place cleared on behalf of a socket holds no other. -/
def ClearsNoOther (x : Move Slots SlotEvent) : Prop :=
  ∀ e ∈ clearedBy x, x.src.holds e.2 = some e.1 ∨ x.src.holds e.2 = none

/-- No place is filled that an operation has in mind for another socket. -/
def NoReuse (x : Move Slots SlotEvent) : Prop :=
  ∀ e ∈ filledBy x, ∀ e' ∈ x.src.remembered, e'.2 = e.2 → e'.1 = e.1

/-- No place is cleared that an operation goes on to have in mind. -/
def ClearsAlone (x : Move Slots SlotEvent) : Prop :=
  ∀ e ∈ clearedBy x, ∀ e' ∈ x.dst.remembered, e'.2 ≠ e.2

instance (x : Move Slots SlotEvent) : Decidable (ClearsNoOther x) :=
  inferInstanceAs (Decidable (∀ e ∈ clearedBy x, _))

instance (x : Move Slots SlotEvent) : Decidable (NoReuse x) :=
  inferInstanceAs (Decidable (∀ e ∈ filledBy x, _))

instance (x : Move Slots SlotEvent) : Decidable (ClearsAlone x) :=
  inferInstanceAs (Decidable (∀ e ∈ clearedBy x, _))

/-- Everything a step can do to the table and to the places in mind. -/
inductive SlotMove (m : Slots) (ev : SlotEvent) (m' : Slots) : Prop
  /-- the table stays, and what is newly in mind has been seen -/
  | kept (htable : m'.socketIndexTable = m.socketIndexTable)
      (hmind : ∀ e ∈ m'.remembered, e ∈ m.remembered ∨ m.holds e.2 = some e.1)
      (hput : ∀ socket i next, .putting socket i next ∈ m'.tasks →
        .putting socket i next ∈ m.tasks ∨ i < m.socketIndexTable.length)
  | filled {k : ℕ} {socket : Socket} {i : ℕ} {next : AfterAdd} (hev : ev = .run k)
      (ht : m.tasks[k]? = some (.putting socket i next))
      (hm' : m' = { m.setSlot i (some socket) with
        tasks := m.tasks.set k (next.resume socket i) })
  | grown {k : ℕ} {socket : Socket} {i n : ℕ} {next : AfterAdd} (hev : ev = .run k)
      (ht : m.tasks[k]? = some (.adding socket i n next))
      (hm' : m' = { m with
        socketIndexTable := m.socketIndexTable ++ [some socket]
        tasks := m.tasks.set k (next.resume socket m.socketIndexTable.length) })
  | cleared {k : ℕ} {t t' : SlotTask} {socket : Socket} {i : ℕ} (hev : ev = .run k)
      (ht : m.tasks[k]? = some t) (hc : t.clears = some (socket, i))
      (hmind : t'.remembers ⊆ t.remembers) (hput : ∀ socket i next, t' ≠ .putting socket i next)
      (hm' : m' = { m.setSlot i none with tasks := m.tasks.set k t' })

section Moves

variable {key : Socket → Option SocketData} {m m' : Slots} {ev : SlotEvent} {t t' : SlotTask}
  {k i : ℕ} {socket : Socket} {next : AfterAdd}

theorem mem_remembered {e : Socket × ℕ} :
    e ∈ m.remembered ↔ ∃ t ∈ m.tasks, e ∈ t.remembers := List.mem_flatMap

theorem remembers_sub_of_get (ht : m.tasks[k]? = some t) : t.remembers ⊆ m.remembered := by
  intro e he
  exact mem_remembered.mpr ⟨t, List.mem_of_getElem? ht, he⟩

/-- What is in mind once operation `k` has become `t`. -/
theorem mem_remembered_set {tasks : List SlotTask} {e : Socket × ℕ}
    (he : e ∈ (tasks.set k t).flatMap SlotTask.remembers) :
    e ∈ t.remembers ∨ e ∈ tasks.flatMap SlotTask.remembers := by
  obtain ⟨u, hu, hmem⟩ := List.mem_flatMap.mp he
  rcases List.mem_or_eq_of_mem_set hu with hu | rfl
  · exact Or.inr (List.mem_flatMap.mpr ⟨u, hu, hmem⟩)
  · exact Or.inl hmem

theorem AfterAdd.remembers_resume {e : Socket × ℕ} (he : e ∈ (next.resume socket i).remembers) :
    e ∈ next.remembers ∨ e = (socket, i) := by
  cases next with
  | nothing => simp [resume, SlotTask.remembers] at he
  | sendFile | accept => exact Or.inr (List.mem_singleton.mp he)
  | read listener listenerIndex =>
    rcases List.mem_cons.mp he with rfl | he
    · exact Or.inl (List.mem_singleton_self _)
    · exact Or.inr (List.mem_singleton.mp he)

theorem resume_ne_putting {socket' : Socket} {i' : ℕ} {next' : AfterAdd} :
    next.resume socket i ≠ .putting socket' i' next' := by
  cases next <;> simp [AfterAdd.resume]

/-- An operation that starts, having seen what it has in mind. -/
theorem slotMove_spawn (hmind : ∀ e ∈ t.remembers, m.holds e.2 = some e.1)
    (hput : ∀ socket i next, t ≠ .putting socket i next) : SlotMove m ev (m.spawn t) := by
  refine .kept rfl (fun e he => ?_) fun socket i next h => ?_
  · obtain ⟨u, hu, he⟩ := mem_remembered.mp he
    rcases List.mem_append.mp hu with hu | hu
    · exact Or.inl (mem_remembered.mpr ⟨u, hu, he⟩)
    · rw [List.mem_singleton.mp hu] at he
      exact Or.inr (hmind e he)
  · rcases List.mem_append.mp h with h | h
    · exact Or.inl h
    · exact absurd (List.mem_singleton.mp h).symm (hput socket i next)

/-- An operation that goes on and leaves the table alone. -/
theorem slotMove_set {st : SocketData → Bool} (ht : m.tasks[k]? = some t)
    (hmind : ∀ e ∈ t'.remembers, e ∈ t.remembers ∨ m.holds e.2 = some e.1)
    (hput : ∀ socket i next, t' = .putting socket i next → i < m.socketIndexTable.length) :
    SlotMove m ev { m with socketTable := st, tasks := m.tasks.set k t' } := by
  refine .kept rfl (fun e he => ?_) fun socket i next h => ?_
  · rcases mem_remembered_set he with he | he
    · exact (hmind e he).imp_left fun h => remembers_sub_of_get ht h
    · exact Or.inl he
  · rcases List.mem_or_eq_of_mem_set h with h | h
    · exact Or.inl h
    · exact Or.inr (hput socket i next h.symm)

theorem unlist_eq {m₁ : Slots} (h : m.unlist key socket = some m₁) :
    ∃ st, m₁ = { m with socketTable := st } := by
  obtain ⟨socketData, -, rfl⟩ := Option.map_eq_some_iff.mp h
  exact ⟨_, rfl⟩

theorem closeListener_eq {m₁ : Slots} (h : m.closeListener key socket = some m₁) :
    ∃ st, m₁ = { m with socketTable := st } := by
  unfold Slots.closeListener at h
  split at h
  · exact unlist_eq h
  · cases h

/-- The inversion lemma for the step of an operation. -/
theorem slotMove_run (ht : m.tasks[k]? = some t) {r : Slots × SlotTask}
    (h : m.run key t = some r) :
    SlotMove m (.run k) { r.1 with tasks := m.tasks.set k r.2 } := by
  cases t with
  | adding newSocket i n next =>
    simp only [Slots.run] at h
    split at h
    · split at h
      · rename_i hfree
        obtain rfl := Option.some.inj h
        refine slotMove_set ht (fun e he => Or.inl he) fun socket i' next' heq => ?_
        cases heq
        exact (List.getElem?_eq_some_iff.mp hfree).1
      · obtain rfl := Option.some.inj h
        exact slotMove_set ht (fun e he => Or.inl he) (by simp)
      · cases h
    · obtain rfl := Option.some.inj h
      exact .grown rfl ht rfl
  | putting newSocket i next =>
    obtain rfl := Option.some.inj h
    exact .filled rfl ht rfl
  | listing i n toDelete =>
    simp only [Slots.run] at h
    split at h
    · split at h
      · obtain rfl := Option.some.inj h
        exact slotMove_set ht (fun e he => Or.inl he) (by simp)
      · rename_i socket hheld
        obtain ⟨socketData, -, rfl⟩ := Option.map_eq_some_iff.mp h
        refine slotMove_set ht (fun e he => ?_) (by simp)
        -- a place joins the list just after it was seen to hold its socket
        dsimp only [SlotTask.remembers] at he
        split at he
        · exact Or.inl he
        · rcases List.mem_append.mp he with he | he
          · exact Or.inl he
          · rw [List.mem_singleton.mp he]
            exact Or.inr hheld
    · obtain rfl := Option.some.inj h
      exact slotMove_set ht (fun e he => Or.inl he) (by simp)
  | cleaning toDelete =>
    cases toDelete with
    | nil =>
      obtain rfl := Option.some.inj h
      exact slotMove_set ht (by simp [SlotTask.remembers]) (by simp)
    | cons e toDelete =>
      obtain rfl := Option.some.inj h
      exact .cleared rfl ht rfl (List.subset_cons_self _ _) (by simp) rfl
  | droppingListener | deleting | sentFile | clearedListener | closedBoth =>
    obtain rfl := Option.some.inj h
    exact .cleared rfl ht rfl (by simp [SlotTask.remembers]) (by simp) rfl
  | closingListener | closedConn =>
    obtain ⟨m₁, hm₁, rfl⟩ := Option.map_eq_some_iff.mp h
    obtain ⟨st, rfl⟩ := closeListener_eq hm₁
    exact slotMove_set ht (fun e he => Or.inl he) (by simp)
  | closing | sendingFile | readingFile =>
    obtain ⟨m₁, hm₁, rfl⟩ := Option.map_eq_some_iff.mp h
    obtain ⟨st, rfl⟩ := unlist_eq hm₁
    exact slotMove_set ht (fun e he => Or.inl he) (by simp)
  | accepting | returned => cases h

/-- The inversion lemma. -/
theorem SlotStep.move (h : SlotStep key m ev m') : SlotMove m ev m' := by
  unfold SlotStep at h
  cases ev with
  | entry socketData present =>
    obtain rfl := Option.some.inj h
    exact .kept rfl (fun e he => Or.inl he) fun _ _ _ hp => Or.inl hp
  | addToTable | listSocketCommand | sendFileTCPCommand | readFileTCPCommand =>
    obtain rfl := Option.some.inj h
    exact slotMove_spawn (by simp [SlotTask.remembers, AfterAdd.remembers]) (by simp)
  | closeTCPCommand socketID =>
    simp only [Slots.step] at h
    split at h
    · rename_i t hclose
      obtain rfl := Option.some.inj h
      unfold Slots.closeTCPCommand at hclose
      split at hclose
      · cases hclose
      · split at hclose
        · cases hclose
        all_goals
          rename_i hheld
          obtain rfl := Except.ok.inj hclose
          exact slotMove_spawn (by simp [SlotTask.remembers, hheld]) (by simp)
    · obtain rfl := Option.some.inj h
      exact .kept rfl (fun e he => Or.inl he) fun _ _ _ hp => Or.inl hp
  | run k =>
    obtain ⟨t, ht, h⟩ := Option.bind_eq_some_iff.mp h
    obtain ⟨r, hr, rfl⟩ := Option.map_eq_some_iff.mp h
    exact slotMove_run ht hr
  | accepted k newConn =>
    simp only [Slots.step] at h
    split at h
    · rename_i listener listenerIndex ht
      obtain rfl := Option.some.inj h
      exact slotMove_set ht (fun e he => Or.inl he) (by simp)
    · cases h
  | failed k =>
    simp only [Slots.step] at h
    split at h
    · rename_i ht
      obtain rfl := Option.some.inj h
      exact slotMove_set ht (by simp [SlotTask.remembers]) (by simp)
    · rename_i ht
      obtain rfl := Option.some.inj h
      exact slotMove_set ht (by simp [SlotTask.remembers]) (by simp)
    · cases h

end Moves

section AddToTable

variable {key : Socket → Option SocketData} {k : ℕ} {newSocket : Socket} {next : AfterAdd}

theorem step_run {m m₁ : Slots} {t t' : SlotTask} (ht : m.tasks[k]? = some t)
    (hr : m.run key t = some (m₁, t')) :
    SlotStep key m (.run k) { m₁ with tasks := m.tasks.set k t' } := by
  simp [SlotStep, Slots.step, ht, hr]

/-- The loop of `AddToTable` past the places `pre`, with nothing in between. -/
theorem adding_uninterrupted (post : List (Option Socket)) (m : Slots)
    (pre : List (Option Socket)) (htable : m.socketIndexTable = pre ++ post)
    (ht : m.tasks[k]? = some (.adding newSocket pre.length (pre ++ post).length next)) :
    ∃ tr m' i, Run (SlotStep key) m tr m' ∧ (∀ x ∈ tr, x.ev = .run k) ∧
      m'.socketIndexTable = pre ++ Node.addToTable newSocket post ∧
      m'.tasks = m.tasks.set k (next.resume newSocket i) ∧ m'.holds i = some newSocket ∧
      m.holds i = none := by
  have hk := (List.getElem?_eq_some_iff.mp ht).1
  induction post generalizing m pre with
  | nil =>
    -- no free place: the table grows
    have hgrow : m.run key (.adding newSocket pre.length (pre ++ []).length next) =
        some ({ m with socketIndexTable := m.socketIndexTable ++ [some newSocket] },
          next.resume newSocket m.socketIndexTable.length) := by
      simp [Slots.run]
    refine ⟨_, _, pre.length, .snoc .nil (step_run ht hgrow), by simp, ?_, ?_, ?_, ?_⟩
    · simp [htable, Node.addToTable]
    · simp [htable]
    · simp [htable, Slots.holds]
    · simp [htable, Slots.holds]
  | cons o post ih =>
    cases o with
    | none =>
      have hlook : m.run key (.adding newSocket pre.length (pre ++ none :: post).length next) =
          some (m, .putting newSocket pre.length next) := by
        simp [Slots.run, htable]
      have hput : SlotStep key
          { m with tasks := m.tasks.set k (.putting newSocket pre.length next) } (.run k) _ :=
        step_run (List.getElem?_set_self hk) rfl
      refine ⟨_, _, pre.length, .snoc (.snoc .nil (step_run ht hlook)) hput, by simp, ?_, ?_, ?_,
        ?_⟩
      · simp [htable, Slots.setSlot, Node.addToTable]
      · simp
      · simp [htable, Slots.setSlot, Slots.holds]
      · simp [htable, Slots.holds]
    | some socket =>
      have hlook :
          m.run key (.adding newSocket pre.length (pre ++ some socket :: post).length next) =
            some (m, .adding newSocket (pre ++ [some socket]).length
              ((pre ++ [some socket]) ++ post).length next) := by
        simp [Slots.run, htable]
      obtain ⟨tr, m', i, hrun, hev, htable', htasks, hnew, hold⟩ :=
        ih { m with tasks := _ } (pre ++ [some socket]) (by simp [htable])
          (List.getElem?_set_self hk) (by simpa using hk)
      refine ⟨_, m', i, hrun.cons (step_run ht hlook), ?_, ?_, ?_, hnew, hold⟩
      · simpa using hev
      · simpa [Node.addToTable] using htable'
      · simpa using htasks

/-- An `AddToTable` that nothing interrupts is the function of the table. -/
theorem addToTable_uninterrupted {m : Slots}
    (ht : m.tasks[k]? = some (.adding newSocket 0 m.socketIndexTable.length next)) :
    ∃ tr m' i, Run (SlotStep key) m tr m' ∧ (∀ x ∈ tr, x.ev = .run k) ∧
      m'.socketIndexTable = Node.addToTable newSocket m.socketIndexTable ∧
      m'.tasks = m.tasks.set k (next.resume newSocket i) ∧ m'.holds i = some newSocket ∧
      m.holds i = none :=
  adding_uninterrupted m.socketIndexTable m [] rfl ht

end AddToTable

/-- Every place in mind lies in the table and holds the socket known there or, unless `strict`,
nothing. -/
structure SlotsKnown (strict : Bool) (m : Slots) : Prop where
  bound : ∀ e ∈ m.remembered, e.2 < m.socketIndexTable.length
  free : ∀ socket i next, .putting socket i next ∈ m.tasks → i < m.socketIndexTable.length
  held : ∀ e ∈ m.remembered, m.holds e.2 = some e.1 ∨ strict = false ∧ m.holds e.2 = none

section Invariant

variable {key : Socket → Option SocketData} {m m' : Slots} {ev : SlotEvent} {strict : Bool}
  {i j : ℕ} {socket : Socket}

theorem lt_of_holds (h : m.holds i = some socket) : i < m.socketIndexTable.length := by
  by_contra hge
  simp [Slots.holds, List.getElem?_eq_none (Nat.le_of_not_lt hge)] at h

theorem holds_setSlot_self {o : Option Socket} (hi : i < m.socketIndexTable.length) :
    (m.setSlot i o).holds i = o := by
  simp [Slots.holds, Slots.setSlot, hi]

theorem holds_setSlot_ne {o : Option Socket} (h : j ≠ i) : (m.setSlot i o).holds j = m.holds j := by
  simp [Slots.holds, Slots.setSlot, List.getElem?_set_ne (Ne.symm h)]

theorem holds_append {sockets : List (Option Socket)} (hj : j < m.socketIndexTable.length) :
    ({ m with socketIndexTable := m.socketIndexTable ++ sockets } : Slots).holds j =
      m.holds j := by
  simp [Slots.holds, List.getElem?_append_left hj]

/-- Where the table does not shrink, what is newly in mind has been seen, and a place in mind
keeps what it holds, gets its socket or, in the lax reading, is cleared. -/
theorem SlotsKnown.of_grows (hk : SlotsKnown strict m)
    (hlen : m.socketIndexTable.length ≤ m'.socketIndexTable.length)
    (hmind : ∀ e ∈ m'.remembered, e ∈ m.remembered ∨ m'.holds e.2 = some e.1)
    (hput : ∀ socket i next, .putting socket i next ∈ m'.tasks →
      .putting socket i next ∈ m.tasks ∨ i < m.socketIndexTable.length)
    (hheld : ∀ e ∈ m'.remembered, e ∈ m.remembered → m'.holds e.2 = m.holds e.2 ∨
      m'.holds e.2 = some e.1 ∨ strict = false ∧ m'.holds e.2 = none) :
    SlotsKnown strict m' := by
  refine ⟨fun e he => ?_, fun socket i next hp => ?_, fun e he => ?_⟩
  · rcases hmind e he with hold | hseen
    · exact (hk.bound e hold).trans_le hlen
    · exact lt_of_holds hseen
  · refine lt_of_lt_of_le ?_ hlen
    rcases hput socket i next hp with hp | hlt
    · exact hk.free socket i next hp
    · exact hlt
  · rcases hmind e he with hold | hseen
    · rcases hheld e he hold with hsame | hright
      · rw [hsame]
        exact hk.held e hold
      · exact hright
    · exact Or.inl hseen

theorem putting_of_set {tasks : List SlotTask} {k : ℕ} {t : SlotTask} {next : AfterAdd}
    (ht : ∀ socket i next, t ≠ .putting socket i next)
    (hp : .putting socket i next ∈ tasks.set k t) : .putting socket i next ∈ tasks :=
  (List.mem_or_eq_of_mem_set hp).resolve_right fun h => ht _ _ _ h.symm

/-- What is in mind once a place has been filled. -/
theorem mem_remembered_resumed {k : ℕ} {t : SlotTask} {next : AfterAdd} {e : Socket × ℕ}
    (ht : m.tasks[k]? = some t) (hsub : next.remembers ⊆ t.remembers)
    (he : e ∈ (m.tasks.set k (next.resume socket i)).flatMap SlotTask.remembers) :
    e ∈ m.remembered ∨ e = (socket, i) := by
  rcases mem_remembered_set he with he | he
  · exact (AfterAdd.remembers_resume he).imp_left fun h => remembers_sub_of_get ht (hsub h)
  · exact Or.inl he

theorem SlotsKnown.fill (hk : SlotsKnown strict m) {k : ℕ} {next : AfterAdd}
    (ht : m.tasks[k]? = some (.putting socket i next))
    (hreuse : ∀ e ∈ m.remembered, e.2 = i → e.1 = socket) :
    SlotsKnown strict
      { m.setSlot i (some socket) with tasks := m.tasks.set k (next.resume socket i) } := by
  have hself : (m.setSlot i (some socket)).holds i = some socket :=
    holds_setSlot_self (hk.free _ _ _ (List.mem_of_getElem? ht))
  refine hk.of_grows (by simp [Slots.setSlot]) (fun e he => ?_) (fun _ _ _ hp => ?_)
    fun e _ hold => ?_
  · rcases mem_remembered_resumed ht (fun _ h => h) he with he | rfl
    · exact Or.inl he
    · exact Or.inr hself
  · exact Or.inl (putting_of_set (fun _ _ _ => resume_ne_putting) hp)
  · by_cases heq : e.2 = i
    · rw [heq, hreuse e hold heq]
      exact Or.inr (Or.inl hself)
    · exact Or.inl (holds_setSlot_ne heq)

theorem SlotsKnown.grow (hk : SlotsKnown strict m) {k n : ℕ} {next : AfterAdd}
    (ht : m.tasks[k]? = some (.adding socket i n next)) :
    SlotsKnown strict { m with
      socketIndexTable := m.socketIndexTable ++ [some socket]
      tasks := m.tasks.set k (next.resume socket m.socketIndexTable.length) } := by
  refine hk.of_grows (by simp) (fun e he => ?_) (fun _ _ _ hp => ?_) fun e _ hold => ?_
  · rcases mem_remembered_resumed ht (fun _ h => h) he with he | rfl
    · exact Or.inl he
    · exact Or.inr (by simp [Slots.holds])
  · exact Or.inl (putting_of_set (fun _ _ _ => resume_ne_putting) hp)
  · exact Or.inl (holds_append (hk.bound e hold))

theorem SlotsKnown.clear (hk : SlotsKnown strict m) {k : ℕ} {t t' : SlotTask}
    (ht : m.tasks[k]? = some t) (hsub : t'.remembers ⊆ t.remembers)
    (hput : ∀ socket i next, t' ≠ .putting socket i next)
    (halone : strict = true →
      ∀ e ∈ (m.tasks.set k t').flatMap SlotTask.remembers, e.2 ≠ i) :
    SlotsKnown strict { m.setSlot i none with tasks := m.tasks.set k t' } := by
  refine hk.of_grows (by simp [Slots.setSlot]) (fun e he => ?_) (fun _ _ _ hp => ?_)
    fun e he hold => ?_
  · rcases mem_remembered_set he with he | he
    · exact Or.inl (remembers_sub_of_get ht (hsub he))
    · exact Or.inl he
  · exact Or.inl (putting_of_set hput hp)
  · by_cases heq : e.2 = i
    · -- a place that stays in mind is cleared in the lax reading only
      have hlax : strict = false := by
        by_contra hstrict
        exact halone (Bool.eq_true_of_not_eq_false hstrict) e he heq
      refine Or.inr (Or.inr ⟨hlax, ?_⟩)
      rw [heq]
      exact holds_setSlot_self (heq ▸ hk.bound e hold)
    · exact Or.inl (holds_setSlot_ne heq)

theorem SlotsKnown.step (hk : SlotsKnown strict m) (h : SlotStep key m ev m')
    (hreuse : NoReuse ⟨m, ev, m'⟩) (halone : strict = true → ClearsAlone ⟨m, ev, m'⟩) :
    SlotsKnown strict m' := by
  cases h.move with
  | kept htable hmind hput =>
    have hholds (j : ℕ) : m'.holds j = m.holds j := by rw [Slots.holds, htable, Slots.holds]
    refine hk.of_grows (congrArg List.length htable).ge (fun e he => ?_) hput
      fun e _ _ => Or.inl (hholds e.2)
    rw [hholds]
    exact hmind e he
  | @filled k socket i next hev ht hm' =>
    have hfills : filledBy ⟨m, ev, m'⟩ = some (socket, i) := by
      simp [filledBy, hev, ht, SlotTask.fills]
    rw [hm']
    exact hk.fill ht (hreuse (socket, i) hfills)
  | grown _ ht hm' =>
    rw [hm']
    exact hk.grow ht
  | @cleared k t t' socket i hev ht hc hsub hput hm' =>
    have hclears : clearedBy ⟨m, ev, m'⟩ = some (socket, i) := by
      simp [clearedBy, hev, ht, hc]
    have hforget (hstrict : strict = true) : ∀ e ∈ m'.remembered, e.2 ≠ i :=
      halone hstrict (socket, i) hclears
    rw [hm'] at hforget ⊢
    exact hk.clear ht hsub hput hforget

/-- An operation has in mind the place it clears. -/
theorem SlotTask.clears_mem {t : SlotTask} {e : Socket × ℕ} (h : t.clears = some e) :
    e ∈ t.remembers := by
  cases t with
  | cleaning toDelete =>
    cases toDelete with
    | nil => cases h
    | cons e' toDelete =>
      obtain rfl := Option.some.inj h
      exact List.mem_cons_self
  | droppingListener | deleting | sentFile | closedBoth | clearedListener =>
    obtain rfl := Option.some.inj h
    exact List.mem_cons_self
  | _ => cases h

theorem SlotsKnown.clears {x : Move Slots SlotEvent} (hk : SlotsKnown strict x.src)
    {e : Socket × ℕ} (h : e ∈ clearedBy x) :
    x.src.holds e.2 = some e.1 ∨ strict = false ∧ x.src.holds e.2 = none := by
  unfold clearedBy at h
  split at h
  · obtain ⟨t, ht, hc⟩ := Option.bind_eq_some_iff.mp h
    exact hk.held _ (remembers_sub_of_get ht (SlotTask.clears_mem hc))
  · cases h

end Invariant

/-- While no place is filled that an operation has in mind for another socket, no socket is lost;
where moreover no place is cleared that an operation goes on to have in mind, whatever is cleared
still holds its socket. -/
theorem slots_cleared_for_their_sockets {key : Socket → Option SocketData} {m m' : Slots}
    {tr : List (Move Slots SlotEvent)} (h0 : m.tasks = []) (h : Run (SlotStep key) m tr m') :
    ((∀ x ∈ tr, NoReuse x) → ∀ x ∈ tr, ClearsNoOther x) ∧
      ((∀ x ∈ tr, NoReuse x ∧ ClearsAlone x) → ∀ x ∈ tr, ClearsHeld x) := by
  have start (strict : Bool) : SlotsKnown strict m :=
    ⟨by simp [Slots.remembered, h0], by simp [h0], by simp [Slots.remembered, h0]⟩
  -- both parts: at every move the invariant holds
  have known (strict : Bool)
      (hall : ∀ x ∈ tr, NoReuse x ∧ (strict = true → ClearsAlone x)) :
      ∀ x ∈ tr, SlotsKnown strict x.src := by
    intro x hx
    obtain ⟨pre, post, rfl⟩ := List.append_of_mem hx
    exact (h.pre rfl).1.state_inv (start strict) (fun y hy => hall y (by simp [hy]))
      fun _ _ _ hk hs hc => hk.step hs hc.1 hc.2
  constructor
  · intro hreuse x hx e hc
    have hk := known false (fun y hy => ⟨hreuse y hy, by simp⟩) x hx
    exact (hk.clears hc).imp_right And.right
  · intro hall x hx e hc
    have hk := known true (fun y hy => ⟨(hall y hy).1, fun _ => (hall y hy).2⟩) x hx
    exact (hk.clears hc).resolve_right (by simp)

section Sample

/-- Every listener on one port, every connection on a port of its own. -/
def sampleKey : Socket → Option SocketData
  | .conn handle => some ⟨1, BitVec.ofNat 16 handle, 2, 80⟩
  | .listener handle => handle.map fun _ => ⟨1, 9999, 0, 0⟩

/-- The run a list of events makes. -/
def Slots.play (m : Slots) (events : List SlotEvent) : List (Move Slots SlotEvent) × Slots :=
  Runs.play (fun m ev => (m.step sampleKey ev).map fun m' => (ev, m')) m events

theorem Slots.play_run (m : Slots) (events : List SlotEvent) :
    Run (SlotStep sampleKey) m (m.play events).1 (m.play events).2 :=
  play_events_run (fun _ _ _ h => h) m events

/-- `ReadFileTCPCommand` puts its listener in place 0 and the connection it accepts in place 1. -/
def receivesFile : List SlotEvent :=
  [.entry ⟨1, 9999, 0, 0⟩ true, .readFileTCPCommand (.listener (some 0)), .run 0,
    .entry ⟨1, 0, 2, 80⟩ true, .accepted 0 (.conn 0), .run 0, .run 0]

/-- It closes the connection and the listener and clears their places. -/
def fileReceived : List SlotEvent := [.run 0, .run 0, .run 0, .run 0]

theorem slots_cleared_for_their_sockets_file :
    let tr := (({} : Slots).play (receivesFile ++ fileReceived)).1
    tr.filterMap clearedBy = [(.listener (some 0), 0), (.conn 0, 1)] ∧
      ∀ x ∈ tr, ClearsHeld x :=
  ⟨by decide, (slots_cleared_for_their_sockets rfl (Slots.play_run _ _)).2 (by decide)⟩

/-- The listener is closed by hand, a connection takes its place, and a second listener on the
same port takes place 2. -/
def listenerReplaced : List SlotEvent :=
  [.closeTCPCommand 0, .run 1, .run 1, .entry ⟨1, 1, 2, 80⟩ true, .addToTable (.conn 1), .run 2,
    .run 2, .entry ⟨1, 9999, 0, 0⟩ true, .addToTable (.listener (some 1)), .run 3, .run 3, .run 3]

/-- When the file has been received the goroutine still clears place 0 for its listener: the
connection that has taken it is lost, its entry in `SocketTable` left. -/
theorem reused_slot_cleared :
    let m := (({} : Slots).play (receivesFile ++ listenerReplaced)).2
    let r := m.play fileReceived
    Run (SlotStep sampleKey) {} (({} : Slots).play (receivesFile ++ listenerReplaced)).1 m ∧
      Run (SlotStep sampleKey) m r.1 r.2 ∧
      m.socketIndexTable = [some (.conn 1), some (.conn 0), some (.listener (some 1))] ∧
      r.1.filterMap clearedBy = [(.listener (some 0), 0), (.conn 0, 1)] ∧
      r.2.socketIndexTable = [none, none, some (.listener (some 1))] ∧
      (sampleKey (.conn 1)).map r.2.socketTable = some true ∧
      ¬ ∀ x ∈ r.1, ClearsNoOther x :=
  ⟨Slots.play_run _ _, Slots.play_run _ _, by decide, by decide, by decide, by decide, by decide⟩

end Sample

end TcpIp
