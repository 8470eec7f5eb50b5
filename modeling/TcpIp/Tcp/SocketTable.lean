import TcpIp.Tcp.Handler

/-! Look-ups in the socket table against the history of what was stored and deleted. -/
namespace TcpIp

open Runs

/-- The test of `waitTimeout` before it gives the connection up. -/
def TCB.givesUp (s : TCB) : Bool :=
  s.state ≠ .timeWait && s.state ≠ .closed && s.retransmissionQueue ≠ [] &&
    s.retransmitCounter = maxRetransmissions

namespace Handler

/-- The key under which a step makes a new entry: `Listen`, `Connect`, or a SYN for a listener. -/
def stores (h : Handler) (l : HandlerLabel) : Option SocketData :=
  match l.ev with
  | .listen port => if l.out.answer = .ok then some ⟨h.localAddr, port, 0, 0⟩ else none
  | .connect destAddr port =>
    if l.out.answer = .ok then some ⟨h.localAddr, h.currentPort, destAddr, port⟩ else none
  | .run k =>
    match h.goroutines[k]? with
    | some (.handle .listen _ _ socketData seg) =>
      if seg.hdr.hasSyn && !seg.hdr.hasAck then some socketData else none
    | _ => none
  | _ => none

/-- The key that a step deletes: the timers of the handshake and of retransmission give up, the
last step of `CloseListener`, or `Close` returns. -/
def deletes (h : Handler) : HandlerEvent → Option SocketData
  | .run k =>
    match h.goroutines[k]? with
    | some (.connect p key) | some (.waitForAckReceiver p key) =>
      if (h.tcb? p).any fun s => s.retransmitCounter = maxRetransmissions then some key else none
    | some (.waitTimeout p key) => if (h.tcb? p).any TCB.givesUp then some key else none
    | some (.closeListener key .delete) => some key
    | _ => none
  | .signal _ j =>
    match h.goroutines[j]? with
    | some (.closeSent _ key) => some key
    | _ => none
  | _ => none

/-- The key that a step looks up and dereferences without a check. -/
def dereferences (h : Handler) : HandlerEvent → Option SocketData
  | .vClose i => (h.conns[i]?).map VTCPConn.socketTableKey
  | .vShutdown i sdType =>
    if sdType = 1 ∨ sdType = 2 then (h.conns[i]?).map VTCPConn.socketTableKey else none
  | .closeListener l => (h.listeners[l]?).map VTCPListener.socketTableKey
  | .run k =>
    match h.goroutines[k]? with
    | some (.closeListener key .signal) | some (.closeListener key .unlock) => some key
    | some (.acked p _) => (h.heap[p]?).map Entry.listenKey
    | _ => none
  | _ => none

/-- The key has an entry, as the moves so far tell it. -/
def isOpen (tr : List (Move Handler HandlerLabel)) (key : SocketData) : Bool :=
  since (fun x => x.src.stores x.ev = some key) (fun x => x.src.deletes x.ev.ev = some key) tr

section Steps

variable {h h' : Handler} {env : Env} {key key' socketData : SocketData} {k p i l : ℕ} {e : Entry}
  {s : TCB} {gs : List Goroutine} {f : Entry → Entry} {text : String} {answer : Answer}

section Frame

@[simp] theorem socketTable_modify : (h.modify p f).socketTable = h.socketTable := rfl
@[simp] theorem socketTable_become : (h.become k gs).socketTable = h.socketTable := rfl
@[simp] theorem socketTable_crash : (h.crash answer).1.socketTable = h.socketTable := rfl
@[simp] theorem answer_crash : (h.crash answer).2.answer = answer := rfl
@[simp] theorem answer_fail : (h.fail text).2.answer = .error text := rfl

@[simp] theorem socketTable_store : (h.store key e).socketTable key' =
    if key = key' then some h.heap.length else h.socketTable key' := by
  simp [Handler.store, Function.update_apply, eq_comm]

@[simp] theorem socketTable_delete : (h.delete key).socketTable key' =
    if key = key' then none else h.socketTable key' := by
  simp [Handler.delete, Function.update_apply, eq_comm]

end Frame

/-- What a step does with the table: one entry more, one less, and the look-up that can fail. -/
structure TableEffect (h : Handler) (stores deletes dereferences : Option SocketData)
    (r : Handler × HandlerOutput) : Prop where
  table : ∀ key, (r.1.socketTable key).isSome =
    (decide (stores = some key) || ((h.socketTable key).isSome && !decide (deletes = some key)))
  missing : r.2.answer = .missing ↔ ∃ key ∈ dereferences, h.socketTable key = none

/-- Most steps only look up with a check. -/
theorem TableEffect.of_kept {r : Handler × HandlerOutput} (ht : r.1.socketTable = h.socketTable)
    (ha : r.2.answer ≠ .missing) : TableEffect h none none none r :=
  ⟨by simp [ht], by simp [ha]⟩

/-- What else is in the state does not matter. -/
theorem TableEffect.congr {r : Handler × HandlerOutput} {sto del der : Option SocketData}
    (hr : TableEffect h' sto del der r) (ht : h'.socketTable = h.socketTable) :
    TableEffect h sto del der r :=
  ⟨ht ▸ hr.table, ht ▸ hr.missing⟩

theorem TableEffect.of_stored {r : Handler × HandlerOutput} {n : ℕ}
    (ht : ∀ key', r.1.socketTable key' = if key = key' then some n else h.socketTable key')
    (ha : r.2.answer ≠ .missing) : TableEffect h (some key) none none r := by
  refine ⟨fun key' => ?_, by simp [ha]⟩
  by_cases hkey : key = key' <;> simp [ht, hkey]

theorem TableEffect.of_deleted {r : Handler × HandlerOutput}
    (ht : ∀ key', r.1.socketTable key' = if key = key' then none else h.socketTable key')
    (ha : r.2.answer ≠ .missing) : TableEffect h none (some key) none r := by
  refine ⟨fun key' => ?_, by simp [ha]⟩
  by_cases hkey : key = key' <;> simp [ht, hkey]

section Calls

variable {vc : VTCPConn} {vl : VTCPListener} {r : Handler × HandlerOutput} {env : Env}

theorem listen_effect (port : U16) : TableEffect h
    (if (h.listen port).2.answer = .ok then some ⟨h.localAddr, port, 0, 0⟩ else none) none none
    (h.listen port) := by
  unfold Handler.listen
  simp only
  split
  · exact .of_kept rfl (by simp)
  · split
    · exact .of_kept rfl (by simp)
    · exact .of_stored (fun _ => socketTable_store (e := { tcb := none })) (by simp)

theorem connect_effect (env : Env) (destAddr : U32) (port : U16) : TableEffect h
    (if (h.connect env destAddr port).2.answer = .ok then
      some ⟨h.localAddr, h.currentPort, destAddr, port⟩ else none) none none
    (h.connect env destAddr port) := by
  unfold Handler.connect
  simp only
  split
  · exact .of_kept rfl (by simp)
  · exact .of_stored (fun _ => socketTable_store (e := { tcb := none })) (by simp)

theorem accept_effect (hr : h.accept l vl = some r) : TableEffect h none none none r := by
  unfold Handler.accept at hr
  split at hr
  · obtain rfl := Option.some.inj hr
    exact .of_kept rfl (by simp)
  · obtain ⟨e, -, rfl⟩ := Option.map_eq_some_iff.mp hr
    split
    · exact .of_kept rfl (by simp)
    · split <;> exact .of_kept rfl (by simp)

theorem applyRead_effect (q : TCB × ReadOutcome) : (h.applyRead p q).1.socketTable = h.socketTable ∧
    (h.applyRead p q).2.answer ≠ .missing := by
  obtain ⟨s, o⟩ := q
  cases o <;> exact ⟨rfl, by simp [Handler.applyRead]⟩

theorem read_effect (n : U32) (readAll : Bool) :
    TableEffect h none none none (h.read vc n readAll) := by
  unfold Handler.read
  split
  · exact .of_kept rfl (by simp)
  split
  · exact .of_kept rfl (by simp)
  split
  · exact .of_kept rfl (by simp)
  · exact .of_kept (applyRead_effect _).1 (applyRead_effect _).2

theorem write_effect (data : List U8) : TableEffect h none none none (h.write i vc data) := by
  unfold Handler.write
  split
  · exact .of_kept rfl (by simp)
  split
  · exact .of_kept rfl (by simp)
  split
  · exact .of_kept rfl (by simp)
  split <;> exact .of_kept rfl (by simp)

theorem setCCForSocket_effect : TableEffect h none none none (h.setCCForSocket vc) := by
  unfold Handler.setCCForSocket
  split
  · exact .of_kept rfl (by simp)
  split <;> exact .of_kept rfl (by simp)

theorem applyClose_effect (q : Conn × Output) : (h.applyClose p q).1.socketTable = h.socketTable ∧
    (h.applyClose p q).2.answer ≠ .missing := by
  unfold Handler.applyClose
  split <;> exact ⟨rfl, by simp⟩

theorem close_effect : TableEffect h none none (some key) (h.close key) := by
  unfold Handler.close
  split
  · rename_i hnone
    exact ⟨by simp, by simp [hnone]⟩
  · rename_i p hsome
    split
    · exact ⟨by simp, by simp [hsome]⟩
    · exact ⟨by simp [applyClose_effect], by simp [hsome, applyClose_effect]⟩

theorem vClose_effect (vc : VTCPConn) :
    TableEffect h none none (some vc.socketTableKey) (h.vClose i vc) :=
  close_effect.congr rfl

theorem vShutdown_effect (vc : VTCPConn) (sdType : ℤ) : TableEffect h none none
    (if sdType = 1 ∨ sdType = 2 then some vc.socketTableKey else none)
    (h.vShutdown i vc sdType) := by
  unfold Handler.vShutdown
  by_cases h0 : sdType = 0
  · rw [if_pos h0, if_neg (by omega)]
    exact .of_kept rfl (by simp)
  by_cases h1 : sdType = 1
  · rw [if_neg h0, if_pos h1, if_pos (Or.inl h1)]
    exact close_effect.congr rfl
  by_cases h2 : sdType = 2
  · rw [if_neg h0, if_neg h1, if_pos h2, if_pos (Or.inr h2)]
    exact vClose_effect vc
  · rw [if_neg h0, if_neg h1, if_neg h2, if_neg (by omega)]
    exact .of_kept rfl (by simp)

theorem lookUpListener_effect (ht : h'.socketTable = h.socketTable) :
    TableEffect h none none (some key) (h.lookUpListener key h') := by
  unfold Handler.lookUpListener
  split
  · rename_i hnone
    exact ⟨by simp, by simp [hnone]⟩
  · rename_i hsome
    exact ⟨by simp [ht], by simp [hsome]⟩

theorem closeListener_effect (vl : VTCPListener) :
    TableEffect h none none (some vl.socketTableKey) (h.closeListener l vl) := by
  unfold Handler.closeListener
  refine (lookUpListener_effect ?_).congr ?_ <;> rfl

theorem receivePacket_effect (localAddr destAddr : U32) (seg : Segment) :
    TableEffect h none none none (h.receivePacket localAddr destAddr seg) := by
  unfold Handler.receivePacket
  split
  · exact .of_kept rfl (by simp)
  · simp only
    split <;> exact .of_kept rfl (by simp)

end Calls

section Goroutines

variable {r : Handler × HandlerOutput} {env : Env} {g g' : Goroutine} {seg : Segment}

theorem handleStateListen_effect : TableEffect h
    (if seg.hdr.hasSyn && !seg.hdr.hasAck then some socketData else none) none none
    (h.handleStateListen env k key socketData seg) := by
  unfold Handler.handleStateListen
  by_cases hack : seg.hdr.hasAck = true
  · simp only [hack, if_true, Bool.not_true, Bool.and_false, Bool.false_eq_true, if_false]
    exact .of_kept rfl (by simp)
  by_cases hsyn : seg.hdr.hasSyn = true
  · simp only [hack, hsyn, Bool.false_eq_true, if_false, if_true, Bool.not_false, Bool.and_true]
    exact .of_stored (fun _ => socketTable_store (e := { tcb := none })) (by simp)
  · simp only [hack, hsyn, Bool.false_eq_true, if_false, Bool.false_and]
    exact .of_kept rfl (by simp)

theorem handled_effect (st : ConnectionState) (c : Conn) (msgs : List Msg) :
    TableEffect h none none none (h.handled k p key s st c msgs) := by
  unfold Handler.handled
  split <;> exact .of_kept rfl (by simp)

theorem handle_effect {st : ConnectionState}
    (hr : h.handle env k st p key socketData seg = some r) : TableEffect h
    (if st = .listen ∧ (seg.hdr.hasSyn && !seg.hdr.hasAck) then some socketData else none) none none
    r := by
  unfold Handler.handle at hr
  by_cases hst : st = .listen
  · rw [if_pos hst] at hr
    obtain rfl := Option.some.inj hr
    simpa [hst] using handleStateListen_effect
  · rw [if_neg hst] at hr
    obtain ⟨s, -, rfl⟩ := Option.map_eq_some_iff.mp hr
    simp only [hst, false_and, if_false]
    split
    · exact .of_kept rfl (by simp)
    · exact handled_effect _ _ _

theorem signalListener_effect (hr : h.signalListener k p key e = some r) :
    TableEffect h none none (some e.listenKey) r := by
  unfold Handler.signalListener at hr
  split at hr
  · obtain rfl := Option.some.inj hr
    split
    · rename_i hnone
      exact ⟨by simp, by simp [hnone]⟩
    · rename_i hsome
      exact ⟨by simp, by simp [hsome]⟩
  · cases hr

theorem handshakeTimeout_effect (m : Msg) (ha : answer ≠ .missing) : TableEffect h none
    (if s.retransmitCounter = maxRetransmissions then some key else none) none
    (h.handshakeTimeout k p key ((h.conn key s).handshakeTimeout m) answer) := by
  unfold Handler.handshakeTimeout Conn.handshakeTimeout
  by_cases hmax : s.retransmitCounter = maxRetransmissions
  · simp only [Handler.conn, hmax, if_true, Bool.false_eq_true, if_false]
    exact .of_deleted (fun _ => socketTable_delete) ha
  · simp only [Handler.conn, hmax, if_true, if_false]
    exact .of_kept rfl (by simp)

theorem waitTimeout_effect : TableEffect h none (if s.givesUp then some key else none) none
    (h.applyTimeout k p key (s.waitTimeout key env.now)) := by
  unfold TCB.waitTimeout TCB.givesUp
  by_cases hst : s.state = .timeWait ∨ s.state = .closed
  · rw [if_pos hst, if_neg (by simp; tauto)]
    exact .of_kept rfl (by simp [Handler.applyTimeout])
  rw [if_neg hst]
  cases hq : s.retransmissionQueue with
  | nil =>
    rw [if_neg (by simp)]
    exact .of_kept rfl (by simp [Handler.applyTimeout])
  | cons packet rest =>
    simp only
    by_cases hmax : s.retransmitCounter = maxRetransmissions
    · rw [if_pos hmax, if_pos (by simp [hmax]; tauto)]
      exact .of_deleted (fun _ => socketTable_delete) (by simp [Handler.applyTimeout])
    · rw [if_neg hmax, if_neg (by simp [hmax])]
      exact .of_kept rfl (by simp [Handler.applyTimeout])

theorem acceptStep_effect (vl : VTCPListener) :
    TableEffect h none none none (h.acceptStep k p vl e) := by
  unfold Handler.acceptStep
  split
  · exact .of_kept rfl (by simp)
  split <;> exact .of_kept rfl (by simp)

theorem applyWrite_effect (q : Option (Writer × Option WriteOutcome)) :
    TableEffect h none none none (h.applyWrite k p i text q) := by
  unfold Handler.applyWrite
  split <;> exact .of_kept rfl (by simp)

theorem writeStep_effect {w : Writer} (hr : h.writeStep k p i w = some r) :
    TableEffect h none none none r := by
  unfold Handler.writeStep at hr
  split at hr
  · cases hr
  · obtain rfl := Option.some.inj hr
    exact applyWrite_effect _
  · obtain rfl := Option.some.inj hr
    exact applyWrite_effect _

theorem resume_effect (hk : h.goroutines[k]? = some g) (hr : h.resume env k g = some r) :
    TableEffect h (h.stores ⟨.run k, r.2⟩) (h.deletes (.run k)) (h.dereferences (.run k)) r := by
  simp only [stores, deletes, dereferences, hk]
  cases g with
  | connect p key =>
    obtain ⟨s, hs, rfl⟩ := Option.map_eq_some_iff.mp hr
    simpa [hs] using handshakeTimeout_effect _ (by simp)
  | accept p l =>
    obtain ⟨e, -, he⟩ := Option.bind_eq_some_iff.mp hr
    obtain ⟨vl, -, rfl⟩ := Option.map_eq_some_iff.mp he
    exact acceptStep_effect _
  | read p call =>
    obtain ⟨s, -, rfl⟩ := Option.map_eq_some_iff.mp hr
    exact .of_kept (applyRead_effect _).1 (applyRead_effect _).2
  | write p i pc =>
    obtain ⟨s, -, hs⟩ := Option.bind_eq_some_iff.mp hr
    obtain ⟨vc, -, hw⟩ := Option.bind_eq_some_iff.mp hs
    exact writeStep_effect hw
  | initCC p =>
    obtain ⟨s, -, rfl⟩ := Option.map_eq_some_iff.mp hr
    exact .of_kept rfl (by simp)
  | close p key =>
    obtain ⟨s, -, rfl⟩ := Option.map_eq_some_iff.mp hr
    exact .of_kept (applyClose_effect _).1 (applyClose_effect _).2
  | closeListener key next =>
    cases next with
    | signal | unlock =>
      obtain rfl := Option.some.inj hr
      exact lookUpListener_effect rfl
    | delete =>
      obtain rfl := Option.some.inj hr
      exact .of_deleted (fun _ => socketTable_delete) (by simp)
  | found p key socketData seg =>
    obtain ⟨e, -, rfl⟩ := Option.map_eq_some_iff.mp hr
    exact .of_kept rfl (by simp)
  | handle st p key socketData seg =>
    have heff := handle_effect hr
    cases st <;> simpa using heff
  | acked p key =>
    obtain ⟨e, he, hs⟩ := Option.bind_eq_some_iff.mp hr
    simpa [he] using signalListener_effect hs
  | send p key pc =>
    obtain ⟨s, -, rfl⟩ := Option.map_eq_some_iff.mp hr
    exact .of_kept rfl (by simp)
  | waitTimeout p key =>
    obtain ⟨s, hs, rfl⟩ := Option.map_eq_some_iff.mp hr
    simpa [hs] using waitTimeout_effect
  | waitForAckReceiver p key =>
    obtain ⟨s, hs, rfl⟩ := Option.map_eq_some_iff.mp hr
    simpa [hs] using handshakeTimeout_effect _ (by simp)
  | waitForClosed p =>
    obtain ⟨s, -, rfl⟩ := Option.map_eq_some_iff.mp hr
    exact .of_kept rfl (by simp)
  | closeSent | connected | closed => cases hr

theorem signal_effect {j : ℕ} (hj : h.goroutines[j]? = some g')
    (hr : h.signal i j g g' = some r) :
    TableEffect h none (h.deletes (.signal i j)) none r := by
  obtain ⟨q, -, hq⟩ := Option.bind_eq_some_iff.mp hr
  obtain ⟨h', hh, rfl⟩ := Option.map_eq_some_iff.mp hq
  simp only [deletes, hj]
  unfold Handler.received at hh
  split at hh
  · split at hh
    · obtain ⟨s, -, rfl⟩ := Option.map_eq_some_iff.mp hh
      exact .of_kept rfl (by simp)
    · cases hh
  · split at hh
    · obtain rfl := Option.some.inj hh
      exact .of_deleted (fun _ => socketTable_delete) (by simp)
    · cases hh
  · cases hh

end Goroutines

/-- What every step does with the table. -/
theorem step_effect {l : HandlerLabel} (hs : HandlerStep h l h') :
    TableEffect h (h.stores l) (h.deletes l.ev) (h.dereferences l.ev) (h', l.out) := by
  obtain ⟨env, hr⟩ := hs
  obtain ⟨ev, out⟩ := l
  unfold Handler.step at hr
  split at hr
  · cases hr
  cases ev with
  | listen port =>
    have heff := listen_effect (h := h) port
    rw [Option.some.inj hr] at heff
    exact heff
  | connect destAddr port =>
    have heff := connect_effect (h := h) env destAddr port
    rw [Option.some.inj hr] at heff
    exact heff
  | accept l =>
    obtain ⟨vl, -, hvl⟩ := Option.bind_eq_some_iff.mp hr
    exact accept_effect hvl
  | read i n readAll =>
    obtain ⟨vc, -, hvc⟩ := Option.map_eq_some_iff.mp hr
    exact hvc ▸ Handler.read_effect n readAll
  | write i data =>
    obtain ⟨vc, -, hvc⟩ := Option.map_eq_some_iff.mp hr
    exact hvc ▸ write_effect data
  | setCCForSocket i =>
    obtain ⟨vc, -, hvc⟩ := Option.map_eq_some_iff.mp hr
    exact hvc ▸ setCCForSocket_effect
  | vShutdown i sdType =>
    obtain ⟨vc, hi, hvc⟩ := Option.map_eq_some_iff.mp hr
    have heff := vShutdown_effect (h := h) (i := i) vc sdType
    simpa [stores, deletes, dereferences, hi, hvc] using heff
  | vClose i =>
    obtain ⟨vc, hi, hvc⟩ := Option.map_eq_some_iff.mp hr
    have heff := vClose_effect (h := h) (i := i) vc
    simpa [stores, deletes, dereferences, hi, hvc] using heff
  | closeListener l =>
    obtain ⟨vl, hl, hvl⟩ := Option.map_eq_some_iff.mp hr
    have heff := closeListener_effect (h := h) (l := l) vl
    simpa [stores, deletes, dereferences, hl, hvl] using heff
  | receivePacket localAddr destAddr seg =>
    have heff := receivePacket_effect (h := h) localAddr destAddr seg
    rw [Option.some.inj hr] at heff
    exact heff
  | run k =>
    obtain ⟨g, hk, hg⟩ := Option.bind_eq_some_iff.mp hr
    exact resume_effect hk hg
  | signal i j =>
    obtain ⟨g, -, hg⟩ := Option.bind_eq_some_iff.mp hr
    obtain ⟨g', hj, hg'⟩ := Option.bind_eq_some_iff.mp hg
    exact signal_effect hj hg'
  | token k =>
    simp only at hr
    split at hr
    · obtain ⟨e, -, he⟩ := Option.bind_eq_some_iff.mp hr
      obtain ⟨s, -, hs⟩ := Option.bind_eq_some_iff.mp he
      split at hs
      · rw [← Option.some.inj hs]
        exact .of_kept rfl (by simp)
      · cases hs
    · cases hr
  | ipError k err =>
    simp only at hr
    split at hr
    · rw [← Option.some.inj hr]
      exact .of_kept rfl (by simp)
    · cases hr
  | probe k =>
    simp only at hr
    split at hr
    · obtain ⟨s, -, hs⟩ := Option.map_eq_some_iff.mp hr
      rw [← hs]
      exact .of_kept rfl (by simp)
    · cases hr

end Steps

section Run

variable {h h' : Handler} {l : HandlerLabel} {tr : List (Move Handler HandlerLabel)}

/-- The table agrees with the history. -/
def Tracked (tr : List (Move Handler HandlerLabel)) (h : Handler) : Prop :=
  ∀ key, (h.socketTable key).isSome = isOpen tr key

theorem Tracked.step (hi : Tracked tr h) (hs : HandlerStep h l h') :
    Tracked (tr ++ [⟨h, l, h'⟩]) h' := by
  intro key
  rw [isOpen, since_snoc, (step_effect hs).table key, hi key]
  rfl

/-- A look-up without a check fails exactly where the history has no entry for its key. -/
theorem Tracked.found_iff (hi : Tracked tr h) (hs : HandlerStep h l h') :
    l.out.answer ≠ .missing ↔ ∀ key ∈ h.dereferences l.ev, isOpen tr key = true := by
  rw [ne_eq, (step_effect hs).missing]
  push Not
  refine forall₂_congr fun key _ => ?_
  rw [← hi key, Option.isSome_iff_ne_none]

end Run

end Handler

section Run

open Handler

variable {localAddr : U32} {currentPort : U16} {h : Handler}
  {tr : List (Move Handler HandlerLabel)}

/-- No step of a run dereferences an absent entry exactly if every `Close`, `CloseListener` and
last ACK of a handshake looks up a key that was stored and not deleted since. -/
theorem no_entry_missing_iff (hrun : Run HandlerStep (Handler.init localAddr currentPort) tr h) :
    (∀ x ∈ tr, x.ev.out.answer ≠ .missing) ↔
      Along (fun pre x => ∀ key ∈ x.src.dereferences x.ev.ev, isOpen pre key = true) tr := by
  have hinit : Tracked [] (Handler.init localAddr currentPort) := fun key => rfl
  have hiff := hrun.along_iff (I := Tracked) (H := fun _ _ => True)
    (C := fun pre x => ∀ key ∈ x.src.dereferences x.ev.ev, isOpen pre key = true)
    (D := fun _ x => x.ev.out.answer ≠ .missing) hinit (fun _ _ _ _ => trivial)
    (fun tr t e u hi hs _ _ => hi.step hs) (fun tr t e u hi hs _ => hi.found_iff hs)
  rw [← hiff]
  exact ⟨along_of_forall_mem, forall_mem_of_along⟩

/-- An event as a function, with 99 for every initial sequence number. -/
def Handler.next (h : Handler) (ev : HandlerEvent) : Option (HandlerLabel × Handler) :=
  (h.step ⟨0, 99, true⟩ ev).map fun r => (⟨ev, r.2⟩, r.1)

def Handler.play (h : Handler) (events : List HandlerEvent) :
    List (Move Handler HandlerLabel) × Handler :=
  Runs.play Handler.next h events

theorem Handler.play_run (h : Handler) (events : List HandlerEvent) :
    Run HandlerStep h (h.play events).1 (h.play events).2 :=
  play_map_run HandlerLabel.mk (fun _ _ _ _ h => ⟨_, h⟩) h events

/-- A segment without data from port 2000 of host 2 to port 5000 of host 1. -/
def Segment.toListener (seqNum ackNum : U32) (flags : U8) : Segment where
  hdr := createTCPHeader 2 1 2000 5000 seqNum ackNum flags 1000 []
  payload := []
  payload_le := Segment.nil_le

/-- A SYN reaches a listener, which is then closed. -/
def closedAfterSyn : List HandlerEvent :=
  [.listen 5000, .receivePacket 1 2 (.toListener 499 0 2), .run 0, .run 0, .closeListener 0,
    .run 1, .run 1, .run 1]

/-- The ACK of a SYN-ACK, up to the use of the listener's entry. -/
def lastAck : List HandlerEvent :=
  [.receivePacket 1 2 (.toListener 500 100 16), .run 1, .run 1, .run 1]

/-- A connection is accepted and closed before its listener is. -/
theorem no_entry_missing_iff_accepted :
    let tr := ((Handler.init 1 1025).play
      ([.listen 5000, .receivePacket 1 2 (.toListener 499 0 2), .run 0, .run 0] ++ lastAck ++
        [.accept 0, .vClose 0, .closeListener 0])).1
    tr.length = 11 ∧ ∀ x ∈ tr, x.ev.out.answer ≠ .missing :=
  ⟨by decide, (no_entry_missing_iff (Handler.play_run _ _)).mpr
    (along_of_forall_fin (by decide))⟩

/-- The ACK that ends a handshake dereferences the entry of a listener closed meanwhile. -/
theorem entry_missing_listener_closed :
    ¬ ∀ (localAddr : U32) (currentPort : U16) (h : Handler)
      (tr : List (Move Handler HandlerLabel)),
      Run HandlerStep (Handler.init localAddr currentPort) tr h →
      ∀ x ∈ tr, x.ev.out.answer ≠ .missing := by
  intro hall
  have hrun := Handler.play_run (Handler.init 1 1025) (closedAfterSyn ++ lastAck)
  obtain ⟨x, hx, hmissing⟩ : ∃ x ∈ ((Handler.init 1 1025).play
      (closedAfterSyn ++ lastAck)).1, x.ev.out.answer = .missing := by decide
  exact hall _ _ _ _ hrun x hx hmissing

end Run

end TcpIp
