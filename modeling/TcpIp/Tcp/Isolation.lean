import TcpIp.Tcp.Ownership

/-! The connections of a handler do not mix. -/
namespace TcpIp

open Runs

/-- A step that stores `sto` keeps the owners. Unless it sends nothing and leaves every TCB as it
is, it is about one entry, of the kind `P`: it leaves the others, and what it sends bears the key
of that one. -/
structure Keeps (names : List SocketData) (sto : Option SocketData) (P : ℕ → SocketData → Prop)
    (h : Handler) (r : Handler × HandlerOutput) : Prop where
  owned : Owned (names ++ sto.toList) r.1
  addr : r.1.localAddr = h.localAddr
  entry : ((∀ q, q < h.heap.length → r.1.tcb? q = h.tcb? q) ∧ r.2.msgs = []) ∨
    ∃ p key, (names ++ sto.toList)[p]? = some key ∧ P p key ∧
      (∀ q ≠ p, q < h.heap.length → r.1.tcb? q = h.tcb? q) ∧
      ∀ m ∈ r.2.msgs, m.Bears h.localAddr key

namespace Keeps

variable {names : List SocketData} {h h₁ : Handler} {r : Handler × HandlerOutput} {k p i l : ℕ}
  {P : ℕ → SocketData → Prop} {key socketData : SocketData} {s : TCB} {e : Entry}
  {vc : VTCPConn} {vl : VTCPListener} {env : Env} {seg : Segment} {c : Conn}
  {text : String} {answer : Answer}

theorem quiet (ho : Owned names r.1) (ha : r.1.localAddr = h.localAddr)
    (ht : ∀ q, r.1.tcb? q = h.tcb? q) (hm : r.2.msgs = []) : Keeps names none P h r :=
  ⟨by simpa using ho, ha, Or.inl ⟨fun q _ => ht q, hm⟩⟩

theorem about (hp : names[p]? = some key) (hP : P p key) (ho : Owned names r.1)
    (ha : r.1.localAddr = h.localAddr) (ht : ∀ q ≠ p, r.1.tcb? q = h.tcb? q)
    (hm : ∀ m ∈ r.2.msgs, m.Bears h.localAddr key) : Keeps names none P h r :=
  ⟨by simpa using ho, ha, Or.inr ⟨p, key, by simpa using hp, hP, fun q hq _ => ht q hq, hm⟩⟩

theorem stored (hP : P h.heap.length key) (ho : Owned (names ++ [key]) r.1)
    (hlen : names.length = h.heap.length) (ha : r.1.localAddr = h.localAddr)
    (ht : ∀ q, q < h.heap.length → r.1.tcb? q = h.tcb? q)
    (hm : ∀ m ∈ r.2.msgs, m.Bears h.localAddr key) : Keeps names (some key) P h r := by
  refine ⟨ho, ha, Or.inr ⟨h.heap.length, key, ?_, hP, fun q _ hq => ht q hq, hm⟩⟩
  rw [← hlen]
  exact List.getElem?_concat_length

/-- What else is in the state does not matter. -/
theorem congr (hr : Keeps names none P h₁ r) (ha : h₁.localAddr = h.localAddr)
    (hh : h₁.heap = h.heap) : Keeps names none P h r := by
  have ht : ∀ q, h₁.tcb? q = h.tcb? q := fun q => by simp only [Handler.tcb?, hh]
  refine ⟨hr.owned, hr.addr.trans ha, ?_⟩
  have hentry := hr.entry
  simp only [ht, ha, hh] at hentry
  exact hentry

theorem failed (ho : Owned names h) : Keeps names none P h (h.fail text) :=
  .quiet ho rfl (fun _ => rfl) rfl

theorem crashed (ho : Owned names h) : Keeps names none P h (h.crash answer) :=
  .quiet ⟨ho.length, ho.table, ho.goroutine, ho.queue⟩ rfl (fun _ => rfl) rfl

theorem listen (ho : Owned names h) (port : U16) : Keeps names
    (if (h.listen port).2.answer = .ok then some ⟨h.localAddr, port, 0, 0⟩ else none) P h
    (h.listen port) := by
  unfold Handler.listen
  simp only
  split
  · exact .failed ho
  split
  · exact .failed ho
  · have hs : Owned _ (h.store ⟨h.localAddr, port, 0, 0⟩ { tcb := none }) :=
      ho.store fun s hs => by cases hs
    exact ⟨⟨hs.length, hs.table, hs.goroutine, hs.queue⟩, rfl,
      Or.inl ⟨fun q hq => tcb?_store_lt ⟨h.localAddr, port, 0, 0⟩ hq, rfl⟩⟩

theorem connect (ho : Owned names h) (env : Env) (destAddr : U32) (port : U16)
    (hP : P h.heap.length ⟨h.localAddr, h.currentPort, destAddr, port⟩) : Keeps names
    (if (h.connect env destAddr port).2.answer = .ok then
      some ⟨h.localAddr, h.currentPort, destAddr, port⟩ else none) P h
    (h.connect env destAddr port) := by
  have ho1 : Owned names { h with currentPort := h.currentPort + 1 } :=
    ⟨ho.length, ho.table, ho.goroutine, ho.queue⟩
  unfold Handler.connect
  simp only
  split
  · exact (Keeps.failed ho1).congr rfl rfl
  · refine .stored hP ((ho1.store fun s hs => ?_).spawn ?_) ho.length rfl
      (fun q hq => tcb?_store_lt ⟨h.localAddr, h.currentPort, destAddr, port⟩ hq) ?_
    · cases hs
      exact fun e he => by cases he
    · intro g hg
      rw [List.mem_singleton.mp hg, ← ho.length]
      exact List.getElem?_concat_length
    · intro m hm
      rw [List.mem_singleton.mp hm]
      exact bears_of_key rfl rfl rfl

/-- A connection is handed out. -/
theorem taken (ho : Owned names h) (p : ℕ) (connEntry : SocketData) (rest : List SocketData) :
    Keeps names none P h
      ((h.modify p fun e => { e with pendingConnections := rest }).addConn connEntry, {}) := by
  have hf : ∀ e : Entry, ({ e with pendingConnections := rest } : Entry).tcb = e.tcb :=
    fun _ => rfl
  exact .quiet (ho.modify hf).addConn rfl (fun q => tcb?_modify hf) rfl

theorem accept (ho : Owned names h) (hr : h.accept l vl = some r) : Keeps names none P h r := by
  unfold Handler.accept at hr
  split at hr
  · obtain rfl := Option.some.inj hr
    exact .failed ho
  · obtain ⟨e, -, rfl⟩ := Option.map_eq_some_iff.mp hr
    split
    · exact .taken ho _ _ _
    · split
      · exact .crashed ho
      · exact .quiet (ho.spawn (by simp [Goroutine.Fits])) rfl (fun _ => rfl) rfl

theorem applyRead (ho : Owned names h) (hp : names[p]? = some key) (hP : P p key)
    (hs : h.tcb? p = some s) (t : TCB × ReadOutcome)
    (hq : t.1.retransmissionQueue = s.retransmissionQueue) :
    Keeps names none P h (h.applyRead p t) := by
  obtain ⟨t, o⟩ := t
  have hset : Owned names (h.setTCB p t) := by
    refine ho.setTCB hp ?_
    intro e he
    exact ho.queue p s key hs hp e (hq ▸ he)
  have hlt : p < names.length := (List.getElem?_eq_some_iff.mp hp).1
  cases o with
  | waiting call =>
    exact .about hp hP (hset.spawn (by simpa [Goroutine.Fits] using hlt)) rfl
      (fun q hne => tcb?_setTCB_ne hne) (by simp [Handler.applyRead])
  | returned | eof | failed =>
    exact .about hp hP hset rfl (fun q hne => tcb?_setTCB_ne hne) (by simp [Handler.applyRead])

theorem read (ho : Owned names h) (hP : ∀ p, P p vc.socketTableKey) (n : U32) (readAll : Bool) :
    Keeps names none P h (h.read vc n readAll) := by
  unfold Handler.read
  split
  · exact .failed ho
  split
  · exact .failed ho
  rename_i p hp
  split
  · exact .crashed ho
  · rename_i s hs
    exact .applyRead ho (ho.table _ p hp) (hP p) hs _ (read_queue s n readAll)

theorem write (ho : Owned names h) (hi : h.conns[i]? = some vc) (data : List U8) :
    Keeps names none P h (h.write i vc data) := by
  unfold Handler.write
  split
  · exact .failed ho
  split
  · exact .failed ho
  rename_i p hp
  split
  · exact .crashed ho
  split
  · exact .failed ho
  · refine .quiet (ho.spawn fun g hg => ?_) rfl (fun _ => rfl) rfl
    rw [List.mem_singleton.mp hg]
    exact ⟨vc, hi, ho.table _ p hp⟩

theorem setCCForSocket (ho : Owned names h) (hP : ∀ p, P p vc.socketTableKey) :
    Keeps names none P h (h.setCCForSocket vc) := by
  unfold Handler.setCCForSocket
  split
  · exact .failed ho
  rename_i p hp
  split
  · exact .quiet ho rfl (fun _ => rfl) rfl
  · rename_i s hs
    have hname := ho.table _ p hp
    have hlt : p < names.length := (List.getElem?_eq_some_iff.mp hname).1
    have hset : Owned names (h.setTCB p s.enableCC) := ho.setTCB hname (ho.queue p s _ hs hname)
    exact .about hname (hP p) (hset.spawn (by simpa [Goroutine.Fits] using hlt)) rfl
      (fun q hne => tcb?_setTCB_ne hne) (by simp)

theorem applyClose (ho : Owned names h) (hp : names[p]? = some c.key) (hP : P p c.key)
    (ha : c.localAddr = h.localAddr) (hq : c.tcb.QueueOf c.key) :
    Keeps names none P h (h.applyClose p c.closeStep) := by
  obtain ⟨hqueue, hmsgs⟩ := closeStep_bears hq
  have hkey : c.closeStep.1.key = c.key := by
    unfold Conn.closeStep
    split <;> rfl
  rw [ha] at hmsgs
  have hset := ho.setTCB hp hqueue
  unfold Handler.applyClose
  split
  · refine .about hp hP (hset.spawn fun g hg => ?_) rfl (fun q hne => tcb?_setTCB_ne hne) (by simp)
    rw [List.mem_singleton.mp hg, hkey]
    exact hp
  · have hf : ∀ e : Entry, ({ e with token := true } : Entry).tcb = e.tcb := fun _ => rfl
    refine .about hp hP ((hset.modify hf).spawn fun g hg => ?_) rfl (fun q hne => ?_) hmsgs
    · rw [List.mem_singleton.mp hg, hkey]
      exact hp
    · exact (tcb?_modify hf).trans (tcb?_setTCB_ne hne)

theorem close (ho : Owned names h) (hP : ∀ p, P p key) : Keeps names none P h (h.close key) := by
  unfold Handler.close
  split
  · exact .crashed ho
  rename_i p hp
  split
  · exact .crashed ho
  · rename_i s hs
    have hname := ho.table key p hp
    exact .applyClose (c := h.conn key _) ho hname (hP p) rfl (ho.queue p s key hs hname)

theorem vClose (ho : Owned names h) (hi : h.conns[i]? = some vc)
    (hP : ∀ p, P p vc.socketTableKey) : Keeps names none P h (h.vClose i vc) :=
  (Keeps.close (ho.cancel hi true true) hP).congr rfl rfl

theorem vShutdown (ho : Owned names h) (hi : h.conns[i]? = some vc)
    (hP : ∀ p, P p vc.socketTableKey) (sdType : ℤ) :
    Keeps names none P h (h.vShutdown i vc sdType) := by
  unfold Handler.vShutdown
  split
  · exact .quiet (ho.cancel hi true false) rfl (fun _ => rfl) rfl
  split
  · exact (Keeps.close (ho.cancel hi false true) hP).congr rfl rfl
  split
  · exact .vClose ho hi hP
  · exact .failed ho

theorem lookUpListener (ho : Owned names h) (hr : Keeps names none P h (h₁, {})) :
    Keeps names none P h (h.lookUpListener key h₁) := by
  unfold Handler.lookUpListener
  split
  · exact .crashed ho
  · exact hr

theorem closeListener (ho : Owned names h) (vl : VTCPListener) :
    Keeps names none P h (h.closeListener l vl) := by
  have ho1 : Owned names { h with listeners := h.listeners.set l { vl with cancelled := true } } :=
    ⟨ho.length, ho.table, ho.goroutine, ho.queue⟩
  refine (lookUpListener ho1 (.quiet (ho1.spawn ?_) rfl (fun _ => rfl) rfl)).congr rfl rfl
  simp [Goroutine.Fits]

theorem receivePacket (ho : Owned names h) (localAddr destAddr : U32) (seg : Segment) :
    Keeps names none P h (h.receivePacket localAddr destAddr seg) := by
  unfold Handler.receivePacket
  split
  · exact .quiet ho rfl (fun _ => rfl) rfl
  rename_i hvalid
  simp only
  split
  · exact .quiet ho rfl (fun _ => rfl) rfl
  · rename_i p hp
    refine .quiet (ho.spawn fun g hg => ?_) rfl (fun _ => rfl) rfl
    rw [List.mem_singleton.mp hg]
    refine ⟨ho.table _ p hp, not_not.mp hvalid, ⟨rfl, rfl⟩, ?_⟩
    split
    · exact Or.inr rfl
    · exact Or.inl rfl

theorem handleStateListen (ho : Owned names h) (hP : ∀ p, P p socketData) : Keeps names
    (if seg.hdr.hasSyn && !seg.hdr.hasAck then some socketData else none) P h
    (h.handleStateListen env k key socketData seg) := by
  unfold Handler.handleStateListen
  by_cases hack : seg.hdr.hasAck = true
  · simp only [hack, if_true, Bool.not_true, Bool.and_false, Bool.false_eq_true, if_false]
    exact .quiet (ho.become (by simp)) rfl (fun _ => rfl) rfl
  by_cases hsyn : seg.hdr.hasSyn = true
  · simp only [hack, hsyn, Bool.false_eq_true, if_false, if_true, Bool.not_false, Bool.and_true]
    refine .stored (hP _) ((ho.store fun s hs => ?_).become ?_) ho.length rfl
      (fun q hq => tcb?_store_lt socketData hq) ?_
    · cases hs
      exact fun e he => by cases he
    · intro g hg
      rw [List.mem_singleton.mp hg, ← ho.length]
      exact List.getElem?_concat_length
    · intro m hm
      rw [List.mem_singleton.mp hm]
      exact bears_of_key rfl rfl rfl
  · simp only [hack, hsyn, Bool.false_eq_true, if_false, Bool.false_and]
    exact .quiet (ho.become (by simp)) rfl (fun _ => rfl) rfl

theorem handled (ho : Owned names h) (hp : names[p]? = some key) (hP : P p key)
    (hq : c.tcb.QueueOf key) {msgs : List Msg} (hm : ∀ m ∈ msgs, m.Bears h.localAddr key)
    (st : ConnectionState) : Keeps names none P h (h.handled k p key s st c msgs) := by
  have hlt : p < names.length := (List.getElem?_eq_some_iff.mp hp).1
  unfold Handler.handled
  split
  · have hset : Owned names (h.setTCB p { c.tcb with retransmitCounter := s.retransmitCounter }) :=
      ho.setTCB hp hq
    refine .about hp hP (hset.become fun g hg => ?_) rfl (fun q hne => tcb?_setTCB_ne hne) (by simp)
    rw [List.mem_singleton.mp hg]
    exact ⟨hp, hm⟩
  · refine .about hp hP ((ho.setTCB hp hq).become fun g hg => ?_) rfl
      (fun q hne => tcb?_setTCB_ne hne) hm
    rcases List.mem_append.mp hg with hg | hg
    · rcases List.mem_append.mp hg with hg | hg
      · split at hg
        · rw [List.mem_singleton.mp hg]
          exact hp
        · cases hg
      · split at hg
        · rw [List.mem_singleton.mp hg]
          exact hlt
        · cases hg
    · rw [List.eq_of_mem_replicate hg]
      exact hlt

theorem handle {st : ConnectionState} (ho : Owned names h) (hp : names[p]? = some key)
    (hseg : seg.Addressed socketData key)
    (hP : ∀ q key', seg.Addressed socketData key' → P q key')
    (hr : h.handle env k st p key socketData seg = some r) : Keeps names
    (if st = .listen ∧ (seg.hdr.hasSyn && !seg.hdr.hasAck) then some socketData else none) P h
    r := by
  unfold Handler.handle at hr
  by_cases hst : st = .listen
  · rw [if_pos hst] at hr
    obtain rfl := Option.some.inj hr
    have hown : ∀ q, P q socketData := fun q => hP q _ ⟨hseg.valid, hseg.ports, Or.inl rfl⟩
    simpa [hst] using handleStateListen ho hown
  · rw [if_neg hst] at hr
    obtain ⟨s, hs, rfl⟩ := Option.map_eq_some_iff.mp hr
    simp only [hst, false_and, if_false]
    split
    · exact .quiet (ho.become (by simp)) rfl (fun _ => rfl) rfl
    · rename_i c msgs hc
      have hbears : c.tcb.QueueOf key ∧ ∀ m ∈ msgs, m.Bears h.localAddr key :=
        Conn.handle_bears hc (ho.queue p s key hs hp)
      exact .handled ho hp (hP p key hseg) hbears.1 hbears.2 st

theorem signalListener (ho : Owned names h) (hp : names[p]? = some key)
    (hr : h.signalListener k p key e = some r) : Keeps names none P h r := by
  unfold Handler.signalListener at hr
  split at hr
  · obtain rfl := Option.some.inj hr
    split
    · exact .crashed ho
    · have htoken : ∀ e : Entry, ({ e with token := true } : Entry).tcb = e.tcb := fun _ => rfl
      have hpending : ∀ e : Entry,
          ({ e with pendingConnections := e.pendingConnections ++ [key] } : Entry).tcb = e.tcb :=
        fun _ => rfl
      refine .quiet (((ho.modify htoken).modify hpending).become fun g hg => ?_) rfl (fun q => ?_)
        rfl
      · simp only [List.mem_cons, List.not_mem_nil, or_false] at hg
        rcases hg with rfl | rfl <;> exact hp
      · exact (tcb?_modify hpending).trans (tcb?_modify htoken)
  · cases hr

theorem handshakeTimeout (ho : Owned names h) (hp : names[p]? = some key) (hP : P p key)
    (hs : h.tcb? p = some s) {m : Msg} (hm : m.Bears h.localAddr key) (answer : Answer) :
    Keeps names none P h
      (h.handshakeTimeout k p key ((h.conn key s).handshakeTimeout m) answer) := by
  have hq := ho.queue p s key hs hp
  unfold Handler.handshakeTimeout Conn.handshakeTimeout
  by_cases hmax : (h.conn key s).tcb.retransmitCounter = maxRetransmissions
  · simp only [if_pos hmax, Bool.false_eq_true, if_false]
    have hset : Owned names (h.setTCB p { s with state := .closed }) := ho.setTCB hp hq
    exact .about hp hP (hset.delete.become (by simp)) rfl (fun q hne => tcb?_setTCB_ne hne)
      (by simp)
  · have hin : (h.conn key s).inTable = true := rfl
    simp only [if_neg hmax, hin, if_true]
    refine .about hp hP (ho.setTCB hp hq) rfl (fun q hne => tcb?_setTCB_ne hne) fun m' hm' => ?_
    rw [List.mem_singleton.mp hm']
    exact hm

theorem waitTimeout (ho : Owned names h) (hp : names[p]? = some key) (hP : P p key)
    (hs : h.tcb? p = some s) (now : Int64) :
    Keeps names none P h (h.applyTimeout k p key (s.waitTimeout key now)) := by
  have hq := ho.queue p s key hs hp
  have heff : TimeoutEffect s key (s.waitTimeout key now) := waitTimeout_effect
  generalize s.waitTimeout key now = result at heff
  cases heff with
  | stop => exact .quiet (ho.become (by simp)) rfl (fun _ => rfl) rfl
  | idle => exact .quiet ho rfl (fun _ => rfl) rfl
  | giveUp =>
    have hset : Owned names (h.setTCB p { s with state := .closed, timeoutCancelled := true }) :=
      ho.setTCB hp hq
    exact .about hp hP (hset.delete.become (by simp)) rfl (fun q hne => tcb?_setTCB_ne hne)
      (by simp [Handler.applyTimeout])
  | resent b _ hqueue =>
    refine .about hp hP (ho.setTCB hp ?_) rfl (fun q hne => tcb?_setTCB_ne hne) fun m hm => ?_
    · exact hq
    · rw [List.mem_singleton.mp hm]
      exact resendMsg_bears hq (hqueue ▸ List.mem_cons_self)

theorem applyWrite (ho : Owned names h) (hi : h.conns[i]? = some vc)
    (hp : names[p]? = some vc.socketTableKey) (hP : P p vc.socketTableKey) (text : String)
    {result : Option (Writer × Option WriteOutcome)}
    (hq : ∀ w, result = some (w, none) → w.conn.tcb.QueueOf vc.socketTableKey) :
    Keeps names none P h (h.applyWrite k p i text result) := by
  unfold Handler.applyWrite
  split
  · exact .crashed ho
  · rename_i w
    refine .about hp hP ((ho.setTCB hp (hq w rfl)).become fun g hg => ?_) rfl
      (fun q hne => tcb?_setTCB_ne hne) (by simp)
    rw [List.mem_singleton.mp hg]
    exact ⟨vc, hi, hp⟩
  · exact .quiet (ho.become (by simp)) rfl (fun _ => rfl) rfl
  · exact .quiet (ho.become (by simp)) rfl (fun _ => rfl) rfl

theorem copy_queue {w w' : Writer} {call : WriteCall} (hw : w.copy call = some w') :
    w'.conn.tcb.retransmissionQueue = w.conn.tcb.retransmissionQueue := by
  obtain ⟨⟨t, n⟩, ht, rfl⟩ := Option.map_eq_some_iff.mp hw
  obtain ⟨-, buffer, rfl, -⟩ := writePart_wrote ht
  rfl

theorem writeStep {w : Writer} (ho : Owned names h) (hi : h.conns[i]? = some vc)
    (hp : names[p]? = some vc.socketTableKey) (hP : P p vc.socketTableKey)
    (hq : w.conn.tcb.QueueOf vc.socketTableKey) (hr : h.writeStep k p i w = some r) :
    Keeps names none P h r := by
  have hcopied : ∀ {call : WriteCall} {w' : Writer},
      (w.copy call).map (fun w' => (w', (none : Option WriteOutcome))) = some (w', none) →
      w'.conn.tcb.QueueOf vc.socketTableKey := by
    intro call w' hw
    obtain ⟨w₁, hw₁, heq⟩ := Option.map_eq_some_iff.mp hw
    obtain rfl := (Prod.mk.inj heq).1
    intro e he
    exact hq e (copy_queue hw₁ ▸ he)
  unfold Handler.writeStep at hr
  split at hr
  · cases hr
  · obtain rfl := Option.some.inj hr
    refine .applyWrite ho hi hp hP _ fun w' hw => ?_
    unfold Writer.round at hw
    simp only at hw
    split at hw
    · split at hw
      · simp at hw
      split at hw
      · obtain rfl := (Prod.mk.inj (Option.some.inj hw)).1
        exact hq
      · exact hcopied hw
    · simp at hw
  · obtain rfl := Option.some.inj hr
    refine .applyWrite ho hi hp hP _ fun w' hw => ?_
    unfold Writer.woken at hw
    simp only at hw
    split at hw
    · simp at hw
    split at hw
    · simp at hw
    split at hw
    · obtain rfl := (Prod.mk.inj (Option.some.inj hw)).1
      exact hq
    · exact hcopied hw

theorem acceptStep (ho : Owned names h) (vl : VTCPListener) (e : Entry) :
    Keeps names none P h (h.acceptStep k p vl e) := by
  unfold Handler.acceptStep
  split
  · exact .quiet (ho.become (by simp)) rfl (fun _ => rfl) rfl
  split
  · exact .quiet ho rfl (fun _ => rfl) rfl
  · rename_i connEntry rest _
    have hf : ∀ e : Entry, ({ e with pendingConnections := rest } : Entry).tcb = e.tcb :=
      fun _ => rfl
    exact .quiet ((ho.modify hf).addConn.become (by simp)) rfl (fun q => tcb?_modify hf) rfl

theorem resume {g : Goroutine} (ho : Owned names h) (hk : h.goroutines[k]? = some g)
    (hP : ∀ p key, g.WorksOn h.conns p key → P p key) (hr : h.resume env k g = some r) :
    Keeps names (h.stores ⟨.run k, r.2⟩) P h r := by
  have hfits := ho.fits hk
  simp only [Handler.stores, hk]
  cases g with
  | connect p key =>
    obtain ⟨s, hs, rfl⟩ := Option.map_eq_some_iff.mp hr
    exact .handshakeTimeout ho hfits (hP _ _ ⟨rfl, rfl⟩) hs (bears_of_key rfl rfl rfl) _
  | accept p l =>
    obtain ⟨e, -, he⟩ := Option.bind_eq_some_iff.mp hr
    obtain ⟨vl, -, rfl⟩ := Option.map_eq_some_iff.mp he
    exact .acceptStep ho vl e
  | read p call =>
    obtain ⟨s, hs, rfl⟩ := Option.map_eq_some_iff.mp hr
    obtain ⟨key, hp⟩ := ho.name (lt_of_tcb? hs)
    have hone : Owned names (h.become k []) := ho.become (by simp)
    exact (Keeps.applyRead hone hp (hP p key rfl) hs _ (readRun_queue s call)).congr rfl rfl
  | write p i pc =>
    obtain ⟨s, hs, hs'⟩ := Option.bind_eq_some_iff.mp hr
    obtain ⟨vc, hvc, hw⟩ := Option.bind_eq_some_iff.mp hs'
    obtain ⟨vc', hvc', hp⟩ := hfits
    obtain rfl := Option.some.inj (hvc.symm.trans hvc')
    exact .writeStep ho hvc hp (hP _ _ ⟨rfl, vc, hvc, rfl⟩) (ho.queue p s _ hs hp) hw
  | initCC p =>
    obtain ⟨s, hs, rfl⟩ := Option.map_eq_some_iff.mp hr
    obtain ⟨key, hp⟩ := ho.name (lt_of_tcb? hs)
    have hset : Owned names (h.setTCB p s.initCC) := ho.setTCB hp (ho.queue p s key hs hp)
    exact .about hp (hP p key rfl) (hset.become (by simp)) rfl (fun q hne => tcb?_setTCB_ne hne)
      (by simp)
  | close p key =>
    obtain ⟨s, hs, rfl⟩ := Option.map_eq_some_iff.mp hr
    have hone : Owned names (h.become k []) := ho.become (by simp)
    exact (Keeps.applyClose (c := h.conn key s) hone hfits (hP _ _ ⟨rfl, rfl⟩) rfl
      (ho.queue p s key hs hfits)).congr rfl rfl
  | closeListener key next =>
    cases next with
    | signal | unlock =>
      obtain rfl := Option.some.inj hr
      refine .lookUpListener ho (.quiet (ho.become ?_) rfl (fun _ => rfl) rfl)
      simp [Goroutine.Fits]
    | delete =>
      obtain rfl := Option.some.inj hr
      exact .quiet (ho.delete.become (by simp)) rfl (fun _ => rfl) rfl
  | found p key socketData seg =>
    obtain ⟨e, -, rfl⟩ := Option.map_eq_some_iff.mp hr
    refine .quiet (ho.become fun g hg => ?_) rfl (fun _ => rfl) rfl
    rw [List.mem_singleton.mp hg]
    exact hfits
  | handle st p key socketData seg =>
    have hkeeps := Keeps.handle ho hfits.1 hfits.2 (fun q key' h' => hP q key' h') hr
    cases st <;> simpa using hkeeps
  | acked p key =>
    obtain ⟨e, -, hs⟩ := Option.bind_eq_some_iff.mp hr
    exact .signalListener ho hfits hs
  | send p key pc =>
    obtain ⟨s, hs, rfl⟩ := Option.map_eq_some_iff.mp hr
    have hbears : _ ∧ ∀ m ∈ (s.sendStep key env.now pc).2.2, m.Bears h.localAddr key :=
      sendStep_bears rfl (ho.queue p s key hs hfits)
    refine .about hfits (hP _ _ ⟨rfl, rfl⟩) ((ho.setTCB hfits hbears.1).become fun g hg => ?_) rfl
      (fun q hne => tcb?_setTCB_ne hne) hbears.2
    rw [List.mem_singleton.mp hg]
    exact hfits
  | waitTimeout p key =>
    obtain ⟨s, hs, rfl⟩ := Option.map_eq_some_iff.mp hr
    exact .waitTimeout ho hfits (hP _ _ ⟨rfl, rfl⟩) hs env.now
  | waitForAckReceiver p key =>
    obtain ⟨s, hs, rfl⟩ := Option.map_eq_some_iff.mp hr
    exact .handshakeTimeout ho hfits (hP _ _ ⟨rfl, rfl⟩) hs (bears_of_key rfl rfl rfl) _
  | waitForClosed p =>
    obtain ⟨s, hs, rfl⟩ := Option.map_eq_some_iff.mp hr
    obtain ⟨key, hp⟩ := ho.name (lt_of_tcb? hs)
    have hset : Owned names (h.setTCB p { s with state := .closed }) :=
      ho.setTCB hp (ho.queue p s key hs hp)
    refine .about hp (hP p key rfl) (hset.become fun g hg => ?_) rfl
      (fun q hne => tcb?_setTCB_ne hne) (by simp)
    rw [List.mem_singleton.mp hg]
    exact hfits
  | closeSent | connected | closed => cases hr

/-- The receiver returns, with a new handle or without its entry. -/
theorem received {g : Goroutine} {j : ℕ} (ho : Owned names h) (hj : h.goroutines[j]? = some g)
    (hr : h.received p g = some h₁) :
    Owned names h₁ ∧ h₁.localAddr = h.localAddr ∧ h₁.goroutines = h.goroutines ∧
      ∀ q ≠ p, h₁.tcb? q = h.tcb? q := by
  have hfits := ho.fits hj
  unfold Handler.received at hr
  split at hr
  · split at hr
    · rename_i hpq
      subst hpq
      obtain ⟨s, hs, rfl⟩ := Option.map_eq_some_iff.mp hr
      have hset : Owned names (h.setTCB p { s with retransmitCounter := 0 }) :=
        ho.setTCB hfits (ho.queue p s _ hs hfits)
      exact ⟨hset.addConn, rfl, rfl, fun q hne => tcb?_setTCB_ne hne⟩
    · cases hr
  · split at hr
    · obtain rfl := Option.some.inj hr
      exact ⟨ho.delete, rfl, rfl, fun q _ => rfl⟩
    · cases hr
  · cases hr

theorem signal {g g' : Goroutine} {j : ℕ} (ho : Owned names h) (hi : h.goroutines[i]? = some g)
    (hj : h.goroutines[j]? = some g') (hP : ∀ p key, g.WorksOn h.conns p key → P p key)
    (hr : h.signal i j g g' = some r) : Keeps names none P h r := by
  obtain ⟨⟨p, gs, msgs⟩, hafter, hq⟩ := Option.bind_eq_some_iff.mp hr
  obtain ⟨h₁, hh, rfl⟩ := Option.map_eq_some_iff.mp hq
  obtain ⟨ho₁, haddr, -, htcb⟩ := received ho hj hh
  have hfits := ho.fits hi
  have hends : Owned names ((h₁.become (max i j) []).become (min i j) []) :=
    (ho₁.become (by simp)).become (by simp)
  unfold Goroutine.afterSignal at hafter
  split at hafter
  · obtain ⟨rfl, rfl, rfl⟩ : p = _ ∧ gs = _ ∧ msgs = _ := by simpa [eq_comm] using hafter
    refine .about hfits.1 (hP _ _ ⟨rfl, rfl⟩) (hends.spawn fun g hg => ?_) haddr htcb hfits.2
    simp only [List.mem_cons, List.not_mem_nil, or_false] at hg
    rcases hg with rfl | rfl <;> exact hfits.1
  · obtain ⟨rfl, rfl, rfl⟩ : p = _ ∧ gs = _ ∧ msgs = _ := by simpa [eq_comm] using hafter
    have hlt : p < names.length := hfits
    obtain ⟨key, hp⟩ := ho.name (ho.length ▸ hlt)
    exact .about hp (hP _ key rfl) (hends.spawn (by simp)) haddr htcb (by simp)
  · cases hafter

/-- What every step keeps. -/
theorem step {l : HandlerLabel} {h' : Handler} (ho : Owned names h) (hs : HandlerStep h l h') :
    Keeps names (h.stores l) (fun p key => h.WorksOn p key l.ev) h (h', l.out) := by
  obtain ⟨env, hr⟩ := hs
  obtain ⟨ev, out⟩ := l
  unfold Handler.step at hr
  split at hr
  · cases hr
  cases ev with
  | listen port =>
    rw [← Option.some.inj hr]
    have hkeeps := Keeps.listen (P := fun p key => h.WorksOn p key (.listen port)) ho port
    rw [Option.some.inj hr] at hkeeps ⊢
    exact hkeeps
  | connect destAddr port =>
    have hkeeps := Keeps.connect (P := fun p key => h.WorksOn p key (.connect destAddr port)) ho env
      destAddr port rfl
    rw [Option.some.inj hr] at hkeeps
    exact hkeeps
  | accept l =>
    obtain ⟨vl, -, hvl⟩ := Option.bind_eq_some_iff.mp hr
    exact .accept ho hvl
  | read i n readAll =>
    obtain ⟨vc, hi, hvc⟩ := Option.map_eq_some_iff.mp hr
    exact hvc ▸ .read ho (fun _ => ⟨vc, hi, rfl⟩) n readAll
  | write i data =>
    obtain ⟨vc, hi, hvc⟩ := Option.map_eq_some_iff.mp hr
    exact hvc ▸ .write ho hi data
  | setCCForSocket i =>
    obtain ⟨vc, hi, hvc⟩ := Option.map_eq_some_iff.mp hr
    exact hvc ▸ .setCCForSocket ho fun _ => ⟨vc, hi, rfl⟩
  | vShutdown i sdType =>
    obtain ⟨vc, hi, hvc⟩ := Option.map_eq_some_iff.mp hr
    exact hvc ▸ .vShutdown ho hi (fun _ => ⟨vc, hi, rfl⟩) sdType
  | vClose i =>
    obtain ⟨vc, hi, hvc⟩ := Option.map_eq_some_iff.mp hr
    exact hvc ▸ .vClose ho hi fun _ => ⟨vc, hi, rfl⟩
  | closeListener l =>
    obtain ⟨vl, -, hvl⟩ := Option.map_eq_some_iff.mp hr
    exact hvl ▸ .closeListener ho vl
  | receivePacket localAddr destAddr seg =>
    exact Option.some.inj hr ▸ .receivePacket ho localAddr destAddr seg
  | run k =>
    obtain ⟨g, hk, hg⟩ := Option.bind_eq_some_iff.mp hr
    exact .resume ho hk (fun _ _ hw => ⟨g, hk, hw⟩) hg
  | signal i j =>
    obtain ⟨g, hi, hg⟩ := Option.bind_eq_some_iff.mp hr
    obtain ⟨g', hj, hg'⟩ := Option.bind_eq_some_iff.mp hg
    exact .signal ho hi hj (fun _ _ hw => ⟨g, hi, hw⟩) hg'
  | token k =>
    simp only at hr
    split at hr
    · rename_i p key hk
      obtain ⟨e, -, he⟩ := Option.bind_eq_some_iff.mp hr
      obtain ⟨s, hs, htoken⟩ := Option.bind_eq_some_iff.mp he
      split at htoken
      · rw [← Option.some.inj htoken]
        have hp : names[p]? = some key := ho.fits hk
        have hset : Owned names (h.setTCB p { s with retransmitCounter := 0 }) :=
          ho.setTCB hp (ho.queue p s key hs hp)
        exact .about hp ⟨_, hk, rfl, rfl⟩ (hset.become (by simp)) rfl
          (fun q hne => tcb?_setTCB_ne hne) (by simp)
      · cases htoken
    · cases hr
  | ipError k err =>
    simp only at hr
    split at hr
    · rw [← Option.some.inj hr]
      exact .quiet (ho.become (by simp)) rfl (fun _ => rfl) rfl
    · cases hr
  | probe k =>
    simp only at hr
    split at hr
    · rename_i p key hk
      obtain ⟨s, hs, hout⟩ := Option.map_eq_some_iff.mp hr
      rw [← hout]
      refine .about (ho.fits hk) ⟨_, hk, rfl, rfl⟩ ho rfl (fun _ _ => rfl) fun m hm => ?_
      unfold TCB.probe at hm
      simp only at hm
      split at hm
      · cases hm
      · rw [List.mem_singleton.mp hm]
        exact bears_of_key rfl rfl rfl
    · cases hr

end Keeps

/-- The keys that a run stores entries under, in order. -/
def Handler.stored (tr : List (Move Handler HandlerLabel)) : List SocketData :=
  tr.filterMap fun x => x.src.stores x.ev

section Run

variable {localAddr : U32} {currentPort : U16} {h h' : Handler} {l : HandlerLabel}
  {tr : List (Move Handler HandlerLabel)}

theorem owned_run (hrun : Run HandlerStep (Handler.init localAddr currentPort) tr h) :
    Owned (Handler.stored tr) h ∧ h.localAddr = localAddr := by
  induction hrun with
  | nil => exact ⟨.of_init _ _, rfl⟩
  | @snoc tr t u e hrun hs ih =>
    have hkeeps := Keeps.step ih.1 hs
    refine ⟨?_, hkeeps.addr.trans ih.2⟩
    have howned := hkeeps.owned
    rw [Handler.stored, List.filterMap_append]
    cases hsto : t.stores e <;> simpa [Handler.stored, hsto] using howned

/-- A SYN reaches a listener while another connection is being opened. -/
def synAmongOthers : List HandlerEvent :=
  [.listen 5000, .connect 9 80, .receivePacket 1 2 (.toListener 499 0 2), .run 1]

end Run

end TcpIp
