import TcpIp.Tcp.Bearing
import TcpIp.Tcp.SocketTable

/-! The entries of a handler have owners: who works on an entry works under the key that the entry
was stored under. -/
namespace TcpIp

theorem getElem?_of_prefix {α : Type*} {xs ys : List α} {i : ℕ} {x : α} (h : xs <+: ys)
    (hx : xs[i]? = some x) : ys[i]? = some x := by
  obtain ⟨zs, rfl⟩ := h
  rw [List.getElem?_append_left (List.getElem?_eq_some_iff.mp hx).1]
  exact hx

/-- An unharmed segment with the ports of `socketData`; `key` is that of the connection, or of a
listener at its port. -/
structure Segment.Addressed (seg : Segment) (socketData key : SocketData) : Prop where
  valid : seg.hdr.checksumValid socketData.localAddr socketData.destAddr seg.payload
  ports : socketData.localPort = seg.hdr.dstPort ∧ socketData.destPort = seg.hdr.srcPort
  key : key = socketData ∨ key = ⟨socketData.localAddr, socketData.localPort, 0, 0⟩

namespace Goroutine

/-- The goroutine works under the key that its entry was stored under. -/
def Fits (localAddr : U32) (names : List SocketData) (conns : List VTCPConn) : Goroutine → Prop
  | .connect p key | .close p key | .closeSent p key | .acked p key | .send p key _
  | .waitTimeout p key | .waitForAckReceiver p key => names[p]? = some key
  | .write p i _ => ∃ vc, conns[i]? = some vc ∧ names[p]? = some vc.socketTableKey
  | .connected p key msgs => names[p]? = some key ∧ ∀ m ∈ msgs, m.Bears localAddr key
  | .found p key socketData seg | .handle _ p key socketData seg =>
    names[p]? = some key ∧ seg.Addressed socketData key
  | .read p _ | .initCC p | .closed p | .waitForClosed p => p < names.length
  | .accept .. | .closeListener .. => True

/-- The next step of the goroutine may be about entry `p`, stored under `key`. -/
def WorksOn (conns : List VTCPConn) (p : ℕ) (key : SocketData) : Goroutine → Prop
  | .connect q own | .close q own | .send q own _ | .waitTimeout q own
  | .waitForAckReceiver q own | .connected q own _ => p = q ∧ key = own
  | .read q _ | .initCC q | .closed q | .waitForClosed q => p = q
  | .write q i _ => p = q ∧ ∃ vc, conns[i]? = some vc ∧ key = vc.socketTableKey
  | .handle _ _ _ socketData seg => seg.Addressed socketData key
  | .accept .. | .closeListener .. | .found .. | .acked .. | .closeSent .. => False

/-- Entries are only added, and a handle keeps its key. -/
theorem Fits.mono {localAddr : U32} {names names' : List SocketData} {conns conns' : List VTCPConn}
    {g : Goroutine} (h : g.Fits localAddr names conns) (hn : names <+: names')
    (hc : ∀ (i : ℕ) (vc : VTCPConn), conns[i]? = some vc →
      ∃ vc', conns'[i]? = some vc' ∧ vc'.socketTableKey = vc.socketTableKey) :
    g.Fits localAddr names' conns' := by
  have hkeep : ∀ {p : ℕ} {key : SocketData}, names[p]? = some key → names'[p]? = some key := by
    intro p key hp
    exact getElem?_of_prefix hn hp
  cases g with
  | connect | close | closeSent | acked | send | waitTimeout | waitForAckReceiver => exact hkeep h
  | write p i pc =>
    obtain ⟨vc, hvc, hp⟩ := h
    obtain ⟨vc', hvc', hkey⟩ := hc i vc hvc
    exact ⟨vc', hvc', hkey ▸ hkeep hp⟩
  | connected | found | handle => exact ⟨hkeep h.1, h.2⟩
  | read | initCC | closed | waitForClosed => exact lt_of_lt_of_le h hn.length_le
  | accept | closeListener => trivial

end Goroutine

/-- What a step may be about: entry `p`, stored under `key`. A call is about the entry of its
handle, a goroutine about its own, and a segment about that of its connection or of a listener at
its port. -/
def Handler.WorksOn (h : Handler) (p : ℕ) (key : SocketData) : HandlerEvent → Prop
  | .connect destAddr port => key = ⟨h.localAddr, h.currentPort, destAddr, port⟩
  | .read i _ _ | .write i _ | .setCCForSocket i | .vShutdown i _ | .vClose i =>
    ∃ vc, h.conns[i]? = some vc ∧ key = vc.socketTableKey
  | .run k | .signal k _ | .token k | .probe k =>
    ∃ g, h.goroutines[k]? = some g ∧ g.WorksOn h.conns p key
  | .listen _ | .accept _ | .closeListener _ | .receivePacket .. | .ipError .. => False

/-- `names` lists the keys that entries were stored under, in the order of the heap. -/
structure Owned (names : List SocketData) (h : Handler) : Prop where
  length : names.length = h.heap.length
  table : ∀ key p, h.socketTable key = some p → names[p]? = some key
  goroutine : ∀ g ∈ h.goroutines, g.Fits h.localAddr names h.conns
  queue : ∀ p s key, h.tcb? p = some s → names[p]? = some key → s.QueueOf key

section Primitives

variable {names : List SocketData} {h : Handler} {k p q i : ℕ} {key : SocketData} {s t : TCB}
  {gs : List Goroutine} {f : Entry → Entry} {e : Entry} {vc : VTCPConn}

theorem tcb?_setTCB_ne (hne : q ≠ p) : (h.setTCB p s).tcb? q = h.tcb? q := by
  simp [Handler.tcb?, Handler.setTCB, Handler.modify, hne.symm]

theorem tcb?_setTCB_self (hs : (h.setTCB p s).tcb? p = some t) : t = s := by
  unfold Handler.tcb? Handler.setTCB Handler.modify at hs
  simp only [List.getElem?_modify_eq] at hs
  cases he : h.heap[p]? <;> simp_all

theorem tcb?_modify (hf : ∀ e, (f e).tcb = e.tcb) : (h.modify p f).tcb? q = h.tcb? q := by
  unfold Handler.tcb? Handler.modify
  simp only [List.getElem?_modify]
  cases h.heap[q]? with
  | none => rfl
  | some e => by_cases hpq : p = q <;> simp [hpq, hf]

theorem tcb?_store_lt (key : SocketData) (hlt : q < h.heap.length) :
    (h.store key e).tcb? q = h.tcb? q := by
  unfold Handler.tcb? Handler.store
  simp only [List.getElem?_append_left hlt]

theorem tcb?_store_self : (h.store key e).tcb? h.heap.length = e.tcb := by
  simp [Handler.tcb?, Handler.store]

theorem lt_of_tcb? (hs : h.tcb? p = some s) : p < h.heap.length := by
  obtain ⟨e, he, -⟩ := Option.bind_eq_some_iff.mp hs
  exact (List.getElem?_eq_some_iff.mp he).1

namespace Owned

theorem of_init (localAddr : U32) (currentPort : U16) :
    Owned [] (Handler.init localAddr currentPort) :=
  ⟨rfl, by simp [Handler.init], by simp [Handler.init], by simp⟩

theorem name (ho : Owned names h) (hp : p < h.heap.length) : ∃ key, names[p]? = some key :=
  ⟨_, List.getElem?_eq_getElem (ho.length ▸ hp)⟩

theorem fits (ho : Owned names h) {g : Goroutine} (hk : h.goroutines[k]? = some g) :
    g.Fits h.localAddr names h.conns :=
  ho.goroutine g (List.mem_of_getElem? hk)

theorem become (ho : Owned names h) (hg : ∀ g ∈ gs, g.Fits h.localAddr names h.conns) :
    Owned names (h.become k gs) := by
  refine ⟨ho.length, ho.table, fun g hmem => ?_, ho.queue⟩
  rcases List.mem_append.mp hmem with hold | hnew
  · exact ho.goroutine g (List.mem_of_mem_eraseIdx hold)
  · exact hg g hnew

theorem spawn (ho : Owned names h) (hg : ∀ g ∈ gs, g.Fits h.localAddr names h.conns) :
    Owned names (h.spawn gs) := by
  refine ⟨ho.length, ho.table, fun g hmem => ?_, ho.queue⟩
  rcases List.mem_append.mp hmem with hold | hnew
  · exact ho.goroutine g hold
  · exact hg g hnew

theorem setTCB (ho : Owned names h) (hp : names[p]? = some key) (hs : s.QueueOf key) :
    Owned names (h.setTCB p s) := by
  refine ⟨?_, ho.table, ho.goroutine, fun q t key' ht hq => ?_⟩
  · simpa [Handler.setTCB, Handler.modify] using ho.length
  · by_cases hqp : q = p
    · subst hqp
      rw [tcb?_setTCB_self ht, ← Option.some.inj (hp.symm.trans hq)]
      exact hs
    · exact ho.queue q t key' (tcb?_setTCB_ne hqp ▸ ht) hq

theorem modify (ho : Owned names h) (hf : ∀ e, (f e).tcb = e.tcb) : Owned names (h.modify p f) := by
  refine ⟨?_, ho.table, ho.goroutine, fun q t key' ht hq => ?_⟩
  · simpa [Handler.modify] using ho.length
  · exact ho.queue q t key' (tcb?_modify hf ▸ ht) hq

theorem delete (ho : Owned names h) : Owned names (h.delete key) := by
  refine ⟨ho.length, fun key' q hq => ?_, ho.goroutine, ho.queue⟩
  rw [Handler.socketTable_delete] at hq
  split at hq
  · cases hq
  · exact ho.table key' q hq

theorem store (ho : Owned names h) (he : ∀ s, e.tcb = some s → s.QueueOf key) :
    Owned (names ++ [key]) (h.store key e) := by
  have hself : (names ++ [key])[h.heap.length]? = some key := by
    rw [← ho.length]
    exact List.getElem?_concat_length
  refine ⟨?_, fun key' q hq => ?_, fun g hg => ?_, fun q t key' ht hq => ?_⟩
  · simpa [Handler.store] using ho.length
  · rw [Handler.socketTable_store] at hq
    split at hq
    · rename_i hkey
      rw [← Option.some.inj hq, ← hkey]
      exact hself
    · exact getElem?_of_prefix (List.prefix_append _ _) (ho.table key' q hq)
  · exact (ho.goroutine g hg).mono (List.prefix_append _ _) fun i vc hvc => ⟨vc, hvc, rfl⟩
  · by_cases hlt : q < h.heap.length
    · rw [tcb?_store_lt key hlt] at ht
      rw [List.getElem?_append_left (ho.length ▸ hlt)] at hq
      exact ho.queue q t key' ht hq
    · have hle := lt_of_tcb? ht
      have hlen : (h.store key e).heap.length = h.heap.length + 1 := by simp [Handler.store]
      obtain rfl : q = h.heap.length := by omega
      rw [tcb?_store_self] at ht
      rw [← Option.some.inj (hself.symm.trans hq)]
      exact he t ht

/-- The handles may be others as long as each keeps its key. -/
theorem withConns (ho : Owned names h) {conns : List VTCPConn}
    (hc : ∀ (i : ℕ) (vc : VTCPConn), h.conns[i]? = some vc →
      ∃ vc', conns[i]? = some vc' ∧ vc'.socketTableKey = vc.socketTableKey) :
    Owned names { h with conns } :=
  ⟨ho.length, ho.table, fun g hg => (ho.goroutine g hg).mono (List.prefix_refl _) hc, ho.queue⟩

theorem addConn (ho : Owned names h) : Owned names (h.addConn key) := by
  refine ho.withConns fun i vc hvc => ⟨vc, ?_, rfl⟩
  exact getElem?_of_prefix (List.prefix_append _ _) hvc

theorem cancel (ho : Owned names h) (hi : h.conns[i]? = some vc) (noRead noWrite : Bool) :
    Owned names (h.cancel i vc noRead noWrite) := by
  refine ho.withConns fun j vc' hvc' => ?_
  by_cases hij : i = j
  · subst hij
    obtain rfl := Option.some.inj (hi.symm.trans hvc')
    have hlt := (List.getElem?_eq_some_iff.mp hi).1
    exact ⟨_, List.getElem?_set_self hlt, rfl⟩
  · exact ⟨vc', by rw [List.getElem?_set_ne hij]; exact hvc', rfl⟩

end Owned

end Primitives

end TcpIp
