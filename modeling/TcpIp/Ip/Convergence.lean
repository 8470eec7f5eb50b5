import TcpIp.Ip.Topology

/-! Rounds of periodic updates: after `k` of them every node knows the addresses up to `k` hops,
unless a link joins a node to itself. -/
namespace TcpIp.Ip

open Maps Runs

variable {Node : Type*} {T : Topology Node} {s s' : Node → Router} {x z : Node} {a src : Addr}
  {k K now : ℕ} {r : Router} {newEntry : RIPEntry} {entries : List RIPEntry}

/-- An update as it is handled: when, from which address, and with which entries. -/
structure Update where
  now : ℕ
  src : Addr
  entries : List RIPEntry

/-- `u` is what the host at the far end of `interf` sends for it, from the table it has in `s`. -/
structure Hears (T : Topology Node) (s : Node → Router) (interf : LinkInterface) (u : Update) :
    Prop where
  src : u.src = interf.destIPAddress
  entries : ∃ y range, interf.destIPAddress ∈ T.addrs y ∧ Ranges (s y).table range ∧
    u.entries = getSpecificEntries range interf.hostIPAddress

def handleUpdates (own : List Addr) (r : Router) (updates : List Update) : Router :=
  updates.foldl (fun r u => (r.receiveEntries own u.now u.src u.entries).router) r

/-- Every node handles one update over each of its interfaces, in some order. -/
def Round (T : Topology Node) (s : Node → Router) (_ : Unit) (s' : Node → Router) : Prop :=
  ∀ x, ∃ order updates, order.Perm (T.localIFs x) ∧ List.Forall₂ (Hears T s) order updates ∧
    s' x = handleUpdates (T.addrs x) (s x) updates

def Topology.start (T : Topology Node) : Node → Router := fun x => initRoutingTable (T.addrs x)

/-- From any tables there is a round. -/
theorem exists_round (T : Topology Node) (s : Node → Router) : ∃ s', Round T s () s' := by
  have hhears : ∀ x, ∃ updates, List.Forall₂ (Hears T s) (T.localIFs x) updates := by
    intro x
    have hall : ∀ interf ∈ T.localIFs x, ∃ u, Hears T s interf u := by
      intro interf hi
      obtain ⟨y, -, hy⟩ := Topology.far_end hi
      exact ⟨⟨0, interf.destIPAddress, getSpecificEntries (s y).table.entries interf.hostIPAddress⟩,
        rfl, y, _, hy, Ranges.refl, rfl⟩
    generalize T.localIFs x = order at hall
    induction order with
    | nil => exact ⟨[], .nil⟩
    | cons interf order ih =>
      obtain ⟨u, hu⟩ := hall interf List.mem_cons_self
      obtain ⟨updates, hupdates⟩ := ih fun i hi => hall i (List.mem_cons_of_mem interf hi)
      exact ⟨u :: updates, .cons hu hupdates⟩
  choose updates hupdates using hhears
  exact ⟨_, fun x => ⟨T.localIFs x, updates x, List.Perm.refl _, hupdates x, rfl⟩⟩

/-- The bytes of a periodic update are handled as its entries. -/
theorem receivePacket_sendUpdatesMessage {own : List Addr} {neighbor : Addr}
    (h : entries.length ≤ 114) :
    r.receivePacket own now src (bufferData (stripAddress (sendUpdatesMessage neighbor entries))) =
      r.receiveEntries own now src entries := by
  unfold Router.receivePacket sendUpdatesMessage
  rw [decode_arriving h]
  rfl

/-- `e` is the entry for `a` that `x` should have: the true distance, through a nearer neighbour. -/
structure Right (T : Topology Node) (x : Node) (a : Addr) (e : RoutingTableEntry) (n : ℕ) :
    Prop where
  away : T.Away x a n
  cost : e.cost.toNat = n
  own : n = 0 → e.nextHop = a
  hop : n ≠ 0 → ∃ z m, T.graph.Adj x z ∧ e.nextHop ∈ T.addrs z ∧ T.Away z a m ∧ n = m + 1

/-- `x` has right entries only, none beyond `K` hops, and all of them up to `k` hops. -/
structure Knows (T : Topology Node) (k K : ℕ) (x : Node) (r : Router) : Prop where
  watched : r.Watched (T.addrs x)
  right : ∀ a e, r.table.checkRoute a = some e → ∃ n ≤ K, n ≤ 16 ∧ Right T x a e n
  complete : ∀ a n, T.Away x a n → n ≤ k → n ≤ 16 → ∃ e, r.table.checkRoute a = some e

/-- What a node that knows the addresses up to `k` hops may say about one of them. -/
def Says (T : Topology Node) (k : ℕ) (z : Node) (newEntry : RIPEntry) : Prop :=
  newEntry.cost = infinity ∨
    ∃ n ≤ k, n ≤ 15 ∧ T.Away z newEntry.address n ∧ newEntry.cost.toNat = n

/-- Entries stay as they are once they are in the table. -/
def Extends (r r' : Router) : Prop :=
  ∀ a e, r.table.checkRoute a = some e → r'.table.checkRoute a = some e

theorem knows_start : Knows T 0 0 x (T.start x) := by
  refine ⟨watched_initRoutingTable, ?_, ?_⟩
  · intro a e he
    obtain ⟨hown, hhop, hcost⟩ := checkRoute_initRoutingTable he
    refine ⟨0, le_rfl, by omega, Topology.away_zero.mpr hown, by simp [hcost], fun _ => hhop, ?_⟩
    exact fun h => absurd rfl h
  · intro a n haway hn _
    obtain rfl : n = 0 := by omega
    exact checkRoute_initRoutingTable_isSome (Topology.away_zero.mp haway)

/-- A right entry is not changed by what a neighbour truthfully says. -/
theorem Right.not_changed {e : RoutingTableEntry} {n m : ℕ} (hright : Right T x a e n)
    (hadj : T.graph.Adj x z) (hsrc : src ∈ T.addrs z) (haway : T.Away z a m) :
    n ≤ m + 1 ∧ (e.nextHop = src → n = m + 1) := by
  constructor
  · obtain ⟨n', hle, haway'⟩ := haway.of_adj hadj
    have hn := hright.away.unique haway'
    omega
  · intro hhop
    by_cases hzero : n = 0
    · -- an own address is its own next hop, and no other node has it
      have hx : a ∈ T.addrs x := by
        rw [← Topology.away_zero, ← hzero]
        exact hright.away
      have hz : a ∈ T.addrs z := by
        rw [← hright.own hzero, hhop]
        exact hsrc
      exact absurd (Topology.owner_unique hx hz) hadj.ne
    · obtain ⟨z', m', -, hz', haway', rfl⟩ := hright.hop hzero
      obtain rfl := Topology.owner_unique hsrc (hhop ▸ hz')
      rw [haway.unique haway']

/-- What is told below infinity is one hop more than the teller's distance, without overflow. -/
theorem Says.cost_succ (htold : Says T k z newEntry) (hne : newEntry.cost ≠ infinity) :
    ∃ n ≤ k, n ≤ 15 ∧ T.Away z newEntry.address n ∧ (newEntry.cost + 1).toNat = n + 1 := by
  obtain ⟨n, hnk, hn, haway, hc⟩ := htold.resolve_left hne
  refine ⟨n, hnk, hn, haway, ?_⟩
  have hone : (1 : U32).toNat = 1 := rfl
  rw [BitVec.toNat_add, hc]
  omega

theorem extends_add (hnone : r.table.checkRoute newEntry.address = none) :
    Extends r (r.commit now src newEntry .add) := by
  intro a e he
  rw [checkRoute_commit_add, if_neg]
  · exact he
  · rintro rfl
    rw [hnone] at he
    cases he

/-- An address that was not in the table comes in with its right entry. -/
theorem Knows.add (hk : Knows T k (k + 1) x r) (hadj : T.graph.Adj x z)
    (hsrc : src ∈ T.addrs z) (htold : Says T k z newEntry) (hne : newEntry.cost ≠ infinity)
    (hnone : r.table.checkRoute newEntry.address = none) :
    Knows T k (k + 1) x (r.commit now src newEntry .add) := by
  obtain ⟨m, hmk, hm, haway, hc⟩ := htold.cost_succ hne
  obtain ⟨n, hnm, hxaway⟩ := haway.of_adj hadj
  -- what is not known yet is more than `k` hops away, so this is a shortest way to it
  have hn : n = m + 1 := by
    by_contra hlt
    obtain ⟨e, he⟩ := hk.complete _ n hxaway (by omega) (by omega)
    rw [hnone] at he
    cases he
  refine ⟨hk.watched.commit, ?_, ?_⟩
  · intro a e he
    rw [checkRoute_commit_add] at he
    split at he
    · rename_i haddr
      cases he
      subst haddr
      exact ⟨n, by omega, by omega, hxaway, by rw [hc, hn], fun hzero => by omega,
        fun _ => ⟨z, m, hadj, hsrc, haway, hn⟩⟩
    · exact hk.right a e he
  · intro a n haway hnk hn
    obtain ⟨e, he⟩ := hk.complete a n haway hnk hn
    exact ⟨e, extends_add hnone a e he⟩

/-- The commit for one truthful entry adds at most the right entry for its address. -/
theorem knows_commit (now : ℕ) (hk : Knows T k (k + 1) x r) (hadj : T.graph.Adj x z)
    (hsrc : src ∈ T.addrs z) (htold : Says T k z newEntry) :
    Knows T k (k + 1) x (r.commit now src newEntry (verdict r.table src newEntry)) ∧
      Extends r (r.commit now src newEntry (verdict r.table src newEntry)) ∧
      (newEntry.cost ≠ infinity → ∃ e, (r.commit now src newEntry
        (verdict r.table src newEntry)).table.checkRoute newEntry.address = some e) := by
  have hv := decides_verdict r.table src newEntry
  generalize verdict r.table src newEntry = v at hv
  cases hv with
  | infinite h => exact ⟨hk, fun _ _ he => he, fun hne => absurd h hne⟩
  | worse _ hold _ _ => exact ⟨hk, fun _ _ he => he, fun _ => ⟨_, hold⟩⟩
  | same _ hold _ => exact ⟨hk, fun _ _ he => he, fun _ => ⟨_, hold⟩⟩
  | @changes old hne hold hchange =>
    exfalso
    obtain ⟨m, -, -, haway, hc⟩ := htold.cost_succ hne
    obtain ⟨n, -, -, hright⟩ := hk.right _ _ hold
    obtain ⟨hle, hhop⟩ := hright.not_changed hadj hsrc haway
    have hn := hright.cost
    rcases hchange with hlt | ⟨hgt, heq⟩
    · rw [BitVec.lt_def] at hlt
      omega
    · rw [BitVec.lt_def] at hgt
      have := hhop heq
      omega
  | unknown hne hnone =>
    refine ⟨hk.add hadj hsrc htold hne hnone, extends_add hnone, fun _ => ?_⟩
    rw [checkRoute_commit_add, if_pos rfl]
    exact ⟨_, rfl⟩

theorem knows_receiveEntry (now : ℕ) (hk : Knows T k (k + 1) x r) (hadj : T.graph.Adj x z)
    (hsrc : src ∈ T.addrs z) (htold : Says T k z newEntry) :
    Knows T k (k + 1) x (r.receiveEntry (T.addrs x) now src newEntry).1 ∧
      Extends r (r.receiveEntry (T.addrs x) now src newEntry).1 ∧
      (newEntry.cost ≠ infinity → ∃ e, (r.receiveEntry (T.addrs x) now src
        newEntry).1.table.checkRoute newEntry.address = some e) := by
  have htable : (r.receiveEntry (T.addrs x) now src newEntry).1.table =
      (r.commit now src newEntry (verdict r.table src newEntry)).table := receiveEntry_table
  obtain ⟨hknows, hextends, hknown⟩ := knows_commit now hk hadj hsrc htold
  unfold Extends at hextends ⊢
  rw [htable]
  refine ⟨⟨hk.watched.receiveEntry, ?_, ?_⟩, hextends, hknown⟩
  · rw [htable]
    exact hknows.right
  · rw [htable]
    exact hknows.complete

/-- After a truthful message its addresses are known, and nothing known has changed. -/
theorem knows_receiveEntries (now : ℕ) (hk : Knows T k (k + 1) x r) (hadj : T.graph.Adj x z)
    (hsrc : src ∈ T.addrs z) (htold : ∀ e ∈ entries, Says T k z e) :
    Knows T k (k + 1) x (r.receiveEntries (T.addrs x) now src entries).router ∧
      Extends r (r.receiveEntries (T.addrs x) now src entries).router ∧
      ∀ e ∈ entries, e.cost ≠ infinity → ∃ e', (r.receiveEntries (T.addrs x) now src
        entries).router.table.checkRoute e.address = some e' := by
  induction entries generalizing r with
  | nil => exact ⟨hk, fun _ _ he => he, by simp⟩
  | cons newEntry entries ih =>
    obtain ⟨hknows, hextends, hknown⟩ :=
      knows_receiveEntry now hk hadj hsrc (htold newEntry List.mem_cons_self)
    obtain ⟨hknows', hextends', hknown'⟩ :=
      ih hknows fun e he => htold e (List.mem_cons_of_mem newEntry he)
    rw [(receiveEntries_cons entries hk.watched.receiveEntry_returns).1]
    refine ⟨hknows', fun a e he => hextends' a e (hextends a e he), ?_⟩
    intro e he hcost
    rcases List.mem_cons.mp he with rfl | he
    · obtain ⟨e', he'⟩ := hknown hcost
      exact ⟨e', hextends' _ e' he'⟩
    · exact hknown' e he hcost

/-- The update heard over an interface comes from a neighbour, and it is truthful. -/
theorem Hears.truthful {interf : LinkInterface} {u : Update} (hT : T.Loopless)
    (hu : Hears T s interf u) (hi : interf ∈ T.localIFs x) (hs : ∀ y, Knows T k k y (s y)) :
    ∃ z, T.graph.Adj x z ∧ u.src ∈ T.addrs z ∧ ∀ e ∈ u.entries, Says T k z e := by
  obtain ⟨z, hlink, hdest⟩ := Topology.far_end hi
  have hsrc : u.src ∈ T.addrs z := hu.src ▸ hdest
  have hne : x ≠ z := by
    rintro rfl
    exact hT x hlink
  refine ⟨z, ⟨hne, hlink⟩, hsrc, ?_⟩
  intro e he
  obtain ⟨y, range, hy, hrange, hentries⟩ := hu.entries
  obtain rfl := Topology.owner_unique (hu.src ▸ hy) hsrc
  rw [hentries, mem_getSpecificEntries hrange] at he
  obtain ⟨a, entry, hentry, hcost, rfl⟩ := he
  obtain ⟨n, hnk, hn, hright⟩ := (hs y).right a entry hentry
  unfold Says
  dsimp only
  split
  · exact Or.inl rfl
  · refine Or.inr ⟨n, hnk, ?_, hright.away, hright.cost⟩
    have hne : entry.cost.toNat ≠ 16 := fun h => hcost (BitVec.eq_of_toNat_eq h)
    have hcost := hright.cost
    omega

/-- Poisoning never hides the shortest way: the nearer neighbour's own next hop is not `x`. -/
theorem exists_hears_nearer (hs : ∀ y, Knows T k k y (s y)) (haway : T.Away x a (k + 1))
    (hk : k ≤ 15) :
    ∃ interf ∈ T.localIFs x, ∀ u, Hears T s interf u →
      ∃ e ∈ u.entries, e.address = a ∧ e.cost ≠ infinity := by
  obtain ⟨z, hadj, hz⟩ := haway.nearer
  obtain ⟨hne, i, hi, j, hj, hhost, -⟩ := hadj
  obtain ⟨entry, hentry⟩ := (hs z).complete a k hz le_rfl (by omega)
  obtain ⟨n, -, -, hright⟩ := (hs z).right a entry hentry
  obtain rfl := hright.away.unique hz
  have hcost : entry.cost ≠ infinity := by
    intro hinf
    have hc := hright.cost
    rw [hinf, toNat_infinity] at hc
    omega
  have hhop : entry.nextHop ≠ i.hostIPAddress := by
    intro heq
    have hx : entry.nextHop ∈ T.addrs x := heq ▸ Topology.mem_addrs hi
    by_cases hzero : n = 0
    · rw [hright.own hzero] at hx
      rw [hzero, Topology.away_zero] at hz
      exact hne (Topology.owner_unique hx hz)
    · obtain ⟨z', m, -, hz', haway', rfl⟩ := hright.hop hzero
      obtain rfl := Topology.owner_unique hx hz'
      have := haway.unique haway'
      omega
  refine ⟨i, hi, ?_⟩
  intro u hu
  obtain ⟨y, range, hy, hrange, hentries⟩ := hu.entries
  have hjz : i.destIPAddress ∈ T.addrs z := hhost ▸ Topology.mem_addrs hj
  obtain rfl := Topology.owner_unique hy hjz
  refine ⟨⟨entry.cost, a, fullMask⟩, ?_, rfl, hcost⟩
  rw [hentries, mem_getSpecificEntries hrange]
  exact ⟨a, entry, hentry, hcost, by rw [if_neg hhop]⟩

/-- After the updates over some of its interfaces a node knows all that was said over them. -/
theorem knows_handleUpdates {order : List LinkInterface} {updates : List Update}
    (hT : T.Loopless) (hs : ∀ y, Knows T k k y (s y)) (hk : Knows T k (k + 1) x r)
    (horder : ∀ interf ∈ order, interf ∈ T.localIFs x)
    (hhears : List.Forall₂ (Hears T s) order updates) :
    Knows T k (k + 1) x (handleUpdates (T.addrs x) r updates) ∧
      Extends r (handleUpdates (T.addrs x) r updates) ∧
      ∀ interf ∈ order, ∃ u, Hears T s interf u ∧ ∀ e ∈ u.entries, e.cost ≠ infinity →
        ∃ e', (handleUpdates (T.addrs x) r updates).table.checkRoute e.address = some e' := by
  induction hhears generalizing r with
  | nil => exact ⟨hk, fun _ _ he => he, by simp⟩
  | @cons interf u order updates hu _ ih =>
    obtain ⟨z, hadj, hsrc, htold⟩ := hu.truthful hT (horder interf List.mem_cons_self) hs
    obtain ⟨hknows, hextends, hknown⟩ := knows_receiveEntries u.now hk hadj hsrc htold
    obtain ⟨hknows', hextends', hknown'⟩ :=
      ih hknows fun i hi => horder i (List.mem_cons_of_mem interf hi)
    refine ⟨hknows', fun a e he => hextends' a e (hextends a e he), ?_⟩
    intro i hi
    rcases List.mem_cons.mp hi with rfl | hi
    · refine ⟨u, hu, ?_⟩
      intro e he hcost
      obtain ⟨e', he'⟩ := hknown e he hcost
      exact ⟨e', hextends' _ e' he'⟩
    · exact hknown' i hi

/-- A round takes every node one hop further. -/
theorem knows_round (hT : T.Loopless) (hs : ∀ y, Knows T k k y (s y))
    (hround : Round T s () s') : Knows T (k + 1) (k + 1) x (s' x) := by
  obtain ⟨order, updates, hperm, hhears, heq⟩ := hround x
  have hk : Knows T k (k + 1) x (s x) := by
    refine ⟨(hs x).watched, ?_, (hs x).complete⟩
    intro a e he
    obtain ⟨n, hn, hright⟩ := (hs x).right a e he
    exact ⟨n, by omega, hright⟩
  obtain ⟨hknows, hextends, hknown⟩ :=
    knows_handleUpdates hT hs hk (fun i hi => hperm.mem_iff.mp hi) hhears
  rw [← heq] at hknows hknown
  refine ⟨hknows.watched, hknows.right, ?_⟩
  intro a n haway hn hn16
  by_cases hle : n ≤ k
  · exact hknows.complete a n haway hle hn16
  · obtain rfl : n = k + 1 := by omega
    obtain ⟨i, hi, hnearer⟩ := exists_hears_nearer hs haway (by omega)
    obtain ⟨u, hu, hsaid⟩ := hknown i (hperm.mem_iff.mpr hi)
    obtain ⟨e, he, rfl, hcost⟩ := hnearer u hu
    exact hsaid e he hcost

theorem knows_run {tr : List (Move (Node → Router) Unit)} (hT : T.Loopless)
    (hr : Run (Round T) T.start tr s) : ∀ x, Knows T tr.length tr.length x (s x) := by
  induction hr with
  | nil => exact fun x => knows_start
  | snoc _ hround ih =>
    intro x
    rw [List.length_append, List.length_singleton]
    exact knows_round hT ih hround

/-- What the nodes should have after `k` rounds: the exact distance to every address at most `k` and
at most 15 hops away, with a neighbour that is one hop nearer as the next hop. -/
def Converged (T : Topology Node) (k : ℕ) (s : Node → Router) : Prop :=
  ∀ x y a (d : ℕ), a ∈ T.addrs y → T.graph.edist x y = d → d ≤ k → d ≤ 15 →
    ∃ e, (s x).table.checkRoute a = some e ∧ e.cost.toNat = d ∧
      (0 < d → ∃ z, T.graph.Adj x z ∧ e.nextHop ∈ T.addrs z ∧ T.graph.edist z y = (d - 1 : ℕ))

theorem Knows.converged (h : ∀ x, Knows T k K x (s x)) : Converged T k s := by
  intro x y a d ha hd hk h15
  have haway : T.Away x a d := ⟨y, ha, hd⟩
  obtain ⟨e, he⟩ := (h x).complete a d haway hk (by omega)
  obtain ⟨n, -, -, hright⟩ := (h x).right a e he
  obtain rfl := hright.away.unique haway
  refine ⟨e, he, hright.cost, ?_⟩
  intro hpos
  obtain ⟨z, m, hadj, hz, ⟨y', hy', hm⟩, rfl⟩ := hright.hop (by omega)
  obtain rfl := Topology.owner_unique ha hy'
  exact ⟨z, hadj, hz, by simpa using hm⟩

section SelfLink

variable {own : List Addr} {b : Addr} {e : RoutingTableEntry}

/-- `b` is in the table, with itself as next hop where it has no cost. -/
def Kept (b : Addr) (r : Router) : Prop :=
  ∃ e, r.table.checkRoute b = some e ∧ (e.cost = 0 → e.nextHop = b)

/-- `b` is in the table with a cost. -/
def Raised (b : Addr) (r : Router) : Prop := ∃ e, r.table.checkRoute b = some e ∧ e.cost ≠ 0

/-- An entry takes over the cost it is told, or it stays; what the next hop tells is taken over. -/
theorem checkRoute_receiveEntry (own : List Addr) (now : ℕ) (src : Addr) (newEntry : RIPEntry)
    (he : r.table.checkRoute b = some e) :
    ∃ e', (r.receiveEntry own now src newEntry).1.table.checkRoute b = some e' ∧
      (e'.cost = newEntry.cost + 1 ∨
        e' = e ∧ (newEntry.address = b → newEntry.cost ≠ infinity → e.nextHop ≠ src)) := by
  rw [receiveEntry_table]
  have hv := decides_verdict r.table src newEntry
  generalize verdict r.table src newEntry = v at hv
  cases hv with
  | infinite h => exact ⟨e, he, Or.inr ⟨rfl, fun _ hne => absurd h hne⟩⟩
  | unknown _ hnone =>
    have hb : b ≠ newEntry.address := by
      rintro rfl
      rw [hnone] at he
      cases he
    rw [checkRoute_commit_add, if_neg hb]
    exact ⟨e, he, Or.inr ⟨rfl, fun h => absurd h.symm hb⟩⟩
  | changes =>
    rw [checkRoute_commit_update, he, Option.map_some]
    by_cases hb : b = newEntry.address
    · rw [if_pos hb]
      exact ⟨_, rfl, Or.inl rfl⟩
    · rw [if_neg hb]
      exact ⟨e, rfl, Or.inr ⟨rfl, fun h => absurd h.symm hb⟩⟩
  | worse _ hold _ hhop =>
    refine ⟨e, he, Or.inr ⟨rfl, ?_⟩⟩
    rintro rfl -
    rw [he] at hold
    cases hold
    exact hhop
  | same _ hold hcost =>
    by_cases hb : b = newEntry.address
    · subst hb
      rw [he] at hold
      cases hold
      exact ⟨e, he, Or.inl hcost.symm⟩
    · exact ⟨e, he, Or.inr ⟨rfl, fun h => absurd h.symm hb⟩⟩

theorem raised_receiveEntry (own : List Addr) (now : ℕ) (src : Addr) (hk : Kept b r)
    (hcost : newEntry.cost + 1 ≠ 0) :
    Kept b (r.receiveEntry own now src newEntry).1 ∧
      (Raised b r → Raised b (r.receiveEntry own now src newEntry).1) ∧
      (newEntry.address = b → newEntry.cost ≠ infinity → src = b →
        Raised b (r.receiveEntry own now src newEntry).1) := by
  obtain ⟨e, he, hown⟩ := hk
  obtain ⟨e', he', htold | ⟨rfl, hstays⟩⟩ :=
    checkRoute_receiveEntry own now src newEntry he
  · have hne : e'.cost ≠ 0 := htold ▸ hcost
    exact ⟨⟨e', he', fun h => absurd h hne⟩, fun _ => ⟨e', he', hne⟩, fun _ _ _ => ⟨e', he', hne⟩⟩
  · refine ⟨⟨e', he', hown⟩, ?_, ?_⟩
    · rintro ⟨e, hold, hne⟩
      rw [he] at hold
      cases hold
      exact ⟨e', he', hne⟩
    · intro haddr hne hsrc
      refine ⟨e', he', fun hzero => hstays haddr hne ?_⟩
      rw [hown hzero, hsrc]

/-- An address gets a cost from a message that comes from it and tells about it. -/
theorem raised_receiveEntries (now : ℕ) (src : Addr) (hk : Kept b r) (hw : r.Watched own)
    (hcost : ∀ e ∈ entries, e.cost + 1 ≠ 0) :
    Kept b (r.receiveEntries own now src entries).router ∧
      (r.receiveEntries own now src entries).router.Watched own ∧
      (Raised b r → Raised b (r.receiveEntries own now src entries).router) ∧
      ((∃ e ∈ entries, e.address = b ∧ e.cost ≠ infinity) → src = b →
        Raised b (r.receiveEntries own now src entries).router) := by
  induction entries generalizing r with
  | nil => exact ⟨hk, hw, fun h => h, by simp⟩
  | cons newEntry entries ih =>
    obtain ⟨hkept, hraised, htold⟩ :=
      raised_receiveEntry own now src hk (hcost newEntry List.mem_cons_self)
    obtain ⟨hkept', hwatched', hraised', htold'⟩ :=
      ih hkept hw.receiveEntry fun e he => hcost e (List.mem_cons_of_mem newEntry he)
    rw [(receiveEntries_cons entries hw.receiveEntry_returns).1]
    refine ⟨hkept', hwatched', fun h => hraised' (hraised h), ?_⟩
    rintro ⟨e, he, haddr, hne⟩ hsrc
    rcases List.mem_cons.mp he with rfl | he
    · exact hraised' (htold haddr hne hsrc)
    · exact htold' ⟨e, he, haddr, hne⟩ hsrc

theorem raised_handleUpdates {order : List LinkInterface} {updates : List Update}
    (hk : Kept b r) (hw : r.Watched own)
    (hcost : ∀ interf u, Hears T s interf u → ∀ e ∈ u.entries, e.cost + 1 ≠ 0)
    (hhears : List.Forall₂ (Hears T s) order updates) :
    (Raised b r → Raised b (handleUpdates own r updates)) ∧
      ∀ interf ∈ order, (∀ u, Hears T s interf u →
        u.src = b ∧ ∃ e ∈ u.entries, e.address = b ∧ e.cost ≠ infinity) →
        Raised b (handleUpdates own r updates) := by
  induction hhears generalizing r with
  | nil => exact ⟨fun h => h, by simp⟩
  | @cons interf u order updates hu _ ih =>
    obtain ⟨hkept, hwatched, hraised, htold⟩ :=
      raised_receiveEntries u.now u.src hk hw (hcost interf u hu)
    obtain ⟨hraised', htold'⟩ := ih hkept hwatched
    refine ⟨fun h => hraised' (hraised h), ?_⟩
    intro i hi hheard
    rcases List.mem_cons.mp hi with rfl | hi
    · obtain ⟨hsrc, hentry⟩ := hheard u hu
      exact hraised' (htold hentry hsrc)
    · exact htold' i hi hheard

/-- At first only own addresses are told about, without a cost or poisoned. -/
theorem Hears.start {interf : LinkInterface} {u : Update} (hu : Hears T T.start interf u) :
    ∀ e ∈ u.entries, e.cost + 1 ≠ 0 := by
  intro e he
  obtain ⟨y, range, -, hrange, hentries⟩ := hu.entries
  rw [hentries, mem_getSpecificEntries hrange] at he
  obtain ⟨a, entry, hentry, -, rfl⟩ := he
  obtain ⟨-, -, hcost⟩ := checkRoute_initRoutingTable hentry
  dsimp only
  split
  · decide
  · rw [hcost]
    decide

/-- Over a link to itself a node hears from its own address about that address: the poisoned entry
is the one for the other end. -/
theorem raised_round (hlink : T.Linked x x) (hround : Round T T.start () s') :
    ∃ b ∈ T.addrs x, Raised b (s' x) := by
  obtain ⟨i, hi, j, hj, hhost, -⟩ := hlink
  have hb : j.hostIPAddress ∈ T.addrs x := Topology.mem_addrs hj
  obtain ⟨e, he⟩ := checkRoute_initRoutingTable_isSome hb
  obtain ⟨-, hhop, hcost⟩ := checkRoute_initRoutingTable he
  have hfinite : e.cost ≠ infinity := by
    rw [hcost]
    decide
  obtain ⟨order, updates, hperm, hhears, heq⟩ := hround x
  have hraised := raised_handleUpdates ⟨e, he, fun _ => hhop⟩ watched_initRoutingTable
    (fun _ _ hu => hu.start) hhears
  refine ⟨j.hostIPAddress, hb, ?_⟩
  rw [heq]
  apply hraised.2 i (hperm.mem_iff.mpr hi)
  intro u hu
  obtain ⟨y, range, hy, hrange, hentries⟩ := hu.entries
  rw [← hhost] at hy
  obtain rfl := Topology.owner_unique hb hy
  refine ⟨hu.src.trans hhost.symm, ⟨e.cost, j.hostIPAddress, fullMask⟩, ?_, rfl, hfinite⟩
  rw [hentries, mem_getSpecificEntries hrange]
  refine ⟨_, e, he, hfinite, ?_⟩
  rw [if_neg]
  rw [hhop]
  exact Topology.ends_ne hi hj hhost

end SelfLink

/-- The tables are right after every number of rounds if and only if no link joins a node to
itself. -/
theorem rip_converges_iff :
    (∀ tr s, Run (Round T) T.start tr s → Converged T tr.length s) ↔ T.Loopless := by
  constructor
  · intro hconv x hlink
    obtain ⟨s, hround⟩ := exists_round T T.start
    obtain ⟨b, hb, e, he, hne⟩ := raised_round hlink hround
    obtain ⟨e', he', hcost, -⟩ :=
      hconv _ _ (Run.nil.snoc hround) x x b 0 hb SimpleGraph.edist_self (Nat.zero_le _)
        (Nat.zero_le _)
    rw [he] at he'
    cases he'
    exact hne (BitVec.eq_of_toNat_eq hcost)
  · intro hT tr s hr
    exact Knows.converged (knows_run hT hr)

/-- After two rounds one end of the line has the other end's address 4 at cost 2. -/
theorem rip_converges_iff_line :
    line.Loopless ∧ ∃ tr s, Run (Round line) line.start tr s ∧ tr.length = 2 ∧
      ∃ e, (s 0).table.checkRoute 4 = some e ∧ e.cost.toNat = 2 := by
  have hline : line.Loopless := by
    have hall : ∀ x, ∀ i ∈ lineIFs x, ∀ j ∈ lineIFs x, j.hostIPAddress ≠ i.destIPAddress := by
      decide
    rintro x ⟨i, hi, j, hj, hhost, -⟩
    exact hall x i hi j hj hhost
  obtain ⟨s₁, h₁⟩ := exists_round line line.start
  obtain ⟨s₂, h₂⟩ := exists_round line s₁
  have hr : Run (Round line) line.start _ s₂ := (Run.nil.snoc h₁).snoc h₂
  obtain ⟨e, he, hcost, -⟩ :=
    rip_converges_iff.mpr hline _ _ hr 0 2 4 2 (by decide) line_edist le_rfl (by decide)
  exact ⟨hline, _, s₂, hr, rfl, e, he, hcost⟩

/-- One host with a link from its address 1 to its address 2. -/
def loopedIFs : List LinkInterface := [⟨0, 1, 2, 5000, false⟩, ⟨1, 2, 1, 5000, false⟩]

def looped : Topology Unit where
  localIFs _ := loopedIFs
  distinct := by
    intro x y i j hi hj hij
    have hall : ∀ i ∈ loopedIFs, ∀ j ∈ loopedIFs, i.hostIPAddress = j.hostIPAddress → i = j := by
      decide
    exact ⟨rfl, hall i hi j hj hij⟩
  linked := by
    intro x i hi
    have hall : ∀ i ∈ loopedIFs, ∃ j ∈ loopedIFs, j ≠ i ∧
        j.hostIPAddress = i.destIPAddress ∧ j.destIPAddress = i.hostIPAddress := by decide
    exact ⟨x, hall i hi⟩
  up := by
    intro x i hi
    have hall : ∀ i ∈ loopedIFs, i.stopped = false := by decide
    exact hall i hi

/-- What the host tells itself in the first round, over each interface. -/
def loopedUpdates : List Update :=
  [⟨0, 2, getSpecificEntries (looped.start ()).table.entries 1⟩,
    ⟨0, 1, getSpecificEntries (looped.start ()).table.entries 2⟩]

/-- After one round the host has its own address 2 at cost 1. -/
theorem looped_not_converged :
    ¬ ∀ (Node : Type) [Finite Node] (T : Topology Node) (tr : List (Move (Node → Router) Unit))
      (s : Node → Router), Run (Round T) T.start tr s → Converged T tr.length s := by
  intro h
  have hround : Round looped looped.start ()
      (fun _ => handleUpdates [1, 2] (looped.start ()) loopedUpdates) := by
    intro x
    refine ⟨loopedIFs, loopedUpdates, List.Perm.refl _, ?_, rfl⟩
    have hranges : Ranges (looped.start ()).table (looped.start ()).table.entries := Ranges.refl
    exact .cons ⟨rfl, (), _, by decide, hranges, rfl⟩
      (.cons ⟨rfl, (), _, by decide, hranges, rfl⟩ .nil)
  obtain ⟨e, he, hcost, -⟩ := h Unit looped _ _ (Run.nil.snoc hround) () () 2 0 (by decide)
    SimpleGraph.edist_self (Nat.zero_le _) (Nat.zero_le _)
  have hraised : ((handleUpdates [1, 2] (looped.start ()) loopedUpdates).table.checkRoute 2).map
      RoutingTableEntry.cost = some 1 := by decide
  rw [he, Option.map_some, Option.some.injEq] at hraised
  rw [hraised] at hcost
  exact absurd hcost (by decide)

end TcpIp.Ip
