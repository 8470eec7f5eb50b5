import TcpIp.Ip.RipNetwork
import TcpIp.Lib.Run

/-! No node ever believes, and no message ever says, that an address is nearer than it is. -/
namespace TcpIp.Ip

open Maps Runs Binary

variable {Node : Type*} {T : Topology Node} {x y z : Node} {a : Addr} {c now : ℕ}

/-- A cost that `x` may hold for `a`: at most infinity, and below it no less than the distance. -/
structure Allowed (T : Topology Node) (x : Node) (a : Addr) (c : ℕ) : Prop where
  owned : ∃ y, a ∈ T.addrs y
  le_infinity : c ≤ 16
  far : c < 16 → ∃ n ≤ c, T.Away x a n

theorem allowed_infinity (h : ∃ y, a ∈ T.addrs y) : Allowed T x a 16 :=
  ⟨h, le_rfl, fun hlt => absurd hlt (by omega)⟩

/-- One hop more than the other end of a link may hold. -/
theorem Allowed.of_linked (h : Allowed T z a c) (hc : c ≠ 16) (hlink : T.Linked x z) :
    Allowed T x a (c + 1) := by
  have hle := h.le_infinity
  refine ⟨h.owned, by omega, ?_⟩
  intro hlt
  obtain ⟨n, hn, haway⟩ := h.far (by omega)
  obtain ⟨m, hm, haway'⟩ := haway.of_linked hlink
  exact ⟨m, by omega, haway'⟩

/-- An allowed cost is not below the distance, or 16 if that is smaller. -/
theorem Allowed.min_le (h : Allowed T x a c) (ha : a ∈ T.addrs y) :
    min 16 (T.graph.edist x y) ≤ (c : ℕ∞) := by
  by_cases hlt : c < 16
  · obtain ⟨n, hn, y', hy', hedist⟩ := h.far hlt
    obtain rfl := Topology.owner_unique ha hy'
    rw [hedist]
    exact (min_le_right _ _).trans (by exact_mod_cast hn)
  · refine (min_le_left _ _).trans ?_
    have hle : 16 ≤ c := by omega
    exact_mod_cast hle

def TableSound (T : Topology Node) (x : Node) (table : RoutingTable) : Prop :=
  ∀ a e, table.checkRoute a = some e → Allowed T x a e.cost.toNat

/-- What `z` says in `entries` it may hold itself. -/
def EntriesSound (T : Topology Node) (z : Node) (entries : List RIPEntry) : Prop :=
  ∀ e ∈ entries, Allowed T z e.address e.cost.toNat

/-- A job works on what came over a link, and has not let infinity through. -/
structure JobSound (T : Topology Node) (x : Node) (job : Job) : Prop where
  heard : ∃ z, T.Linked x z ∧ EntriesSound T z job.entries
  finite : ∀ v newEntry rest, job.phase = .commit v → job.entries = newEntry :: rest →
    v.changed = true → newEntry.cost ≠ infinity

structure NodeSound (T : Topology Node) (x : Node) (n : RipNode) : Prop where
  localIFs : n.host.localIFs = T.localIFs x
  table : TableSound T x n.table
  jobs : ∀ j ∈ n.jobs, JobSound T x j.2

/-- A packet goes over a link of `z` and says what `z` may hold. -/
def PacketSound (T : Topology Node) (p : RipPacket) : Prop :=
  ∃ z x, p.src ∈ T.addrs z ∧ p.dst ∈ T.addrs x ∧ T.Linked x z ∧
    EntriesSound T z (decode (bufferData p.data)).entries

structure NetSound (T : Topology Node) (s : RipNet Node) : Prop where
  node : ∀ x, NodeSound T x (s.node x)
  wire : ∀ p ∈ s.wire, PacketSound T p

section Tables

variable {table : RoutingTable} {range : List (Σ _ : Addr, RoutingTableEntry)}

theorem tableSound_start : TableSound T x (initRoutingTable (T.addrs x)).table := by
  intro a e he
  obtain ⟨hown, -, hcost⟩ := checkRoute_initRoutingTable he
  rw [hcost]
  exact ⟨⟨x, hown⟩, by decide, fun _ => ⟨0, by decide, Topology.away_zero.mpr hown⟩⟩

theorem TableSound.updateRoute {dest nextHop : Addr} {newCost : U32} (h : TableSound T x table)
    (hnew : (∃ y, dest ∈ T.addrs y) → Allowed T x dest newCost.toNat) :
    TableSound T x (table.updateRoute dest newCost nextHop) := by
  intro a e he
  rw [RoutingTable.checkRoute_updateRoute] at he
  obtain ⟨old, hold, rfl⟩ := Option.map_eq_some_iff.mp he
  split
  · rename_i haddr
    subst haddr
    exact hnew (h a old hold).owned
  · exact h a old hold

theorem TableSound.addRoute {dest nextHop : Addr} {newCost : U32} {ch : Chan}
    (h : TableSound T x table) (hnew : Allowed T x dest newCost.toNat) :
    TableSound T x (table.addRoute dest newCost nextHop ch) := by
  intro a e he
  rw [RoutingTable.checkRoute_addRoute] at he
  split at he
  · rename_i haddr
    cases he
    rw [haddr]
    exact hnew
  · exact h a e he

theorem TableSound.commit {r : Router} {nextHop : Addr} {newEntry : RIPEntry} {v : Verdict}
    (h : TableSound T x r.table) (hlink : T.Linked x z)
    (htold : Allowed T z newEntry.address newEntry.cost.toNat)
    (hv : v.changed = true → newEntry.cost ≠ infinity) :
    TableSound T x (r.commit now nextHop newEntry v).table := by
  have hnew : v.changed = true → Allowed T x newEntry.address (newEntry.cost + 1).toNat := by
    intro hchanged
    have hne : newEntry.cost.toNat ≠ 16 := fun hc => hv hchanged (BitVec.eq_of_toNat_eq hc)
    have hsucc : (newEntry.cost + 1).toNat = newEntry.cost.toNat + 1 := by
      have hle := htold.le_infinity
      have hone : (1 : U32).toNat = 1 := rfl
      rw [BitVec.toNat_add]
      omega
    rw [hsucc]
    exact htold.of_linked hne hlink
  cases v with
  | skip => exact h
  | refresh _ => exact h
  | add => exact h.addRoute (hnew rfl)
  | update _ => exact h.updateRoute fun _ => hnew rfl

theorem TableSound.expire {r r' : Router} {i : ℕ} (h : TableSound T x r.table)
    (hr : r.expire now i = some r') : TableSound T x r'.table := by
  obtain ⟨w, -, htable⟩ := expire_table hr
  rw [htable]
  exact h.updateRoute fun howned => allowed_infinity howned

theorem TableSound.getAllEntries (h : TableSound T x table) (hrange : Ranges table range) :
    EntriesSound T x (getAllEntries range) := by
  intro e he
  obtain ⟨a, entry, hentry, -, rfl⟩ := (mem_getAllEntries hrange).mp he
  exact h a entry hentry

theorem TableSound.getSpecificEntries {neighbor : Addr} (h : TableSound T x table)
    (hrange : Ranges table range) : EntriesSound T x (getSpecificEntries range neighbor) := by
  intro e he
  obtain ⟨a, entry, hentry, -, rfl⟩ := (mem_getSpecificEntries hrange).mp he
  dsimp only
  split
  · exact allowed_infinity (h a entry hentry).owned
  · exact h a entry hentry

/-- A table has no more entries than the network has addresses. -/
theorem TableSound.length_range [Fintype Node] (h : TableSound T x table)
    (hrange : Ranges table range) : range.length ≤ T.allAddrs.card := by
  have hsub : table.keys.toFinset ⊆ T.allAddrs := by
    intro a ha
    rw [List.mem_toFinset, ← AList.mem_keys, ← AList.lookup_isSome,
      Option.isSome_iff_exists] at ha
    obtain ⟨e, he⟩ := ha
    obtain ⟨y, hy⟩ := (h a e he).owned
    exact Topology.mem_allAddrs hy
  rw [hrange.length_eq, ← List.toFinset_card_of_nodup table.keys_nodup]
  exact Finset.card_le_card hsub

end Tables

section Packets

variable {n n' : RipNode} {ev : NodeEvent} {packets : List RipPacket} {bytes : List U8}
  {p : RipPacket}

theorem readFromHandler_eq_some (h : readFromHandler (T.localIFs x) bytes = some p) :
    p.data = stripAddress bytes ∧ p.src ∈ T.addrs x ∧
      ∃ y, p.dst ∈ T.addrs y ∧ T.Linked y x := by
  unfold readFromHandler at h
  split at h
  · cases h
  · dsimp only at h
    split at h
    · cases h
    · rename_i addr haddr
      split at h
      · cases h
      · split at h
        · cases h
        · cases h
          obtain ⟨interf, hfind, rfl⟩ := Option.map_eq_some_iff.mp haddr
          have hi := List.mem_of_find?_eq_some hfind
          have hdest : interf.destIPAddress = BitVec.ofNat 32 (ofBytes (bytes.take addrSize)) := by
            simpa using List.find?_some hfind
          obtain ⟨y, hlink, hdst⟩ := Topology.far_end hi
          exact ⟨rfl, Topology.mem_addrs hi, y, hdest ▸ hdst, hlink.symm⟩

theorem NodeSound.own (h : NodeSound T x n) : n.host.own = T.addrs x := congrArg ownAddrs h.localIFs

theorem NodeSound.send (h : NodeSound T x n)
    (hbytes : EntriesSound T x (decode (bufferData (stripAddress bytes))).entries) :
    ∀ p ∈ n.send bytes, PacketSound T p := by
  intro p hp
  rw [RipNode.send, h.localIFs, Option.mem_toList] at hp
  obtain ⟨hdata, hsrc, y, hdst, hlink⟩ := readFromHandler_eq_some hp
  exact ⟨x, y, hsrc, hdst, hlink, hdata ▸ hbytes⟩

/-- Messages written field by field from a table reach the other end as they are. -/
theorem NodeSound.advertise [Fintype Node] {range : List (Σ _ : Addr, RoutingTableEntry)}
    {command : U16} {neighbor : Addr} {entries : List RIPEntry} (h : NodeSound T x n)
    (hsize : T.allAddrs.card ≤ 114) (hrange : Ranges n.table range)
    (hlen : entries.length ≤ range.length) (hentries : EntriesSound T x entries) :
    ∀ p ∈ n.send (fieldByField command neighbor entries), PacketSound T p := by
  have hfits : entries.length ≤ 114 := by
    have hcard := h.table.length_range hrange
    omega
  apply h.send
  rw [decode_arriving hfits]
  exact hentries

theorem NodeSound.sends [Fintype Node] (hsize : T.allAddrs.card ≤ 114) (h : NodeSound T x n)
    (hs : NodeStep now n ev n' packets) : ∀ p ∈ packets, PacketSound T p := by
  cases hs with
  | initial range hi hrange =>
    apply h.advertise hsize hrange
    · exact List.length_filterMap_le _ _
    · exact h.table.getAllEntries hrange
  | periodic range hi hrange =>
    apply h.advertise hsize hrange
    · exact List.length_filterMap_le _ _
    · exact h.table.getSpecificEntries hrange
  | triggered hj =>
    -- nothing of a triggered update is read at the other end
    apply h.send
    rw [decode_arriving_triggered]
    intro e he
    cases he
  | deliver | check | commit | refresh | finish | timeout | down | up =>
    intro p hp
    cases hp

end Packets

section Steps

variable {job job' : Job} {n n' : RipNode} {ev : NodeEvent} {packets : List RipPacket}

/-- A job that does not stand before its write has only to go on with what it heard. -/
theorem JobSound.of_subset (h : JobSound T x job) (hsub : job'.entries ⊆ job.entries)
    (hphase : ∀ v, job'.phase ≠ .commit v) : JobSound T x job' := by
  obtain ⟨z, hlink, htold⟩ := h.heard
  refine ⟨⟨z, hlink, fun e he => htold e (hsub he)⟩, ?_⟩
  intro v newEntry rest hcommit
  exact absurd hcommit (hphase v)

theorem NodeSound.jobs_step (h : NodeSound T x n) (hs : NodeStep now n ev n' packets)
    (hwire : ∀ sent p, ev = .deliver sent p → PacketSound T p) :
    ∀ j ∈ n'.jobs, JobSound T x j.2 := by
  intro j hmem
  cases hs.jobs hmem with
  | kept hj => exact h.jobs j hj
  | @arrived sent p hev hdst =>
    obtain ⟨z, x', -, hx', hlink, htold⟩ := hwire sent p hev
    obtain rfl := Topology.owner_unique (h.own ▸ hdst) hx'
    exact ⟨⟨z, hlink, htold⟩, by simp⟩
  | next hj hsub hphase => exact (h.jobs _ hj).of_subset hsub.subset (by simp [hphase])
  | @checked j job newEntry rest hj hentries hsame hphase =>
    refine ⟨?_, fun v newEntry' rest' hv hentries' hchanged => ?_⟩
    · obtain ⟨z, hlink, htold⟩ := (h.jobs j hj).heard
      exact ⟨z, hlink, by rwa [hsame, ← hentries]⟩
    · rw [hphase] at hv
      cases hv
      rw [hsame] at hentries'
      cases hentries'
      exact cost_ne_infinity hchanged
  | committed hj hentries _ _ hsame hphase =>
    exact (h.jobs _ hj).of_subset (by simp [hentries, hsame]) (by simp [hphase])

theorem NodeSound.table_step (h : NodeSound T x n) (hs : NodeStep now n ev n' packets)
    (hstatic : ev.Static) : TableSound T x n'.table := by
  cases hs with
  | initial | periodic | triggered | deliver | check | finish => exact h.table
  | @commit sent job newEntry rest v pre post hj hentries hphase =>
    have hjob := h.jobs (sent, job) (hj ▸ List.mem_append_cons_self)
    obtain ⟨z, hlink, htold⟩ := hjob.heard
    apply h.table.commit hlink
    · exact htold newEntry (hentries ▸ List.mem_cons_self)
    · exact hjob.finite v newEntry rest hphase hentries
  | refresh hj hr =>
    have htable := refresh_table hr
    rw [RipNode.table, RipNode.setRouter, htable]
    exact h.table
  | timeout i hr => exact h.table.expire hr
  | down | up => cases hstatic

end Steps

theorem netSound_start : NetSound T (RipNet.start T) := by
  refine ⟨fun x => ⟨rfl, tableSound_start, ?_⟩, ?_⟩
  · intro j hj
    cases hj
  · intro p hp
    cases hp

variable [DecidableEq Node] [Fintype Node] {s s' : RipNet Node} {i : Node × NodeEvent}

/-- Every step of every goroutine keeps tables, jobs and packets sound. -/
theorem netSound_step (hsize : T.allAddrs.card ≤ 114) (h : NetSound T s) (hs : RipStep s i s') :
    NetSound T s' := by
  cases hs with
  | @act x ev n packets now hs hwire hstatic =>
    have hx := h.node x
    refine ⟨fun y => ?_, fun p hp => ?_⟩
    · by_cases hy : y = x
      · subst hy
        simp only [Function.update_self]
        exact ⟨(hs.localIFs hstatic).trans hx.localIFs, hx.table_step hs hstatic,
          hx.jobs_step hs fun sent p hev => h.wire p (hwire sent p hev)⟩
      · simp only [Function.update_of_ne hy]
        exact h.node y
    · rcases List.mem_append.mp hp with hp | hp
      · exact h.wire p hp
      · exact hx.sends hsize hs p hp

/-- In a static network of at most 114 addresses, whatever the interleaving, the losses and the
timeouts: no table holds and no packet says a cost below the distance, or 16 if that is smaller. -/
theorem rip_sound {tr : List (Move (RipNet Node) (Node × NodeEvent))}
    (hsize : T.allAddrs.card ≤ 114) (hr : Run RipStep (RipNet.start T) tr s) :
    (∀ x y a e, a ∈ T.addrs y → (s.node x).table.checkRoute a = some e →
        min 16 (T.graph.edist x y) ≤ (e.cost.toNat : ℕ∞)) ∧
      ∀ p ∈ s.wire, ∀ x y e, p.src ∈ T.addrs x →
        e ∈ (decode (bufferData p.data)).entries → e.address ∈ T.addrs y →
        min 16 (T.graph.edist x y) ≤ (e.cost.toNat : ℕ∞) := by
  have hsound : NetSound T s :=
    hr.state_inv (P := fun _ => True) netSound_start (fun _ _ => trivial)
      fun t e u ht hs _ => netSound_step hsize ht hs
  constructor
  · intro x y a e ha he
    exact ((hsound.node x).table a e he).min_le ha
  · intro p hp x y e hx he hy
    obtain ⟨z, x', hz, -, -, htold⟩ := hsound.wire p hp
    obtain rfl := Topology.owner_unique hx hz
    exact (htold e he).min_le hy

section Line

/-- What host 1 of the line sends to address 1 at first. -/
def lineUpdate : RipPacket :=
  ⟨2, 1, stripAddress (sendUpdatesMessage 1 [⟨0, 3, fullMask⟩, ⟨0, 2, fullMask⟩])⟩

/-- Host 0 has taken the first entry of the update into its table. -/
theorem exists_line_learned : ∃ tr s, Run RipStep (RipNet.start line) tr s ∧
    (s.node 0).table.checkRoute 3 = some ⟨2, 1, 1⟩ := by
  have r₀ : Run RipStep (RipNet.start line) [] _ := .nil
  have r₁ := r₀.snoc (.act (x := 1) 0
    (@NodeStep.periodic _ _ ⟨0, 2, 1, 5000, false⟩ _ (by decide) Ranges.refl) (by simp) trivial)
  have r₂ := r₁.snoc (.act (x := 0) 0 (@NodeStep.deliver _ _ 0 lineUpdate (by decide))
    (by rintro _ _ ⟨⟩; decide) trivial)
  have r₃ := r₂.snoc (.act (x := 0) 0
    (@NodeStep.check _ _ 0 2 ⟨0, 3, fullMask⟩ [⟨0, 2, fullMask⟩] [] [] [] (by decide)) (by simp)
    trivial)
  have r₄ := r₃.snoc (.act (x := 0) 0
    (@NodeStep.commit _ _ 0 ⟨2, [⟨0, 3, fullMask⟩, ⟨0, 2, fullMask⟩], .commit .add, []⟩
      ⟨0, 3, fullMask⟩ [⟨0, 2, fullMask⟩] .add [] [] (by decide) rfl rfl) (by simp) trivial)
  exact ⟨_, _, r₄, by decide⟩

/-- Host 0 learns address 3 of host 1 from an update it is sent. -/
theorem rip_sound_line :
    line.allAddrs.card ≤ 114 ∧ ∃ tr s, Run RipStep (RipNet.start line) tr s ∧
      ∃ e, (s.node 0).table.checkRoute 3 = some e ∧
        min 16 (line.graph.edist 0 1) ≤ (e.cost.toNat : ℕ∞) := by
  obtain ⟨tr, s, hr, he⟩ := exists_line_learned
  refine ⟨by decide, tr, s, hr, ⟨2, 1, 1⟩, he, ?_⟩
  exact (rip_sound (by decide) hr).1 0 1 3 ⟨2, 1, 1⟩ (by decide) he

end Line

end TcpIp.Ip
