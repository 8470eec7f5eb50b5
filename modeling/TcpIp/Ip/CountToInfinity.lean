import TcpIp.Ip.RouteTimers

/-! How long a route to an address that is gone can stay in the tables. -/
namespace TcpIp.Ip

open Runs

theorem toNat_succ_cost {cost : U32} (hle : cost ≤ infinity) :
    (cost + 1).toNat = cost.toNat + 1 := by
  have hle' : cost.toNat ≤ 16 := hle
  have hone : (1 : U32).toNat = 1 := rfl
  rw [BitVec.toNat_add]
  omega

section Fading

variable {τ : Timing} {D : Addr} {m t₀ now : ℕ} {n n' : RipNode} {ev : NodeEvent}
  {packets : List RipPacket} {r : Router}

/-- No entry for `D` is below `m`. -/
def AtLeast (D : Addr) (m : ℕ) (entries : List RIPEntry) : Prop :=
  ∀ e ∈ entries, e.address = D → m ≤ e.cost.toNat

/-- From `t₀` on, nothing at the node is below `m` for `D`; so a route that is still at `m` is no
longer refreshed, but for the updates that were looked up before, and its timer runs out. -/
structure Fading (τ : Timing) (D : Addr) (m t₀ : ℕ) (n : RipNode) : Prop where
  table : ∀ e, n.table.checkRoute D = some e → m ≤ e.cost.toNat
  jobs : ∀ j ∈ n.jobs, AtLeast D m j.2.entries
  armed : ∀ e, n.table.checkRoute D = some e → e.cost.toNat = m → m < 16 →
    ∃ w ∈ n.host.router.watchers, w.newEntryAddress = D ∧ w.updateChan = e.updateChan ∧
      w.timeout ≤ t₀ + τ.delay + firstTimeout
  stale : ∀ e, n.table.checkRoute D = some e → e.cost.toNat = m → m < 16 → ∀ j ∈ n.jobs,
    j.2.phase = .refresh e.updateChan ∨ j.2.phase = .commit (.refresh e.updateChan) → j.1 ≤ t₀
  later : ∀ j ∈ n.jobs, t₀ + τ.delay + firstTimeout + τ.slack < j.1 →
    AtLeast D (min 16 (m + 1)) j.2.entries

/-- A route changes to infinity, or to one more than an entry that is being handled. -/
theorem RouterFrom.route (hr : RouterFrom now n r) (hD : D ∉ n.host.own) {e : RoutingTableEntry}
    (he : r.table.checkRoute D = some e) :
    n.table.checkRoute D = some e ∨ e.cost = infinity ∨ ∃ j ∈ n.jobs, ∃ newEntry ∈ j.2.entries,
      newEntry.address = D ∧ e.cost = newEntry.cost + 1 := by
  cases hr with
  | same => exact Or.inl he
  | @commit j newEntry rest v hj hentries hphase =>
    have hmem : newEntry ∈ j.2.entries := hentries ▸ List.mem_cons_self
    cases v with
    | skip | refresh => exact Or.inl he
    | add =>
      rw [checkRoute_commit_add] at he
      split at he
      · rename_i haddr
        cases he
        exact Or.inr (Or.inr ⟨j, hj, newEntry, hmem, haddr.symm, rfl⟩)
      · exact Or.inl he
    | update ch =>
      rw [checkRoute_commit_update] at he
      obtain ⟨old, hold, rfl⟩ := Option.map_eq_some_iff.mp he
      split
      · rename_i haddr
        exact Or.inr (Or.inr ⟨j, hj, newEntry, hmem, haddr.symm, rfl⟩)
      · exact Or.inl hold
  | refresh hj hphase hr =>
    rw [refresh_table hr] at he
    exact Or.inl he
  | timeout hr =>
    obtain ⟨w, -, htable⟩ := expire_table hr
    rw [htable, RoutingTable.checkRoute_updateRoute] at he
    obtain ⟨old, hold, rfl⟩ := Option.map_eq_some_iff.mp he
    split
    · exact Or.inr (Or.inl rfl)
    · exact Or.inl hold
  | down nextHops =>
    rw [RoutingTable.checkRoute_removeNextHops] at he
    obtain ⟨old, hold, rfl⟩ := Option.map_eq_some_iff.mp he
    split
    · exact Or.inr (Or.inl rfl)
    · exact Or.inl hold
  | @up a ha =>
    have hne : D ≠ a := fun hDa => hD (hDa.symm ▸ ha)
    rw [checkRoute_setOwn, if_neg hne] at he
    exact Or.inl he

/-- A timer goes on, or is started again by a job that sends on its channel, or has run out. -/
theorem RouterFrom.watcher (hr : RouterFrom now n r) {w : Watcher}
    (hw : w ∈ n.host.router.watchers) :
    (∃ w' ∈ r.watchers, w'.newEntryAddress = w.newEntryAddress ∧ w'.updateChan = w.updateChan ∧
        (w'.timeout = w.timeout ∨ w'.timeout = now + routeTimeout ∧
          ∃ j ∈ n.jobs, j.2.phase = .refresh w.updateChan)) ∨
      ∀ e, r.table.checkRoute w.newEntryAddress = some e → e.cost = infinity := by
  have hsame : w ∈ r.watchers → ∃ w' ∈ r.watchers, w'.newEntryAddress = w.newEntryAddress ∧
      w'.updateChan = w.updateChan ∧ (w'.timeout = w.timeout ∨ w'.timeout = now + routeTimeout ∧
        ∃ j ∈ n.jobs, j.2.phase = .refresh w.updateChan) :=
    fun hmem => ⟨w, hmem, rfl, rfl, Or.inl rfl⟩
  cases hr with
  | same | down | up => exact Or.inl (hsame hw)
  | @commit j newEntry rest v hj hentries hphase =>
    cases v with
    | skip | refresh | update => exact Or.inl (hsame hw)
    | add => exact Or.inl (hsame (List.mem_append_left _ hw))
  | @refresh j ch router hj hphase hr =>
    unfold Router.refresh at hr
    split at hr
    · cases hr
      refine Or.inl ⟨_, List.mem_map_of_mem hw, ?_⟩
      split
      · rename_i hch
        exact ⟨rfl, rfl, Or.inr ⟨rfl, j, hj, hch ▸ hphase⟩⟩
      · exact ⟨rfl, rfl, Or.inl rfl⟩
    · cases hr
  | @timeout i router hr =>
    unfold Router.expire at hr
    split at hr
    · cases hr
    · rename_i w₀ hw₀
      split at hr
      · cases hr
        by_cases heq : w = w₀
        · subst heq
          right
          intro e he
          rw [RoutingTable.checkRoute_updateRoute] at he
          obtain ⟨old, -, rfl⟩ := Option.map_eq_some_iff.mp he
          rw [if_pos rfl]
        · obtain ⟨k, hk⟩ := List.getElem?_of_mem hw
          have hik : i ≠ k := by
            rintro rfl
            exact heq (Option.some.inj (hk.symm.trans hw₀))
          refine Or.inl (hsame (List.mem_of_getElem? (i := k) ?_))
          rw [List.getElem?_set_ne hik]
          exact hk
      · cases hr

theorem AtLeast.succ {newEntry : RIPEntry} {entries : List RIPEntry} (h : AtLeast D m entries)
    (hmem : newEntry ∈ entries) (haddr : newEntry.address = D)
    (hbounded : newEntry.cost ≤ infinity) : m < (newEntry.cost + 1).toNat := by
  rw [toNat_succ_cost hbounded]
  exact Nat.lt_succ_of_le (h newEntry hmem haddr)

/-- A usable route that is at the lowest cost now was there before. -/
theorem Fading.lowest (h : Fading τ D m t₀ n) (hsane : NodeSane now n)
    (hr : RouterFrom now n r) (hD : D ∉ n.host.own) {e : RoutingTableEntry}
    (he : r.table.checkRoute D = some e) :
    n.table.checkRoute D = some e ∨ e.cost = infinity ∨ m < e.cost.toNat := by
  rcases hr.route hD he with hold | hinf | ⟨j, hj, newEntry, hmem, haddr, hcost⟩
  · exact Or.inl hold
  · exact Or.inr (Or.inl hinf)
  · obtain ⟨dest, -, hjobs⟩ := hsane.labels
    rw [hcost]
    exact Or.inr (Or.inr ((h.jobs j hj).succ hmem haddr ((hjobs j hj).bounded newEntry hmem)))

theorem Fading.kept (h : Fading τ D m t₀ n) (hsane : NodeSane now n) (hr : RouterFrom now n r)
    (hD : D ∉ n.host.own) {e : RoutingTableEntry} (he : r.table.checkRoute D = some e)
    (hcost : e.cost.toNat = m) (hm : m < 16) : n.table.checkRoute D = some e := by
  rcases h.lowest hsane hr hD he with hold | hinf | hlt
  · exact hold
  · rw [hinf, toNat_infinity] at hcost
    omega
  · omega

theorem Fading.armed_step (h : Fading τ D m t₀ n) (hsane : NodeSane now n) (hon : n.OnTime τ now)
    (hr : RouterFrom now n r) (hD : D ∉ n.host.own) {e : RoutingTableEntry}
    (he : r.table.checkRoute D = some e) (hcost : e.cost.toNat = m) (hm : m < 16) :
    ∃ w ∈ r.watchers, w.newEntryAddress = D ∧ w.updateChan = e.updateChan ∧
      w.timeout ≤ t₀ + τ.delay + firstTimeout := by
  have hold := h.kept hsane hr hD he hcost hm
  obtain ⟨w, hw, haddr, hch, htimeout⟩ := h.armed e hold hcost hm
  rcases hr.watcher hw with ⟨w', hw', haddr', hch', hsame | ⟨hagain, j, hj, hphase⟩⟩ | hinf
  · exact ⟨w', hw', haddr'.trans haddr, hch'.trans hch, hsame ▸ htimeout⟩
  · -- only an update from before `t₀` can still refresh the route, and it is on time
    refine ⟨w', hw', haddr'.trans haddr, hch'.trans hch, ?_⟩
    have hstale := h.stale e hold hcost hm j hj (Or.inl (hch ▸ hphase))
    have htime := hon.2 j hj
    rw [hagain, firstTimeout, routeTimeout]
    omega
  · rw [hinf e (haddr ▸ he), toNat_infinity] at hcost
    omega

theorem Fading.stale_step (h : Fading τ D m t₀ n) (hsane : NodeSane now n)
    (hs : NodeStep now n ev n' packets) (hD : D ∉ n.host.own) {e : RoutingTableEntry}
    (he : n'.table.checkRoute D = some e) (hcost : e.cost.toNat = m) (hm : m < 16) {j : ℕ × Job}
    (hmem : j ∈ n'.jobs) (hphase : j.2.phase = .refresh e.updateChan ∨
      j.2.phase = .commit (.refresh e.updateChan)) : j.1 ≤ t₀ := by
  have hold := h.kept hsane hs.router.2 hD he hcost hm
  obtain ⟨dest, hlabel, hjobs⟩ := hsane.labels
  cases hs.jobs hmem with
  | kept hj => exact h.stale e hold hcost hm j hj hphase
  | arrived => simp at hphase
  | next _ _ hcheck => simp [hcheck] at hphase
  | @checked j job newEntry rest hj hentries hsame hverdict =>
    -- the route would be one above the entry that is looked up, and so above the lowest cost
    exfalso
    rw [hverdict] at hphase
    have hv := decides_verdict n.table job.nextHop newEntry
    generalize verdict n.table job.nextHop newEntry = v at hv hphase
    cases hv with
    | infinite | unknown | worse | changes => simp at hphase
    | @same old _ hold' hsucc =>
      simp only [reduceCtorEq, Phase.commit.injEq, Verdict.refresh.injEq, false_or] at hphase
      have haddr : newEntry.address = D := by
        rw [← (hlabel _ _ hold').2, hphase]
        exact (hlabel _ _ hold).2
      rw [haddr, hold] at hold'
      cases hold'
      have hin : newEntry ∈ j.2.entries := hentries ▸ List.mem_cons_self
      have hlt := (h.jobs j hj).succ hin haddr ((hjobs j hj).bounded newEntry hin)
      rw [hsucc] at hlt
      omega
  | @committed j job newEntry rest v ch hj hentries hcommit hrefreshes hsame hrefresh hrouter =>
    rw [hrefresh] at hphase
    simp only [Phase.refresh.injEq, reduceCtorEq, or_false] at hphase
    subst hphase
    rcases (Verdict.refreshes_eq_some hrefreshes).1 with rfl | rfl
    · -- the job has just raised the route
      exfalso
      have hin : newEntry ∈ j.2.entries := hentries ▸ List.mem_cons_self
      have haddr : newEntry.address = D := by
        rw [← ((hjobs j hj).chan _ newEntry rest (by rw [hcommit]; rfl) hentries).2]
        exact (hlabel _ _ hold).2
      have hlt := (h.jobs j hj).succ hin haddr ((hjobs j hj).bounded newEntry hin)
      rw [RipNode.table, hrouter, checkRoute_commit_update] at he
      obtain ⟨old, -, rfl⟩ := Option.map_eq_some_iff.mp he
      rw [if_pos haddr.symm] at hcost
      exact absurd hcost hlt.ne'
    · exact h.stale e hold hcost hm j hj (Or.inr hcommit)

theorem Fading.step (h : Fading τ D m t₀ n) (hm : m ≤ 16) (hsane : NodeSane now n)
    (hon : n.OnTime τ now) (hs : NodeStep now n ev n' packets) (hD : D ∉ n.host.own)
    (hdeliver : ∀ sent p, ev = .deliver sent p →
      AtLeast D m (decode (bufferData p.data)).entries ∧
        (t₀ + τ.delay + firstTimeout + τ.slack < sent →
          AtLeast D (min 16 (m + 1)) (decode (bufferData p.data)).entries)) :
    Fading τ D m t₀ n' where
  table e he := by
    rcases h.lowest hsane hs.router.2 hD he with hold | hinf | hlt
    · exact h.table e hold
    · rw [hinf, toNat_infinity]
      exact hm
    · exact hlt.le
  jobs j hmem := by
    rcases hs.heard hmem with ⟨j', hj', -, hsub⟩ | ⟨p, hev, hentries⟩
    · exact fun e he => h.jobs j' hj' e (hsub he)
    · rw [hentries]
      exact (hdeliver _ p hev).1
  armed e he hcost hlt := h.armed_step hsane hon hs.router.2 hD he hcost hlt
  stale e he hcost hlt j hmem hphase := h.stale_step hsane hs hD he hcost hlt hmem hphase
  later j hmem hlate := by
    rcases hs.heard hmem with ⟨j', hj', hsent, hsub⟩ | ⟨p, hev, hentries⟩
    · exact fun e he => h.later j' hj' (hsent ▸ hlate) e (hsub he)
    · rw [hentries]
      exact (hdeliver _ p hev).2 hlate

/-- Once nothing is below `m`, the routes at `m` begin to run out. -/
theorem NodeSane.fading (h : NodeSane now n) (hD : D ∉ n.host.own)
    (htable : ∀ e, n.table.checkRoute D = some e → m ≤ e.cost.toNat)
    (hjobs : ∀ j ∈ n.jobs, AtLeast D m j.2.entries) : Fading τ D m now n where
  table := htable
  jobs := hjobs
  armed e he _ _ := by
    obtain ⟨w, hw, haddr, hch⟩ := h.watched D e he hD
    have htimer := h.timers w hw
    exact ⟨w, hw, haddr, hch, by omega⟩
  stale _ _ _ _ j hj _ := h.sent j hj
  later j hj hlate := by
    have hsent := h.sent j hj
    omega

/-- When the timers have run out, no route is left at the lowest cost. -/
theorem Fading.above (h : Fading τ D m t₀ n) (hon : n.OnTime τ now)
    (hlate : t₀ + τ.delay + firstTimeout + τ.slack < now) {e : RoutingTableEntry}
    (he : n.table.checkRoute D = some e) : min 16 (m + 1) ≤ e.cost.toNat := by
  have hle := h.table e he
  by_contra hlow
  obtain ⟨w, hw, -, -, htimeout⟩ := h.armed e he (by omega) (by omega)
  have htime := hon.1 w hw
  omega

end Fading

section Network

variable {Node : Type*} {config : Node → List LinkInterface} {τ : Timing} {D : Addr} {m t₀ : ℕ}
  {s s' : ClockedNet Node}

theorem fading_start {localIFs : List LinkInterface} (hD : D ∉ ownAddrs localIFs) :
    Fading τ D m t₀ (.start localIFs) := by
  have hnone : ∀ e, (RipNode.start localIFs).table.checkRoute D ≠ some e :=
    fun e he => hD (checkRoute_initRoutingTable he).1
  exact ⟨fun e he => absurd he (hnone e), fun j hj => (by cases hj),
    fun e he => absurd he (hnone e), fun e he => absurd he (hnone e), fun j hj => (by cases hj)⟩

/-- The level of `D` in the whole network, packets included. -/
structure NetFading (config : Node → List LinkInterface) (τ : Timing) (D : Addr) (m t₀ : ℕ)
    (s : ClockedNet Node) : Prop where
  sane : NetSane config τ s
  gone : ∀ x, s.alive x = true → D ∉ ownAddrs (config x)
  node : ∀ x, s.alive x = true → Fading τ D m t₀ (s.node x)
  fresh : ∀ p ∈ s.wire, s.clock ≤ p.1 + τ.delay →
    AtLeast D m (decode (bufferData p.2.data)).entries
  later : ∀ p ∈ s.wire, t₀ + τ.delay + firstTimeout + τ.slack < p.1 →
    AtLeast D (min 16 (m + 1)) (decode (bufferData p.2.data)).entries

/-- How long a level lasts: a late update, the timer that it started, and the updates that were
still made from the route. -/
def Timing.level (τ : Timing) : ℕ := 2 * τ.delay + τ.slack + firstTimeout + 1

theorem NetFading.next (h : NetFading config τ D m t₀ s) (hm : m < 16)
    (hlate : s.clock = t₀ + τ.level) : NetFading config τ D (m + 1) s.clock s := by
  have hmin : min 16 (m + 1) = m + 1 := by omega
  unfold Timing.level at hlate
  refine ⟨h.sane, h.gone, fun x hx => ?_, fun p hp htime => ?_, fun p hp hafter => ?_⟩
  · have hnode := h.node x hx
    have hon := h.sane.onTime x hx
    refine (h.sane.node x hx).fading (h.sane.own x hx ▸ h.gone x hx) ?_ ?_
    · intro e he
      rw [← hmin]
      exact hnode.above hon (by omega) he
    · intro j hj
      rw [← hmin]
      have htime := hon.2 j hj
      exact hnode.later j hj (by omega)
  · rw [← hmin]
    exact h.later p hp (by omega)
  · have hsent := (h.sane.wire p hp).1
    omega

variable [DecidableEq Node] {ev : ClockedEvent Node}

/-- What a node says of `D` is at least what its table holds. -/
theorem NodeStep.atLeast {now k : ℕ} {n n' : RipNode} {ev : NodeEvent}
    {packets : List RipPacket} {p : RipPacket} (hs : NodeStep now n ev n' packets)
    (hp : p ∈ packets) (hD : D ≠ 0) (hk : k ≤ 16)
    (htable : ∀ e, n.table.checkRoute D = some e → k ≤ e.cost.toNat) :
    AtLeast D k (decode (bufferData p.data)).entries := by
  rintro e he rfl
  rcases hs.said hp he with ⟨-, hzero⟩ | ⟨a, entry, hentry, hcost, haddr⟩
  · exact absurd hzero hD
  · have ha : e.address = a := haddr.resolve_right hD
    rcases hcost with hcost | hcost
    · rw [hcost]
      exact htable entry (ha ▸ hentry)
    · rw [hcost, toNat_infinity]
      exact hk

theorem NetFading.step (h : NetFading config τ D m t₀ s) (hm : m ≤ 16) (hD : D ≠ 0)
    (hs : ClockedStep config τ s ev s')
    (hgone : ∀ x, s'.alive x = true → D ∉ ownAddrs (config x)) :
    NetFading config τ D m t₀ s' := by
  have hle : s.clock ≤ s'.clock := by
    rcases hs.clock with hsame | ⟨htick, -⟩ <;> omega
  refine ⟨h.sane.step hs, hgone, ?_, fun p hp htime => ?_, fun p hp hlate => ?_⟩
  · refine hs.forall_alive (P := fun _ n => Fading τ D m t₀ n) h.node
      (fun x hx => fading_start (hgone x hx)) ?_
    intro x ev n packets hx hstep hwire hnode
    refine hnode.step hm (h.sane.node x hx) (h.sane.onTime x hx) hstep
      (h.sane.own x hx ▸ h.gone x hx) fun sent p hev => ?_
    obtain ⟨hmem, htime⟩ := hwire sent p hev
    exact ⟨h.fresh _ hmem htime, h.later _ hmem⟩
  · rcases hs.wire hp with hp | ⟨-, x, ev, n, packets, hx, hstep, hp⟩
    · exact h.fresh p hp (hle.trans htime)
    · exact hstep.atLeast hp hD hm (h.node x hx).table
  · rcases hs.wire hp with hp | ⟨hsent, x, ev, n, packets, hx, hstep, hp⟩
    · exact h.later p hp hlate
    · rw [hsent] at hlate
      exact hstep.atLeast hp hD (min_le_left _ _) fun e he =>
        (h.node x hx).above (h.sane.onTime x hx) hlate he

/-- When no running node has the address any more, it takes at most sixteen levels until every
running node holds it for unreachable, and until nothing else can arrive, however updates are lost,
repeated and interleaved, links go up and down, and other nodes come and go. -/
theorem dead_routes_expire {tr tr' : List (Move (ClockedNet Node) (ClockedEvent Node))}
    (hD : D ≠ 0) (hr : Run (ClockedStep config τ) (ClockedNet.init config) tr s)
    (hr' : Run (ClockedStep config τ) s tr' s')
    (hgone : ∀ x, s.alive x = true → D ∉ ownAddrs (config x))
    (hgone' : ∀ y ∈ tr', ∀ x, y.dst.alive x = true → D ∉ ownAddrs (config x))
    (hlate : s.clock + 16 * τ.level ≤ s'.clock) :
    (∀ x e, s'.alive x = true → (s'.node x).table.checkRoute D = some e → e.cost = infinity) ∧
      ∀ p ∈ s'.wire, s'.clock ≤ p.1 + τ.delay → ∀ e ∈ (decode (bufferData p.2.data)).entries,
        e.address = D → e.cost = infinity := by
  have hsane : NetSane config τ s := netSane_run netSane_init hr
  have hstart : NetFading config τ D 0 s.clock s := by
    refine ⟨hsane, hgone, fun x hx => ?_, fun _ _ _ _ _ _ => Nat.zero_le _, fun p hp hafter => ?_⟩
    · exact (hsane.node x hx).fading (hsane.own x hx ▸ hgone x hx) (fun _ _ => Nat.zero_le _)
        fun _ _ _ _ _ => Nat.zero_le _
    · have hsent := (hsane.wire p hp).1
      omega
  obtain ⟨t₀, hend⟩ := hr'.escalates ClockedNet.clock
    (I := NetFading config τ D) (N := 16) (d := τ.level) hstart hgone' (Nat.succ_pos _)
    (fun t e u hs => by rcases hs.clock with hsame | ⟨htick, -⟩ <;> omega)
    (fun m t₀ t e u hm h hs hx => h.step hm hD hs hx) (fun m t₀ t hm h hnow => h.next hm hnow) hlate
  have htop : ∀ {cost : U32}, cost ≤ infinity → 16 ≤ cost.toNat → cost = infinity :=
    fun hle hge => BitVec.eq_of_toNat_eq (Nat.le_antisymm hle hge)
  refine ⟨fun x e hx he => ?_, fun p hp htime e he haddr => ?_⟩
  · exact htop ((hend.sane.node x hx).bounded D e he) ((hend.node x hx).table e he)
  · exact htop ((hend.sane.wire p hp).2 e he) (hend.fresh p hp htime e he haddr)

end Network

/-- The far end of the link crashes. -/
theorem dead_routes_expire_pair :
    ∃ s tr s', Run (ClockedStep pairConfig ⟨0, 0⟩) s tr s' ∧
      (s.node true).table.checkRoute 2 = some ⟨2, 1, 1⟩ ∧ s'.clock = 336 ∧
      s'.alive true = true ∧ ∀ e, (s'.node true).table.checkRoute 2 = some e → e.cost = infinity := by
  obtain ⟨tr, s, hr, hclock, halive, hroute, -⟩ := exists_refreshing
  have hcrash := hr.snoc (.crash (x := false))
  obtain ⟨tr', s', hr', hkeep, hclock', halive', -⟩ :=
    (netSane_run netSane_init hcrash).time_passes 336
  have hgone : ∀ x, Function.update s.alive false false x = true → 2 ∉ ownAddrs (pairConfig x) := by
    rw [halive]
    decide
  refine ⟨_, tr', s', hr', hroute, ?_, ?_, ?_⟩
  · rw [hclock']
    simp [hclock]
  · rw [halive']
    simp [halive]
  · have hend := dead_routes_expire (D := 2) (by decide) hcrash hr' hgone
      (fun y hy x hx => hgone x (by rw [hkeep y hy] at hx; exact hx)) hclock'.ge
    exact fun e he => hend.1 true e (by rw [halive']; simp [halive]) he

end TcpIp.Ip
