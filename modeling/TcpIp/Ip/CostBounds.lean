import TcpIp.Ip.SoftState

/-! The range of the costs in a routing table. -/
namespace TcpIp.Ip

open Runs

variable {h h' : Host} {ev : HostEvent} {now : ℕ} {r : Router} {src : Addr} {newEntry : RIPEntry}
  {rt : RoutingTable} {tr : List (Move Host HostEvent)} {localIFs : List LinkInterface}

/-- No cost is above infinity. -/
def RoutingTable.Bounded (rt : RoutingTable) : Prop :=
  ∀ dest e, rt.checkRoute dest = some e → e.cost ≤ infinity

/-- A learned route costs more than what was advertised for it. -/
def LearnsMore (x : Move Host HostEvent) : Prop :=
  match x.ev with
  | .rip src newEntry =>
    (verdict x.src.router.table src newEntry).changed = true →
      ∃ e, x.dst.router.table.checkRoute newEntry.address = some e ∧ newEntry.cost < e.cost
  | _ => True

/-- A cost above infinity is advertised, and the handler takes it into the table. -/
def TakesTooMuch (h : Host) : HostEvent → Prop
  | .rip src newEntry =>
    infinity < newEntry.cost ∧ (verdict h.router.table src newEntry).changed = true
  | _ => False

theorem RoutingTable.Bounded.updateRoute (hb : rt.Bounded) {dest nextHop : Addr} {newCost : U32}
    (hcost : newCost ≤ infinity) : (rt.updateRoute dest newCost nextHop).Bounded := by
  intro a e he
  rw [checkRoute_updateRoute] at he
  obtain ⟨old, hold, rfl⟩ := Option.map_eq_some_iff.mp he
  split
  · exact hcost
  · exact hb a old hold

theorem RoutingTable.Bounded.addRoute (hb : rt.Bounded) {dest nextHop : Addr} {cost : U32}
    {ch : Chan} (hcost : cost ≤ infinity) : (rt.addRoute dest cost nextHop ch).Bounded := by
  intro a e he
  rw [checkRoute_addRoute] at he
  split at he
  · cases he
    exact hcost
  · exact hb a e he

theorem RoutingTable.Bounded.removeNextHops (hb : rt.Bounded) (nextHops : List Addr) :
    (rt.removeNextHops nextHops).Bounded := by
  intro a e he
  rw [checkRoute_removeNextHops] at he
  obtain ⟨old, hold, rfl⟩ := Option.map_eq_some_iff.mp he
  split
  · exact BitVec.le_refl infinity
  · exact hb a old hold

theorem RoutingTable.Bounded.commit (hb : r.table.Bounded)
    (hcost : (verdict r.table src newEntry).changed = true → newEntry.cost + 1 ≤ infinity) :
    (r.commit now src newEntry (verdict r.table src newEntry)).table.Bounded := by
  cases hv : verdict r.table src newEntry with
  | add => exact hb.addRoute (hcost (by rw [hv]; rfl))
  | update _ => exact hb.updateRoute (hcost (by rw [hv]; rfl))
  | skip => exact hb
  | refresh _ => exact hb

/-- Adding one keeps a cost below infinity in range and goes up; above infinity it leaves the range
or wraps around. -/
theorem succ_in_range_iff {cost : U32} (hne : cost ≠ infinity) :
    cost + 1 ≤ infinity ∧ cost < cost + 1 ↔ ¬ infinity < cost := by
  have hne' : cost.toNat ≠ 16 := fun heq => hne (BitVec.eq_of_toNat_eq heq)
  have hlt := cost.isLt
  simp only [BitVec.le_def, BitVec.lt_def, BitVec.toNat_add, toNat_infinity]
  rcases Nat.lt_or_ge (cost.toNat + 1) (2 ^ 32) with hfit | hwrap
  · rw [show (1 : U32).toNat = 1 from rfl, Nat.mod_eq_of_lt hfit]
    omega
  · have hmax : cost.toNat = 2 ^ 32 - 1 := by omega
    simp [hmax]

theorem bounded_step_iff (hb : h.router.table.Bounded) (hs : HostStep h ev h') :
    h'.router.table.Bounded ∧ LearnsMore ⟨h, ev, h'⟩ ↔ ¬ TakesTooMuch h ev := by
  obtain ⟨-, hm⟩ := hs.move
  generalize hr : h'.router = r at hm
  cases hm with
  | rip now src newEntry =>
    simp only [LearnsMore, TakesTooMuch, hr]
    rw [receiveEntry_table]
    by_cases hc : (verdict h.router.table src newEntry).changed = true
    · obtain ⟨e, he, hcost, -⟩ := checkRoute_changed now hc
      have hiff := succ_in_range_iff (cost_ne_infinity hc)
      constructor
      · rintro ⟨hb', hmore⟩ ⟨htoo, -⟩
        obtain ⟨e', he', hlt⟩ := hmore hc
        cases he.symm.trans he'
        exact hiff.mp ⟨hcost ▸ hb' _ e he, hcost ▸ hlt⟩ htoo
      · intro hnot
        obtain ⟨hle, hlt⟩ := hiff.mpr fun htoo => hnot ⟨htoo, hc⟩
        exact ⟨hb.commit fun _ => hle, fun _ => ⟨e, he, hcost ▸ hlt⟩⟩
    · exact iff_of_true ⟨hb.commit fun hc' => absurd hc' hc, fun hc' => absurd hc' hc⟩
        fun htoo => hc htoo.2
  | timeout hexp =>
    obtain ⟨w, -, htable⟩ := expire_table hexp
    refine iff_of_true ⟨?_, trivial⟩ id
    rw [htable]
    exact hb.updateRoute (BitVec.le_refl infinity)
  | down n _ => exact iff_of_true ⟨hb.removeNextHops _, trivial⟩ id
  | up n _ => exact iff_of_true ⟨hb.addRoute (by decide), trivial⟩ id

theorem bounded_start : (Host.start localIFs).router.table.Bounded := by
  intro dest e he
  rw [(checkRoute_initRoutingTable he).2.2]
  decide

/-- In a run from a fresh host every cost stays within infinity and every learned cost exceeds the
advertised one, exactly when no advertised cost above infinity is taken into the table. -/
theorem bounded_run_iff (hr : Run HostStep (Host.start localIFs) tr h) :
    (Host.start localIFs).router.table.Bounded ∧
      ((∀ x ∈ tr, x.dst.router.table.Bounded ∧ LearnsMore x) ↔
        ∀ x ∈ tr, ¬ TakesTooMuch x.src x.ev) := by
  refine ⟨bounded_start, ?_⟩
  apply hr.forall_iff (I := fun h => h.router.table.Bounded) (H := fun _ => True) bounded_start
  · exact fun _ _ => trivial
  · exact fun h ev h' hb hs _ hnot => ((bounded_step_iff hb hs).mpr hnot).1
  · exact fun h ev h' hb hs _ => bounded_step_iff hb hs

theorem bounded_run_iff_relearnNine :
    (twoLinksPlay relearnNine).1.length = 3 ∧
      (∀ x ∈ (twoLinksPlay relearnNine).1, ¬ TakesTooMuch x.src x.ev) ∧
      ∀ x ∈ (twoLinksPlay relearnNine).1, x.dst.router.table.Bounded ∧ LearnsMore x := by
  have hnot : ∀ x ∈ (twoLinksPlay relearnNine).1, ¬ TakesTooMuch x.src x.ev := by
    intro x hx
    fin_cases hx <;> simp [TakesTooMuch, infinity]
  exact ⟨by decide, hnot, (bounded_run_iff (twoLinksPlay_run relearnNine)).2.mpr hnot⟩

/-- Neighbour 2 advertises address 9 at cost 17 and address 8 at cost 2³² - 1: they are entered at
costs 18 and 0. -/
theorem cost_above_infinity_taken :
    let out := twoLinksPlay
      [(0, .rip 2 ⟨17, 9, fullMask⟩), (1, .rip 2 ⟨BitVec.allOnes 32, 8, fullMask⟩)]
    out.2.router.table.checkRoute 9 = some ⟨2, 18, 2⟩ ∧
      out.2.router.table.checkRoute 8 = some ⟨2, 0, 3⟩ ∧
      ¬ ∀ (localIFs : List LinkInterface) (tr : List (Move Host HostEvent)) (h : Host),
        Run HostStep (Host.start localIFs) tr h →
          ∀ x ∈ tr, x.dst.router.table.Bounded ∧ LearnsMore x := by
  intro out
  refine ⟨by decide, by decide, ?_⟩
  intro hall
  have hrun := twoLinksPlay_run
    [(0, .rip 2 ⟨17, 9, fullMask⟩), (1, .rip 2 ⟨BitVec.allOnes 32, 8, fullMask⟩)]
  have hfirst := (hall twoLinks _ _ hrun (out.1.get ⟨0, by decide⟩) (List.get_mem _ _)).1
  exact absurd (hfirst 9 ⟨2, 18, 2⟩ (by decide)) (by decide)

end TcpIp.Ip
