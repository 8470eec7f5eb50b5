import TcpIp.Lib.Relax
import TcpIp.Ip.Rip

/-! A received message as offers that the routes it names take in one after the other. -/
namespace TcpIp.Ip

open Relax

variable {own : List Addr} {now : ℕ} {nextHop dest : Addr} {r : Router} {newEntry : RIPEntry}
  {entries : List RIPEntry}

/-- Cost and next hop of a destination. -/
def RoutingTable.route (rt : RoutingTable) (dest : Addr) : Option (ℕ × Addr) :=
  (rt.checkRoute dest).map fun entry => (entry.cost.toNat, entry.nextHop)

/-- What an entry of a message offers for a destination: the cost through its sender. -/
def offer (dest : Addr) (entry : RIPEntry) : Option ℕ :=
  if entry.address = dest ∧ entry.cost < infinity then some (entry.cost.toNat + 1) else none

/-- What a message offers for a destination, entry by entry. -/
def offers (dest : Addr) (entries : List RIPEntry) : List ℕ := entries.filterMap (offer dest)

/-- What every entry keeps holds where the loop leaves off, whether or not it comes to its end. -/
theorem receiveEntries_induction {I : Router → Prop} (h0 : I r)
    (hI : ∀ r, ∀ newEntry ∈ entries, I r → I (r.receiveEntry own now nextHop newEntry).1) :
    I (r.receiveEntries own now nextHop entries).router := by
  induction entries generalizing r with
  | nil => exact h0
  | cons newEntry entries ih =>
    have hstep := hI r newEntry List.mem_cons_self h0
    have hrest := ih hstep fun r e he => hI r e (List.mem_cons_of_mem newEntry he)
    simp only [Router.receiveEntries]
    generalize r.receiveEntry own now nextHop newEntry = out at hstep hrest
    obtain ⟨r', _ | _⟩ := out
    · exact hstep
    · exact hrest

/-- An entry leaves all other destinations alone. -/
theorem checkRoute_receiveEntry_of_ne (h : newEntry.address ≠ dest) :
    (r.receiveEntry own now nextHop newEntry).1.table.checkRoute dest =
      r.table.checkRoute dest := by
  rw [receiveEntry_table]
  cases verdict r.table nextHop newEntry with
  | add => rw [checkRoute_commit_add, if_neg h.symm]
  | update _ =>
    rw [checkRoute_commit_update]
    simp [h.symm]
  | skip => rfl
  | refresh _ => rfl

/-- A destination that no entry names keeps its route. -/
theorem checkRoute_receiveEntries_of_notMem (h : ∀ entry ∈ entries, entry.address ≠ dest) :
    (r.receiveEntries own now nextHop entries).router.table.checkRoute dest =
      r.table.checkRoute dest := by
  apply receiveEntries_induction
    (I := fun r' => r'.table.checkRoute dest = r.table.checkRoute dest) rfl
  intro r' entry hentry hr'
  rw [checkRoute_receiveEntry_of_ne (h entry hentry), hr']

theorem toNat_add_one_of_lt_infinity {cost : U32} (h : cost < infinity) :
    (cost + 1).toNat = cost.toNat + 1 := by
  have hlt : cost.toNat < 16 := h
  rw [BitVec.toNat_add]
  exact Nat.mod_eq_of_lt (by simp; omega)

/-- The branch taken for an entry below infinity takes in its offer. -/
theorem route_receiveEntry_self (h : newEntry.cost < infinity) :
    (r.receiveEntry own now nextHop newEntry).1.table.route newEntry.address =
      relax nextHop (r.table.route newEntry.address) (newEntry.cost.toNat + 1) := by
  have hsucc := toNat_add_one_of_lt_infinity h
  unfold RoutingTable.route
  rw [receiveEntry_table]
  have hv := decides_verdict r.table nextHop newEntry
  generalize verdict r.table nextHop newEntry = v at hv
  cases hv with
  | infinite hinf => exact absurd h (hinf ▸ BitVec.lt_irrefl _)
  | unknown _ hnone =>
    rw [checkRoute_commit_add, if_pos rfl, hnone]
    simp only [Option.map_some, Option.map_none, relax, hsucc]
  | changes _ hold hcost =>
    rw [checkRoute_commit_update, hold]
    simp only [Option.map_some, if_true, relax, hsucc]
    simp only [BitVec.lt_def, hsucc] at hcost
    rcases hcost with hless | ⟨-, hhop⟩
    · simp [hless]
    · simp [hhop]
  | worse _ hold hcost hhop =>
    simp only [BitVec.lt_def, hsucc] at hcost
    change (r.table.checkRoute newEntry.address).map _ = _
    rw [hold]
    simp only [Option.map_some, relax, if_neg hhop]
    rw [if_neg (by omega)]
  | @same old _ hold hcost =>
    have hnat : newEntry.cost.toNat + 1 = old.cost.toNat := by rw [← hsucc, hcost]
    change (r.table.checkRoute newEntry.address).map _ = _
    rw [hold]
    simp only [Option.map_some, relax, hnat, lt_irrefl, if_false]
    split
    · rename_i hhop
      rw [hhop]
    · rfl

/-- An entry that offers nothing leaves the route, any other is taken in. -/
theorem route_receiveEntry (h : newEntry.cost ≤ infinity) :
    (r.receiveEntry own now nextHop newEntry).1.table.route dest =
      ((offer dest newEntry).toList).foldl (relax nextHop) (r.table.route dest) := by
  unfold offer
  split
  · rename_i hoffer
    obtain ⟨rfl, hlt⟩ := hoffer
    exact route_receiveEntry_self hlt
  · rename_i hoffer
    unfold RoutingTable.route
    by_cases hdest : newEntry.address = dest
    · have hinf : newEntry.cost = infinity :=
        BitVec.le_antisymm h (BitVec.not_lt.mp fun hlt => hoffer ⟨hdest, hlt⟩)
      rw [receiveEntry_table, verdict, if_pos hinf]
      rfl
    · rw [checkRoute_receiveEntry_of_ne hdest]
      rfl

/-- Along a message the offers for a destination are taken in one after the other. -/
theorem route_receiveEntries (now : ℕ) (nextHop dest : Addr) (hw : r.Watched own)
    (h : ∀ entry ∈ entries, entry.cost ≤ infinity) :
    (r.receiveEntries own now nextHop entries).returned = true ∧
      (r.receiveEntries own now nextHop entries).router.table.route dest =
        (offers dest entries).foldl (relax nextHop) (r.table.route dest) := by
  induction entries generalizing r with
  | nil => exact ⟨rfl, rfl⟩
  | cons newEntry entries ih =>
    have hreturns : (r.receiveEntry own now nextHop newEntry).2 = true := hw.receiveEntry_returns
    obtain ⟨hrouter, hreturned⟩ := receiveEntries_cons entries hreturns
    have hw' : (r.receiveEntry own now nextHop newEntry).1.Watched own := hw.receiveEntry
    obtain ⟨hrest, hroute⟩ := ih hw' fun entry hentry => h entry (List.mem_cons_of_mem _ hentry)
    rw [hrouter, hreturned]
    refine ⟨hrest, ?_⟩
    rw [hroute, route_receiveEntry (h newEntry List.mem_cons_self), ← List.foldl_append]
    congr 1
    unfold offers
    cases hoffer : offer dest newEntry <;> simp [hoffer]

theorem Router.Watched.receiveEntries (hw : r.Watched own) :
    (r.receiveEntries own now nextHop entries).router.Watched own :=
  receiveEntries_induction (I := Router.Watched own) hw fun _ _ _ hr => hr.receiveEntry

/-- A message with no cost above infinity takes every destination through its offers in turn,
leaves the others alone, and changes nothing when it is handled a second time. -/
theorem receivePacket_relaxes (own : List Addr) (now now' : ℕ) (r : Router) (src : Addr)
    (data : List U8) (hw : r.Watched own)
    (hcost : ∀ entry ∈ (decode data).entries, entry.cost ≤ infinity) :
    let once := r.receivePacket own now src data
    let twice := once.router.receivePacket own now' src data
    once.returned = true ∧ twice.returned = true ∧ ∀ dest,
      once.router.table.route dest =
          (offers dest (decode data).entries).foldl (relax src) (r.table.route dest) ∧
        ((∀ entry ∈ (decode data).entries, entry.address ≠ dest) →
          once.router.table.route dest = r.table.route dest) ∧
        twice.router.table.route dest = once.router.table.route dest := by
  intro once twice
  have hw' : once.router.Watched own := hw.receiveEntries
  have honce := fun dest => route_receiveEntries now src dest hw hcost
  have htwice := fun dest => route_receiveEntries now' src dest hw' hcost
  refine ⟨(honce 0).1, (htwice 0).1, fun dest => ⟨(honce dest).2, ?_, ?_⟩⟩
  · intro hnot
    have hkept : once.router.table.checkRoute dest = r.table.checkRoute dest :=
      checkRoute_receiveEntries_of_notMem hnot
    simp only [RoutingTable.route, hkept]
  · calc twice.router.table.route dest
        = (offers dest (decode data).entries).foldl (relax src) (once.router.table.route dest) :=
          (htwice dest).2
      _ = once.router.table.route dest := by
          rw [show once.router.table.route dest = _ from (honce dest).2]
          exact foldl_relax_idem _ _

/-- Node 1 knows destination 5 at cost 4 through neighbour 2. Neighbour 3 names it twice, at costs
1 and 2: the first beats the route, the second is then followed. -/
theorem receivePacket_relaxes_twice_named :
    let r := ((initRoutingTable [1]).receiveEntry [1] 0 2 ⟨3, 5, fullMask⟩).1
    let data := stripAddress (sendUpdatesMessage 1 [⟨1, 5, fullMask⟩, ⟨2, 5, fullMask⟩])
    r.Watched [1] ∧ (∀ entry ∈ (decode data).entries, entry.cost ≤ infinity) ∧
      r.table.route 5 = some (4, 2) ∧
      (r.receivePacket [1] 1 3 data).router.table.route 5 = some (3, 3) ∧
      ((r.receivePacket [1] 1 3 data).router.receivePacket [1] 2 3 data).router.table.route 5 =
        (r.receivePacket [1] 1 3 data).router.table.route 5 := by
  intro r data
  have hw : r.Watched [1] := watched_initRoutingTable.receiveEntry
  have hcost : ∀ entry ∈ (decode data).entries, entry.cost ≤ infinity := by decide
  have hroute : r.table.route 5 = some (4, 2) := by decide
  obtain ⟨honce, -, htwice⟩ := (receivePacket_relaxes [1] 1 2 r 3 data hw hcost).2.2 5
  refine ⟨hw, hcost, hroute, ?_, htwice⟩
  rw [honce, hroute]
  decide

end TcpIp.Ip
