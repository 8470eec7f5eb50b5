import TcpIp.Lib.Maps
import TcpIp.Tcp.Wire

/-! The routing table: a map from destinations to next hops and costs. -/
namespace TcpIp.Ip

open Maps

abbrev Addr := U32

/-- A channel, named by the order in which channels are made. -/
abbrev Chan := ℕ

/-- The cost of a destination that cannot be reached. -/
def infinity : U32 := 16

@[simp] theorem toNat_infinity : infinity.toNat = 16 := rfl

structure RoutingTableEntry where
  nextHop : Addr
  cost : U32
  updateChan : Chan
  deriving DecidableEq, Repr

abbrev RoutingTable := Map Addr RoutingTableEntry

namespace RoutingTable

variable {rt : RoutingTable} {dest a : Addr} {nextHops : List Addr} {e : RoutingTableEntry}

def checkRoute (rt : RoutingTable) (dest : Addr) : Option RoutingTableEntry := rt.lookup dest

/-- The pointer in the map is kept, so the channel of the entry stays. -/
def updateRoute (rt : RoutingTable) (dest : Addr) (newCost : U32) (nextHop : Addr) :
    RoutingTable :=
  match rt.checkRoute dest with
  | some entry => rt.insert dest { entry with cost := newCost, nextHop := nextHop }
  | none => rt

def addRoute (rt : RoutingTable) (dest : Addr) (cost : U32) (nextHop : Addr) (updateChan : Chan) :
    RoutingTable :=
  rt.insert dest { nextHop := nextHop, cost := cost, updateChan := updateChan }

def removeNextHops (rt : RoutingTable) (nextHops : List Addr) : RoutingTable :=
  mapValues (fun _ entry =>
    if nextHops.contains entry.nextHop then { entry with cost := infinity } else entry) rt

@[simp] theorem checkRoute_empty : checkRoute ∅ a = none := rfl

theorem checkRoute_insert :
    checkRoute (rt.insert dest e) a = if a = dest then some e else rt.checkRoute a := by
  unfold checkRoute
  by_cases h : a = dest
  · subst h
    simp
  · rw [AList.lookup_insert_ne h, if_neg h]

theorem checkRoute_addRoute {cost : U32} {nextHop : Addr} {updateChan : Chan} :
    (rt.addRoute dest cost nextHop updateChan).checkRoute a =
      if a = dest then some ⟨nextHop, cost, updateChan⟩ else rt.checkRoute a :=
  checkRoute_insert

theorem checkRoute_updateRoute {newCost : U32} {nextHop : Addr} :
    (rt.updateRoute dest newCost nextHop).checkRoute a =
      (rt.checkRoute a).map fun entry =>
        if a = dest then { entry with cost := newCost, nextHop := nextHop } else entry := by
  unfold updateRoute
  split
  · rename_i entry hentry
    rw [checkRoute_insert]
    by_cases h : a = dest
    · subst h
      simp [hentry]
    · simp [h]
  · rename_i hnone
    by_cases h : a = dest
    · subst h
      simp [hnone]
    · simp [h]

theorem checkRoute_removeNextHops :
    (rt.removeNextHops nextHops).checkRoute a =
      (rt.checkRoute a).map fun entry =>
        if entry.nextHop ∈ nextHops then { entry with cost := infinity } else entry := by
  unfold checkRoute removeNextHops
  rw [lookup_mapValues]
  simp only [List.contains_iff_mem]

end RoutingTable

end TcpIp.Ip
