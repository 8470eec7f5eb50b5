import Mathlib.Combinatorics.SimpleGraph.Metric
import TcpIp.Ip.Host

/-! Static networks of hosts, and hop distances in them. -/
namespace TcpIp.Ip

/-- Hosts whose interfaces are up and joined in pairs: interface addresses are distinct, and every
interface is the far end of another one, maybe on the same host. -/
structure Topology (Node : Type*) where
  localIFs : Node → List LinkInterface
  distinct : ∀ {x y i j}, i ∈ localIFs x → j ∈ localIFs y → i.hostIPAddress = j.hostIPAddress →
    x = y ∧ i = j
  linked : ∀ {x i}, i ∈ localIFs x → ∃ y j, j ∈ localIFs y ∧ j ≠ i ∧
    j.hostIPAddress = i.destIPAddress ∧ j.destIPAddress = i.hostIPAddress
  up : ∀ {x i}, i ∈ localIFs x → i.stopped = false

namespace Topology

variable {Node : Type*} (T : Topology Node)

/-- The interface addresses of a node. -/
def addrs (x : Node) : List Addr := ownAddrs (T.localIFs x)

/-- A link joins `x` and `y`. -/
def Linked (x y : Node) : Prop :=
  ∃ i ∈ T.localIFs x, ∃ j ∈ T.localIFs y,
    j.hostIPAddress = i.destIPAddress ∧ j.destIPAddress = i.hostIPAddress

theorem Linked.symm {T : Topology Node} {x y : Node} (h : T.Linked x y) : T.Linked y x := by
  obtain ⟨i, hi, j, hj, hhost, hdest⟩ := h
  exact ⟨j, hj, i, hi, hdest.symm, hhost.symm⟩

/-- Two nodes are neighbours when a link joins them. -/
def graph : SimpleGraph Node where
  Adj x y := x ≠ y ∧ T.Linked x y
  symm := ⟨fun _ _ h => ⟨h.1.symm, h.2.symm⟩⟩
  loopless := ⟨fun _ h => h.1 rfl⟩

/-- No link joins a node to itself. -/
def Loopless : Prop := ∀ x, ¬ T.Linked x x

/-- The owner of `a` is `n` hops away from `x`. -/
def Away (x : Node) (a : Addr) (n : ℕ) : Prop := ∃ y, a ∈ T.addrs y ∧ T.graph.edist x y = n

/-- All interface addresses of the network. -/
def allAddrs [Fintype Node] : Finset Addr := Finset.univ.biUnion fun x => (T.addrs x).toFinset

variable {T} {x y z : Node} {a : Addr} {n m : ℕ}

theorem mem_addrs {i : LinkInterface} (hi : i ∈ T.localIFs x) : i.hostIPAddress ∈ T.addrs x :=
  List.mem_map_of_mem hi

theorem owner_unique (hx : a ∈ T.addrs x) (hy : a ∈ T.addrs y) : x = y := by
  obtain ⟨i, hi, rfl⟩ := List.mem_map.mp hx
  obtain ⟨j, hj, hij⟩ := List.mem_map.mp hy
  exact (T.distinct hi hj hij.symm).1

theorem mem_allAddrs [Fintype Node] (hx : a ∈ T.addrs x) : a ∈ T.allAddrs := by
  simp only [allAddrs, Finset.mem_biUnion, Finset.mem_univ, true_and, List.mem_toFinset]
  exact ⟨x, hx⟩

/-- The far end of an interface is an interface of a node that the link joins to this one. -/
theorem far_end {i : LinkInterface} (hi : i ∈ T.localIFs x) :
    ∃ y, T.Linked x y ∧ i.destIPAddress ∈ T.addrs y := by
  obtain ⟨y, j, hj, -, hends⟩ := T.linked hi
  exact ⟨y, ⟨i, hi, j, hj, hends⟩, hends.1 ▸ mem_addrs hj⟩

/-- The two ends of a link have two addresses, also on one node. -/
theorem ends_ne {i j : LinkInterface} (hi : i ∈ T.localIFs x) (hj : j ∈ T.localIFs x)
    (hhost : j.hostIPAddress = i.destIPAddress) : j.hostIPAddress ≠ i.hostIPAddress := by
  obtain ⟨y, j', hj', hne, hhost', -⟩ := T.linked hi
  obtain ⟨-, rfl⟩ := T.distinct hj hj' (hhost.trans hhost'.symm)
  intro heq
  exact hne (T.distinct hj hi heq).2

theorem Away.unique (h : T.Away x a n) (h' : T.Away x a m) : n = m := by
  obtain ⟨y, hy, hn⟩ := h
  obtain ⟨y', hy', hm⟩ := h'
  obtain rfl := owner_unique hy hy'
  exact_mod_cast hn.symm.trans hm

theorem away_zero : T.Away x a 0 ↔ a ∈ T.addrs x := by
  constructor
  · rintro ⟨y, hy, hzero⟩
    obtain rfl := SimpleGraph.edist_eq_zero_iff.mp hzero
    exact hy
  · intro hx
    exact ⟨x, hx, SimpleGraph.edist_self⟩

/-- A neighbour is at most one hop nearer. -/
theorem Away.of_adj (h : T.Away z a n) (hadj : T.graph.Adj x z) : ∃ m ≤ n + 1, T.Away x a m := by
  obtain ⟨y, hy, hn⟩ := h
  have hle : T.graph.edist x y ≤ ((n + 1 : ℕ) : ℕ∞) := by
    calc T.graph.edist x y ≤ T.graph.edist x z + T.graph.edist z y := SimpleGraph.edist_triangle
      _ = ((n + 1 : ℕ) : ℕ∞) := by
        rw [SimpleGraph.edist_eq_one_iff_adj.mpr hadj, hn, add_comm]
        rfl
  obtain ⟨m, hm, hmn⟩ := ENat.le_natCast_iff.mp hle
  exact ⟨m, hmn, y, hy, hm⟩

theorem Away.of_linked (h : T.Away z a n) (hlink : T.Linked x z) :
    ∃ m ≤ n + 1, T.Away x a m := by
  by_cases hxz : x = z
  · subst hxz
    exact ⟨n, Nat.le_succ n, h⟩
  · exact h.of_adj ⟨hxz, hlink⟩

/-- Some neighbour is one hop nearer. -/
theorem Away.nearer (h : T.Away x a (n + 1)) : ∃ z, T.graph.Adj x z ∧ T.Away z a n := by
  obtain ⟨y, hy, hn⟩ := h
  have hreach : T.graph.Reachable x y := by
    apply SimpleGraph.reachable_of_edist_ne_top
    rw [hn]
    exact ENat.natCast_ne_top _
  obtain ⟨w, hw⟩ := hreach.exists_walk_length_eq_edist
  rw [hn] at hw
  cases w with
  | nil =>
    have hlen : (SimpleGraph.Walk.nil : T.graph.Walk x x).length = n + 1 := by exact_mod_cast hw
    simp at hlen
  | @cons _ z _ hadj p =>
    have hlen : p.length + 1 = n + 1 := by exact_mod_cast hw
    -- the rest of a shortest walk is no longer than the distance that is left
    obtain ⟨m, hm, hmle⟩ := ENat.le_natCast_iff.mp (SimpleGraph.edist_le p)
    obtain ⟨m', hm', hx⟩ := Away.of_adj ⟨y, hy, hm⟩ hadj
    have hsucc := Away.unique hx ⟨y, hy, hn⟩
    obtain rfl : m = n := by omega
    exact ⟨z, hadj, y, hy, hm⟩

end Topology

section Line

/-- Three hosts in a line, with the links 1 to 2 and 3 to 4. -/
def lineIFs : Fin 3 → List LinkInterface
  | 0 => [⟨0, 1, 2, 5001, false⟩]
  | 1 => [⟨0, 2, 1, 5000, false⟩, ⟨1, 3, 4, 5002, false⟩]
  | 2 => [⟨0, 4, 3, 5001, false⟩]

def line : Topology (Fin 3) where
  localIFs := lineIFs
  distinct := by
    intro x y i j hi hj hij
    have hall : ∀ x y, ∀ i ∈ lineIFs x, ∀ j ∈ lineIFs y, i.hostIPAddress = j.hostIPAddress →
        x = y ∧ i = j := by decide
    exact hall x y i hi j hj hij
  linked := by
    intro x i hi
    have hall : ∀ x, ∀ i ∈ lineIFs x, ∃ y, ∃ j ∈ lineIFs y, j ≠ i ∧
        j.hostIPAddress = i.destIPAddress ∧ j.destIPAddress = i.hostIPAddress := by decide
    exact hall x i hi
  up := by
    intro x i hi
    have hall : ∀ x, ∀ i ∈ lineIFs x, i.stopped = false := by decide
    exact hall x i hi

theorem line_adj : ∀ x y : Fin 3, line.graph.Adj x y ↔ x.val + 1 = y.val ∨ y.val + 1 = x.val := by
  have hall : ∀ x y : Fin 3, (x ≠ y ∧ ∃ i ∈ lineIFs x, ∃ j ∈ lineIFs y,
      j.hostIPAddress = i.destIPAddress ∧ j.destIPAddress = i.hostIPAddress) ↔
      x.val + 1 = y.val ∨ y.val + 1 = x.val := by decide
  exact hall

/-- The two ends of the line are two hops apart. -/
theorem line_edist : line.graph.edist 0 2 = (2 : ℕ) := by
  have h12 : line.Away 1 4 1 :=
    ⟨2, by decide, SimpleGraph.edist_eq_one_iff_adj.mpr ((line_adj 1 2).mpr (by decide))⟩
  obtain ⟨m, hm, y, hy, hedist⟩ := h12.of_adj ((line_adj 0 1).mpr (by decide))
  obtain rfl : y = 2 := Topology.owner_unique hy (by decide)
  have h0 : m ≠ 0 := by
    rintro rfl
    exact absurd (SimpleGraph.edist_eq_zero_iff.mp hedist) (by decide)
  have h1 : m ≠ 1 := by
    rintro rfl
    exact absurd ((line_adj 0 2).mp (SimpleGraph.edist_eq_one_iff_adj.mp hedist)) (by decide)
  obtain rfl : m = 2 := by omega
  exact hedist

end Line

end TcpIp.Ip
