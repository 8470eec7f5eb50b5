import Mathlib.Data.List.AList
import Mathlib.Tactic

/-! Finite maps whose entries are visited in no particular order. -/
namespace TcpIp.Maps

variable {κ α : Type*} {m : AList fun _ : κ => α} {f : κ → α → α} {k : κ} {v : α}
  {r : List (Σ _ : κ, α)}

abbrev Map (κ α : Type*) := AList fun _ : κ => α

/-- The entries of `m` in the order in which a loop over the map meets them. -/
def Ranges (m : Map κ α) (r : List (Σ _ : κ, α)) : Prop := r.Perm m.entries

/-- Change every value in place. -/
def mapValues (f : κ → α → α) (m : Map κ α) : Map κ α where
  entries := m.entries.map fun e => ⟨e.1, f e.1 e.2⟩
  nodupKeys := by
    have hkeys : (m.entries.map fun e => (⟨e.1, f e.1 e.2⟩ : Σ _ : κ, α)).keys = m.entries.keys := by
      simp [List.keys]
    unfold List.NodupKeys
    rw [hkeys]
    exact m.nodupKeys

theorem Ranges.refl : Ranges m m.entries := List.Perm.refl _

theorem Ranges.length_eq (h : Ranges m r) : r.length = m.keys.length := by
  simpa [AList.keys, List.keys] using List.Perm.length_eq h

variable [DecidableEq κ]

theorem Ranges.mem_iff (h : Ranges m r) : ⟨k, v⟩ ∈ r ↔ m.lookup k = some v := by
  rw [List.Perm.mem_iff h, ← AList.mem_lookup_iff]
  rfl

theorem lookup_mapValues : (mapValues f m).lookup k = (m.lookup k).map (f k) := by
  ext v
  constructor
  · intro h
    obtain ⟨e, he, hek⟩ := List.mem_map.mp (AList.mem_lookup_iff.mp h)
    obtain ⟨rfl, hv⟩ := Sigma.mk.inj_iff.mp hek
    have hm : m.lookup e.1 = some e.2 := AList.mem_lookup_iff.mpr he
    simp [hm, eq_of_heq hv]
  · intro h
    obtain ⟨w, hw, rfl⟩ := Option.map_eq_some_iff.mp h
    exact AList.mem_lookup_iff.mpr (List.mem_map.mpr ⟨⟨k, w⟩, AList.mem_lookup_iff.mp hw, rfl⟩)

end TcpIp.Maps
