import TcpIp.Lib.Ring

/-! Slices of arrays in a store. A slice of a slice shares its array, and `append` writes into the
array where the capacity allows. -/
namespace TcpIp.Slices

variable {α : Type*}

/-- The arrays allocated so far are those below `next`. -/
structure Store (α : Type*) where
  next : ℕ
  cells : ℕ → ℕ → α

/-- Every array of the first store is in the second one, as it was. -/
structure Kept (m m' : Store α) : Prop where
  next : m.next ≤ m'.next
  cells : ∀ a < m.next, m'.cells a = m.cells a

theorem Kept.refl (m : Store α) : Kept m m := ⟨le_rfl, fun _ _ => rfl⟩

theorem Kept.trans {m₁ m₂ m₃ : Store α} (h : Kept m₁ m₂) (h' : Kept m₂ m₃) : Kept m₁ m₃ where
  next := h.next.trans h'.next
  cells := fun a ha => (h'.cells a (ha.trans_le h.next)).trans (h.cells a ha)

structure Slice where
  array : ℕ
  offset : ℕ
  len : ℕ
  cap : ℕ
  len_le : len ≤ cap

namespace Slice

def read (m : Store α) (s : Slice) : List α := Ring.slots (m.cells s.array) s.offset s.len

/-- `s[lo:hi]`; a bound past the capacity panics. -/
def sub (s : Slice) (lo hi : ℕ) : Option Slice :=
  if h : lo ≤ hi ∧ hi ≤ s.cap then
    some ⟨s.array, s.offset + lo, hi - lo, s.cap - lo, Nat.sub_le_sub_right h.2 lo⟩
  else none

/-- `append(s, xs...)`: in place, or in a new array with `spare` cells more than are needed. -/
def append (m : Store α) (s : Slice) (xs : List α) (spare : ℕ) : Store α × Slice :=
  if h : s.len + xs.length ≤ s.cap then
    ({ m with
        cells := Function.update m.cells s.array
          (Ring.copyAt (m.cells s.array) (s.offset + s.len) xs) },
      { s with len := s.len + xs.length, len_le := h })
  else
    ({ next := m.next + 1
       cells := Function.update m.cells m.next (Ring.copyAt (m.cells m.next) 0 (s.read m ++ xs)) },
      ⟨m.next, 0, s.len + xs.length, s.len + xs.length + spare, Nat.le_add_right _ _⟩)

/-- `s[i] = x`, for an index inside the slice. -/
def set (m : Store α) (s : Slice) (i : ℕ) (x : α) : Store α :=
  { m with
    cells := Function.update m.cells s.array
      (Function.update (m.cells s.array) (s.offset + i) x) }

variable {m : Store α} {s : Slice} {xs : List α} {spare : ℕ}

@[simp] theorem length_read : (s.read m).length = s.len := by simp [read, Ring.slots]

theorem sub_eq {lo hi : ℕ} (h : lo ≤ hi) (h' : hi ≤ s.cap) :
    s.sub lo hi =
      some ⟨s.array, s.offset + lo, hi - lo, s.cap - lo, Nat.sub_le_sub_right h' lo⟩ :=
  dif_pos ⟨h, h'⟩

theorem read_sub {s' : Slice} {lo hi : ℕ} (h : s.sub lo hi = some s') (hlen : hi ≤ s.len) :
    s'.read m = ((s.read m).take hi).drop lo := by
  unfold sub at h
  split at h
  · cases h
    apply List.ext_getElem
    · simp [read, Ring.slots, hlen]
    · intro j hj hj'
      simp [read, Ring.slots, Nat.add_assoc]
  · cases h

theorem read_set {i : ℕ} {x : α} : s.read (s.set m i x) = (s.read m).set i x := by
  apply List.ext_getElem
  · simp
  · intro j hj hj'
    simp only [read, set, Ring.slots, List.getElem_set, List.getElem_map, List.getElem_range,
      Function.update_self, Function.update_apply, Nat.add_left_cancel_iff]
    by_cases hij : i = j
    · rw [if_pos hij.symm, if_pos hij]
    · rw [if_neg (Ne.symm hij), if_neg hij]

theorem slots_copyAt (buf : ℕ → α) (i a : ℕ) (xs : List α) :
    Ring.slots (Ring.copyAt buf (i + a) xs) i (a + xs.length) = Ring.slots buf i a ++ xs := by
  unfold Ring.slots
  rw [List.range_add, List.map_append, List.map_map]
  congr 1
  · apply List.map_congr_left
    intro j hj
    exact Ring.copyAt_of_not_mem (Or.inl (by simp only [List.mem_range] at hj; omega))
  · apply List.ext_getElem
    · simp
    · intro j hj hj'
      have hsub : i + (a + j) - (i + a) = j := by omega
      simp [Ring.copyAt, hsub, hj']

@[simp] theorem copyAt_nil (buf : ℕ → α) (i : ℕ) : Ring.copyAt buf i [] = buf := by
  funext k
  exact Ring.copyAt_of_not_mem (by simp; omega)

/-- What is read after an `append` is what was read before, and what was appended. -/
theorem read_append : (s.append m xs spare).2.read (s.append m xs spare).1 = s.read m ++ xs := by
  unfold append
  split
  · simp only [read, Function.update_self]
    exact slots_copyAt _ _ _ _
  · have hall := slots_copyAt (m.cells m.next) 0 0 (s.read m ++ xs)
    simp only [List.length_append, length_read, Nat.zero_add, Nat.add_zero] at hall
    simpa [read, Ring.slots] using hall

/-- A slice that fills its capacity is never written in place. -/
theorem kept_append (h : s.len = s.cap) : Kept m (s.append m xs spare).1 := by
  unfold append
  split
  · rename_i hfit
    obtain rfl : xs = [] := List.length_eq_zero_iff.mp (by omega)
    exact ⟨le_rfl, fun a _ => by simp⟩
  · exact ⟨Nat.le_succ _, fun a ha => Function.update_of_ne ha.ne _ _⟩

end Slice

end TcpIp.Slices
