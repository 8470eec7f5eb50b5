import Mathlib.Tactic

/-! Lists of intervals of numbers, each element `e` standing for `[lo e, lo e + len e)`. -/
namespace TcpIp.Spans

variable {α : Type*} {lo len : α → ℕ} {l : List α} {a b k q : ℕ} {e : α}

/-- Some interval of the list holds `q`. -/
def Covers (lo len : α → ℕ) (l : List α) (q : ℕ) : Prop := ∃ e ∈ l, lo e ≤ q ∧ q < lo e + len e

/-- The intervals come in increasing order without overlap. -/
def Ordered (lo len : α → ℕ) (l : List α) : Prop :=
  l.Pairwise fun e e' => lo e + len e ≤ lo e'

/-- The intervals are not empty and lie end to end from `a` to `b`. -/
def Contiguous (lo len : α → ℕ) : List α → ℕ → ℕ → Prop
  | [], a, b => a = b
  | e :: l, a, b => lo e = a ∧ 0 < len e ∧ Contiguous lo len l (a + len e) b

theorem Contiguous.le (h : Contiguous lo len l a b) : a ≤ b := by
  induction l generalizing a with
  | nil => exact Nat.le_of_eq h
  | cons e l ih =>
    obtain ⟨-, -, h⟩ := h
    have := ih h
    omega

theorem Contiguous.bounds (h : Contiguous lo len l a b) :
    ∀ e ∈ l, a ≤ lo e ∧ 0 < len e ∧ lo e + len e ≤ b := by
  induction l generalizing a with
  | nil => simp
  | cons e l ih =>
    obtain ⟨hlo, hpos, h⟩ := h
    have hle := h.le
    intro e' he'
    rcases List.mem_cons.mp he' with rfl | he'
    · omega
    · have := ih h e' he'
      omega

theorem Contiguous.snoc (h : Contiguous lo len l a b) (hlo : lo e = b) (hpos : 0 < len e) :
    Contiguous lo len (l ++ [e]) a (b + len e) := by
  induction l generalizing a with
  | nil =>
    obtain rfl : a = b := h
    exact ⟨hlo, hpos, rfl⟩
  | cons e' l ih =>
    obtain ⟨hlo', hpos', h⟩ := h
    exact ⟨hlo', hpos', ih h⟩

theorem Contiguous.ordered (h : Contiguous lo len l a b) : Ordered lo len l := by
  induction l generalizing a with
  | nil => exact List.Pairwise.nil
  | cons e l ih =>
    obtain ⟨hlo, hpos, h⟩ := h
    refine List.Pairwise.cons (fun e' he' => ?_) (ih h)
    have := h.bounds e' he'
    omega

theorem Contiguous.covers (h : Contiguous lo len l a b) (ha : a ≤ q) (hb : q < b) :
    Covers lo len l q := by
  induction l generalizing a with
  | nil =>
    obtain rfl : a = b := h
    omega
  | cons e l ih =>
    obtain ⟨hlo, hpos, h⟩ := h
    by_cases hq : q < a + len e
    · exact ⟨e, List.mem_cons_self, by omega, by omega⟩
    · obtain ⟨e', he', hin⟩ := ih h (by omega)
      exact ⟨e', List.mem_cons_of_mem _ he', hin⟩

/-- Dropping what starts below `k`, where `k` cuts no interval, leaves what lies above `k`. -/
theorem Contiguous.dropWhile (h : Contiguous lo len l a b) (ha : a ≤ k) (hb : k ≤ b)
    (hcut : ∀ e ∈ l, ¬ (lo e < k ∧ k < lo e + len e)) :
    Contiguous lo len (l.dropWhile fun e => lo e < k) k b := by
  induction l generalizing a with
  | nil =>
    obtain rfl : a = b := h
    exact Nat.le_antisymm hb ha
  | cons e l ih =>
    obtain ⟨hlo, hpos, h⟩ := h
    by_cases hek : lo e < k
    · have := hcut e List.mem_cons_self
      rw [List.dropWhile_cons_of_pos (by simpa using hek)]
      exact ih h (by omega) fun e' he' => hcut e' (List.mem_cons_of_mem _ he')
    · rw [List.dropWhile_cons_of_neg (by simpa using hek)]
      obtain rfl : a = k := by omega
      exact ⟨hlo, hpos, h⟩

/-- Where `k` cuts an interval, dropping what starts below `k` uncovers `k`. -/
theorem Contiguous.not_covers_dropWhile (h : Contiguous lo len l a b) (he : e ∈ l)
    (hcut : lo e < k ∧ k < lo e + len e) :
    ¬ Covers lo len (l.dropWhile fun e => lo e < k) k := by
  induction l generalizing a with
  | nil => simp at he
  | cons e' l ih =>
    obtain ⟨hlo, hpos, h⟩ := h
    have hbounds := h.bounds
    have hek : lo e' < k := by
      rcases List.mem_cons.mp he with rfl | he
      · exact hcut.1
      · have := hbounds e he
        omega
    rw [List.dropWhile_cons_of_pos (by simpa using hek)]
    rcases List.mem_cons.mp he with rfl | he
    · -- every later interval starts past `k`
      rintro ⟨e', he', hle, -⟩
      have := hbounds e' ((List.dropWhile_suffix _).subset he')
      omega
    · exact ih h he

theorem Ordered.snoc (h : Ordered lo len l) (he : ∀ e' ∈ l, lo e' + len e' ≤ lo e) :
    Ordered lo len (l ++ [e]) :=
  List.pairwise_append.mpr ⟨h, List.pairwise_singleton _ _, fun e' he' _ hmem => by
    rw [List.mem_singleton.mp hmem]
    exact he e' he'⟩

/-- In an ordered list nothing that starts below `k` is left after the front is dropped. -/
theorem Ordered.le_of_mem_dropWhile (h : Ordered lo len l)
    (he : e ∈ l.dropWhile fun e => lo e < k) : k ≤ lo e := by
  induction l with
  | nil => simp at he
  | cons a l ih =>
    obtain ⟨hall, h⟩ := List.pairwise_cons.mp h
    by_cases ha : lo a < k
    · rw [List.dropWhile_cons_of_pos (by simpa using ha)] at he
      exact ih h he
    · rw [List.dropWhile_cons_of_neg (by simpa using ha)] at he
      rcases List.mem_cons.mp he with rfl | he
      · omega
      · have := hall e he
        omega

end TcpIp.Spans
