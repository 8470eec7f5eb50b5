import Mathlib.Tactic

/-! A ring of `n` slots that carries part of a numbered stream: number `q` lives in slot `q % n`. -/
namespace TcpIp.Ring

variable {α : Type*} {n : ℕ} {buf : ℕ → α} {xs : List α} {R R' : ℕ → α → Prop}

/-- Copy `xs` over the slots from `i` on. -/
def copyAt (buf : ℕ → α) (i : ℕ) (xs : List α) : ℕ → α :=
  fun k => if i ≤ k then xs[k - i]?.getD (buf k) else buf k

/-- The contents of `len` consecutive slots from `i` on. -/
def slots (buf : ℕ → α) (i len : ℕ) : List α := (List.range len).map fun j => buf (i + j)

/-- Write `xs` as the numbers from `s` on, in two copies when the range meets the end of the ring. -/
def store (n : ℕ) (buf : ℕ → α) (s : ℕ) (xs : List α) : ℕ → α :=
  if s % n + xs.length < n then copyAt buf (s % n) xs
  else copyAt (copyAt buf (s % n) (xs.take (n - s % n))) 0 (xs.drop (n - s % n))

/-- Read `len` numbers from `s` on. -/
def load (n : ℕ) (buf : ℕ → α) (s len : ℕ) : List α :=
  (List.range len).map fun j => buf ((s + j) % n)

/-- Every number of `[lo, hi)` is in its slot with an element that `R` allows for it. -/
def Holds (n : ℕ) (buf : ℕ → α) (R : ℕ → α → Prop) (lo hi : ℕ) : Prop :=
  ∀ q, lo ≤ q → q < hi → R q (buf (q % n))

theorem copyAt_of_not_mem {i k : ℕ} {xs : List α} (h : k < i ∨ i + xs.length ≤ k) :
    copyAt buf i xs k = buf k := by
  unfold copyAt
  split
  · rw [List.getElem?_eq_none (by omega), Option.getD_none]
  · rfl

@[simp] theorem load_length (s len : ℕ) : (load n buf s len).length = len := by simp [load]

theorem load_getElem? {s len j : ℕ} (hj : j < len) :
    (load n buf s len)[j]? = some (buf ((s + j) % n)) := by
  simp [load, hj]

theorem load_append (s a b : ℕ) : load n buf s (a + b) = load n buf s a ++ load n buf (s + a) b := by
  unfold load
  rw [List.range_add, List.map_append, List.map_map]
  congr 1
  apply List.map_congr_left
  intro j _
  simp [Nat.add_assoc]

theorem load_drop (s len k : ℕ) : (load n buf s len).drop k = load n buf (s + k) (len - k) := by
  by_cases hk : k ≤ len
  · obtain ⟨m, rfl⟩ := Nat.exists_eq_add_of_le hk
    rw [load_append, List.drop_left' (load_length s k), Nat.add_sub_cancel_left]
  · rw [List.drop_eq_nil_of_le (by rw [load_length]; omega), Nat.sub_eq_zero_of_le (by omega)]
    rfl

theorem add_mod_of_lt {s j : ℕ} (h : s % n + j < n) : (s + j) % n = s % n + j := by
  rw [← Nat.mod_add_mod, Nat.mod_eq_of_lt h]

theorem add_mod_of_le {s j : ℕ} (h : n ≤ s % n + j) (hj : s % n + j < 2 * n) :
    (s + j) % n = s % n + j - n := by
  rw [← Nat.mod_add_mod, Nat.mod_eq_sub_mod h, Nat.mod_eq_of_lt (by omega)]

/-- A read that stays inside the ring is one slice. -/
theorem load_of_lt {s len : ℕ} (h : s % n + len ≤ n) : load n buf s len = slots buf (s % n) len := by
  apply List.map_congr_left
  intro j hj
  rw [add_mod_of_lt (by have := List.mem_range.mp hj; omega)]

/-- A read that meets the end of the ring is two slices. -/
theorem load_of_le {s len : ℕ} (hn : 0 < n) (h : n ≤ s % n + len) (hlen : s % n + len ≤ 2 * n) :
    load n buf s len = slots buf (s % n) (n - s % n) ++ slots buf 0 (len - (n - s % n)) := by
  have hs := Nat.mod_lt s hn
  have hsplit : len = (n - s % n) + (len - (n - s % n)) := by omega
  conv_lhs => rw [hsplit]
  unfold load slots
  rw [List.range_add, List.map_append, List.map_map]
  congr 1
  · apply List.map_congr_left
    intro j hj
    rw [add_mod_of_lt (by have := List.mem_range.mp hj; omega)]
  · apply List.map_congr_left
    intro j hj
    have := List.mem_range.mp hj
    simp only [Function.comp_apply, Nat.zero_add]
    rw [add_mod_of_le (by omega) (by omega)]
    congr 1
    omega

/-- Inside a window of `n` numbers starting at the write, exactly the written numbers change. -/
theorem store_apply (hn : 0 < n) (hlen : xs.length ≤ n) {s q : ℕ} (hs : s ≤ q) (hq : q < s + n) :
    store n buf s xs (q % n) = xs[q - s]?.getD (buf (q % n)) := by
  have hsn := Nat.mod_lt s hn
  obtain ⟨j, rfl⟩ := Nat.exists_eq_add_of_le hs
  rw [Nat.add_sub_cancel_left]
  unfold store
  split
  · rename_i hin
    by_cases hj : s % n + j < n
    · simp [copyAt, add_mod_of_lt hj]
    · rw [add_mod_of_le (by omega) (by omega)]
      have hout : xs[j]? = none := List.getElem?_eq_none (by omega)
      simp only [copyAt, hout, Option.getD_none]
      rw [if_neg (by omega)]
  · rename_i hin
    by_cases hj : s % n + j < n
    · have hout : (xs.drop (n - s % n))[s % n + j]? = none :=
        List.getElem?_eq_none (by simp; omega)
      simp only [copyAt, add_mod_of_lt hj, Nat.zero_le, if_true, Nat.sub_zero, hout,
        Option.getD_none]
      rw [if_pos (by omega), List.getElem?_take, if_pos (by omega), Nat.add_sub_cancel_left]
    · rw [add_mod_of_le (by omega) (by omega)]
      simp only [copyAt, Nat.zero_le, if_true, Nat.sub_zero]
      rw [if_neg (by omega), List.getElem?_drop]
      congr 2
      omega

/-- A number whose slot the write does not reach keeps its element. -/
theorem store_apply_of_lt (hn : 0 < n) {s q : ℕ} (hq : q < s)
    (hr : s + xs.length ≤ q + n) : store n buf s xs (q % n) = buf (q % n) := by
  by_cases hqn : s ≤ q + n
  · rw [← Nat.add_mod_right q n, store_apply hn (by omega) hqn (by omega),
      List.getElem?_eq_none (by omega), Option.getD_none]
  · omega

/-- Every slot is that of one of `n` consecutive numbers. -/
theorem exists_slot_eq (s : ℕ) {k : ℕ} (hk : k < n) : ∃ j < n, (s + j) % n = k := by
  have hs := Nat.mod_lt s (Nat.zero_lt_of_lt hk)
  by_cases hle : s % n ≤ k
  · exact ⟨k - s % n, by omega, by rw [add_mod_of_lt (by omega)]; omega⟩
  · exact ⟨k + n - s % n, by omega, by rw [add_mod_of_le (by omega) (by omega)]; omega⟩

/-- A write changes no slot but those of its numbers. -/
theorem store_of_ne (hlen : xs.length ≤ n) {s k : ℕ} (hk : k < n)
    (hne : ∀ j < xs.length, k ≠ (s + j) % n) : store n buf s xs k = buf k := by
  obtain ⟨j, hj, rfl⟩ := exists_slot_eq s hk
  have hout : xs.length ≤ j := by
    by_contra hlt
    exact hne j (by omega) rfl
  rw [store_apply (by omega) hlen (by omega) (by omega), Nat.add_sub_cancel_left,
    List.getElem?_eq_none hout, Option.getD_none]

/-- A write does not reach a range that ends before it and starts less than a ring before its
end. -/
theorem load_store_of_le (hn : 0 < n) {a len s : ℕ} (ha : a + len ≤ s)
    (hlen : s + xs.length ≤ a + n) : load n (store n buf s xs) a len = load n buf a len := by
  apply List.map_congr_left
  intro j hj
  have := List.mem_range.mp hj
  exact store_apply_of_lt hn (by omega) (by omega)

/-- A write at the end of a window inside the ring is read back behind the rest of the window. -/
theorem load_store (hn : 0 < n) {lo s : ℕ} (hlo : lo ≤ s) (hlen : s + xs.length ≤ lo + n) :
    load n (store n buf s xs) lo (s - lo + xs.length) = load n buf lo (s - lo) ++ xs := by
  rw [load_append]
  congr 1
  · exact load_store_of_le hn (by omega) hlen
  · rw [Nat.add_sub_cancel' hlo]
    apply List.ext_getElem?
    intro j
    rcases Nat.lt_or_ge j xs.length with hj | hj
    · rw [load_getElem? hj, store_apply hn (by omega) (by omega) (by omega),
        Nat.add_sub_cancel_left, List.getElem?_eq_getElem hj, Option.getD_some]
    · rw [List.getElem?_eq_none hj, List.getElem?_eq_none (by simpa using hj)]

@[simp] theorem store_nil (hn : 0 < n) (s : ℕ) : store n buf s [] = buf := by
  have hs := Nat.mod_lt s hn
  funext k
  simp [store, copyAt, hs]

/-- After a write the last `n` numbers are in their slots, even where it runs once around the
ring. -/
theorem store_latest {s q : ℕ} (hn : 0 < n) (hlen : s % n + xs.length ≤ 2 * n)
    (hq : q < s + xs.length) (hr : s + xs.length ≤ q + n) :
    store n buf s xs (q % n) = if s ≤ q then xs[q - s]?.getD (buf (q % n)) else buf (q % n) := by
  have hs := Nat.mod_lt s hn
  split
  · rename_i hsq
    by_cases hle : xs.length ≤ n
    · exact store_apply hn hle hsq (by omega)
    obtain ⟨j, rfl⟩ := Nat.exists_eq_add_of_le hsq
    rw [Nat.add_sub_cancel_left]
    have hget : xs[j]? = some (xs.get ⟨j, by omega⟩) := by simp
    unfold store
    rw [if_neg (by omega)]
    by_cases hj : s % n + j < n
    · -- in the first copy, and out of the reach of the second
      have hout : (xs.drop (n - s % n))[s % n + j]? = none :=
        List.getElem?_eq_none (by simp; omega)
      simp only [copyAt, add_mod_of_lt hj, Nat.zero_le, if_true, Nat.sub_zero, hout,
        Option.getD_none]
      rw [if_pos (by omega), List.getElem?_take, if_pos (by omega), Nat.add_sub_cancel_left]
    · rw [add_mod_of_le (by omega) (by omega)]
      simp only [copyAt, Nat.zero_le, if_true, Nat.sub_zero, List.getElem?_drop]
      have hidx : n - s % n + (s % n + j - n) = j := by omega
      rw [hidx, hget, Option.getD_some, Option.getD_some]
  · exact store_apply_of_lt hn (by omega) hr

theorem Holds.mono {lo hi lo' hi' : ℕ} (h : Holds n buf R lo hi) (hlo : lo ≤ lo') (hhi : hi' ≤ hi)
    (hR : ∀ q b, R q b → R' q b) : Holds n buf R' lo' hi' :=
  fun q hq hq' => hR q _ (h q (by omega) (by omega))

theorem Holds.sub {lo hi lo' hi' : ℕ} (h : Holds n buf R lo hi) (hlo : lo ≤ lo')
    (hhi : hi' ≤ hi) : Holds n buf R lo' hi' :=
  h.mono hlo hhi fun _ _ hq => hq

theorem Holds.append {lo mid hi : ℕ} (h : Holds n buf R lo mid) (h' : Holds n buf R mid hi) :
    Holds n buf R lo hi := by
  intro q hq hq'
  rcases Nat.lt_or_ge q mid with hm | hm
  · exact h q hq hm
  · exact h' q hm hq'

/-- The numbers just written are held. -/
theorem holds_store (hn : 0 < n) (hlen : xs.length ≤ n) {s : ℕ}
    (hxs : ∀ j b, xs[j]? = some b → R (s + j) b) :
    Holds n (store n buf s xs) R s (s + xs.length) := by
  intro q hq hq'
  rw [store_apply hn hlen hq (by omega)]
  obtain ⟨j, rfl⟩ := Nat.exists_eq_add_of_le hq
  have hj : j < xs.length := by omega
  rw [Nat.add_sub_cancel_left, List.getElem?_eq_getElem hj]
  exact hxs j _ (List.getElem?_eq_getElem hj)

/-- Writing allowed elements inside a window of the ring keeps what the window held. -/
theorem Holds.store (hn : 0 < n) {s lo hi base : ℕ} (h : Holds n buf R lo hi)
    (hxs : ∀ j b, xs[j]? = some b → R (s + j) b) (hlo : base ≤ lo) (hhi : hi ≤ base + n)
    (hs : base ≤ s) (hlen : s + xs.length ≤ base + n) :
    Holds n (store n buf s xs) R lo hi := by
  intro q hq hq'
  rcases Nat.lt_or_ge q s with hqs | hqs
  · rw [store_apply_of_lt hn hqs (by omega)]
    exact h q hq hq'
  · rcases Nat.lt_or_ge q (s + xs.length) with hin | hout
    · exact holds_store hn (by omega) hxs q hqs hin
    · rw [store_apply hn (by omega) hqs (by omega), List.getElem?_eq_none (by omega),
        Option.getD_none]
      exact h q hq hq'

/-- Writing at the end of what is held keeps the last `n` numbers. -/
theorem Holds.store_latest (hn : 0 < n) {s lo : ℕ} (h : Holds n buf R lo s)
    (hxs : ∀ j b, xs[j]? = some b → R (s + j) b) (hlen : s % n + xs.length ≤ 2 * n) :
    Holds n (Ring.store n buf s xs) R (max lo (s + xs.length - n)) (s + xs.length) := by
  intro q hq hq'
  rw [Ring.store_latest hn hlen hq' (by omega)]
  split
  · rename_i hsq
    obtain ⟨j, rfl⟩ := Nat.exists_eq_add_of_le hsq
    have hj : j < xs.length := by omega
    rw [Nat.add_sub_cancel_left, List.getElem?_eq_getElem hj]
    exact hxs j _ (List.getElem?_eq_getElem hj)
  · exact h q (by omega) (by omega)

/-- What is read from a held range is allowed. -/
theorem Holds.load {s len lo hi : ℕ} (h : Holds n buf R lo hi) (hlo : lo ≤ s)
    (hhi : s + len ≤ hi) {j : ℕ} {b : α} (hb : (load n buf s len)[j]? = some b) : R (s + j) b := by
  have hj : j < len := by
    have := (List.getElem?_eq_some_iff.mp hb).1
    simpa using this
  rw [load_getElem? hj, Option.some.injEq] at hb
  rw [← hb]
  exact h (s + j) (by omega) (by omega)

/-- The stream `xs` numbered from `f` on. -/
def Numbered (f : ℕ) (xs : List α) (q : ℕ) (a : α) : Prop := f ≤ q ∧ xs[q - f]? = some a

theorem Numbered.append {f q : ℕ} {a : α} (h : Numbered f xs q a) (ys : List α) :
    Numbered f (xs ++ ys) q a := by
  obtain ⟨hf, hq⟩ := h
  have hlt := (List.getElem?_eq_some_iff.mp hq).1
  exact ⟨hf, by rw [List.getElem?_append_left hlt, hq]⟩

/-- What was written last stands at the end of the stream. -/
theorem numbered_append_right {f j : ℕ} {a : α} {ys : List α} (h : ys[j]? = some a) :
    Numbered f (xs ++ ys) (f + xs.length + j) a := by
  refine ⟨by omega, ?_⟩
  rw [List.getElem?_append_right (by omega), ← h]
  congr 1
  omega

/-- A read of a held range is the piece of the stream with these numbers. -/
theorem Holds.load_eq {f s len lo hi : ℕ} (h : Holds n buf (Numbered f xs) lo hi) (hf : f ≤ s)
    (hlo : lo ≤ s) (hhi : s + len ≤ hi) : Ring.load n buf s len = (xs.drop (s - f)).take len := by
  apply List.ext_getElem?
  intro j
  rw [List.getElem?_take]
  split
  · rename_i hj
    have hq := (h (s + j) (by omega) (by omega)).2
    rw [load_getElem? hj, List.getElem?_drop, ← hq]
    congr 1
    omega
  · rename_i hj
    exact List.getElem?_eq_none (by simpa using hj)

end TcpIp.Ring
