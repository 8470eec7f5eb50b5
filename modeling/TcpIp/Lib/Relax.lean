import Mathlib.Tactic

/-! Offers of a cost through a hop, taken in one after the other. -/
namespace TcpIp.Relax

variable {C N : Type*} [LT C] [DecidableLT C] [DecidableEq N] {n : N} {c x : C} {cs : List C}
  {route : Option (C × N)}

/-- Take in an offer through `n`: a route through `n` follows it, one through another hop gives way
only to a smaller cost. -/
def relax (n : N) (route : Option (C × N)) (c : C) : Option (C × N) :=
  match route with
  | none => some (c, n)
  | some (cost, hop) =>
    if hop = n then some (c, n) else if c < cost then some (c, n) else some (cost, hop)

theorem relax_via : relax n (some (x, n)) c = some (c, n) := if_pos rfl

theorem relax_eq_or : relax n route c = route ∨ relax n route c = some (c, n) := by
  cases route with
  | none => exact Or.inr rfl
  | some old =>
    obtain ⟨cost, hop⟩ := old
    simp only [relax]
    split_ifs
    · exact Or.inr rfl
    · exact Or.inr rfl
    · exact Or.inl rfl

/-- Either no offer was taken, or the last one decides. -/
theorem foldl_relax_cases (cs : List C) (route : Option (C × N)) :
    cs.foldl (relax n) route = route ∨
      ∃ c, cs.getLast? = some c ∧ cs.foldl (relax n) route = some (c, n) := by
  induction cs using List.reverseRecOn with
  | nil => exact Or.inl rfl
  | append_singleton cs c ih =>
    rw [List.foldl_concat, List.getLast?_concat]
    rcases ih with hsame | ⟨d, -, hvia⟩
    · rw [hsame]
      exact relax_eq_or.imp_right fun htaken => ⟨c, rfl, htaken⟩
    · rw [hvia, relax_via]
      exact Or.inr ⟨c, rfl, rfl⟩

/-- Taking in the same offers again changes nothing. -/
theorem foldl_relax_idem (cs : List C) (route : Option (C × N)) :
    cs.foldl (relax n) (cs.foldl (relax n) route) = cs.foldl (relax n) route := by
  rcases foldl_relax_cases (n := n) cs route with hsame | ⟨c, hlast, hvia⟩
  · rw [hsame, hsame]
  · rw [hvia]
    rcases foldl_relax_cases (n := n) cs (some (c, n)) with hsame | ⟨d, hlast', hvia'⟩
    · exact hsame
    · rw [hlast] at hlast'
      rw [hvia', Option.some.inj hlast']

end TcpIp.Relax
