import Mathlib.Tactic

/-! Credit by offers that may be lost, repeated and overtaken. A receiver that has taken the
numbers below `nxt` and will take those below `edge` makes offers `(a, e)`, both never
decreasing; a sender goes by the offer of the greatest `a` it has seen. -/
namespace TcpIp

variable {offers offers' : Set (ℕ × ℕ)} {nxt nxt' edge edge' una held : ℕ} {p : ℕ × ℕ}

/-- The offers out, the receiver's present `(nxt, edge)`, and the offer `(una, held)` that the
sender goes by. -/
structure Credit (offers : Set (ℕ × ℕ)) (nxt edge una held : ℕ) : Prop where
  next_le : ∀ p ∈ offers, p.1 ≤ nxt
  edge_le : ∀ p ∈ offers, p.2 ≤ edge
  ordered : ∀ p ∈ offers, ∀ p' ∈ offers, p.1 < p'.1 → p.2 ≤ p'.2
  ahead : ∀ p ∈ offers, una < p.1 → held ≤ p.2
  una_le : una ≤ nxt
  held_le : held ≤ edge

namespace Credit

theorem grow (h : Credit offers nxt edge una held) (hn : nxt ≤ nxt') (he : edge ≤ edge') :
    Credit offers nxt' edge' una held :=
  { h with
    next_le := fun p hp => (h.next_le p hp).trans hn
    edge_le := fun p hp => (h.edge_le p hp).trans he
    una_le := h.una_le.trans hn
    held_le := h.held_le.trans he }

/-- New offers of the receiver's present state. -/
theorem offer (h : Credit offers nxt edge una held)
    (hnew : ∀ p ∈ offers', p ∈ offers ∨ p = (nxt, edge)) : Credit offers' nxt edge una held where
  next_le p hp := by
    rcases hnew p hp with hp | rfl
    · exact h.next_le p hp
    · exact Nat.le_refl _
  edge_le p hp := by
    rcases hnew p hp with hp | rfl
    · exact h.edge_le p hp
    · exact Nat.le_refl _
  ordered p hp p' hp' hlt := by
    rcases hnew p' hp' with hp' | rfl
    · rcases hnew p hp with hp | rfl
      · exact h.ordered p hp p' hp' hlt
      · have := h.next_le p' hp'
        simp only at hlt
        omega
    · rcases hnew p hp with hp | rfl
      · exact h.edge_le p hp
      · exact Nat.le_refl _
  ahead p hp hlt := by
    rcases hnew p hp with hp | rfl
    · exact h.ahead p hp hlt
    · exact h.held_le
  una_le := h.una_le
  held_le := h.held_le

/-- The sender goes over to an offer that is ahead of the one it had. -/
theorem accept (h : Credit offers nxt edge una held) (hp : p ∈ offers) :
    Credit offers nxt edge p.1 p.2 :=
  { h with
    ahead := fun p' hp' hlt => h.ordered p hp p' hp' hlt
    una_le := h.next_le p hp
    held_le := h.edge_le p hp }

end Credit

end TcpIp
