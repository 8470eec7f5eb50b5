import Mathlib.Tactic

/-! A bounded FIFO whose one writer may have to wait for room. -/
namespace TcpIp.Fifo

variable {α : Type*}

/-- The queue, and what the writer's call still has to put in. -/
structure Queue (α : Type*) where
  items : List α := []
  rest : List α := []

inductive Op (α : Type*)
  | call (xs : List α)
  /-- the next `k` elements of the call go in -/
  | put (k : ℕ)
  /-- the call returns, with everything put in -/
  | done
  /-- the call fails, and what is left of it is dropped -/
  | abort
  /-- the oldest `k` elements go out -/
  | release (k : ℕ)
  | skip

def Queue.step (cap : ℕ) (q : Queue α) : Op α → Option (Queue α)
  | .call xs => if q.rest.isEmpty then some { q with rest := xs } else none
  | .put k =>
    if k ≤ q.rest.length ∧ q.items.length + k ≤ cap then
      some ⟨q.items ++ q.rest.take k, q.rest.drop k⟩
    else none
  | .done => if q.rest.isEmpty then some q else none
  | .abort => some { q with rest := [] }
  | .release k => if k ≤ q.items.length then some { q with items := q.items.drop k } else none
  | .skip => some q

def Queue.run (cap : ℕ) (q : Queue α) (ops : List (Op α)) : Option (Queue α) :=
  ops.foldlM (Queue.step cap) q

section Steps

variable {cap k : ℕ} {q : Queue α} {xs : List α}

theorem step_call (h : q.rest = []) : q.step cap (.call xs) = some { q with rest := xs } := by
  simp [Queue.step, h]

theorem step_put (hk : k ≤ q.rest.length) (hcap : q.items.length + k ≤ cap) :
    q.step cap (.put k) = some ⟨q.items ++ q.rest.take k, q.rest.drop k⟩ :=
  if_pos ⟨hk, hcap⟩

theorem step_done (h : q.rest = []) : q.step cap .done = some q := by
  simp [Queue.step, h]

theorem step_release (hk : k ≤ q.items.length) :
    q.step cap (.release k) = some { q with items := q.items.drop k } :=
  if_pos hk

end Steps

end TcpIp.Fifo
