import Mathlib.Data.Finset.Basic

/-! Threads that share data under mutexes: a small language of critical sections, its executions
among any interference of other threads, and a calculus of the mutexes held. -/
namespace TcpIp.Monitor

/-- A command of a thread. `σ` is what the thread reads and writes, shared or its own; `ρ` is what
it returns; `T` names the tests that an execution keeps a record of. -/
inductive Cmd (M T σ ρ : Type*)
  /-- no result where it panics or blocks -/
  | act (f : σ → Option σ)
  | seq (p q : Cmd M T σ ρ)
  | ite (b : σ → Bool) (p q : Cmd M T σ ρ)
  /-- `p` where the test `t` finds `b` -/
  | check (t : T) (b : σ → Bool) (p : Cmd M T σ ρ)
  | loop (b : σ → Bool) (p : Cmd M T σ ρ)
  | lock (m : M)
  | unlock (m : M)
  /-- wait on a condition variable of the mutex -/
  | wait (m : M)
  | ret (r : σ → ρ)
  | call (p : Cmd M T σ ρ)
  /-- `p`, and the mutex is released when it ends -/
  | deferUnlock (m : M) (p : Cmd M T σ ρ)

/-- How a command ends. -/
inductive Outcome (M σ ρ : Type*)
  | through (held : Finset M) (s : σ)
  | returned (held : Finset M) (r : ρ) (s : σ)
  /-- a mutex was released or waited on that is not held, or locked by its holder -/
  | misused

variable {M T σ ρ : Type*}

namespace Cmd

def skip : Cmd M T σ ρ := .act some

def modify (f : σ → σ) : Cmd M T σ ρ := .act fun s => some (f s)

def when (b : σ → Bool) (p : Cmd M T σ ρ) : Cmd M T σ ρ := .ite b p skip

def block : List (Cmd M T σ ρ) → Cmd M T σ ρ
  | [] => skip
  | [p] => p
  | p :: ps => .seq p (block ps)

end Cmd

variable [DecidableEq M]

namespace Outcome

/-- Does the command hand on to the next one? -/
def isThrough : Outcome M σ ρ → Bool
  | .through _ _ => true
  | _ => false

/-- The end of a called function. -/
def afterCall : Outcome M σ ρ → Outcome M σ ρ
  | .returned held _ s => .through held s
  | o => o

/-- The mutex is released at the end of the function. -/
def release (m : M) : Outcome M σ ρ → Outcome M σ ρ
  | .through held s => if m ∈ held then .through (held.erase m) s else .misused
  | .returned held r s => if m ∈ held then .returned (held.erase m) r s else .misused
  | .misused => .misused

/-- What holds at the end, of the mutexes and of `found`: `Q` where the command returns and `K`
where it is run through. -/
def Meets (Q K : Finset M → Bool → Prop) (found : Bool) : Outcome M σ ρ → Prop
  | .through held _ => K held found
  | .returned held _ _ => Q held found
  | .misused => False

end Outcome

/-- An execution, with what its tests have found. Between any two commands other threads may change
the state as `env` allows. -/
inductive Exec (env : σ → σ → Prop) :
    Cmd M T σ ρ → Finset M → σ → List (T × σ) → Outcome M σ ρ → Prop
  | interfere {p : Cmd M T σ ρ} {held : Finset M} {s t : σ} {tests : List (T × σ)}
      {o : Outcome M σ ρ} (h : env s t) (hp : Exec env p held t tests o) :
      Exec env p held s tests o
  | act {f : σ → Option σ} {held : Finset M} {s t : σ} (h : f s = some t) :
      Exec env (.act f) held s [] (.through held t)
  | seq {p q : Cmd M T σ ρ} {held held' : Finset M} {s t : σ} {tests tests' : List (T × σ)}
      {o : Outcome M σ ρ} (hp : Exec env p held s tests (.through held' t))
      (hq : Exec env q held' t tests' o) : Exec env (.seq p q) held s (tests ++ tests') o
  | seqEnd {p q : Cmd M T σ ρ} {held : Finset M} {s : σ} {tests : List (T × σ)}
      {o : Outcome M σ ρ} (hp : Exec env p held s tests o) (ho : o.isThrough = false) :
      Exec env (.seq p q) held s tests o
  | ite {b : σ → Bool} {p q : Cmd M T σ ρ} {held : Finset M} {s : σ} {tests : List (T × σ)}
      {o : Outcome M σ ρ} (h : Exec env (if b s then p else q) held s tests o) :
      Exec env (.ite b p q) held s tests o
  | check {t : T} {b : σ → Bool} {p : Cmd M T σ ρ} {held : Finset M} {s : σ}
      {tests : List (T × σ)} {o : Outcome M σ ρ}
      (h : Exec env (if b s then p else .skip) held s tests o) :
      Exec env (.check t b p) held s ((t, s) :: tests) o
  | loopDone {b : σ → Bool} {p : Cmd M T σ ρ} {held : Finset M} {s : σ} (hb : b s = false) :
      Exec env (.loop b p) held s [] (.through held s)
  | loopStep {b : σ → Bool} {p : Cmd M T σ ρ} {held held' : Finset M} {s t : σ}
      {tests tests' : List (T × σ)} {o : Outcome M σ ρ} (hb : b s = true)
      (hp : Exec env p held s tests (.through held' t))
      (hl : Exec env (.loop b p) held' t tests' o) :
      Exec env (.loop b p) held s (tests ++ tests') o
  | loopEnd {b : σ → Bool} {p : Cmd M T σ ρ} {held : Finset M} {s : σ} {tests : List (T × σ)}
      {o : Outcome M σ ρ} (hb : b s = true) (hp : Exec env p held s tests o)
      (ho : o.isThrough = false) : Exec env (.loop b p) held s tests o
  | lock {m : M} {held : Finset M} {s : σ} :
      Exec env (.lock m) held s [] (if m ∈ held then .misused else .through (insert m held) s)
  | unlock {m : M} {held : Finset M} {s : σ} :
      Exec env (.unlock m) held s [] ((Outcome.through held s).release m)
  | wait {m : M} {held : Finset M} {s : σ} :
      Exec env (.wait m) held s [] (if m ∈ held then .through held s else .misused)
  | ret {r : σ → ρ} {held : Finset M} {s : σ} :
      Exec env (.ret r) held s [] (.returned held (r s) s)
  | call {p : Cmd M T σ ρ} {held : Finset M} {s : σ} {tests : List (T × σ)} {o : Outcome M σ ρ}
      (hp : Exec env p held s tests o) : Exec env (.call p) held s tests o.afterCall
  | deferUnlock {m : M} {p : Cmd M T σ ρ} {held : Finset M} {s : σ} {tests : List (T × σ)}
      {o : Outcome M σ ρ} (hp : Exec env p held s tests o) :
      Exec env (.deferUnlock m p) held s tests (o.release m)

/-- One of the tests has found what `bad` says of it. -/
def finds (bad : T → σ → Bool) (tests : List (T × σ)) : Bool := tests.any fun x => bad x.1 x.2

@[simp] theorem finds_nil {bad : T → σ → Bool} : finds bad ([] : List (T × σ)) = false := rfl

namespace Cmd

/-- What the mutexes held at the start need to meet so that no mutex is misused, `Q` holds at every
return and `K` at the end. Beside the mutexes goes whether a test has found what `bad` says of it. A
loop has to leave both as it finds them. -/
def Safe (bad : T → σ → Bool) :
    Cmd M T σ ρ → (Finset M → Bool → Prop) → (Finset M → Bool → Prop) → Finset M → Bool → Prop
  | .act _, _, K, held, found => K held found
  | .seq p q, Q, K, held, found =>
    p.Safe bad Q (fun held' found' => q.Safe bad Q K held' found') held found
  | .ite _ p q, Q, K, held, found => p.Safe bad Q K held found ∧ q.Safe bad Q K held found
  | .check t b p, Q, K, held, found =>
    (∀ s, b s = bad t s) ∧ p.Safe bad Q K held true ∧ K held found
  | .loop _ p, Q, K, held, found =>
    p.Safe bad Q (fun held' found' => held' = held ∧ found' = found) held found ∧ K held found
  | .lock m, _, K, held, found => m ∉ held ∧ K (insert m held) found
  | .unlock m, _, K, held, found => m ∈ held ∧ K (held.erase m) found
  | .wait m, _, K, held, found => m ∈ held ∧ K held found
  | .ret _, Q, _, held, found => Q held found
  | .call p, _, K, held, found => p.Safe bad K K held found
  | .deferUnlock m p, Q, K, held, found =>
    p.Safe bad (fun held' found' => m ∈ held' ∧ Q (held'.erase m) found')
      (fun held' found' => m ∈ held' ∧ K (held'.erase m) found') held found

section Safe

variable {bad : T → σ → Bool} {Q K : Finset M → Bool → Prop} {held : Finset M} {found : Bool}

@[simp] theorem safe_skip : (skip : Cmd M T σ ρ).Safe bad Q K held found ↔ K held found := Iff.rfl

@[simp] theorem safe_modify {f : σ → σ} :
    (modify f : Cmd M T σ ρ).Safe bad Q K held found ↔ K held found := Iff.rfl

@[simp] theorem safe_when {b : σ → Bool} {p : Cmd M T σ ρ} :
    (when b p).Safe bad Q K held found ↔ p.Safe bad Q K held found ∧ K held found := Iff.rfl

@[simp] theorem safe_block_cons {p q : Cmd M T σ ρ} {ps : List (Cmd M T σ ρ)} :
    (block (p :: q :: ps)).Safe bad Q K held found ↔
      p.Safe bad Q (fun held' found' => (block (q :: ps)).Safe bad Q K held' found') held found :=
  Iff.rfl

@[simp] theorem safe_block_singleton {p : Cmd M T σ ρ} :
    (block [p]).Safe bad Q K held found ↔ p.Safe bad Q K held found := Iff.rfl

end Safe

end Cmd

section Soundness

variable {env : σ → σ → Prop} {p : Cmd M T σ ρ} {held : Finset M} {s : σ}
  {tests tests' : List (T × σ)} {o : Outcome M σ ρ} {bad : T → σ → Bool}
  {Q K : Finset M → Bool → Prop} {found : Bool}

theorem finds_append : finds bad (tests ++ tests') = (finds bad tests || finds bad tests') :=
  List.any_append

theorem Outcome.Meets.release {m : M}
    (h : o.Meets (fun held' found' => m ∈ held' ∧ Q (held'.erase m) found')
      (fun held' found' => m ∈ held' ∧ K (held'.erase m) found') found) :
    (o.release m).Meets Q K found := by
  cases o with
  | through held' t => simpa [Outcome.release, h.1, Outcome.Meets] using h.2
  | returned held' r t => simpa [Outcome.release, h.1, Outcome.Meets] using h.2
  | misused => exact h

omit [DecidableEq M] in
theorem Outcome.Meets.of_end {K' : Finset M → Bool → Prop} (h : o.Meets Q K found)
    (ho : o.isThrough = false) : o.Meets Q K' found := by
  cases o with
  | through => cases ho
  | returned => exact h
  | misused => exact h

/-- The calculus is sound whatever the other threads do. -/
theorem Exec.meets (h : Exec env p held s tests o) (hsafe : p.Safe bad Q K held found) :
    o.Meets Q K (found || finds bad tests) := by
  induction h generalizing Q K found with
  | interfere _ _ ih => exact ih hsafe
  | act => simpa [Outcome.Meets, Cmd.Safe] using hsafe
  | seq _ _ ihp ihq =>
    rw [finds_append, ← Bool.or_assoc]
    exact ihq (ihp hsafe)
  | seqEnd _ ho ih => exact (ih hsafe).of_end ho
  | ite _ ih =>
    split at ih
    · exact ih hsafe.1
    · exact ih hsafe.2
  | @check t b p held s tests o _ ih =>
    obtain ⟨hbad, hp, hskip⟩ := hsafe
    have hfind : finds bad ((t, s) :: tests) = (b s || finds bad tests) := by
      simp [finds, hbad]
    rw [hfind]
    cases hb : b s with
    | true =>
      rw [hb] at ih
      simpa using ih hp
    | false =>
      rw [hb] at ih
      simpa using ih hskip
  | loopDone => simpa [Outcome.Meets] using hsafe.2
  | loopStep hb _ _ ihp ihl =>
    obtain ⟨rfl, hfound⟩ := ihp hsafe.1
    rw [finds_append, ← Bool.or_assoc, hfound]
    exact ihl hsafe
  | loopEnd hb _ ho ih => exact (ih hsafe.1).of_end ho
  | lock => simpa [hsafe.1, Outcome.Meets] using hsafe.2
  | unlock => simpa [Outcome.release, hsafe.1, Outcome.Meets] using hsafe.2
  | wait => simpa [hsafe.1, Outcome.Meets] using hsafe.2
  | ret => simpa [Outcome.Meets, Cmd.Safe] using hsafe
  | call _ ih =>
    have hend := ih hsafe
    rename_i o _
    cases o <;> exact hend
  | deferUnlock _ ih => exact (ih hsafe).release

end Soundness

section Run

/-- The next command, if the one before was run through. -/
def Outcome.next (k : Finset M → σ → Option (Outcome M σ ρ)) :
    Outcome M σ ρ → Option (Outcome M σ ρ)
  | .through held s => k held s
  | o => some o

/-- At most `fuel` rounds of a loop. -/
def rounds (b : σ → Bool) (body : Finset M → σ → Option (Outcome M σ ρ)) :
    ℕ → Finset M → σ → Option (Outcome M σ ρ)
  | 0, _, _ => none
  | fuel + 1, held, s =>
    if b s then (body held s).bind (Outcome.next (rounds b body fuel))
    else some (.through held s)

/-- The execution in which other threads act only at the waits, and there as `wake` says. -/
def Cmd.run (wake : σ → σ) (fuel : ℕ) :
    Cmd M T σ ρ → Finset M → σ → Option (Outcome M σ ρ)
  | .act f, held, s => (f s).map (.through held)
  | .seq p q, held, s => (p.run wake fuel held s).bind (Outcome.next (q.run wake fuel))
  | .ite b p q, held, s => if b s then p.run wake fuel held s else q.run wake fuel held s
  | .check _ b p, held, s => if b s then p.run wake fuel held s else some (.through held s)
  | .loop b p, held, s => rounds b (p.run wake fuel) fuel held s
  | .lock m, held, s => some (if m ∈ held then .misused else .through (insert m held) s)
  | .unlock m, held, s => some ((Outcome.through held s).release m)
  | .wait m, held, s => some (if m ∈ held then .through held (wake s) else .misused)
  | .ret r, held, s => some (.returned held (r s) s)
  | .call p, held, s => (p.run wake fuel held s).map Outcome.afterCall
  | .deferUnlock m p, held, s => (p.run wake fuel held s).map (Outcome.release m)

variable {wake : σ → σ} {fuel : ℕ} {p q : Cmd M T σ ρ} {held : Finset M} {s : σ}
  {o : Outcome M σ ρ}

namespace Cmd

-- proved by tactic, so that `simp` rewrites with them instead of leaving the unfolding of a whole
-- program to the kernel

@[simp] theorem run_act {f : σ → Option σ} :
    (Cmd.act f : Cmd M T σ ρ).run wake fuel held s = (f s).map (.through held) := by
  rfl

@[simp] theorem run_ite {b : σ → Bool} :
    (Cmd.ite b p q).run wake fuel held s =
      if b s then p.run wake fuel held s else q.run wake fuel held s := by
  rfl

@[simp] theorem run_lock {m : M} (h : m ∉ held) :
    (Cmd.lock m : Cmd M T σ ρ).run wake fuel held s = some (.through (insert m held) s) := by
  simp [Cmd.run, h]

@[simp] theorem run_unlock {m : M} (h : m ∈ held) :
    (Cmd.unlock m : Cmd M T σ ρ).run wake fuel held s = some (.through (held.erase m) s) := by
  simp [Cmd.run, Outcome.release, h]

@[simp] theorem run_ret {r : σ → ρ} :
    (Cmd.ret r : Cmd M T σ ρ).run wake fuel held s = some (.returned held (r s) s) := by
  rfl

@[simp] theorem run_call :
    (Cmd.call p).run wake fuel held s = (p.run wake fuel held s).map Outcome.afterCall := by
  rfl

@[simp] theorem run_deferUnlock {m : M} :
    (Cmd.deferUnlock m p).run wake fuel held s =
      (p.run wake fuel held s).map (Outcome.release m) := by
  rfl

@[simp] theorem run_modify {f : σ → σ} :
    (modify f : Cmd M T σ ρ).run wake fuel held s = some (.through held (f s)) := by
  rfl

@[simp] theorem run_when {b : σ → Bool} :
    (when b p).run wake fuel held s =
      if b s then p.run wake fuel held s else some (.through held s) := by
  rfl

@[simp] theorem run_block_cons {ps : List (Cmd M T σ ρ)} :
    (block (p :: q :: ps)).run wake fuel held s =
      (p.run wake fuel held s).bind (Outcome.next ((block (q :: ps)).run wake fuel)) := by
  rfl

@[simp] theorem run_block_singleton :
    (block [p]).run wake fuel held s = p.run wake fuel held s := by
  rfl

end Cmd

omit [DecidableEq M] in
@[simp] theorem Outcome.next_through {k : Finset M → σ → Option (Outcome M σ ρ)} :
    (Outcome.through held s).next k = k held s := by
  rfl

omit [DecidableEq M] in
@[simp] theorem Outcome.next_returned {k : Finset M → σ → Option (Outcome M σ ρ)} {r : ρ} :
    (Outcome.returned held r s).next k = some (.returned held r s) := by
  rfl

omit [DecidableEq M] in
@[simp] theorem Outcome.afterCall_returned {r : ρ} :
    (Outcome.returned held r s).afterCall = .through held s := by
  rfl

@[simp] theorem Outcome.release_returned {m : M} {r : ρ} (h : m ∈ held) :
    (Outcome.returned held r s).release m = .returned (held.erase m) r s := by
  simp [Outcome.release, h]

theorem exec_rounds {b : σ → Bool} {body : Finset M → σ → Option (Outcome M σ ρ)}
    {env : σ → σ → Prop}
    (hbody : ∀ held s o, body held s = some o → ∃ tests, Exec env p held s tests o) (n : ℕ)
    (h : rounds b body n held s = some o) : ∃ tests, Exec env (.loop b p) held s tests o := by
  induction n generalizing held s with
  | zero => cases h
  | succ n ih =>
    unfold rounds at h
    split at h
    · rename_i hb
      obtain ⟨o', ho', hnext⟩ := Option.bind_eq_some_iff.mp h
      obtain ⟨tests, hp⟩ := hbody held s o' ho'
      cases o' with
      | through held' t =>
        obtain ⟨tests', hl⟩ := ih hnext
        exact ⟨_, .loopStep hb hp hl⟩
      | returned held' r t =>
        cases hnext
        exact ⟨_, .loopEnd hb hp rfl⟩
      | misused =>
        cases hnext
        exact ⟨_, .loopEnd hb hp rfl⟩
    · rename_i hb
      cases h
      exact ⟨_, .loopDone (Bool.eq_false_of_not_eq_true hb)⟩

theorem exec_run (h : p.run wake fuel held s = some o) :
    ∃ tests, Exec (fun s t => t = wake s) p held s tests o := by
  induction p generalizing held s o with
  | act f =>
    obtain ⟨t, ht, rfl⟩ := Option.map_eq_some_iff.mp h
    exact ⟨_, .act ht⟩
  | seq p q ihp ihq =>
    obtain ⟨o', ho', hnext⟩ := Option.bind_eq_some_iff.mp h
    obtain ⟨tests, hp⟩ := ihp ho'
    cases o' with
    | through held' t =>
      obtain ⟨tests', hq⟩ := ihq hnext
      exact ⟨_, .seq hp hq⟩
    | returned held' r t =>
      cases hnext
      exact ⟨_, .seqEnd hp rfl⟩
    | misused =>
      cases hnext
      exact ⟨_, .seqEnd hp rfl⟩
  | ite b p q ihp ihq =>
    simp only [Cmd.run] at h
    by_cases hb : b s = true
    · rw [if_pos hb] at h
      obtain ⟨tests, hp⟩ := ihp h
      exact ⟨tests, .ite (by rwa [if_pos hb])⟩
    · rw [if_neg hb] at h
      obtain ⟨tests, hq⟩ := ihq h
      exact ⟨tests, .ite (by rwa [if_neg hb])⟩
  | check t b p ih =>
    simp only [Cmd.run] at h
    by_cases hb : b s = true
    · rw [if_pos hb] at h
      obtain ⟨tests, hp⟩ := ih h
      exact ⟨_, .check (by rwa [if_pos hb])⟩
    · rw [if_neg hb] at h
      cases h
      exact ⟨_, .check (by rw [if_neg hb]; exact .act rfl)⟩
  | loop b p ih => exact exec_rounds (fun _ _ _ => ih) fuel h
  | lock m =>
    cases h
    exact ⟨_, .lock⟩
  | unlock m =>
    cases h
    exact ⟨_, .unlock⟩
  | wait m =>
    cases h
    exact ⟨_, .interfere rfl .wait⟩
  | ret r =>
    cases h
    exact ⟨_, .ret⟩
  | call p ih =>
    obtain ⟨o', ho', rfl⟩ := Option.map_eq_some_iff.mp h
    obtain ⟨tests, hp⟩ := ih ho'
    exact ⟨tests, .call hp⟩
  | deferUnlock m p ih =>
    obtain ⟨o', ho', rfl⟩ := Option.map_eq_some_iff.mp h
    obtain ⟨tests, hp⟩ := ih ho'
    exact ⟨tests, .deferUnlock hp⟩

end Run

end TcpIp.Monitor
