import Mathlib.Tactic

/-! Finite runs of a labelled transition relation, with the moves they are made of. -/
namespace TcpIp.Runs

variable {σ ε : Type*}

/-- One transition of a run: the state before, the label, the state after. -/
structure Move (σ ε : Type*) where
  src : σ
  ev : ε
  dst : σ

/-- A run from `s`, listed with its moves in order. -/
inductive Run (step : σ → ε → σ → Prop) (s : σ) : List (Move σ ε) → σ → Prop
  | nil : Run step s [] s
  | snoc {tr : List (Move σ ε)} {t u : σ} {e : ε} (h : Run step s tr t) (hs : step t e u) :
      Run step s (tr ++ [⟨t, e, u⟩]) u

/-- Every move satisfies `C` relative to the moves before it. -/
def Along (C : List (Move σ ε) → Move σ ε → Prop) (tr : List (Move σ ε)) : Prop :=
  ∀ pre x post, tr = pre ++ x :: post → C pre x

variable {step : σ → ε → σ → Prop} {s t : σ} {tr : List (Move σ ε)}
  {C D : List (Move σ ε) → Move σ ε → Prop}

theorem along_nil : Along C [] := by
  intro pre x post h
  simp at h

theorem along_snoc {x : Move σ ε} : Along C (tr ++ [x]) ↔ Along C tr ∧ C tr x := by
  constructor
  · intro h
    refine ⟨fun pre y post hy => h pre y (post ++ [x]) (by simp [hy]), h tr x [] rfl⟩
  · rintro ⟨h, hx⟩ pre y post hy
    rcases List.eq_nil_or_concat post with rfl | ⟨post, z, rfl⟩
    · obtain ⟨rfl, hxy⟩ := List.append_inj' hy rfl
      simp only [List.cons.injEq, and_true] at hxy
      exact hxy ▸ hx
    · have hcons : tr ++ [x] = (pre ++ y :: post) ++ [z] := by simpa using hy
      exact h pre y post (List.append_inj' hcons rfl).1

theorem Along.left {tr' : List (Move σ ε)} (h : Along C (tr ++ tr')) : Along C tr := by
  intro pre x post hx
  exact h pre x (post ++ tr') (by simp [hx])

theorem along_of_forall_mem {P : Move σ ε → Prop} (h : ∀ x ∈ tr, P x) :
    Along (fun _ => P) tr := by
  intro pre x post hx
  exact h x (by simp [hx])

theorem along_of_forall_fin (h : ∀ i : Fin tr.length, C (tr.take i) (tr.get i)) : Along C tr := by
  rintro pre x post rfl
  have hi := h ⟨pre.length, by simp⟩
  simpa using hi

theorem Along.get (h : Along C tr) (i : Fin tr.length) : C (tr.take i) (tr.get i) :=
  h (tr.take i) (tr.get i) (tr.drop (i + 1)) (by simp)

theorem forall_mem_of_along {P : Move σ ε → Prop} (h : Along (fun _ => P) tr) :
    ∀ x ∈ tr, P x := by
  intro x hx
  obtain ⟨pre, post, rfl⟩ := List.append_of_mem hx
  exact h pre x post rfl

/-- The moves of a run up to one of its moves form a run. -/
theorem Run.pre {pre post : List (Move σ ε)} {x : Move σ ε} (h : Run step s tr t)
    (hx : tr = pre ++ x :: post) : Run step s pre x.src ∧ step x.src x.ev x.dst := by
  induction h generalizing post with
  | nil => simp at hx
  | @snoc tr t u e h hs ih =>
    rcases List.eq_nil_or_concat post with rfl | ⟨post, z, rfl⟩
    · obtain ⟨rfl, hxy⟩ := List.append_inj' hx rfl
      simp only [List.cons.injEq, and_true] at hxy
      subst hxy
      exact ⟨h, hs⟩
    · have hcons : tr ++ [⟨t, e, u⟩] = (pre ++ x :: post) ++ [z] := by simpa using hx
      exact ih (List.append_inj' hcons rfl).1

/-- The moves of a run after one of its moves form a run. -/
theorem Run.post {pre post : List (Move σ ε)} {x : Move σ ε} (h : Run step s tr t)
    (hx : tr = pre ++ x :: post) : Run step x.dst post t := by
  induction h generalizing post with
  | nil => simp at hx
  | @snoc tr t u e h hs ih =>
    rcases List.eq_nil_or_concat post with rfl | ⟨post, z, rfl⟩
    · obtain ⟨rfl, hxy⟩ := List.append_inj' hx rfl
      simp only [List.cons.injEq, and_true] at hxy
      subst hxy
      exact .nil
    · have hcons : tr ++ [⟨t, e, u⟩] = (pre ++ x :: post) ++ [z] := by simpa using hx
      obtain ⟨htr, hz⟩ := List.append_inj' hcons rfl
      simp only [List.cons.injEq, and_true] at hz
      have hpost := ih htr
      rw [← hz, List.concat_eq_append]
      exact .snoc hpost hs

/-- A history invariant that every allowed move keeps holds at the end of an allowed run. -/
theorem Run.inv {I : List (Move σ ε) → σ → Prop} (h : Run step s tr t) (h0 : I [] s)
    (hC : Along C tr)
    (hI : ∀ tr t e u, I tr t → step t e u → C tr ⟨t, e, u⟩ → I (tr ++ [⟨t, e, u⟩]) u) :
    I tr t := by
  induction h with
  | nil => exact h0
  | snoc h hs ih =>
    rw [along_snoc] at hC
    exact hI _ _ _ _ (ih hC.1) hs hC.2

/-- A state invariant kept by every allowed move holds at the end of an allowed run. -/
theorem Run.state_inv {I : σ → Prop} {P : Move σ ε → Prop} (h : Run step s tr t) (h0 : I s)
    (hP : ∀ x ∈ tr, P x) (hI : ∀ t e u, I t → step t e u → P ⟨t, e, u⟩ → I u) : I t :=
  Run.inv (I := fun _ => I) (C := fun _ => P) h h0 (along_of_forall_mem hP)
    fun _ t e u => hI t e u

/-- Where every allowed move is a step of the abstract machine between the abstract states, a run
is a run of that machine. -/
theorem Run.simulates {τ ι : Type*} {f : τ → ι → Option τ} {abs : σ → τ} {op : Move σ ε → ι}
    {I : σ → Prop} {P : Move σ ε → Prop} (h : Run step s tr t) (h0 : I s) (hP : ∀ x ∈ tr, P x)
    (hI : ∀ t e u, I t → step t e u → P ⟨t, e, u⟩ → I u)
    (hsim : ∀ t e u, I t → step t e u → P ⟨t, e, u⟩ →
      f (abs t) (op ⟨t, e, u⟩) = some (abs u)) :
    (tr.map op).foldlM f (abs s) = some (abs t) := by
  induction h with
  | nil => rfl
  | @snoc tr t u e h hs ih =>
    have hpre : ∀ x ∈ tr, P x := fun x hx => hP x (by simp [hx])
    have hlast : P ⟨t, e, u⟩ := hP _ (by simp)
    rw [List.map_append, List.foldlM_append, ih hpre]
    simpa using hsim t e u (h.state_inv h0 hpre hI) hs hlast

/-- Where every allowed move is a step of the abstract relation with the label it maps to, or leaves
the abstract state alone if it maps to none, a run is a run of that relation. -/
theorem Run.refines {τ ι : Type*} {step' : τ → ι → τ → Prop} {abs : σ → τ}
    {label : Move σ ε → Option ι} {I : σ → Prop} {P : Move σ ε → Prop} (h : Run step s tr t)
    (h0 : I s) (hP : ∀ x ∈ tr, P x) (hI : ∀ t e u, I t → step t e u → P ⟨t, e, u⟩ → I u)
    (hskip : ∀ t e u, I t → step t e u → P ⟨t, e, u⟩ → label ⟨t, e, u⟩ = none → abs u = abs t)
    (hstep : ∀ t e u i, I t → step t e u → P ⟨t, e, u⟩ → label ⟨t, e, u⟩ = some i →
      step' (abs t) i (abs u)) :
    ∃ tr', Run step' (abs s) tr' (abs t) ∧ tr'.map Move.ev = tr.filterMap label := by
  induction h with
  | nil => exact ⟨[], .nil, rfl⟩
  | @snoc tr t u e h hs ih =>
    have hpre : ∀ x ∈ tr, P x := fun x hx => hP x (by simp [hx])
    have hlast : P ⟨t, e, u⟩ := hP _ (by simp)
    have ht := h.state_inv h0 hpre hI
    obtain ⟨tr', hr, hlabels⟩ := ih hpre
    cases hl : label ⟨t, e, u⟩ with
    | none =>
      refine ⟨tr', ?_, by simp [hlabels, hl]⟩
      rwa [hskip t e u ht hs hlast hl]
    | some i => exact ⟨_, .snoc hr (hstep t e u i ht hs hlast hl), by simp [hlabels, hl]⟩

/-- Where, under the invariant, a move is right exactly when it is allowed, a run is right
throughout exactly when it is allowed throughout. `H` is what is known of every move. -/
theorem Run.along_iff {I : List (Move σ ε) → σ → Prop} {H : List (Move σ ε) → Move σ ε → Prop}
    (h : Run step s tr t) (h0 : I [] s) (hH : Along H tr)
    (hI : ∀ tr t e u, I tr t → step t e u → H tr ⟨t, e, u⟩ → C tr ⟨t, e, u⟩ →
      I (tr ++ [⟨t, e, u⟩]) u)
    (hD : ∀ tr t e u, I tr t → step t e u → H tr ⟨t, e, u⟩ →
      (D tr ⟨t, e, u⟩ ↔ C tr ⟨t, e, u⟩)) :
    Along D tr ↔ Along C tr := by
  induction h with
  | nil => exact ⟨fun _ => along_nil, fun _ => along_nil⟩
  | @snoc tr t u e h hs ih =>
    rw [along_snoc] at hH
    rw [along_snoc, along_snoc, ih hH.1]
    have hinv : Along C tr → I tr t := fun hC =>
      h.inv (C := fun tr x => H tr x ∧ C tr x) h0
        (fun pre x post hx => ⟨hH.1 pre x post hx, hC pre x post hx⟩)
        fun tr t e u ht hs hx => hI tr t e u ht hs hx.1 hx.2
    constructor
    · rintro ⟨hC, hx⟩
      exact ⟨hC, (hD _ _ _ _ (hinv hC) hs hH.2).mp hx⟩
    · rintro ⟨hC, hx⟩
      exact ⟨hC, (hD _ _ _ _ (hinv hC) hs hH.2).mpr hx⟩

/-- The version for an invariant and conditions that do not look at the past. -/
theorem Run.forall_iff {I : σ → Prop} {H P Q : Move σ ε → Prop} (h : Run step s tr t) (h0 : I s)
    (hH : ∀ x ∈ tr, H x)
    (hI : ∀ t e u, I t → step t e u → H ⟨t, e, u⟩ → P ⟨t, e, u⟩ → I u)
    (hQ : ∀ t e u, I t → step t e u → H ⟨t, e, u⟩ → (Q ⟨t, e, u⟩ ↔ P ⟨t, e, u⟩)) :
    (∀ x ∈ tr, Q x) ↔ ∀ x ∈ tr, P x := by
  have hiff := Run.along_iff (I := fun _ => I) (C := fun _ => P) (D := fun _ => Q)
    (H := fun _ => H) h h0 (along_of_forall_mem hH) (fun _ => hI) (fun _ => hQ)
  exact ⟨fun hq => forall_mem_of_along (hiff.mp (along_of_forall_mem hq)),
    fun hp => forall_mem_of_along (hiff.mpr (along_of_forall_mem hp))⟩

theorem Run.cons {e : ε} {u : σ} (hs : step s e t) (h : Run step t tr u) :
    Run step s (⟨s, e, t⟩ :: tr) u := by
  induction h with
  | nil => exact .snoc .nil hs
  | snoc _ hs' ih => exact .snoc ih hs'

theorem Run.append {u : σ} {tr' : List (Move σ ε)} (h : Run step s tr t) (h' : Run step t tr' u) :
    Run step s (tr ++ tr') u := by
  induction h' with
  | nil => simpa using h
  | snoc _ hs ih =>
    rw [← List.append_assoc]
    exact .snoc ih hs

/-- Where every move keeps the invariant at a rank, and a counted one lowers it, a run has no more
counted moves than the rank it starts at. -/
theorem Run.ranked {I : σ → ℕ → Prop} {counted : ε → Bool} {n : ℕ} (h : Run step s tr t)
    (h0 : I s n) (hI : ∀ t e u r, I t r → step t e u →
      ∃ r', I u r' ∧ r' + (counted e).toNat ≤ r) :
    ∃ r, I t r ∧ tr.countP (fun x => counted x.ev) + r ≤ n := by
  induction h with
  | nil => exact ⟨n, h0, by simp⟩
  | @snoc tr t u e _ hs ih =>
    obtain ⟨r, ht, hr⟩ := ih
    obtain ⟨r', hu, hr'⟩ := hI t e u r ht hs
    refine ⟨r', hu, ?_⟩
    rw [List.countP_append, List.countP_singleton]
    cases hc : counted e with
    | false =>
      rw [hc, Bool.toNat_false] at hr'
      rw [if_neg Bool.false_ne_true]
      omega
    | true =>
      rw [hc, Bool.toNat_true] at hr'
      rw [if_pos rfl]
      omega

/-- A clock that a move puts on by at most one. Where level `m` of an invariant, entered at `t₀`, is
kept by every allowed move and turns into the next level after `d` units, `N` levels are passed
after `N * d`. -/
theorem Run.escalates (clock : σ → ℕ) {I : ℕ → ℕ → σ → Prop} {P : Move σ ε → Prop} {N d : ℕ}
    (h : Run step s tr t) (h0 : I 0 (clock s) s) (hP : ∀ x ∈ tr, P x) (hd : 0 < d)
    (hclock : ∀ t e u, step t e u → clock u ≤ clock t + 1)
    (hkeep : ∀ m t₀ t e u, m ≤ N → I m t₀ t → step t e u → P ⟨t, e, u⟩ → I m t₀ u)
    (hnext : ∀ m t₀ t, m < N → I m t₀ t → clock t = t₀ + d → I (m + 1) (clock t) t)
    (hlate : clock s + N * d ≤ clock t) : ∃ t₀, I N t₀ t := by
  have hinv : (∃ t₀, I N t₀ t) ∨
      ∃ m < N, ∃ t₀, I m t₀ t ∧ t₀ ≤ clock s + m * d ∧ clock t < t₀ + d := by
    refine h.state_inv (I := fun t => (∃ t₀, I N t₀ t) ∨
      ∃ m < N, ∃ t₀, I m t₀ t ∧ t₀ ≤ clock s + m * d ∧ clock t < t₀ + d) ?_ hP ?_
    · cases N with
      | zero => exact Or.inl ⟨_, h0⟩
      | succ N => exact Or.inr ⟨0, N.succ_pos, _, h0, by omega, by omega⟩
    · rintro t e u (⟨t₀, hI⟩ | ⟨m, hm, t₀, hI, hstart, hbefore⟩) hs hx
      · exact Or.inl ⟨t₀, hkeep N t₀ t e u le_rfl hI hs hx⟩
      have hI' := hkeep m t₀ t e u hm.le hI hs hx
      have htick := hclock t e u hs
      rcases Nat.lt_or_ge (clock u) (t₀ + d) with hlt | hge
      · exact Or.inr ⟨m, hm, t₀, hI', hstart, hlt⟩
      · have hnow : clock u = t₀ + d := by omega
        have hI'' := hnext m t₀ u hm hI' hnow
        rcases Nat.lt_or_ge (m + 1) N with hlt | hge
        · refine Or.inr ⟨m + 1, hlt, clock u, hI'', ?_, by omega⟩
          rw [Nat.succ_mul]
          omega
        · obtain rfl : m + 1 = N := by omega
          exact Or.inl ⟨_, hI''⟩
  rcases hinv with hlast | ⟨m, hm, t₀, -, hstart, hbefore⟩
  · exact hlast
  · have hle : (m + 1) * d ≤ N * d := Nat.mul_le_mul_right d hm
    rw [Nat.succ_mul] at hle
    omega

section Since

variable {x : Move σ ε} {on off : Move σ ε → Bool}

/-- `on` has happened, and `off` has not happened since. -/
def since (on off : Move σ ε → Bool) (tr : List (Move σ ε)) : Bool :=
  tr.foldl (fun b x => on x || (b && !off x)) false

theorem since_snoc : since on off (tr ++ [x]) = (on x || (since on off tr && !off x)) := by
  simp [since]

end Since

section Play

variable {ι : Type*}

/-- Run a step function on a list of inputs, stopping at the first one it refuses. -/
def play (f : σ → ι → Option (ε × σ)) : σ → List ι → List (Move σ ε) × σ
  | s, [] => ([], s)
  | s, i :: inputs =>
    match f s i with
    | none => ([], s)
    | some (e, t) => (⟨s, e, t⟩ :: (play f t inputs).1, (play f t inputs).2)

theorem play_run {f : σ → ι → Option (ε × σ)} (hf : ∀ s i e t, f s i = some (e, t) → step s e t)
    (s : σ) (inputs : List ι) : Run step s (play f s inputs).1 (play f s inputs).2 := by
  induction inputs generalizing s with
  | nil => exact .nil
  | cons i inputs ih =>
    unfold play
    split
    · exact .nil
    · rename_i e t hst
      exact (ih t).cons (hf s i e t hst)

/-- The version for a step function that gives an answer, which the label keeps with the input. -/
theorem play_map_run {ο : Type*} {f : σ → ι → Option (σ × ο)} (label : ι → ο → ε)
    (hf : ∀ s i t o, f s i = some (t, o) → step s (label i o) t) (s : σ) (inputs : List ι) :
    Run step s (play (fun s i => (f s i).map fun r => (label i r.2, r.1)) s inputs).1
      (play (fun s i => (f s i).map fun r => (label i r.2, r.1)) s inputs).2 := by
  refine play_run (fun s i e t h => ?_) s inputs
  obtain ⟨r, hr, heq⟩ := Option.map_eq_some_iff.mp h
  obtain ⟨rfl, rfl⟩ := Prod.mk.inj heq
  exact hf s i r.1 r.2 hr

/-- The version for a step function that gives nothing but the next state. -/
theorem play_events_run {f : σ → ε → Option σ} (hf : ∀ s e t, f s e = some t → step s e t) (s : σ)
    (events : List ε) :
    Run step s (play (fun s e => (f s e).map fun t => (e, t)) s events).1
      (play (fun s e => (f s e).map fun t => (e, t)) s events).2 := by
  refine play_run (fun s i e t h => ?_) s events
  obtain ⟨u, hu, heq⟩ := Option.map_eq_some_iff.mp h
  obtain ⟨rfl, rfl⟩ := Prod.mk.inj heq
  exact hf s i u hu

end Play

end TcpIp.Runs
