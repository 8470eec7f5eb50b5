import TcpIp.Ip.RipDecoding
import TcpIp.Ip.RipNetwork

/-! A network of RIP handlers with a clock: hosts start, crash and lose their links, and the timers
of their routes run. -/
namespace TcpIp.Ip

open Maps Runs

/-- What the network and the machines are trusted with: an update is handled to its end within
`delay` seconds, or it is lost, and a timeout is at most `slack` seconds late. -/
structure Timing where
  delay : ℕ
  slack : ℕ

def RipNode.OnTime (τ : Timing) (now : ℕ) (n : RipNode) : Prop :=
  (∀ w ∈ n.host.router.watchers, now ≤ w.timeout + τ.slack) ∧
    ∀ j ∈ n.jobs, now ≤ j.1 + τ.delay

/-- The packets sent so far with the times at which their entries were read. A packet may arrive
more than once, or never. -/
structure ClockedNet (Node : Type*) where
  clock : ℕ
  alive : Node → Bool
  node : Node → RipNode
  wire : List (ℕ × RipPacket)

def ClockedNet.init {Node : Type*} (config : Node → List LinkInterface) : ClockedNet Node where
  clock := 0
  alive _ := false
  node x := .start (config x)
  wire := []

inductive ClockedEvent (Node : Type*)
  | tick
  | start (x : Node)
  | crash (x : Node)
  | act (x : Node) (ev : NodeEvent)

section Step

variable {Node : Type*} [DecidableEq Node]

/-- `config` gives the interfaces in the file that a node is started with. -/
inductive ClockedStep (config : Node → List LinkInterface) (τ : Timing) (s : ClockedNet Node) :
    ClockedEvent Node → ClockedNet Node → Prop
  | tick (h : ∀ x, s.alive x = true → (s.node x).OnTime τ (s.clock + 1)) :
      ClockedStep config τ s .tick { s with clock := s.clock + 1 }
  | start {x : Node} (h : s.alive x = false) :
      ClockedStep config τ s (.start x)
        { s with
          alive := Function.update s.alive x true
          node := Function.update s.node x (.start (config x)) }
  | crash {x : Node} :
      ClockedStep config τ s (.crash x) { s with alive := Function.update s.alive x false }
  | act {x : Node} {ev : NodeEvent} {n : RipNode} {packets : List RipPacket}
      (h : s.alive x = true) (hs : NodeStep s.clock (s.node x) ev n packets)
      (hwire : ∀ sent p, ev = .deliver sent p →
        (sent, p) ∈ s.wire ∧ s.clock ≤ sent + τ.delay) :
      ClockedStep config τ s (.act x ev)
        { s with
          node := Function.update s.node x n
          wire := s.wire ++ packets.map fun p => (s.clock, p) }

end Step

section Said

variable {now : ℕ} {n n' : RipNode} {ev : NodeEvent} {packets : List RipPacket}

/-- What is said of an address is what the table holds for it, or that it cannot be reached; only
address 0 may be invented. -/
theorem NodeStep.said (hs : NodeStep now n ev n' packets) {p : RipPacket} (hp : p ∈ packets)
    {e : RIPEntry} (he : e ∈ (decode (bufferData p.data)).entries) :
    e.cost = 0 ∧ e.address = 0 ∨ ∃ a entry, n.table.checkRoute a = some entry ∧
      (e.cost = entry.cost ∨ e.cost = infinity) ∧ (e.address = a ∨ e.address = 0) := by
  have hdata : ∀ {bytes : List U8}, p ∈ n.send bytes → p.data = stripAddress bytes := by
    intro bytes hmem
    have hsome : readFromHandler n.host.localIFs bytes = some p := Option.mem_toList.mp hmem
    unfold readFromHandler at hsome
    split at hsome
    · cases hsome
    · dsimp only at hsome
      split at hsome
      · cases hsome
      · split at hsome
        · cases hsome
        · split at hsome
          · cases hsome
          · cases hsome
            rfl
  cases hs with
  | initial range hi hrange =>
    rw [hdata hp] at he
    rcases mem_decode_arriving he with hzero | ⟨e', he', hcost, haddr⟩
    · exact Or.inl hzero
    · obtain ⟨a, entry, hentry, -, rfl⟩ := (mem_getAllEntries hrange).mp he'
      exact Or.inr ⟨a, entry, hentry, Or.inl hcost, haddr⟩
  | periodic range hi hrange =>
    rw [hdata hp] at he
    rcases mem_decode_arriving he with hzero | ⟨e', he', hcost, haddr⟩
    · exact Or.inl hzero
    · obtain ⟨a, entry, hentry, -, rfl⟩ := (mem_getSpecificEntries hrange).mp he'
      refine Or.inr ⟨a, entry, hentry, ?_, haddr⟩
      rw [hcost]
      dsimp only
      split
      · exact Or.inr rfl
      · exact Or.inl rfl
  | triggered hj =>
    rw [hdata hp, decode_arriving_triggered] at he
    cases he
  | deliver | check | commit | refresh | finish | timeout | down | up => cases hp

end Said

section Network

variable {Node : Type*} [DecidableEq Node] {config : Node → List LinkInterface} {τ : Timing}
  {s s' : ClockedNet Node} {ev : ClockedEvent Node}

/-- What holds of every running node holds after a step, if nodes start with it and keep it. -/
theorem ClockedStep.forall_alive {P : Node → RipNode → Prop}
    (hs : ClockedStep config τ s ev s') (h : ∀ x, s.alive x = true → P x (s.node x))
    (hstart : ∀ x, s'.alive x = true → P x (.start (config x)))
    (hact : ∀ x ev n packets, s.alive x = true → NodeStep s.clock (s.node x) ev n packets →
      (∀ sent p, ev = .deliver sent p → (sent, p) ∈ s.wire ∧ s.clock ≤ sent + τ.delay) →
      P x (s.node x) → P x n) :
    ∀ x, s'.alive x = true → P x (s'.node x) := by
  intro y hy
  cases hs with
  | tick => exact h y hy
  | @start x hdead =>
    by_cases hyx : y = x
    · subst hyx
      simpa using hstart y hy
    · simp only [Function.update_of_ne hyx] at hy ⊢
      exact h y hy
  | @crash x =>
    by_cases hyx : y = x
    · subst hyx
      simp at hy
    · simp only [Function.update_of_ne hyx] at hy
      exact h y hy
  | @act x ev n packets hx hs hwire =>
    by_cases hyx : y = x
    · subst hyx
      simpa using hact y ev n packets hx hs hwire (h y hx)
    · simp only [Function.update_of_ne hyx]
      exact h y hy

/-- Where a packet comes from. -/
theorem ClockedStep.wire (hs : ClockedStep config τ s ev s') {p : ℕ × RipPacket}
    (hp : p ∈ s'.wire) : p ∈ s.wire ∨ p.1 = s.clock ∧ ∃ x ev n packets, s.alive x = true ∧
      NodeStep s.clock (s.node x) ev n packets ∧ p.2 ∈ packets := by
  cases hs with
  | tick | start | crash => exact Or.inl hp
  | @act x ev n packets hx hs hwire =>
    rcases List.mem_append.mp hp with hp | hp
    · exact Or.inl hp
    · obtain ⟨q, hq, rfl⟩ := List.mem_map.mp hp
      exact Or.inr ⟨rfl, x, ev, n, packets, hx, hs, hq⟩

theorem ClockedStep.clock (hs : ClockedStep config τ s ev s') :
    s'.clock = s.clock ∨
      s'.clock = s.clock + 1 ∧ ∀ x, s'.alive x = true → (s'.node x).OnTime τ s'.clock := by
  cases hs with
  | tick htime => exact Or.inr ⟨rfl, htime⟩
  | start | crash | act => exact Or.inl rfl

end Network

section Pair

/-- A link between address 1 of `true` and address 2 of `false`. -/
def pairConfig : Bool → List LinkInterface
  | true => [⟨0, 1, 2, 5000, false⟩]
  | false => [⟨0, 2, 1, 5001, false⟩]

/-- The first update of `false`. -/
def pairUpdate : RipPacket := ⟨2, 1, stripAddress (sendUpdatesMessage 1 [⟨0, 2, fullMask⟩])⟩

/-- `true` has taken the update into its table, and sends to the timer of the new route when the
update comes a second time. -/
theorem exists_refreshing :
    ∃ tr s, Run (ClockedStep pairConfig ⟨0, 0⟩) (.init pairConfig) tr s ∧ s.clock = 0 ∧
      s.alive = (fun _ => true) ∧ (s.node true).table.checkRoute 2 = some ⟨2, 1, 1⟩ ∧
      (s.node true).jobs.map (fun j => j.2.phase) = [.check, .refresh 1] := by
  have r₀ : Run (ClockedStep pairConfig ⟨0, 0⟩) (.init pairConfig) [] _ := .nil
  have r₁ := r₀.snoc (.start (x := true) rfl)
  have r₂ := r₁.snoc (.start (x := false) rfl)
  have r₃ := r₂.snoc (.act (x := false) rfl
    (@NodeStep.periodic _ _ ⟨0, 2, 1, 5001, false⟩ _ (by decide) Maps.Ranges.refl) (by simp))
  have r₄ := r₃.snoc (.act (x := true) rfl (@NodeStep.deliver _ _ 0 pairUpdate (by decide))
    (by rintro _ _ ⟨⟩; decide))
  have r₅ := r₄.snoc (.act (x := true) rfl (@NodeStep.deliver _ _ 0 pairUpdate (by decide))
    (by rintro _ _ ⟨⟩; decide))
  have r₆ := r₅.snoc (.act (x := true) rfl
    (@NodeStep.check _ _ 0 2 ⟨0, 2, fullMask⟩ [] [] [] [(0, ⟨2, [⟨0, 2, fullMask⟩], .check, []⟩)]
      (by decide)) (by simp))
  have r₇ := r₆.snoc (.act (x := true) rfl
    (@NodeStep.commit _ _ 0 ⟨2, [⟨0, 2, fullMask⟩], .commit .add, []⟩ ⟨0, 2, fullMask⟩ [] .add []
      [(0, ⟨2, [⟨0, 2, fullMask⟩], .check, []⟩)] (by decide) rfl rfl) (by simp))
  have r₈ := r₇.snoc (.act (x := true) rfl
    (@NodeStep.check _ _ 0 2 ⟨0, 2, fullMask⟩ [] [] [(0, ⟨2, [], .check, [⟨0, 2, fullMask⟩]⟩)] []
      (by decide)) (by simp))
  have r₉ := r₈.snoc (.act (x := true) rfl
    (@NodeStep.commit _ _ 0 ⟨2, [⟨0, 2, fullMask⟩], .commit (.refresh 1), []⟩ ⟨0, 2, fullMask⟩ []
      (.refresh 1) [(0, ⟨2, [], .check, [⟨0, 2, fullMask⟩]⟩)] [] (by decide) rfl rfl) (by simp))
  refine ⟨_, _, r₉, rfl, ?_, by decide, by decide⟩
  funext x
  cases x <;> rfl

end Pair

end TcpIp.Ip
