import TcpIp.Tcp.Control
import TcpIp.Tcp.Established

/-! The congestion window under any sequence of the congestion-control routines. -/
namespace TcpIp

open Runs

/-- The routines that write CWND; `SetCCForSocket` is two of them, the store of the flag and the
assignments under the lock. -/
inductive CongestionOp
  | enableCC
  | initCC
  | updateCWNDWindow
  | afterLoss
  deriving DecidableEq

/-- The callers test `CControlEnabled` before `UpdateCWNDWindow` and `AfterLoss`. -/
def TCB.congestionStep (s : TCB) (op : CongestionOp) : Option TCB :=
  match op with
  | .enableCC => some s.enableCC
  | .initCC => if s.cControlEnabled then some s.initCC else none
  | .updateCWNDWindow => if s.cControlEnabled then some s.updateCWNDWindow else none
  | .afterLoss => if s.cControlEnabled then some s.afterLoss else none

def CongestionStep (s : TCB) (op : CongestionOp) (t : TCB) : Prop := s.congestionStep op = some t

/-- A step by the routine it runs. -/
theorem CongestionStep.cases {s t : TCB} {op : CongestionOp} (h : CongestionStep s op t) :
    op = .enableCC ∧ t = s.enableCC ∨ op = .initCC ∧ t = s.initCC ∨
      op = .updateCWNDWindow ∧ t = s.updateCWNDWindow ∨ op = .afterLoss ∧ t = s.afterLoss := by
  unfold CongestionStep TCB.congestionStep at h
  cases op with
  | enableCC => simp_all
  | initCC | updateCWNDWindow | afterLoss =>
    obtain ⟨-, ht⟩ := Option.ite_none_right_eq_some.mp h
    cases ht
    simp

/-- MSS_DATA to its square plus one. The bound on SSTHRESH, half of the largest window, carries
the upper one through slow start. -/
structure TCB.WindowInRange (s : TCB) : Prop where
  lower : mssData ≤ s.cwnd
  upper : s.cwnd ≤ mssData * mssData + 1
  threshold : s.ssthresh ≤ mssData * mssData / 2

/-- What is asked of a step: the window stays in its range, `UpdateCWNDWindow` neither divides by
zero nor wraps, and only a loss and the initialisation make the window smaller. -/
structure WindowRight (x : Move TCB CongestionOp) : Prop where
  range : mssData ≤ x.dst.cwnd ∧ x.dst.cwnd ≤ mssData * mssData + 1
  divisor : x.ev = .updateCWNDWindow → x.src.cwnd ≠ 0
  grows : x.ev = .updateCWNDWindow → x.dst.cwnd.toNat = x.src.cwnd.toNat +
    if x.src.cwnd < x.src.ssthresh then 1360 else 1360 * 1360 / x.src.cwnd.toNat
  shrinks : x.dst.cwnd < x.src.cwnd → x.ev = .afterLoss ∨ x.ev = .initCC

/-- The increment of congestion avoidance never lifts the window past the square plus one: with
`q = m / c` both `c` and `q` are positive, so `c + q ≤ c * q + 1`. -/
theorem add_div_le_succ {c m : ℕ} (hpos : 0 < c) (hle : c ≤ m) : c + m / c ≤ m + 1 := by
  have hq : 0 < m / c := Nat.div_pos hle hpos
  have hmul : m / c * c ≤ m := Nat.div_mul_le_self m c
  obtain ⟨a, rfl⟩ : ∃ a, c = a + 1 := ⟨c - 1, by omega⟩
  obtain ⟨b, hb⟩ : ∃ b, m / (a + 1) = b + 1 := ⟨m / (a + 1) - 1, by omega⟩
  rw [hb] at hmul ⊢
  nlinarith [Nat.zero_le (a * b)]

section Range

variable {s t : TCB} {op : CongestionOp}

theorem TCB.WindowInRange.bounds (h : s.WindowInRange) :
    1360 ≤ s.cwnd.toNat ∧ s.cwnd.toNat ≤ 1849601 ∧ s.ssthresh.toNat ≤ 924800 :=
  ⟨h.lower, h.upper, h.threshold⟩

theorem windowInRange_of_bounds (h1 : 1360 ≤ s.cwnd.toNat) (h2 : s.cwnd.toNat ≤ 1849601)
    (h3 : s.ssthresh.toNat ≤ 924800) : s.WindowInRange :=
  ⟨h1, h2, h3⟩

/-- The value after a new acknowledgement, as a number. -/
theorem toNat_grownCwnd (h : s.WindowInRange) :
    s.grownCwnd.toNat = s.cwnd.toNat +
      (if s.cwnd < s.ssthresh then 1360 else 1360 * 1360 / s.cwnd.toNat) ∧
    s.grownCwnd.toNat ≤ 1849601 := by
  obtain ⟨hlow, hup, hthr⟩ := h.bounds
  unfold TCB.grownCwnd
  by_cases hslow : s.cwnd < s.ssthresh
  · have hlt : s.cwnd.toNat < s.ssthresh.toNat := hslow
    have hsum : (s.cwnd + mssData).toNat = s.cwnd.toNat + 1360 := by
      rw [BitVec.toNat_add]
      exact Nat.mod_eq_of_lt (by simp [mssData]; omega)
    simp only [if_pos hslow]
    omega
  · have hdiv : (mssData * mssData / s.cwnd).toNat = 1849600 / s.cwnd.toNat := by
      rw [BitVec.toNat_udiv]
      rfl
    have hle : s.cwnd.toNat + 1849600 / s.cwnd.toNat ≤ 1849601 := by
      by_cases htop : s.cwnd.toNat ≤ 1849600
      · exact add_div_le_succ (by omega) htop
      · rw [Nat.div_eq_of_lt (by omega)]
        omega
    have hsum : (s.cwnd + mssData * mssData / s.cwnd).toNat =
        s.cwnd.toNat + 1849600 / s.cwnd.toNat := by
      rw [BitVec.toNat_add, hdiv]
      exact Nat.mod_eq_of_lt (by omega)
    simp only [if_neg hslow]
    exact ⟨hsum, hsum ▸ hle⟩

theorem CongestionStep.inRange (h : CongestionStep s op t) (hs : s.WindowInRange) :
    t.WindowInRange := by
  obtain ⟨hlow, hup, hthr⟩ := hs.bounds
  rcases h.cases with ⟨-, rfl⟩ | ⟨-, rfl⟩ | ⟨-, rfl⟩ | ⟨-, rfl⟩
  · exact ⟨hs.lower, hs.upper, hs.threshold⟩
  · exact ⟨by simp [TCB.initCC, initCwnd], by simp [TCB.initCC, initCwnd, mssData],
      by simp [TCB.initCC, initThreshold, mssData]⟩
  · obtain ⟨hgrow, hle⟩ := toNat_grownCwnd hs
    rw [updateCWNDWindow_eq]
    exact windowInRange_of_bounds (show 1360 ≤ s.grownCwnd.toNat by omega) hle hthr
  · have hhalf : (s.cwnd / 2).toNat = s.cwnd.toNat / 2 := by
      rw [BitVec.toNat_udiv]
      rfl
    exact windowInRange_of_bounds (by simp [TCB.afterLoss]) (by simp [TCB.afterLoss])
      (show (s.cwnd / 2).toNat ≤ 924800 by omega)

theorem CongestionStep.right (h : CongestionStep s op t) (hs : s.WindowInRange) :
    WindowRight ⟨s, op, t⟩ := by
  have ht := h.inRange hs
  have hlow := hs.bounds.1
  have hne : s.cwnd ≠ 0 := by
    intro h0
    rw [h0] at hlow
    exact absurd hlow (by decide)
  refine ⟨⟨ht.lower, ht.upper⟩, fun _ => hne, ?_, ?_⟩
  · rintro rfl
    rcases h.cases with ⟨hop, -⟩ | ⟨hop, -⟩ | ⟨-, rfl⟩ | ⟨hop, -⟩
    · cases hop
    · cases hop
    · rw [updateCWNDWindow_eq]
      exact (toNat_grownCwnd hs).1
    · cases hop
  · intro hlt
    rcases h.cases with ⟨-, rfl⟩ | ⟨hop, -⟩ | ⟨-, rfl⟩ | ⟨hop, -⟩
    · exact absurd hlt (BitVec.lt_irrefl _)
    · exact Or.inr hop
    · have hgrow := (toNat_grownCwnd hs).1
      rw [updateCWNDWindow_eq] at hlt
      have hlt' : s.grownCwnd.toNat < s.cwnd.toNat := hlt
      omega
    · exact Or.inl hop

/-- A TCB as `Connect` and `HandleStateListen` make it: a whole buffer for the window, no
threshold yet. -/
theorem windowInRange_created (hw : s.cwnd = maxBufSize) (ht : s.ssthresh = 0) :
    s.WindowInRange := by
  refine ⟨?_, ?_, ?_⟩
  · rw [hw]
    decide
  · rw [hw]
    decide
  · rw [ht]
    decide

/-- From the creation of the TCB on, in every order of the routines, the congestion window stays
between MSS_DATA and its square plus one. -/
theorem congestion_window_in_range {tr : List (Move TCB CongestionOp)} (hw : s.cwnd = maxBufSize)
    (hthr : s.ssthresh = 0) (h : Run CongestionStep s tr t) :
    (mssData ≤ t.cwnd ∧ t.cwnd ≤ mssData * mssData + 1) ∧ ∀ x ∈ tr, WindowRight x := by
  have hinv : t.WindowInRange ∧ ∀ x ∈ tr, WindowRight x := by
    induction h with
    | nil => exact ⟨windowInRange_created hw hthr, by simp⟩
    | @snoc tr t u e h hs ih =>
      obtain ⟨hrange, hright⟩ := ih
      refine ⟨hs.inRange hrange, fun x hx => ?_⟩
      rcases List.mem_append.mp hx with hx | hx
      · exact hright x hx
      · rw [List.mem_singleton.mp hx]
        exact hs.right hrange
  exact ⟨⟨hinv.1.lower, hinv.1.upper⟩, hinv.2⟩

/-- A new acknowledgement and a loss between the two halves of `SetCCForSocket`, which is called
again during slow start. -/
theorem congestion_window_in_range_setCC_twice :
    let s := (Conn.connect ⟨1, 1000, 2, 2000⟩ 99).tcb
    let r := play (fun s op => (TCB.congestionStep s op).map fun t => (op, t)) s
      [.enableCC, .updateCWNDWindow, .afterLoss, .updateCWNDWindow, .enableCC, .initCC,
        .updateCWNDWindow]
    (r.1.map fun x => x.dst.cwnd) = [65535, 65563, 1360, 2720, 2720, 1360, 2720] ∧
      (mssData ≤ r.2.cwnd ∧ r.2.cwnd ≤ mssData * mssData + 1) ∧ ∀ x ∈ r.1, WindowRight x :=
  ⟨by decide, congestion_window_in_range rfl rfl (play_events_run (fun _ _ _ h => h) _ _)⟩

end Range

section Connection

variable {c c' : Conn} {l : Label} {tr : List (Move Conn Label)}

/-- A step of the connection runs at most one of the routines on these fields. -/
theorem Step.congestion (h : Step c l c') :
    ∃ t, (t = c.tcb ∨ ∃ op, CongestionStep c.tcb op t) ∧ t.cwnd = c'.tcb.cwnd ∧
      t.ssthresh = c'.tcb.ssthresh ∧ t.cControlEnabled = c'.tcb.cControlEnabled := by
  have hm := h.control
  generalize hk : c'.tcb.control = k at hm
  have hcwnd : k.cwnd = c'.tcb.cwnd := hk ▸ rfl
  have hthr : k.ssthresh = c'.tcb.ssthresh := hk ▸ rfl
  have hen : k.enabled = c'.tcb.cControlEnabled := hk ▸ rfl
  clear hk
  generalize l.ev = ev at hm
  cases hm with
  | same | dropped => exact ⟨c.tcb, Or.inl rfl, hcwnd, hthr, hen⟩
  | acked =>
    by_cases hcc : c.tcb.cControlEnabled = true
    · refine ⟨c.tcb.updateCWNDWindow, Or.inr ⟨.updateCWNDWindow, if_pos hcc⟩, ?_⟩
      rw [updateCWNDWindow_eq]
      simp only [Conn.ackedCwnd, if_pos hcc] at hcwnd
      exact ⟨hcwnd, hthr, hen⟩
    · simp only [Conn.ackedCwnd, if_neg hcc] at hcwnd
      exact ⟨c.tcb, Or.inl rfl, hcwnd, hthr, hen⟩
  | fast hf =>
    have hcc : c.tcb.cControlEnabled = true := by
      simp only [Conn.fastRetransmits, TCB.thirdDuplicate, Bool.and_eq_true,
        decide_eq_true_eq] at hf
      exact hf.2.1
    exact ⟨c.tcb.afterLoss, Or.inr ⟨.afterLoss, if_pos hcc⟩, hcwnd, hthr, hen⟩
  | timedOut =>
    by_cases hcc : c.tcb.cControlEnabled = true
    · simp only [if_pos hcc] at hcwnd hthr
      exact ⟨c.tcb.afterLoss, Or.inr ⟨.afterLoss, if_pos hcc⟩, hcwnd, hthr, hen⟩
    · simp only [if_neg hcc] at hcwnd hthr
      exact ⟨c.tcb, Or.inl rfl, hcwnd, hthr, hen⟩
  | enableCC => exact ⟨c.tcb.enableCC, Or.inr ⟨.enableCC, rfl⟩, hcwnd, hthr, hen⟩
  | initCC hcc => exact ⟨c.tcb.initCC, Or.inr ⟨.initCC, if_pos hcc⟩, hcwnd, hthr, hen⟩

theorem Step.windowInRange (h : Step c l c') (hc : c.tcb.WindowInRange) :
    c'.tcb.WindowInRange := by
  obtain ⟨t, ht, hcwnd, hthr, -⟩ := h.congestion
  have hrange : t.WindowInRange := by
    rcases ht with rfl | ⟨op, ht⟩
    · exact hc
    · exact ht.inRange hc
  exact ⟨hcwnd ▸ hrange.lower, hcwnd ▸ hrange.upper, hthr ▸ hrange.threshold⟩

/-- Over the whole life of a connection, with congestion control on or off. -/
theorem Opening.windowInRange (ho : Opening c) (hthr : c.tcb.ssthresh = 0)
    (h : Run Step c tr c') : c'.tcb.WindowInRange := by
  induction h with
  | nil => exact windowInRange_created ho.cwnd hthr
  | snoc _ hs ih => exact hs.windowInRange ih

end Connection

end TcpIp
