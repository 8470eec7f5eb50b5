import TcpIp.Lib.Rounding
import TcpIp.Tcp.BackOff

/-! The round-trip estimate of `updateTimeout` in binary64. The conversions of `Float` cannot be
reasoned about, so the estimate is computed here on rationals, each operation rounded to 53 bits.
All values are far from the ends of the exponent range. -/
namespace TcpIp

open Runs Rounding

/-- The compiler may round a product together with the sum it goes into. -/
inductive Fusion
  | none | first | second
  deriving DecidableEq

namespace Binary64

def float64 (n : Int64) : ℚ := toNearest 53 n.toInt

def alpha : ℚ := toNearest 53 (85 / 100)

/-- Go folds the constant `1 - ALPHA` exactly. -/
def oneMinusAlpha : ℚ := toNearest 53 (1 - 85 / 100)

def beta : ℚ := 3 / 2

def min64f (val1 val2 : ℚ) : ℚ := if val1 < val2 then val1 else val2

def max64f (val1 val2 : ℚ) : ℚ := if val1 > val2 then val1 else val2

def smoothed (fusion : Fusion) (srttLast rtt : ℚ) : ℚ :=
  match fusion with
  | .none =>
    toNearest 53 (toNearest 53 (srttLast * alpha) + toNearest 53 (rtt * oneMinusAlpha))
  | .first => toNearest 53 (srttLast * alpha + toNearest 53 (rtt * oneMinusAlpha))
  | .second => toNearest 53 (toNearest 53 (srttLast * alpha) + rtt * oneMinusAlpha)

def calculateSRTT (fusion : Fusion) (srttLast rtt : Int64) : Int64 :=
  Int64.ofInt (truncate (smoothed fusion (float64 srttLast) (float64 rtt)))

def calculateRTO (srtt : Int64) : Int64 :=
  Int64.ofInt (truncate
    (min64f (float64 rtoUpper) (max64f (toNearest 53 (beta * float64 srtt)) (float64 rtoLower))))

section Estimate

variable {fusion : Fusion} {n : Int64} {m M : ℤ} {s r : Int64}

/-- Integers of at most 53 bits are converted as they are. -/
theorem float64_eq (h : |n.toInt| < 2 ^ 53) : float64 n = n.toInt := toNearest_intCast h

theorem float64_of_le (h0 : 0 ≤ n.toInt) (h : n.toInt ≤ 2 ^ 48) : float64 n = n.toInt := by
  refine float64_eq ?_
  rw [abs_of_nonneg h0]
  norm_num at h ⊢
  omega

theorem float64_rtoUpper : float64 rtoUpper = 1000000000 := by
  rw [float64_eq (by simp), toInt_rtoUpper]
  norm_num

theorem float64_rtoLower : float64 rtoLower = 1000000 := by
  rw [float64_eq (by simp), toInt_rtoLower]
  norm_num

theorem toInt_ofInt {z : ℤ} (hlo : -2 ^ 62 ≤ z) (hhi : z ≤ 2 ^ 62) : (Int64.ofInt z).toInt = z := by
  rw [Int64.toInt_ofInt]
  exact Int.bmod_eq_of_le (by norm_num at *; omega) (by norm_num at *; omega)

/-- Whatever the estimate, RTO is put between its bounds. -/
theorem calculateRTO_bounds (srtt : Int64) :
    rtoLower ≤ calculateRTO srtt ∧ calculateRTO srtt ≤ rtoUpper := by
  unfold calculateRTO
  rw [float64_rtoUpper, float64_rtoLower]
  generalize toNearest 53 (beta * float64 srtt) = x
  have hmax : (1000000 : ℚ) ≤ max64f x 1000000 := by
    unfold max64f
    split <;> linarith
  have hlo : (1000000 : ℚ) ≤ min64f 1000000000 (max64f x 1000000) := by
    unfold min64f
    split <;> linarith
  have hhi : min64f 1000000000 (max64f x 1000000) ≤ 1000000000 := by
    unfold min64f
    split <;> linarith
  generalize min64f 1000000000 (max64f x 1000000) = y at hlo hhi
  have hfloor : truncate y = ⌊y⌋ := truncate_of_nonneg (by linarith)
  have hlow : (1000000 : ℤ) ≤ ⌊y⌋ := Int.le_floor.mpr (by exact_mod_cast hlo)
  have hhigh : ⌊y⌋ ≤ 1000000000 := by
    have hle : ((⌊y⌋ : ℤ) : ℚ) ≤ ((1000000000 : ℤ) : ℚ) :=
      (Int.floor_le y).trans (by exact_mod_cast hhi)
    exact_mod_cast hle
  rw [hfloor, Int64.le_iff_toInt_le, Int64.le_iff_toInt_le,
    toInt_ofInt (by norm_num; omega) (by norm_num; omega), toInt_rtoLower, toInt_rtoUpper]
  exact ⟨hlow, hhigh⟩

/-- Three roundings lie between the smoothed value and the exact one, fused or not. -/
theorem smoothed_within (fusion : Fusion) {x y : ℚ} (hx : 0 ≤ x) (hy : 0 ≤ y) :
    Within 53 3 (x * (85 / 100) + y * (15 / 100)) (smoothed fusion x y) := by
  have hα : Within 53 1 (85 / 100) alpha := (Within.refl 53 _).round (by norm_num)
  have hβ : Within 53 1 (15 / 100) oneMinusAlpha := by
    have hβ' : Within 53 1 (1 - 85 / 100) oneMinusAlpha := (Within.refl 53 _).round (by norm_num)
    norm_num at hβ' ⊢
    exact hβ'
  have hx' : 0 ≤ x * (85 / 100) := by positivity
  have hy' : 0 ≤ y * (15 / 100) := by positivity
  have hfirst := hα.const_mul hx
  have hsecond := hβ.const_mul hy
  cases fusion with
  | none => exact ((hfirst.round hx').add (hsecond.round hy')).round (by positivity)
  | first => exact ((hfirst.succ hx').add (hsecond.round hy')).round (by positivity)
  | second => exact ((hfirst.round hx').add (hsecond.succ hy')).round (by positivity)

/-- Samples between `m` and `M` leave the estimate between them, up to one nanosecond below. -/
theorem calculateSRTT_bounds (fusion : Fusion) (hm : 0 ≤ m) (hM : M ≤ 2 ^ 48)
    (hs : max 0 (m - 1) ≤ s.toInt ∧ s.toInt ≤ M) (hr : m ≤ r.toInt ∧ r.toInt ≤ M) :
    max 0 (m - 1) ≤ (calculateSRTT fusion s r).toInt ∧ (calculateSRTT fusion s r).toInt ≤ M := by
  obtain ⟨hs0, hs1⟩ := max_le_iff.mp hs.1
  have hfs := float64_of_le hs0 (hs.2.trans hM)
  have hfr := float64_of_le (hm.trans hr.1) (hr.2.trans hM)
  have hx : (0 : ℚ) ≤ s.toInt := by exact_mod_cast hs0
  have hy : (0 : ℚ) ≤ r.toInt := by exact_mod_cast hm.trans hr.1
  have hwithin := smoothed_within fusion hx hy
  unfold calculateSRTT
  rw [hfs, hfr]
  generalize smoothed fusion (s.toInt : ℚ) (r.toInt : ℚ) = z at hwithin
  have hz := hwithin.nonneg (by positivity)
  have hsM : (s.toInt : ℚ) ≤ M := by exact_mod_cast hs.2
  have hrM : (r.toInt : ℚ) ≤ M := by exact_mod_cast hr.2
  have hsm : (m : ℚ) - 1 ≤ s.toInt := by exact_mod_cast hs1
  have hrm : (m : ℚ) ≤ r.toInt := by exact_mod_cast hr.1
  have hMq : (M : ℚ) ≤ 2 ^ 48 := by exact_mod_cast hM
  have hup : z < M + 1 := by
    have hexact : (s.toInt : ℚ) * (85 / 100) + r.toInt * (15 / 100) ≤ M := by linarith
    have hfactor : (1 + 1 / 2 ^ 53 : ℚ) ^ 3 ≤ 1 + 1 / 2 ^ 50 := by norm_num
    have hnonneg : (0 : ℚ) ≤ s.toInt * (85 / 100) + r.toInt * (15 / 100) := by positivity
    calc z ≤ (1 + 1 / 2 ^ 53) ^ 3 * (s.toInt * (85 / 100) + r.toInt * (15 / 100)) := hwithin.upper
      _ ≤ (1 + 1 / 2 ^ 50) * M := mul_le_mul hfactor hexact hnonneg (by norm_num)
      _ = M + M / 2 ^ 50 := by ring
      _ < M + 1 := by
        have hsmall : (M : ℚ) / 2 ^ 50 ≤ 2 ^ 48 / 2 ^ 50 := by gcongr
        norm_num at hsmall ⊢
        linarith
  have hlow : (m : ℚ) - 1 ≤ z := by
    have hexact : (m : ℚ) - 85 / 100 ≤ s.toInt * (85 / 100) + r.toInt * (15 / 100) := by linarith
    have hle : (s.toInt : ℚ) * (85 / 100) + r.toInt * (15 / 100) ≤ 2 ^ 48 := by linarith
    have hfactor : (1 - 1 / 2 ^ 51 : ℚ) ≤ (1 - 1 / 2 ^ 53) ^ 3 := by norm_num
    have hnonneg : (0 : ℚ) ≤ s.toInt * (85 / 100) + r.toInt * (15 / 100) := by positivity
    have hscaled := mul_le_mul_of_nonneg_right hfactor hnonneg
    have hlower := hwithin.lower
    norm_num at hscaled hlower hle ⊢
    linarith
  have hfloor : truncate z = ⌊z⌋ := truncate_of_nonneg hz
  have hge : max 0 (m - 1) ≤ ⌊z⌋ := by
    refine max_le (Int.floor_nonneg.mpr hz) (Int.le_floor.mpr ?_)
    push_cast
    exact hlow
  have hlt : ⌊z⌋ < M + 1 := Int.floor_lt.mpr (by push_cast; exact hup)
  have hpos := (max_le_iff.mp hge).1
  rw [hfloor, toInt_ofInt (by norm_num; omega) (by norm_num at *; omega)]
  exact ⟨hge, by omega⟩

/-- RTO is one and a half times the estimate, between its bounds. -/
theorem calculateRTO_eq (h0 : 0 ≤ s.toInt) (hs : s.toInt ≤ 2 ^ 48) :
    (calculateRTO s).toInt = min 1000000000 (max (3 * s.toInt / 2) 1000000) := by
  set t : ℚ := ((3 * s.toInt : ℤ) : ℚ) / 2 with ht
  have hexact : toNearest 53 (beta * float64 s) = t := by
    have hbits : |3 * s.toInt| < 2 ^ 53 := by
      rw [abs_of_nonneg (by omega)]
      norm_num at hs ⊢
      omega
    have hhalf : beta * float64 s = ((3 * s.toInt : ℤ) : ℚ) * 2 ^ (-1 : ℤ) := by
      rw [float64_of_le h0 hs, beta]
      push_cast
      ring
    rw [hhalf, toNearest_eq_self hbits (-1), ht]
    ring
  have hfloor : ⌊t⌋ = 3 * s.toInt / 2 := by
    have hdiv := Rat.floor_intCast_div_natCast (3 * s.toInt) 2
    push_cast [ht] at hdiv ⊢
    exact hdiv
  have hlower : t > 1000000 ↔ 2000000 < 3 * s.toInt := by
    rw [ht, gt_iff_lt, lt_div_iff₀ (by norm_num)]
    exact_mod_cast Iff.rfl
  have hupper : 1000000000 < t ↔ 2000000000 < 3 * s.toInt := by
    rw [ht, lt_div_iff₀ (by norm_num)]
    exact_mod_cast Iff.rfl
  unfold calculateRTO
  rw [hexact, float64_rtoUpper, float64_rtoLower, max64f]
  by_cases hlow : t > 1000000
  · rw [if_pos hlow, min64f]
    have hint := hlower.mp hlow
    by_cases hup : 1000000000 < t
    · have hint' := hupper.mp hup
      have htrunc : truncate 1000000000 = 1000000000 := by
        rw [truncate_of_nonneg (by norm_num)]
        exact_mod_cast Int.floor_intCast (R := ℚ) 1000000000
      rw [if_pos hup, htrunc, toInt_ofInt (by norm_num) (by norm_num)]
      omega
    · have hint' := mt hupper.mpr hup
      rw [if_neg hup, truncate_of_nonneg (by linarith), hfloor,
        toInt_ofInt (by norm_num; omega) (by norm_num; omega)]
      omega
  · have hint := mt hlower.mpr hlow
    have htrunc : truncate 1000000 = 1000000 := by
      rw [truncate_of_nonneg (by norm_num)]
      exact_mod_cast Int.floor_intCast (R := ℚ) 1000000
    rw [if_neg hlow, min64f, if_neg (by norm_num), htrunc,
      toInt_ofInt (by norm_num) (by norm_num)]
    omega

end Estimate

end Binary64

/-- The round trip that a step measures. -/
def Conn.sampleRTT (c : Conn) (now : Int64) : Event → Option Int64
  | .segment seg =>
    if c.takesAck seg.hdr then (c.tcb.segmentToTimestamp seg.hdr.ackNum).map (now - ·) else none
  | _ => none

/-- `updateTimeout` with its estimate in binary64, on what the rest of the step has made of `c`. -/
def Conn.estimate (c : Conn) (fusion : Fusion) (sample : Option Int64) (d : Conn) : Conn :=
  match sample with
  | none => d
  | some rtt =>
    let srtt := if c.tcb.srtt = -1 then Binary64.calculateSRTT fusion rtt rtt
      else Binary64.calculateSRTT fusion c.tcb.srtt rtt
    { d with tcb := { d.tcb with srtt, rto := Binary64.calculateRTO srtt } }

/-- A step of the connection, with samples that satisfy `P`. -/
def MeasuringStep (P : Int64 → Prop) (c : Conn) (l : Label) (c' : Conn) : Prop :=
  ∃ env fusion d, c.step env l.ev = some (d, l.out) ∧
    (∀ rtt ∈ c.sampleRTT env.now l.ev, P rtt) ∧
    c' = c.estimate fusion (c.sampleRTT env.now l.ev) d

section Steps

variable {c c' : Conn} {l : Label} {s : TCB} {hdr : TCPFields} {P : Int64 → Prop}
  {tr : List (Move Conn Label)} {m M : ℤ}

theorem sampleRTT_isSome (c : Conn) (now : Int64) (ev : Event) :
    (c.sampleRTT now ev).isSome = c.samples ev := by
  cases ev with
  | segment seg =>
    simp only [Conn.sampleRTT, Conn.samples]
    split <;> simp_all
  | _ => rfl

theorem receiveAck_srtt (key : SocketData) (now : Int64)
    (h : s.acceptsAck hdr = true → s.segmentToTimestamp hdr.ackNum = none) :
    (s.receiveAck key now hdr).1.srtt = s.srtt := by
  by_cases hfast : s.thirdDuplicate hdr = true
  · have hthird := hfast
    simp only [TCB.thirdDuplicate, decide_eq_true_eq] at hthird
    obtain ⟨p, rest, hq⟩ := List.exists_cons_of_length_pos hthird.2.2.2
    simp only [TCB.receiveAck, if_pos hfast, TCB.fastRetransmit, hq]
    rfl
  have hnot := Bool.eq_false_of_not_eq_true hfast
  obtain ⟨k, hk⟩ := s.countDuplicate_eq hdr
  rw [receiveAck_of_not_third hnot, hk]
  split
  · rfl
  · rename_i hd
    obtain ⟨k', hk'⟩ := acceptAck_split { s with currentAckFreq := k } now hdr
    have hnone := h (by simp [TCB.acceptsAck, hnot, hd])
    rw [hk', TCB.updateTimeout]
    simp only [hnone]

theorem Handled.srtt {seg : Segment} {out : List Msg} (h : Handled c seg c' out)
    (hp : c.passesToReceive seg.hdr = false) : c'.tcb.srtt = c.tcb.srtt := by
  cases h with
  | received hr hack => simp [hr.passes hack] at hp
  | fin =>
    dsimp only [TCB.receiveFin]
    split
    · rfl
    · split <;> rfl
  | synSent iss hs hsyn hack hc' => rw [hc']
  | finWait2Fin hs hf hseq hs' => rw [hs']
  | ignored | synRepeated | accepted | finWait1Fin | closingAcked | finRepeated | lastAcked => rfl

theorem sendStep_srtt (s : TCB) (key : SocketData) (now : Int64) (pc : SendPc) :
    (s.sendStep key now pc).2.1.srtt = s.srtt := by
  cases pc with
  | notStarted | returned | top | waitData1 | waitData2 | windowWait => rfl
  | transmit a b =>
    simp only [TCB.sendStep, TCB.sendSegment]
    split
    · split <;> rfl
    · rfl
  | zeroWait =>
    simp only [TCB.sendStep]
    split
    · rfl
    · split <;> rfl

theorem applyTimeout_srtt (c : Conn) (key : SocketData) (now : Int64) :
    (c.applyTimeout (c.tcb.waitTimeout key now)).1.tcb.srtt = c.tcb.srtt := by
  unfold TCB.waitTimeout
  split
  · rfl
  split
  · rfl
  split
  · rfl
  · by_cases hcc : c.tcb.cControlEnabled = true
    · simp only [if_pos hcc]
      rfl
    · simp only [if_neg hcc]
      rfl

/-- Without a sample the estimate is kept. -/
theorem Step.srtt (h : Step c l c') (hs : c.samples l.ev = false) : c'.tcb.srtt = c.tcb.srtt := by
  have hm := h.moved
  obtain ⟨env, henv⟩ := h
  generalize l.ev = ev at hm henv hs
  generalize l.out = o at hm henv
  cases hm with
  | @segment seg c' msgs hin hh =>
    by_cases hp : c.passesToReceive seg.hdr = true
    · obtain ⟨u, o₁, o₂, ⟨st, r, e, rfl⟩, hack, -⟩ := step_acks henv hp
      have hnone : ({ c.tcb with state := st, rcv := r, earlyArrivals := e } : TCB).acceptsAck
          seg.hdr = true → c.tcb.segmentToTimestamp seg.hdr.ackNum = none := by
        intro ha
        have htakes : c.takesAck seg.hdr = true := by
          rw [Conn.takesAck, hp]
          exact ha
        simpa [Conn.samples, htakes] using hs
      have hkeep := receiveAck_srtt c.key env.now hnone
      rw [hack] at hkeep
      exact hkeep
    · exact hh.srtt (Bool.eq_false_of_not_eq_true hp)
  | send =>
    simp only [Conn.step] at henv
    have hsend := congrArg Conn.tcb (Prod.mk.inj (Option.some.inj henv)).1
    dsimp only at hsend ⊢
    rw [← hsend, sendStep_srtt]
  | wrote hh hw =>
    obtain ⟨hs, hn, buffer, rfl, hb⟩ := writeRound_wrote hw
    rfl
  | read hr hh hin he =>
    obtain ⟨n, -, rfl, -⟩ := he.consumed
    rfl
  | readWake hr he =>
    obtain ⟨n, -, rfl, -⟩ := he.consumed
    rfl
  | closeWaits hc =>
    cases hc with
    | enter | wake => rfl
  | closes hc =>
    cases hc with
    | enter | wake => rfl
  | timerStopped ht | timerIdle ht | gaveUp ht | resent _ ht =>
    simp only [Conn.step, if_pos ht] at henv
    have htimer := congrArg (fun r : Conn × Output => r.1.tcb.srtt) (Option.some.inj henv)
    exact htimer.symm.trans (applyTimeout_srtt c c.key env.now)
  | handshakeGaveUp | handshakeResent | enableCC | initCC | notWritten | probe | closeReturn
  | ackToken | expired => rfl

/-- A step that measures nothing is one of the connection alone. -/
theorem MeasuringStep.of_not_samples (h : MeasuringStep P c l c') (hs : c.samples l.ev = false) :
    Step c l c' := by
  obtain ⟨env, fusion, d, hstep, -, rfl⟩ := h
  have hnone : c.sampleRTT env.now l.ev = none := by
    rw [← Option.not_isSome_iff_eq_none, sampleRTT_isSome, hs]
    simp
  rw [hnone]
  exact ⟨env, hstep⟩

/-- The estimate after a sample. -/
theorem MeasuringStep.of_samples (h : MeasuringStep P c l c') (hs : c.samples l.ev = true) :
    ∃ fusion rtt d, Step c l d ∧ P rtt ∧ c' = c.estimate fusion (some rtt) d := by
  obtain ⟨env, fusion, d, hstep, hP, rfl⟩ := h
  rw [← sampleRTT_isSome c env.now] at hs
  obtain ⟨rtt, hrtt⟩ := Option.isSome_iff_exists.mp hs
  exact ⟨fusion, rtt, d, ⟨env, hstep⟩, hP rtt hrtt, by rw [hrtt]⟩

/-- There is no estimate yet, or it lies between the samples, up to one nanosecond below. -/
def Conn.SrttWithin (m M : ℤ) (c : Conn) : Prop :=
  c.tcb.srtt = -1 ∨ max 0 (m - 1) ≤ c.tcb.srtt.toInt ∧ c.tcb.srtt.toInt ≤ M

/-- The sample of a step lies in `[m, M]`. -/
abbrev SampleIn (m M : ℤ) (rtt : Int64) : Prop := m ≤ rtt.toInt ∧ rtt.toInt ≤ M

theorem MeasuringStep.within_of_samples (h : MeasuringStep (SampleIn m M) c l c') (hm : 0 ≤ m)
    (hM : M ≤ 2 ^ 48) (hc : c.SrttWithin m M) (hs : c.samples l.ev = true) :
    (max 0 (m - 1) ≤ c'.tcb.srtt.toInt ∧ c'.tcb.srtt.toInt ≤ M) ∧
      c'.tcb.rto.toInt = min 1000000000 (max (3 * c'.tcb.srtt.toInt / 2) 1000000) := by
  obtain ⟨fusion, rtt, d, -, hrtt, rfl⟩ := h.of_samples hs
  have hlast : ∀ last : Int64, max 0 (m - 1) ≤ last.toInt ∧ last.toInt ≤ M →
      (max 0 (m - 1) ≤ (Binary64.calculateSRTT fusion last rtt).toInt ∧
        (Binary64.calculateSRTT fusion last rtt).toInt ≤ M) ∧
      (Binary64.calculateRTO (Binary64.calculateSRTT fusion last rtt)).toInt =
        min 1000000000 (max (3 * (Binary64.calculateSRTT fusion last rtt).toInt / 2) 1000000) := by
    intro last hbounds
    have hsrtt := Binary64.calculateSRTT_bounds fusion hm hM hbounds hrtt
    exact ⟨hsrtt, Binary64.calculateRTO_eq ((le_max_left _ _).trans hsrtt.1) (hsrtt.2.trans hM)⟩
  by_cases hfirst : c.tcb.srtt = -1
  · simp only [Conn.estimate, if_pos hfirst]
    refine hlast rtt ⟨?_, hrtt.2⟩
    exact max_le (hm.trans hrtt.1) (by linarith [hrtt.1])
  · simp only [Conn.estimate, if_neg hfirst]
    exact hlast c.tcb.srtt (hc.resolve_left hfirst)

theorem MeasuringStep.within (h : MeasuringStep (SampleIn m M) c l c') (hm : 0 ≤ m)
    (hM : M ≤ 2 ^ 48) (hc : c.SrttWithin m M) : c'.SrttWithin m M := by
  by_cases hs : c.samples l.ev = true
  · exact Or.inr (h.within_of_samples hm hM hc hs).1
  · have hno := Bool.eq_false_of_not_eq_true hs
    rw [Conn.SrttWithin, (h.of_not_samples hno).srtt hno]
    exact hc

/-- With round trips between `m` and `M`, at most three days, every estimate is between them, at
most one nanosecond below, and the RTO that is set with it is one and a half times the estimate
within its bounds, whether or not a product is fused with the sum. -/
theorem estimates_follow_samples (h0 : c.tcb.srtt = -1) (hm : 0 ≤ m) (hM : M ≤ 2 ^ 48)
    (hrun : Run (MeasuringStep (SampleIn m M)) c tr c') :
    ∀ x ∈ tr, x.dst.SrttWithin m M ∧
      (x.src.samples x.ev.ev = true → 0 ≤ x.dst.tcb.srtt.toInt ∧
        x.dst.tcb.rto.toInt = min 1000000000 (max (3 * x.dst.tcb.srtt.toInt / 2) 1000000)) := by
  intro x hx
  obtain ⟨pre, post, rfl⟩ := List.append_of_mem hx
  obtain ⟨hpre, hstep⟩ := hrun.pre rfl
  have hsrc : x.src.SrttWithin m M :=
    hpre.state_inv (P := fun _ => True) (Or.inl h0) (fun _ _ => trivial)
      fun t e u ht hstep _ => hstep.within hm hM ht
  refine ⟨hstep.within hm hM hsrc, fun hs => ?_⟩
  obtain ⟨hsrtt, hrto⟩ := hstep.within_of_samples hm hM hsrc hs
  exact ⟨(le_max_left _ _).trans hsrtt.1, hrto⟩

/-- RTO stays a doubled value, also with the estimate computed. -/
theorem MeasuringStep.doubled {lo : ℤ} (h : MeasuringStep P c l c') (hd : Doubled lo tr c)
    (hlo : 0 < lo) (hk : backOffs tr ≤ maxRetransmissions)
    (hs : c.samples l.ev = true → lo ≤ rtoLower.toInt) : Doubled lo (tr ++ [⟨c, l, c'⟩]) c' := by
  by_cases hsample : c.samples l.ev = true
  · obtain ⟨fusion, rtt, d, hstep, -, rfl⟩ := h.of_samples hsample
    -- the open estimate may set RTO to the same value
    have hopen : EstimatingStep c l { d with tcb := { d.tcb with
        rto := (c.estimate fusion (some rtt) d).tcb.rto } } :=
      ⟨d, hstep, Or.inr ⟨hsample, _, (Binary64.calculateRTO_bounds _).1,
        (Binary64.calculateRTO_bounds _).2, rfl⟩⟩
    have hdoubled := hopen.doubled hd hlo hk hs
    rw [Doubled, backOffs_snoc] at hdoubled ⊢
    exact hdoubled
  · have hno := Bool.eq_false_of_not_eq_true hsample
    exact EstimatingStep.doubled ⟨c', h.of_not_samples hno, Or.inl ⟨hno, rfl⟩⟩ hd hlo hk hs

/-- With the estimate computed and whatever the clock measures, RTO is in bounds throughout a run
that never doubles it more than MAX_RETRANSMISSIONS times since it was last set. -/
theorem backOff_bounded_by_estimates (hc : c.tcb.rto = rtoUpper)
    (hrun : Run (MeasuringStep P) c tr c') (hfew : Along FewBackOffs tr) :
    ∀ x ∈ tr, x.dst.RtoBounded := by
  intro x hx
  obtain ⟨pre, post, rfl⟩ := List.append_of_mem hx
  obtain ⟨hpre, hstep⟩ := hrun.pre rfl
  rw [← List.singleton_append, ← List.append_assoc] at hfew
  have hupto : Run (MeasuringStep P) c (pre ++ [x]) x.dst := .snoc hpre hstep
  have hinv : Doubled rtoLower.toInt (pre ++ [x]) x.dst ∧
      backOffs (pre ++ [x]) ≤ maxRetransmissions := by
    refine hupto.inv (I := fun tr c => Doubled rtoLower.toInt tr c ∧
      backOffs tr ≤ maxRetransmissions) ⟨doubled_start hc (by simp), by simp [backOffs]⟩
      hfew.left ?_
    rintro tr t e u ⟨hd, hk⟩ hstep hx
    exact ⟨hstep.doubled hd (by simp) hk fun _ => le_rfl, hx⟩
  exact hinv.1.bounded (by simp) hinv.2

/-- Without samples a run needs no estimate. -/
theorem run_measuring (h : Run Step c tr c') (hno : ∀ x ∈ tr, x.src.samples x.ev.ev = false) :
    Run (MeasuringStep P) c tr c' := by
  induction h with
  | nil => exact .nil
  | @snoc tr t u e h hs ih =>
    have hlast : t.samples e.ev = false := hno ⟨t, e, u⟩ (by simp)
    obtain ⟨env, henv⟩ := hs
    have hnone : t.sampleRTT env.now e.ev = none := by
      rw [← Option.not_isSome_iff_eq_none, sampleRTT_isSome, hlast]
      simp
    refine .snoc (ih fun x hx => hno x (by simp [hx])) ⟨env, .none, u, henv, ?_, ?_⟩
    · simp [hnone]
    · simp [hnone, Conn.estimate]

/-- Two bytes are sent at time zero. -/
def twoBytesOut : List Event :=
  [.segment (Segment.fromPeer 499 100 18 1000 [] Segment.nil_le), .write [1, 2], .send, .send]

/-- The two bytes are acknowledged after five milliseconds. -/
theorem exists_measured : ∃ tr c', Run (MeasuringStep (SampleIn 5000000 5000000))
    (Conn.connect ⟨1, 1000, 2, 2000⟩ 99) tr c' ∧
    (∃ x ∈ tr, x.src.samples x.ev.ev = true) ∧ Along FewBackOffs tr := by
  let c := Conn.connect ⟨1, 1000, 2, 2000⟩ 99
  let ev : Event := .segment (Segment.fromPeer 500 102 16 1000 [] Segment.nil_le)
  have hsent := Conn.play_run c twoBytesOut
  have hrun := run_measuring (P := SampleIn 5000000 5000000) hsent (by decide)
  have hsome : ((c.play twoBytesOut).2.step ⟨5000000, 0, true⟩ ev).isSome = true := by decide
  obtain ⟨⟨d, out⟩, hstep⟩ := Option.isSome_iff_exists.mp hsome
  have hrtt : (c.play twoBytesOut).2.sampleRTT 5000000 ev = some 5000000 := by decide
  have hsample : (c.play twoBytesOut).2.samples ev = true := by decide
  have hlast : MeasuringStep (SampleIn 5000000 5000000) (c.play twoBytesOut).2 ⟨ev, out⟩
      ((c.play twoBytesOut).2.estimate .none (some 5000000) d) := by
    refine ⟨⟨5000000, 0, true⟩, .none, d, hstep, ?_, by rw [hrtt]⟩
    rw [hrtt]
    intro rtt h
    obtain rfl := Option.some.inj h
    decide
  refine ⟨_, _, hrun.snoc hlast, ⟨_, List.mem_append_right _ (List.mem_singleton.mpr rfl),
    hsample⟩, ?_⟩
  have hfew : ∀ i : Fin (c.play twoBytesOut).1.length,
      backOffs ((c.play twoBytesOut).1.take i ++ [(c.play twoBytesOut).1.get i]) ≤
        maxRetransmissions := by decide
  rw [along_snoc]
  refine ⟨along_of_forall_fin hfew, ?_⟩
  show backOffs (_ ++ [_]) ≤ _
  rw [backOffs_snoc]
  simp [hsample]

theorem estimates_follow_samples_first : ∃ tr c',
    Run (MeasuringStep (SampleIn 5000000 5000000)) (Conn.connect ⟨1, 1000, 2, 2000⟩ 99) tr c' ∧
    (∃ x ∈ tr, x.src.samples x.ev.ev = true) ∧
    ∀ x ∈ tr, x.dst.SrttWithin 5000000 5000000 ∧
      (x.src.samples x.ev.ev = true → 0 ≤ x.dst.tcb.srtt.toInt ∧
        x.dst.tcb.rto.toInt = min 1000000000 (max (3 * x.dst.tcb.srtt.toInt / 2) 1000000)) := by
  obtain ⟨tr, c', hrun, hsample, -⟩ := exists_measured
  exact ⟨tr, c', hrun, hsample, estimates_follow_samples rfl (by decide) (by decide) hrun⟩

theorem backOff_bounded_by_estimates_first : ∃ tr c',
    Run (MeasuringStep (SampleIn 5000000 5000000)) (Conn.connect ⟨1, 1000, 2, 2000⟩ 99) tr c' ∧
    (∃ x ∈ tr, x.src.samples x.ev.ev = true) ∧ ∀ x ∈ tr, x.dst.RtoBounded := by
  obtain ⟨tr, c', hrun, hsample, hfew⟩ := exists_measured
  exact ⟨tr, c', hrun, hsample, backOff_bounded_by_estimates rfl hrun hfew⟩

end Steps

end TcpIp
