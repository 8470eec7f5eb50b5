import Mathlib.Data.Int.Log
import Mathlib.Data.Rat.Floor
import Mathlib.Tactic

/-! Rationals rounded to a binary format of `p` bits, to nearest with ties to even. The exponent is
not bounded, so that nothing overflows or is subnormal. -/
namespace TcpIp.Rounding

/-- The nearest integer, or the even one of two. -/
def nearestEven (x : ℚ) : ℤ :=
  if Int.fract x < 1 / 2 then ⌊x⌋
  else if 1 / 2 < Int.fract x then ⌊x⌋ + 1
  else if Even ⌊x⌋ then ⌊x⌋
  else ⌊x⌋ + 1

/-- The distance of the numbers with `p` bits around `x`. -/
def ulp (p : ℕ) (x : ℚ) : ℚ := 2 ^ (Int.log 2 |x| + 1 - p)

def toNearest (p : ℕ) (x : ℚ) : ℚ := nearestEven (x / ulp p x) * ulp p x

/-- Conversion to an integer, towards zero. -/
def truncate (x : ℚ) : ℤ := if 0 ≤ x then ⌊x⌋ else ⌈x⌉

section Nearest

variable {p : ℕ} {x : ℚ}

theorem nearestEven_intCast (n : ℤ) : nearestEven n = n := by
  simp [nearestEven]

theorem abs_nearestEven_sub_le (x : ℚ) : |(nearestEven x : ℚ) - x| ≤ 1 / 2 := by
  have hx : (⌊x⌋ : ℚ) + Int.fract x = x := Int.floor_add_fract x
  have h0 : 0 ≤ Int.fract x := Int.fract_nonneg x
  have h1 : Int.fract x < 1 := Int.fract_lt_one x
  unfold nearestEven
  rw [abs_le]
  split
  · constructor <;> linarith
  split
  · push_cast
    constructor <;> linarith
  split
  · constructor <;> linarith
  · push_cast
    constructor <;> linarith

theorem ulp_pos : 0 < ulp p x := zpow_pos (by norm_num) _

/-- A step is at most two units of the last place. -/
theorem ulp_le (hx : x ≠ 0) : ulp p x ≤ |x| * 2 / 2 ^ p := by
  have hlog : (2 : ℚ) ^ Int.log 2 |x| ≤ |x| :=
    Int.zpow_log_le_self (by norm_num) (abs_pos.mpr hx)
  have hsplit : ulp p x = 2 ^ Int.log 2 |x| * 2 / 2 ^ p := by
    rw [ulp, zpow_sub₀ (by norm_num), zpow_add₀ (by norm_num), zpow_one, zpow_natCast]
  rw [hsplit]
  gcongr

/-- The relative error of a rounding. -/
theorem abs_toNearest_sub_le (p : ℕ) (x : ℚ) : |toNearest p x - x| ≤ |x| / 2 ^ p := by
  by_cases hx : x = 0
  · have hzero : nearestEven 0 = 0 := by exact_mod_cast nearestEven_intCast 0
    simp [hx, toNearest, hzero]
  have hpos : 0 < ulp p x := ulp_pos
  have hunits : toNearest p x - x = (nearestEven (x / ulp p x) - x / ulp p x) * ulp p x := by
    rw [sub_mul, div_mul_cancel₀ x hpos.ne', toNearest]
  calc |toNearest p x - x|
      = |(nearestEven (x / ulp p x) : ℚ) - x / ulp p x| * ulp p x := by
        rw [hunits, abs_mul, abs_of_pos hpos]
    _ ≤ 1 / 2 * (|x| * 2 / 2 ^ p) :=
        mul_le_mul (abs_nearestEven_sub_le _) (ulp_le hx) hpos.le (by norm_num)
    _ = |x| / 2 ^ p := by ring

/-- A number with at most `p` bits is kept. -/
theorem toNearest_eq_self {n : ℤ} (hn : |n| < 2 ^ p) (e : ℤ) :
    toNearest p (n * 2 ^ e) = n * 2 ^ e := by
  by_cases h0 : n = 0
  · have hzero : nearestEven 0 = 0 := by exact_mod_cast nearestEven_intCast 0
    simp [h0, toNearest, hzero]
  set x : ℚ := n * 2 ^ e with hx
  have htwo : (0 : ℚ) < 2 ^ e := zpow_pos (by norm_num) e
  have hxpos : 0 < |x| := by
    rw [hx, abs_mul, abs_of_pos htwo]
    exact mul_pos (abs_pos.mpr (by exact_mod_cast h0)) htwo
  have hlt : |x| < 2 ^ ((p : ℤ) + e) := by
    rw [hx, abs_mul, abs_of_pos htwo, zpow_add₀ (by norm_num), zpow_natCast]
    exact mul_lt_mul_of_pos_right (by exact_mod_cast hn) htwo
  have hlog : Int.log 2 |x| < p + e := by
    refine (Int.lt_zpow_iff_log_lt (by norm_num) hxpos).mp ?_
    exact_mod_cast hlt
  -- the units of the last place of `x` go into `2 ^ e`
  obtain ⟨k, hk⟩ := Int.eq_ofNat_of_zero_le (show 0 ≤ e - (Int.log 2 |x| + 1 - p) by omega)
  have hunits : x / ulp p x = ((n * 2 ^ k : ℤ) : ℚ) := by
    rw [ulp, hx, mul_div_assoc, ← zpow_sub₀ (by norm_num), ← hx, hk]
    push_cast
    rw [zpow_natCast]
  rw [toNearest, hunits, nearestEven_intCast, ← hunits, div_mul_cancel₀ x ulp_pos.ne']

theorem toNearest_intCast {n : ℤ} (hn : |n| < 2 ^ p) : toNearest p n = n := by
  simpa using toNearest_eq_self hn 0

theorem truncate_of_nonneg (hx : 0 ≤ x) : truncate x = ⌊x⌋ := if_pos hx

end Nearest

/-- `y` is `x ≥ 0` up to `k` roundings. -/
structure Within (p k : ℕ) (x y : ℚ) : Prop where
  lower : (1 - 1 / 2 ^ p) ^ k * x ≤ y
  upper : y ≤ (1 + 1 / 2 ^ p) ^ k * x

namespace Within

variable {p k : ℕ} {x y x' y' c : ℚ}

theorem unit_le (p : ℕ) : (1 : ℚ) / 2 ^ p ≤ 1 := by
  rw [div_le_one (by positivity)]
  exact one_le_pow₀ (by norm_num)

theorem refl (p : ℕ) (x : ℚ) : Within p 0 x x := ⟨by simp, by simp⟩

theorem nonneg (h : Within p k x y) (hx : 0 ≤ x) : 0 ≤ y := by
  have hunit := unit_le p
  exact le_trans (mul_nonneg (pow_nonneg (by linarith) k) hx) h.lower

theorem succ (h : Within p k x y) (hx : 0 ≤ x) : Within p (k + 1) x y := by
  have hunit := unit_le p
  have hpos : (0 : ℚ) < 1 / 2 ^ p := by positivity
  constructor
  · calc (1 - 1 / 2 ^ p) ^ (k + 1) * x ≤ (1 - 1 / 2 ^ p) ^ k * x := by
          refine mul_le_mul_of_nonneg_right ?_ hx
          exact pow_le_pow_of_le_one (by linarith) (by linarith) (Nat.le_succ k)
      _ ≤ y := h.lower
  · calc y ≤ (1 + 1 / 2 ^ p) ^ k * x := h.upper
      _ ≤ (1 + 1 / 2 ^ p) ^ (k + 1) * x := by
          refine mul_le_mul_of_nonneg_right ?_ hx
          exact pow_le_pow_right₀ (by linarith) (Nat.le_succ k)

theorem round (h : Within p k x y) (hx : 0 ≤ x) : Within p (k + 1) x (toNearest p y) := by
  have hy := h.nonneg hx
  have hunit := unit_le p
  have herr := abs_le.mp (abs_toNearest_sub_le p y)
  rw [abs_of_nonneg hy] at herr
  constructor
  · calc (1 - 1 / 2 ^ p) ^ (k + 1) * x = (1 - 1 / 2 ^ p) * ((1 - 1 / 2 ^ p) ^ k * x) := by ring
      _ ≤ (1 - 1 / 2 ^ p) * y := mul_le_mul_of_nonneg_left h.lower (by linarith)
      _ = y - y / 2 ^ p := by ring
      _ ≤ toNearest p y := by linarith [herr.1]
  · calc toNearest p y ≤ y + y / 2 ^ p := by linarith [herr.2]
      _ = (1 + 1 / 2 ^ p) * y := by ring
      _ ≤ (1 + 1 / 2 ^ p) * ((1 + 1 / 2 ^ p) ^ k * x) :=
          mul_le_mul_of_nonneg_left h.upper (by positivity)
      _ = (1 + 1 / 2 ^ p) ^ (k + 1) * x := by ring

theorem const_mul (h : Within p k x y) (hc : 0 ≤ c) : Within p k (c * x) (c * y) := by
  constructor
  · calc (1 - 1 / 2 ^ p) ^ k * (c * x) = c * ((1 - 1 / 2 ^ p) ^ k * x) := by ring
      _ ≤ c * y := mul_le_mul_of_nonneg_left h.lower hc
  · calc c * y ≤ c * ((1 + 1 / 2 ^ p) ^ k * x) := mul_le_mul_of_nonneg_left h.upper hc
      _ = (1 + 1 / 2 ^ p) ^ k * (c * x) := by ring

theorem add (h : Within p k x y) (h' : Within p k x' y') : Within p k (x + x') (y + y') := by
  constructor
  · rw [mul_add]
    exact add_le_add h.lower h'.lower
  · rw [mul_add]
    exact add_le_add h.upper h'.upper

end Within

end TcpIp.Rounding
