import Mathlib.Algebra.Order.Field.Power
import Mathlib.Algebra.Order.Ring.Rat
import Mathlib.Data.Rat.Floor
import Mathlib.Tactic.FieldSimp
import Mathlib.Tactic.NormNum
import Meridian.Lib.HalfEven

/-!
# Doubles as rationals

`fl q` is the double nearest to `q`, of two equally near the one with the even significand: 53
binary digits from the leading one of `q` on. A sum, product or quotient of doubles is the `fl` of
the exact one.

Results:
* `fl_mono`: rounding keeps the order;
* `le_fl` and `fl_le`: it errs by at most one part in `2^53`.

Out of scope: overflow, and the numbers below `2^-1022`, whose significands are shorter.
-/

namespace Meridian.Binary64

/-- The place of the leading binary digit of `q > 0`. -/
def exponent (q : ℚ) : ℤ :=
  let k : ℤ := Nat.log2 q.num.natAbs - Nat.log2 q.den
  if (2 : ℚ) ^ k ≤ q then k else k - 1

/-- The distance of the doubles around `q > 0`. -/
def ulp (q : ℚ) : ℚ := 2 ^ (exponent q - 52)

/-- The nearest double of a number that is not negative. -/
def fl_nonneg (q : ℚ) : ℚ := round_half_even (q / ulp q) * ulp q

/-- The nearest double. -/
def fl (q : ℚ) : ℚ := if 0 ≤ q then fl_nonneg q else -fl_nonneg (-q)

/-- `int(q)`: what is after the point is dropped. -/
def trunc (q : ℚ) : ℤ := if 0 ≤ q then ⌊q⌋ else -⌊-q⌋

variable {q r : ℚ}

/-! ## The leading digit -/

theorem pow_log2_le {n : ℕ} (h : n ≠ 0) : (2 : ℚ) ^ (Nat.log2 n : ℤ) ≤ n := by
  rw [zpow_natCast]
  exact_mod_cast Nat.log2_self_le h

theorem lt_pow_log2 (n : ℕ) : (n : ℚ) < 2 ^ (Nat.log2 n + 1 : ℤ) := by
  have hlt : (n : ℚ) < (2 : ℚ) ^ (Nat.log2 n + 1) := by exact_mod_cast Nat.lt_log2_self
  exact_mod_cast hlt

/-- The numerator and the denominator leave two places for the leading digit. -/
theorem div_bounds {n d : ℕ} (hn : n ≠ 0) (hd : d ≠ 0) :
    (2 : ℚ) ^ ((Nat.log2 n : ℤ) - Nat.log2 d - 1) ≤ (n : ℚ) / d ∧
      (n : ℚ) / d < 2 ^ ((Nat.log2 n : ℤ) - Nat.log2 d + 1) := by
  have htwo : (2 : ℚ) ≠ 0 := two_ne_zero
  have hpos : (0 : ℚ) < d := by exact_mod_cast Nat.pos_of_ne_zero hd
  constructor
  · rw [sub_sub, zpow_sub₀ htwo]
    exact div_le_div₀ (Nat.cast_nonneg n) (pow_log2_le hn) hpos (lt_pow_log2 d).le
  · rw [sub_add_eq_add_sub, zpow_sub₀ htwo]
    exact div_lt_div₀ (lt_pow_log2 n) (pow_log2_le hd) (by positivity) (by positivity)

theorem exponent_spec (h : 0 < q) : (2 : ℚ) ^ exponent q ≤ q ∧ q < 2 ^ (exponent q + 1) := by
  have hnum : 0 < q.num := Rat.num_pos.mpr h
  have hq : (q.num.natAbs : ℚ) / q.den = q := by
    have habs : ((q.num.natAbs : ℤ) : ℚ) = q.num :=
      congrArg Int.cast (Int.natAbs_of_nonneg hnum.le)
    rw [← Int.cast_natCast q.num.natAbs, habs]
    exact Rat.num_div_den q
  obtain ⟨hlower, hupper⟩ := div_bounds (Int.natAbs_ne_zero.mpr hnum.ne') q.den_ne_zero
  rw [hq] at hlower hupper
  unfold exponent
  dsimp only
  split
  · rename_i hle
    exact ⟨hle, hupper⟩
  · rename_i hlt
    exact ⟨hlower, by rw [sub_add_cancel]; exact not_le.mp hlt⟩

theorem exponent_mono (hq : 0 < q) (h : q ≤ r) : exponent q ≤ exponent r := by
  have hlt : (2 : ℚ) ^ exponent q < 2 ^ (exponent r + 1) :=
    ((exponent_spec hq).1.trans h).trans_lt (exponent_spec (hq.trans_le h)).2
  have hexp := (zpow_lt_zpow_iff_right₀ (one_lt_two : (1 : ℚ) < 2)).mp hlt
  omega

theorem ulp_pos (q : ℚ) : 0 < ulp q := zpow_pos two_pos _

theorem pow_exponent (q : ℚ) : (2 : ℚ) ^ exponent q = 2 ^ 52 * ulp q := by
  rw [ulp, ← zpow_natCast (2 : ℚ) 52, ← zpow_add₀ two_ne_zero]
  congr 1
  omega

theorem pow_exponent_succ (q : ℚ) : (2 : ℚ) ^ (exponent q + 1) = 2 ^ 53 * ulp q := by
  rw [ulp, ← zpow_natCast (2 : ℚ) 53, ← zpow_add₀ two_ne_zero]
  congr 1
  omega

/-! ## Rounding -/

theorem fl_nonneg_zero : fl_nonneg 0 = 0 := by
  have hzero : round_half_even (0 / ulp 0) = 0 := by
    rw [zero_div]
    exact_mod_cast round_half_even_intCast (K := ℚ) 0
  rw [fl_nonneg, hzero, Int.cast_zero, zero_mul]

/-- The nearest double has the leading digit of `q`, or is the next power of two. -/
theorem fl_nonneg_bounds (h : 0 < q) :
    (2 : ℚ) ^ exponent q ≤ fl_nonneg q ∧ fl_nonneg q ≤ 2 ^ (exponent q + 1) := by
  obtain ⟨hle, hlt⟩ := exponent_spec h
  have hu := ulp_pos q
  rw [pow_exponent, ← le_div_iff₀ hu] at hle
  rw [pow_exponent_succ, ← div_lt_iff₀ hu] at hlt
  have hlow : ((2 ^ 52 : ℤ) : ℚ) ≤ q / ulp q := by push_cast; exact hle
  have hhigh : q / ulp q ≤ ((2 ^ 53 : ℤ) : ℚ) := by push_cast; exact hlt.le
  have hround := round_half_even_mono hlow
  have hround' := round_half_even_mono hhigh
  rw [round_half_even_intCast] at hround hround'
  rw [pow_exponent, pow_exponent_succ, fl_nonneg, mul_le_mul_iff_left₀ hu, mul_le_mul_iff_left₀ hu]
  exact ⟨by exact_mod_cast hround, by exact_mod_cast hround'⟩

theorem fl_nonneg_mono (hq : 0 ≤ q) (h : q ≤ r) : fl_nonneg q ≤ fl_nonneg r := by
  rcases hq.eq_or_lt with rfl | hq
  · rcases h.eq_or_lt with rfl | hr
    · exact le_rfl
    · rw [fl_nonneg_zero]
      exact (zpow_pos two_pos _).le.trans (fl_nonneg_bounds hr).1
  · rcases (exponent_mono hq h).eq_or_lt with heq | hlt
    · have hulp : ulp q = ulp r := by rw [ulp, ulp, heq]
      have hround : round_half_even (q / ulp q) ≤ round_half_even (r / ulp r) := by
        rw [hulp]
        exact round_half_even_mono (div_le_div_of_nonneg_right h (ulp_pos r).le)
      rw [fl_nonneg, fl_nonneg, ← hulp]
      rw [← hulp] at hround
      exact mul_le_mul_of_nonneg_right (by exact_mod_cast hround) (ulp_pos q).le
    · -- A power of two lies between.
      calc fl_nonneg q ≤ 2 ^ (exponent q + 1) := (fl_nonneg_bounds hq).2
        _ ≤ 2 ^ exponent r := zpow_le_zpow_right₀ one_le_two hlt
        _ ≤ fl_nonneg r := (fl_nonneg_bounds (hq.trans_le h)).1

theorem fl_nonneg_nonneg (h : 0 ≤ q) : 0 ≤ fl_nonneg q := by
  rw [← fl_nonneg_zero]
  exact fl_nonneg_mono le_rfl h

/-- **Rounding keeps the order** of any two numbers, whatever their signs and sizes. -/
theorem fl_mono (h : q ≤ r) : fl q ≤ fl r := by
  unfold fl
  split
  · rename_i hq
    rw [if_pos (hq.trans h)]
    exact fl_nonneg_mono hq h
  · rename_i hq
    have hq' : 0 ≤ -q := neg_nonneg.mpr (not_le.mp hq).le
    split
    · rename_i hr
      exact (neg_nonpos.mpr (fl_nonneg_nonneg hq')).trans (fl_nonneg_nonneg hr)
    · rename_i hr
      exact neg_le_neg (fl_nonneg_mono (neg_nonneg.mpr (not_le.mp hr).le) (neg_le_neg h))

/-- Half a unit of the last place is one part in `2^53`. -/
theorem half_ulp_le (h : 0 < q) : ulp q / 2 ≤ q / 2 ^ 53 := by
  have hle := (exponent_spec h).1
  rw [pow_exponent] at hle
  rw [div_le_div_iff₀ two_pos (by positivity)]
  linarith

theorem fl_of_pos (h : 0 < q) : fl q = fl_nonneg q := if_pos h.le

/-- **Rounding down** errs by at most one part in `2^53`, for a positive number. -/
theorem le_fl (h : 0 < q) : q - q / 2 ^ 53 ≤ fl q := by
  have hround := mul_le_mul_of_nonneg_right (sub_half_le_round_half_even (q / ulp q)) (ulp_pos q).le
  rw [sub_mul, div_mul_cancel₀ q (ulp_pos q).ne'] at hround
  rw [fl_of_pos h, fl_nonneg]
  have hhalf := half_ulp_le h
  linarith

/-- **Rounding up** errs by at most one part in `2^53`, for a positive number. -/
theorem fl_le (h : 0 < q) : fl q ≤ q + q / 2 ^ 53 := by
  have hround := mul_le_mul_of_nonneg_right (round_half_even_le_add_half (q / ulp q)) (ulp_pos q).le
  rw [add_mul, div_mul_cancel₀ q (ulp_pos q).ne'] at hround
  rw [fl_of_pos h, fl_nonneg]
  have hhalf := half_ulp_le h
  linarith

/-! ## Dropping what is after the point -/

theorem trunc_of_nonneg (h : 0 ≤ q) : trunc q = ⌊q⌋ := if_pos h

theorem trunc_mono (h : q ≤ r) : trunc q ≤ trunc r := by
  unfold trunc
  split
  · rename_i hq
    rw [if_pos (hq.trans h)]
    exact Int.floor_mono h
  · rename_i hq
    have hq' : 0 ≤ -q := neg_nonneg.mpr (not_le.mp hq).le
    split
    · rename_i hr
      exact (neg_nonpos.mpr (Int.floor_nonneg.mpr hq')).trans (Int.floor_nonneg.mpr hr)
    · exact neg_le_neg (Int.floor_mono (neg_le_neg h))

end Meridian.Binary64
