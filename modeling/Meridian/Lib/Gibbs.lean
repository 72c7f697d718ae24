import Mathlib.Algebra.BigOperators.Field
import Mathlib.Analysis.SpecialFunctions.Log.Basic
import Mathlib.Tactic.FieldSimp
import Mathlib.Tactic.Ring

/-!
# Gibbs' inequality

Of all weights that add up to at most 1, those proportional to `a` give `∑ a i * log (q i)` its
largest value. Weights `a i = 0` do not constrain `q i`.

Results:
* `sum_mul_log_le`: the inequality;
* `sum_div_mul_log_sub_le`: for two sums of positive terms, the bound on the ratio of the sums.
-/

namespace Meridian

variable {ι : Type*} [Fintype ι] {a b q : ι → ℝ}

/-- **Gibbs' inequality**: of all weights that add up to at most 1, those in the proportions of `a`
have the largest mean logarithm. -/
theorem sum_mul_log_le (ha : ∀ i, 0 ≤ a i) (hq : ∀ i, 0 ≤ q i) (hpos : ∀ i, 0 < a i → 0 < q i)
    (hsum : ∑ i, q i ≤ 1) : ∑ i, a i * Real.log (q i) ≤ ∑ i, a i * Real.log (a i / ∑ i, a i) := by
  have htotal : 0 ≤ ∑ i, a i := Finset.sum_nonneg fun i _ => ha i
  have hterm : ∀ i, a i * Real.log (q i) ≤
      a i * Real.log (a i / ∑ i, a i) + (q i * ∑ i, a i - a i) := by
    intro i
    rcases (ha i).eq_or_lt with hzero | hlt
    · rw [← hzero, zero_mul, zero_mul, zero_add, sub_zero]
      exact mul_nonneg (hq i) htotal
    · have hS : 0 < ∑ i, a i :=
        hlt.trans_le (Finset.single_le_sum (fun i _ => ha i) (Finset.mem_univ i))
      have hqi := hpos i hlt
      have hlog := Real.log_le_sub_one_of_pos (div_pos hqi (div_pos hlt hS))
      rw [Real.log_div hqi.ne' (div_pos hlt hS).ne'] at hlog
      have hmul := mul_le_mul_of_nonneg_left hlog hlt.le
      have hratio : a i * (q i / (a i / ∑ i, a i) - 1) = q i * ∑ i, a i - a i := by
        field_simp
      rw [hratio, mul_sub] at hmul
      linarith
  calc ∑ i, a i * Real.log (q i)
      ≤ ∑ i, (a i * Real.log (a i / ∑ i, a i) + (q i * ∑ i, a i - a i)) :=
        Finset.sum_le_sum fun i _ => hterm i
    _ = ∑ i, a i * Real.log (a i / ∑ i, a i) + ((∑ i, q i) * ∑ i, a i - ∑ i, a i) := by
        rw [Finset.sum_add_distrib, Finset.sum_sub_distrib, ← Finset.sum_mul]
    _ ≤ ∑ i, a i * Real.log (a i / ∑ i, a i) := by
        have hle := mul_le_mul_of_nonneg_right hsum htotal
        linarith

/-- **Two sums of positive terms**: the logarithm of their ratio is at least the average of the
logarithms of the terms' ratios. -/
theorem sum_div_mul_log_sub_le (ha : ∀ i, 0 < a i) (hb : ∀ i, 0 < b i) (h : 0 < ∑ i, a i) :
    ∑ i, a i / (∑ i, a i) * (Real.log (b i) - Real.log (a i)) ≤
      Real.log (∑ i, b i) - Real.log (∑ i, a i) := by
  have hne : Nonempty ι := by
    by_contra hempty
    rw [not_nonempty_iff] at hempty
    rw [Finset.univ_eq_empty, Finset.sum_empty] at h
    exact lt_irrefl _ h
  have hB : 0 < ∑ i, b i := Finset.sum_pos (fun i _ => hb i) Finset.univ_nonempty
  have hone : ∑ i, a i / ∑ i, a i = 1 := by rw [← Finset.sum_div, div_self h.ne']
  have hgibbs := sum_mul_log_le (a := fun i => a i / ∑ i, a i) (q := fun i => b i / ∑ i, b i)
    (fun i => (div_pos (ha i) h).le) (fun i => (div_pos (hb i) hB).le)
    (fun i _ => div_pos (hb i) hB) (by rw [← Finset.sum_div, div_self hB.ne'])
  simp only [hone, div_one] at hgibbs
  have hsplit : ∀ i, a i / (∑ i, a i) * (Real.log (b i) - Real.log (a i)) =
      a i / (∑ i, a i) * Real.log (b i / ∑ i, b i) -
        a i / (∑ i, a i) * Real.log (a i / ∑ i, a i) +
        a i / (∑ i, a i) * (Real.log (∑ i, b i) - Real.log (∑ i, a i)) := by
    intro i
    rw [Real.log_div (hb i).ne' hB.ne', Real.log_div (ha i).ne' h.ne']
    ring
  simp only [hsplit]
  rw [Finset.sum_add_distrib, Finset.sum_sub_distrib, ← Finset.sum_mul, hone, one_mul]
  linarith

end Meridian
