import Mathlib.Algebra.BigOperators.Group.Finset.Basic
import Mathlib.Algebra.Order.BigOperators.Group.Finset
import Mathlib.Algebra.Order.Group.MinMax
import Mathlib.Data.Finset.Lattice.Fold

/-!
# Values that go down by a step

What is left of a sequence when each value has to be at least a step below the one before it: at
each place the least that the values up to there leave of it (`le_descent_iff`).

Results:
* `descent_succ`: one value from the one before it;
* `sum_max_le_sum_iff`: a sum whose terms are raised to a minimum stays within a total.
-/

namespace Meridian

variable {K : Type*} [AddCommGroup K] [LinearOrder K]

/-- What the steps leave of the values of `x`: at `i`, the least that a value up to there leaves
after the steps in between. -/
def descent (step : K) (x : ℕ → K) (i : ℕ) : K :=
  (Finset.range (i + 1)).inf' (Finset.nonempty_range_iff.mpr i.succ_ne_zero)
    fun j => x j - (i - j) • step

variable {step y : K} {x : ℕ → K} {i : ℕ}

theorem le_descent_iff : y ≤ descent step x i ↔ ∀ j ≤ i, y ≤ x j - (i - j) • step := by
  rw [descent, Finset.le_inf'_iff]
  exact forall_congr' fun j => by rw [Finset.mem_range, Nat.lt_succ_iff]

theorem descent_le_sub {j : ℕ} (h : j ≤ i) : descent step x i ≤ x j - (i - j) • step :=
  le_descent_iff.mp le_rfl j h

theorem descent_le (step : K) (x : ℕ → K) (i : ℕ) : descent step x i ≤ x i := by
  have h : descent step x i ≤ x i - (i - i) • step := descent_le_sub le_rfl
  rwa [Nat.sub_self, zero_nsmul, sub_zero] at h

theorem exists_descent_eq (step : K) (x : ℕ → K) (i : ℕ) :
    ∃ j ≤ i, descent step x i = x j - (i - j) • step := by
  obtain ⟨j, hj, heq⟩ := Finset.exists_mem_eq_inf' (Finset.nonempty_range_iff.mpr i.succ_ne_zero)
    fun j => x j - (i - j) • step
  exact ⟨j, Nat.lt_succ_iff.mp (Finset.mem_range.mp hj), heq⟩

theorem descent_zero (step : K) (x : ℕ → K) : descent step x 0 = x 0 := by
  refine le_antisymm (descent_le step x 0) (le_descent_iff.mpr fun j hj => ?_)
  rw [Nat.le_zero.mp hj, Nat.sub_self, zero_nsmul, sub_zero]

/-- No step, and nothing to do where the values go down anyway. -/
theorem descent_of_antitone (hx : Antitone x) : descent 0 x = x := by
  funext i
  refine le_antisymm (descent_le 0 x i) (le_descent_iff.mpr fun j hj => ?_)
  rw [nsmul_zero, sub_zero]
  exact hx hj

variable [IsOrderedAddMonoid K]

/-- One value from the one before it. -/
theorem descent_succ (step : K) (x : ℕ → K) (i : ℕ) :
    descent step x (i + 1) = min (x (i + 1)) (descent step x i - step) := by
  have hsteps : ∀ j ≤ i, x j - (i + 1 - j) • step = x j - (i - j) • step - step := by
    intro j hj
    rw [Nat.succ_sub hj, succ_nsmul, sub_add_eq_sub_sub]
  refine eq_of_forall_le_iff fun y => ?_
  rw [le_descent_iff, le_min_iff, le_sub_iff_add_le, le_descent_iff]
  constructor
  · intro h
    have hlast := h (i + 1) le_rfl
    rw [Nat.sub_self, zero_nsmul, sub_zero] at hlast
    refine ⟨hlast, fun j hj => ?_⟩
    rw [← le_sub_iff_add_le, ← hsteps j hj]
    exact h j (Nat.le_succ_of_le hj)
  · rintro ⟨hlast, h⟩ j hj
    rcases Nat.le_succ_iff.mp hj with hj | rfl
    · rw [hsteps j hj, le_sub_iff_add_le]
      exact h j hj
    · rwa [Nat.sub_self, zero_nsmul, sub_zero]

/-- Greater values leave more. -/
theorem descent_mono_left {x' : ℕ → K} (step : K) (h : x ≤ x') : descent step x ≤ descent step x' :=
  fun _ => le_descent_iff.mpr fun j hj => (descent_le_sub hj).trans (sub_le_sub_right (h j) _)

theorem descent_lt_descent {x' : ℕ → K} (step : K) (h : ∀ j, x j < x' j) (i : ℕ) :
    descent step x i < descent step x' i := by
  obtain ⟨j, hj, heq⟩ := exists_descent_eq step x' i
  rw [heq]
  exact (descent_le_sub hj).trans_lt (sub_lt_sub_right (h j) _)

theorem descent_succ_le (step : K) (x : ℕ → K) (i : ℕ) :
    descent step x (i + 1) ≤ descent step x i - step := by
  rw [descent_succ]
  exact min_le_right _ _

theorem descent_antitone (hstep : 0 ≤ step) : Antitone (descent step x) :=
  antitone_nat_of_succ_le fun i =>
    (descent_succ_le step x i).trans (sub_le_self _ hstep)

theorem max_eq_add_raise (m v : K) : max m v = v + max 0 (m - v) := by
  rw [← max_add_add_left, add_zero, add_sub_cancel, max_comm]

/-- **A minimum within a total**: the terms raised to `m` sum to no more than the values do exactly when
the raises are no more than what was taken off the values before. -/
theorem sum_max_le_sum_iff (m : K) (v x : ℕ → K) (n : ℕ) :
    ∑ i ∈ Finset.range n, max m (v i) ≤ ∑ i ∈ Finset.range n, x i ↔
      ∑ i ∈ Finset.range n, max 0 (m - v i) ≤ ∑ i ∈ Finset.range n, (x i - v i) := by
  simp only [max_eq_add_raise m, Finset.sum_add_distrib, Finset.sum_sub_distrib]
  rw [le_sub_iff_add_le']

end Meridian
