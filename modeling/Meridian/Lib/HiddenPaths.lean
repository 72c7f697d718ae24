import Mathlib.Algebra.BigOperators.Fin
import Mathlib.Algebra.Order.BigOperators.Ring.Finset
import Mathlib.Data.Fintype.BigOperators
import Mathlib.Data.Matrix.Mul
import Mathlib.Tactic.Ring

/-!
# Sums over the paths of a chain

A path visits a state at each of the times `0, …, n`. Its weight is that of its first state times
those of its steps, each step with a matrix of its own. The sum of the weights over all paths, and
the sum over those that are in given states at one time or at two successive ones, are read off two
recursions: `ahead` from the first time on, `behind` from the last one back.

Results:
* `sum_weight_at`: sums of a function of the state at one time;
* `sum_weight_step`: sums of a function of the states before and after one step;
* `sum_weight`: the sum over all paths is that of the last row of `ahead`;
* `sum_weight_pos`: it is positive where the steps are.
-/

namespace Meridian.HiddenPaths

open Matrix

variable {S K : Type*} [Fintype S] [CommSemiring K] {n : ℕ}

/-- The weight of a path: `v` for its first state, `w t` for the step after time `t`. -/
def weight (v : S → K) (w : Fin n → Matrix S S K) (s : Fin (n + 1) → S) : K :=
  v (s 0) * ∏ t : Fin n, w t (s t.castSucc) (s t.succ)

/-- The weights of the paths up to each time, by the state they are in. -/
def ahead : {n : ℕ} → (S → K) → (Fin n → Matrix S S K) → Fin (n + 1) → S → K
  | 0, v, _ => fun _ => v
  | _ + 1, v, w => Fin.cons v (ahead (v ᵥ* w 0) (Fin.tail w))

/-- The weights of the paths from each time on, by the state they start in. -/
def behind : {n : ℕ} → (Fin n → Matrix S S K) → Fin (n + 1) → S → K
  | 0, _ => fun _ _ => 1
  | _ + 1, w => Fin.cons (w 0 *ᵥ behind (Fin.tail w) 0) (behind (Fin.tail w))

section Rows

variable (v : S → K)

@[simp] theorem ahead_zero (w : Fin n → Matrix S S K) : ahead v w 0 = v := by
  cases n with
  | zero => rfl
  | succ n => rfl

@[simp] theorem ahead_succ (w : Fin (n + 1) → Matrix S S K) (t : Fin (n + 1)) :
    ahead v w t.succ = ahead (v ᵥ* w 0) (Fin.tail w) t := rfl

@[simp] theorem behind_zero (w : Fin (n + 1) → Matrix S S K) :
    behind w 0 = w 0 *ᵥ behind (Fin.tail w) 0 := rfl

@[simp] theorem behind_succ (w : Fin (n + 1) → Matrix S S K) (t : Fin (n + 1)) :
    behind w t.succ = behind (Fin.tail w) t := rfl

theorem behind_last (w : Fin n → Matrix S S K) : behind w (Fin.last n) = fun _ => 1 := by
  induction n with
  | zero => rfl
  | succ n ih => exact ih (Fin.tail w)

end Rows

/-! ## Paths from their first state -/

/-- A path is its first state and the rest of it. -/
theorem sum_paths (f : (Fin (n + 1) → S) → K) :
    ∑ s, f s = ∑ i, ∑ s : Fin n → S, f (Fin.cons i s) := by
  rw [← Equiv.sum_comp (Fin.consEquiv fun _ => S), Fintype.sum_prod_type]
  rfl

omit [Fintype S] in
/-- The weight of a path that starts in `i`. -/
theorem weight_cons (v : S → K) (w : Fin (n + 1) → Matrix S S K) (i : S) (s : Fin (n + 1) → S) :
    weight v w (Fin.cons i s) = v i * weight (w 0 i) (Fin.tail w) s := by
  rw [weight, Fin.prod_univ_succ]
  rfl

/-- **A step at a time**: what does not look at the first state is a sum over the shorter paths. -/
theorem sum_weight_tail (v : S → K) (w : Fin (n + 1) → Matrix S S K) (f : (Fin (n + 1) → S) → K) :
    ∑ s, weight v w s * f (Fin.tail s) = ∑ s, weight (v ᵥ* w 0) (Fin.tail w) s * f s := by
  rw [sum_paths, Finset.sum_comm]
  refine Finset.sum_congr rfl fun s _ => ?_
  have hstep : weight (v ᵥ* w 0) (Fin.tail w) s = ∑ i, v i * weight (w 0 i) (Fin.tail w) s := by
    simp only [weight, vecMul, dotProduct, Finset.sum_mul, mul_assoc]
  rw [hstep, Finset.sum_mul]
  refine Finset.sum_congr rfl fun i _ => ?_
  rw [weight_cons, Fin.tail_cons]

theorem sum_weight_zero (v : S → K) (w : Fin n → Matrix S S K) (g : S → K) :
    ∑ s, weight v w s * g (s 0) = ∑ i, v i * behind w 0 i * g i := by
  induction n generalizing v g with
  | zero =>
    rw [sum_paths]
    refine Finset.sum_congr rfl fun i _ => ?_
    rw [Fintype.sum_unique]
    simp only [weight, Finset.univ_eq_empty, Finset.prod_empty, Fin.cons_zero, behind]
  | succ n ih =>
    rw [sum_paths]
    refine Finset.sum_congr rfl fun i _ => ?_
    have htail := ih (w 0 i) (Fin.tail w) fun _ => 1
    simp only [mul_one] at htail
    calc ∑ s : Fin (n + 1) → S, weight v w (Fin.cons i s) * g i
        = v i * (∑ s, weight (w 0 i) (Fin.tail w) s) * g i := by
          simp only [weight_cons, Finset.mul_sum, Finset.sum_mul]
      _ = v i * behind w 0 i * g i := by
          rw [htail]
          rfl

/-! ## The state at one time -/

/-- **Forward and backward**: a function of the state at time `t`, summed over all paths. -/
theorem sum_weight_at (v : S → K) (w : Fin n → Matrix S S K) (t : Fin (n + 1)) (g : S → K) :
    ∑ s, weight v w s * g (s t) = ∑ i, ahead v w t i * behind w t i * g i := by
  induction n generalizing v with
  | zero =>
    obtain rfl : t = 0 := Fin.fin_one_eq_zero t
    exact sum_weight_zero v w g
  | succ n ih =>
    cases t using Fin.cases with
    | zero => exact sum_weight_zero v w g
    | succ t => exact (sum_weight_tail v w fun s => g (s t)).trans (ih _ _ _)

/-- **The sum over all paths.** -/
theorem sum_weight (v : S → K) (w : Fin n → Matrix S S K) :
    ∑ s, weight v w s = ∑ i, ahead v w (Fin.last n) i := by
  have h := sum_weight_at v w (Fin.last n) fun _ => 1
  simpa only [behind_last, mul_one] using h

/-- At every time the two recursions give the sum over all paths. -/
theorem sum_ahead_mul_behind (v : S → K) (w : Fin n → Matrix S S K) (t : Fin (n + 1)) :
    ∑ i, ahead v w t i * behind w t i = ∑ s, weight v w s := by
  have h := sum_weight_at v w t fun _ => 1
  simpa only [mul_one] using h.symm

/-! ## The states around one step -/

/-- **Around a step**: a function of the states before and after it, summed over all paths. -/
theorem sum_weight_step (v : S → K) (w : Fin n → Matrix S S K) (t : Fin n) (g : S → S → K) :
    ∑ s, weight v w s * g (s t.castSucc) (s t.succ) =
      ∑ i, ∑ j, ahead v w t.castSucc i * w t i j * behind w t.succ j * g i j := by
  induction n generalizing v with
  | zero => exact t.elim0
  | succ n ih =>
    cases t using Fin.cases with
    | zero =>
      rw [sum_paths]
      refine Finset.sum_congr rfl fun i _ => ?_
      calc ∑ s : Fin (n + 1) → S, weight v w (Fin.cons i s) * g i (s 0)
          = v i * ∑ s, weight (w 0 i) (Fin.tail w) s * g i (s 0) := by
            simp only [weight_cons, Finset.mul_sum, mul_assoc]
        _ = ∑ j, v i * w 0 i j * behind w (Fin.succ 0) j * g i j := by
            rw [sum_weight_zero, Finset.mul_sum]
            refine Finset.sum_congr rfl fun j _ => ?_
            rw [behind_succ]
            ring
    | succ t => exact (sum_weight_tail v w fun s => g (s t.castSucc) (s t.succ)).trans (ih _ _ _)

/-! ## Positive weights -/

section Order

variable {K : Type*} [CommSemiring K] [PartialOrder K] [IsStrictOrderedRing K] {v : S → K}
  {w : Fin n → Matrix S S K}

theorem ahead_nonneg (hv : ∀ i, 0 ≤ v i) (hw : ∀ t i j, 0 ≤ w t i j) (t : Fin (n + 1)) (i : S) :
    0 ≤ ahead v w t i := by
  induction n generalizing v with
  | zero => exact hv i
  | succ n ih =>
    cases t using Fin.cases with
    | zero => exact hv i
    | succ t =>
      refine ih (fun j => ?_) (fun t => hw t.succ) t
      exact Finset.sum_nonneg fun i _ => mul_nonneg (hv i) (hw 0 i j)

theorem behind_nonneg (hw : ∀ t i j, 0 ≤ w t i j) (t : Fin (n + 1)) (i : S) :
    0 ≤ behind w t i := by
  induction n generalizing i with
  | zero => exact zero_le_one
  | succ n ih =>
    cases t using Fin.cases with
    | zero => exact Finset.sum_nonneg fun j _ => mul_nonneg (hw 0 i j) (ih (fun t => hw t.succ) 0 j)
    | succ t => exact ih (fun t => hw t.succ) t i

/-- Where some path has a weight, some state has one at every time. -/
theorem sum_ahead_pos (hv : ∀ i, 0 ≤ v i) (hw : ∀ t i j, 0 ≤ w t i j) (h : 0 < ∑ s, weight v w s)
    (t : Fin (n + 1)) : 0 < ∑ i, ahead v w t i := by
  have hahead := fun i => ahead_nonneg hv hw t i
  refine lt_of_le_of_ne (Finset.sum_nonneg fun i _ => hahead i) fun hzero => ?_
  have hall := (Finset.sum_eq_zero_iff_of_nonneg fun i _ => hahead i).mp hzero.symm
  rw [← sum_ahead_mul_behind v w t, Finset.sum_eq_zero fun i hi => by rw [hall i hi, zero_mul]] at h
  exact lt_irrefl _ h

/-- A step with positive weights. -/
theorem vecMul_pos (hv : ∀ i, 0 ≤ v i) (hsum : 0 < ∑ i, v i) {M : Matrix S S K}
    (hM : ∀ i j, 0 < M i j) (j : S) : 0 < (v ᵥ* M) j := by
  obtain ⟨i, -, hi⟩ : ∃ i ∈ Finset.univ, v i ≠ 0 := Finset.exists_ne_zero_of_sum_ne_zero hsum.ne'
  exact Finset.sum_pos' (fun i _ => mul_nonneg (hv i) (hM i j).le)
    ⟨i, Finset.mem_univ i, mul_pos (lt_of_le_of_ne (hv i) hi.symm) (hM i j)⟩

theorem ahead_pos (hv : ∀ i, 0 < v i) (hw : ∀ t i j, 0 < w t i j) (t : Fin (n + 1)) (i : S) :
    0 < ahead v w t i := by
  induction n generalizing v with
  | zero => exact hv i
  | succ n ih =>
    cases t using Fin.cases with
    | zero => exact hv i
    | succ t =>
      have hsum : 0 < ∑ i, v i := Finset.sum_pos (fun i _ => hv i) ⟨i, Finset.mem_univ i⟩
      exact ih (vecMul_pos (fun i => (hv i).le) hsum (hw 0)) (fun t => hw t.succ) t

/-- With positive steps every start leads on. -/
theorem sum_weight_pos (hv : ∀ i, 0 ≤ v i) (hsum : 0 < ∑ i, v i) (hw : ∀ t i j, 0 < w t i j) :
    0 < ∑ s, weight v w s := by
  rw [sum_weight]
  induction n generalizing v with
  | zero => exact hsum
  | succ n ih =>
    obtain ⟨i, -, -⟩ : ∃ i ∈ Finset.univ, v i ≠ 0 := Finset.exists_ne_zero_of_sum_ne_zero hsum.ne'
    have hstep := vecMul_pos hv hsum (hw 0)
    exact ih (fun j => (hstep j).le)
      (Finset.sum_pos (fun j _ => hstep j) ⟨i, Finset.mem_univ i⟩) fun t => hw t.succ

theorem behind_pos (hw : ∀ t i j, 0 < w t i j) (t : Fin (n + 1)) (i : S) : 0 < behind w t i := by
  induction n generalizing i with
  | zero => exact zero_lt_one
  | succ n ih =>
    cases t using Fin.cases with
    | zero =>
      exact Finset.sum_pos (fun j _ => mul_pos (hw 0 i j) (ih (fun t => hw t.succ) 0 j))
        ⟨i, Finset.mem_univ i⟩
    | succ t => exact ih (fun t => hw t.succ) t i

end Order

end Meridian.HiddenPaths
