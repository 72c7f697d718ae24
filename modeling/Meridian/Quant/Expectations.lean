import Mathlib.Algebra.BigOperators.Group.List.Basic
import Meridian.Quant.ForwardBackward

/-!
# The accumulators of Baum-Welch

What the loops of `baum_welch` add up over the sequences: `pi_acc` the first row of `gamma`, `A_acc`
all `xi_t`, `B_acc` each row of `gamma` in the column of its observation, and `total_ll` the
logarithms. A sequence of fewer than two observations adds nothing.

Results:
* `counts_eq`: the four accumulators as sums over the sequences.
-/

namespace Meridian.Hmm

open Matrix HiddenPaths

variable {K : Type*} [Field K] [LinearOrder K] {N M : ℕ}

/-- What one sequence adds to `pi_acc`. -/
def firstOf (p : Hmm K N M) (obs : List (Fin M)) (i : Fin N) : K := (p.gamma obs).headD 0 i

/-- What one sequence adds to `A_acc`. -/
def stepsOf (p : Hmm K N M) (obs : List (Fin M)) (i j : Fin N) : K :=
  ((p.xi obs).map fun xi_t => xi_t (i, j)).sum

/-- What one sequence adds to `B_acc`. -/
def shownOf (p : Hmm K N M) (obs : List (Fin M)) (i : Fin N) (o : Fin M) : K :=
  ((obs.zip (p.gamma obs)).map fun og => if o = og.1 then og.2 i else 0).sum

/-- The sequences that are not left out. -/
def trained (obs_sequences : List (List (Fin M))) : List (List (Fin M)) :=
  obs_sequences.filter fun obs => decide (2 ≤ obs.length)

section Loops

omit [LinearOrder K]

/-- The loop that adds up the `xi_t`. -/
theorem foldl_xi (xis : List (Fin N × Fin N → K)) (A_acc : Matrix (Fin N) (Fin N) K)
    (i j : Fin N) :
    xis.foldl (fun A_acc xi_t i j => A_acc i j + xi_t (i, j)) A_acc i j =
      A_acc i j + (xis.map fun xi_t => xi_t (i, j)).sum := by
  induction xis generalizing A_acc with
  | nil => exact (add_zero _).symm
  | cons xi_t xis ih =>
    refine (ih _).trans ?_
    rw [List.map_cons, List.sum_cons, add_assoc]

/-- The loop that adds each row of `gamma` to the column of its observation. -/
theorem foldl_column (ogs : List (Fin M × (Fin N → K))) (B_acc : Matrix (Fin N) (Fin M) K)
    (i : Fin N) (o : Fin M) :
    ogs.foldl (fun B_acc og i o => if o = og.1 then B_acc i o + og.2 i else B_acc i o) B_acc i o =
      B_acc i o + (ogs.map fun og => if o = og.1 then og.2 i else 0).sum := by
  induction ogs generalizing B_acc with
  | nil => exact (add_zero _).symm
  | cons og ogs ih =>
    refine (ih _).trans ?_
    rw [List.map_cons, List.sum_cons, ← add_assoc]
    congr 1
    by_cases ho : o = og.1
    · rw [if_pos ho]
      exact if_pos ho
    · rw [if_neg ho, add_zero]
      exact if_neg ho

end Loops

section Sums

variable [MathFunctions K] (p : Hmm K N M)

theorem add_sequence_eq (c : Counts K N M) {obs : List (Fin M)} (h : 2 ≤ obs.length) :
    p.add_sequence c obs =
      { pi_acc := fun i => c.pi_acc i + p.firstOf obs i
        A_acc := fun i j => c.A_acc i j + p.stepsOf obs i j
        B_acc := fun i o => c.B_acc i o + p.shownOf obs i o
        total_ll := c.total_ll + p.log_likelihood obs } := by
  rw [add_sequence, if_neg (by omega)]
  refine Counts.ext rfl ?_ ?_ rfl
  · funext i j
    exact foldl_xi ..
  · funext i o
    exact foldl_column ..

/-- **The accumulators** from any others on: each sequence adds its own expectations, and none looks
at the others. -/
theorem foldl_add_sequence (obs_sequences : List (List (Fin M))) (c : Counts K N M) :
    obs_sequences.foldl p.add_sequence c =
      { pi_acc := fun i => c.pi_acc i + ((trained obs_sequences).map (p.firstOf · i)).sum
        A_acc := fun i j => c.A_acc i j + ((trained obs_sequences).map (p.stepsOf · i j)).sum
        B_acc := fun i o => c.B_acc i o + ((trained obs_sequences).map (p.shownOf · i o)).sum
        total_ll := c.total_ll + ((trained obs_sequences).map p.log_likelihood).sum } := by
  induction obs_sequences generalizing c with
  | nil =>
    simp only [List.foldl_nil, trained, List.filter_nil, List.map_nil, List.sum_nil, add_zero]
  | cons obs obs_sequences ih =>
    rw [List.foldl_cons, ih]
    by_cases h : 2 ≤ obs.length
    · have htrained : trained (obs :: obs_sequences) = obs :: trained obs_sequences :=
        List.filter_cons_of_pos (decide_eq_true h)
      simp only [p.add_sequence_eq c h, htrained, List.map_cons, List.sum_cons, add_assoc]
    · have htrained : trained (obs :: obs_sequences) = trained obs_sequences :=
        List.filter_cons_of_neg (by simpa using h)
      rw [htrained, add_sequence, if_pos (by omega)]

theorem counts_eq (obs_sequences : List (List (Fin M))) :
    p.counts obs_sequences =
      { pi_acc := fun i => ((trained obs_sequences).map (p.firstOf · i)).sum
        A_acc := fun i j => ((trained obs_sequences).map (p.stepsOf · i j)).sum
        B_acc := fun i o => ((trained obs_sequences).map (p.shownOf · i o)).sum
        total_ll := ((trained obs_sequences).map p.log_likelihood).sum } := by
  rw [counts, foldl_add_sequence]
  simp only [Pi.zero_apply, Matrix.zero_apply, zero_add]

end Sums

end Meridian.Hmm
