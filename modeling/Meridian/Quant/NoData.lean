import Meridian.Quant.ProperModel

/-!
# Training on no data

`baum_welch` skips the sequences of fewer than two observations, but what follows the loop over the
sequences runs on empty accumulators too: `0 / (0 + 1e-300)` is 0, the floor raises all entries to
the same `1e-10`, and the division by their sum leaves equal ones. So an iteration that no sequence
enters resets the model to the uniform one, and a row of `A` or `B` without posterior mass becomes
uniform in any iteration.

Results:
* `maximise_row`: what one iteration makes of a row without mass;
* `train_keeps_iff`: when the model, or such a row, is what it was before.

Out of scope: the rounding of doubles, by which the rows of a model that is kept may still move in their
last places.
-/

namespace Meridian

variable {K : Type*} [Field K] [LinearOrder K]

/-- All entries are equal. -/
def uniform (n : ℕ) : Fin n → K := fun _ => 1 / n

namespace Hmm

variable {N M : ℕ}

/-- The model that tells nothing apart. -/
structure Uniform (p : Hmm K N M) : Prop where
  pi : p.pi = uniform N
  A : ∀ i, p.A i = uniform N
  B : ∀ i, p.B i = uniform M

section Iteration

variable [IsStrictOrderedRing K]

/-- The guard term, the floor and the division, from nothing on. -/
theorem floored_divided_zero {n : ℕ} : floored (divided tiny (0 : Fin n → K)) = uniform n := by
  have hraised : raised (divided tiny (0 : Fin n → K)) = fun _ => least := by
    funext i
    rw [raised, divided, Pi.zero_apply, zero_div, max_eq_right least_pos.le]
  funext i
  have hsum : ∑ i : Fin n, (least : K) = n * least := by
    rw [Finset.sum_const, Finset.card_univ, Fintype.card_fin, nsmul_eq_mul]
  rw [floored, hraised, hsum, uniform, div_mul_cancel_right₀ least_pos.ne', one_div]

/-- **A row without mass** is uniform after the iteration: `0 / 1e-300` is 0, the floor makes all
entries equal, and the division by their sum keeps them so. -/
theorem maximise_row (c : Counts K N M) :
    (c.pi_acc = 0 → (maximise c).pi = uniform N) ∧
    (∀ i, c.A_acc i = 0 → (maximise c).A i = uniform N) ∧
    ∀ i, c.B_acc i = 0 → (maximise c).B i = uniform M := by
  refine ⟨fun h => ?_, fun i h => ?_, fun i h => ?_⟩
  · rw [maximise, floor, reestimate, h]
    exact floored_divided_zero
  · simp only [maximise, floor, reestimate]
    rw [h]
    exact floored_divided_zero
  · simp only [maximise, floor, reestimate]
    rw [h]
    exact floored_divided_zero

end Iteration

section Training

variable [MathFunctions K] {obs_sequences : List (List (Fin M))} {tol : K} {n : ℕ}
  {prev_ll : Option K} {p : Hmm K N M}

/-- Where there is an iteration, the result is what the last one makes of its accumulators. -/
theorem exists_last (hn : 0 < n) : ∃ q ∈ iterates obs_sequences tol n prev_ll p,
    baum_welch_loop obs_sequences tol n prev_ll p = maximise (q.counts obs_sequences) := by
  cases n with
  | zero => exact absurd hn (Nat.lt_irrefl 0)
  | succ n =>
    cases hlast : (iterates obs_sequences tol (n + 1) prev_ll p).getLast? with
    | none => cases List.getLast?_eq_none_iff.mp hlast
    | some q =>
      refine ⟨q, List.mem_of_getLast? hlast, ?_⟩
      rw [baum_welch_loop_eq, hlast, Option.map_some, Option.getD_some]

/-- No sequence enters an iteration: nothing is accumulated. -/
theorem counts_of_short (h : ∀ obs ∈ obs_sequences, obs.length < 2) (p : Hmm K N M) :
    (p.counts obs_sequences).pi_acc = 0 ∧ (∀ i, (p.counts obs_sequences).A_acc i = 0) ∧
      ∀ i, (p.counts obs_sequences).B_acc i = 0 := by
  have htrained : trained obs_sequences = [] := by
    refine List.filter_eq_nil_iff.mpr fun obs hobs => ?_
    rw [decide_eq_true_eq, not_le]
    exact h obs hobs
  rw [counts_eq, htrained]
  exact ⟨rfl, fun _ => rfl, fun _ => rfl⟩

variable [IsStrictOrderedRing K]

/-- **Training on short sequences only**: the uniform model, whatever there was before. -/
theorem uniform_of_short (h : ∀ obs ∈ obs_sequences, obs.length < 2) (hn : 0 < n) :
    (baum_welch_loop obs_sequences tol n prev_ll p).Uniform := by
  have hlast : ∃ q ∈ iterates obs_sequences tol n prev_ll p,
      baum_welch_loop obs_sequences tol n prev_ll p = maximise (q.counts obs_sequences) :=
    exists_last hn
  obtain ⟨q, -, hq⟩ := hlast
  obtain ⟨hpi, hA, hB⟩ := counts_of_short h q
  obtain ⟨hpi', hA', hB'⟩ := maximise_row (q.counts obs_sequences)
  rw [hq]
  exact ⟨hpi' hpi, fun i => hA' i (hA i), fun i => hB' i (hB i)⟩

end Training

omit [LinearOrder K] in
/-- There is one uniform model. -/
theorem Uniform.eq {p q : Hmm K N M} (hp : p.Uniform) (hq : q.Uniform) : p = q := by
  have hA : p.A = q.A := funext fun i => (hp.A i).trans (hq.A i).symm
  have hB : p.B = q.B := funext fun i => (hp.B i).trans (hq.B i).symm
  cases p
  cases q
  rw [mk.injEq]
  exact ⟨hp.pi.trans hq.pi.symm, hA, hB⟩

end Hmm

namespace RegimeDetector

open Hmm

variable [MathFunctions K] (d : RegimeDetector K)
  (observation_sequences : List (List (Fin N_OBS))) (n_iter : ℤ) (tol : K)

/-- Nothing is done without an iteration. -/
theorem train_of_nonpos (h : n_iter ≤ 0) :
    (d.train observation_sequences n_iter tol).toHmm = d.toHmm := by
  have hn : n_iter.toNat = 0 := Int.toNat_of_nonpos h
  simp only [train, baum_welch, hn]
  rfl

/-- Otherwise the last iteration decides. -/
theorem train_last (h : 0 < n_iter) :
    ∃ q ∈ iterates observation_sequences tol n_iter.toNat none d.toHmm,
      (d.train observation_sequences n_iter tol).toHmm =
        maximise (q.counts observation_sequences) :=
  exists_last (by omega)

variable [IsStrictOrderedRing K]

/-- **No usable data**: with sequences of fewer than two observations only, training leaves the
model as it is if and only if there is no iteration or the model is the uniform one. A row of `A` or
`B` without posterior mass keeps its values, in an iteration and in a training, if and only if they
are equal already (or, in a training, there is no iteration). -/
theorem train_keeps_iff :
    ((∀ obs ∈ observation_sequences, obs.length < 2) →
      ((d.train observation_sequences n_iter tol).toHmm = d.toHmm ↔
        n_iter ≤ 0 ∨ d.toHmm.Uniform)) ∧
    (∀ (p : Hmm K N_STATES N_OBS) (i : Fin N_STATES),
      let c := p.counts observation_sequences
      (c.A_acc i = 0 → ((maximise c).A i = p.A i ↔ p.A i = uniform N_STATES)) ∧
      (c.B_acc i = 0 → ((maximise c).B i = p.B i ↔ p.B i = uniform N_OBS))) ∧
    ∀ i : Fin N_STATES,
      let starts := iterates observation_sequences tol n_iter.toNat none d.toHmm
      ((∀ p ∈ starts, (p.counts observation_sequences).A_acc i = 0) →
        ((d.train observation_sequences n_iter tol).A i = d.A i ↔
          n_iter ≤ 0 ∨ d.A i = uniform N_STATES)) ∧
      ((∀ p ∈ starts, (p.counts observation_sequences).B_acc i = 0) →
        ((d.train observation_sequences n_iter tol).B i = d.B i ↔
          n_iter ≤ 0 ∨ d.B i = uniform N_OBS)) := by
  refine ⟨fun hshort => ?_, fun p i => ?_, fun i => ?_⟩
  · rcases le_or_gt n_iter 0 with hn | hn
    · exact iff_of_true (train_of_nonpos d _ n_iter tol hn) (Or.inl hn)
    · have huniform : (d.train observation_sequences n_iter tol).toHmm.Uniform :=
        uniform_of_short hshort (by omega)
      refine ⟨fun h => Or.inr (h ▸ huniform), fun h => ?_⟩
      exact huniform.eq (h.resolve_left (not_le.mpr hn))
  · obtain ⟨-, hA, hB⟩ := maximise_row (p.counts observation_sequences)
    refine ⟨fun h => ?_, fun h => ?_⟩
    · rw [hA i h]
      exact eq_comm
    · rw [hB i h]
      exact eq_comm
  · rcases le_or_gt n_iter 0 with hn | hn
    · have h := train_of_nonpos d observation_sequences n_iter tol hn
      exact ⟨fun _ => iff_of_true (by rw [h]) (Or.inl hn),
        fun _ => iff_of_true (by rw [h]) (Or.inl hn)⟩
    · obtain ⟨q, hq, hlast⟩ := d.train_last observation_sequences n_iter tol hn
      obtain ⟨-, hA, hB⟩ := maximise_row (q.counts observation_sequences)
      refine ⟨fun h => ?_, fun h => ?_⟩
      · rw [hlast, hA i (h q hq), or_iff_right (not_le.mpr hn)]
        exact eq_comm
      · rw [hlast, hB i (h q hq), or_iff_right (not_le.mpr hn)]
        exact eq_comm

/-- A detector that tells nothing apart. -/
def even : RegimeDetector K where
  pi := uniform N_STATES
  A := fun _ => uniform N_STATES
  B := fun _ => uniform N_OBS
  belief := uniform N_STATES

/-- Three iterations on one short sequence. -/
theorem train_keeps_even :
    ((even : RegimeDetector ℝ).train [[⟨7, by decide⟩]] 3 0).toHmm = even.toHmm :=
  ((train_keeps_iff (even : RegimeDetector ℝ) [[⟨7, by decide⟩]] 3 0).1 (by simp)).mpr
    (Or.inr ⟨rfl, fun _ => rfl, fun _ => rfl⟩)

/-- **A new detector loses its model** in one iteration on nothing. -/
theorem train_forgets :
    ((new : RegimeDetector ℝ).train [] 1 0).toHmm ≠ (new : RegimeDetector ℝ).toHmm := by
  intro h
  have huniform : ((new : RegimeDetector ℝ).train [] 1 0).toHmm.Uniform :=
    uniform_of_short (by simp) (by decide)
  rw [h] at huniform
  have hpi : ((default_pi ⟨0, by decide⟩ : ℚ) : ℝ) = 1 / (N_STATES : ℕ) :=
    congrFun huniform.pi ⟨0, by decide⟩
  have hcast : ((default_pi ⟨0, by decide⟩ : ℚ) : ℝ) = ((1 / 4 : ℚ) : ℝ) := by
    rw [hpi]
    norm_num [N_STATES]
  have hrational : default_pi ⟨0, by decide⟩ = 1 / 4 := by exact_mod_cast hcast
  revert hrational
  decide +kernel

end RegimeDetector

end Meridian
