import Meridian.Lib.Gibbs
import Meridian.Quant.ProperModel

/-!
# Baum-Welch does not lose likelihood

One iteration of `baum_welch` on sequences of at least two observations, without the guard terms and
before the floor: the accumulators are the expected numbers of starts, transitions and emissions
given the observations, so the expected logarithm of the probability of the hidden paths is read off
them (`expected_log`), their rows divided by their totals make it largest (`score_le`), and its gain
is at most the gain in the logarithm of the likelihood (`score_sub_le`).

Results:
* `expected_log`: the posterior mean of the logarithm of a path's probability;
* `score_le`: the re-estimated parameters have the largest score;
* `baum_welch_ascent`: the product of the likelihoods does not decrease.

Out of scope: the rounding of doubles, and whether the iterations converge to a maximum.
-/

namespace Meridian.Hmm

open Matrix HiddenPaths

variable {N M : ℕ}

/-- The probability of a sequence. -/
def probability {K : Type*} [Field K] (p : Hmm K N M) : List (Fin M) → K
  | [] => 1
  | o :: os => p.likelihood o os

/-- The logarithms of the parameters, each as often as it was counted. -/
noncomputable def score (c : Counts ℝ N M) (q : Hmm ℝ N M) : ℝ :=
  ∑ i, c.pi_acc i * Real.log (q.pi i) + ∑ i, ∑ j, c.A_acc i j * Real.log (q.A i j) +
    ∑ i, ∑ o, c.B_acc i o * Real.log (q.B i o)

/-- What one sequence adds to the accumulators, apart from its likelihood. -/
noncomputable def ofSequence (p : Hmm ℝ N M) (obs : List (Fin M)) : Counts ℝ N M :=
  ⟨p.firstOf obs, p.stepsOf obs, p.shownOf obs, 0⟩

/-! ## The accumulators of one sequence -/

section Sequence

variable {p : Hmm ℝ N M} {o : Fin M} {os : List (Fin M)}

theorem firstOf_eq (h : ∀ t, p.total (p.start o) os.get t ≠ 0) (i : Fin N) :
    p.firstOf (o :: os) i = p.through o os.get 0 i := by
  rw [firstOf, p.gamma_eq o os h, List.ofFn_succ, List.headD_cons]

theorem stepsOf_eq (h : ∀ t, p.total (p.start o) os.get t ≠ 0) (i j : Fin N) :
    p.stepsOf (o :: os) i j = ∑ t, p.around o os.get t (i, j) := by
  rw [stepsOf, p.xi_eq o os h, List.map_ofFn, List.sum_ofFn]
  rfl

theorem shownOf_eq (h : ∀ t, p.total (p.start o) os.get t ≠ 0) (i : Fin N) (k : Fin M) :
    p.shownOf (o :: os) i k =
      ∑ t, if k = (o :: os).get t then p.through o os.get t i else 0 := by
  rw [shownOf, p.gamma_eq o os h, zip_ofFn (o :: os), List.map_ofFn, List.sum_ofFn]
  rfl

/-- A posterior mean of a function of one state. -/
theorem mean_at (t : Fin (os.length + 1)) (g : Fin N → ℝ) :
    ∑ s, p.pathProb o os s / p.likelihood o os * g (s t) = ∑ i, p.through o os.get t i * g i := by
  have h := sum_weight_at (p.start o) (p.steps os.get) t g
  simp only [pathProb_eq_weight, likelihood_eq_sum_weight, through, total_last, div_mul_eq_mul_div]
  rw [← Finset.sum_div, ← Finset.sum_div, h]

/-- A posterior mean of a function of two successive states. -/
theorem mean_step (t : Fin os.length) (g : Fin N → Fin N → ℝ) :
    ∑ s, p.pathProb o os s / p.likelihood o os * g (s t.castSucc) (s t.succ) =
      ∑ i, ∑ j, p.around o os.get t (i, j) * g i j := by
  have h := sum_weight_step (p.start o) (p.steps os.get) t g
  simp only [pathProb_eq_weight, likelihood_eq_sum_weight, around, total_last, div_mul_eq_mul_div]
  simp only [← Finset.sum_div]
  rw [h]
  rfl

/-- The logarithm of a path's probability. -/
theorem log_pathProb {q : Hmm ℝ N M} {s : Fin (os.length + 1) → Fin N} (hpi : q.pi (s 0) ≠ 0)
    (hA : ∀ t : Fin os.length, q.A (s t.castSucc) (s t.succ) ≠ 0)
    (hB : ∀ t, q.B (s t) ((o :: os).get t) ≠ 0) :
    Real.log (q.pathProb o os s) = Real.log (q.pi (s 0)) +
      ∑ t : Fin os.length, Real.log (q.A (s t.castSucc) (s t.succ)) +
      ∑ t, Real.log (q.B (s t) ((o :: os).get t)) := by
  have hB0 : q.B (s 0) o ≠ 0 := hB 0
  have hBs : ∀ t : Fin os.length, q.B (s t.succ) (os.get t) ≠ 0 := fun t => hB t.succ
  have hprod : ∏ t : Fin os.length, q.A (s t.castSucc) (s t.succ) * q.B (s t.succ) (os.get t) ≠ 0 :=
    Finset.prod_ne_zero_iff.mpr fun t _ => mul_ne_zero (hA t) (hBs t)
  have hsteps : ∑ t : Fin os.length,
      Real.log (q.A (s t.castSucc) (s t.succ) * q.B (s t.succ) (os.get t)) =
      ∑ t : Fin os.length, Real.log (q.A (s t.castSucc) (s t.succ)) +
        ∑ t : Fin os.length, Real.log (q.B (s t.succ) (os.get t)) := by
    rw [← Finset.sum_add_distrib]
    exact Finset.sum_congr rfl fun t _ => Real.log_mul (hA t) (hBs t)
  rw [pathProb, Real.log_mul (mul_ne_zero hpi hB0) hprod, Real.log_mul hpi hB0,
    Real.log_prod fun t _ => mul_ne_zero (hA t) (hBs t), hsteps, Fin.sum_univ_succ]
  simp only [List.get_cons_zero, List.get_cons_succ']
  ring

/-- Sums over the times at which each observation is shown. -/
theorem sum_shown (f : Fin (os.length + 1) → Fin N → ℝ) (g : Fin N → Fin M → ℝ) :
    ∑ t, ∑ i, f t i * g i ((o :: os).get t) =
      ∑ i, ∑ k, (∑ t, if k = (o :: os).get t then f t i else 0) * g i k := by
  rw [Finset.sum_comm]
  refine Finset.sum_congr rfl fun i _ => ?_
  simp only [Finset.sum_mul, ite_mul, zero_mul]
  rw [Finset.sum_comm]
  refine Finset.sum_congr rfl fun t _ => ?_
  rw [Finset.sum_ite_eq' Finset.univ ((o :: os).get t) fun k => f t i * g i k,
    if_pos (Finset.mem_univ _)]

/-- **The expected logarithm** of a path's probability is read off the accumulators. -/
theorem expected_log (h : ∀ t, p.total (p.start o) os.get t ≠ 0) {q : Hmm ℝ N M}
    (hpi : ∀ i, q.pi i ≠ 0) (hA : ∀ i j, q.A i j ≠ 0) (hB : ∀ i, ∀ k ∈ o :: os, q.B i k ≠ 0) :
    ∑ s, p.pathProb o os s / p.likelihood o os * Real.log (q.pathProb o os s) =
      score (p.ofSequence (o :: os)) q := by
  have hlog : ∀ s, Real.log (q.pathProb o os s) = Real.log (q.pi (s 0)) +
      ∑ t : Fin os.length, Real.log (q.A (s t.castSucc) (s t.succ)) +
      ∑ t, Real.log (q.B (s t) ((o :: os).get t)) := fun s =>
    log_pathProb (hpi _) (fun t => hA _ _) fun t => hB _ _ (List.get_mem _ _)
  simp only [hlog, mul_add, Finset.sum_add_distrib, Finset.mul_sum]
  have hfirst : ∑ s, p.pathProb o os s / p.likelihood o os * Real.log (q.pi (s 0)) =
      ∑ i, p.through o os.get 0 i * Real.log (q.pi i) := mean_at 0 fun i => Real.log (q.pi i)
  have hsteps : ∑ s, ∑ t : Fin os.length, p.pathProb o os s / p.likelihood o os *
      Real.log (q.A (s t.castSucc) (s t.succ)) =
      ∑ i, ∑ j, p.stepsOf (o :: os) i j * Real.log (q.A i j) := by
    rw [Finset.sum_comm]
    simp only [mean_step _ fun i j => Real.log (q.A i j), stepsOf_eq h, Finset.sum_mul]
    rw [Finset.sum_comm]
    refine Finset.sum_congr rfl fun i _ => ?_
    rw [Finset.sum_comm]
  have hshown : ∑ s, ∑ t, p.pathProb o os s / p.likelihood o os *
      Real.log (q.B (s t) ((o :: os).get t)) =
      ∑ i, ∑ k, p.shownOf (o :: os) i k * Real.log (q.B i k) := by
    rw [Finset.sum_comm]
    simp only [shownOf_eq h]
    rw [← sum_shown (p.through o os.get) fun i k => Real.log (q.B i k)]
    exact Finset.sum_congr rfl fun t _ => mean_at t fun i => Real.log (q.B i ((o :: os).get t))
  rw [hfirst, hsteps, hshown, score]
  simp only [ofSequence, firstOf_eq h]

end Sequence

/-! ## The score -/

/-- The score is additive over the sequences. -/
theorem score_counts (p q : Hmm ℝ N M) {obs_sequences : List (List (Fin M))}
    (hlen : ∀ obs ∈ obs_sequences, 2 ≤ obs.length) :
    score (p.counts obs_sequences) q =
      (obs_sequences.map fun obs => score (p.ofSequence obs) q).sum := by
  have htrained : trained obs_sequences = obs_sequences :=
    List.filter_eq_self.mpr fun obs hobs => decide_eq_true (hlen obs hobs)
  rw [counts_eq, htrained]
  clear hlen htrained
  induction obs_sequences with
  | nil => simp only [score, List.map_nil, List.sum_nil, zero_mul, Finset.sum_const_zero, add_zero]
  | cons obs obs_sequences ih =>
    have hcons : ((obs :: obs_sequences).map fun obs => score (p.ofSequence obs) q).sum =
        score (p.ofSequence obs) q +
          (obs_sequences.map fun obs => score (p.ofSequence obs) q).sum := List.sum_cons
    rw [hcons, ← ih]
    simp only [score, ofSequence, List.map_cons, List.sum_cons, add_mul, Finset.sum_add_distrib]
    ring

/-- A row divided by its total has the largest score. -/
theorem sum_mul_log_le_divided {n : ℕ} {acc q : Fin n → ℝ} (hacc : ∀ i, 0 ≤ acc i)
    (hq : Distribution q) (hpos : ∀ i, 0 < q i) :
    ∑ i, acc i * Real.log (q i) ≤ ∑ i, acc i * Real.log (divided 0 acc i) := by
  simp only [divided, add_zero]
  exact sum_mul_log_le hacc hq.nonneg (fun i _ => hpos i) hq.sum.le

/-- **The maximiser**: no positive model has a larger score than the re-estimated parameters. -/
theorem score_le {c : Counts ℝ N M} (hc : NonnegCounts c) {q : Hmm ℝ N M} (hq : q.Proper)
    (hpi : ∀ i, 0 < q.pi i) : score c q ≤ score c (reestimate 0 c) :=
  add_le_add
    (add_le_add (sum_mul_log_le_divided hc.pi_acc hq.pi hpi)
      (Finset.sum_le_sum fun i _ => sum_mul_log_le_divided (hc.A_acc i) (hq.A i) (hq.A_pos i)))
    (Finset.sum_le_sum fun i _ => sum_mul_log_le_divided (hc.B_acc i) (hq.B i) (hq.B_pos i))

/-! ## The re-estimated parameters -/

/-- A positive entry of a row stays one. -/
theorem divided_pos {n : ℕ} {acc : Fin n → ℝ} (hacc : ∀ i, 0 ≤ acc i) {i : Fin n} (hi : 0 < acc i) :
    0 < divided 0 acc i := by
  have hsum : 0 < ∑ i, acc i :=
    hi.trans_le (Finset.single_le_sum (fun i _ => hacc i) (Finset.mem_univ i))
  rw [divided, add_zero]
  exact div_pos hi hsum

section Positive

variable {p : Hmm ℝ N M} {o : Fin M} {os : List (Fin M)}

/-- What a sequence of at least two observations adds is positive, in `B_acc` for its own. -/
theorem ofSequence_pos (hp : p.Proper) (hpi : ∀ i, 0 < p.pi i) (hos : os ≠ []) :
    (∀ i, 0 < p.firstOf (o :: os) i) ∧ (∀ i j, 0 < p.stepsOf (o :: os) i j) ∧
      ∀ i, ∀ k ∈ o :: os, 0 < p.shownOf (o :: os) i k := by
  have hstart : ∀ i, 0 < p.start o i := fun i => mul_pos (hpi i) (hp.B_pos i o)
  have hsteps : ∀ t i j, 0 < p.steps os.get t i j := fun t i j =>
    mul_pos (hp.A_pos i j) (hp.B_pos j (os.get t))
  have htotal := hp.nonneg.total_pos (hp.likelihood_pos o os)
  have hne := fun t => (htotal t).ne'
  have hahead := ahead_pos hstart hsteps
  have hbehind := behind_pos hsteps
  have hthrough : ∀ t i, 0 < p.through o os.get t i := fun t i =>
    div_pos (mul_pos (hahead t i) (hbehind t i)) (htotal _)
  have haround : ∀ t ij, 0 < p.around o os.get t ij := fun t ij =>
    div_pos (mul_pos (mul_pos (hahead _ _) (hsteps t _ _)) (hbehind _ _)) (htotal _)
  refine ⟨fun i => ?_, fun i j => ?_, fun i k hk => ?_⟩
  · rw [firstOf_eq hne]
    exact hthrough 0 i
  · rw [stepsOf_eq hne]
    have hlen : 0 < os.length := List.length_pos_iff.mpr hos
    exact Finset.sum_pos (fun t _ => haround t (i, j)) ⟨⟨0, hlen⟩, Finset.mem_univ _⟩
  · obtain ⟨t, ht⟩ := List.get_of_mem hk
    rw [shownOf_eq hne]
    refine Finset.sum_pos' (fun u _ => ?_) ⟨t, Finset.mem_univ t, ?_⟩
    · split
      · exact (hthrough u i).le
      · exact le_rfl
    · rw [if_pos ht.symm]
      exact hthrough t i

/-- A sum over the sequences is at least what one of them adds. -/
theorem sum_map_pos {obs_sequences : List (List (Fin M))} {f : List (Fin M) → ℝ}
    (hf : ∀ obs ∈ obs_sequences, 0 ≤ f obs) {obs : List (Fin M)} (hobs : obs ∈ obs_sequences)
    (hpos : 0 < f obs) : 0 < (obs_sequences.map f).sum := by
  refine hpos.trans_le (List.single_le_sum (fun x hx => ?_) _ (List.mem_map_of_mem hobs))
  obtain ⟨obs', hobs', rfl⟩ := List.mem_map.mp hx
  exact hf obs' hobs'

/-- **The re-estimated parameters are positive** where the sequences need them. -/
theorem reestimate_pos (hp : p.Proper) (hpi : ∀ i, 0 < p.pi i)
    {obs_sequences : List (List (Fin M))} (hlen : ∀ obs ∈ obs_sequences, 2 ≤ obs.length)
    (hobs : o :: os ∈ obs_sequences) :
    (∀ i, 0 < (reestimate 0 (p.counts obs_sequences)).pi i) ∧
    (∀ i j, 0 < (reestimate 0 (p.counts obs_sequences)).A i j) ∧
    ∀ i, ∀ k ∈ o :: os, 0 < (reestimate 0 (p.counts obs_sequences)).B i k := by
  have hos : os ≠ [] := by
    rintro rfl
    exact absurd (hlen _ hobs) (by simp)
  obtain ⟨hfirst, hsteps, hshown⟩ := ofSequence_pos (o := o) hp hpi hos
  have hc := hp.counts_nonneg obs_sequences
  have hadds := fun obs hobs => hp.adds_nonneg (hlen obs hobs)
  have htrained : trained obs_sequences = obs_sequences :=
    List.filter_eq_self.mpr fun obs hobs => decide_eq_true (hlen obs hobs)
  have hcounts := p.counts_eq obs_sequences
  rw [htrained] at hcounts
  refine ⟨fun i => divided_pos hc.pi_acc ?_, fun i j => divided_pos (hc.A_acc i) ?_,
    fun i k hk => divided_pos (hc.B_acc i) ?_⟩
  · rw [hcounts]
    exact sum_map_pos (fun obs h => (hadds obs h).1 i) hobs (hfirst i)
  · rw [hcounts]
    exact sum_map_pos (fun obs h => (hadds obs h).2.1 i j) hobs (hsteps i j)
  · rw [hcounts]
    exact sum_map_pos (fun obs h => (hadds obs h).2.2 i k) hobs (hshown i k hk)

/-- The probability of a path under positive parameters. -/
theorem pathProb_pos {q : Hmm ℝ N M} (hpi : ∀ i, 0 < q.pi i) (hA : ∀ i j, 0 < q.A i j)
    (hB : ∀ i, ∀ k ∈ o :: os, 0 < q.B i k) (s : Fin (os.length + 1) → Fin N) :
    0 < q.pathProb o os s :=
  mul_pos (mul_pos (hpi _) (hB _ _ List.mem_cons_self)) (Finset.prod_pos fun t _ =>
    mul_pos (hA _ _) (hB _ _ (List.mem_cons_of_mem _ (List.get_mem os t))))

/-- **One sequence**: its likelihood gains at least what its score does. -/
theorem score_sub_le (hp : p.Proper) (hpi : ∀ i, 0 < p.pi i) {q : Hmm ℝ N M}
    (hqpi : ∀ i, 0 < q.pi i) (hqA : ∀ i j, 0 < q.A i j) (hqB : ∀ i, ∀ k ∈ o :: os, 0 < q.B i k) :
    score (p.ofSequence (o :: os)) q - score (p.ofSequence (o :: os)) p ≤
      Real.log (q.likelihood o os) - Real.log (p.likelihood o os) := by
  have hne := fun t => (hp.nonneg.total_pos (hp.likelihood_pos o os) t).ne'
  have hq := expected_log hne (fun i => (hqpi i).ne') (fun i j => (hqA i j).ne')
    fun i k hk => (hqB i k hk).ne'
  have hself := expected_log hne (fun i => (hpi i).ne') (fun i j => (hp.A_pos i j).ne')
    fun i k _ => (hp.B_pos i k).ne'
  have hgain := sum_div_mul_log_sub_le
    (pathProb_pos hpi hp.A_pos fun i k _ => hp.B_pos i k) (pathProb_pos hqpi hqA hqB)
    (hp.likelihood_pos o os)
  rw [← hq, ← hself, ← Finset.sum_sub_distrib]
  simp only [mul_sub] at hgain
  exact hgain

end Positive

/-- A product of positive numbers grows with the sum of their logarithms. -/
theorem prod_le_prod_of_sum_log {α : Type*} {l : List α} {f g : α → ℝ} (hf : ∀ x ∈ l, 0 < f x)
    (hg : ∀ x ∈ l, 0 < g x)
    (h : (l.map fun x => Real.log (f x)).sum ≤ (l.map fun x => Real.log (g x)).sum) :
    (l.map f).prod ≤ (l.map g).prod := by
  have hexp : ∀ k : α → ℝ, (∀ x ∈ l, 0 < k x) →
      Real.exp (l.map fun x => Real.log (k x)).sum = (l.map k).prod := by
    intro k hk
    rw [Real.exp_list_sum, List.map_map]
    congr 1
    exact List.map_congr_left fun x hx => Real.exp_log (hk x hx)
  rw [← hexp f hf, ← hexp g hg]
  exact Real.exp_le_exp.mpr h

/-- **Baum-Welch ascent**: on sequences of at least two observations, the parameters re-estimated
from a positive model, without guard terms and floor, do not lower the product of the likelihoods.
-/
theorem baum_welch_ascent (p : Hmm ℝ N M) (hp : p.Proper) (hpi : ∀ i, 0 < p.pi i)
    (obs_sequences : List (List (Fin M))) (hlen : ∀ obs ∈ obs_sequences, 2 ≤ obs.length) :
    (obs_sequences.map p.probability).prod ≤
      (obs_sequences.map (reestimate 0 (p.counts obs_sequences)).probability).prod := by
  have hcons : ∀ obs ∈ obs_sequences, ∃ o os, obs = o :: os := by
    intro obs hobs
    cases obs with
    | nil => exact absurd (hlen _ hobs) (by simp)
    | cons o os => exact ⟨o, os, rfl⟩
  have hscore := score_le (hp.counts_nonneg obs_sequences) hp hpi
  rw [score_counts p p hlen, score_counts p _ hlen] at hscore
  have hgain : ∀ obs ∈ obs_sequences,
      score (p.ofSequence obs) (reestimate 0 (p.counts obs_sequences)) +
        Real.log (p.probability obs) ≤
      score (p.ofSequence obs) p +
        Real.log ((reestimate 0 (p.counts obs_sequences)).probability obs) := by
    intro obs hobs
    obtain ⟨o, os, rfl⟩ := hcons obs hobs
    obtain ⟨hqpi, hqA, hqB⟩ := reestimate_pos hp hpi hlen hobs
    have h := score_sub_le hp hpi hqpi hqA hqB
    simp only [probability]
    linarith
  have hsum := List.sum_le_sum hgain
  rw [List.sum_map_add, List.sum_map_add] at hsum
  refine prod_le_prod_of_sum_log (fun obs hobs => ?_) (fun obs hobs => ?_) (by linarith)
  · obtain ⟨o, os, rfl⟩ := hcons obs hobs
    exact hp.likelihood_pos o os
  · obtain ⟨o, os, rfl⟩ := hcons obs hobs
    obtain ⟨hqpi, hqA, hqB⟩ := reestimate_pos hp hpi hlen hobs
    obtain ⟨i, -, -⟩ : ∃ i ∈ Finset.univ, p.pi i ≠ 0 := by
      refine Finset.exists_ne_zero_of_sum_ne_zero ?_
      rw [hp.pi.sum]
      exact one_ne_zero
    exact Finset.sum_pos (fun s _ => pathProb_pos hqpi hqA hqB s) ⟨fun _ => i, Finset.mem_univ _⟩

/-- Two states that mostly show the observation of their own. -/
noncomputable def skewed : Hmm ℝ 2 2 where
  pi := fun i => ((![1 / 4, 3 / 4] : Fin 2 → ℚ) i : ℝ)
  A := fun i j => ((![![2 / 3, 1 / 3], ![1 / 2, 1 / 2]] : Fin 2 → Fin 2 → ℚ) i j : ℝ)
  B := fun i o => ((![![3 / 4, 1 / 4], ![1 / 5, 4 / 5]] : Fin 2 → Fin 2 → ℚ) i o : ℝ)

theorem proper_skewed : skewed.Proper ∧ ∀ i, 0 < skewed.pi i := by
  have hrow : ∀ {v : Fin 2 → ℚ}, (∀ i, 0 < v i) → ∑ i, v i = 1 →
      Distribution (fun i => (v i : ℝ)) ∧ ∀ i, 0 < (v i : ℝ) := by
    intro v hpos hsum
    have hv : Distribution v := ⟨fun i => (hpos i).le, hsum⟩
    exact ⟨hv.cast, fun i => Rat.cast_pos.mpr (hpos i)⟩
  have hpi := hrow (v := ![1 / 4, 3 / 4]) (by decide +kernel) (by decide +kernel)
  have hA : ∀ i, Distribution (skewed.A i) ∧ ∀ j, 0 < skewed.A i j := Fin.forall_fin_two.mpr
    ⟨hrow (v := ![2 / 3, 1 / 3]) (by decide +kernel) (by decide +kernel),
      hrow (v := ![1 / 2, 1 / 2]) (by decide +kernel) (by decide +kernel)⟩
  have hB : ∀ i, Distribution (skewed.B i) ∧ ∀ o, 0 < skewed.B i o := Fin.forall_fin_two.mpr
    ⟨hrow (v := ![3 / 4, 1 / 4]) (by decide +kernel) (by decide +kernel),
      hrow (v := ![1 / 5, 4 / 5]) (by decide +kernel) (by decide +kernel)⟩
  exact ⟨⟨hpi.1, fun i => (hA i).1, fun i => (hA i).2, fun i => (hB i).1, fun i => (hB i).2⟩, hpi.2⟩

/-- Two sequences, of three observations and of two. -/
theorem baum_welch_ascent_skewed :
    skewed.probability [0, 1, 1] * skewed.probability [1, 0] ≤
      (reestimate 0 (skewed.counts [[0, 1, 1], [1, 0]])).probability [0, 1, 1] *
        (reestimate 0 (skewed.counts [[0, 1, 1], [1, 0]])).probability [1, 0] := by
  have h := baum_welch_ascent skewed proper_skewed.1 proper_skewed.2 [[0, 1, 1], [1, 0]]
    (by decide)
  simpa only [List.map_cons, List.map_nil, List.prod_cons, List.prod_nil, mul_one] using h

end Meridian.Hmm
