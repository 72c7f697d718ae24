import Mathlib.Tactic.FieldSimp
import Mathlib.Tactic.LinearCombination
import Meridian.Quant.ProperModel

/-!
# The online filter and the trained model

`update` moves the belief one transition on before it takes the first observation in, `_forward`
takes the first observation in at `pi` itself. With a belief that starts as `pi` the two agree on
all sequences if and only if `pi` is stationary under `A`. Both are weights carried through the same
steps and divided by their total: `update` carries `pi` through the observations since it last reset
the belief, `_forward` carries `pi * B[:, o]` through those after the first.

Results:
* `belief_updates`, `last_alpha`: the two sides in closed form;
* `filter_agrees_iff`: when they agree, for each sequence and for all of them.

Out of scope: the rounding of doubles; two beliefs agree as exact numbers.
-/

namespace Meridian

open Matrix HiddenPaths

variable {K : Type*} [Field K] {N M : ℕ}

namespace Hmm

/-- Weights carried through a transition and an observation at a time. -/
def carry (p : Hmm K N M) (v : Fin N → K) (os : List (Fin M)) : Fin N → K :=
  os.foldl (fun v o => v ᵥ* p.step o) v

theorem carry_cons (p : Hmm K N M) (v : Fin N → K) (o : Fin M) (os : List (Fin M)) :
    p.carry v (o :: os) = p.carry (v ᵥ* p.step o) os := rfl

theorem carry_concat (p : Hmm K N M) (v : Fin N → K) (os : List (Fin M)) (o : Fin M) :
    p.carry v (os ++ [o]) = p.carry v os ᵥ* p.step o := List.foldl_concat ..

theorem carry_ofFn (p : Hmm K N M) {n : ℕ} (v : Fin N → K) (os : Fin n → Fin M) :
    p.carry v (List.ofFn os) = ahead v (p.steps os) (Fin.last n) := by
  induction n generalizing v with
  | zero => rfl
  | succ n ih =>
    rw [List.ofFn_succ, carry_cons, ih]
    rfl

/-- Carried weights are the last row of the unscaled recursion. -/
theorem carry_eq (p : Hmm K N M) (v : Fin N → K) (os : List (Fin M)) :
    p.carry v os = ahead v (p.steps os.get) (Fin.last os.length) := by
  have h := p.carry_ofFn v os.get
  rwa [List.ofFn_get] at h

theorem carry_zero (p : Hmm K N M) (os : List (Fin M)) : p.carry 0 os = 0 := by
  induction os with
  | nil => rfl
  | cons o os ih => rw [carry_cons, zero_vecMul, ih]

/-- Carrying is linear. -/
theorem carry_sub_smul (p : Hmm K N M) (v w : Fin N → K) (c : K) (os : List (Fin M)) :
    p.carry (v - c • w) os = p.carry v os - c • p.carry w os := by
  induction os generalizing v w with
  | nil => rfl
  | cons o os ih => rw [carry_cons, sub_vecMul, smul_vecMul, ih, carry_cons, carry_cons]

variable [LinearOrder K]

/-- The observations since the last reset, with one more: none where it is all but impossible. -/
def keep (p : Hmm K N M) (kept : List (Fin M)) (o : Fin M) : List (Fin M) :=
  if ∑ i, p.carry p.pi (kept ++ [o]) i < tiny * ∑ i, p.carry p.pi kept i then [] else kept ++ [o]

/-- The observations since the last reset. -/
def since_reset (p : Hmm K N M) (obs : List (Fin M)) : List (Fin M) := obs.foldl p.keep []

end Hmm

namespace RegimeDetector

variable [LinearOrder K]

/-- `update` called on a sequence in order. -/
def updates (d : RegimeDetector K) (obs : List (Fin N_OBS)) : RegimeDetector K :=
  obs.foldl (fun d (o : Fin N_OBS) => d.update ((o : ℕ) : ℤ)) d

/-- The belief after the updates is the last row of `alpha`. -/
def Agrees (d : RegimeDetector K) (o : Fin N_OBS) (os : List (Fin N_OBS)) : Prop :=
  (d.alpha (o :: os)).getLast? = some (d.updates (o :: os)).belief

end RegimeDetector

/-! ## Proportional weights -/

/-- Two vectors are equal once they are divided by their totals if and only if one is a multiple of
the other. -/
theorem div_sum_eq_iff {n : ℕ} {v w : Fin n → K} (hv : ∑ i, v i ≠ 0) (hw : ∑ i, w i ≠ 0) :
    ((fun i => w i / ∑ i, w i) = fun i => v i / ∑ i, v i) ↔ ∃ c : K, v = c • w := by
  refine ⟨fun h => ⟨(∑ i, v i) / ∑ i, w i, ?_⟩, fun h => ?_⟩
  · funext i
    have hi : w i / ∑ i, w i = v i / ∑ i, v i := congrFun h i
    rw [Pi.smul_apply, smul_eq_mul, div_mul_eq_mul_div, eq_div_iff hw]
    rw [div_eq_div_iff hw hv] at hi
    linear_combination -hi
  · obtain ⟨c, hc⟩ := h
    have hsum : ∑ i, v i = c * ∑ i, w i := by
      rw [Finset.mul_sum, hc]
      rfl
    have hc0 : c ≠ 0 := by
      rintro rfl
      exact hv (by rw [hsum, zero_mul])
    funext i
    rw [hsum, hc, Pi.smul_apply, smul_eq_mul, mul_div_mul_left _ _ hc0]

variable [LinearOrder K] [IsStrictOrderedRing K]

namespace Hmm

variable {p : Hmm K N M}

theorem Proper.step_pos (hp : p.Proper) (o : Fin M) (i j : Fin N) : 0 < p.step o i j :=
  mul_pos (hp.A_pos i j) (hp.B_pos j o)

/-- Carried weights do not vanish. -/
theorem Proper.sum_carry_pos (hp : p.Proper) {v : Fin N → K} (hv : ∀ i, 0 ≤ v i)
    (hsum : 0 < ∑ i, v i) (os : List (Fin M)) : 0 < ∑ i, p.carry v os i := by
  have hpos := sum_weight_pos hv hsum fun t => hp.step_pos (os.get t)
  rw [sum_weight] at hpos
  rw [carry_eq]
  exact hpos

theorem Proper.sum_pi_pos (hp : p.Proper) : 0 < ∑ i, p.pi i := by
  rw [hp.pi.sum]
  exact zero_lt_one

theorem Proper.sum_start_pos (hp : p.Proper) (o : Fin M) : 0 < ∑ i, p.start o i := by
  have h := hp.nonneg.total_pos (hp.likelihood_pos o []) 0
  rwa [total_zero] at h

/-- **The last row of `alpha`**: the first observation taken in at `pi`, carried on. -/
theorem Proper.last_alpha (hp : p.Proper) (o : Fin M) (os : List (Fin M)) :
    (p.alpha (o :: os)).getLast? = some fun i =>
      p.carry (p.start o) os i / ∑ i, p.carry (p.start o) os i := by
  have hne := fun t => (hp.nonneg.total_pos (hp.likelihood_pos o os) t).ne'
  rw [p.alpha_eq o os hne, List.ofFn_succ', List.concat_eq_append, List.getLast?_concat, carry_eq]
  rfl

omit [LinearOrder K] [IsStrictOrderedRing K] in
/-- One more transition and observation. -/
theorem sum_carry_concat (v : Fin N → K) (os : List (Fin M)) (o : Fin M) :
    ∑ i, p.carry v (os ++ [o]) i = ∑ j, (p.carry v os ᵥ* p.A) j * p.B j o := by
  rw [carry_concat]
  refine Finset.sum_congr rfl fun j _ => ?_
  simp only [vecMul, dotProduct, step, Finset.sum_mul, mul_assoc]

/-- **No reset** where all emissions are at least `1e-300`: the weight of an observation never gets
below that. -/
theorem Proper.since_reset (hp : p.Proper) (hB : ∀ i o, tiny ≤ p.B i o) (obs : List (Fin M)) :
    p.since_reset obs = obs := by
  have hcarry : ∀ kept i, 0 ≤ p.carry p.pi kept i := by
    intro kept i
    rw [carry_eq]
    exact ahead_nonneg hp.pi.nonneg (fun t i j => (hp.step_pos (kept.get t) i j).le) _ i
  have hkeep : ∀ kept o, p.keep kept o = kept ++ [o] := by
    intro kept o
    refine if_neg (not_lt.mpr ?_)
    have hrows : ∑ i, p.carry p.pi kept i = ∑ j, (p.carry p.pi kept ᵥ* p.A) j := by
      simp only [vecMul, dotProduct]
      rw [Finset.sum_comm]
      refine Finset.sum_congr rfl fun i _ => ?_
      rw [← Finset.mul_sum, (hp.A i).sum, mul_one]
    rw [sum_carry_concat, hrows, Finset.mul_sum]
    refine Finset.sum_le_sum fun j _ => ?_
    rw [mul_comm]
    refine mul_le_mul_of_nonneg_left (hB j o) ?_
    simp only [vecMul, dotProduct]
    exact Finset.sum_nonneg fun i _ => mul_nonneg (hcarry kept i) (hp.A_pos i j).le
  unfold Hmm.since_reset
  induction obs using List.reverseRecOn with
  | nil => rfl
  | append_singleton obs o ih => rw [List.foldl_concat, ih, hkeep]

/-- The weights after one observation are proportional to `pi * B[:, o]` where `pi` is stationary,
and only there. -/
theorem Proper.carry_single_iff (hp : p.Proper) (o : Fin M) :
    (∃ c : K, p.carry p.pi [o] = c • p.carry (p.start o) []) ↔ p.pi ᵥ* p.A = p.pi := by
  have hcarry : ∀ j, p.carry p.pi [o] j = (p.pi ᵥ* p.A) j * p.B j o := by
    intro j
    rw [carry_cons]
    simp only [carry, List.foldl_nil, vecMul, dotProduct, step, Finset.sum_mul, mul_assoc]
  refine ⟨fun h => ?_, fun h => ⟨1, ?_⟩⟩
  · obtain ⟨c, hc⟩ := h
    have hrow : ∀ j, (p.pi ᵥ* p.A) j = c * p.pi j := by
      intro j
      have hj : (p.pi ᵥ* p.A) j * p.B j o = c * (p.pi j * p.B j o) := by
        rw [← hcarry, hc]
        rfl
      exact mul_right_cancel₀ (hp.B_pos j o).ne' (by rw [hj, mul_assoc])
    have hsum : ∑ j, (p.pi ᵥ* p.A) j = 1 := (RegimeDetector.distribution_vecMul hp.pi hp.A).sum
    have hc1 : c = 1 := by
      simp only [hrow] at hsum
      rwa [← Finset.mul_sum, hp.pi.sum, mul_one] at hsum
    funext j
    rw [hrow, hc1, one_mul]
  · funext j
    rw [hcarry, h, one_smul]
    rfl

end Hmm

namespace RegimeDetector

variable {d : RegimeDetector K}

omit [IsStrictOrderedRing K] in
theorem update_cast (d : RegimeDetector K) (o : Fin N_OBS) :
    d.update ((o : ℕ) : ℤ) = d.observe o := by
  have hrange : (0 : ℤ) ≤ ((o : ℕ) : ℤ) ∧ ((o : ℕ) : ℤ) < (N_OBS : ℤ) := by
    have := o.isLt
    omega
  rw [update, dif_pos hrange]
  congr 1

omit [IsStrictOrderedRing K] in
theorem observe_model (d : RegimeDetector K) (o : Fin N_OBS) : (d.observe o).toHmm = d.toHmm := by
  unfold observe
  simp only
  split
  · rfl
  · rfl

omit [LinearOrder K] [IsStrictOrderedRing K] in
/-- `updated` for a belief that is a row divided by a number. -/
theorem updated_eq {v : Fin N_STATES → K} {c : K} (hb : d.belief = fun i => v i / c)
    (o : Fin N_OBS) : d.updated o = fun j => (v ᵥ* d.step o) j * c⁻¹ := by
  rw [← d.vecMul_step, ← hb]
  rfl

/-- **The belief after the updates**: `pi` carried through the observations since the last reset. -/
theorem belief_updates (hp : d.toHmm.Proper) (hbelief : d.belief = d.pi) (obs : List (Fin N_OBS)) :
    (d.updates obs).toHmm = d.toHmm ∧ (d.updates obs).belief = fun i =>
      d.carry d.pi (d.since_reset obs) i / ∑ i, d.carry d.pi (d.since_reset obs) i := by
  have hpi : d.pi = fun i => d.carry d.pi [] i / ∑ i, d.carry d.pi [] i := by
    funext i
    have hsum : ∑ i, d.carry d.pi [] i = 1 := hp.pi.sum
    rw [hsum, div_one]
    rfl
  induction obs using List.reverseRecOn with
  | nil => exact ⟨rfl, hbelief.trans hpi⟩
  | append_singleton obs o ih =>
    obtain ⟨hmodel, hih⟩ := ih
    have hupdates : d.updates (obs ++ [o]) = (d.updates obs).observe o := by
      rw [updates, List.foldl_concat]
      exact update_cast _ o
    have hkept : d.since_reset (obs ++ [o]) = d.keep (d.since_reset obs) o := by
      rw [Hmm.since_reset, List.foldl_concat]
      rfl
    have hpos := hp.sum_carry_pos hp.pi.nonneg hp.sum_pi_pos (d.since_reset obs)
    have hupdated := updated_eq hih o
    rw [hmodel, ← d.carry_concat] at hupdated
    have hdenom : ∑ j, (d.updates obs).updated o j =
        (∑ j, d.carry d.pi (d.since_reset obs ++ [o]) j) /
          ∑ i, d.carry d.pi (d.since_reset obs) i := by
      rw [hupdated, ← Finset.sum_mul, div_eq_mul_inv]
    refine ⟨by rw [hupdates, observe_model, hmodel], ?_⟩
    rw [hupdates, hkept, observe, Hmm.keep, hdenom]
    simp only [div_lt_iff₀ hpos]
    split
    · simp only [hmodel]
      exact hpi
    · simp only [hupdated]
      funext j
      rw [← div_eq_mul_inv, div_div_div_cancel_right₀ hpos.ne']

/-- The two sides are proportional. -/
theorem agrees_iff (hp : d.toHmm.Proper) (hbelief : d.belief = d.pi) (o : Fin N_OBS)
    (os : List (Fin N_OBS)) : d.Agrees o os ↔
      ∃ c : K, d.carry d.pi (d.since_reset (o :: os)) = c • d.carry (d.start o) os := by
  have hupdates := hp.sum_carry_pos hp.pi.nonneg hp.sum_pi_pos (d.since_reset (o :: os))
  have halpha := hp.sum_carry_pos (hp.nonneg.start o) (hp.sum_start_pos o) os
  rw [Agrees, hp.last_alpha, (belief_updates hp hbelief (o :: os)).2, Option.some_inj,
    div_sum_eq_iff hupdates.ne' halpha.ne']

/-- Without resets, for one sequence. -/
theorem agrees_iff_annihilated (hp : d.toHmm.Proper) (hbelief : d.belief = d.pi)
    (hB : ∀ i o, Hmm.tiny ≤ d.B i o) (o : Fin N_OBS) (os : List (Fin N_OBS)) : d.Agrees o os ↔
      ∃ c : K, d.carry (fun j => ((d.pi ᵥ* d.A) j - c * d.pi j) * d.B j o) os = 0 := by
  have hdiff : ∀ c : K, (fun j => ((d.pi ᵥ* d.A) j - c * d.pi j) * d.B j o) =
      d.pi ᵥ* d.step o - c • d.start o := by
    intro c
    funext j
    have hstep : (d.pi ᵥ* d.step o) j = (d.pi ᵥ* d.A) j * d.B j o := by
      simp only [vecMul, dotProduct, Hmm.step, Finset.sum_mul, mul_assoc]
    rw [Pi.sub_apply, Pi.smul_apply, smul_eq_mul, hstep, Hmm.start]
    ring
  rw [agrees_iff hp hbelief, hp.since_reset hB]
  simp only [hdiff, d.carry_sub_smul, sub_eq_zero]
  rfl

/-- **Without resets, for all sequences**: a stationary `pi`. -/
theorem agrees_all_iff (hp : d.toHmm.Proper) (hbelief : d.belief = d.pi)
    (hB : ∀ i o, Hmm.tiny ≤ d.B i o) : (∀ o os, d.Agrees o os) ↔ d.pi ᵥ* d.A = d.pi := by
  have h0 : 0 < N_OBS := by decide
  refine ⟨fun h => ?_, fun h o os => ?_⟩
  · have hfirst := (agrees_iff hp hbelief ⟨0, h0⟩ []).mp (h _ _)
    rw [hp.since_reset hB] at hfirst
    exact (hp.carry_single_iff ⟨0, h0⟩).mp hfirst
  · have hzero : (fun j => ((d.pi ᵥ* d.A) j - 1 * d.pi j) * d.B j o) = 0 := by
      funext j
      rw [h, one_mul, sub_self, zero_mul]
      rfl
    refine (agrees_iff_annihilated hp hbelief hB o os).mpr ⟨1, ?_⟩
    rw [hzero, d.carry_zero]

/-- Where `update` does not reset the belief: in every detector that calls have led to. -/
theorem Sound.no_reset (h : d.Sound) (i : Fin N_STATES) (o : Fin N_OBS) : Hmm.tiny ≤ d.B i o :=
  tiny_lt.le.trans (h.model.emits i o)

/-- A fresh or just trained detector filters as its model does if and only if `pi` is stationary. -/
theorem Sound.agrees_all_iff (h : d.Sound) (hbelief : d.belief = d.pi) :
    (∀ o os, d.Agrees o os) ↔ d.pi ᵥ* d.A = d.pi :=
  RegimeDetector.agrees_all_iff h.model.proper hbelief h.no_reset

/-- **The online filter**: from a belief that is `pi`, the belief after the updates is the last row
of `alpha` if and only if the weights that the two carry are proportional. Where no emission is
below `1e-300`, so that `update` never resets, this is so for one sequence if and only if the steps
after its first observation wipe out a difference of `pi A` to a multiple of `pi`, and for all
sequences if and only if `pi` is stationary under `A`. -/
theorem filter_agrees_iff (d : RegimeDetector K) (hp : d.toHmm.Proper) (hbelief : d.belief = d.pi) :
    (∀ o os, d.Agrees o os ↔
      ∃ c : K, d.carry d.pi (d.since_reset (o :: os)) = c • d.carry (d.start o) os) ∧
    ((∀ i o, Hmm.tiny ≤ d.B i o) →
      (∀ o os, d.Agrees o os ↔
        ∃ c : K, d.carry (fun j => ((d.pi ᵥ* d.A) j - c * d.pi j) * d.B j o) os = 0) ∧
      ((∀ o os, d.Agrees o os) ↔ d.pi ᵥ* d.A = d.pi)) :=
  ⟨agrees_iff hp hbelief, fun hB =>
    ⟨agrees_iff_annihilated hp hbelief hB, agrees_all_iff hp hbelief hB⟩⟩

/-- A detector that tells no states apart. -/
def indifferent : RegimeDetector ℚ where
  pi := fun _ => 1 / 4
  A := fun _ _ => 1 / 4
  B := fun _ _ => 1 / 324
  belief := fun _ => 1 / 4

theorem filter_agrees_iff_indifferent : indifferent.pi ᵥ* indifferent.A = indifferent.pi ∧
    indifferent.Agrees ⟨5, by decide⟩ [⟨7, by decide⟩, ⟨5, by decide⟩] := by
  have hrow : ∑ _i : Fin N_STATES, (1 / 4 : ℚ) = 1 := by decide +kernel
  have hemit : ∑ _o : Fin N_OBS, (1 / 324 : ℚ) = 1 := by
    rw [Finset.sum_const, Finset.card_univ, Fintype.card_fin, nsmul_eq_mul]
    norm_num [N_OBS, PV_SIZE, BAS_SIZE, OBI_SIZE, FR_SIZE, PCR_SIZE]
  have hp : indifferent.toHmm.Proper :=
    { pi := ⟨fun _ => by norm_num [indifferent], hrow⟩
      A := fun _ => ⟨fun _ => by norm_num [indifferent], hrow⟩
      A_pos := fun _ _ => by norm_num [indifferent]
      B := fun _ => ⟨fun _ => by norm_num [indifferent], hemit⟩
      B_pos := fun _ _ => by norm_num [indifferent] }
  have hstationary : indifferent.pi ᵥ* indifferent.A = indifferent.pi := by
    funext j
    simp only [vecMul, dotProduct, indifferent]
    decide +kernel
  have hB : ∀ i o, Hmm.tiny ≤ indifferent.B i o := by
    intro i o
    have hle : (Hmm.least : ℚ) / 2 ≤ 1 / 324 := by
      rw [half_least]
      norm_num
    exact tiny_lt.le.trans hle
  exact ⟨hstationary, ((filter_agrees_iff indifferent hp rfl).2 hB).2.mpr hstationary _ _⟩

/-- **A fresh detector**: after one update its belief is not what `_forward` returns. -/
theorem fresh_disagrees : ¬(new : RegimeDetector ℝ).Agrees ⟨0, by decide⟩ [] := by
  intro h
  have hfirst := (agrees_iff sound_new.model.proper rfl _ []).mp h
  rw [sound_new.model.proper.since_reset sound_new.no_reset] at hfirst
  have hstationary := (sound_new.model.proper.carry_single_iff _).mp hfirst
  have hzero := congrFun hstationary ⟨0, by decide⟩
  simp only [vecMul, dotProduct, new] at hzero
  have hrational : ∑ i, default_pi i * default_A i ⟨0, by decide⟩ = default_pi ⟨0, by decide⟩ := by
    exact_mod_cast hzero
  revert hrational
  decide +kernel

end RegimeDetector

end Meridian
