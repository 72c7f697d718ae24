import Mathlib.Algebra.Order.BigOperators.Group.List
import Mathlib.Data.Rat.BigOperators
import Mathlib.Tactic.Linarith
import Mathlib.Tactic.NormNum
import Meridian.Quant.Expectations
import Meridian.Utils.RealFunctions

/-!
# The regime detector is a probability model

Over exact numbers, whatever is observed and whatever it is trained on: `pi` and the belief are
distributions, the rows of `A` and `B` are positive ones, no value is divided by 0, and neither the
`== 0` guards of the forward-backward pass nor the near-zero branch of `update` is taken. The floor
of `1e-10` keeps every emission probability above `1e-11`, which is far above `1e-300`.

Results:
* `Proper.passes`: under a proper model no total of a pass is 0;
* `sound_maximise`: whatever was accumulated, an iteration leaves a proper model;
* `proper_always`: after any updates and trainings from a new detector on.

Out of scope: the underflow of doubles, by which a total can be 0 in the code.
-/

namespace Meridian

open Matrix HiddenPaths

variable {K : Type*} [Field K] [LinearOrder K]

/-- No value is negative and they add up to 1. -/
structure Distribution {n : ℕ} (v : Fin n → K) : Prop where
  nonneg : ∀ i, 0 ≤ v i
  sum : ∑ i, v i = 1

namespace Hmm

variable {N M : ℕ}

/-- A probability model with positive transitions and emissions. -/
structure Proper (p : Hmm K N M) : Prop where
  pi : Distribution p.pi
  A : ∀ i, Distribution (p.A i)
  A_pos : ∀ i j, 0 < p.A i j
  B : ∀ i, Distribution (p.B i)
  B_pos : ∀ i o, 0 < p.B i o

/-- One forward-backward pass: no total that is compared with 0 is 0, no scale that is divided by is
0, and the logarithms are of positive numbers. -/
structure PassRegular (p : Hmm K N M) (obs : List (Fin M)) : Prop where
  forward : ∀ raw ∈ p.forward_raw obs, ∑ i, raw i ≠ 0
  scale : ∀ c ∈ p.scale obs, c ≠ 0
  log : ∀ c ∈ p.scale obs, 0 < c + tiny
  gamma : ∀ raw ∈ p.gamma_raw obs, ∑ i, raw i ≠ 0
  numer : ∀ numer ∈ p.numer obs, ∑ ij, numer ij ≠ 0

/-- One iteration of `baum_welch`: its passes, and no total that is divided by is 0. -/
structure IterationRegular [MathFunctions K] (p : Hmm K N M)
    (obs_sequences : List (List (Fin M))) : Prop where
  passes : ∀ obs ∈ obs_sequences, 2 ≤ obs.length → p.PassRegular obs
  pi : ∑ i, (p.counts obs_sequences).pi_acc i + tiny ≠ 0
  A : ∀ i, ∑ j, (p.counts obs_sequences).A_acc i j + tiny ≠ 0
  B : ∀ i, ∑ o, (p.counts obs_sequences).B_acc i o + tiny ≠ 0
  pi_raised : ∑ i, raised (reestimate tiny (p.counts obs_sequences)).pi i ≠ 0
  A_raised : ∀ i, ∑ j, raised ((reestimate tiny (p.counts obs_sequences)).A i) j ≠ 0
  B_raised : ∀ i, ∑ o, raised ((reestimate tiny (p.counts obs_sequences)).B i) o ≠ 0

/-- The parameters that each iteration of `baum_welch_loop` starts from. -/
def iterates [MathFunctions K] (obs_sequences : List (List (Fin M))) (tol : K) :
    ℕ → Option K → Hmm K N M → List (Hmm K N M)
  | 0, _, _ => []
  | n + 1, prev_ll, p =>
    let c := p.counts obs_sequences
    p :: if prev_ll.any fun prev_ll => |c.total_ll - prev_ll| < tol then []
      else iterates obs_sequences tol n (some c.total_ll) (maximise c)

/-- The iterations are those of the loop: it returns what the last one makes of its accumulators. -/
theorem baum_welch_loop_eq [MathFunctions K] (obs_sequences : List (List (Fin M))) (tol : K)
    (n : ℕ) (prev_ll : Option K) (p : Hmm K N M) :
    baum_welch_loop obs_sequences tol n prev_ll p =
      ((iterates obs_sequences tol n prev_ll p).getLast?.map fun q =>
        maximise (q.counts obs_sequences)).getD p := by
  induction n generalizing prev_ll p with
  | zero => rfl
  | succ n ih =>
    rw [baum_welch_loop, iterates, List.getLast?_cons]
    split
    · rfl
    · rw [ih]
      cases (iterates obs_sequences tol n (some (p.counts obs_sequences).total_ll)
        (maximise (p.counts obs_sequences))).getLast? with
      | none => rfl
      | some q => rfl

variable [IsStrictOrderedRing K]

theorem tiny_pos : (0 : K) < tiny := by
  have h : (0 : ℚ) < 1 / 10 ^ 300 := by positivity
  unfold tiny
  exact_mod_cast h

theorem least_pos : (0 : K) < least := by
  have h : (0 : ℚ) < 1 / 10 ^ 10 := by norm_num
  unfold least
  exact_mod_cast h

/-! ## A pass under a proper model -/

section Pass

variable {p : Hmm K N M}

omit [IsStrictOrderedRing K] in
theorem Proper.nonneg (hp : p.Proper) : p.Nonneg where
  pi := hp.pi.nonneg
  A i j := (hp.A_pos i j).le
  B i o := (hp.B_pos i o).le

/-- All observations are possible. -/
theorem Proper.likelihood_pos (hp : p.Proper) (o : Fin M) (os : List (Fin M)) :
    0 < p.likelihood o os := by
  obtain ⟨i, -, hi⟩ : ∃ i ∈ Finset.univ, p.pi i ≠ 0 := by
    refine Finset.exists_ne_zero_of_sum_ne_zero ?_
    rw [hp.pi.sum]
    exact one_ne_zero
  have hstart : 0 < ∑ i, p.start o i :=
    Finset.sum_pos' (fun i _ => hp.nonneg.start o i)
      ⟨i, Finset.mem_univ i, mul_pos (lt_of_le_of_ne (hp.pi.nonneg i) hi.symm) (hp.B_pos i o)⟩
  have hsteps : ∀ t i j, 0 < p.steps os.get t i j := fun t i j =>
    mul_pos (hp.A_pos i j) (hp.B_pos j (os.get t))
  rw [likelihood_eq_sum_weight]
  exact sum_weight_pos (hp.nonneg.start o) hstart hsteps

/-- **No guard is taken in a pass**: all totals are positive. -/
theorem Proper.passes (hp : p.Proper) (o : Fin M) (os : List (Fin M)) :
    p.PassRegular (o :: os) := by
  have hpos : ∀ t, 0 < p.total (p.start o) os.get t := hp.nonneg.total_pos (hp.likelihood_pos o os)
  have hne : ∀ t, p.total (p.start o) os.get t ≠ 0 := fun t => (hpos t).ne'
  have hbefore : ∀ t, 0 < p.before os.get (p.start o) t := by
    intro t
    cases t using Fin.cases with
    | zero => exact zero_lt_one
    | succ t => exact hpos t.castSucc
  have hscale : ∀ c ∈ p.scale (o :: os), 0 < c := by
    rw [p.scale_eq o os hne]
    intro c hc
    obtain ⟨t, rfl⟩ := List.mem_ofFn.mp hc
    exact mul_pos (hpos t) (inv_pos.mpr (hbefore t))
  refine ⟨?_, fun c hc => (hscale c hc).ne', fun c hc => add_pos (hscale c hc) tiny_pos, ?_, ?_⟩
  · rw [p.forward_raw_eq o os hne]
    intro raw hraw
    obtain ⟨t, rfl⟩ := List.mem_ofFn.mp hraw
    rw [← Finset.sum_mul]
    exact mul_ne_zero (hne t) (inv_ne_zero (hbefore t).ne')
  · rw [p.gamma_raw_eq o os hne]
    intro raw hraw
    obtain ⟨t, rfl⟩ := List.mem_ofFn.mp hraw
    rw [p.sum_through o os.get hne t]
    exact one_ne_zero
  · rw [p.numer_eq o os hne]
    intro numer hnumer
    obtain ⟨t, rfl⟩ := List.mem_ofFn.mp hnumer
    rw [← Finset.sum_mul, p.sum_around o os.get hne t, one_mul]
    exact mul_ne_zero (hne t.succ) (inv_ne_zero (hne t.castSucc))

/-- What a sequence adds to the accumulators. -/
theorem Proper.adds_nonneg (hp : p.Proper) {obs : List (Fin M)} (h : 2 ≤ obs.length) :
    (∀ i, 0 ≤ p.firstOf obs i) ∧ (∀ i j, 0 ≤ p.stepsOf obs i j) ∧ ∀ i o, 0 ≤ p.shownOf obs i o := by
  cases obs with
  | nil => cases h
  | cons o os =>
    have hpos : ∀ t, 0 < p.total (p.start o) os.get t :=
      hp.nonneg.total_pos (hp.likelihood_pos o os)
    have hne : ∀ t, p.total (p.start o) os.get t ≠ 0 := fun t => (hpos t).ne'
    have hahead := ahead_nonneg (hp.nonneg.start o) fun t => hp.nonneg.step (os.get t)
    have hbehind := behind_nonneg fun t => hp.nonneg.step (os.get t)
    have hgamma : ∀ g ∈ p.gamma (o :: os), ∀ i, 0 ≤ g i := by
      rw [p.gamma_eq o os hne]
      intro g hg i
      obtain ⟨t, rfl⟩ := List.mem_ofFn.mp hg
      exact div_nonneg (mul_nonneg (hahead t i) (hbehind t i)) (hpos _).le
    have hxi : ∀ xi_t ∈ p.xi (o :: os), ∀ ij, 0 ≤ xi_t ij := by
      rw [p.xi_eq o os hne]
      intro xi_t hxi ij
      obtain ⟨t, rfl⟩ := List.mem_ofFn.mp hxi
      exact div_nonneg (mul_nonneg (mul_nonneg (hahead _ _) (hp.nonneg.step _ _ _)) (hbehind _ _))
        (hpos _).le
    refine ⟨fun i => ?_, fun i j => ?_, fun i k => ?_⟩
    · unfold firstOf
      cases hlist : p.gamma (o :: os) with
      | nil => exact le_rfl
      | cons g gs => exact hgamma g (hlist ▸ List.mem_cons_self) i
    · refine List.sum_nonneg fun x hx => ?_
      obtain ⟨xi_t, hmem, rfl⟩ := List.mem_map.mp hx
      exact hxi xi_t hmem (i, j)
    · refine List.sum_nonneg fun x hx => ?_
      obtain ⟨og, hmem, rfl⟩ := List.mem_map.mp hx
      split
      · exact hgamma og.2 (List.of_mem_zip hmem).2 i
      · exact le_rfl

end Pass

/-! ## One iteration -/

/-- No accumulator is negative. -/
structure NonnegCounts (c : Counts K N M) : Prop where
  pi_acc : ∀ i, 0 ≤ c.pi_acc i
  A_acc : ∀ i j, 0 ≤ c.A_acc i j
  B_acc : ∀ i o, 0 ≤ c.B_acc i o

theorem Proper.counts_nonneg [MathFunctions K] {p : Hmm K N M} (hp : p.Proper)
    (obs_sequences : List (List (Fin M))) : NonnegCounts (p.counts obs_sequences) := by
  have hadds : ∀ obs ∈ trained obs_sequences, (∀ i, 0 ≤ p.firstOf obs i) ∧
      (∀ i j, 0 ≤ p.stepsOf obs i j) ∧ ∀ i o, 0 ≤ p.shownOf obs i o := by
    intro obs hobs
    exact hp.adds_nonneg (of_decide_eq_true (List.mem_filter.mp hobs).2)
  have hsum : ∀ f : List (Fin M) → K, (∀ obs ∈ trained obs_sequences, 0 ≤ f obs) →
      0 ≤ ((trained obs_sequences).map f).sum := by
    intro f hf
    refine List.sum_nonneg fun x hx => ?_
    obtain ⟨obs, hobs, rfl⟩ := List.mem_map.mp hx
    exact hf obs hobs
  rw [counts_eq]
  exact ⟨fun i => hsum _ fun obs h => (hadds obs h).1 i,
    fun i j => hsum _ fun obs h => (hadds obs h).2.1 i j,
    fun i o => hsum _ fun obs h => (hadds obs h).2.2 i o⟩

section Floor

variable {n : ℕ} {acc v : Fin n → K}

theorem sum_add_tiny_pos (h : ∀ i, 0 ≤ acc i) : 0 < ∑ i, acc i + tiny :=
  add_pos_of_nonneg_of_pos (Finset.sum_nonneg fun i _ => h i) tiny_pos

/-- With the guard term the total is at most 1. -/
theorem sum_divided_le (h : ∀ i, 0 ≤ acc i) : ∑ i, divided tiny acc i ≤ 1 := by
  simp only [divided]
  rw [← Finset.sum_div, div_le_one (sum_add_tiny_pos h)]
  exact le_add_of_nonneg_right tiny_pos.le

theorem divided_nonneg (h : ∀ i, 0 ≤ acc i) (i : Fin n) : 0 ≤ divided tiny acc i :=
  div_nonneg (h i) (sum_add_tiny_pos h).le

theorem raised_pos (v : Fin n → K) (i : Fin n) : 0 < raised v i :=
  lt_of_lt_of_le least_pos (le_max_right _ _)

theorem sum_raised_pos (v : Fin n → K) (hn : 0 < n) : 0 < ∑ i, raised v i :=
  Finset.sum_pos (fun i _ => raised_pos v i) ⟨⟨0, hn⟩, Finset.mem_univ _⟩

theorem distribution_floored (v : Fin n → K) (hn : 0 < n) :
    Distribution (floored v) ∧ ∀ i, 0 < floored v i := by
  have hsum := sum_raised_pos v hn
  have hpos : ∀ i, 0 < floored v i := fun i => div_pos (raised_pos v i) hsum
  refine ⟨⟨fun i => (hpos i).le, ?_⟩, hpos⟩
  simp only [floored]
  rw [← Finset.sum_div, div_self hsum.ne']

/-- **The floor holds**: where the values add up to at most 1 and are not too many, each is at least
half of `1e-10` afterwards. -/
theorem le_floored (hv : ∀ i, 0 ≤ v i) (hsum : ∑ i, v i ≤ 1) (hn : (n : K) * least ≤ 1)
    (i : Fin n) :
    least / 2 ≤ floored v i := by
  have hraised : ∑ i, raised v i ≤ 2 := by
    have hle : ∑ i, raised v i ≤ ∑ i, (v i + least) := Finset.sum_le_sum fun i _ =>
      max_le (le_add_of_nonneg_right least_pos.le) (le_add_of_nonneg_left (hv i))
    rw [Finset.sum_add_distrib, Finset.sum_const, Finset.card_univ, Fintype.card_fin,
      nsmul_eq_mul] at hle
    linarith
  have hpos : 0 < ∑ i, raised v i := sum_raised_pos v i.pos
  rw [floored, div_le_div_iff₀ two_pos hpos]
  have hleast : least ≤ raised v i := le_max_right _ _
  exact mul_le_mul hleast hraised hpos.le (raised_pos v i).le

end Floor

/-- A proper model whose emissions are far above `1e-300`. -/
structure Sound (p : Hmm K N M) : Prop where
  proper : p.Proper
  emits : ∀ i o, least / 2 ≤ p.B i o

/-- **One iteration leaves a sound model**, whatever it accumulated. -/
theorem sound_maximise {c : Counts K N M} (hc : NonnegCounts c) (hN : 0 < N) (hM : 0 < M)
    (hleast : (M : K) * least ≤ 1) : (maximise c).Sound where
  proper :=
    { pi := (distribution_floored _ hN).1
      A := fun _ => (distribution_floored _ hN).1
      A_pos := fun _ => (distribution_floored _ hN).2
      B := fun _ => (distribution_floored _ hM).1
      B_pos := fun _ => (distribution_floored _ hM).2 }
  emits i := le_floored (divided_nonneg (hc.B_acc i)) (sum_divided_le (hc.B_acc i)) hleast

theorem Proper.iteration [MathFunctions K] {p : Hmm K N M} (hp : p.Proper) (hN : 0 < N)
    (hM : 0 < M) (obs_sequences : List (List (Fin M))) : p.IterationRegular obs_sequences := by
  have hc := hp.counts_nonneg obs_sequences
  refine ⟨fun obs _ hlen => ?_, (sum_add_tiny_pos hc.pi_acc).ne',
    fun i => (sum_add_tiny_pos (hc.A_acc i)).ne', fun i => (sum_add_tiny_pos (hc.B_acc i)).ne',
    (sum_raised_pos _ hN).ne', fun i => (sum_raised_pos _ hN).ne',
    fun i => (sum_raised_pos _ hM).ne'⟩
  cases obs with
  | nil => cases hlen
  | cons o os => exact hp.passes o os

/-- **Training**: every iteration is regular and the parameters it ends with are sound. -/
theorem Sound.train [MathFunctions K] (hN : 0 < N) (hM : 0 < M) (hleast : (M : K) * least ≤ 1)
    (obs_sequences : List (List (Fin M))) (tol : K) (n : ℕ) (prev_ll : Option K) {p : Hmm K N M}
    (hp : p.Sound) : (baum_welch_loop obs_sequences tol n prev_ll p).Sound ∧
      ∀ q ∈ iterates obs_sequences tol n prev_ll p, q.IterationRegular obs_sequences := by
  induction n generalizing prev_ll p with
  | zero => exact ⟨hp, fun q hq => absurd hq List.not_mem_nil⟩
  | succ n ih =>
    have hregular := hp.proper.iteration hN hM obs_sequences
    have hnext : (maximise (p.counts obs_sequences)).Sound :=
      sound_maximise (hp.proper.counts_nonneg obs_sequences) hN hM hleast
    rw [baum_welch_loop, iterates]
    split
    · refine ⟨hnext, fun q hq => ?_⟩
      rw [List.mem_singleton.mp hq]
      exact hregular
    · obtain ⟨hsound, hlater⟩ := ih (some (p.counts obs_sequences).total_ll) hnext
      refine ⟨hsound, fun q hq => ?_⟩
      rcases List.mem_cons.mp hq with rfl | hq
      · exact hregular
      · exact hlater q hq

end Hmm

/-! ## The default parameters -/

section Default

variable [IsStrictOrderedRing K] {n : ℕ}

theorem Distribution.cast {v : Fin n → ℚ} (h : Distribution v) :
    Distribution fun i => (v i : K) where
  nonneg i := Rat.cast_nonneg.mpr (h.nonneg i)
  sum := by rw [← Rat.cast_sum, h.sum, Rat.cast_one]

/-- `x /= x.sum()` -/
theorem distribution_div {v : Fin n → ℚ} (h : ∀ i, 0 < v i) (hn : 0 < n) :
    Distribution (fun i => v i / ∑ i, v i) ∧ ∀ i, 0 < v i / ∑ i, v i := by
  have hsum : 0 < ∑ i, v i := Finset.sum_pos (fun i _ => h i) ⟨⟨0, hn⟩, Finset.mem_univ _⟩
  refine ⟨⟨fun i => (div_pos (h i) hsum).le, ?_⟩, fun i => div_pos (h i) hsum⟩
  rw [← Finset.sum_div, div_self hsum.ne']

theorem default_pi_distribution : Distribution default_pi where
  nonneg := by decide +kernel
  sum := by decide +kernel

/-- No entry of a table is below 0.05 or above 1. -/
def Bounded {m : ℕ} (T : Fin N_STATES → Fin m → ℚ) : Prop := ∀ s b, 1 / 20 ≤ T s b ∧ T s b ≤ 1

instance {m : ℕ} (T : Fin N_STATES → Fin m → ℚ) : Decidable (Bounded T) :=
  inferInstanceAs (Decidable (∀ s b, 1 / 20 ≤ T s b ∧ T s b ≤ 1))

theorem transition_probs_pos : ∀ i j, 0 < transition_probs i j := by
  have h : Bounded fun i j => transition_probs i j := by decide +kernel
  exact fun i j => lt_of_lt_of_le (by norm_num) (h i j).1

theorem bounded_price_vol_probs : Bounded fun s b => price_vol_probs s b := by decide +kernel

theorem bounded_bas_probs : Bounded fun s b => bas_probs s b := by decide +kernel

theorem bounded_obi_probs : Bounded fun s b => obi_probs s b := by decide +kernel

theorem bounded_fr_probs : Bounded fun s b => fr_probs s b := by decide +kernel

theorem bounded_pcr_probs : Bounded fun s b => pcr_probs s b := by decide +kernel

/-- A product of two probabilities that are bounded below. -/
theorem mul_bounds {a b x y : ℚ} (ha : 0 ≤ a) (hb : 0 ≤ b) (hx : a ≤ x ∧ x ≤ 1)
    (hy : b ≤ y ∧ y ≤ 1) : a * b ≤ x * y ∧ x * y ≤ 1 :=
  ⟨mul_le_mul hx.1 hy.1 hb (ha.trans hx.1), mul_le_one₀ hx.2 (hb.trans hy.1) hy.2⟩

theorem joint_probs_bounds (s : Fin N_STATES) (o : Fin N_OBS) :
    1 / 20 * (1 / 20) * (1 / 20) * (1 / 20) * (1 / 20) ≤ joint_probs s o ∧ joint_probs s o ≤ 1 := by
  have hlow : (0 : ℚ) ≤ 1 / 20 := by norm_num
  have hpv := mul_bounds hlow hlow (bounded_price_vol_probs s (bins o).pv)
    (bounded_bas_probs s (bins o).bas)
  have hobi := mul_bounds (by norm_num) hlow hpv (bounded_obi_probs s (bins o).obi)
  have hfr := mul_bounds (by norm_num) hlow hobi (bounded_fr_probs s (bins o).fr)
  exact mul_bounds (by norm_num) hlow hfr (bounded_pcr_probs s (bins o).pcr)

theorem joint_probs_pos (s : Fin N_STATES) (o : Fin N_OBS) : 0 < joint_probs s o :=
  lt_of_lt_of_le (by norm_num) (joint_probs_bounds s o).1

/-- The default emissions are far above `1e-300`. -/
theorem least_le_default_B (s : Fin N_STATES) (o : Fin N_OBS) :
    1 / 10 ^ 10 / 2 ≤ default_B s o := by
  have hsum : ∑ o, joint_probs s o ≤ 324 := by
    have hle : ∑ o, joint_probs s o ≤ ∑ _o : Fin N_OBS, (1 : ℚ) :=
      Finset.sum_le_sum fun o _ => (joint_probs_bounds s o).2
    rw [Finset.sum_const, Finset.card_univ, Fintype.card_fin, nsmul_eq_mul, mul_one] at hle
    exact hle.trans (by norm_num [N_OBS, PV_SIZE, BAS_SIZE, OBI_SIZE, FR_SIZE, PCR_SIZE])
  have hpos : 0 < ∑ o, joint_probs s o :=
    Finset.sum_pos (fun o _ => joint_probs_pos s o) ⟨o, Finset.mem_univ o⟩
  rw [default_B, le_div_iff₀ hpos]
  have hlow := (joint_probs_bounds s o).1
  norm_num at hlow ⊢
  linarith

end Default

/-! ## The detector -/

namespace RegimeDetector

/-- A call on the detector. -/
inductive Call (K : Type*) where
  | update (observation : ℤ)
  | train (observation_sequences : List (List (Fin N_OBS))) (n_iter : ℤ) (tol : K)

/-- What a call leaves. -/
def apply [MathFunctions K] (d : RegimeDetector K) : Call K → RegimeDetector K
  | .update observation => d.update observation
  | .train observation_sequences n_iter tol => d.train observation_sequences n_iter tol

/-- No division by 0 and no guard: `update` does not take its near-zero branch and divides by no 0,
and every iteration of `train` is regular. -/
def Regular [MathFunctions K] (d : RegimeDetector K) : Call K → Prop
  | .update observation => ∀ o : Fin N_OBS, ((o : ℕ) : ℤ) = observation →
      ¬∑ j, d.updated o j < Hmm.tiny ∧ ∑ j, d.updated o j ≠ 0
  | .train observation_sequences n_iter tol =>
      ∀ p ∈ Hmm.iterates observation_sequences tol n_iter.toNat none d.toHmm,
        p.IterationRegular observation_sequences

/-- The invariant of the detector: a sound model and a belief that is a distribution. -/
structure Sound (d : RegimeDetector K) : Prop where
  model : d.toHmm.Sound
  belief : Distribution d.belief

variable [IsStrictOrderedRing K]

theorem half_least : (Hmm.least : K) / 2 = ((1 / 10 ^ 10 / 2 : ℚ) : K) := by
  unfold Hmm.least
  push_cast
  rfl

theorem tiny_lt : (Hmm.tiny : K) < Hmm.least / 2 := by
  have hpow : (10 : ℚ) ^ 11 < 10 ^ 300 := pow_lt_pow_right₀ (by norm_num) (by norm_num)
  have h : (1 / 10 ^ 300 : ℚ) < 1 / 10 ^ 10 / 2 :=
    calc (1 / 10 ^ 300 : ℚ) < 1 / 10 ^ 11 := one_div_lt_one_div_of_lt (by positivity) hpow
      _ < 1 / 10 ^ 10 / 2 := by norm_num
  rw [half_least]
  unfold Hmm.tiny
  exact_mod_cast h

/-- The observations are not too many for the floor. -/
theorem observations_le : ((N_OBS : ℕ) : K) * Hmm.least ≤ 1 := by
  have h : ((N_OBS : ℕ) : ℚ) * (1 / 10 ^ 10) ≤ 1 := by
    norm_num [N_OBS, PV_SIZE, BAS_SIZE, OBI_SIZE, FR_SIZE, PCR_SIZE]
  unfold Hmm.least
  exact_mod_cast h

theorem sound_new : (new : RegimeDetector K).Sound where
  model :=
    { proper :=
        { pi := default_pi_distribution.cast
          A := fun i => (distribution_div (transition_probs_pos i) (by decide)).1.cast
          A_pos := fun i j => Rat.cast_pos.mpr
            ((distribution_div (transition_probs_pos i) (by decide)).2 j)
          B := fun s => (distribution_div (joint_probs_pos s) (by decide)).1.cast
          B_pos := fun s o => Rat.cast_pos.mpr
            ((distribution_div (joint_probs_pos s) (by decide)).2 o) }
      emits := fun s o => by
        rw [half_least]
        exact Rat.cast_le.mpr (least_le_default_B s o) }
  belief := default_pi_distribution.cast

/-- A belief one step on. -/
theorem distribution_vecMul {n : ℕ} {v : Fin n → K} {A : Matrix (Fin n) (Fin n) K}
    (hv : Distribution v) (hA : ∀ i, Distribution (A i)) : Distribution (v ᵥ* A) where
  nonneg j := by
    simp only [vecMul, dotProduct]
    exact Finset.sum_nonneg fun i _ => mul_nonneg (hv.nonneg i) ((hA i).nonneg j)
  sum := by
    simp only [vecMul, dotProduct]
    rw [Finset.sum_comm, ← hv.sum]
    refine Finset.sum_congr rfl fun i _ => ?_
    rw [← Finset.mul_sum, (hA i).sum, mul_one]

variable {d : RegimeDetector K}

/-- **Every observation keeps the likelihood far above `1e-300`.** -/
theorem Sound.le_sum_updated (h : d.Sound) (o : Fin N_OBS) :
    Hmm.least / 2 ≤ ∑ j, d.updated o j := by
  have hpred := distribution_vecMul h.belief h.model.proper.A
  calc Hmm.least / 2 = ∑ j, (d.belief ᵥ* d.A) j * (Hmm.least / 2) := by
        rw [← Finset.sum_mul, hpred.sum, one_mul]
    _ ≤ ∑ j, d.updated o j := Finset.sum_le_sum fun j _ =>
        mul_le_mul_of_nonneg_left (h.model.emits j o) (hpred.nonneg j)

theorem Sound.sum_updated_pos (h : d.Sound) (o : Fin N_OBS) :
    ¬∑ j, d.updated o j < Hmm.tiny ∧ 0 < ∑ j, d.updated o j := by
  have hle := h.le_sum_updated o
  exact ⟨not_lt.mpr (tiny_lt.le.trans hle), Hmm.tiny_pos.trans (tiny_lt.trans_le hle)⟩

theorem Sound.observe (h : d.Sound) (o : Fin N_OBS) : (d.observe o).Sound := by
  obtain ⟨hlarge, hpos⟩ := h.sum_updated_pos o
  have hpred := distribution_vecMul h.belief h.model.proper.A
  simp only [RegimeDetector.observe, if_neg hlarge]
  refine ⟨h.model, fun j => ?_, ?_⟩
  · exact div_nonneg (mul_nonneg (hpred.nonneg j) (h.model.proper.B_pos j o).le) hpos.le
  · rw [← Finset.sum_div, div_self hpos.ne']

theorem Sound.update (h : d.Sound) (observation : ℤ) : (d.update observation).Sound := by
  unfold RegimeDetector.update
  split
  · exact h.observe _
  · exact h

variable [MathFunctions K]

/-- Training, from a sound detector on. -/
theorem Sound.train_iterates (h : d.Sound) (observation_sequences : List (List (Fin N_OBS)))
    (n_iter : ℤ) (tol : K) : (d.train observation_sequences n_iter tol).Sound ∧
      ∀ p ∈ Hmm.iterates observation_sequences tol n_iter.toNat none d.toHmm,
        p.IterationRegular observation_sequences := by
  obtain ⟨hmodel, hregular⟩ := h.model.train (by decide) (by decide) observations_le
    observation_sequences tol n_iter.toNat none
  exact ⟨⟨hmodel, hmodel.proper.pi⟩, hregular⟩

/-- **Step**: a call keeps a sound detector sound, an update by the filter and a training by its
iterations. -/
theorem Sound.apply (h : d.Sound) (call : Call K) : (d.apply call).Sound := by
  cases call with
  | update observation => exact h.update observation
  | train observation_sequences n_iter tol => exact (h.train_iterates _ n_iter tol).1

theorem Sound.regular (h : d.Sound) (call : Call K) : d.Regular call := by
  cases call with
  | update observation =>
    intro o _
    obtain ⟨hlarge, hpos⟩ := h.sum_updated_pos o
    exact ⟨hlarge, hpos.ne'⟩
  | train observation_sequences n_iter tol => exact (h.train_iterates _ n_iter tol).2

/-- **Run**: after any calls a sound detector is sound, by induction on the calls. -/
theorem sound_run (calls : List (Call K)) (hd : d.Sound) : (calls.foldl apply d).Sound := by
  induction calls generalizing d with
  | nil => exact hd
  | cons call calls ih => exact ih (hd.apply call)

end RegimeDetector

/-- **The detector is a probability model**: a new one is made without dividing by 0, and after any
updates with any integers and any trainings on any sequences, `pi` and the belief are distributions,
the rows of `A` and `B` are positive ones, and the next call divides by no 0 and takes no guard. -/
theorem proper_always :
    ((∀ i, ∑ j, transition_probs i j ≠ 0) ∧ ∀ s, ∑ o, joint_probs s o ≠ 0) ∧
    ∀ calls : List (RegimeDetector.Call ℝ),
      let d := calls.foldl RegimeDetector.apply RegimeDetector.new
      d.toHmm.Proper ∧ Distribution d.belief ∧ ∀ call, d.Regular call := by
  refine ⟨⟨fun i => ?_, fun s => ?_⟩, fun calls => ?_⟩
  · exact (Finset.sum_pos (fun j _ => transition_probs_pos i j) ⟨i, Finset.mem_univ i⟩).ne'
  · have h0 : 0 < N_OBS := by decide
    exact (Finset.sum_pos (fun o _ => joint_probs_pos s o) ⟨⟨0, h0⟩, Finset.mem_univ _⟩).ne'
  · have h := RegimeDetector.sound_run calls RegimeDetector.sound_new
    exact ⟨h.model.proper, h.belief, h.regular⟩

end Meridian
