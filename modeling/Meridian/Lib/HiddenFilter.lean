import Mathlib.Algebra.BigOperators.Field
import Mathlib.Analysis.Convex.StdSimplex
import Mathlib.Data.Matrix.Mul
import Mathlib.Tactic.Linarith
import Mathlib.Tactic.Positivity
import Mathlib.Tactic.Ring

/-!
# Hidden Markov filters

A filter moves its belief one step on with a transition matrix `A`, weighs it with the likelihood
`w` of what is observed and divides by the total. What follows holds of any number of states and of
any field.

Results:
* `abs_foldl_sub_le`: where the rows of `A` do not differ too much, two beliefs that are filtered by
  the same observations approach each other geometrically, wherever they start;
* `filtered_lt_of_dominates`: an observation that favours one state over another from every state
  decides between these two, whatever the belief was;
* `score_filtered_nonneg`: a half-space that the filter's step does not leave.
-/

namespace Meridian.HiddenFilter

open Matrix

variable {K ι : Type*} [Field K] [LinearOrder K] [IsStrictOrderedRing K] [Fintype ι]

/-- The weights of the states after one step, before they are divided by their total. -/
def weighed (A : Matrix ι ι K) (w u : ι → K) : ι → K := fun j => (u ᵥ* A) j * w j

/-- One step of the filter. -/
def filtered (A : Matrix ι ι K) (u w : ι → K) : ι → K :=
  fun j => weighed A w u j / ∑ k, weighed A w u k

/-- The rows of a transition matrix are distributions. -/
def Stochastic (A : Matrix ι ι K) : Prop := ∀ i, A i ∈ stdSimplex K ι

variable {A : Matrix ι ι K} {u v w g : ι → K} {c ε : K}

/-! ## Beliefs stay beliefs -/

theorem vecMul_mem (hA : Stochastic A) (hu : u ∈ stdSimplex K ι) : u ᵥ* A ∈ stdSimplex K ι := by
  refine ⟨fun j => Finset.sum_nonneg fun i _ => mul_nonneg (hu.1 i) ((hA i).1 j), ?_⟩
  simp only [vecMul, dotProduct]
  rw [Finset.sum_comm, ← hu.2]
  refine Finset.sum_congr rfl fun i _ => ?_
  rw [← Finset.mul_sum, (hA i).2, mul_one]

/-- With positive likelihoods the total is positive. -/
theorem sum_weighed_pos (hA : Stochastic A) (hw : ∀ i, 0 < w i) (hu : u ∈ stdSimplex K ι) :
    0 < ∑ k, weighed A w u k := by
  have hpred := vecMul_mem hA hu
  have hnonneg : ∀ k, 0 ≤ weighed A w u k := fun k => mul_nonneg (hpred.1 k) (hw k).le
  refine (Finset.sum_nonneg fun k _ => hnonneg k).lt_of_ne fun hzero => ?_
  have hall := (Finset.sum_eq_zero_iff_of_nonneg fun k _ => hnonneg k).mp hzero.symm
  have hpred0 : ∀ k, (u ᵥ* A) k = 0 := fun k =>
    (mul_eq_zero.mp (hall k (Finset.mem_univ k))).resolve_right (hw k).ne'
  have hone := hpred.2
  rw [Finset.sum_eq_zero fun k _ => hpred0 k] at hone
  exact zero_ne_one hone

theorem filtered_mem (hA : Stochastic A) (hw : ∀ i, 0 < w i) (hu : u ∈ stdSimplex K ι) :
    filtered A u w ∈ stdSimplex K ι := by
  have hpos := sum_weighed_pos hA hw hu
  refine ⟨fun j => div_nonneg (mul_nonneg ((vecMul_mem hA hu).1 j) (hw j).le) hpos.le, ?_⟩
  simp only [filtered]
  rw [← Finset.sum_div, div_self hpos.ne']

/-! ## Forgetting

Two beliefs are compared by the ratios `u i / v i`. A step of the filter multiplies all of them by
the same number, but for the transition, which averages them. -/

/-- The ratios of `u` to `v` are all between some `m` and `m * (1 + c)`. -/
def Close (c : K) (u v : ι → K) : Prop :=
  ∃ m, 0 < m ∧ ∀ i, m * v i ≤ u i ∧ u i ≤ m * (1 + c) * v i

/-- No more than all of a belief fits below another one. -/
theorem le_one_of_mul_le {m : K} (h : ∀ i, m * v i ≤ u i) (hu : u ∈ stdSimplex K ι)
    (hv : v ∈ stdSimplex K ι) : m ≤ 1 := by
  have hsum := Finset.sum_le_sum fun i (_ : i ∈ Finset.univ) => h i
  rwa [← Finset.mul_sum, hv.2, hu.2, mul_one] at hsum

/-- From no state is another one reached less than `ε` times as likely as from some other state. -/
def Mixing (ε : K) (A : Matrix ι ι K) : Prop := ∀ i k j, ε * A k j ≤ A i j

instance [DecidableLE K] (ε : K) (A : Matrix ι ι K) : Decidable (Mixing ε A) :=
  inferInstanceAs (Decidable (∀ i k j, ε * A k j ≤ A i j))

/-- What any weights of total `∑ i, u i` leave in a state is at least this share of what a belief
leaves there. -/
theorem Mixing.le_vecMul (hmix : Mixing ε A) (hu : ∀ i, 0 ≤ u i) (hv : v ∈ stdSimplex K ι) (j : ι) :
    ε * (∑ i, u i) * (v ᵥ* A) j ≤ (u ᵥ* A) j := by
  have hrow : ∀ i, ε * (v ᵥ* A) j ≤ A i j := by
    intro i
    calc ε * (v ᵥ* A) j = ∑ k, v k * (ε * A k j) := by
          rw [vecMul, dotProduct, Finset.mul_sum]
          exact Finset.sum_congr rfl fun k _ => by ring
      _ ≤ ∑ k, v k * A i j :=
          Finset.sum_le_sum fun k _ => mul_le_mul_of_nonneg_left (hmix i k j) (hv.1 k)
      _ = A i j := by rw [← Finset.sum_mul, hv.2, one_mul]
  calc ε * (∑ i, u i) * (v ᵥ* A) j = ∑ i, u i * (ε * (v ᵥ* A) j) := by
        rw [← Finset.sum_mul]
        ring
    _ ≤ ∑ i, u i * A i j :=
        Finset.sum_le_sum fun i _ => mul_le_mul_of_nonneg_left (hrow i) (hu i)

/-- After one transition any two beliefs are close. -/
theorem Mixing.close (hmix : Mixing ε A) (hε : 0 < ε) (hu : u ∈ stdSimplex K ι)
    (hv : v ∈ stdSimplex K ι) : Close (1 / ε ^ 2 - 1) (u ᵥ* A) (v ᵥ* A) := by
  refine ⟨ε, hε, fun j => ⟨?_, ?_⟩⟩
  · have h := hmix.le_vecMul hu.1 hv j
    rwa [hu.2, mul_one] at h
  · have h := hmix.le_vecMul hv.1 hu j
    rw [hv.2, mul_one] at h
    have hfactor : ε * (1 + (1 / ε ^ 2 - 1)) = 1 / ε := by
      field_simp
      ring
    rw [hfactor, one_div_mul_eq_div, le_div_iff₀ hε, mul_comm]
    exact h

/-- **A transition averages the ratios**: what they differ by shrinks by the factor `1 - ε`. -/
theorem Close.vecMul (h : Close c u v) (hA : Stochastic A) (hmix : Mixing ε A) (hε : 0 ≤ ε)
    (hε1 : ε ≤ 1) (hc : 0 ≤ c) (hu : u ∈ stdSimplex K ι) (hv : v ∈ stdSimplex K ι) :
    Close ((1 - ε) * c) (u ᵥ* A) (v ᵥ* A) := by
  obtain ⟨m, hm, hle⟩ := h
  have hm1 : m ≤ 1 := le_one_of_mul_le (fun i => (hle i).1) hu hv
  have hscale : ∀ (r : K) (x : ι → K), ((fun i => r * x i) ᵥ* A) = fun j => r * (x ᵥ* A) j := by
    intro r x
    funext j
    simp only [Matrix.vecMul, dotProduct, Finset.mul_sum, mul_assoc]
  -- what `u` has beyond `m * v`, and what it lacks of `m * (1 + c) * v`, are both mixed
  have hlow : ∀ j, ε * (1 - m) * (v ᵥ* A) j ≤ (u ᵥ* A) j - m * (v ᵥ* A) j := by
    intro j
    have hmixed := hmix.le_vecMul (u := u - fun i => m * v i)
      (fun i => sub_nonneg.mpr (hle i).1) hv j
    rw [sub_vecMul, hscale] at hmixed
    simpa only [Pi.sub_apply, Finset.sum_sub_distrib, ← Finset.mul_sum, hu.2, hv.2, mul_one]
      using hmixed
  have hhigh : ∀ j, ε * (m * (1 + c) - 1) * (v ᵥ* A) j ≤
      m * (1 + c) * (v ᵥ* A) j - (u ᵥ* A) j := by
    intro j
    have hmixed := hmix.le_vecMul (u := (fun i => m * (1 + c) * v i) - u)
      (fun i => sub_nonneg.mpr (hle i).2) hv j
    rw [sub_vecMul, hscale] at hmixed
    simpa only [Pi.sub_apply, Finset.sum_sub_distrib, ← Finset.mul_sum, hu.2, hv.2, mul_one]
      using hmixed
  have hgap : 0 ≤ ε * (1 - m) := mul_nonneg hε (sub_nonneg.mpr hm1)
  refine ⟨m + ε * (1 - m), by linarith, fun j => ⟨by linarith [hlow j], ?_⟩⟩
  have hrest : 0 ≤ ε * (1 - m) * ((1 - ε) * c) * (v ᵥ* A) j :=
    mul_nonneg (mul_nonneg hgap (mul_nonneg (sub_nonneg.mpr hε1) hc)) ((vecMul_mem hA hv).1 j)
  calc (u ᵥ* A) j ≤ (m * (1 + c) - ε * (m * (1 + c) - 1)) * (v ᵥ* A) j := by linarith [hhigh j]
    _ ≤ (m + ε * (1 - m)) * (1 + (1 - ε) * c) * (v ᵥ* A) j := by linarith

omit [Fintype ι] in
/-- The likelihoods cancel in the ratios, and the totals scale all of them. -/
theorem Close.divide (h : Close c u v) (hw : ∀ i, 0 ≤ w i) {a b : K} (ha : 0 < a) (hb : 0 < b) :
    Close c (fun i => u i * w i / a) (fun i => v i * w i / b) := by
  obtain ⟨m, hm, hle⟩ := h
  refine ⟨m * b / a, div_pos (mul_pos hm hb) ha, fun i => ⟨?_, ?_⟩⟩
  · have hmul := mul_le_mul_of_nonneg_right (hle i).1 (hw i)
    rw [show m * b / a * (v i * w i / b) = m * v i * w i / a by field_simp]
    exact div_le_div_of_nonneg_right hmul ha.le
  · have hmul := mul_le_mul_of_nonneg_right (hle i).2 (hw i)
    rw [show m * b / a * (1 + c) * (v i * w i / b) = m * (1 + c) * v i * w i / a by field_simp]
    exact div_le_div_of_nonneg_right hmul ha.le

/-- Beliefs with close ratios are close. -/
theorem Close.abs_sub_le (h : Close c u v) (hc : 0 ≤ c) (hu : u ∈ stdSimplex K ι)
    (hv : v ∈ stdSimplex K ι) (i : ι) : |u i - v i| ≤ c := by
  obtain ⟨m, hm, hle⟩ := h
  have hv1 : v i ≤ 1 := (mem_Icc_of_mem_stdSimplex hv i).2
  have hm1 : m ≤ 1 := le_one_of_mul_le (fun i => (hle i).1) hu hv
  have hm2 : 1 ≤ m * (1 + c) := by
    have hsum := Finset.sum_le_sum fun i (_ : i ∈ Finset.univ) => (hle i).2
    rwa [← Finset.mul_sum, hv.2, hu.2, mul_one] at hsum
  have hmc : m * c ≤ c := mul_le_of_le_one_left hc hm1
  have hcv : c * v i ≤ c := mul_le_of_le_one_right hc hv1
  rw [abs_le]
  constructor
  · have hlow : (1 - c) * v i ≤ m * v i := mul_le_mul_of_nonneg_right (by linarith) (hv.1 i)
    linarith [(hle i).1]
  · have hhigh : m * (1 + c) * v i ≤ (1 + c) * v i :=
      mul_le_mul_of_nonneg_right (mul_le_of_le_one_left (by linarith) hm1) (hv.1 i)
    linarith [(hle i).2]

/-- **Step**: the same observation brings two beliefs closer. -/
theorem Close.step (h : Close c u v) (hA : Stochastic A) (hmix : Mixing ε A) (hε : 0 ≤ ε)
    (hε1 : ε ≤ 1) (hc : 0 ≤ c) (hw : ∀ i, 0 < w i) (hu : u ∈ stdSimplex K ι)
    (hv : v ∈ stdSimplex K ι) : Close ((1 - ε) * c) (filtered A u w) (filtered A v w) :=
  (h.vecMul hA hmix hε hε1 hc hu hv).divide (fun i => (hw i).le) (sum_weighed_pos hA hw hu)
    (sum_weighed_pos hA hw hv)

/-- **Run**: two beliefs that are close are closer by the factor `1 - ε` for every observation both
see. -/
theorem Close.run (hA : Stochastic A) (hmix : Mixing ε A) (hε : 0 ≤ ε) (hε1 : ε ≤ 1)
    {ws : List (ι → K)} (hws : ∀ w ∈ ws, ∀ i, 0 < w i) (h : Close c u v) (hc : 0 ≤ c)
    (hu : u ∈ stdSimplex K ι) (hv : v ∈ stdSimplex K ι) :
    Close ((1 - ε) ^ ws.length * c) (ws.foldl (filtered A) u) (ws.foldl (filtered A) v) ∧
      ws.foldl (filtered A) u ∈ stdSimplex K ι ∧ ws.foldl (filtered A) v ∈ stdSimplex K ι := by
  induction ws generalizing u v c with
  | nil =>
    rw [List.length_nil, pow_zero, one_mul]
    exact ⟨h, hu, hv⟩
  | cons w ws ih =>
    have hw := hws w List.mem_cons_self
    have hlater := ih (fun w' h' => hws w' (List.mem_cons_of_mem w h'))
      (h.step hA hmix hε hε1 hc hw hu hv) (mul_nonneg (sub_nonneg.mpr hε1) hc)
      (filtered_mem hA hw hu) (filtered_mem hA hw hv)
    rwa [List.length_cons, pow_succ, mul_assoc]

/-- **A filter forgets**: after `n + 1` observations, what two beliefs differ by is at most a
multiple of `(1 - ε) ^ n`, whatever they were. -/
theorem abs_foldl_sub_le (hA : Stochastic A) (hmix : Mixing ε A) (hε : 0 < ε) (hε1 : ε ≤ 1)
    {ws : List (ι → K)} (hws : ∀ w ∈ ws, ∀ i, 0 < w i) (hne : ws ≠ [])
    (hu : u ∈ stdSimplex K ι) (hv : v ∈ stdSimplex K ι) (i : ι) :
    |ws.foldl (filtered A) u i - ws.foldl (filtered A) v i| ≤
      (1 - ε) ^ (ws.length - 1) * (1 / ε ^ 2 - 1) := by
  have hc : 0 ≤ 1 / ε ^ 2 - 1 := by
    rw [sub_nonneg, one_le_div (pow_pos hε 2)]
    exact pow_le_one₀ hε.le hε1
  cases ws with
  | nil => exact absurd rfl hne
  | cons w ws =>
    have hw := hws w List.mem_cons_self
    have hfirst : Close (1 / ε ^ 2 - 1) (filtered A u w) (filtered A v w) :=
      (hmix.close hε hu hv).divide (fun i => (hw i).le) (sum_weighed_pos hA hw hu)
        (sum_weighed_pos hA hw hv)
    obtain ⟨hclose, hu', hv'⟩ := hfirst.run hA hmix hε.le hε1
      (fun w' h' => hws w' (List.mem_cons_of_mem w h')) hc (filtered_mem hA hw hu)
      (filtered_mem hA hw hv)
    exact hclose.abs_sub_le (mul_nonneg (pow_nonneg (sub_nonneg.mpr hε1) _) hc) hu' hv' i

/-! ## Observations that decide -/

/-- From every state, `j` is made more likely than `k`. -/
def Dominates (A : Matrix ι ι K) (w : ι → K) (j k : ι) : Prop := ∀ i, A i k * w k < A i j * w j

instance [DecidableLT K] (A : Matrix ι ι K) (w : ι → K) (j k : ι) : Decidable (Dominates A w j k) :=
  inferInstanceAs (Decidable (∀ i, A i k * w k < A i j * w j))

/-- **It decides whatever the belief was**: an observation under which `j` dominates `k` leaves `j`
the more likely one. -/
theorem filtered_lt_of_dominates (hA : Stochastic A) (hw : ∀ i, 0 < w i) (hu : u ∈ stdSimplex K ι)
    {j k : ι} (h : Dominates A w j k) : filtered A u w k < filtered A u w j := by
  have hexp : ∀ l, weighed A w u l = ∑ i, u i * (A i l * w l) := by
    intro l
    simp only [weighed, vecMul, dotProduct, Finset.sum_mul, mul_assoc]
  have hsome : ∃ i ∈ Finset.univ, 0 < u i := by
    by_contra hall
    push Not at hall
    have hone := hu.2
    rw [Finset.sum_eq_zero fun i hi => le_antisymm (hall i hi) (hu.1 i)] at hone
    exact zero_ne_one hone
  obtain ⟨i, hi, hpos⟩ := hsome
  refine div_lt_div_of_pos_right ?_ (sum_weighed_pos hA hw hu)
  rw [hexp, hexp]
  exact Finset.sum_lt_sum (fun i _ => mul_le_mul_of_nonneg_left (h i).le (hu.1 i))
    ⟨i, hi, mul_lt_mul_of_pos_left (h i) hpos⟩

/-! ## Half-spaces that are kept -/

/-- What the states score after one step is, from every state, at least a multiple of what it
scores. -/
def Keeps (A : Matrix ι ι K) (g w : ι → K) (r : K) : Prop := ∀ i, r * g i ≤ ∑ j, A i j * (w j * g j)

instance [DecidableLE K] (A : Matrix ι ι K) (g w : ι → K) (r : K) : Decidable (Keeps A g w r) :=
  inferInstanceAs (Decidable (∀ i, r * g i ≤ ∑ j, A i j * (w j * g j)))

/-- **The half-space is kept**: an observation that keeps the score `g` leaves it nonnegative
wherever it was. -/
theorem score_filtered_nonneg {r : K} (hA : Stochastic A) (hw : ∀ i, 0 < w i)
    (hu : u ∈ stdSimplex K ι) (hr : 0 ≤ r) (h : Keeps A g w r) (hg : 0 ≤ ∑ i, u i * g i) :
    0 ≤ ∑ i, filtered A u w i * g i := by
  have hpos := sum_weighed_pos hA hw hu
  have hexp : ∑ j, filtered A u w j * g j =
      (∑ i, u i * ∑ j, A i j * (w j * g j)) / ∑ k, weighed A w u k := by
    simp only [filtered, weighed, vecMul, dotProduct, Finset.sum_div, Finset.sum_mul,
      Finset.mul_sum, div_mul_eq_mul_div]
    rw [Finset.sum_comm]
    refine Finset.sum_congr rfl fun i _ => Finset.sum_congr rfl fun j _ => ?_
    congr 1
    ring
  rw [hexp]
  refine div_nonneg ?_ hpos.le
  calc 0 ≤ r * ∑ i, u i * g i := mul_nonneg hr hg
    _ = ∑ i, u i * (r * g i) := by
        rw [Finset.mul_sum]
        exact Finset.sum_congr rfl fun i _ => by ring
    _ ≤ ∑ i, u i * ∑ j, A i j * (w j * g j) :=
        Finset.sum_le_sum fun i _ => mul_le_mul_of_nonneg_left (h i) (hu.1 i)

end Meridian.HiddenFilter
