import Mathlib.Algebra.BigOperators.Field
import Mathlib.Algebra.BigOperators.Fin
import Mathlib.Tactic.FieldSimp
import Mathlib.Tactic.Ring
import Meridian.Lib.HiddenPaths
import Meridian.Quant.RegimeDetector

/-!
# The scaled forward-backward pass

The rows that `_forward`, `_backward` and the expectation step of `baum_welch` compute, in closed
form: with the unscaled recursions `ahead` and `behind` over the hidden paths, a row of `alpha` is
`ahead` divided by its total, a row of `beta` is `behind` times that total over the likelihood, and
the scales cancel in `gamma` and in `xi_t`.

Results:
* `alpha_eq`, `scale_eq`, `beta_eq`, `gamma_eq`, `xi_eq`: the rows in closed form;
* `forward_backward`: the product of the scales is the likelihood, and `gamma` and `xi_t` are the
  posteriors of one state and of two successive ones.

Out of scope: the rounding and underflow of doubles, which the scales are there for.
-/

namespace Meridian.Hmm

open Matrix HiddenPaths

variable {K : Type*} [Field K] {N M : ℕ}

/-! ## Hidden paths -/

/-- The first state with the first observation. -/
def start (p : Hmm K N M) (o : Fin M) : Fin N → K := fun i => p.pi i * p.B i o

/-- A transition with the observation after it. -/
def step (p : Hmm K N M) (o : Fin M) : Matrix (Fin N) (Fin N) K := fun i j => p.A i j * p.B j o

/-- The probability of a hidden path together with the observations `o :: os`. -/
def pathProb (p : Hmm K N M) (o : Fin M) (os : List (Fin M)) (s : Fin (os.length + 1) → Fin N) :
    K :=
  p.pi (s 0) * p.B (s 0) o *
    ∏ t : Fin os.length, p.A (s t.castSucc) (s t.succ) * p.B (s t.succ) (os.get t)

/-- The probability of the observations `o :: os`: the sum over all hidden paths. -/
def likelihood (p : Hmm K N M) (o : Fin M) (os : List (Fin M)) : K := ∑ s, p.pathProb o os s

/-- The probability of an event on the hidden path, given the observations. -/
def posterior (p : Hmm K N M) (o : Fin M) (os : List (Fin M))
    (event : (Fin (os.length + 1) → Fin N) → Prop) [DecidablePred event] : K :=
  (∑ s with event s, p.pathProb o os s) / p.likelihood o os

/-- The steps through these observations. -/
def steps (p : Hmm K N M) {n : ℕ} (os : Fin n → Fin M) : Fin n → Matrix (Fin N) (Fin N) K :=
  fun t => p.step (os t)

theorem pathProb_eq_weight (p : Hmm K N M) (o : Fin M) (os : List (Fin M)) :
    p.pathProb o os = weight (p.start o) (p.steps os.get) := rfl

theorem likelihood_eq_sum_weight (p : Hmm K N M) (o : Fin M) (os : List (Fin M)) :
    p.likelihood o os = ∑ s, weight (p.start o) (p.steps os.get) s := rfl

/-! ## Lists of rows -/

theorem zip_ofFn {α β : Type*} (l : List α) (f : Fin l.length → β) :
    l.zip (List.ofFn f) = List.ofFn fun t => (l.get t, f t) := by
  refine List.ext_getElem (by simp) fun i h1 h2 => ?_
  simp only [List.getElem_zip, List.getElem_ofFn, List.get_eq_getElem]

theorem zipWith_ofFn {α β γ : Type*} {n : ℕ} (h : α → β → γ) (f : Fin n → α) (g : Fin n → β) :
    List.zipWith h (List.ofFn f) (List.ofFn g) = List.ofFn fun t => h (f t) (g t) := by
  refine List.ext_getElem (by simp) fun i h1 h2 => ?_
  simp only [List.getElem_zipWith, List.getElem_ofFn]

theorem tail_ofFn {α : Type*} {n : ℕ} (f : Fin (n + 1) → α) :
    (List.ofFn f).tail = List.ofFn fun t => f t.succ := by
  rw [List.ofFn_succ, List.tail_cons]

/-- The last row of the longer list has no partner. -/
theorem zipWith_ofFn_succ {α β γ : Type*} {n : ℕ} (h : α → β → γ) (f : Fin (n + 1) → α)
    (g : Fin n → β) :
    List.zipWith h (List.ofFn f) (List.ofFn g) = List.ofFn fun t => h (f t.castSucc) (g t) := by
  refine List.ext_getElem (by simp) fun i h1 h2 => ?_
  simp only [List.getElem_zipWith, List.getElem_ofFn]
  rfl

/-! ## The unscaled recursions -/

section Steps

variable (p : Hmm K N M) {n : ℕ} (v : Fin N → K)

/-- The total of the weights up to a time. -/
def total (os : Fin n → Fin M) (t : Fin (n + 1)) : K := ∑ i, ahead v (p.steps os) t i

theorem total_zero (os : Fin n → Fin M) : p.total v os 0 = ∑ i, v i := by
  rw [total, ahead_zero]

/-- A step from a row divided by a number. -/
theorem vecMul_step (o : Fin M) (c : K) :
    (fun j => ((fun i => v i / c) ᵥ* p.A) j * p.B j o) = fun j => (v ᵥ* p.step o) j * c⁻¹ := by
  funext j
  simp only [vecMul, dotProduct, step, Finset.sum_mul]
  refine Finset.sum_congr rfl fun i _ => ?_
  rw [div_eq_mul_inv]
  ring

/-- A step back from a row times a number. -/
theorem step_mulVec (o : Fin M) (b : Fin N → K) (c : K) (i : Fin N) :
    (p.A *ᵥ fun j => p.B j o * (b j * c)) i = (p.step o *ᵥ b) i * c := by
  simp only [mulVec, dotProduct, step, Finset.sum_mul]
  refine Finset.sum_congr rfl fun j _ => ?_
  ring

end Steps

/-! ## Scaling -/

variable [LinearOrder K]

theorem guarded_of_ne {total : K} (h : total ≠ 0) : guarded total = total := if_neg h

/-- A factor cancels. -/
theorem scaled_mul {ι : Type*} [Fintype ι] {v : ι → K} {c : K} (hc : c ≠ 0) (hv : ∑ i, v i ≠ 0) :
    scaled (fun i => v i * c) = fun i => v i / ∑ i, v i := by
  have hsum : ∑ i, v i * c = (∑ i, v i) * c := (Finset.sum_mul ..).symm
  funext i
  rw [scaled, hsum, guarded_of_ne (mul_ne_zero hv hc), mul_div_mul_right _ _ hc]

section Rows

variable (p : Hmm K N M) {n : ℕ} (v : Fin N → K) (os : Fin n → Fin M)

/-- **The forward rows**: each is the unscaled one over the total before it. -/
theorem forward_rows_eq (h : ∀ t, p.total v os t ≠ 0) :
    p.forward_rows (fun i => v i / ∑ i, v i) (List.ofFn os) =
      List.ofFn fun t : Fin n => fun j =>
        ahead v (p.steps os) t.succ j * (p.total v os t.castSucc)⁻¹ := by
  induction n generalizing v with
  | zero => rfl
  | succ n ih =>
    have hv : ∑ i, v i ≠ 0 := p.total_zero v os ▸ h 0
    have hstep : ∑ j, (v ᵥ* p.step (os 0)) j ≠ 0 := by
      rw [← p.total_zero _ fun t => os t.succ]
      exact h (Fin.succ 0)
    rw [List.ofFn_succ, List.ofFn_succ, forward_rows, vecMul_step,
      scaled_mul (inv_ne_zero hv) hstep, ih (v ᵥ* p.step (os 0)) (fun t => os t.succ)
        fun t => h t.succ]
    congr 1
    funext j
    rw [ahead_succ, ahead_zero, Fin.castSucc_zero, total_zero]
    rfl

omit [LinearOrder K] in
/-- **The backward rows**: each is the unscaled one times the total up to it, over the whole. -/
theorem backward_eq (h : ∀ t, p.total v os t ≠ 0) (first : Fin M × K) :
    p.backward (first :: List.ofFn fun t : Fin n =>
        (os t, p.total v os t.succ * (p.total v os t.castSucc)⁻¹)) =
      List.ofFn fun t : Fin (n + 1) => fun i =>
        behind (p.steps os) t i * (p.total v os t / p.total v os (Fin.last n)) := by
  induction n generalizing v first with
  | zero =>
    rw [List.ofFn_succ, List.ofFn_zero, List.ofFn_zero, backward]
    congr 1
    funext i
    rw [show Fin.last 0 = 0 from rfl, div_self (h 0), mul_one]
    rfl
  | succ n ih =>
    have hlater : p.backward
        ((os 0, p.total v os (Fin.succ 0) * (p.total v os (Fin.castSucc 0))⁻¹) ::
          List.ofFn fun t : Fin n =>
            (os t.succ, p.total v os t.succ.succ * (p.total v os t.succ.castSucc)⁻¹)) =
        List.ofFn fun t : Fin (n + 1) => fun i => behind (p.steps os) t.succ i *
          (p.total v os t.succ / p.total v os (Fin.last (n + 1))) :=
      ih (v ᵥ* p.step (os 0)) (fun t => os t.succ) (fun t => h t.succ) _
    rw [List.ofFn_succ, backward, hlater, List.ofFn_succ (n := n + 1)]
    congr 1
    funext i
    have hhead : (List.ofFn fun t : Fin (n + 1) => fun i => behind (p.steps os) t.succ i *
        (p.total v os t.succ / p.total v os (Fin.last (n + 1)))).headD 0 = fun i =>
          behind (p.steps os) (Fin.succ 0) i *
            (p.total v os (Fin.succ 0) / p.total v os (Fin.last (n + 1))) := by
      rw [List.ofFn_succ, List.headD_cons]
    have h0 := h 0
    have h1 := h (Fin.succ 0)
    rw [hhead, step_mulVec, Fin.castSucc_zero]
    have hstep : behind (p.steps os) 0 i =
        (p.step (os 0) *ᵥ behind (p.steps os) (Fin.succ 0)) i := congrFun (behind_zero _) i
    rw [hstep]
    field_simp

end Rows

/-! ## One sequence -/

section Weights

variable (p : Hmm K N M) (o : Fin M) {n : ℕ} (os : Fin n → Fin M)

/-- The total before each row of `alpha`; there is none before the first. -/
def before (v : Fin N → K) : Fin (n + 1) → K := Fin.cons 1 fun t => p.total v os t.castSucc

/-- The weight of the paths through one state, over the whole. -/
def through (t : Fin (n + 1)) (i : Fin N) : K :=
  ahead (p.start o) (p.steps os) t i * behind (p.steps os) t i /
    p.total (p.start o) os (Fin.last n)

/-- The weight of the paths through one step, over the whole. -/
def around (t : Fin n) (ij : Fin N × Fin N) : K :=
  ahead (p.start o) (p.steps os) t.castSucc ij.1 * p.step (os t) ij.1 ij.2 *
    behind (p.steps os) t.succ ij.2 / p.total (p.start o) os (Fin.last n)

omit [LinearOrder K]

theorem before_ne_zero {v : Fin N → K} (h : ∀ t, p.total v os t ≠ 0) (t : Fin (n + 1)) :
    p.before os v t ≠ 0 := by
  cases t using Fin.cases with
  | zero => exact one_ne_zero
  | succ t => exact h t.castSucc

/-- The total over all hidden paths. -/
theorem total_last (v : Fin N → K) : p.total v os (Fin.last n) = ∑ s, weight v (p.steps os) s :=
  (sum_weight ..).symm

/-- Each row of `gamma` has the total 1 before it is divided by it. -/
theorem sum_through (h : ∀ t, p.total (p.start o) os t ≠ 0) (t : Fin (n + 1)) :
    ∑ i, p.through o os t i = 1 := by
  simp only [through]
  rw [← Finset.sum_div, sum_ahead_mul_behind, ← total_last, div_self (h (Fin.last n))]

theorem sum_around (h : ∀ t, p.total (p.start o) os t ≠ 0) (t : Fin n) :
    ∑ ij, p.around o os t ij = 1 := by
  have hsum := sum_weight_step (p.start o) (p.steps os) t fun _ _ => 1
  simp only [mul_one] at hsum
  rw [Fintype.sum_prod_type]
  simp only [around, ← Finset.sum_div]
  rw [div_eq_one_iff_eq (h (Fin.last n)), total_last, hsum]
  rfl

end Weights

section Sequence

variable (p : Hmm K N M) (o : Fin M) (os : List (Fin M))

theorem forward_raw_eq (h : ∀ t, p.total (p.start o) os.get t ≠ 0) :
    p.forward_raw (o :: os) = List.ofFn fun t => fun j =>
      ahead (p.start o) (p.steps os.get) t j * (p.before os.get (p.start o) t)⁻¹ := by
  have hstart : ∑ i, p.start o i ≠ 0 := p.total_zero _ os.get ▸ h 0
  have hscaled : scaled (p.start o) = fun i => p.start o i / ∑ i, p.start o i := by
    funext i
    rw [scaled, guarded_of_ne hstart]
  have hrows := p.forward_rows_eq (p.start o) os.get h
  rw [← hscaled, List.ofFn_get] at hrows
  rw [List.ofFn_succ, forward_raw]
  congr 1
  funext j
  rw [ahead_zero, before, Fin.cons_zero, inv_one, mul_one]
  rfl

/-- **The scales**: the total of an unscaled row over the total of the one before it. -/
theorem scale_eq (h : ∀ t, p.total (p.start o) os.get t ≠ 0) :
    p.scale (o :: os) = List.ofFn fun t =>
      p.total (p.start o) os.get t * (p.before os.get (p.start o) t)⁻¹ := by
  rw [scale, p.forward_raw_eq o os h, List.map_ofFn]
  congr 1
  funext t
  have hsum : ∑ j, ahead (p.start o) (p.steps os.get) t j * (p.before os.get (p.start o) t)⁻¹ =
      p.total (p.start o) os.get t * (p.before os.get (p.start o) t)⁻¹ := (Finset.sum_mul ..).symm
  rw [Function.comp_apply, hsum,
    guarded_of_ne (mul_ne_zero (h t) (inv_ne_zero (p.before_ne_zero os.get h t)))]

/-- **`alpha`**: each row is the unscaled one divided by its total. -/
theorem alpha_eq (h : ∀ t, p.total (p.start o) os.get t ≠ 0) :
    p.alpha (o :: os) = List.ofFn fun t => fun j =>
      ahead (p.start o) (p.steps os.get) t j / p.total (p.start o) os.get t := by
  rw [alpha, p.forward_raw_eq o os h, List.map_ofFn]
  congr 1
  funext t
  exact scaled_mul (inv_ne_zero (p.before_ne_zero os.get h t)) (h t)

/-- **`beta`**: the unscaled row times the total up to it, over the whole. -/
theorem beta_eq (h : ∀ t, p.total (p.start o) os.get t ≠ 0) :
    p.beta (o :: os) = List.ofFn fun t => fun i => behind (p.steps os.get) t i *
      (p.total (p.start o) os.get t / p.total (p.start o) os.get (Fin.last os.length)) := by
  rw [beta, p.scale_eq o os h, zip_ofFn (o :: os), List.ofFn_succ]
  exact p.backward_eq (p.start o) os.get h _

/-- **`gamma`**: the scales cancel, and what is left are the weights of the paths through a state.
-/
theorem gamma_raw_eq (h : ∀ t, p.total (p.start o) os.get t ≠ 0) :
    p.gamma_raw (o :: os) = List.ofFn (p.through o os.get) := by
  rw [gamma_raw, p.alpha_eq o os h, p.beta_eq o os h, zipWith_ofFn]
  congr 1
  funext t i
  have ht := h t
  have hlast := h (Fin.last os.length)
  rw [through]
  field_simp

theorem gamma_eq (h : ∀ t, p.total (p.start o) os.get t ≠ 0) :
    p.gamma (o :: os) = List.ofFn (p.through o os.get) := by
  rw [gamma, p.gamma_raw_eq o os h, List.map_ofFn]
  congr 1
  funext t i
  rw [Function.comp_apply, scaled, p.sum_through o os.get h t, guarded_of_ne one_ne_zero, div_one]

/-- **`numer`**: the weights around a step times its scale. -/
theorem numer_eq (h : ∀ t, p.total (p.start o) os.get t ≠ 0) :
    p.numer (o :: os) = List.ofFn fun t : Fin os.length => fun ij => p.around o os.get t ij *
      (p.total (p.start o) os.get t.succ * (p.total (p.start o) os.get t.castSucc)⁻¹) := by
  rw [numer, p.alpha_eq o os h, p.beta_eq o os h, zip_ofFn (o :: os), tail_ofFn,
    zipWith_ofFn_succ]
  congr 1
  funext t ij
  have hcast := h t.castSucc
  have hsucc := h t.succ
  have hlast := h (Fin.last os.length)
  simp only [List.get_cons_succ', around, step]
  field_simp

/-- **`xi_t`**: the scales cancel, and what is left are the weights of the paths through a step. -/
theorem xi_eq (h : ∀ t, p.total (p.start o) os.get t ≠ 0) :
    p.xi (o :: os) = List.ofFn (p.around o os.get) := by
  rw [xi, p.numer_eq o os h, List.map_ofFn]
  congr 1
  funext t ij
  have hne : ∑ ij, p.around o os.get t ij ≠ 0 := by
    rw [p.sum_around o os.get h t]
    exact one_ne_zero
  rw [Function.comp_apply, scaled_mul (mul_ne_zero (h t.succ) (inv_ne_zero (h t.castSucc))) hne,
    p.sum_around o os.get h t]
  exact div_one _

end Sequence

/-! ## Posteriors -/

section Posteriors

variable {p : Hmm K N M} {o : Fin M} {os : List (Fin M)}

omit [LinearOrder K] in
/-- A product of ratios. -/
theorem prod_ratio {n : ℕ} {f : Fin (n + 1) → K} (h : ∀ t, f t ≠ 0) :
    ∏ t : Fin n, f t.succ * (f t.castSucc)⁻¹ = f (Fin.last n) * (f 0)⁻¹ := by
  induction n with
  | zero =>
    rw [Finset.univ_eq_empty, Finset.prod_empty]
    exact (mul_inv_cancel₀ (h 0)).symm
  | succ n ih =>
    rw [Fin.prod_univ_castSucc]
    have hinit := ih fun t => h t.castSucc
    simp only [Fin.succ_castSucc] at hinit ⊢
    rw [hinit, Fin.castSucc_zero, Fin.succ_last]
    have hlast := h (Fin.last n).castSucc
    field_simp

/-- The product of the scales. -/
theorem prod_scale (h : ∀ t, p.total (p.start o) os.get t ≠ 0) :
    (p.scale (o :: os)).prod = p.likelihood o os := by
  rw [p.scale_eq o os h, List.prod_ofFn, Fin.prod_univ_succ]
  have hratio := prod_ratio h
  have h0 := h 0
  simp only [before, Fin.cons_zero, Fin.cons_succ] at hratio ⊢
  rw [hratio, likelihood_eq_sum_weight, ← total_last]
  field_simp

omit [LinearOrder K] in
/-- The posterior of one state. -/
theorem posterior_at (t : Fin (os.length + 1)) (i : Fin N) :
    p.posterior o os (fun s => s t = i) = p.through o os.get t i := by
  have hsum := sum_weight_at (p.start o) (p.steps os.get) t fun j => if j = i then 1 else 0
  simp only [mul_ite, mul_one, mul_zero, Finset.sum_ite_eq', Finset.mem_univ, if_true] at hsum
  rw [posterior, Finset.sum_filter, likelihood_eq_sum_weight, ← total_last, pathProb_eq_weight,
    hsum]
  rfl

omit [LinearOrder K] in
/-- The posterior of two successive states. -/
theorem posterior_step (t : Fin os.length) (i j : Fin N) :
    p.posterior o os (fun s => s t.castSucc = i ∧ s t.succ = j) = p.around o os.get t (i, j) := by
  have hsum := sum_weight_step (p.start o) (p.steps os.get) t fun k l =>
    if k = i then if l = j then 1 else 0 else 0
  simp only [mul_ite, mul_one, mul_zero, Finset.sum_ite_eq', Finset.mem_univ, if_true,
    Finset.sum_ite_irrel, Finset.sum_const_zero] at hsum
  rw [posterior, Finset.sum_filter, likelihood_eq_sum_weight, ← total_last, pathProb_eq_weight]
  simp only [ite_and]
  rw [hsum]
  rfl

/-- No parameter is negative. -/
structure Nonneg (p : Hmm K N M) : Prop where
  pi : ∀ i, 0 ≤ p.pi i
  A : ∀ i j, 0 ≤ p.A i j
  B : ∀ i o, 0 ≤ p.B i o

variable [IsStrictOrderedRing K]

theorem Nonneg.start (hp : p.Nonneg) (o : Fin M) (i : Fin N) : 0 ≤ p.start o i :=
  mul_nonneg (hp.pi i) (hp.B i o)

theorem Nonneg.step (hp : p.Nonneg) (o : Fin M) (i j : Fin N) : 0 ≤ p.step o i j :=
  mul_nonneg (hp.A i j) (hp.B j o)

/-- Where the observations are possible, some state is at every time. -/
theorem Nonneg.total_pos (hp : p.Nonneg) (h : 0 < p.likelihood o os) (t : Fin (os.length + 1)) :
    0 < p.total (p.start o) os.get t :=
  sum_ahead_pos (hp.start o) (fun t => hp.step (os.get t)) h t

/-- **The forward-backward pass**: where the observations are possible, the product of the scales is
their probability, `gamma` is the posterior of each state at each time and `xi_t` that of the states
before and after each step. -/
theorem forward_backward (p : Hmm K N M) (o : Fin M) (os : List (Fin M)) (hp : p.Nonneg)
    (h : 0 < p.likelihood o os) :
    (p.scale (o :: os)).prod = p.likelihood o os ∧
    p.gamma (o :: os) = List.ofFn (fun t i => p.posterior o os fun s => s t = i) ∧
    p.xi (o :: os) = List.ofFn fun t ij =>
      p.posterior o os fun s => s t.castSucc = ij.1 ∧ s t.succ = ij.2 := by
  have hne : ∀ t, p.total (p.start o) os.get t ≠ 0 := fun t => (hp.total_pos h t).ne'
  refine ⟨prod_scale hne, ?_, ?_⟩
  · rw [p.gamma_eq o os hne]
    simp only [posterior_at]
  · rw [p.xi_eq o os hne]
    simp only [posterior_step]

/-- Two states that are told apart by what they show. -/
def coin : Hmm ℚ 2 2 where
  pi := ![1 / 2, 1 / 2]
  A := ![![3 / 4, 1 / 4], ![1 / 3, 2 / 3]]
  B := ![![9 / 10, 1 / 10], ![0, 1]]

theorem coin_nonneg : coin.Nonneg := by
  have hA : ∀ i j : Fin 2, 0 ≤ (fun i j => coin.A i j) i j := by decide +kernel
  have hB : ∀ i o : Fin 2, 0 ≤ (fun i o => coin.B i o) i o := by decide +kernel
  exact ⟨by decide +kernel, hA, hB⟩

/-- Three observations, the first of which only the first state shows. -/
theorem forward_backward_coin : 0 < coin.likelihood 0 [1, 1] ∧
    (coin.scale [0, 1, 1]).prod = coin.likelihood 0 [1, 1] ∧
    coin.gamma [0, 1, 1] = List.ofFn (fun t i => coin.posterior 0 [1, 1] fun s => s t = i) ∧
    coin.xi [0, 1, 1] = List.ofFn fun t ij =>
      coin.posterior 0 [1, 1] fun s => s t.castSucc = ij.1 ∧ s t.succ = ij.2 :=
  ⟨by decide +kernel, forward_backward coin 0 [1, 1] coin_nonneg (by decide +kernel)⟩

end Posteriors

end Meridian.Hmm
