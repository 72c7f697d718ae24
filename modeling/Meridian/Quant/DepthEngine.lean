import Mathlib.Algebra.BigOperators.Field
import Meridian.Config.Schema
import Meridian.Lib.Descent
import Meridian.Utils.RealFunctions

/-!
# The depth engine

Model of `quant/depth_engine.py`: the budget of a side, spread over its levels by a blend of a
geometric and an equal distribution, lowered where a level is less than the minimal step below the
one before it, and raised to the minimal order.

A level is raised to the minimal order where the rest is not above the budget, so the scale that is to
take the raises back never passes its own check (`compute_amounts_eq`).

Results:
* `compute_amounts_shape`: how many amounts there are, their order, their steps and their total;
* `sum_le_side_budget_iff`: when they stay within the budget of the side.

Out of scope: the rounding of doubles. Amounts are exact reals, so that a level that is not raised is
its share of the budget.
-/

namespace Meridian

/-- `DepthEngine` (`depth_engine.py:28-34`). -/
structure DepthEngine where
  cfg : DepthConfig
  deriving DecidableEq

namespace DepthEngine

section Model

variable {K : Type*} [Field K] [LinearOrder K]

/-- The budget of a side (`depth_engine.py:66`, `79-83`). -/
def side_budget (e : DepthEngine) (skew_factor : K) (side : String) (depth_mult : K) : K :=
  let mult := max 0 depth_mult
  let half_budget := ((e.cfg.total_budget_usd.1 : ℚ) : K) / ((2 : ℚ) : K) * mult
  if side = "buy" then half_budget * clip skew_factor ((1 / 2 : ℚ) : K) ((2 : ℚ) : K)
  else half_budget * clip (((2 : ℚ) : K) - skew_factor) ((1 / 2 : ℚ) : K) ((2 : ℚ) : K)

/-- The amounts after one that is already stepped (`depth_engine.py:90-93`). -/
def step_down (min_step_usd : K) : K → List K → List K
  | _, [] => []
  | amount, raw :: raws =>
    let min_val := amount - min_step_usd
    let amount := if min_val < raw then max min_val 0 else raw
    amount :: step_down min_step_usd amount raws

/-- The minimal decrement (`depth_engine.py:87-93`). -/
def enforce_min_step_usd (min_step_usd : K) : List K → List K
  | [] => []
  | raw :: raws => raw :: step_down min_step_usd raw raws

/-- `usd_to_token_amount` (`depth_engine.py:111-115`). -/
def usd_to_token_amount (usd_amount price : K) : K := if price ≤ 0 then 0 else usd_amount / price

variable [MathFunctions K]

/-- The share of each level (`depth_engine.py:64-76`). -/
def ratio (e : DepthEngine) (aggressiveness : K) (n : ℕ) : List K :=
  let agg := clip aggressiveness 0 1
  let passive := geometric_decay n ((4 / 5 : ℚ) : K)
  let equal := List.replicate n (1 / (n : K))
  let blend := MathFunctions.pow agg ((e.cfg.curve_strength.1 : ℚ) : K)
  List.zipWith (fun p q => (1 - blend) * p + blend * q) passive equal

/-- `raw_amounts`, with the steps where there are any (`depth_engine.py:85-93`). -/
def raw_amounts (e : DepthEngine) (aggressiveness : K) (n_levels : ℕ) (skew_factor : K)
    (side : String) (min_step_usd depth_mult : K) : List K :=
  let raw_amounts :=
    (e.ratio aggressiveness n_levels).map (· * e.side_budget skew_factor side depth_mult)
  if 0 < min_step_usd ∧ 1 < n_levels then enforce_min_step_usd min_step_usd raw_amounts
  else raw_amounts

/-- `compute_amounts` (`depth_engine.py:36-109`). -/
def compute_amounts (e : DepthEngine) (aggressiveness : K) (n_levels : ℕ) (skew_factor : K)
    (side : String) (min_step_usd depth_mult : K) : List K :=
  let min_order_usd : K := ((e.cfg.min_order_usd.1 : ℚ) : K)
  let side_budget := e.side_budget skew_factor side depth_mult
  let raw_amounts := e.raw_amounts aggressiveness n_levels skew_factor side min_step_usd depth_mult
  let amounts := raw_amounts.map (max min_order_usd)
  let total_after_min := amounts.sum
  let amounts :=
    if side_budget < total_after_min then
      let scale := side_budget / total_after_min
      let scaled := amounts.map (· * scale)
      if ∀ a ∈ scaled, min_order_usd ≤ a then scaled else amounts
    else amounts
  amounts.map (max min_order_usd)

end Model

variable (e : DepthEngine) (aggressiveness skew_factor min_step_usd depth_mult : ℝ) (n : ℕ)
  (side : String)

/-! ## The shares -/

/-- `min_order_usd` -/
noncomputable def min_order : ℝ := (e.cfg.min_order_usd.1 : ℚ)

/-- `blend` -/
noncomputable def blend : ℝ := clip aggressiveness 0 1 ^ ((e.cfg.curve_strength.1 : ℚ) : ℝ)

/-- The geometric weights of `n` levels, together. -/
noncomputable def total_weight : ℝ := ∑ i ∈ Finset.range n, (4 / 5 : ℝ) ^ i

/-- The share of level `i` of `n` in the budget of its side, in USD. -/
noncomputable def share (i : ℕ) : ℝ :=
  ((1 - e.blend aggressiveness) * ((4 / 5) ^ i / total_weight n) +
    e.blend aggressiveness * (1 / n)) * e.side_budget skew_factor side depth_mult

variable {e aggressiveness skew_factor min_step_usd depth_mult n side}

theorem min_order_pos (e : DepthEngine) : 0 < e.min_order := by
  unfold min_order
  exact_mod_cast e.cfg.min_order_usd.2

theorem side_budget_nonneg (e : DepthEngine) (skew_factor : ℝ) (side : String) (depth_mult : ℝ) :
    0 ≤ e.side_budget skew_factor side depth_mult := by
  have htotal : (0 : ℝ) ≤ ((e.cfg.total_budget_usd.1 : ℚ) : ℝ) := by
    exact_mod_cast e.cfg.total_budget_usd.2.le
  have hclip : ∀ v : ℝ, 0 ≤ clip v ((1 / 2 : ℚ) : ℝ) ((2 : ℚ) : ℝ) :=
    fun v => le_max_of_le_left (by norm_num)
  have hhalf : 0 ≤ ((e.cfg.total_budget_usd.1 : ℚ) : ℝ) / ((2 : ℚ) : ℝ) * max 0 depth_mult :=
    mul_nonneg (div_nonneg htotal (by norm_num)) (le_max_left _ _)
  unfold side_budget
  simp only
  split
  · exact mul_nonneg hhalf (hclip _)
  · exact mul_nonneg hhalf (hclip _)

theorem blend_mem (e : DepthEngine) (aggressiveness : ℝ) :
    0 ≤ e.blend aggressiveness ∧ e.blend aggressiveness ≤ 1 := by
  obtain ⟨h0, h1⟩ := clip_mem (zero_le_one (α := ℝ)) aggressiveness
  have hstrength : (0 : ℝ) ≤ ((e.cfg.curve_strength.1 : ℚ) : ℝ) := by
    exact_mod_cast le_trans (by norm_num) e.cfg.curve_strength.2.1
  exact ⟨Real.rpow_nonneg h0 _, Real.rpow_le_one h0 h1 hstrength⟩

theorem total_weight_nonneg (n : ℕ) : 0 ≤ total_weight n :=
  Finset.sum_nonneg fun _ _ => pow_nonneg (by norm_num) _

theorem total_weight_pos (hn : 0 < n) : 0 < total_weight n :=
  Finset.sum_pos (fun _ _ => pow_pos (by norm_num) _) (Finset.nonempty_range_iff.mpr hn.ne')

theorem share_nonneg (i : ℕ) : 0 ≤ e.share aggressiveness skew_factor depth_mult n side i := by
  obtain ⟨h0, h1⟩ := e.blend_mem aggressiveness
  refine mul_nonneg (add_nonneg ?_ ?_) (e.side_budget_nonneg _ _ _)
  · exact mul_nonneg (sub_nonneg.mpr h1)
      (div_nonneg (pow_nonneg (by norm_num) i) (total_weight_nonneg n))
  · exact mul_nonneg h0 (div_nonneg zero_le_one n.cast_nonneg)

theorem share_antitone : Antitone (e.share aggressiveness skew_factor depth_mult n side) := by
  intro i j hij
  have hpow : (4 / 5 : ℝ) ^ j ≤ (4 / 5) ^ i := pow_le_pow_of_le_one (by norm_num) (by norm_num) hij
  have hblend := sub_nonneg.mpr (e.blend_mem aggressiveness).2
  have hweight := total_weight_nonneg n
  have hbudget := e.side_budget_nonneg skew_factor side depth_mult
  unfold share
  gcongr

theorem sum_share (hn : 0 < n) :
    ∑ i ∈ Finset.range n, e.share aggressiveness skew_factor depth_mult n side i =
      e.side_budget skew_factor side depth_mult := by
  have hpassive : ∑ i ∈ Finset.range n, (4 / 5 : ℝ) ^ i / total_weight n = 1 := by
    rw [← Finset.sum_div]
    exact div_self (total_weight_pos hn).ne'
  have hequal : ∑ _i ∈ Finset.range n, (1 : ℝ) / n = 1 := by
    rw [Finset.sum_const, Finset.card_range, nsmul_eq_mul]
    exact mul_one_div_cancel (Nat.cast_ne_zero.mpr hn.ne')
  unfold share
  rw [← Finset.sum_mul, Finset.sum_add_distrib, ← Finset.mul_sum, ← Finset.mul_sum, hpassive, hequal]
  ring

/-! ## The amounts before the minimal order -/

/-- What the steps leave of the share of level `i`; below 0, nothing is left of it. -/
noncomputable def stepped (e : DepthEngine) (aggressiveness skew_factor min_step_usd depth_mult : ℝ)
    (n : ℕ) (side : String) : ℕ → ℝ :=
  descent (max 0 min_step_usd) (e.share aggressiveness skew_factor depth_mult n side)

theorem ratio_mul_eq (e : DepthEngine) (aggressiveness skew_factor depth_mult : ℝ) (n : ℕ)
    (side : String) :
    (e.ratio aggressiveness n).map (· * e.side_budget skew_factor side depth_mult) =
      (List.range n).map (e.share aggressiveness skew_factor depth_mult n side) := by
  have hequal : List.replicate n (1 / (n : ℝ)) = (List.range n).map fun _ => 1 / (n : ℝ) := by
    rw [List.map_const', List.length_range]
  have hdecay : ((4 / 5 : ℚ) : ℝ) = 4 / 5 := by norm_num
  unfold ratio geometric_decay
  simp only
  rw [hequal, hdecay, List.map_map, List.zipWith_map, List.zipWith_self, List.map_map]
  rfl

/-- One level after the one before it, which is `max 0 v`. -/
theorem stepped_level {step raw v : ℝ} (hstep : 0 < step) (hraw : 0 ≤ raw) :
    (if max 0 v - step < raw then max (max 0 v - step) 0 else raw) = max 0 (min raw (v - step)) := by
  rcases le_total v 0 with hv | hv
  · rw [max_eq_left hv, if_pos (by linarith), max_eq_right (by linarith),
      max_eq_left (min_le_of_right_le (by linarith))]
  · rw [max_eq_right hv]
    split
    · rename_i h
      rw [min_eq_right h.le, max_comm]
    · rename_i h
      rw [min_eq_left (not_lt.mp h), max_eq_right hraw]

/-- The loop from level `k` on. -/
theorem step_down_eq {step : ℝ} {x : ℕ → ℝ} (hstep : 0 < step) (hx : ∀ i, 0 ≤ x i) (k m : ℕ) :
    step_down step (max 0 (descent step x k)) ((List.range' (k + 1) m).map x) =
      (List.range' (k + 1) m).map fun i => max 0 (descent step x i) := by
  induction m generalizing k with
  | zero => rfl
  | succ m ih =>
    rw [List.range'_succ, List.map_cons, List.map_cons, step_down, stepped_level hstep (hx _),
      ← descent_succ, ih (k + 1)]

theorem raw_amounts_eq (e : DepthEngine)
    (aggressiveness skew_factor min_step_usd depth_mult : ℝ) (n : ℕ) (side : String) :
    e.raw_amounts aggressiveness n skew_factor side min_step_usd depth_mult =
      (List.range n).map fun i =>
        max 0 (e.stepped aggressiveness skew_factor min_step_usd depth_mult n side i) := by
  have hshare (i : ℕ) : 0 ≤ e.share aggressiveness skew_factor depth_mult n side i := share_nonneg i
  have hsame : (List.range n).map (e.share aggressiveness skew_factor depth_mult n side) =
      (List.range n).map fun i =>
        max 0 (e.share aggressiveness skew_factor depth_mult n side i) :=
    List.map_congr_left fun i _ => (max_eq_right (hshare i)).symm
  unfold raw_amounts stepped
  simp only
  rw [ratio_mul_eq]
  rcases le_or_gt min_step_usd 0 with hstep | hstep
  · rw [if_neg fun h => absurd h.1 hstep.not_gt, max_eq_left hstep,
      descent_of_antitone share_antitone, hsame]
  rw [max_eq_right hstep.le]
  rcases n with _ | n
  · exact if_neg fun h => absurd h.2 (by omega)
  · -- Level 0 keeps its share; the loop makes the others.
    have hfirst : e.share aggressiveness skew_factor depth_mult (n + 1) side 0 =
        max 0 (descent min_step_usd (e.share aggressiveness skew_factor depth_mult (n + 1) side) 0) := by
      rw [descent_zero, max_eq_right (hshare 0)]
    rw [List.range_eq_range', List.range'_succ, List.map_cons, List.map_cons, enforce_min_step_usd,
      ← hfirst]
    split
    · conv_lhs => rw [hfirst]
      rw [step_down_eq hstep hshare, ← hfirst]
    · rename_i hn
      obtain rfl : n = 0 := by
        have := not_and.mp hn hstep
        omega
      rfl

/-! ## The amounts -/

theorem sum_map_range (f : ℕ → ℝ) (n : ℕ) :
    ((List.range n).map f).sum = ∑ i ∈ Finset.range n, f i := rfl

theorem stepped_le_share (i : ℕ) :
    e.stepped aggressiveness skew_factor min_step_usd depth_mult n side i ≤
      e.share aggressiveness skew_factor depth_mult n side i :=
  descent_le _ _ i

theorem stepped_antitone :
    Antitone (e.stepped aggressiveness skew_factor min_step_usd depth_mult n side) :=
  descent_antitone (le_max_left _ _)

theorem sum_share_le (e : DepthEngine) (aggressiveness skew_factor depth_mult : ℝ) (n : ℕ)
    (side : String) :
    ∑ i ∈ Finset.range n, e.share aggressiveness skew_factor depth_mult n side i ≤
      e.side_budget skew_factor side depth_mult := by
  rcases n.eq_zero_or_pos with rfl | hn
  · exact e.side_budget_nonneg _ _ _
  · exact (sum_share hn).le

/-- Where the levels are above the budget once they are raised, one of them has been raised. -/
theorem exists_raised
    (h : e.side_budget skew_factor side depth_mult < ∑ i ∈ Finset.range n,
      max e.min_order (e.stepped aggressiveness skew_factor min_step_usd depth_mult n side i)) :
    ∃ i < n, max e.min_order
      (e.stepped aggressiveness skew_factor min_step_usd depth_mult n side i) = e.min_order := by
  by_contra hnone
  refine h.not_ge (le_trans (Finset.sum_le_sum fun i hi => ?_)
    (e.sum_share_le aggressiveness skew_factor depth_mult n side))
  rcases le_total (e.stepped aggressiveness skew_factor min_step_usd depth_mult n side i) e.min_order
    with hle | hle
  · exact absurd ⟨i, Finset.mem_range.mp hi, max_eq_left hle⟩ hnone
  · rw [max_eq_right hle]
    exact stepped_le_share i

/-- **The amounts**: what the steps leave of the shares, raised to the minimal order. A scale below 1
would take the raised levels below the minimal order, so it is never applied. -/
theorem compute_amounts_eq (e : DepthEngine)
    (aggressiveness skew_factor min_step_usd depth_mult : ℝ) (n : ℕ) (side : String) :
    e.compute_amounts aggressiveness n skew_factor side min_step_usd depth_mult =
      (List.range n).map fun i => max e.min_order
        (e.stepped aggressiveness skew_factor min_step_usd depth_mult n side i) := by
  have hmin := e.min_order_pos
  have hraise : (e.raw_amounts aggressiveness n skew_factor side min_step_usd depth_mult).map
      (max ((e.cfg.min_order_usd.1 : ℚ) : ℝ)) = (List.range n).map fun i => max e.min_order
        (e.stepped aggressiveness skew_factor min_step_usd depth_mult n side i) := by
    rw [raw_amounts_eq, List.map_map]
    refine List.map_congr_left fun i _ => ?_
    exact (max_assoc e.min_order 0 _).symm.trans (congrArg (max · _) (max_eq_left hmin.le))
  have htwice : ((List.range n).map fun i => max e.min_order
      (e.stepped aggressiveness skew_factor min_step_usd depth_mult n side i)).map
        (max ((e.cfg.min_order_usd.1 : ℚ) : ℝ)) = (List.range n).map fun i => max e.min_order
          (e.stepped aggressiveness skew_factor min_step_usd depth_mult n side i) := by
    rw [List.map_map]
    refine List.map_congr_left fun i _ => ?_
    exact (max_assoc e.min_order e.min_order _).symm.trans (congrArg (max · _) (max_self _))
  unfold compute_amounts
  simp only
  rw [hraise, sum_map_range]
  split
  · rename_i habove
    rw [if_neg, htwice]
    intro hscaled
    obtain ⟨i, hi, hraised⟩ := exists_raised habove
    have hscale := (div_lt_one ((e.side_budget_nonneg _ _ _).trans_lt habove)).mpr habove
    have hle := hscaled _ (List.mem_map_of_mem (List.mem_map_of_mem (List.mem_range.mpr hi)))
    rw [hraised] at hle
    exact hle.not_gt (mul_lt_of_lt_one_right hmin hscale)
  · exact htwice

theorem sum_compute_amounts (e : DepthEngine)
    (aggressiveness skew_factor min_step_usd depth_mult : ℝ) (n : ℕ) (side : String) :
    (e.compute_amounts aggressiveness n skew_factor side min_step_usd depth_mult).sum =
      ∑ i ∈ Finset.range n, max e.min_order
        (e.stepped aggressiveness skew_factor min_step_usd depth_mult n side i) := by
  rw [compute_amounts_eq, sum_map_range]

theorem of_getElem?_map_range {f : ℕ → ℝ} {i : ℕ} {a : ℝ}
    (h : ((List.range n).map f)[i]? = some a) : f i = a := by
  rw [List.getElem?_map, Option.map_eq_some_iff] at h
  obtain ⟨j, hj, rfl⟩ := h
  obtain ⟨-, rfl⟩ := List.getElem?_eq_some_iff.mp hj
  rw [List.getElem_range]

/-- A level above the minimal order was not raised, and the one before it is a minimal step further. -/
theorem min_step_kept {i : ℕ}
    (h : e.min_order < max e.min_order
      (e.stepped aggressiveness skew_factor min_step_usd depth_mult n side (i + 1))) :
    max e.min_order (e.stepped aggressiveness skew_factor min_step_usd depth_mult n side (i + 1)) +
        min_step_usd ≤
      max e.min_order (e.stepped aggressiveness skew_factor min_step_usd depth_mult n side i) := by
  have houter := (lt_max_iff.mp h).resolve_left (lt_irrefl _)
  have hstep : e.stepped aggressiveness skew_factor min_step_usd depth_mult n side (i + 1) ≤
      e.stepped aggressiveness skew_factor min_step_usd depth_mult n side i - max 0 min_step_usd :=
    descent_succ_le _ _ i
  have hinner := le_max_right e.min_order
    (e.stepped aggressiveness skew_factor min_step_usd depth_mult n side i)
  have hmin_step := le_max_right 0 min_step_usd
  rw [max_eq_right houter.le]
  linarith

/-- Each level is at most its share and a minimal order. -/
theorem sum_levels_le (e : DepthEngine) (aggressiveness skew_factor min_step_usd depth_mult : ℝ) (n : ℕ)
    (side : String) :
    ∑ i ∈ Finset.range n, max e.min_order
        (e.stepped aggressiveness skew_factor min_step_usd depth_mult n side i) ≤
      e.side_budget skew_factor side depth_mult + n * e.min_order := by
  have hlevel : ∀ i ∈ Finset.range n, max e.min_order
      (e.stepped aggressiveness skew_factor min_step_usd depth_mult n side i) ≤
        e.share aggressiveness skew_factor depth_mult n side i + e.min_order :=
    fun i _ => max_le (le_add_of_nonneg_left (share_nonneg i))
      ((stepped_le_share i).trans (le_add_of_nonneg_right e.min_order_pos.le))
  refine (Finset.sum_le_sum hlevel).trans ?_
  rw [Finset.sum_add_distrib, Finset.sum_const, Finset.card_range, nsmul_eq_mul]
  exact add_le_add (e.sum_share_le _ _ _ _ _) le_rfl

/-- **The shape of the amounts**: as many as there are levels, none below the minimal order, none above
the one before it, a minimal step apart as long as they are above the minimal order, and together no
more than the budget and a minimal order for each level. -/
theorem compute_amounts_shape (e : DepthEngine) (aggressiveness : ℝ) (n_levels : ℕ)
    (skew_factor : ℝ) (side : String) (min_step_usd depth_mult : ℝ) :
    let amounts :=
      e.compute_amounts aggressiveness n_levels skew_factor side min_step_usd depth_mult
    amounts.length = n_levels ∧ amounts.Pairwise (· ≥ ·) ∧ (∀ a ∈ amounts, e.min_order ≤ a) ∧
      (∀ (i : ℕ) (inner outer : ℝ), amounts[i]? = some inner → amounts[i + 1]? = some outer →
        e.min_order < outer → outer + min_step_usd ≤ inner) ∧
      amounts.sum ≤ e.side_budget skew_factor side depth_mult + n_levels * e.min_order := by
  intro amounts
  have hamounts : amounts = (List.range n_levels).map fun i => max e.min_order
      (e.stepped aggressiveness skew_factor min_step_usd depth_mult n_levels side i) :=
    e.compute_amounts_eq _ _ _ _ _ _
  rw [hamounts]
  refine ⟨?_, ?_, ?_, ?_, ?_⟩
  · rw [List.length_map, List.length_range]
  · refine List.pairwise_map.mpr (List.pairwise_lt_range.imp fun {i j} hij => ?_)
    exact max_le_max le_rfl (stepped_antitone hij.le)
  · intro a ha
    obtain ⟨i, -, rfl⟩ := List.mem_map.mp ha
    exact le_max_left _ _
  · intro i inner outer hinner houter hlt
    obtain rfl := of_getElem?_map_range hinner
    obtain rfl := of_getElem?_map_range houter
    exact min_step_kept hlt
  · rw [sum_map_range]
    exact e.sum_levels_le _ _ _ _ _ _

/-! ## The budget of a side -/

/-- What the minimal order adds to the levels that the steps leave below it. -/
noncomputable def raised (e : DepthEngine) (aggressiveness skew_factor min_step_usd depth_mult : ℝ)
    (n : ℕ) (side : String) : ℝ :=
  ∑ i ∈ Finset.range n,
    max 0 (e.min_order - e.stepped aggressiveness skew_factor min_step_usd depth_mult n side i)

/-- What the steps take off the shares. -/
noncomputable def lowered (e : DepthEngine) (aggressiveness skew_factor min_step_usd depth_mult : ℝ)
    (n : ℕ) (side : String) : ℝ :=
  ∑ i ∈ Finset.range n, (e.share aggressiveness skew_factor depth_mult n side i -
    e.stepped aggressiveness skew_factor min_step_usd depth_mult n side i)

theorem sum_le_iff (e : DepthEngine) (aggressiveness skew_factor min_step_usd depth_mult : ℝ) (n : ℕ)
    (side : String) :
    (e.compute_amounts aggressiveness n skew_factor side min_step_usd depth_mult).sum ≤
        e.side_budget skew_factor side depth_mult ↔
      e.raised aggressiveness skew_factor min_step_usd depth_mult n side ≤
        e.lowered aggressiveness skew_factor min_step_usd depth_mult n side := by
  rw [sum_compute_amounts, raised, lowered, ← sum_max_le_sum_iff]
  rcases n.eq_zero_or_pos with rfl | hn
  · exact iff_of_true (e.side_budget_nonneg _ _ _) le_rfl
  · rw [sum_share hn]

theorem stepped_of_no_step (hstep : min_step_usd ≤ 0) :
    e.stepped aggressiveness skew_factor min_step_usd depth_mult n side =
      e.share aggressiveness skew_factor depth_mult n side := by
  rw [stepped, max_eq_left hstep, descent_of_antitone share_antitone]

theorem lowered_of_no_step (hstep : min_step_usd ≤ 0) :
    e.lowered aggressiveness skew_factor min_step_usd depth_mult n side = 0 := by
  rw [lowered, stepped_of_no_step hstep]
  exact Finset.sum_eq_zero fun i _ => sub_self _

/-- With no steps, only the outermost level matters. -/
theorem raised_le_lowered_iff (hstep : min_step_usd ≤ 0) :
    e.raised aggressiveness skew_factor min_step_usd depth_mult n side ≤
        e.lowered aggressiveness skew_factor min_step_usd depth_mult n side ↔
      n = 0 ∨ e.min_order ≤ e.share aggressiveness skew_factor depth_mult n side (n - 1) := by
  have hnonneg : ∀ i ∈ Finset.range n,
      0 ≤ max 0 (e.min_order - e.share aggressiveness skew_factor depth_mult n side i) :=
    fun _ _ => le_max_left _ _
  rw [lowered_of_no_step hstep, raised, stepped_of_no_step hstep, (Finset.sum_nonneg hnonneg).ge_iff_eq',
    Finset.sum_eq_zero_iff_of_nonneg hnonneg]
  constructor
  · intro h
    rcases n.eq_zero_or_pos with hn | hn
    · exact .inl hn
    · have hlast := h (n - 1) (Finset.mem_range.mpr (by omega))
      exact .inr (sub_nonpos.mp (max_eq_left_iff.mp hlast))
  · rintro (rfl | h) i hi
    · exact absurd hi (Finset.notMem_empty i)
    · have hi := Finset.mem_range.mp hi
      exact max_eq_left (sub_nonpos.mpr (h.trans (share_antitone (by omega))))

/-- **The budget of a side is kept** exactly when the minimal order adds no more than the steps take
off; with no steps, exactly when the share of the outermost level is not below the minimal order. -/
theorem sum_le_side_budget_iff (e : DepthEngine) (aggressiveness : ℝ) (n_levels : ℕ)
    (skew_factor : ℝ) (side : String) (min_step_usd depth_mult : ℝ) :
    ((e.compute_amounts aggressiveness n_levels skew_factor side min_step_usd depth_mult).sum ≤
        e.side_budget skew_factor side depth_mult ↔
      e.raised aggressiveness skew_factor min_step_usd depth_mult n_levels side ≤
        e.lowered aggressiveness skew_factor min_step_usd depth_mult n_levels side) ∧
    (min_step_usd ≤ 0 →
      ((e.compute_amounts aggressiveness n_levels skew_factor side min_step_usd depth_mult).sum ≤
          e.side_budget skew_factor side depth_mult ↔
        n_levels = 0 ∨ e.min_order ≤
          e.share aggressiveness skew_factor depth_mult n_levels side (n_levels - 1))) := by
  have hiff := e.sum_le_iff aggressiveness skew_factor min_step_usd depth_mult n_levels side
  exact ⟨hiff, fun hstep => hiff.trans (raised_le_lowered_iff hstep)⟩

/-- No level is raised to the minimal order. -/
def Unraised (e : DepthEngine) (aggressiveness : ℝ) (n_levels : ℕ) (skew_factor : ℝ) (side : String)
    (min_step_usd depth_mult : ℝ) : Prop :=
  ∀ a ∈ e.raw_amounts aggressiveness n_levels skew_factor side min_step_usd depth_mult,
    e.min_order ≤ a

/-- A side none of whose levels is raised spends its budget, but for what the steps take off. -/
theorem Unraised.sum_eq
    (h : e.Unraised aggressiveness n skew_factor side min_step_usd depth_mult) (hn : 0 < n) :
    (e.compute_amounts aggressiveness n skew_factor side min_step_usd depth_mult).sum =
      e.side_budget skew_factor side depth_mult -
        e.lowered aggressiveness skew_factor min_step_usd depth_mult n side := by
  have hstepped : ∀ i < n, e.min_order ≤
      e.stepped aggressiveness skew_factor min_step_usd depth_mult n side i := by
    intro i hi
    have hraw := h _ (raw_amounts_eq e .. ▸ List.mem_map_of_mem (List.mem_range.mpr hi))
    exact (le_max_iff.mp hraw).resolve_left e.min_order_pos.not_ge
  rw [sum_compute_amounts, lowered, Finset.sum_sub_distrib, sum_share hn, sub_sub_cancel]
  exact Finset.sum_congr rfl fun i hi => max_eq_right (hstepped i (Finset.mem_range.mp hi))

/-- With no steps a fully aggressive side has equal levels. -/
theorem unraised_of_equal (hstep : min_step_usd ≤ 0)
    (h : e.min_order ≤ e.side_budget skew_factor side depth_mult / n) :
    e.Unraised 1 n skew_factor side min_step_usd depth_mult := by
  have hblend : e.blend 1 = 1 := by
    rw [blend, clip_eq zero_le_one le_rfl, Real.one_rpow]
  have hshare : ∀ i, e.share 1 skew_factor depth_mult n side i =
      e.side_budget skew_factor side depth_mult / n := by
    intro i
    rw [share, hblend]
    ring
  intro a ha
  rw [raw_amounts_eq] at ha
  obtain ⟨i, -, rfl⟩ := List.mem_map.mp ha
  rw [stepped_of_no_step hstep, hshare]
  exact le_max_of_le_right h

theorem buy_budget_default (s : ℝ) :
    (⟨default⟩ : DepthEngine).side_budget s "buy" 1 = 500 * clip s (1 / 2) 2 := by
  have hbudget : ((⟨default⟩ : DepthEngine).cfg.total_budget_usd.1 : ℚ) = 1000 := rfl
  rw [side_budget, if_pos rfl, hbudget]
  norm_num

theorem sell_budget_default (s : ℝ) :
    (⟨default⟩ : DepthEngine).side_budget s "sell" 1 = 500 * clip (2 - s) (1 / 2) 2 := by
  have hbudget : ((⟨default⟩ : DepthEngine).cfg.total_budget_usd.1 : ℚ) = 1000 := rfl
  rw [side_budget, if_neg (by decide), hbudget]
  norm_num

theorem min_order_default : (⟨default⟩ : DepthEngine).min_order = 5 := by
  show (((5 : ℚ)) : ℝ) = 5
  norm_num

/-- The outermost of 15 levels of a fully passive side. -/
theorem outermost_default (h : (⟨default⟩ : DepthEngine).side_budget (1 : ℝ) side 1 = 500) :
    (⟨default⟩ : DepthEngine).share 0 1 1 15 side 14 < 5 := by
  have hblend : (⟨default⟩ : DepthEngine).blend 0 = 0 := by
    have hstrength : (((⟨default⟩ : DepthEngine).cfg.curve_strength.1 : ℚ) : ℝ) = 4 := by
      show (((4 : ℚ)) : ℝ) = 4
      norm_num
    rw [blend, clip_eq le_rfl zero_le_one, hstrength]
    norm_num
  rw [share, hblend, h, total_weight]
  norm_num [Finset.sum_range_succ]

/-- **The default configuration above its budget**: where it is fully passive, the outermost of 15
levels has a share of less than 5 USD, and is raised to that. -/
theorem default_above_budget :
    (15 : ℕ) * (⟨default⟩ : DepthEngine).min_order ≤
      (⟨default⟩ : DepthEngine).side_budget (1 : ℝ) "buy" 1 ∧
    ¬((⟨default⟩ : DepthEngine).compute_amounts (0 : ℝ) 15 1 "buy" 0 1).sum ≤
      (⟨default⟩ : DepthEngine).side_budget (1 : ℝ) "buy" 1 := by
  have hbudget : (⟨default⟩ : DepthEngine).side_budget (1 : ℝ) "buy" 1 = 500 := by
    rw [buy_budget_default, clip_eq (by norm_num) (by norm_num), mul_one]
  refine ⟨?_, ?_⟩
  · rw [min_order_default, hbudget]
    norm_num
  · rw [sum_le_iff, raised_le_lowered_iff le_rfl, min_order_default]
    rintro (h | h)
    · exact absurd h (by norm_num)
    · exact h.not_gt (outermost_default hbudget)

end DepthEngine

end Meridian
