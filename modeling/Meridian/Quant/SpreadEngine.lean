import Mathlib.Algebra.Order.Field.Basic
import Mathlib.Order.Bounds.Basic
import Mathlib.Tactic.Linarith
import Mathlib.Tactic.Positivity
import Meridian.Config.Schema
import Meridian.Utils.RealFunctions

/-!
# From aggressiveness to spreads

Model of `quant/spread_engine.py`: the levels of each side on a power curve between two bounds
(`compute_side_levels`), pushed apart where a minimal step is set (`enforce_min_step`), and both sides
with their own settings (`compute_levels_huy`). Level 0 is at the first bound.

* `isGreatest_side`, `isLeast_side`: the level nearest to the mid is at the nearer bound, where no step
  is set or the first bound is that one;
* `side_le`, `le_side`, `sub_le_side`: how near the levels come wherever the bounds are.

Out of scope: rounding of doubles; a percentage is a number of an ordered field, and a real number in
the results.
-/

namespace Meridian

/-- `SpreadEngine` (`spread_engine.py:36-41`), what the levels depend on. -/
structure SpreadEngine where
  cfg : SpreadConfig
  deriving DecidableEq

namespace SpreadEngine

section Model

variable {K : Type*} [Field K] [LinearOrder K] [MathFunctions K] [ExpFunction K]

/-- `_compute_side_levels` (`spread_engine.py:98-127`). -/
def compute_side_levels (e : SpreadEngine) (tightest widest agg : K) (n : ℕ)
    (curve_strength : Option K) : List K :=
  let cs := curve_strength.getD ((e.cfg.curve_strength.1 : ℚ) : K)
  let gamma := ExpFunction.exp (cs * (((2 : ℚ) : K) * agg - 1))
  (linspace n).map fun t => tightest + (widest - tightest) * MathFunctions.pow t gamma

/-- The loop of `enforce_min_step`: the levels after `prev`, each from the one before. -/
def step_outward (min_step : K) : K → List K → List K
  | _, [] => []
  | prev, level :: levels =>
    let min_required := if prev > 0 then prev + min_step else prev - min_step
    let level := if |level - prev| < min_step then min_required else level
    level :: step_outward min_step level levels

/-- `enforce_min_step` (`spread_engine.py:178-197`). -/
def enforce_min_step (levels : List K) (min_step : K) : List K :=
  if min_step ≤ 0 ∨ levels.length < 2 then levels
  else
    match levels with
    | [] => []
    | level :: levels => level :: step_outward min_step level levels

/-- The regime multiplier, at least 0.1. -/
def regime_mult (spread_mult : K) : K := max ((1 / 10 : ℚ) : K) spread_mult

/-- `compute_levels_huy` (`spread_engine.py:199-248`). -/
def compute_levels_huy (e : SpreadEngine) (buy_agg sell_agg : K) (buy_levels sell_levels : ℕ)
    (buy_curve_strength sell_curve_strength buy_min_step sell_min_step spread_mult : K) :
    List K × List K :=
  let mult := regime_mult spread_mult
  let buy := e.compute_side_levels (((e.cfg.buy_max_pct.1 : ℚ) : K) * mult)
    (((e.cfg.buy_min_pct.1 : ℚ) : K) * mult) (clip buy_agg 0 1) buy_levels (some buy_curve_strength)
  let sell := e.compute_side_levels (((e.cfg.sell_min_pct : ℚ) : K) * mult)
    (((e.cfg.sell_max_pct : ℚ) : K) * mult) (clip sell_agg 0 1) sell_levels
    (some sell_curve_strength)
  (if buy_min_step > 0 then enforce_min_step buy buy_min_step else buy,
    if sell_min_step > 0 then enforce_min_step sell sell_min_step else sell)

/-- `compute_levels_dual` (`spread_engine.py:129-152`). -/
def compute_levels_dual (e : SpreadEngine) (buy_aggressiveness sell_aggressiveness : K)
    (n_levels : ℕ) : List K × List K :=
  (e.compute_side_levels ((e.cfg.buy_max_pct.1 : ℚ) : K) ((e.cfg.buy_min_pct.1 : ℚ) : K)
      (clip buy_aggressiveness 0 1) n_levels none,
    e.compute_side_levels ((e.cfg.sell_min_pct : ℚ) : K) ((e.cfg.sell_max_pct : ℚ) : K)
      (clip sell_aggressiveness 0 1) n_levels none)

/-- `prices_from_spreads` (`spread_engine.py:154-173`), one side. -/
def prices_from_spreads (global_mid : K) (spreads : List K) : List K :=
  spreads.map fun s => global_mid * (1 + s / ((100 : ℚ) : K))

end Model

/-! ## Minimal steps -/

section Steps

variable {K : Type*} [Field K] [LinearOrder K] {step prev : K} {levels : List K} {p : K → Prop}

/-- What a push keeps holds of all levels that are pushed. -/
theorem step_outward_keeps
    (hpush : ∀ prev, p prev → p (if prev > 0 then prev + step else prev - step)) (hprev : p prev)
    (h : ∀ l ∈ levels, p l) : ∀ l ∈ step_outward step prev levels, p l := by
  induction levels generalizing prev with
  | nil => exact fun l hl => absurd hl List.not_mem_nil
  | cons level levels ih =>
    have hlevel : p (if |level - prev| < step then
        (if prev > 0 then prev + step else prev - step) else level) := by
      split
      · exact hpush prev hprev
      · exact h level List.mem_cons_self
    intro l hl
    rcases List.mem_cons.mp hl with rfl | hl
    · exact hlevel
    · exact ih hlevel (fun l hl => h l (List.mem_cons_of_mem _ hl)) l hl

theorem enforce_min_step_keeps
    (hpush : ∀ prev, p prev → p (if prev > 0 then prev + step else prev - step))
    (h : ∀ l ∈ levels, p l) : ∀ l ∈ enforce_min_step levels step, p l := by
  unfold enforce_min_step
  split
  · exact h
  · cases levels with
    | nil => exact h
    | cons level levels =>
      have hlevel := h level List.mem_cons_self
      intro l hl
      rcases List.mem_cons.mp hl with rfl | hl
      · exact hlevel
      · exact step_outward_keeps hpush hlevel (fun l hl => h l (List.mem_cons_of_mem _ hl)) l hl

theorem length_step_outward (step prev : K) (levels : List K) :
    (step_outward step prev levels).length = levels.length := by
  induction levels generalizing prev with
  | nil => rfl
  | cons level levels ih =>
    rw [step_outward, List.length_cons, List.length_cons, ih]

theorem length_enforce_min_step (levels : List K) (step : K) :
    (enforce_min_step levels step).length = levels.length := by
  unfold enforce_min_step
  split
  · rfl
  · cases levels with
    | nil => rfl
    | cons level levels => exact congrArg (· + 1) (length_step_outward step level levels)

/-- Level 0 stays. -/
theorem head?_enforce_min_step (levels : List K) (step : K) :
    (enforce_min_step levels step).head? = levels.head? := by
  unfold enforce_min_step
  split
  · rfl
  · cases levels <;> rfl

variable [IsStrictOrderedRing K] {B : K}

/-- Levels below the mid are pushed down. -/
theorem enforce_min_step_le (hB : B ≤ 0) (hstep : 0 ≤ step) (h : ∀ l ∈ levels, l ≤ B) :
    ∀ l ∈ enforce_min_step levels step, l ≤ B := by
  refine enforce_min_step_keeps (fun prev hprev => ?_) h
  rw [if_neg (not_lt.mpr (hprev.trans hB))]
  linarith

/-- Levels above the mid are pushed up. -/
theorem le_enforce_min_step (hB : 0 < B) (hstep : 0 ≤ step) (h : ∀ l ∈ levels, B ≤ l) :
    ∀ l ∈ enforce_min_step levels step, B ≤ l := by
  refine enforce_min_step_keeps (fun prev hprev => ?_) h
  rw [if_pos (hB.trans_le hprev)]
  linarith

/-- A push takes a level down by no more than a step, wherever it is. -/
theorem sub_le_step_outward (hstep : 0 ≤ step) {k : ℕ} (hprev : B - k * step ≤ prev)
    (h : ∀ l ∈ levels, B ≤ l) :
    ∀ l ∈ step_outward step prev levels, B - (k + levels.length : ℕ) * step ≤ l := by
  induction levels generalizing prev k with
  | nil => exact fun l hl => absurd hl List.not_mem_nil
  | cons level levels ih =>
    have hlevel : B - (k + 1 : ℕ) * step ≤ if |level - prev| < step then
        (if prev > 0 then prev + step else prev - step) else level := by
      have hk : 0 ≤ (k : K) * step := mul_nonneg (Nat.cast_nonneg k) hstep
      have hraw : B ≤ level := h level List.mem_cons_self
      push_cast
      split_ifs <;> linarith
    intro l hl
    rcases List.mem_cons.mp hl with rfl | hl
    · refine le_trans ?_ hlevel
      gcongr
      rw [List.length_cons]
      omega
    · refine (le_of_eq ?_).trans (ih hlevel (fun l hl => h l (List.mem_cons_of_mem _ hl)) l hl)
      rw [List.length_cons, Nat.add_right_comm, Nat.add_assoc k]

/-- So `n` levels keep within `n - 1` steps. -/
theorem sub_le_enforce_min_step (hstep : 0 ≤ step) (h : ∀ l ∈ levels, B ≤ l) :
    ∀ l ∈ enforce_min_step levels step, B - (levels.length - 1 : ℕ) * step ≤ l := by
  have hraw : ∀ l ∈ levels, B - (levels.length - 1 : ℕ) * step ≤ l := fun l hl =>
    (sub_le_self B (mul_nonneg (Nat.cast_nonneg _) hstep)).trans (h l hl)
  unfold enforce_min_step
  split
  · exact hraw
  · cases levels with
    | nil => exact hraw
    | cons level levels =>
      obtain ⟨hlevel, hlevels⟩ := List.forall_mem_cons.mp h
      refine List.forall_mem_cons.mpr ⟨hraw level List.mem_cons_self, ?_⟩
      have hrest := sub_le_step_outward hstep (k := 0) (by simpa using hlevel) hlevels
      rwa [Nat.zero_add] at hrest

end Steps

/-! ## The power curve -/

variable {e : SpreadEngine} {tightest widest agg step s : ℝ} {n : ℕ} {cs : Option ℝ}

theorem between_bounds {p : ℝ} (h0 : 0 ≤ p) (h1 : p ≤ 1) :
    min tightest widest ≤ tightest + (widest - tightest) * p ∧
      tightest + (widest - tightest) * p ≤ max tightest widest := by
  rcases le_total tightest widest with hle | hle
  · rw [min_eq_left hle, max_eq_right hle]
    constructor <;> nlinarith only [h0, h1, hle]
  · rw [min_eq_right hle, max_eq_left hle]
    constructor <;> nlinarith only [h0, h1, hle]

/-- A level lies between the two bounds. -/
theorem mem_side_levels (h : s ∈ e.compute_side_levels tightest widest agg n cs) :
    min tightest widest ≤ s ∧ s ≤ max tightest widest := by
  obtain ⟨t, ht, rfl⟩ := List.mem_map.mp h
  obtain ⟨h0, h1⟩ := mem_linspace ht
  exact between_bounds (Real.rpow_nonneg h0 _) (Real.rpow_le_one h0 h1 (Real.exp_pos _).le)

/-- Level 0 is at the first bound. -/
theorem head?_side_levels (hn : 0 < n) :
    (e.compute_side_levels tightest widest agg n cs).head? = some tightest := by
  have hpow : (0 : ℝ) ^ ExpFunction.exp
      (cs.getD e.cfg.curve_strength.1 * (((2 : ℚ) : ℝ) * agg - 1)) = 0 :=
    Real.zero_rpow (Real.exp_pos _).ne'
  rw [compute_side_levels, List.head?_map, head?_linspace hn, Option.map_some]
  show some (tightest + (widest - tightest) * 0 ^ _) = _
  rw [hpow, mul_zero, add_zero]

/-- The last level is at the second. -/
theorem widest_mem_side_levels (hn : 2 ≤ n) :
    widest ∈ e.compute_side_levels tightest widest agg n cs := by
  refine List.mem_map.mpr ⟨1, one_mem_linspace hn, ?_⟩
  show tightest + (widest - tightest) * 1 ^ _ = _
  rw [Real.one_rpow, mul_one, add_sub_cancel]

theorem regime_mult_pos (spread_mult : ℝ) : 0 < regime_mult spread_mult :=
  lt_of_lt_of_le (by norm_num) (le_max_left _ _)

/-! ## The level nearest to the mid -/

/-- The levels of a side, a step enforced where one is set. -/
noncomputable def side (e : SpreadEngine) (tightest widest agg : ℝ) (n : ℕ) (cs : Option ℝ)
    (step : ℝ) : List ℝ :=
  let levels := e.compute_side_levels tightest widest agg n cs
  if step > 0 then enforce_min_step levels step else levels

theorem length_side_levels : (e.compute_side_levels tightest widest agg n cs).length = n := by
  rw [compute_side_levels, linspace, List.length_map, List.length_map, List.length_range]

theorem length_side : (e.side tightest widest agg n cs step).length = n := by
  have hraw : (e.compute_side_levels tightest widest agg n cs).length = n := length_side_levels
  unfold side
  simp only
  split
  · rw [length_enforce_min_step, hraw]
  · exact hraw

theorem tightest_mem_side (hn : 0 < n) : tightest ∈ e.side tightest widest agg n cs step := by
  refine List.mem_of_head? ?_
  unfold side
  simp only
  split
  · rw [head?_enforce_min_step]
    exact head?_side_levels hn
  · exact head?_side_levels hn

/-- On a side below the mid no level is above both bounds. -/
theorem side_le (h : max tightest widest ≤ 0) :
    ∀ s ∈ e.side tightest widest agg n cs step, s ≤ max tightest widest := by
  have hraw : ∀ l ∈ e.compute_side_levels tightest widest agg n cs, l ≤ max tightest widest :=
    fun l hl => (mem_side_levels hl).2
  unfold side
  simp only
  split
  · rename_i hstep
    exact enforce_min_step_le h hstep.le hraw
  · exact hraw

/-- On a side above the mid no level is below both. -/
theorem le_side (h : 0 < min tightest widest) :
    ∀ s ∈ e.side tightest widest agg n cs step, min tightest widest ≤ s := by
  have hraw : ∀ l ∈ e.compute_side_levels tightest widest agg n cs, min tightest widest ≤ l :=
    fun l hl => (mem_side_levels hl).1
  unfold side
  simp only
  split
  · rename_i hstep
    exact le_enforce_min_step h hstep.le hraw
  · exact hraw

/-- Wherever the bounds are, no level is below both by more than the steps of all levels. -/
theorem sub_le_side (hstep : 0 ≤ step) :
    ∀ s ∈ e.side tightest widest agg n cs step, min tightest widest - (n - 1 : ℕ) * step ≤ s := by
  have hraw : ∀ l ∈ e.compute_side_levels tightest widest agg n cs, min tightest widest ≤ l :=
    fun l hl => (mem_side_levels hl).1
  unfold side
  simp only
  split
  · have hlength : (e.compute_side_levels tightest widest agg n cs).length = n := length_side_levels
    have hall := sub_le_enforce_min_step hstep hraw
    rwa [hlength] at hall
  · exact fun s hs =>
      (sub_le_self _ (mul_nonneg (Nat.cast_nonneg _) hstep)).trans (hraw s hs)

/-- Where no step is set, or the first bound is the nearer one. -/
theorem isGreatest_side (hn : 2 ≤ n) (ht : tightest ≤ 0) (h : step ≤ 0 ∨ widest ≤ tightest) :
    IsGreatest {s | s ∈ e.side tightest widest agg n cs step} (max tightest widest) := by
  by_cases hstep : step > 0
  · have hle : widest ≤ tightest := h.resolve_left (not_le.mpr hstep)
    have hmax : max tightest widest = tightest := max_eq_left hle
    refine ⟨?_, side_le (hmax.trans_le ht)⟩
    rw [hmax]
    exact tightest_mem_side (by omega)
  · rw [side, if_neg hstep]
    refine ⟨?_, fun s hs => (mem_side_levels hs).2⟩
    rcases le_total tightest widest with hle | hle
    · rw [max_eq_right hle]
      exact widest_mem_side_levels hn
    · rw [max_eq_left hle]
      exact List.mem_of_head? (head?_side_levels (by omega))

theorem isLeast_side (hn : 2 ≤ n) (h : step ≤ 0 ∨ 0 < tightest ∧ tightest ≤ widest) :
    IsLeast {s | s ∈ e.side tightest widest agg n cs step} (min tightest widest) := by
  by_cases hstep : step > 0
  · obtain ⟨ht, hle⟩ := h.resolve_left (not_le.mpr hstep)
    have hmin : min tightest widest = tightest := min_eq_left hle
    refine ⟨?_, le_side (ht.trans_eq hmin.symm)⟩
    rw [hmin]
    exact tightest_mem_side (by omega)
  · rw [side, if_neg hstep]
    refine ⟨?_, fun s hs => (mem_side_levels hs).1⟩
    rcases le_total tightest widest with hle | hle
    · rw [min_eq_left hle]
      exact List.mem_of_head? (head?_side_levels (by omega))
    · rw [min_eq_right hle]
      exact widest_mem_side_levels hn

end SpreadEngine

end Meridian
