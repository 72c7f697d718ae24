import Meridian.Quant.MinStep

/-!
# The minimal profitable spread

Model of `compute_levels` (`spread_engine.py:43-96`): both sides on curves of one aggressiveness, and
where level 0 of both is too near for the maker fees, level 0 of both moved outward. What comes after
level 0 stays where the curve has it. `compute_levels_huy` does nothing of the kind.

Results:
* `widened_outward_iff`: how far level 0 can move;
* `profitable_iff`: when the levels of each of the two pay for the fees and go outward.

Out of scope: the rounding of doubles. A level 0 that is moved outward lands on its bound exactly, where
the code may stop one unit in the last place short of it.
-/

namespace Meridian.SpreadEngine

section Model

variable {K : Type*} [Field K] [LinearOrder K] [MathFunctions K] [ExpFunction K]

/-- `__init__` (`spread_engine.py:36-41`): the fees of both sides and a buffer. -/
def min_profitable_spread_bps (maker_fee_bps : K) : K :=
  maker_fee_bps * ((2 : ℚ) : K) + ((2 : ℚ) : K)

def min_spread_pct (maker_fee_bps : K) : K :=
  min_profitable_spread_bps maker_fee_bps / ((100 : ℚ) : K)

/-- Level 0 of both sides, moved apart to `min_spread_pct`. -/
def widen (min_spread_pct : K) : List K → List K → List K × List K
  | b :: buy, s :: sell =>
    let total_spread_pct := s - b
    if total_spread_pct < min_spread_pct then
      let deficit := min_spread_pct - total_spread_pct
      ((b - deficit / ((2 : ℚ) : K)) :: buy, (s + deficit / ((2 : ℚ) : K)) :: sell)
    else (b :: buy, s :: sell)
  | buy, sell => (buy, sell)

/-- `compute_levels` (`spread_engine.py:43-96`), of an engine that was made with `maker_fee_bps`. -/
def compute_levels (e : SpreadEngine) (maker_fee_bps aggressiveness : K) (n_levels : ℕ)
    (spread_mult : K) : List K × List K :=
  let agg := clip aggressiveness 0 1
  let mult := regime_mult spread_mult
  let buy := e.compute_side_levels (((e.cfg.buy_max_pct.1 : ℚ) : K) * mult)
    (((e.cfg.buy_min_pct.1 : ℚ) : K) * mult) agg n_levels none
  let sell := e.compute_side_levels (((e.cfg.sell_min_pct : ℚ) : K) * mult)
    (((e.cfg.sell_max_pct : ℚ) : K) * mult) agg n_levels none
  if min_profitable_spread_bps maker_fee_bps > 0 then widen (min_spread_pct maker_fee_bps) buy sell
  else (buy, sell)

end Model

/-! ## The property -/

/-- Levels that pay for the fees and go outward: every buy is `min_spread` or more from every sell.
-/
structure Profitable (min_spread : ℝ) (levels : List ℝ × List ℝ) : Prop where
  apart : ∀ b ∈ levels.1, ∀ s ∈ levels.2, min_spread ≤ s - b
  buy : Outward levels.1
  sell : Outward levels.2

/-- How far apart level 0 of both sides is. -/
noncomputable def tightest_spread (cfg : SpreadConfig) (spread_mult : ℝ) : ℝ :=
  ((cfg.sell_min_pct - cfg.buy_max_pct.1 : ℚ) : ℝ) * regime_mult spread_mult

/-- How far along its curve level 1 of `n` is. -/
noncomputable def first_step (gamma : ℝ) (n : ℕ) : ℝ := ((1 : ℕ) / ((n : ℝ) - 1)) ^ gamma

variable {e : SpreadEngine} {tightest widest agg step cs d x : ℝ} {n : ℕ} {levels : List ℝ}

/-! ## Moving level 0 -/

/-- Level 0 and the rest. -/
theorem side_levels_eq_cons (hn : 1 ≤ n) :
    e.compute_side_levels tightest widest agg n (some cs) =
      tightest :: (e.compute_side_levels tightest widest agg n (some cs)).tail := by
  exact (List.cons_head?_tail (head?_side_levels hn)).symm

/-- Level 0 of a side, moved outward by `d`. -/
def Moved (tightest d x : ℝ) : Prop :=
  0 < tightest ∧ x = tightest + d ∨ tightest < 0 ∧ x = tightest - d

theorem Moved.abs (h : Moved tightest d x) (hd : 0 ≤ d) : |x| = |tightest| + d := by
  rcases h with ⟨ht, rfl⟩ | ⟨ht, rfl⟩
  · rw [abs_of_pos ht, abs_of_pos (by linarith)]
  · rw [abs_of_neg ht, abs_of_neg (by linarith)]
    ring

theorem Moved.oneSide (h : Moved tightest d x) (hd : 0 ≤ d) (hlevels : OneSide (tightest :: levels)) :
    OneSide (x :: levels) := by
  simp only [OneSide, List.forall_mem_cons] at hlevels ⊢
  rcases h with ⟨ht, rfl⟩ | ⟨ht, rfl⟩
  · refine .inl ⟨by linarith, (hlevels.resolve_right fun h => ?_).2⟩
    exact absurd h.1 (not_lt.mpr ht.le)
  · refine .inr ⟨by linarith, (hlevels.resolve_left fun h => ?_).2⟩
    exact absurd h.1 (not_lt.mpr ht.le)

/-- **How far level 0 can move**: no further than level 1 is. -/
theorem widened_outward_iff (h : Bounds tightest widest) (hn : 1 ≤ n) (hd : 0 ≤ d)
    (hx : Moved tightest d x) :
    Outward (x :: (e.compute_side_levels tightest widest agg n (some cs)).tail) ↔
      n = 1 ∨ d ≤ |widest - tightest| * first_step (gamma cs agg) n := by
  have hraw : Outward (e.compute_side_levels tightest widest agg n (some cs)) :=
    side_levels_outward h
  have hsecond : ∀ y, (distances
      (e.compute_side_levels tightest widest agg n (some cs)).tail).head? = some y ↔
        1 < n ∧ |tightest| + |widest - tightest| * first_step (gamma cs agg) n = y := by
    intro y
    rw [distances, List.map_tail, List.head?_tail]
    exact getElem?_distances h 1 y
  rw [side_levels_eq_cons hn, outward_iff, Spaced, distances, List.map_cons, List.isChain_cons]
    at hraw
  rw [outward_iff, and_iff_right (hx.oneSide hd hraw.1), Spaced, distances, List.map_cons,
    List.isChain_cons, and_iff_left hraw.2.2, ← distances, hx.abs hd, add_zero]
  constructor
  · intro hfirst
    rcases hn.eq_or_lt with rfl | hlt
    · exact .inl rfl
    · have hle := hfirst _ ((hsecond _).mpr ⟨hlt, rfl⟩)
      exact .inr (by linarith)
  · intro hcases y hy
    obtain ⟨hlt, rfl⟩ := (hsecond y).mp hy
    have hle := hcases.resolve_left hlt.ne'
    linarith

/-! ## Both sides -/

/-- Only level 0 of both sides matters for the fees. -/
theorem apart_iff {b s m : ℝ} {buy sell : List ℝ} (hb : IsGreatest {x | x ∈ buy} b)
    (hs : IsLeast {x | x ∈ sell} s) : (∀ x ∈ buy, ∀ y ∈ sell, m ≤ y - x) ↔ m ≤ s - b := by
  constructor
  · exact fun h => h b hb.1 s hs.1
  · intro h x hx y hy
    have hxb : x ≤ b := hb.2 hx
    have hsy : s ≤ y := hs.2 hy
    linarith

theorem Outward.isGreatest {b : ℝ} {buy : List ℝ} (h : Outward (b :: buy)) (hb : b < 0) :
    IsGreatest {x | x ∈ b :: buy} b := by
  have hsorted := (h.resolve_left fun h => absurd hb (not_lt.mpr (h.1 b List.mem_cons_self).le)).2
  exact ⟨List.mem_cons_self, List.forall_mem_cons.mpr ⟨le_rfl, (List.pairwise_cons.mp hsorted).1⟩⟩

theorem Outward.isLeast {s : ℝ} {sell : List ℝ} (h : Outward (s :: sell)) (hs : 0 < s) :
    IsLeast {x | x ∈ s :: sell} s := by
  have hsorted := (h.resolve_right fun h => absurd hs (not_lt.mpr (h.1 s List.mem_cons_self).le)).2
  exact ⟨List.mem_cons_self, List.forall_mem_cons.mpr ⟨le_rfl, (List.pairwise_cons.mp hsorted).1⟩⟩

theorem profitable_cons_iff {b s m : ℝ} {buy sell : List ℝ} (hb : b < 0) (hs : 0 < s) :
    Profitable m (b :: buy, s :: sell) ↔
      m ≤ s - b ∧ Outward (b :: buy) ∧ Outward (s :: sell) := by
  constructor
  · exact fun h => ⟨(apart_iff (h.buy.isGreatest hb) (h.sell.isLeast hs)).mp h.apart, h.buy, h.sell⟩
  · rintro ⟨happart, hbuy, hsell⟩
    exact ⟨(apart_iff (hbuy.isGreatest hb) (hsell.isLeast hs)).mpr happart, hbuy, hsell⟩

/-- **When `widen` pays for the fees in order**: level 0 is far enough out to begin with, or is the
only level, or level 1 of both sides is as far out as level 0 has to be. -/
theorem widen_profitable_iff {b s buy_widest sell_widest m : ℝ} (hbuy : Bounds b buy_widest)
    (hb : b < 0) (hsell : Bounds s sell_widest) (hs : 0 < s) (hn : 1 ≤ n) :
    Profitable m (widen m (e.compute_side_levels b buy_widest agg n (some cs))
        (e.compute_side_levels s sell_widest agg n (some cs))) ↔
      m ≤ s - b ∨ n = 1 ∨
        (m - (s - b)) / ((2 : ℚ) : ℝ) ≤ |buy_widest - b| * first_step (gamma cs agg) n ∧
        (m - (s - b)) / ((2 : ℚ) : ℝ) ≤ |sell_widest - s| * first_step (gamma cs agg) n := by
  have hbuys : Outward (e.compute_side_levels b buy_widest agg n (some cs)) :=
    side_levels_outward hbuy
  have hsells : Outward (e.compute_side_levels s sell_widest agg n (some cs)) :=
    side_levels_outward hsell
  rw [side_levels_eq_cons hn] at hbuys hsells
  rw [congrArg₂ (widen m) (side_levels_eq_cons hn) (side_levels_eq_cons hn), widen]
  rcases le_or_gt m (s - b) with hle | hlt
  · rw [if_neg (not_lt.mpr hle), profitable_cons_iff hb hs]
    exact iff_of_true ⟨hle, hbuys, hsells⟩ (.inl hle)
  · have hdeficit : 0 ≤ (m - (s - b)) / ((2 : ℚ) : ℝ) :=
      div_nonneg (sub_pos.mpr hlt).le (by norm_num)
    have happart : m ≤ s + (m - (s - b)) / ((2 : ℚ) : ℝ) - (b - (m - (s - b)) / ((2 : ℚ) : ℝ)) := by
      push_cast
      linarith
    rw [if_pos hlt, profitable_cons_iff (by linarith) (by linarith), and_iff_right happart,
      widened_outward_iff hbuy hn hdeficit (.inr ⟨hb, rfl⟩),
      widened_outward_iff hsell hn hdeficit (.inl ⟨hs, rfl⟩), ← or_and_left,
      or_iff_right (not_le.mpr hlt)]

theorem tightest_spread_eq (cfg : SpreadConfig) (spread_mult : ℝ) :
    ((cfg.sell_min_pct : ℚ) : ℝ) * regime_mult spread_mult -
      (cfg.buy_max_pct.1 : ℚ) * regime_mult spread_mult = tightest_spread cfg spread_mult := by
  rw [tightest_spread]
  push_cast
  ring

variable {fee : ℝ}

theorem compute_levels_eq (e : SpreadEngine) (hfee : 0 ≤ fee) (aggressiveness : ℝ) (n : ℕ)
    (spread_mult : ℝ) :
    e.compute_levels fee aggressiveness n spread_mult = widen (min_spread_pct fee)
      (e.compute_side_levels ((e.cfg.buy_max_pct.1 : ℚ) * regime_mult spread_mult)
        ((e.cfg.buy_min_pct.1 : ℚ) * regime_mult spread_mult) (clip aggressiveness 0 1) n
        (some (e.cfg.curve_strength.1 : ℚ)))
      (e.compute_side_levels ((e.cfg.sell_min_pct : ℚ) * regime_mult spread_mult)
        ((e.cfg.sell_max_pct : ℚ) * regime_mult spread_mult) (clip aggressiveness 0 1) n
        (some (e.cfg.curve_strength.1 : ℚ))) := by
  have hbps : min_profitable_spread_bps fee > 0 := by
    unfold min_profitable_spread_bps
    push_cast
    linarith
  exact if_pos hbps

/-- Level 0 of a side with a step is the nearest to the mid. -/
theorem huy_apart_iff (e : SpreadEngine) (h : Ordered e.cfg) (m buy_agg sell_agg : ℝ)
    {buy_levels sell_levels : ℕ} (hbuy_levels : 1 ≤ buy_levels) (hsell_levels : 1 ≤ sell_levels)
    (buy_curve_strength sell_curve_strength buy_min_step sell_min_step spread_mult : ℝ) :
    (∀ b ∈ (e.compute_levels_huy buy_agg sell_agg buy_levels sell_levels buy_curve_strength
        sell_curve_strength buy_min_step sell_min_step spread_mult).1,
      ∀ s ∈ (e.compute_levels_huy buy_agg sell_agg buy_levels sell_levels buy_curve_strength
        sell_curve_strength buy_min_step sell_min_step spread_mult).2, m ≤ s - b) ↔
      m ≤ tightest_spread e.cfg spread_mult := by
  rw [← tightest_spread_eq]
  obtain ⟨hb, hbuy⟩ := h.buy_order spread_mult
  obtain ⟨hs, hsell⟩ := h.sell_order spread_mult
  have hmax := max_eq_left hbuy
  have hmin := min_eq_left hsell
  refine apart_iff ⟨tightest_mem_side hbuy_levels, fun s hmem => ?_⟩
    ⟨tightest_mem_side hsell_levels, fun s hmem => ?_⟩
  · exact (side_le (hmax.trans_le hb.le) s hmem).trans_eq hmax
  · exact hmin.symm.trans_le (le_side (hs.trans_eq hmin.symm) s hmem)

/-- The levels of `compute_levels`. -/
theorem compute_levels_profitable_iff (e : SpreadEngine) (h : Ordered e.cfg) (hfee : 0 ≤ fee)
    (spread_mult aggressiveness : ℝ) (hn : 1 ≤ n) :
    Profitable (min_spread_pct fee) (e.compute_levels fee aggressiveness n spread_mult) ↔
      min_spread_pct fee ≤ tightest_spread e.cfg spread_mult ∨ n = 1 ∨
        ∀ width ∈ [buy_width e.cfg spread_mult, sell_width e.cfg spread_mult],
          (min_spread_pct fee - tightest_spread e.cfg spread_mult) / (2 : ℚ) ≤
            width * first_step (gamma (e.cfg.curve_strength.1 : ℚ) (clip aggressiveness 0 1)) n := by
  obtain ⟨hbuy, hbuy_width⟩ := h.buy_bounds spread_mult
  obtain ⟨hsell, hsell_width⟩ := h.sell_bounds spread_mult
  rw [compute_levels_eq e hfee, widen_profitable_iff hbuy (h.buy_order spread_mult).1 hsell
    (h.sell_order spread_mult).1 hn, tightest_spread_eq, hbuy_width, hsell_width,
    List.forall_mem_cons, List.forall_mem_singleton]

/-- **When the quotes pay for the fees in order.** The levels of `compute_levels`: level 0 is far
enough out to begin with, or is the only level, or level 1 of both sides is as far out as level 0 has
to be moved. The levels of `compute_levels_huy`: level 0 is far enough out, and each side has no step
or a curve with room for it. -/
theorem profitable_iff (e : SpreadEngine) (h : Ordered e.cfg) (maker_fee_bps : ℝ)
    (hfee : 0 ≤ maker_fee_bps) (spread_mult aggressiveness : ℝ) (n_levels : ℕ) (hn : 1 ≤ n_levels)
    (buy_agg sell_agg : ℝ) (buy_levels sell_levels : ℕ) (hbuy_levels : 1 ≤ buy_levels)
    (hsell_levels : 1 ≤ sell_levels)
    (buy_curve_strength sell_curve_strength buy_min_step sell_min_step : ℝ) :
    (Profitable (min_spread_pct maker_fee_bps)
        (e.compute_levels maker_fee_bps aggressiveness n_levels spread_mult) ↔
      min_spread_pct maker_fee_bps ≤ tightest_spread e.cfg spread_mult ∨ n_levels = 1 ∨
        ∀ width ∈ [buy_width e.cfg spread_mult, sell_width e.cfg spread_mult],
          (min_spread_pct maker_fee_bps - tightest_spread e.cfg spread_mult) / (2 : ℚ) ≤
            width * first_step (gamma (e.cfg.curve_strength.1 : ℚ) (clip aggressiveness 0 1))
              n_levels) ∧
    (Profitable (min_spread_pct maker_fee_bps)
        (e.compute_levels_huy buy_agg sell_agg buy_levels sell_levels buy_curve_strength
          sell_curve_strength buy_min_step sell_min_step spread_mult) ↔
      min_spread_pct maker_fee_bps ≤ tightest_spread e.cfg spread_mult ∧
      (buy_min_step ≤ 0 ∨ CurveRoom buy_min_step (buy_width e.cfg spread_mult)
        (gamma buy_curve_strength (clip buy_agg 0 1)) buy_levels) ∧
      (sell_min_step ≤ 0 ∨ CurveRoom sell_min_step (sell_width e.cfg spread_mult)
        (gamma sell_curve_strength (clip sell_agg 0 1)) sell_levels)) := by
  refine ⟨compute_levels_profitable_iff e h hfee spread_mult aggressiveness hn, ?_⟩
  have happart := huy_apart_iff e h (min_spread_pct maker_fee_bps) buy_agg sell_agg hbuy_levels
    hsell_levels buy_curve_strength sell_curve_strength buy_min_step sell_min_step spread_mult
  obtain ⟨hbuy_out, hsell_out⟩ := huy_outward_iff e h buy_agg sell_agg buy_levels sell_levels
    buy_curve_strength sell_curve_strength buy_min_step sell_min_step spread_mult
  rw [← happart, ← hbuy_out, ← hsell_out]
  exact ⟨fun h => ⟨h.apart, h.buy, h.sell⟩, fun h => ⟨h.1, h.2.1, h.2.2⟩⟩

theorem tightest_spread_default : tightest_spread default 1 = 2 / 5 := by
  have hmult : regime_mult (1 : ℝ) = 1 := max_eq_right (by norm_num)
  have hpct : (default : SpreadConfig).sell_min_pct - (default : SpreadConfig).buy_max_pct.1 =
      2 / 5 := by decide +kernel
  rw [tightest_spread, hmult, hpct]
  norm_num

/-- The default configuration and fees of 0.1%. -/
theorem profitable_default :
    Profitable (min_spread_pct 10) (compute_levels_huy ⟨default⟩ 1 1 15 15 4 4 0 0 (1 : ℝ)) := by
  have hpays : min_spread_pct (10 : ℝ) ≤ tightest_spread default 1 := by
    rw [tightest_spread_default, min_spread_pct, min_profitable_spread_bps]
    norm_num
  exact (profitable_iff ⟨default⟩ ordered_default 10 (by norm_num) 1 1 15 (by norm_num) 1 1 15 15
    (by norm_num) (by norm_num) 4 4 0 0).2.mpr ⟨hpays, .inl le_rfl, .inl le_rfl⟩

/-- At the highest aggressiveness level 1 of 15 is hardly further out than level 0. -/
theorem first_step_le : first_step (gamma ((4 : ℚ) : ℝ) (clip 1 0 1)) 15 ≤ (1 / 14) ^ (5 : ℕ) := by
  have hgamma : (5 : ℝ) ≤ gamma ((4 : ℚ) : ℝ) (clip 1 0 1) := by
    have hclip : clip (1 : ℝ) 0 1 = 1 := by
      rw [clip, min_self, max_eq_right zero_le_one]
    have harg : ((4 : ℚ) : ℝ) * (((2 : ℚ) : ℝ) * 1 - 1) = 4 := by norm_num
    rw [hclip, gamma, harg]
    have hexp : (4 : ℝ) + 1 ≤ Real.exp 4 := Real.add_one_le_exp 4
    exact le_trans (by norm_num) hexp
  have hbase : ((1 : ℕ) : ℝ) / (((15 : ℕ) : ℝ) - 1) = 1 / 14 := by norm_num
  rw [first_step, hbase, ← Real.rpow_natCast]
  exact Real.rpow_le_rpow_of_exponent_ge (by norm_num) (by norm_num) (by exact_mod_cast hgamma)

/-- **Fees of 0.2%** with the default configuration: `compute_levels` moves level 0 beyond level 1, and
`compute_levels_huy` quotes 0.4% apart where 0.42% are needed. -/
theorem unprofitable_default :
    ¬Profitable (min_spread_pct 20) (compute_levels ⟨default⟩ 20 1 15 (1 : ℝ)) ∧
    ¬Profitable (min_spread_pct 20) (compute_levels_huy ⟨default⟩ 1 1 15 15 4 4 0 0 (1 : ℝ)) := by
  have hpct : min_spread_pct (20 : ℝ) = 21 / 50 := by
    rw [min_spread_pct, min_profitable_spread_bps]
    norm_num
  constructor
  · rw [compute_levels_profitable_iff ⟨default⟩ ordered_default (by norm_num) 1 1 (by norm_num), hpct,
      tightest_spread_default]
    rintro (h | h | h)
    · norm_num at h
    · norm_num at h
    · have hsell := h (sell_width default 1) (by simp)
      have hwidth : sell_width default 1 = 67 / 10 := by
        have hpct : (default : SpreadConfig).sell_max_pct - (default : SpreadConfig).sell_min_pct =
            67 / 10 := by decide +kernel
        rw [sell_width, regime_mult, max_eq_right (by norm_num), hpct]
        norm_num
      have hstep : (67 / 10 : ℝ) * first_step (gamma ((4 : ℚ) : ℝ) (clip 1 0 1)) 15 ≤
          67 / 10 * (1 / 14) ^ (5 : ℕ) := mul_le_mul_of_nonneg_left first_step_le (by norm_num)
      rw [hwidth] at hsell
      have hle := hsell.trans hstep
      norm_num at hle
  · intro h
    have hle := (huy_apart_iff ⟨default⟩ ordered_default _ 1 1 (by norm_num) (by norm_num) 4 4 0 0 1).mp
      h.apart
    rw [hpct, tightest_spread_default] at hle
    norm_num at hle

end Meridian.SpreadEngine
