import Meridian.Core.PriceGrid
import Meridian.Core.TickAggressiveness
import Meridian.Quant.MinStep

/-!
# Volatility and the grid

`_tick` (`exchange_bot.py:189-238`) from the volatility to the prices, as a whole: where the volatility
goes up no side is more aggressive, a less aggressive side has a flatter curve, no level of a flatter
curve is nearer to the mid, and rounding to ticks keeps the order. No minimal step is set.

Results:
* `sell_levels_mono`, `buy_levels_mono`: the levels of a side, each against the one of a less
  aggressive side;
* `volatility_widens`: the same for the prices of both sides and the volatility.

Out of scope: the rounding of doubles (the rounding of a price to a tick is there).
-/

namespace Meridian.GridMonotone

open PriceGrid SpreadEngine TickAggressiveness

variable {e : SpreadEngine} {tightest widest agg agg' cs : ℝ} {n : ℕ}

/-! ## The levels of a side -/

/-- A less aggressive side has a smaller exponent. -/
theorem gamma_mono (hcs : 0 ≤ cs) (h : agg ≤ agg') : gamma cs agg ≤ gamma cs agg' := by
  refine Real.exp_le_exp.mpr (mul_le_mul_of_nonneg_left ?_ hcs)
  push_cast
  linarith

/-- How far along its curve a level is, on two sides. -/
theorem curve_antitone (hcs : 0 ≤ cs) (h : agg ≤ agg') {t : ℝ} (ht : t ∈ linspace n) :
    t ^ gamma cs agg' ≤ t ^ gamma cs agg := by
  obtain ⟨h0, h1⟩ := mem_linspace ht
  exact Real.rpow_le_rpow_of_exponent_ge' h0 h1 (Real.exp_pos _).le (gamma_mono hcs h)

/-- The levels of a side, each against the one of a less aggressive side. -/
theorem side_levels_forall₂ {R : ℝ → ℝ → Prop} (hcs : 0 ≤ cs) (h : agg ≤ agg')
    (hR : ∀ p p', p' ≤ p →
      R (tightest + (widest - tightest) * p') (tightest + (widest - tightest) * p)) :
    List.Forall₂ R (e.compute_side_levels tightest widest agg' n (some cs))
      (e.compute_side_levels tightest widest agg n (some cs)) := by
  unfold compute_side_levels
  rw [List.forall₂_map_left_iff, List.forall₂_map_right_iff, List.forall₂_same]
  exact fun t ht => hR _ _ (curve_antitone hcs h ht)

theorem sell_levels_mono (hcs : 0 ≤ cs) (h : agg ≤ agg') (hle : tightest ≤ widest) :
    List.Forall₂ (· ≤ ·) (e.compute_side_levels tightest widest agg' n (some cs))
      (e.compute_side_levels tightest widest agg n (some cs)) := by
  refine side_levels_forall₂ hcs h fun p p' hp => ?_
  exact add_le_add le_rfl (mul_le_mul_of_nonneg_left hp (sub_nonneg.mpr hle))

theorem buy_levels_mono (hcs : 0 ≤ cs) (h : agg ≤ agg') (hle : widest ≤ tightest) :
    List.Forall₂ (· ≤ ·) (e.compute_side_levels tightest widest agg n (some cs))
      (e.compute_side_levels tightest widest agg' n (some cs)) := by
  refine (side_levels_forall₂ hcs h fun p p' hp => ?_).flip
  exact add_le_add le_rfl (mul_le_mul_of_nonpos_left hp (sub_nonpos.mpr hle))

/-! ## The prices -/

variable {spread : SpreadConfig} {buy_n sell_n : ℕ} {spread_mult global_mid : ℝ}

theorem tick_prices_mono (hmid : 0 < global_mid) {spreads spreads' : List ℝ}
    (h : List.Forall₂ (· ≤ ·) spreads spreads') :
    List.Forall₂ (· ≤ ·) (spreads.map (tick_price global_mid (tick spread)))
      (spreads'.map (tick_price global_mid (tick spread))) := by
  rw [List.forall₂_map_left_iff, List.forall₂_map_right_iff]
  exact h.imp fun _ _ hle => tick_price_mono hmid hle

/-- **Less aggressive, further out**, on both sides of the grid. -/
theorem prices_of_mono (horder : Ordered spread) (hbuy : spread.buy_min_step.1 = 0)
    (hsell : spread.sell_min_step.1 = 0) (hmid : 0 < global_mid) {a a' : ℝ × ℝ} (h : a ≤ a') :
    List.Forall₂ (· ≤ ·) (prices_of spread buy_n sell_n a.1 a.2 spread_mult global_mid).1
        (prices_of spread buy_n sell_n a'.1 a'.2 spread_mult global_mid).1 ∧
      List.Forall₂ (· ≤ ·) (prices_of spread buy_n sell_n a'.1 a'.2 spread_mult global_mid).2
        (prices_of spread buy_n sell_n a.1 a.2 spread_mult global_mid).2 := by
  have hcs : ∀ c : Within (1 / 2) 10, (0 : ℝ) ≤ ((c.1 : ℚ) : ℝ) :=
    fun c => Rat.cast_nonneg.mpr (le_trans (by norm_num) c.2.1)
  have hnostep : ∀ {step : ℚ}, step = 0 → ¬((step : ℝ) > 0) := by
    rintro step rfl
    norm_num
  unfold prices_of spreads_of compute_levels_huy
  simp only
  rw [if_neg (hnostep hbuy), if_neg (hnostep hsell), if_neg (hnostep hbuy), if_neg (hnostep hsell)]
  exact ⟨tick_prices_mono hmid
      (buy_levels_mono (hcs _) (clip_mono h.1) (horder.buy_order spread_mult).2),
    tick_prices_mono hmid (sell_levels_mono (hcs _) (clip_mono h.2) (horder.sell_order spread_mult).2)⟩

/-- **Higher volatility never tightens quotes**: in every regime and for all settings both values of
the aggressiveness stay in `[0, 1]`, no buy price goes up and no sell price goes down. -/
theorem volatility_widens (volatility : VolatilityConfig) (spread : SpreadConfig)
    (horder : Ordered spread) (hbuy : spread.buy_min_step.1 = 0) (hsell : spread.sell_min_step.1 = 0)
    (zz_regime hmm_regime : String) (hmm_regime_confidence : ℝ) (hconf : 0 ≤ hmm_regime_confidence)
    (spread_mult global_mid : ℝ) (hmid : 0 < global_mid) (v1 v2 : ℝ) (h : v1 ≤ v2) :
    let agg (v : ℝ) := aggressiveness ⟨volatility⟩ v zz_regime hmm_regime hmm_regime_confidence
    let prices_of (buy_n sell_n : ℕ) (v : ℝ) :=
      prices_of spread buy_n sell_n (agg v).1 (agg v).2 spread_mult global_mid
    let prices (depth : DepthConfig) (v : ℝ) :=
      prices spread depth (agg v).1 (agg v).2 spread_mult global_mid
    (∀ v, (0, 0) ≤ agg v ∧ agg v ≤ (1, 1)) ∧
    (∀ buy_n sell_n,
      List.Forall₂ (· ≤ ·) (prices_of buy_n sell_n v2).1 (prices_of buy_n sell_n v1).1 ∧
      List.Forall₂ (· ≤ ·) (prices_of buy_n sell_n v1).2 (prices_of buy_n sell_n v2).2) ∧
    ∀ depth, List.Forall₂ (· ≤ ·) (prices depth v2).1 (prices depth v1).1 ∧
      List.Forall₂ (· ≤ ·) (prices depth v1).2 (prices depth v2).2 := by
  intro agg prices_of prices
  have hagg : agg v2 ≤ agg v1 := aggressiveness_antitone ⟨volatility⟩ zz_regime hmm_regime hconf h
  refine ⟨fun v => aggressiveness_mem ⟨volatility⟩ v zz_regime hmm_regime hmm_regime_confidence,
    fun buy_n sell_n => prices_of_mono horder hbuy hsell hmid hagg,
    fun depth => prices_of_mono horder hbuy hsell hmid hagg⟩

/-- The default configuration, in a calm and in a fast market. -/
theorem volatility_widens_default :
    List.Forall₂ (· ≤ ·)
      (prices_of default 15 15 (aggressiveness ⟨default⟩ (1 : ℝ) "choppy" "NORMAL" 1).1
        (aggressiveness ⟨default⟩ (1 : ℝ) "choppy" "NORMAL" 1).2 1 (1 / 4)).1
      (prices_of default 15 15 (aggressiveness ⟨default⟩ (0 : ℝ) "choppy" "NORMAL" 1).1
        (aggressiveness ⟨default⟩ (0 : ℝ) "choppy" "NORMAL" 1).2 1 (1 / 4)).1 :=
  ((volatility_widens default default ordered_default rfl rfl "choppy" "NORMAL" 1 zero_le_one 1 (1 / 4)
    (by norm_num) 0 1 zero_le_one).2.1 15 15).1

end Meridian.GridMonotone
