import Meridian.Core.Feeds
import Meridian.Core.InventoryTracker
import Meridian.Core.PriceGrid
import Meridian.Core.TickAggressiveness
import Meridian.Quant.DepthEngine

/-!
# The grid of a tick

Steps 4 and 5 of `_tick` (`exchange_bot.py:182-280`) as a whole: from the market, the parameters of the
regime in effect and the inventory to the orders that are handed to `diff_and_repost`. In a crash both
sides are scaled once more, after the depth engine and its minimal order.

Results:
* `within_total_iff`: when the amounts of both sides stay within `total_budget_usd`;
* `min_order_kept_iff`: when no order of the grid is below `min_order_usd`.

Out of scope: the rounding of doubles (prices, budgets and amounts are exact reals; the rounding of a
price to a tick is there).
-/

namespace Meridian.TickGrid

open DepthEngine Feeds TickAggressiveness

/-- `GlobalState` (`orchestrator.py:53-64`), what the grid is made of. -/
structure GlobalState (K : Type*) where
  global_mid : K
  volatility : K
  zz_regime : String
  hmm_regime : String
  hmm_regime_confidence : K
  regime_state : Option RegimeState

/-- `OrderGrid` (`order_manager.py`). -/
@[ext] structure OrderGrid (K : Type*) where
  buy_prices : List K
  buy_amounts : List K
  sell_prices : List K
  sell_amounts : List K
  global_mid : K
  aggressiveness : K

/-- The skew of step 4 (`exchange_bot.py:182-187`). -/
def skew (inventory : InventoryTracker) (mm_params : MmParams) : ℚ :=
  let skew := inventory.skew_factor
  if mm_params.inventory_skew ≠ 0 then max (1 / 2) (min 2 (skew + mm_params.inventory_skew))
  else skew

section Model

variable {K : Type*} [Field K] [LinearOrder K]

/-- The crash multipliers (`exchange_bot.py:252-262`). -/
def crash_depth_override (hmm_cfg : HMMConfig) (hmm_regime : String) (usd_amounts : List K × List K) :
    List K × List K :=
  if hmm_regime = "HIGH_VOL_CRASH" then
    (usd_amounts.1.map (· * ((hmm_cfg.crash_buy_depth_multiplier.1 : ℚ) : K)),
      usd_amounts.2.map (· * ((hmm_cfg.crash_sell_depth_factor.1 : ℚ) : K)))
  else usd_amounts

/-- The token amounts of a side. -/
def token_amounts (usd_amounts prices : List K) : List K :=
  List.zipWith usd_to_token_amount usd_amounts prices

variable [MathFunctions K]

/-- The USD amounts of both sides (`exchange_bot.py:240-250`). -/
def usd_amounts (depth : DepthConfig) (buy_agg sell_agg : K) (buy_n sell_n : ℕ) (skew depth_mult : K) :
    List K × List K :=
  let min_step_usd : K := ((depth.min_step_usd.1 : ℚ) : K)
  (compute_amounts ⟨depth⟩ buy_agg buy_n skew "buy" min_step_usd depth_mult,
    compute_amounts ⟨depth⟩ sell_agg sell_n skew "sell" min_step_usd depth_mult)

variable [FloorRing K] [ExpFunction K]

/-- The grid for an aggressiveness of both sides (`exchange_bot.py:207-280`). -/
def grid_at (config : ExchangeBotConfig) (agg_model : AggressivenessModel) (mm_params : MmParams)
    (skew : K) (state : GlobalState K) (agg : K × K) : OrderGrid K :=
  let spread_mult : K := (mm_params.spread_mult : K)
  let depth_mult : K := (mm_params.depth_mult : K)
  let buy_n := (config.spread.buy_levels.getD config.depth.levels).1
  let sell_n := (config.spread.sell_levels.getD config.depth.levels).1
  let prices :=
    PriceGrid.prices config.spread config.depth agg.1 agg.2 spread_mult state.global_mid
  let usd := crash_depth_override agg_model.cfg.hmm state.hmm_regime
    (usd_amounts config.depth agg.1 agg.2 buy_n sell_n skew depth_mult)
  { buy_prices := prices.1
    buy_amounts := token_amounts usd.1 prices.1
    sell_prices := prices.2
    sell_amounts := token_amounts usd.2 prices.2
    global_mid := state.global_mid
    aggressiveness := (agg.1 + agg.2) / ((2 : ℚ) : K) }

/-- The aggressiveness with which a tick builds its grid. -/
def tick_aggressiveness (agg_model : AggressivenessModel) (state : GlobalState K) : K × K :=
  aggressiveness agg_model state.volatility state.zz_regime state.hmm_regime
    state.hmm_regime_confidence

/-- The grid of `_tick` (`exchange_bot.py:182-280`), of a bot that has drained its regimes and updated
its inventory. -/
def grid (config : ExchangeBotConfig) (agg_model : AggressivenessModel) (bot : Feeds.Bot)
    (inventory : InventoryTracker) (state : GlobalState K) : OrderGrid K :=
  let mm_params := bot.resolve_mm_params state.regime_state
  grid_at config agg_model mm_params (skew inventory mm_params : K) state
    (tick_aggressiveness agg_model state)

end Model

/-! ## The skew -/

theorem skew_mem (inventory : InventoryTracker) (mm_params : MmParams) :
    1 / 2 ≤ skew inventory mm_params ∧ skew inventory mm_params ≤ 2 := by
  have hfactor : 1 / 2 ≤ inventory.skew_factor ∧ inventory.skew_factor ≤ 2 := by
    unfold InventoryTracker.skew_factor
    split
    · split
      · norm_num
      · exact clip_mem (by norm_num) _
    · norm_num
  unfold skew
  simp only
  split
  · exact ⟨le_max_left _ _, max_le (by norm_num) (min_le_left _ _)⟩
  · exact hfactor

theorem skew_mem_real (inventory : InventoryTracker) (mm_params : MmParams) :
    (1 / 2 : ℝ) ≤ (skew inventory mm_params : ℝ) ∧ (skew inventory mm_params : ℝ) ≤ 2 := by
  obtain ⟨hlo, hhi⟩ := skew_mem inventory mm_params
  have hlo : ((1 / 2 : ℚ) : ℝ) ≤ (skew inventory mm_params : ℝ) := Rat.cast_le.mpr hlo
  refine ⟨?_, by exact_mod_cast hhi⟩
  push_cast at hlo
  exact hlo

/-! ## The total budget -/

variable (depth : DepthConfig) (buy_agg sell_agg depth_mult s : ℝ) (buy_n sell_n : ℕ)

/-- `total_budget_usd` -/
noncomputable def total_budget : ℝ := (depth.total_budget_usd.1 : ℚ)

/-- `min_step_usd` -/
noncomputable def min_step : ℝ := (depth.min_step_usd.1 : ℚ)

/-- No level of either side is raised to the minimal order, so that the amounts are shares of the
budget. -/
structure Unraised : Prop where
  buy : (⟨depth⟩ : DepthEngine).Unraised buy_agg buy_n s "buy" (min_step depth) depth_mult
  sell : (⟨depth⟩ : DepthEngine).Unraised sell_agg sell_n s "sell" (min_step depth) depth_mult

/-- The budgets of both sides. -/
noncomputable def budgets : ℝ :=
  total_budget depth / ((2 : ℚ) : ℝ) * depth_mult *
    (s + max ((1 / 2 : ℚ) : ℝ) (((2 : ℚ) : ℝ) - s))

/-- What the steps take off both sides. -/
noncomputable def lowered : ℝ :=
  (⟨depth⟩ : DepthEngine).lowered buy_agg s (min_step depth) depth_mult buy_n "buy" +
    (⟨depth⟩ : DepthEngine).lowered sell_agg s (min_step depth) depth_mult sell_n "sell"

variable {depth buy_agg sell_agg depth_mult s buy_n sell_n}

theorem total_budget_pos (depth : DepthConfig) : 0 < total_budget depth := by
  unfold total_budget
  exact_mod_cast depth.total_budget_usd.2

theorem side_budgets_eq (hmult : 0 ≤ depth_mult) (hlo : 1 / 2 ≤ s) (hhi : s ≤ 2) :
    (⟨depth⟩ : DepthEngine).side_budget s "buy" depth_mult +
        (⟨depth⟩ : DepthEngine).side_budget s "sell" depth_mult =
      budgets depth depth_mult s := by
  have hbuy : clip s ((1 / 2 : ℚ) : ℝ) ((2 : ℚ) : ℝ) = s :=
    clip_eq (by norm_num [hlo]) (by norm_num [hhi])
  have hsell : clip (((2 : ℚ) : ℝ) - s) ((1 / 2 : ℚ) : ℝ) ((2 : ℚ) : ℝ) = max (1 / 2) (2 - s) := by
    rw [clip, min_eq_right (by push_cast; linarith)]
    norm_num
  unfold side_budget budgets total_budget
  rw [if_pos rfl, if_neg (by decide), hbuy, hsell, max_eq_right hmult]
  push_cast
  ring

theorem sum_usd_amounts (hraw : Unraised depth buy_agg sell_agg depth_mult s buy_n sell_n)
    (hbuy : 0 < buy_n) (hsell : 0 < sell_n) (hmult : 0 ≤ depth_mult) (hlo : 1 / 2 ≤ s)
    (hhi : s ≤ 2) :
    (usd_amounts depth buy_agg sell_agg buy_n sell_n s depth_mult).1.sum +
        (usd_amounts depth buy_agg sell_agg buy_n sell_n s depth_mult).2.sum =
      budgets depth depth_mult s - lowered depth buy_agg sell_agg depth_mult s buy_n sell_n := by
  rw [← side_budgets_eq hmult hlo hhi, lowered, add_sub_add_comm]
  exact congrArg₂ (· + ·) (hraw.buy.sum_eq hbuy) (hraw.sell.sum_eq hsell)

/-- With no steps, a skew up to 1.5 is safe, and one above it needs a multiplier for it. -/
theorem budgets_le_total_iff (h1 : depth_mult ≤ 1) :
    budgets depth depth_mult s ≤ total_budget depth ↔ s ≤ 3 / 2 ∨ depth_mult * (s + 1 / 2) ≤ 2 := by
  have htotal := total_budget_pos depth
  have hhalf : budgets depth depth_mult s =
      total_budget depth * (depth_mult * (s + max (1 / 2) (2 - s)) / 2) := by
    unfold budgets
    push_cast
    ring
  rw [hhalf, mul_le_iff_le_one_right htotal, div_le_one two_pos]
  rcases le_total s (3 / 2) with hs | hs
  · rw [max_eq_right (by linarith)]
    exact iff_of_true (by linarith) (.inl hs)
  · rw [max_eq_left (by linarith)]
    refine ⟨.inr, fun h => h.elim (fun hle => ?_) id⟩
    obtain rfl := le_antisymm hle hs
    linarith

theorem min_step_default : min_step default ≤ 0 := by
  show (((0 : ℚ)) : ℝ) ≤ 0
  rw [Rat.cast_zero]

/-- Fully aggressive sides of 15 levels need no raising, whatever the skew: the smaller budget, a quarter
of the total, is still above 15 minimal orders. -/
theorem unraised_default (s : ℝ) : Unraised default 1 1 1 s 15 15 := by
  have hclip (v : ℝ) : (1 / 2 : ℝ) ≤ clip v (1 / 2) 2 := (clip_mem (by norm_num) v).1
  constructor
  · refine unraised_of_equal min_step_default ?_
    rw [min_order_default, buy_budget_default]
    norm_num
    linarith [hclip s]
  · refine unraised_of_equal min_step_default ?_
    rw [min_order_default, sell_budget_default]
    norm_num
    linarith [hclip (2 - s)]

/-- A bot that has sold all its tokens. -/
def sold_out : InventoryTracker :=
  { initial_usd := some 0, initial_token := some 100, current_usd := 100, current_token := 0 }

variable {m : ℝ} {usd prices : List ℝ}

theorem worth_of_positive {p a : ℝ} (hp : 0 < p) : p * usd_to_token_amount a p = a := by
  rw [usd_to_token_amount, if_neg hp.not_ge, mul_div_cancel₀ a hp.ne']

/-- A level at a positive price is worth what is spent on it. -/
theorem orders_worth_iff :
    (∀ order ∈ prices.zip (token_amounts usd prices), 0 < order.1 → m ≤ order.1 * order.2) ↔
      ∀ (i : ℕ) (p a : ℝ), prices[i]? = some p → usd[i]? = some a → 0 < p → m ≤ a := by
  constructor
  · intro h i p a hp ha hpos
    have htoken : (token_amounts usd prices)[i]? = some (usd_to_token_amount a p) := by
      rw [token_amounts, List.getElem?_zipWith, ha, hp]
    have horder : (p, usd_to_token_amount a p) ∈ prices.zip (token_amounts usd prices) := by
      refine List.mem_of_getElem? (i := i) ?_
      rw [List.getElem?_zip_eq_some]
      exact ⟨hp, htoken⟩
    have hworth := h _ horder hpos
    rwa [worth_of_positive hpos] at hworth
  · intro h order horder hpos
    obtain ⟨i, hi⟩ := List.mem_iff_getElem?.mp horder
    obtain ⟨hp, htoken⟩ := List.getElem?_zip_eq_some.mp hi
    obtain ⟨a, p, ha, hp', htoken⟩ := List.getElem?_zipWith_eq_some.mp htoken
    obtain rfl := Option.some.inj (hp.symm.trans hp')
    rw [← htoken, worth_of_positive hpos]
    exact h i _ a hp ha hpos

theorem length_buy_prices (spread : SpreadConfig) (depth : DepthConfig)
    (buy_agg sell_agg spread_mult global_mid : ℝ) :
    (PriceGrid.prices spread depth buy_agg sell_agg spread_mult global_mid).1.length =
      (spread.buy_levels.getD depth.levels).1 := by
  unfold PriceGrid.prices PriceGrid.prices_of
  rw [List.length_map]
  exact SpreadEngine.length_side

theorem length_sell_prices (spread : SpreadConfig) (depth : DepthConfig)
    (buy_agg sell_agg spread_mult global_mid : ℝ) :
    (PriceGrid.prices spread depth buy_agg sell_agg spread_mult global_mid).2.length =
      (spread.sell_levels.getD depth.levels).1 := by
  unfold PriceGrid.prices PriceGrid.prices_of
  rw [List.length_map]
  exact SpreadEngine.length_side

/-- What a crash scales the buys by. -/
noncomputable def buy_scale (hmm_cfg : HMMConfig) (hmm_regime : String) : ℝ :=
  if hmm_regime = "HIGH_VOL_CRASH" then (hmm_cfg.crash_buy_depth_multiplier.1 : ℚ) else 1

/-- What a crash scales the sells by. -/
noncomputable def sell_scale (hmm_cfg : HMMConfig) (hmm_regime : String) : ℝ :=
  if hmm_regime = "HIGH_VOL_CRASH" then (hmm_cfg.crash_sell_depth_factor.1 : ℚ) else 1

theorem one_le_buy_scale (hmm_cfg : HMMConfig) (hmm_regime : String) :
    1 ≤ buy_scale hmm_cfg hmm_regime := by
  unfold buy_scale
  split
  · exact_mod_cast hmm_cfg.crash_buy_depth_multiplier.2.1
  · exact le_rfl

theorem sell_scale_mem (hmm_cfg : HMMConfig) (hmm_regime : String) :
    0 ≤ sell_scale hmm_cfg hmm_regime ∧ sell_scale hmm_cfg hmm_regime ≤ 1 := by
  unfold sell_scale
  split
  · exact_mod_cast hmm_cfg.crash_sell_depth_factor.2
  · exact ⟨zero_le_one, le_rfl⟩

theorem crash_depth_override_eq (hmm_cfg : HMMConfig) (hmm_regime : String)
    (usd : List ℝ × List ℝ) : crash_depth_override hmm_cfg hmm_regime usd =
      (usd.1.map (· * buy_scale hmm_cfg hmm_regime), usd.2.map (· * sell_scale hmm_cfg hmm_regime)) := by
  unfold crash_depth_override buy_scale sell_scale
  split
  · rfl
  · simp only [mul_one, List.map_id']

/-- The orders of a side whose amounts are scaled by `k`. -/
theorem side_kept_iff {e : DepthEngine} {agg s step mult k : ℝ} {n : ℕ} {side : String}
    (hlength : prices.length = n) :
    (∀ order ∈ prices.zip (token_amounts ((e.compute_amounts agg n s side step mult).map (· * k))
        prices), 0 < order.1 → e.min_order ≤ order.1 * order.2) ↔
      ∀ (i : ℕ) (p : ℝ), prices[i]? = some p → 0 < p →
        e.min_order ≤ max e.min_order (e.stepped agg s step mult n side i) * k := by
  have hamount : ∀ i < n, ((e.compute_amounts agg n s side step mult).map (· * k))[i]? =
      some (max e.min_order (e.stepped agg s step mult n side i) * k) := by
    intro i hi
    rw [compute_amounts_eq, List.getElem?_map, List.getElem?_map, List.getElem?_range hi]
    rfl
  rw [orders_worth_iff]
  constructor
  · intro h i p hp hpos
    obtain ⟨hi, -⟩ := List.getElem?_eq_some_iff.mp hp
    exact h i p _ hp (hamount i (hi.trans_eq hlength)) hpos
  · intro h i p a hp ha hpos
    obtain ⟨hi, -⟩ := List.getElem?_eq_some_iff.mp hp
    obtain rfl := Option.some.inj ((hamount i (hi.trans_eq hlength)).symm.trans ha)
    exact h i p hp hpos

theorem le_max_mul_iff {v k : ℝ} (hm : 0 < m) (h0 : 0 ≤ k) (h1 : k ≤ 1) :
    m ≤ max m v * k ↔ k = 1 ∨ m ≤ v * k := by
  rw [max_mul_of_nonneg _ _ h0, le_max_iff, le_mul_iff_one_le_right hm]
  exact or_congr_left ⟨fun h => le_antisymm h1 h, fun h => h.ge⟩

section Side

variable (config : ExchangeBotConfig) (agg_model : AggressivenessModel) (mm_params : MmParams)
  (s : ℝ) (state : GlobalState ℝ) (agg : ℝ × ℝ)

theorem buy_amounts_eq : (grid_at config agg_model mm_params s state agg).buy_amounts =
    token_amounts ((compute_amounts ⟨config.depth⟩ agg.1
        (config.spread.buy_levels.getD config.depth.levels).1 s "buy" (min_step config.depth)
        mm_params.depth_mult).map (· * buy_scale agg_model.cfg.hmm state.hmm_regime))
      (grid_at config agg_model mm_params s state agg).buy_prices := by
  unfold grid_at
  simp only [crash_depth_override_eq]
  rfl

theorem sell_amounts_eq : (grid_at config agg_model mm_params s state agg).sell_amounts =
    token_amounts ((compute_amounts ⟨config.depth⟩ agg.2
        (config.spread.sell_levels.getD config.depth.levels).1 s "sell" (min_step config.depth)
        mm_params.depth_mult).map (· * sell_scale agg_model.cfg.hmm state.hmm_regime))
      (grid_at config agg_model mm_params s state agg).sell_prices := by
  unfold grid_at
  simp only [crash_depth_override_eq]
  rfl

/-- The buys are never scaled down. -/
theorem buys_kept :
    ∀ order ∈ (grid_at config agg_model mm_params s state agg).buy_prices.zip
      (grid_at config agg_model mm_params s state agg).buy_amounts,
    0 < order.1 → (⟨config.depth⟩ : DepthEngine).min_order ≤ order.1 * order.2 := by
  have hscale := one_le_buy_scale agg_model.cfg.hmm state.hmm_regime
  rw [buy_amounts_eq]
  refine (side_kept_iff (length_buy_prices _ _ agg.1 agg.2 _ _)).mpr fun i p _ _ => ?_
  have hraised := le_max_left (⟨config.depth⟩ : DepthEngine).min_order
    ((⟨config.depth⟩ : DepthEngine).stepped agg.1 s (min_step config.depth) mm_params.depth_mult
      (config.spread.buy_levels.getD config.depth.levels).1 "buy" i)
  exact hraised.trans (le_mul_of_one_le_right
    ((⟨config.depth⟩ : DepthEngine).min_order_pos.le.trans hraised) hscale)

theorem sells_kept_iff :
    (∀ order ∈ (grid_at config agg_model mm_params s state agg).sell_prices.zip
        (grid_at config agg_model mm_params s state agg).sell_amounts,
      0 < order.1 → (⟨config.depth⟩ : DepthEngine).min_order ≤ order.1 * order.2) ↔
    sell_scale agg_model.cfg.hmm state.hmm_regime = 1 ∨
      ∀ (i : ℕ) (pct : ℝ), (PriceGrid.spreads config.spread config.depth agg.1 agg.2
          mm_params.spread_mult).2[i]? = some pct →
        1 / 2 < PriceGrid.in_ticks config.spread state.global_mid pct →
        (⟨config.depth⟩ : DepthEngine).min_order ≤
          (⟨config.depth⟩ : DepthEngine).stepped agg.2 s (min_step config.depth) mm_params.depth_mult
            (config.spread.sell_levels.getD config.depth.levels).1 "sell" i *
              sell_scale agg_model.cfg.hmm state.hmm_regime := by
  obtain ⟨h0, h1⟩ := sell_scale_mem agg_model.cfg.hmm state.hmm_regime
  have hmin := (⟨config.depth⟩ : DepthEngine).min_order_pos
  rw [sell_amounts_eq]
  refine (side_kept_iff (length_sell_prices _ _ agg.1 agg.2 _ _)).trans ?_
  have hprices (i : ℕ) (p : ℝ) :
      (PriceGrid.prices config.spread config.depth agg.1 agg.2 mm_params.spread_mult
        state.global_mid).2[i]? = some p ↔
        ∃ pct, (PriceGrid.spreads config.spread config.depth agg.1 agg.2
          mm_params.spread_mult).2[i]? = some pct ∧
          PriceGrid.tick_price state.global_mid (PriceGrid.tick config.spread) pct = p := by
    rw [← Option.map_eq_some_iff, ← List.getElem?_map]
    rfl
  simp only [le_max_mul_iff hmin h0 h1, hprices]
  by_cases hone : sell_scale agg_model.cfg.hmm state.hmm_regime = 1
  · exact iff_of_true (fun _ _ _ _ => .inl hone) (.inl hone)
  · simp only [hone, false_or]
    constructor
    · intro h i pct hpct hpos
      exact h i _ ⟨pct, hpct, rfl⟩ (PriceGrid.tick_price_pos_iff.mpr hpos)
    · rintro h i p ⟨pct, hpct, rfl⟩ hpos
      exact h i pct hpct (PriceGrid.tick_price_pos_iff.mp hpos)

end Side

/-- Where the nearest sell is above half a tick, every sell is. -/
theorem half_tick_lt {spread : SpreadConfig} {depth : DepthConfig}
    {buy_agg sell_agg spread_mult global_mid pct : ℝ} (hmid : 0 < global_mid)
    (h : 1 / 2 < PriceGrid.in_ticks spread global_mid
      (PriceGrid.lowest_sell spread spread_mult depth sell_agg))
    (hpct : pct ∈ (PriceGrid.spreads spread depth buy_agg sell_agg spread_mult).2) :
    1 / 2 < PriceGrid.in_ticks spread global_mid pct := by
  rw [← PriceGrid.tick_price_pos_iff] at h ⊢
  exact h.trans_le (PriceGrid.tick_price_mono hmid (PriceGrid.lowest_sell_le depth buy_agg sell_agg hpct))

/-- **No order below the minimum**, unless in a crash: then exactly when the sells are not scaled, or
the share of each sell that is above half a tick, so that its price is not rounded to 0, is still worth
the minimal order after the steps and the scale. Where the nearest sell is above half a tick, these are
all of them. -/
theorem min_order_kept_iff (config : ExchangeBotConfig) (agg_model : AggressivenessModel)
    (bot : Feeds.Bot) (inventory : InventoryTracker) (state : GlobalState ℝ) :
    let mm_params := bot.resolve_mm_params state.regime_state
    let agg := tick_aggressiveness agg_model state
    let sell_n := (config.spread.sell_levels.getD config.depth.levels).1
    let factor : ℝ := (agg_model.cfg.hmm.crash_sell_depth_factor.1 : ℚ)
    let engine : DepthEngine := ⟨config.depth⟩
    let g := grid config agg_model bot inventory state
    let kept := ∀ order ∈ g.buy_prices.zip g.buy_amounts ++ g.sell_prices.zip g.sell_amounts,
      0 < order.1 → engine.min_order ≤ order.1 * order.2
    let worth (i : ℕ) := engine.min_order ≤ engine.stepped agg.2 (skew inventory mm_params)
      (min_step config.depth) mm_params.depth_mult sell_n "sell" i * factor
    (kept ↔ (state.hmm_regime = "HIGH_VOL_CRASH" → factor = 1 ∨
      ∀ (i : ℕ) (pct : ℝ), (PriceGrid.spreads config.spread config.depth agg.1 agg.2
        mm_params.spread_mult).2[i]? = some pct →
        1 / 2 < PriceGrid.in_ticks config.spread state.global_mid pct → worth i)) ∧
    (0 < state.global_mid →
      1 / 2 < PriceGrid.in_ticks config.spread state.global_mid
        (PriceGrid.lowest_sell config.spread mm_params.spread_mult config.depth agg.2) →
      (kept ↔ (state.hmm_regime = "HIGH_VOL_CRASH" → factor = 1 ∨ ∀ i < sell_n, worth i))) := by
  intro mm_params agg sell_n factor engine g kept worth
  have hbuys := buys_kept config agg_model mm_params (skew inventory mm_params) state agg
  have hsells := sells_kept_iff config agg_model mm_params (skew inventory mm_params) state agg
  have hkept : kept ↔ (state.hmm_regime = "HIGH_VOL_CRASH" → factor = 1 ∨
      ∀ (i : ℕ) (pct : ℝ), (PriceGrid.spreads config.spread config.depth agg.1 agg.2
        mm_params.spread_mult).2[i]? = some pct →
        1 / 2 < PriceGrid.in_ticks config.spread state.global_mid pct → worth i) := by
    unfold kept
    rw [List.forall_mem_append]
    refine (and_iff_right hbuys).trans (hsells.trans ?_)
    by_cases hcrash : state.hmm_regime = "HIGH_VOL_CRASH"
    · rw [sell_scale, if_pos hcrash, forall_prop_of_true hcrash]
    · rw [sell_scale, if_neg hcrash]
      exact iff_of_true (.inl rfl) fun h => absurd h hcrash
  have hlength : (PriceGrid.spreads config.spread config.depth agg.1 agg.2
      mm_params.spread_mult).2.length = sell_n := SpreadEngine.length_side
  refine ⟨hkept, fun hmid hnearest => hkept.trans ?_⟩
  refine forall_congr' fun _ => or_congr_right ⟨fun h i hi => ?_, fun h i pct hpct _ => ?_⟩
  · have hpct := List.getElem?_eq_getElem (hi.trans_eq hlength.symm)
    exact h i _ hpct (half_tick_lt hmid hnearest (List.mem_of_getElem? hpct))
  · exact h i ((List.getElem?_eq_some_iff.mp hpct).1.trans_eq hlength)

/-- A bot with the default configuration. -/
def default_bot : ExchangeBotConfig where
  exchange := .gate
  symbol := "ALKIMI/USDT"
  quote_currency := .USDT
  enabled := true
  spread := default
  depth := default
  safety := default
  ccxt_options := []
  use_cpp_connector := none

/-- A market in free fall. -/
noncomputable def crash : GlobalState ℝ where
  global_mid := 1
  volatility := 1
  zz_regime := "choppy"
  hmm_regime := "HIGH_VOL_CRASH"
  hmm_regime_confidence := 1
  regime_state := none

theorem crash_sell_agg : (tick_aggressiveness ⟨default⟩ crash).2 = 0 := by
  have hcompute : AggressivenessModel.compute ⟨default⟩ (1 : ℝ) = 0 := by
    refine AggressivenessModel.compute_of_ge ?_ ?_
    · show (((1 / 1000 : ℚ)) : ℝ) < 1
      norm_num
    · show (((3 / 1000 : ℚ)) : ℝ) ≤ 1
      norm_num
  have hzz : (AggressivenessModel.compute_with_regime ⟨default⟩ (1 : ℝ) "choppy").2 = 0 := by
    unfold AggressivenessModel.compute_with_regime
    rw [if_neg (by decide), if_neg (by decide)]
    exact hcompute
  have hceiling : 0 ≤ crash_ceiling ⟨default⟩ := by
    unfold crash_ceiling
    exact_mod_cast (default : VolatilityConfig).hmm.crash_sell_agg_ceiling.2.1
  show (aggressiveness ⟨default⟩ (1 : ℝ) "choppy" "HIGH_VOL_CRASH" 1).2 = 0
  rw [crash_aggressiveness ⟨default⟩ 1 "choppy" (by norm_num), hzz, min_eq_left hceiling, zero_mul]

/-- With the default bounds every sell is above the mid, here 10000 ticks. -/
theorem half_tick_lt_default {agg : ℝ × ℝ} {spread_mult pct : ℝ}
    (hpct : pct ∈ (PriceGrid.spreads default default agg.1 agg.2 spread_mult).2) :
    1 / 2 < PriceGrid.in_ticks default 1 pct := by
  have hmin : ((default : SpreadConfig).sell_min_pct : ℚ) = 3 / 10 := rfl
  have hmax : ((default : SpreadConfig).sell_max_pct : ℚ) = 7 := rfl
  have hnearest : 0 < PriceGrid.nearest_sell default spread_mult := by
    have hmult := SpreadEngine.regime_mult_pos spread_mult
    unfold PriceGrid.nearest_sell
    rw [hmin, hmax]
    exact lt_min (mul_pos (by norm_num) hmult) (mul_pos (by norm_num) hmult)
  have hpos : 0 < pct := hnearest.trans_le (PriceGrid.nearest_sell_le default agg.1 agg.2 hnearest hpct)
  have htick : PriceGrid.tick default = 1 / 10000 := by
    show (((1 / 10000 : ℚ)) : ℝ) = _
    norm_num
  rw [PriceGrid.in_ticks, htick]
  push_cast
  linarith

/-- **Sells of 1.50 USD** where the minimum is 5: the outermost sell in a crash, with the default
configuration. -/
theorem crash_below_minimum :
    ¬∀ order ∈ (grid default_bot ⟨default⟩ {} {} crash).buy_prices.zip
          (grid default_bot ⟨default⟩ {} {} crash).buy_amounts ++
        (grid default_bot ⟨default⟩ {} {} crash).sell_prices.zip
          (grid default_bot ⟨default⟩ {} {} crash).sell_amounts,
      0 < order.1 → (⟨default⟩ : DepthEngine).min_order ≤ order.1 * order.2 := by
  intro h
  have hfactor : sell_scale (default : VolatilityConfig).hmm "HIGH_VOL_CRASH" = 3 / 10 := by
    rw [sell_scale, if_pos rfl]
    show (((3 / 10 : ℚ)) : ℝ) = _
    norm_num
  have hskew : skew {} RANGING = 1 := rfl
  have hsells := (sells_kept_iff default_bot ⟨default⟩ RANGING (skew {} RANGING) crash
    (tick_aggressiveness ⟨default⟩ crash)).mp (List.forall_mem_append.mp h).2
  rw [hskew, Rat.cast_one] at hsells
  rcases hsells with hone | hlevels
  · have hone := hfactor.symm.trans hone
    norm_num at hone
  · have hlength : 14 < (PriceGrid.spreads default default (tick_aggressiveness ⟨default⟩ crash).1
        (tick_aggressiveness ⟨default⟩ crash).2 ((RANGING.spread_mult : ℚ) : ℝ)).2.length :=
      (by norm_num : 14 < 15).trans_eq SpreadEngine.length_side.symm
    have hbudget : (⟨default⟩ : DepthEngine).side_budget (1 : ℝ) "sell" 1 = 500 := by
      rw [sell_budget_default, clip_eq (by norm_num) (by norm_num)]
      norm_num
    have hlevel := hlevels 14 _ (List.getElem?_eq_getElem hlength)
      (half_tick_lt_default (List.getElem_mem hlength))
    have hdepth : ((RANGING.depth_mult : ℚ) : ℝ) = 1 := Rat.cast_one
    have hstep : min_step default_bot.depth ≤ 0 := min_step_default
    rw [crash_sell_agg, hdepth, stepped_of_no_step hstep] at hlevel
    have hshare : (5 : ℝ) ≤ (⟨default⟩ : DepthEngine).share 0 1 1 15 "sell" 14 * (3 / 10) :=
      min_order_default.symm.trans_le (hlevel.trans_eq (congrArg _ hfactor))
    have hlt := outermost_default hbudget
    linarith

end Meridian.TickGrid
