import Meridian.Core.TickGrid

/-!
# The inventory and the grid

`InventoryTracker.update` over the balances a bot has fetched, and what the skew it ends with does to
the grid of a tick (`exchange_bot.py:182-280`, `inventory_tracker.py:76-103`, `depth_engine.py:36-109`),
through the regime's own skew, the budgets, the minimal steps and orders, and the multipliers of a crash.

Results:
* `skew_factor_antitone`, `skew_antitone`: with more tokens, no greater skew;
* `compute_amounts_mono`: with a greater budget, no smaller amount at any level;
* `grid_leans`: of two bots with one baseline, the one that has come to hold more tokens buys no more
  and sells no less, level by level and at the same prices.

Out of scope: the rounding of doubles (amounts are exact reals).
-/

namespace Meridian.InventorySkew

open DepthEngine TickGrid

/-! ## The skew -/

/-- The tracker after these balances. -/
def tracked (t : InventoryTracker) (balances : List Balance) : InventoryTracker :=
  balances.foldl InventoryTracker.update t

variable {t t' : InventoryTracker}

/-- A baseline that is set is kept. -/
theorem tracked_initial (h : t.initial_usd.isSome) (balances : List Balance) :
    (tracked t balances).initial_token = t.initial_token := by
  induction balances generalizing t with
  | nil => rfl
  | cons b balances ih =>
    have hnone : ¬t.initial_usd.isNone := by
      rw [Option.isNone_iff_eq_none]
      exact Option.isSome_iff_ne_none.mp h
    have hupdate : t.update b = { t with current_usd := b.usd, current_token := b.token } := by
      unfold InventoryTracker.update
      rw [if_neg hnone]
    have hstep : tracked t (b :: balances) =
        tracked { t with current_usd := b.usd, current_token := b.token } balances := by
      rw [tracked, List.foldl_cons, hupdate]
      rfl
    rw [hstep]
    exact ih h

theorem skew_factor_antitone (hsame : t.initial_token = t'.initial_token)
    (hle : t.current_token ≤ t'.current_token) : t'.skew_factor ≤ t.skew_factor := by
  unfold InventoryTracker.skew_factor
  rw [hsame]
  cases t'.initial_token with
  | none => exact le_rfl
  | some initial_token =>
    dsimp only
    split
    · exact le_rfl
    · rename_i hpos
      have hpos : 0 < initial_token := not_le.mp hpos
      refine clip_mono (sub_le_sub_left (mul_le_mul_of_nonneg_right ?_ (by norm_num)) _)
      exact div_le_div_of_nonneg_right (sub_le_sub_right hle _) hpos.le

/-- The regime's own skew is added to both. -/
theorem skew_antitone (hsame : t.initial_token = t'.initial_token)
    (hle : t.current_token ≤ t'.current_token) (mm_params : Feeds.MmParams) :
    TickGrid.skew t' mm_params ≤ TickGrid.skew t mm_params := by
  have hfactor := skew_factor_antitone hsame hle
  unfold TickGrid.skew
  dsimp only
  split
  · exact max_le_max le_rfl (min_le_min le_rfl (add_le_add hfactor le_rfl))
  · exact hfactor

/-! ## The amounts -/

variable {e : DepthEngine} {s s' step mult agg : ℝ} {n : ℕ} {side : String}

theorem half_budget_nonneg (e : DepthEngine) (mult : ℝ) :
    0 ≤ ((e.cfg.total_budget_usd.1 : ℚ) : ℝ) / ((2 : ℚ) : ℝ) * max 0 mult := by
  have htotal : (0 : ℝ) ≤ ((e.cfg.total_budget_usd.1 : ℚ) : ℝ) := by
    exact_mod_cast e.cfg.total_budget_usd.2.le
  exact mul_nonneg (div_nonneg htotal (by norm_num)) (le_max_left _ _)

theorem buy_budget_mono (h : s ≤ s') : e.side_budget s "buy" mult ≤ e.side_budget s' "buy" mult := by
  unfold side_budget
  rw [if_pos rfl, if_pos rfl]
  exact mul_le_mul_of_nonneg_left (clip_mono h) (half_budget_nonneg e mult)

/-- The buys of a skew of a tick take all of it. -/
theorem buy_budget_strictMono (e : DepthEngine) (hmult : 0 < mult) (hlo : 1 / 2 ≤ s') (hhi : s ≤ 2)
    (h : s' < s) :
    e.side_budget s' "buy" mult < e.side_budget s "buy" mult := by
  have htotal : (0 : ℝ) < ((e.cfg.total_budget_usd.1 : ℚ) : ℝ) := by
    exact_mod_cast e.cfg.total_budget_usd.2
  have hclip : ∀ v : ℝ, 1 / 2 ≤ v → v ≤ 2 → clip v ((1 / 2 : ℚ) : ℝ) ((2 : ℚ) : ℝ) = v :=
    fun v hv hv' => clip_eq (by norm_num [hv]) (by norm_num [hv'])
  unfold side_budget
  rw [if_pos rfl, if_pos rfl, hclip s' hlo (h.le.trans hhi), hclip s (hlo.trans h.le) hhi]
  refine mul_lt_mul_of_pos_left h (mul_pos (div_pos htotal (by norm_num)) ?_)
  exact lt_max_of_lt_right hmult

theorem sell_budget_antitone (h : s ≤ s') :
    e.side_budget s' "sell" mult ≤ e.side_budget s "sell" mult := by
  unfold side_budget
  rw [if_neg (by decide), if_neg (by decide)]
  exact mul_le_mul_of_nonneg_left (clip_mono (sub_le_sub_left h _)) (half_budget_nonneg e mult)

theorem share_mono (h : e.side_budget s side mult ≤ e.side_budget s' side mult) (i : ℕ) :
    e.share agg s mult n side i ≤ e.share agg s' mult n side i := by
  obtain ⟨h0, h1⟩ := e.blend_mem agg
  refine mul_le_mul_of_nonneg_left h (add_nonneg ?_ ?_)
  · exact mul_nonneg (sub_nonneg.mpr h1)
      (div_nonneg (pow_nonneg (by norm_num) i) (total_weight_nonneg n))
  · exact mul_nonneg h0 (div_nonneg zero_le_one n.cast_nonneg)

theorem share_lt (hn : 0 < n) (h : e.side_budget s side mult < e.side_budget s' side mult) (i : ℕ) :
    e.share agg s mult n side i < e.share agg s' mult n side i := by
  obtain ⟨h0, h1⟩ := e.blend_mem agg
  refine mul_lt_mul_of_pos_left h ?_
  have hpassive : 0 < (4 / 5 : ℝ) ^ i / total_weight n :=
    div_pos (pow_pos (by norm_num) i) (total_weight_pos hn)
  have hequal : (0 : ℝ) < 1 / n := one_div_pos.mpr (Nat.cast_pos.mpr hn)
  rcases h0.eq_or_lt with hzero | hpos
  · rw [← hzero, sub_zero, one_mul, zero_mul, add_zero]
    exact hpassive
  · exact add_pos_of_nonneg_of_pos (mul_nonneg (sub_nonneg.mpr h1) hpassive.le) (mul_pos hpos hequal)

/-- **A greater budget** leaves no level less: not the shares, not what the steps leave of them, and not
what the minimal order makes of that. -/
theorem compute_amounts_mono (h : e.side_budget s side mult ≤ e.side_budget s' side mult) :
    List.Forall₂ (· ≤ ·) (e.compute_amounts agg n s side step mult)
      (e.compute_amounts agg n s' side step mult) := by
  rw [compute_amounts_eq, compute_amounts_eq, List.forall₂_map_left_iff, List.forall₂_map_right_iff,
    List.forall₂_same]
  intro i _
  exact max_le_max le_rfl (descent_mono_left _ (share_mono h) i)

/-- A level shrinks with its budget unless it is at the minimal order. -/
theorem level_lt_iff (hn : 0 < n) (h : e.side_budget s side mult < e.side_budget s' side mult) (i : ℕ) :
    max e.min_order (e.stepped agg s step mult n side i) <
        max e.min_order (e.stepped agg s' step mult n side i) ↔
      e.min_order < max e.min_order (e.stepped agg s' step mult n side i) := by
  have hshare : ∀ j, e.share agg s mult n side j < e.share agg s' mult n side j := share_lt hn h
  have hlt := descent_lt_descent (max 0 step) hshare i
  constructor
  · exact fun hlevel => (le_max_left _ _).trans_lt hlevel
  · intro habove
    rw [lt_max_iff, or_iff_right (lt_irrefl _)] at habove
    exact max_lt (lt_max_of_lt_right habove) (lt_max_of_lt_right hlt)

/-- With no budget every level is at the minimal order. -/
theorem level_of_no_budget (hmult : mult ≤ 0) (i : ℕ) :
    max e.min_order (e.stepped agg s step mult n side i) = e.min_order := by
  have hbudget : e.side_budget s side mult = 0 := by
    simp only [side_budget, max_eq_left hmult, mul_zero, zero_mul, ite_self]
  have hshare : e.share agg s mult n side i = 0 := by
    rw [share, hbudget, mul_zero]
  refine max_eq_left ?_
  exact ((descent_le _ _ i).trans_eq hshare).trans e.min_order_pos.le

theorem token_amounts_mono {usd usd' : List ℝ} (h : List.Forall₂ (· ≤ ·) usd usd') (prices : List ℝ) :
    List.Forall₂ (· ≤ ·) (token_amounts usd prices) (token_amounts usd' prices) := by
  unfold token_amounts
  induction h generalizing prices with
  | nil => exact .nil
  | cons hle _ ih =>
    cases prices with
    | nil => exact .nil
    | cons p prices =>
      refine .cons ?_ (ih prices)
      unfold usd_to_token_amount
      split
      · exact le_rfl
      · rename_i hp
        exact div_le_div_of_nonneg_right hle (not_le.mp hp).le

theorem scaled_mono {usd usd' : List ℝ} (h : List.Forall₂ (· ≤ ·) usd usd') {k : ℝ} (hk : 0 ≤ k) :
    List.Forall₂ (· ≤ ·) (usd.map (· * k)) (usd'.map (· * k)) := by
  rw [List.forall₂_map_left_iff, List.forall₂_map_right_iff]
  exact h.imp fun _ _ hle => mul_le_mul_of_nonneg_right hle hk

/-! ## The grid -/

/-- The second grid has the prices of the first, and buys no more and sells no less at any level. -/
structure Leans (g g' : TickGrid.OrderGrid ℝ) : Prop where
  buy_prices : g'.buy_prices = g.buy_prices
  sell_prices : g'.sell_prices = g.sell_prices
  aggressiveness : g'.aggressiveness = g.aggressiveness
  buys : List.Forall₂ (· ≤ ·) g'.buy_amounts g.buy_amounts
  sells : List.Forall₂ (· ≤ ·) g.sell_amounts g'.sell_amounts

theorem grid_at_leans (config : ExchangeBotConfig) (agg_model : AggressivenessModel)
    (mm_params : Feeds.MmParams) (state : TickGrid.GlobalState ℝ) (agg : ℝ × ℝ) (h : s' ≤ s) :
    Leans (grid_at config agg_model mm_params s state agg)
      (grid_at config agg_model mm_params s' state agg) where
  buy_prices := rfl
  sell_prices := rfl
  aggressiveness := rfl
  buys := by
    have hscale := (zero_le_one (α := ℝ)).trans (one_le_buy_scale agg_model.cfg.hmm state.hmm_regime)
    rw [buy_amounts_eq, buy_amounts_eq]
    exact token_amounts_mono (scaled_mono (compute_amounts_mono (buy_budget_mono h)) hscale) _
  sells := by
    have hscale := (sell_scale_mem agg_model.cfg.hmm state.hmm_regime).1
    rw [sell_amounts_eq, sell_amounts_eq]
    exact token_amounts_mono (scaled_mono (compute_amounts_mono (sell_budget_antitone h)) hscale) _

/-- A buy at a positive price, and what it is worth. -/
theorem buy_amount_eq (config : ExchangeBotConfig) (agg_model : AggressivenessModel)
    (mm_params : Feeds.MmParams) (state : TickGrid.GlobalState ℝ) (agg : ℝ × ℝ) {i : ℕ} {p a : ℝ}
    (hp : (grid_at config agg_model mm_params s state agg).buy_prices[i]? = some p)
    (ha : (grid_at config agg_model mm_params s state agg).buy_amounts[i]? = some a) (hpos : 0 < p) :
    p * a = max (⟨config.depth⟩ : DepthEngine).min_order
      ((⟨config.depth⟩ : DepthEngine).stepped agg.1 s (min_step config.depth) mm_params.depth_mult
        (config.spread.buy_levels.getD config.depth.levels).1 "buy" i) *
          buy_scale agg_model.cfg.hmm state.hmm_regime := by
  rw [buy_amounts_eq, token_amounts, List.getElem?_zipWith_eq_some] at ha
  obtain ⟨usd, p', husd, hp', rfl⟩ := ha
  obtain rfl := Option.some.inj (hp.symm.trans hp')
  rw [worth_of_positive hpos]
  rw [List.getElem?_map, Option.map_eq_some_iff] at husd
  obtain ⟨amount, hamount, rfl⟩ := husd
  rw [compute_amounts_eq] at hamount
  rw [of_getElem?_map_range hamount]

/-- A buy that has no positive price is for nothing. -/
theorem buy_amount_of_nonpos (config : ExchangeBotConfig) (agg_model : AggressivenessModel)
    (mm_params : Feeds.MmParams) (state : TickGrid.GlobalState ℝ) (agg : ℝ × ℝ) {i : ℕ} {p a : ℝ}
    (hp : (grid_at config agg_model mm_params s state agg).buy_prices[i]? = some p)
    (ha : (grid_at config agg_model mm_params s state agg).buy_amounts[i]? = some a) (hle : p ≤ 0) :
    a = 0 := by
  rw [buy_amounts_eq, token_amounts, List.getElem?_zipWith_eq_some] at ha
  obtain ⟨usd, p', -, hp', rfl⟩ := ha
  obtain rfl := Option.some.inj (hp.symm.trans hp')
  exact if_pos hle

/-- **The grid leans against the inventory**: whatever a bot with a baseline has fetched since, in every
market, regime and configuration, more tokens at the end buy no more and sell no less at any level. Where
the skew is smaller for it, each buy is smaller, unless it was worth no more than a minimal order. -/
theorem grid_leans (config : ExchangeBotConfig) (agg_model : AggressivenessModel) (bot : Feeds.Bot)
    (state : TickGrid.GlobalState ℝ) (t : InventoryTracker) (ht : t.initial_usd.isSome)
    (balances balances' : List Balance)
    (h : (tracked t balances).current_token ≤ (tracked t balances').current_token) :
    let mm_params := bot.resolve_mm_params state.regime_state
    let g := grid config agg_model bot (tracked t balances) state
    let g' := grid config agg_model bot (tracked t balances') state
    Leans g g' ∧
      (TickGrid.skew (tracked t balances') mm_params < TickGrid.skew (tracked t balances) mm_params →
        ∀ (i : ℕ) (p a a' : ℝ), g.buy_prices[i]? = some p → g.buy_amounts[i]? = some a →
          g'.buy_amounts[i]? = some a' →
          (a' < a ↔ (⟨config.depth⟩ : DepthEngine).min_order *
            buy_scale agg_model.cfg.hmm state.hmm_regime < p * a)) := by
  intro mm_params g g'
  have hsame : (tracked t balances).initial_token = (tracked t balances').initial_token :=
    (tracked_initial ht balances).trans (tracked_initial ht balances').symm
  have hskew := skew_antitone hsame h mm_params
  have hleans : Leans g g' := grid_at_leans config agg_model _ state _ (Rat.cast_le.mpr hskew)
  refine ⟨hleans, fun hlt i p a a' hp ha ha' => ?_⟩
  have hp' : g'.buy_prices[i]? = some p := by
    rw [hleans.buy_prices]
    exact hp
  have hscale := zero_lt_one.trans_le (one_le_buy_scale agg_model.cfg.hmm state.hmm_regime)
  rcases le_or_gt p 0 with hle | hpos
  · have hmin := (⟨config.depth⟩ : DepthEngine).min_order_pos
    rw [buy_amount_of_nonpos config agg_model mm_params state _ hp ha hle,
      buy_amount_of_nonpos config agg_model mm_params state _ hp' ha' hle, mul_zero]
    exact iff_of_false (lt_irrefl 0) (mul_pos hmin hscale).not_gt
  · have hworth := buy_amount_eq config agg_model mm_params state _ hp ha hpos
    have hworth' := buy_amount_eq config agg_model mm_params state _ hp' ha' hpos
    rw [← mul_lt_mul_iff_right₀ hpos, hworth, hworth', mul_lt_mul_iff_left₀ hscale,
      mul_lt_mul_iff_left₀ hscale]
    rcases le_or_gt mm_params.depth_mult 0 with hzero | hmult
    · have hzero : ((mm_params.depth_mult : ℚ) : ℝ) ≤ 0 := by exact_mod_cast hzero
      rw [level_of_no_budget hzero, level_of_no_budget hzero]
    · have hmult : (0 : ℝ) < mm_params.depth_mult := Rat.cast_pos.mpr hmult
      have hbudget := buy_budget_strictMono ⟨config.depth⟩ hmult
        (skew_mem_real (tracked t balances') mm_params).1
        (skew_mem_real (tracked t balances) mm_params).2 (Rat.cast_lt.mpr hlt)
      have hn : 0 < (config.spread.buy_levels.getD config.depth.levels).1 :=
        le_trans (by decide) (config.spread.buy_levels.getD config.depth.levels).2.1
      exact level_lt_iff hn hbudget i

/-- The grid of a bot that started with 100 tokens. -/
noncomputable def crash_grid (balance : Balance) : TickGrid.OrderGrid ℝ :=
  grid default_bot ⟨default⟩ {}
    (tracked { initial_usd := some 100, initial_token := some 100 } [balance]) crash

/-- A bot that has sold 20 tokens, and one that has bought as many, in a crash. -/
theorem grid_leans_crash : Leans (crash_grid ⟨120, 80, "USDT"⟩) (crash_grid ⟨80, 120, "USDT"⟩) ∧
    ∀ (i : ℕ) (p a a' : ℝ), (crash_grid ⟨120, 80, "USDT"⟩).buy_prices[i]? = some p →
      (crash_grid ⟨120, 80, "USDT"⟩).buy_amounts[i]? = some a →
      (crash_grid ⟨80, 120, "USDT"⟩).buy_amounts[i]? = some a' →
      (a' < a ↔ (⟨default⟩ : DepthEngine).min_order *
        buy_scale (default : VolatilityConfig).hmm crash.hmm_regime < p * a) :=
  have h := grid_leans default_bot ⟨default⟩ {} crash
    { initial_usd := some 100, initial_token := some 100 } rfl [⟨120, 80, "USDT"⟩] [⟨80, 120, "USDT"⟩]
    (by decide +kernel)
  ⟨h.1, h.2 (by decide +kernel)⟩

end Meridian.InventorySkew
