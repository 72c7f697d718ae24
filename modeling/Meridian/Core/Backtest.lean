import Meridian.Core.FillSimulator
import Meridian.Core.InventoryTracker
import Meridian.Quant.Aggressiveness
import Meridian.Quant.DepthEngine
import Meridian.Quant.Volatility
import Meridian.Quant.SpreadEngine

/-!
# The backtest

Model of `scripts/backtest.py` (60-109, 159-403): the grids of a run over historical candles, each
against a synthetic book of its candle. Numbers are rational, and the powers and roots that enter the
grid are functions on them of which `UnitPowers` is all that is used. The printed summary and the CSV
trace are left out.

Results:
* `synthesise_book_between`: the synthetic book keeps half the minimal spread from the close on both
  sides;
* `backtest_never_fills`: no grid ever reaches it, so that a backtest of whatever history ends with no
  fill and with the balances it began with.

Out of scope: the rounding of doubles.
-/

namespace Meridian.Backtest

/-! ## The synthetic book -/

/-- `MIN_SPREAD_PCT` -/
def MIN_SPREAD_PCT : ℚ := 1 / 1000

/-- `MAX_SPREAD_PCT` -/
def MAX_SPREAD_PCT : ℚ := 1 / 50

/-- `BOOK_LEVELS` -/
def BOOK_LEVELS : ℕ := 20

/-- `BOOK_DEPTH_DECAY` -/
def BOOK_DEPTH_DECAY : ℚ := 85 / 100

/-- The levels of a side, from `price` on and `step` apart, each with less than the one before. -/
def ladder (step : ℚ) : ℕ → (price qty : ℚ) → Levels
  | 0, _, _ => []
  | n + 1, price, qty => (price, qty) :: ladder step n (price + step) (qty * BOOK_DEPTH_DECAY)

/-- `synthesise_book` (`backtest.py:71-109`). -/
def synthesise_book (candle : Candle) (exchange : String) : OrderBook :=
  let mid := candle.close
  if mid ≤ 0 then { exchange := exchange, bids := [], asks := [], timestamp := candle.timestamp }
  else
    let raw_spread := (candle.high - candle.low) / mid
    let spread_pct := max MIN_SPREAD_PCT (min MAX_SPREAD_PCT raw_spread)
    let half_spread := mid * spread_pct / 2
    let total_qty := max candle.volume 1000
    let level_qty := total_qty / BOOK_LEVELS
    let step := mid * (5 / 10000)
    { exchange := exchange
      bids := ladder (-step) BOOK_LEVELS (mid - half_spread) level_qty
      asks := ladder step BOOK_LEVELS (mid + half_spread) level_qty
      timestamp := candle.timestamp }

/-! ## The run -/

/-- `BacktestStats` (`backtest.py:164-174`). -/
structure BacktestStats where
  total_fills : ℕ := 0
  buy_fills : ℕ := 0
  sell_fills : ℕ := 0
  total_buy_qty : ℚ := 0
  total_sell_qty : ℚ := 0
  total_buy_usd : ℚ := 0
  total_sell_usd : ℚ := 0
  total_fees_usd : ℚ := 0
  realised_pnl_usd : ℚ := 0
  deriving DecidableEq

/-- One of the two loops of `make_grid_orders`; `tag` is the letter of its ids. -/
def side_orders (exchange : String) (side : Side) (tag : String) (tick_id : ℕ)
    (prices amounts : List ℚ) : List Order :=
  (prices.zip amounts).zipIdx.filterMap fun ((p, a), i) =>
    if p ≤ 0 ∨ a ≤ 0 then none
    else
      some
        { id := "bt_" ++ toString tick_id ++ "_" ++ tag ++ toString i
          exchange := exchange
          symbol := "ALKIMI/USDT"
          side := side
          price := p
          amount := a
          amount_usd := p * a
          status := "open"
          timestamp := tick_id }

/-- `make_grid_orders` (`backtest.py:177-214`). -/
def make_grid_orders (exchange : String) (buy_prices buy_amounts sell_prices sell_amounts : List ℚ)
    (tick_id : ℕ) : List Order :=
  side_orders exchange .buy "b" tick_id buy_prices buy_amounts ++
    side_orders exchange .sell "s" tick_id sell_prices sell_amounts

theorem window_minutes_mem : 1 ≤ 10 ∧ 10 ≤ 60 := by decide

theorem low_threshold_pos : (0 : ℚ) < 1 / 1000 := by norm_num

theorem high_threshold_pos : (0 : ℚ) < 3 / 1000 := by norm_num

theorem power_mem : (1 : ℚ) ≤ 2 ∧ (2 : ℚ) ≤ 5 := by norm_num

/-- `vol_cfg` -/
def vol_cfg : VolatilityConfig :=
  { (default : VolatilityConfig) with
    window_minutes := ⟨10, window_minutes_mem⟩
    low_threshold := ⟨1 / 1000, low_threshold_pos⟩
    high_threshold := ⟨3 / 1000, high_threshold_pos⟩
    power := ⟨2, power_mem⟩ }

theorem buy_min_pct_neg : (-5 : ℚ) < 0 := by norm_num

theorem buy_max_pct_neg : (-1 / 10 : ℚ) < 0 := by norm_num

theorem curve_strength_mem : (1 / 2 : ℚ) ≤ 4 ∧ (4 : ℚ) ≤ 10 := by norm_num

/-- `spread_cfg` -/
def spread_cfg : SpreadConfig :=
  { (default : SpreadConfig) with
    buy_min_pct := ⟨-5, buy_min_pct_neg⟩
    buy_max_pct := ⟨-1 / 10, buy_max_pct_neg⟩
    sell_min_pct := 3 / 10
    sell_max_pct := 7
    curve_strength := ⟨4, curve_strength_mem⟩ }

theorem levels_mem : 3 ≤ 15 ∧ 15 ≤ 30 := by decide

theorem min_order_usd_pos : (0 : ℚ) < 5 := by norm_num

theorem initial_usd_pos : (0 : ℚ) < 1000 := by norm_num

/-- `depth_cfg`; `DepthConfig` refuses a capital that is not positive. -/
def depth_cfg (initial_usd : Gt 0) : DepthConfig :=
  { (default : DepthConfig) with
    levels := ⟨15, levels_mem⟩
    total_budget_usd := initial_usd
    curve_strength := ⟨4, curve_strength_mem⟩
    min_order_usd := ⟨5, min_order_usd_pos⟩ }

/-- `FillSimulator(maker_fee_bps=10.0).maker_fee_rate` -/
def maker_fee_rate : ℚ := 10 / 10000

/-- What the loop over the candles carries along. -/
structure State where
  vol_engine : VolatilityEngine ℚ
  inventory : InventoryTracker
  stats : BacktestStats := {}
  usd_balance : ℚ
  token_balance : ℚ

/-- Step 6, for one fill (`backtest.py:325-342`). -/
def book_fill (s : State) (f : SimulatedFill) : State :=
  let notional := f.price * f.amount
  let stats :=
    { s.stats with
      total_fills := s.stats.total_fills + 1
      total_fees_usd := s.stats.total_fees_usd + f.fee }
  match f.side with
  | .buy =>
    { s with
      stats :=
        { stats with
          buy_fills := stats.buy_fills + 1
          total_buy_qty := stats.total_buy_qty + f.amount
          total_buy_usd := stats.total_buy_usd + notional }
      usd_balance := s.usd_balance - (notional + f.fee)
      token_balance := s.token_balance + f.amount }
  | .sell =>
    { s with
      stats :=
        { stats with
          sell_fills := stats.sell_fills + 1
          total_sell_qty := stats.total_sell_qty + f.amount
          total_sell_usd := stats.total_sell_usd + notional
          realised_pnl_usd := stats.realised_pnl_usd + f.pnl_usd }
      usd_balance := s.usd_balance + (notional - f.fee)
      token_balance := s.token_balance - f.amount }

section Run

variable [MathFunctions ℚ] [ExpFunction ℚ]

/-- The grid of a candle (`backtest.py:284-318`). -/
def grid_orders (exchange : String) (depth_engine : DepthEngine) (s : State) (skew mid : ℚ)
    (tick_id : ℕ) : List Order :=
  let agg := (AggressivenessModel.mk vol_cfg).compute s.vol_engine.rolling_vol
  let n_levels := depth_engine.cfg.levels.1
  let spread_engine : SpreadEngine := ⟨spread_cfg⟩
  let spreads := spread_engine.compute_levels_dual agg agg n_levels
  let buy_prices := SpreadEngine.prices_from_spreads mid spreads.1
  let sell_prices := SpreadEngine.prices_from_spreads mid spreads.2
  let buy_usd := depth_engine.compute_amounts agg n_levels skew "buy" 0 1
  let sell_usd := depth_engine.compute_amounts agg n_levels skew "sell" 0 1
  let buy_amounts := List.zipWith DepthEngine.usd_to_token_amount buy_usd buy_prices
  let sell_amounts := List.zipWith DepthEngine.usd_to_token_amount sell_usd sell_prices
  -- no more than the balances allow
  let buy_amounts := List.zipWith (fun a p => min a (max 0 (s.usd_balance / max p (1 / 10 ^ 9))))
    buy_amounts buy_prices
  let sell_amounts := sell_amounts.map fun a => min a (max 0 s.token_balance)
  make_grid_orders exchange buy_prices buy_amounts sell_prices sell_amounts tick_id

/-- One round of the loop over the candles (`backtest.py:270-342`); `now` is when the simulator reads
the clock. -/
def round (exchange : String) (depth_engine : DepthEngine) (now : ℚ) (s : State) (tick_id : ℕ)
    (candle : Candle) : State :=
  let s := { s with vol_engine := s.vol_engine.update_price candle.close }
  if s.vol_engine.closes.items.length < vol_cfg.window_minutes.1 then s
  else
    let s := { s with inventory := s.inventory.update ⟨s.usd_balance, s.token_balance, "USDT"⟩ }
    let orders := grid_orders exchange depth_engine s s.inventory.skew_factor candle.close tick_id
    let fills := FillSimulator.simulate maker_fee_rate now orders
      (synthesise_book candle exchange) candle.close
    fills.foldl book_fill s

/-- The loop, from candle `tick_id` on. -/
def rounds (exchange : String) (depth_engine : DepthEngine) (now : ℕ → ℚ) :
    ℕ → State → List Candle → State
  | _, s, [] => s
  | tick_id, s, candle :: candles =>
    rounds exchange depth_engine now (tick_id + 1)
      (round exchange depth_engine (now tick_id) s tick_id candle) candles

/-- `run_backtest` (`backtest.py:217-403`): its statistics and the balances it ends with. -/
def run_backtest (now : ℕ → ℚ) (candles : List Candle) (exchange : String) (initial_usd : Gt 0)
    (initial_token : ℚ) : BacktestStats × ℚ × ℚ :=
  let inventory := ({} : InventoryTracker).record_initial ⟨initial_usd.1, initial_token, "USDT"⟩
  let s := rounds exchange ⟨depth_cfg initial_usd⟩ now 0
    { vol_engine := { cfg := vol_cfg }, inventory := inventory, usd_balance := initial_usd.1
      token_balance := initial_token } candles
  (s.stats, s.usd_balance, s.token_balance)

end Run

/-! ## The book keeps away from the close -/

variable {candle : Candle} {exchange : String} {tick_id : ℕ}

theorem head?_ladder {step price qty : ℚ} {n : ℕ} {best : ℚ × ℚ}
    (h : best ∈ (ladder step n price qty).head?) : best.1 = price := by
  cases n with
  | zero => exact nomatch h
  | succ n =>
    obtain rfl := Option.some.inj h
    rfl

/-- **The synthetic book** is empty, or its best levels are half the minimal spread from the close. -/
theorem synthesise_book_between (candle : Candle) (exchange : String) :
    (∀ best ∈ (synthesise_book candle exchange).asks.head?, 0 < candle.close ∧
      candle.close * (1 + MIN_SPREAD_PCT / 2) ≤ best.1) ∧
    ∀ best ∈ (synthesise_book candle exchange).bids.head?, 0 < candle.close ∧
      best.1 ≤ candle.close * (1 - MIN_SPREAD_PCT / 2) := by
  unfold synthesise_book
  simp only
  split
  · exact ⟨(fun best h => nomatch h), fun best h => nomatch h⟩
  · rename_i hmid
    have hpos : 0 < candle.close := not_le.mp hmid
    have hhalf := mul_le_mul_of_nonneg_left (le_max_left MIN_SPREAD_PCT
      (min MAX_SPREAD_PCT ((candle.high - candle.low) / candle.close))) hpos.le
    refine ⟨fun best h => ⟨hpos, ?_⟩, fun best h => ⟨hpos, ?_⟩⟩
    · rw [head?_ladder h]
      linarith
    · rw [head?_ladder h]
      linarith

/-! ## The grid keeps away from the close -/

theorem mem_side_orders {side : Side} {tag : String} {prices amounts : List ℚ} {o : Order}
    (h : o ∈ side_orders exchange side tag tick_id prices amounts) :
    o.side = side ∧ o.price ∈ prices := by
  obtain ⟨⟨⟨p, a⟩, i⟩, hx, ho⟩ := List.mem_filterMap.mp h
  have hp : p ∈ prices := (List.of_mem_zip (List.fst_mem_of_mem_zipIdx hx)).1
  simp only at ho
  split at ho
  · exact nomatch ho
  · obtain rfl := Option.some.inj ho
    exact ⟨rfl, hp⟩

theorem mem_prices {mid p lo hi : ℚ} {spreads : List ℚ} (hmid : 0 < mid)
    (hs : ∀ s ∈ spreads, lo ≤ s ∧ s ≤ hi) (hp : p ∈ SpreadEngine.prices_from_spreads mid spreads) :
    mid * (1 + lo / 100) ≤ p ∧ p ≤ mid * (1 + hi / 100) := by
  obtain ⟨s, hmem, rfl⟩ := List.mem_map.mp hp
  obtain ⟨hlo, hhi⟩ := hs s hmem
  rw [Rat.cast_ofNat]
  exact ⟨mul_le_mul_of_nonneg_left (by linarith) hmid.le,
    mul_le_mul_of_nonneg_left (by linarith) hmid.le⟩

/-- What is used of the powers and the exponentials: the powers of a number in [0, 1] are there too. -/
structure UnitPowers [MathFunctions ℚ] [ExpFunction ℚ] : Prop where
  exp_nonneg : ∀ x : ℚ, 0 ≤ ExpFunction.exp x
  pow_mem : ∀ t g : ℚ, 0 ≤ t → t ≤ 1 → 0 ≤ g →
    0 ≤ MathFunctions.pow t g ∧ MathFunctions.pow t g ≤ 1

variable [MathFunctions ℚ] [ExpFunction ℚ]

/-- A level lies between the two bounds. -/
theorem UnitPowers.level_mem (h : UnitPowers) {e : SpreadEngine} {tightest widest agg s : ℚ} {n : ℕ}
    (hs : s ∈ e.compute_side_levels tightest widest agg n none) :
    min tightest widest ≤ s ∧ s ≤ max tightest widest := by
  obtain ⟨t, ht, rfl⟩ := List.mem_map.mp hs
  obtain ⟨h0, h1⟩ := mem_linspace ht
  obtain ⟨hp0, hp1⟩ := h.pow_mem t _ h0 h1 (h.exp_nonneg _)
  rcases le_total tightest widest with hle | hle
  · rw [min_eq_left hle, max_eq_right hle]
    constructor <;> nlinarith only [hp0, hp1, hle]
  · rw [min_eq_right hle, max_eq_left hle]
    constructor <;> nlinarith only [hp0, hp1, hle]

/-- Every buy of a grid is at 0.1 % below the close or more, every sell at 0.3 % above it or more. -/
theorem UnitPowers.grid_away (h : UnitPowers) {depth_engine : DepthEngine} {s : State} {skew mid : ℚ}
    {o : Order} (hmid : 0 < mid)
    (ho : o ∈ grid_orders exchange depth_engine s skew mid tick_id) :
    (o.side = .buy → o.price ≤ mid * (1 + -(1 / 10) / 100)) ∧
      (o.side = .sell → mid * (1 + 3 / 10 / 100) ≤ o.price) := by
  rcases List.mem_append.mp ho with ho | ho
  · obtain ⟨hside, hp⟩ := mem_side_orders ho
    have hlevels : mid * (1 + -5 / 100) ≤ o.price ∧ o.price ≤ mid * (1 + -(1 / 10) / 100) :=
      mem_prices hmid (fun x hx => ?_) hp
    · exact ⟨fun _ => hlevels.2, fun hsell => nomatch hside.symm.trans hsell⟩
    · have hmem := h.level_mem hx
      norm_num [spread_cfg] at hmem
      exact hmem
  · obtain ⟨hside, hp⟩ := mem_side_orders ho
    have hlevels : mid * (1 + 3 / 10 / 100) ≤ o.price ∧ o.price ≤ mid * (1 + 7 / 100) :=
      mem_prices hmid (fun x hx => ?_) hp
    · exact ⟨fun hbuy => (nomatch hside.symm.trans hbuy), fun _ => hlevels.1⟩
    · have hmem := h.level_mem hx
      norm_num [spread_cfg] at hmem
      exact hmem

/-! ## The run -/

/-- The grid of a candle does not reach its book. -/
theorem UnitPowers.no_fills (h : UnitPowers) (depth_engine : DepthEngine) (s : State) (skew now : ℚ) :
    FillSimulator.simulate maker_fee_rate now
      (grid_orders exchange depth_engine s skew candle.close tick_id)
      (synthesise_book candle exchange) candle.close = [] := by
  obtain ⟨hasks, hbids⟩ := synthesise_book_between candle exchange
  refine FillSimulator.simulate_eq_nil (fun best hbest o ho hside => ?_)
    fun best hbest o ho hside => ?_
  · obtain ⟨hclose, hask⟩ := hasks best hbest
    have hbuy := (h.grid_away hclose ho).1 hside
    unfold MIN_SPREAD_PCT at hask
    linarith
  · obtain ⟨hclose, hbid⟩ := hbids best hbest
    have hsell := (h.grid_away hclose ho).2 hside
    unfold MIN_SPREAD_PCT at hbid
    linarith

/-- **One candle** leaves the statistics and the balances as they are. -/
theorem UnitPowers.round_idle (h : UnitPowers) (exchange : String) (depth_engine : DepthEngine)
    (now : ℚ) (s : State) (tick_id : ℕ) (candle : Candle) :
    (round exchange depth_engine now s tick_id candle).stats = s.stats ∧
      (round exchange depth_engine now s tick_id candle).usd_balance = s.usd_balance ∧
      (round exchange depth_engine now s tick_id candle).token_balance = s.token_balance := by
  unfold round
  simp only
  split
  · exact ⟨rfl, rfl, rfl⟩
  · rw [h.no_fills, List.foldl_nil]
    exact ⟨rfl, rfl, rfl⟩

theorem UnitPowers.rounds_idle (h : UnitPowers) (exchange : String) (depth_engine : DepthEngine)
    (now : ℕ → ℚ) :
    ∀ (candles : List Candle) (tick_id : ℕ) (s : State),
      (rounds exchange depth_engine now tick_id s candles).stats = s.stats ∧
        (rounds exchange depth_engine now tick_id s candles).usd_balance = s.usd_balance ∧
        (rounds exchange depth_engine now tick_id s candles).token_balance = s.token_balance := by
  intro candles
  induction candles with
  | nil => exact fun _ _ => ⟨rfl, rfl, rfl⟩
  | cons candle candles ih =>
    intro tick_id s
    obtain ⟨hstats, husd, htoken⟩ := ih (tick_id + 1)
      (round exchange depth_engine (now tick_id) s tick_id candle)
    obtain ⟨hstats', husd', htoken'⟩ :=
      h.round_idle exchange depth_engine (now tick_id) s tick_id candle
    exact ⟨hstats.trans hstats', husd.trans husd', htoken.trans htoken'⟩

/-- **The backtest never fills an order**, whatever the candles: no grid reaches the book that is
made up around the close of its candle. So the statistics are all zero, and the run ends with the
balances it began with. -/
theorem backtest_never_fills (h : UnitPowers) (now : ℕ → ℚ) (candles : List Candle)
    (exchange : String) (initial_usd : Gt 0) (initial_token : ℚ) :
    run_backtest now candles exchange initial_usd initial_token =
      ({}, initial_usd.1, initial_token) := by
  obtain ⟨hstats, husd, htoken⟩ := h.rounds_idle exchange ⟨depth_cfg initial_usd⟩ now candles 0
    { vol_engine := { cfg := vol_cfg }
      inventory := ({} : InventoryTracker).record_initial ⟨initial_usd.1, initial_token, "USDT"⟩
      usd_balance := initial_usd.1, token_balance := initial_token }
  exact Prod.ext hstats (Prod.ext husd htoken)

omit [MathFunctions ℚ] [ExpFunction ℚ] in
theorem rounded_powers : @UnitPowers roundedMath roundedExp := by
  refine @UnitPowers.mk roundedMath roundedExp (fun x => ?_) fun t g h0 h1 hg => ⟨?_, ?_⟩
  · exact rounded_nonneg (Real.exp_pos _).le
  · exact rounded_nonneg (Real.rpow_nonneg (Rat.cast_nonneg.mpr h0) _)
  · exact rounded_le_one (Real.rpow_le_one (Rat.cast_nonneg.mpr h0) (by exact_mod_cast h1)
      (Rat.cast_nonneg.mpr hg))

/-- An hour in which the price falls by a percent each minute, and each minute is traded five percent
around it. -/
def crash : List Candle :=
  (List.range 60).map fun i : ℕ =>
    { timestamp := 60 * i
      «open» := 1 - i / 100 + 1 / 100
      high := 1 - i / 100 + 5 / 100
      low := 1 - i / 100 - 5 / 100
      close := 1 - i / 100
      volume := 1000000 }

omit [MathFunctions ℚ] [ExpFunction ℚ] in
theorem backtest_never_fills_crash :
    @run_backtest roundedMath roundedExp (fun i => i) crash "kucoin" ⟨1000, initial_usd_pos⟩ 10000 =
      ({}, 1000, 10000) :=
  @backtest_never_fills roundedMath roundedExp rounded_powers (fun i => i) crash "kucoin"
    ⟨1000, initial_usd_pos⟩ 10000

end Meridian.Backtest
