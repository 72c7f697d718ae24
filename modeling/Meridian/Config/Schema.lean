import Mathlib.Algebra.Order.Ring.Rat
import Mathlib.Tactic.NormNum
import Meridian.Lib.Codec

/-!
# The configuration

Model of `config/schema.py`: the sections of `bot.json` with the bounds of their fields as types,
their defaults, and how they are dumped and validated. A validator runs on the fields a document
names and not on defaults, so `high_threshold` and the weights are compared with the others only
where `high_threshold` and `binance` are given, and the empty list of exchanges is a default that no
document may give. Numbers, booleans and texts are read from JSON values of their own kind.
-/

namespace Meridian

/-! ## Bounds -/

/-- `Field(ge=lo)` -/
abbrev Ge (lo : ℚ) := {q : ℚ // lo ≤ q}

/-- `Field(gt=lo)` -/
abbrev Gt (lo : ℚ) := {q : ℚ // lo < q}

/-- `Field(ge=lo, le=hi)` -/
abbrev Within (lo hi : ℚ) := {q : ℚ // lo ≤ q ∧ q ≤ hi}

/-- `Field(gt=0, le=100)` -/
abbrev Percent := {q : ℚ // 0 < q ∧ q ≤ 100}

/-- `buy_min_must_be_negative` and `buy_max_must_be_negative` -/
abbrev Negative := {q : ℚ // q < 0}

/-- An `int` with `Field(ge=lo)` -/
abbrev GeNat (lo : ℕ) := {n : ℕ // lo ≤ n}

/-- An `int` with `Field(ge=lo, le=hi)` -/
abbrev WithinNat (lo hi : ℕ) := {n : ℕ // lo ≤ n ∧ n ≤ hi}

/-! ## Spread -/

/-- `SpreadConfig` (`schema.py:16-45`). -/
structure SpreadConfig where
  buy_min_pct : Negative := ⟨-5, by norm_num⟩
  buy_max_pct : Negative := ⟨-1 / 10, by norm_num⟩
  sell_min_pct : ℚ := 3 / 10
  sell_max_pct : ℚ := 7
  curve_strength : Within (1 / 2) 10 := ⟨4, by norm_num⟩
  buy_levels : Option (WithinNat 3 30) := none
  sell_levels : Option (WithinNat 3 30) := none
  buy_curve_strength : Option (Within (1 / 2) 10) := none
  sell_curve_strength : Option (Within (1 / 2) 10) := none
  buy_min_step : Ge 0 := ⟨0, by norm_num⟩
  sell_min_step : Ge 0 := ⟨0, by norm_num⟩
  tick_size : Gt 0 := ⟨1 / 10000, by norm_num⟩
  deriving DecidableEq

instance : Inhabited SpreadConfig := ⟨{}⟩

namespace SpreadConfig

/-- The fields of `SpreadConfig`. -/
def fields :=
  Fields.cons ⟨"buy_min_pct", .number _, some ({} : SpreadConfig).buy_min_pct⟩ <|
  Fields.cons ⟨"buy_max_pct", .number _, some ({} : SpreadConfig).buy_max_pct⟩ <|
  Fields.cons ⟨"sell_min_pct", .rational, some ({} : SpreadConfig).sell_min_pct⟩ <|
  Fields.cons ⟨"sell_max_pct", .rational, some ({} : SpreadConfig).sell_max_pct⟩ <|
  Fields.cons ⟨"curve_strength", .number _, some ({} : SpreadConfig).curve_strength⟩ <|
  Fields.cons ⟨"buy_levels", .nullable (.natural _) fun _ => rfl,
    some ({} : SpreadConfig).buy_levels⟩ <|
  Fields.cons ⟨"sell_levels", .nullable (.natural _) fun _ => rfl,
    some ({} : SpreadConfig).sell_levels⟩ <|
  Fields.cons ⟨"buy_curve_strength", .nullable (.number _) fun _ => rfl,
    some ({} : SpreadConfig).buy_curve_strength⟩ <|
  Fields.cons ⟨"sell_curve_strength", .nullable (.number _) fun _ => rfl,
    some ({} : SpreadConfig).sell_curve_strength⟩ <|
  Fields.cons ⟨"buy_min_step", .number _, some ({} : SpreadConfig).buy_min_step⟩ <|
  Fields.cons ⟨"sell_min_step", .number _, some ({} : SpreadConfig).sell_min_step⟩ <|
  Fields.cons ⟨"tick_size", .number _, some ({} : SpreadConfig).tick_size⟩ Fields.nil

/-- A `SpreadConfig` is the tuple of its fields. -/
def tuple : SpreadConfig ≃ fields.Values where
  toFun c := (c.buy_min_pct, c.buy_max_pct, c.sell_min_pct, c.sell_max_pct, c.curve_strength,
    c.buy_levels, c.sell_levels, c.buy_curve_strength, c.sell_curve_strength, c.buy_min_step,
    c.sell_min_step, c.tick_size, ())
  invFun x :=
    let (a, b, c, d, e, f, g, h, i, j, k, l, _) := x
    ⟨a, b, c, d, e, f, g, h, i, j, k, l⟩
  left_inv _ := rfl
  right_inv _ := rfl

/-- How it is dumped and validated. -/
def codec : Codec SpreadConfig := .model fields tuple fun _ _ => true

end SpreadConfig

/-! ## Depth -/

/-- `DepthConfig` (`schema.py:48-54`). -/
structure DepthConfig where
  levels : WithinNat 3 30 := ⟨15, by decide⟩
  total_budget_usd : Gt 0 := ⟨1000, by norm_num⟩
  curve_strength : Within (1 / 2) 10 := ⟨4, by norm_num⟩
  min_order_usd : Gt 0 := ⟨5, by norm_num⟩
  min_step_usd : Ge 0 := ⟨0, by norm_num⟩
  deriving DecidableEq

instance : Inhabited DepthConfig := ⟨{}⟩

namespace DepthConfig

/-- The fields of `DepthConfig`. -/
def fields :=
  Fields.cons ⟨"levels", .natural _, some ({} : DepthConfig).levels⟩ <|
  Fields.cons ⟨"total_budget_usd", .number _, some ({} : DepthConfig).total_budget_usd⟩ <|
  Fields.cons ⟨"curve_strength", .number _, some ({} : DepthConfig).curve_strength⟩ <|
  Fields.cons ⟨"min_order_usd", .number _, some ({} : DepthConfig).min_order_usd⟩ <|
  Fields.cons ⟨"min_step_usd", .number _, some ({} : DepthConfig).min_step_usd⟩ Fields.nil

/-- A `DepthConfig` is the tuple of its fields. -/
def tuple : DepthConfig ≃ fields.Values where
  toFun c := (c.levels, c.total_budget_usd, c.curve_strength, c.min_order_usd, c.min_step_usd, ())
  invFun x :=
    let (a, b, c, d, e, _) := x
    ⟨a, b, c, d, e⟩
  left_inv _ := rfl
  right_inv _ := rfl

/-- How it is dumped and validated. -/
def codec : Codec DepthConfig := .model fields tuple fun _ _ => true

end DepthConfig

/-! ## Volatility -/

/-- `HMMConfig` (`schema.py:57-78`). -/
structure HMMConfig where
  enabled : Bool := true
  hmm_lookback : WithinNat 10 120 := ⟨30, by decide⟩
  hmm_min_observations : WithinNat 3 30 := ⟨10, by decide⟩
  refit_interval : WithinNat 50 500 := ⟨100, by decide⟩
  crash_buy_agg_floor : Within (1 / 10) 1 := ⟨6 / 10, by norm_num⟩
  crash_sell_agg_ceiling : Within 0 (1 / 2) := ⟨1 / 10, by norm_num⟩
  crash_buy_depth_multiplier : Within 1 3 := ⟨3 / 2, by norm_num⟩
  crash_sell_depth_factor : Within 0 1 := ⟨3 / 10, by norm_num⟩
  recovery_buy_agg_boost : Within 1 2 := ⟨6 / 5, by norm_num⟩
  recovery_sell_agg_dampen : Within (3 / 10) 1 := ⟨7 / 10, by norm_num⟩
  deriving DecidableEq

instance : Inhabited HMMConfig := ⟨{}⟩

namespace HMMConfig

/-- The fields of `HMMConfig`. -/
def fields :=
  Fields.cons ⟨"enabled", .boolean, some ({} : HMMConfig).enabled⟩ <|
  Fields.cons ⟨"hmm_lookback", .natural _, some ({} : HMMConfig).hmm_lookback⟩ <|
  Fields.cons ⟨"hmm_min_observations", .natural _, some ({} : HMMConfig).hmm_min_observations⟩ <|
  Fields.cons ⟨"refit_interval", .natural _, some ({} : HMMConfig).refit_interval⟩ <|
  Fields.cons ⟨"crash_buy_agg_floor", .number _, some ({} : HMMConfig).crash_buy_agg_floor⟩ <|
  Fields.cons ⟨"crash_sell_agg_ceiling", .number _,
    some ({} : HMMConfig).crash_sell_agg_ceiling⟩ <|
  Fields.cons ⟨"crash_buy_depth_multiplier", .number _,
    some ({} : HMMConfig).crash_buy_depth_multiplier⟩ <|
  Fields.cons ⟨"crash_sell_depth_factor", .number _,
    some ({} : HMMConfig).crash_sell_depth_factor⟩ <|
  Fields.cons ⟨"recovery_buy_agg_boost", .number _,
    some ({} : HMMConfig).recovery_buy_agg_boost⟩ <|
  Fields.cons ⟨"recovery_sell_agg_dampen", .number _,
    some ({} : HMMConfig).recovery_sell_agg_dampen⟩ Fields.nil

/-- An `HMMConfig` is the tuple of its fields. -/
def tuple : HMMConfig ≃ fields.Values where
  toFun c := (c.enabled, c.hmm_lookback, c.hmm_min_observations, c.refit_interval,
    c.crash_buy_agg_floor, c.crash_sell_agg_ceiling, c.crash_buy_depth_multiplier,
    c.crash_sell_depth_factor, c.recovery_buy_agg_boost, c.recovery_sell_agg_dampen, ())
  invFun x :=
    let (a, b, c, d, e, f, g, h, i, j, _) := x
    ⟨a, b, c, d, e, f, g, h, i, j⟩
  left_inv _ := rfl
  right_inv _ := rfl

/-- How it is dumped and validated. -/
def codec : Codec HMMConfig := .model fields tuple fun _ _ => true

end HMMConfig

/-- `VolatilityConfig` (`schema.py:81-119`). -/
structure VolatilityConfig where
  window_minutes : WithinNat 1 60 := ⟨10, by decide⟩
  low_threshold : Gt 0 := ⟨1 / 1000, by norm_num⟩
  high_threshold : Gt 0 := ⟨3 / 1000, by norm_num⟩
  power : Within 1 5 := ⟨2, by norm_num⟩
  base_aggressiveness : Within 0 1 := ⟨1, by norm_num⟩
  trending_threshold : Gt 0 := ⟨15 / 10000, by norm_num⟩
  choppy_threshold : Ge 0 := ⟨5 / 10000, by norm_num⟩
  hmm : HMMConfig := default
  deriving DecidableEq

instance : Inhabited VolatilityConfig := ⟨{}⟩

namespace VolatilityConfig

/-- The fields of `VolatilityConfig`. -/
def fields :=
  Fields.cons ⟨"window_minutes", .natural _, some ({} : VolatilityConfig).window_minutes⟩ <|
  Fields.cons ⟨"low_threshold", .number _, some ({} : VolatilityConfig).low_threshold⟩ <|
  Fields.cons ⟨"high_threshold", .number _, some ({} : VolatilityConfig).high_threshold⟩ <|
  Fields.cons ⟨"power", .number _, some ({} : VolatilityConfig).power⟩ <|
  Fields.cons ⟨"base_aggressiveness", .number _,
    some ({} : VolatilityConfig).base_aggressiveness⟩ <|
  Fields.cons ⟨"trending_threshold", .number _,
    some ({} : VolatilityConfig).trending_threshold⟩ <|
  Fields.cons ⟨"choppy_threshold", .number _, some ({} : VolatilityConfig).choppy_threshold⟩ <|
  Fields.cons ⟨"hmm", HMMConfig.codec, some ({} : VolatilityConfig).hmm⟩ Fields.nil

/-- A `VolatilityConfig` is the tuple of its fields. -/
def tuple : VolatilityConfig ≃ fields.Values where
  toFun c := (c.window_minutes, c.low_threshold, c.high_threshold, c.power, c.base_aggressiveness,
    c.trending_threshold, c.choppy_threshold, c.hmm, ())
  invFun x :=
    let (a, b, c, d, e, f, g, h, _) := x
    ⟨a, b, c, d, e, f, g, h⟩
  left_inv _ := rfl
  right_inv _ := rfl

/-- `high_must_exceed_low` -/
def high_must_exceed_low (d : Dict) (c : VolatilityConfig) : Bool :=
  (d.get "high_threshold").isNone || decide (c.low_threshold.1 < c.high_threshold.1)

/-- How it is dumped and validated. -/
def codec : Codec VolatilityConfig := .model fields tuple high_must_exceed_low

end VolatilityConfig

/-! ## Safety -/

/-- `SafetyConfig` (`schema.py:122-131`). -/
structure SafetyConfig where
  min_balance_usd : Ge 0 := ⟨50, by norm_num⟩
  min_balance_token : Ge 0 := ⟨100, by norm_num⟩
  max_requests_per_second : WithinNat 1 30 := ⟨8, by decide⟩
  heartbeat_interval_s : Ge 1 := ⟨5, by norm_num⟩
  max_missed_heartbeats : GeNat 1 := ⟨3, by decide⟩
  max_daily_loss_pct : Percent := ⟨10, by norm_num⟩
  max_drawdown_pct : Percent := ⟨15, by norm_num⟩
  alert_webhook_url : Option String := none
  deriving DecidableEq

instance : Inhabited SafetyConfig := ⟨{}⟩

namespace SafetyConfig

/-- The fields of `SafetyConfig`. -/
def fields :=
  Fields.cons ⟨"min_balance_usd", .number _, some ({} : SafetyConfig).min_balance_usd⟩ <|
  Fields.cons ⟨"min_balance_token", .number _, some ({} : SafetyConfig).min_balance_token⟩ <|
  Fields.cons ⟨"max_requests_per_second", .natural _,
    some ({} : SafetyConfig).max_requests_per_second⟩ <|
  Fields.cons ⟨"heartbeat_interval_s", .number _,
    some ({} : SafetyConfig).heartbeat_interval_s⟩ <|
  Fields.cons ⟨"max_missed_heartbeats", .natural _,
    some ({} : SafetyConfig).max_missed_heartbeats⟩ <|
  Fields.cons ⟨"max_daily_loss_pct", .number _, some ({} : SafetyConfig).max_daily_loss_pct⟩ <|
  Fields.cons ⟨"max_drawdown_pct", .number _, some ({} : SafetyConfig).max_drawdown_pct⟩ <|
  Fields.cons ⟨"alert_webhook_url", .nullable .string fun _ => rfl,
    some ({} : SafetyConfig).alert_webhook_url⟩ Fields.nil

/-- A `SafetyConfig` is the tuple of its fields. -/
def tuple : SafetyConfig ≃ fields.Values where
  toFun c := (c.min_balance_usd, c.min_balance_token, c.max_requests_per_second,
    c.heartbeat_interval_s, c.max_missed_heartbeats, c.max_daily_loss_pct, c.max_drawdown_pct,
    c.alert_webhook_url, ())
  invFun x :=
    let (a, b, c, d, e, f, g, h, _) := x
    ⟨a, b, c, d, e, f, g, h⟩
  left_inv _ := rfl
  right_inv _ := rfl

/-- How it is dumped and validated. -/
def codec : Codec SafetyConfig := .model fields tuple fun _ _ => true

end SafetyConfig

/-! ## Exchanges -/

/-- `ExchangeName`. -/
inductive ExchangeName where
  | kucoin
  | gate
  | mexc
  | kraken
  | binance
  deriving DecidableEq

namespace ExchangeName

/-- All names. -/
def all : List ExchangeName := [.kucoin, .gate, .mexc, .kraken, .binance]

theorem mem_all (n : ExchangeName) : n ∈ all := by
  cases n <;> decide

/-- The text of a name. -/
def text : ExchangeName → String
  | .kucoin => "kucoin"
  | .gate => "gate"
  | .mexc => "mexc"
  | .kraken => "kraken"
  | .binance => "binance"

theorem text_injective : Function.Injective text := by
  intro a b h
  cases a <;> cases b <;> first | rfl | exact absurd h (by decide)

end ExchangeName

/-- `QuoteCurrency`. -/
inductive QuoteCurrency where
  | USDT
  | USD
  deriving DecidableEq

namespace QuoteCurrency

/-- The text of a currency. -/
def text : QuoteCurrency → String
  | .USDT => "USDT"
  | .USD => "USD"

theorem text_injective : Function.Injective text := by
  intro a b h
  cases a <;> cases b <;> first | rfl | exact absurd h (by decide)

end QuoteCurrency

/-- `ExchangeBotConfig` (`schema.py:142-161`). -/
structure ExchangeBotConfig where
  exchange : ExchangeName
  symbol : String
  quote_currency : QuoteCurrency := .USDT
  enabled : Bool := true
  spread : SpreadConfig := default
  depth : DepthConfig := default
  safety : SafetyConfig := default
  ccxt_options : Dict := []
  use_cpp_connector : Option Bool := none

namespace ExchangeBotConfig

/-- The fields of `ExchangeBotConfig`; the first two have no default. -/
def fields :=
  Fields.cons ⟨"exchange", .literal ExchangeName.all ExchangeName.text ExchangeName.text_injective,
    none⟩ <|
  Fields.cons ⟨"symbol", .string, none⟩ <|
  Fields.cons ⟨"quote_currency",
    .literal [.USDT, .USD] QuoteCurrency.text QuoteCurrency.text_injective,
    some QuoteCurrency.USDT⟩ <|
  Fields.cons ⟨"enabled", .boolean, some true⟩ <|
  Fields.cons ⟨"spread", SpreadConfig.codec, some default⟩ <|
  Fields.cons ⟨"depth", DepthConfig.codec, some default⟩ <|
  Fields.cons ⟨"safety", SafetyConfig.codec, some default⟩ <|
  Fields.cons ⟨"ccxt_options", .dictionary, some []⟩ <|
  Fields.cons ⟨"use_cpp_connector", .nullable .boolean fun _ => rfl, some none⟩ Fields.nil

/-- An `ExchangeBotConfig` is the tuple of its fields. -/
def tuple : ExchangeBotConfig ≃ fields.Values where
  toFun c := (c.exchange, c.symbol, c.quote_currency, c.enabled, c.spread, c.depth, c.safety,
    c.ccxt_options, c.use_cpp_connector, ())
  invFun x :=
    let (a, b, c, d, e, f, g, h, i, _) := x
    ⟨a, b, c, d, e, f, g, h, i⟩
  left_inv _ := rfl
  right_inv _ := rfl

/-- How it is dumped and validated. -/
def codec : Codec ExchangeBotConfig := .model fields tuple fun _ _ => true

/-- The exchange that a document of an entry names. -/
def named (j : Json) : Option ExchangeName :=
  ((j.obj?.bind fun d => d.get "exchange").bind Json.str?).bind fun s =>
    ExchangeName.all.find? fun n => n.text = s

/-- An accepted document names its exchange. -/
theorem named_of_validate {j : Json} {c : ExchangeBotConfig} (h : codec.validate j = some c) :
    named j = some c.exchange := by
  obtain ⟨d, hd, hc⟩ := Option.bind_eq_some_iff.mp h
  obtain ⟨x, hx, rfl⟩ := Option.map_eq_some_iff.mp (Option.filter_eq_some_iff.mp hc).1
  obtain ⟨hexchange, -⟩ := Fields.read_cons hx
  rw [named, hd, Option.bind_some]
  unfold FieldInfo.read at hexchange
  split at hexchange
  · rename_i v hv
    rw [hv, Option.bind_some]
    exact hexchange
  · cases hexchange

end ExchangeBotConfig

/-! ## The whole configuration -/

/-- `GlobalMidWeights` (`schema.py:168-195`). -/
structure GlobalMidWeights where
  kucoin : Within 0 1 := ⟨45 / 100, by norm_num⟩
  gate : Within 0 1 := ⟨45 / 100, by norm_num⟩
  mexc : Within 0 1 := ⟨5 / 100, by norm_num⟩
  kraken : Within 0 1 := ⟨5 / 100, by norm_num⟩
  binance : Within 0 1 := ⟨0, by norm_num⟩
  deriving DecidableEq

instance : Inhabited GlobalMidWeights := ⟨{}⟩

namespace GlobalMidWeights

/-- The fields of `GlobalMidWeights`. -/
def fields :=
  Fields.cons ⟨"kucoin", .number _, some ({} : GlobalMidWeights).kucoin⟩ <|
  Fields.cons ⟨"gate", .number _, some ({} : GlobalMidWeights).gate⟩ <|
  Fields.cons ⟨"mexc", .number _, some ({} : GlobalMidWeights).mexc⟩ <|
  Fields.cons ⟨"kraken", .number _, some ({} : GlobalMidWeights).kraken⟩ <|
  Fields.cons ⟨"binance", .number _, some ({} : GlobalMidWeights).binance⟩ Fields.nil

/-- A `GlobalMidWeights` is the tuple of its fields. -/
def tuple : GlobalMidWeights ≃ fields.Values where
  toFun c := (c.kucoin, c.gate, c.mexc, c.kraken, c.binance, ())
  invFun x :=
    let (a, b, c, d, e, _) := x
    ⟨a, b, c, d, e⟩
  left_inv _ := rfl
  right_inv _ := rfl

/-- The sum of the weights. -/
def total (c : GlobalMidWeights) : ℚ :=
  c.kucoin.1 + c.gate.1 + c.mexc.1 + c.kraken.1 + c.binance.1

/-- `weights_must_sum_to_one` -/
def weights_must_sum_to_one (d : Dict) (c : GlobalMidWeights) : Bool :=
  (d.get "binance").isNone || decide (|c.total - 1| ≤ 1 / 1000)

/-- How it is dumped and validated. -/
def codec : Codec GlobalMidWeights := .model fields tuple weights_must_sum_to_one

end GlobalMidWeights

/-- `ExchangeInitialBalance` (`schema.py:202-204`). -/
structure ExchangeInitialBalance where
  usd : Ge 0 := ⟨0, by norm_num⟩
  token : Ge 0 := ⟨0, by norm_num⟩
  deriving DecidableEq

namespace ExchangeInitialBalance

/-- The fields of `ExchangeInitialBalance`. -/
def fields :=
  Fields.cons ⟨"usd", .number _, some ({} : ExchangeInitialBalance).usd⟩ <|
  Fields.cons ⟨"token", .number _, some ({} : ExchangeInitialBalance).token⟩ Fields.nil

/-- An `ExchangeInitialBalance` is the tuple of its fields. -/
def tuple : ExchangeInitialBalance ≃ fields.Values where
  toFun c := (c.usd, c.token, ())
  invFun x :=
    let (a, b, _) := x
    ⟨a, b⟩
  left_inv _ := rfl
  right_inv _ := rfl

/-- How it is dumped and validated. -/
def codec : Codec ExchangeInitialBalance := .model fields tuple fun _ _ => true

end ExchangeInitialBalance

/-- `BotConfig` (`schema.py:211-231`). -/
structure BotConfig where
  dry_run : Bool := true
  global_mid_weights : GlobalMidWeights := default
  volatility : VolatilityConfig := default
  exchanges : List ExchangeBotConfig := []
  initial_balances : ExchangeName → Option ExchangeInitialBalance := fun _ => none

namespace BotConfig

/-- The fields of `BotConfig`. -/
def fields :=
  Fields.cons ⟨"dry_run", .boolean, some true⟩ <|
  Fields.cons ⟨"global_mid_weights", GlobalMidWeights.codec, some default⟩ <|
  Fields.cons ⟨"volatility", VolatilityConfig.codec, some default⟩ <|
  Fields.cons ⟨"exchanges", .keyed ExchangeBotConfig.codec ExchangeBotConfig.exchange
    ExchangeBotConfig.named ExchangeBotConfig.named_of_validate fun l => !l.isEmpty, some []⟩ <|
  Fields.cons ⟨"initial_balances", .entries ExchangeName.all ExchangeName.text
    ExchangeInitialBalance.codec ExchangeName.mem_all ExchangeName.text_injective,
    some fun _ => none⟩ Fields.nil

/-- A `BotConfig` is the tuple of its fields. -/
def tuple : BotConfig ≃ fields.Values where
  toFun c := (c.dry_run, c.global_mid_weights, c.volatility, c.exchanges, c.initial_balances, ())
  invFun x :=
    let (a, b, c, d, e, _) := x
    ⟨a, b, c, d, e⟩
  left_inv _ := rfl
  right_inv _ := rfl

/-- How it is dumped and validated. -/
def codec : Codec BotConfig := .model fields tuple fun _ _ => true

/-- `model_dump` -/
def model_dump (c : BotConfig) : Dict := fields.dump (tuple c)

/-- `model_validate` -/
def model_validate (d : Dict) : Option BotConfig := codec.validate (.obj d)

/-- `enabled_exchanges` -/
def enabled_exchanges (c : BotConfig) : List ExchangeBotConfig := c.exchanges.filter (·.enabled)

end BotConfig

end Meridian
