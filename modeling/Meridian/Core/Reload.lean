import Mathlib.Data.List.Induction
import Mathlib.Logic.Function.Basic
import Meridian.Core.InventoryTracker
import Meridian.Lib.Run
import Meridian.Quant.Aggressiveness
import Meridian.Quant.HmmRegime
import Meridian.Safety.CircuitBreaker
import Meridian.Safety.QSwitch

/-!
# The orchestrator and its configuration

What the orchestrator and its bots hold of the configuration, how they were built from it
(`orchestrator.py:76-190`, `exchange_bot.py:88-96`), and what `trigger_config_reload`
(`orchestrator.py:234-255`) replaces. The market side is the part of `_tick_prices` that starts once
the global mid is known (`orchestrator.py:308-333`), as one step. A bot's loop is seen at its
awaits: which orders a tick places is any number of them, and the tick's checks and its update of
the inventory are one step. The rate limiter, whose limit needs a restart by the documentation, is
left out.
-/

namespace Meridian.Reload

open Run

/-! ## The market -/

/-- `CANDLE_FETCH_INTERVAL_S`. -/
def CANDLE_FETCH_INTERVAL_S : ℚ := 60

/-- The quant models of the orchestrator. -/
structure Market (K M : Type*) [Zero K] where
  vol_engine : VolatilityEngine K
  agg_model : AggressivenessModel
  hmm_detector : Option (HMMRegimeDetector K M)
  last_candle_fetch_at : ℚ := 0

/-- What a price tick reports in its `GlobalState`. -/
structure Reported (K : Type*) where
  volatility : K
  aggressiveness : K
  zz_vol : K
  zz_regime : String
  hmm_regime : String
  hmm_regime_confidence : K

/-- What a price tick is given: the global mid, the clock, and the candles, unless they cannot be
fetched. -/
structure PriceTick where
  global_mid : ℚ
  positive : 0 < global_mid
  now : ℚ
  candles : Option (List Candle)

namespace Market

variable {K M : Type*} [Field K] [LinearOrder K] [MathFunctions K]

/-- The quant models for a volatility section; a reload keeps the time of the last fetch. -/
def build (hmmlearn : Option (Hmmlearn K M)) (cfg : VolatilityConfig) (last_candle_fetch_at : ℚ) :
    Market K M where
  vol_engine := { cfg := cfg }
  agg_model := { cfg := cfg }
  hmm_detector := if cfg.hmm.enabled then some (.new hmmlearn cfg.hmm) else none
  last_candle_fetch_at := last_candle_fetch_at

/-- The candles of the minute. -/
def fetch_candles (m : Market K M) (t : PriceTick) : Market K M :=
  if CANDLE_FETCH_INTERVAL_S ≤ t.now - m.last_candle_fetch_at then
    match t.candles with
    | some candles =>
      { m with
        vol_engine := m.vol_engine.update_candles candles
        last_candle_fetch_at := t.now }
    | none => m
  else m

/-- The regime detection of a tick. -/
def detect (hmmlearn : Option (Hmmlearn K M)) (m : Market K M) : (String × K) × Market K M :=
  match m.hmm_detector with
  | some detector =>
    match m.vol_engine.hmm_features with
    | (some features, vol_engine) =>
      let detector := detector.update hmmlearn features
      ((detector.current_regime, detector.confidence),
        { m with vol_engine := vol_engine, hmm_detector := some detector })
    | (none, vol_engine) => (("NORMAL", 0), { m with vol_engine := vol_engine })
  | none => (("NORMAL", 0), m)

/-- The price and the candles of a tick. -/
def observe (m : Market K M) (t : PriceTick) : Market K M :=
  { m with vol_engine := m.vol_engine.update_price t.global_mid }.fetch_candles t

/-- `_tick_prices` from its `update_price` on. -/
def tick_prices (hmmlearn : Option (Hmmlearn K M)) (m : Market K M) (t : PriceTick) :
    Reported K × Market K M :=
  let m := m.observe t
  let vol := m.vol_engine.rolling_vol
  let zz := m.vol_engine.zhang_zhang_vol
  let hmm := { m with vol_engine := zz.2 }.detect hmmlearn
  ({ volatility := vol, aggressiveness := m.agg_model.compute vol, zz_vol := zz.1.1
     zz_regime := zz.1.2, hmm_regime := hmm.1.1, hmm_regime_confidence := hmm.1.2 }, hmm.2)

end Market

/-! ## A bot -/

/-- `Heartbeat`, the two limits of its config. -/
structure Heartbeat where
  heartbeat_interval_s : ℚ
  max_missed_heartbeats : ℕ
  deriving DecidableEq

/-- Where a bot's task is: in `start` before the loop, at the head of a round, in a tick up to its
checks, after them, or no longer in its loop. -/
inductive Phase where
  | starting
  | waiting
  | ticking (global_mid : ℚ)
  | reposting
  | ended
  deriving DecidableEq

/-- What a bot holds of the configuration, its safety state, and the number of orders it has
placed. -/
structure Bot where
  config : ExchangeBotConfig
  q_switch : QSwitch
  heartbeat : Heartbeat
  circuit_breaker : CircuitBreaker
  inventory : InventoryTracker := {}
  spread_engine : SpreadConfig
  depth_engine : DepthConfig
  agg_model : AggressivenessModel
  /-- `order_manager.config` -/
  order_manager : ExchangeBotConfig
  running : Bool := false
  phase : Phase := .starting
  placed : ℕ := 0

namespace Bot

/-- `ExchangeBot(...)` and `set_initial_from_config` as `Orchestrator.start` calls them, on this
UTC day. -/
def build (today : ℤ) (config : ExchangeBotConfig) (agg_model : AggressivenessModel)
    (init_bal : Option ExchangeInitialBalance) : Bot where
  config := config
  q_switch :=
    { exchange := config.exchange.text, min_balance_usd := config.safety.min_balance_usd.1
      min_balance_token := config.safety.min_balance_token.1 }
  heartbeat :=
    { heartbeat_interval_s := config.safety.heartbeat_interval_s.1
      max_missed_heartbeats := config.safety.max_missed_heartbeats.1 }
  circuit_breaker :=
    { max_daily_loss_pct := config.safety.max_daily_loss_pct.1
      max_drawdown_pct := config.safety.max_drawdown_pct.1, day_start := today }
  inventory :=
    match init_bal with
    | some b => ({} : InventoryTracker).set_initial_from_config b.usd.1 b.token.1
    | none => {}
  spread_engine := config.spread
  depth_engine := config.depth
  agg_model := agg_model
  order_manager := config

/-- What `trigger_config_reload` does to a bot of an enabled exchange. -/
def reload (b : Bot) (config : ExchangeBotConfig) (agg_model : AggressivenessModel) : Bot :=
  { b with
    config := config, spread_engine := config.spread, depth_engine := config.depth
    agg_model := agg_model }

/-- `_warmup` and the start of the loop. No configuration has an `_initial_balance`, so a balance
that could be fetched becomes the baseline. -/
def warmup (b : Bot) (balance : Option Balance) : Bot :=
  { b with
    inventory := (balance.map b.inventory.record_initial).getD b.inventory
    running := true, phase := .waiting }

/-- The end of a round. -/
def round_end (b : Bot) : Bot := { b with phase := if b.running then .waiting else .ended }

/-- A tick's checks, with the balance it has got. -/
def check (b : Bot) (now global_mid : ℚ) (balance : Balance) : Bot :=
  let (halted, q_switch) := b.q_switch.check now balance
  let b := { b with q_switch := q_switch }
  if halted then b.round_end
  else
    let b := { b with
      circuit_breaker := b.circuit_breaker.record_equity now balance.usd balance.token global_mid }
    if b.circuit_breaker.tripped then b.round_end
    else { b with inventory := b.inventory.update balance, phase := .reposting }

end Bot

/-- The steps of a bot: the end of `start`, a state or none from the queue, the balance of a tick or
none, an order placed, the end of a tick; and what others do to it. -/
inductive BotAct where
  | warmup (balance : Option Balance)
  | receive (global_mid : ℚ)
  | timeout
  | check (now : ℚ) (balance : Option Balance)
  | place
  | finish
  /-- `_running = False`, by `stop`, a failed reconnect or a missed heartbeat -/
  | stop
  /-- `connect` raises, or the task is cancelled -/
  | cancel
  | trigger (now : ℚ) (reason : String)
  | resume

/-- A step of a bot. -/
def Bot.next (b : Bot) : BotAct → Option Bot
  | .warmup balance => if b.phase = .starting then some (b.warmup balance) else none
  | .receive global_mid =>
    if b.phase = .waiting then some { b with phase := .ticking global_mid } else none
  | .timeout => if b.phase = .waiting then some b.round_end else none
  | .check now balance =>
    match b.phase with
    | .ticking global_mid =>
      match balance with
      | some balance => some (b.check now global_mid balance)
      | none => some b.round_end
    | _ => none
  | .place => if b.phase = .reposting then some { b with placed := b.placed + 1 } else none
  | .finish => if b.phase = .reposting then some b.round_end else none
  | .stop => some { b with running := false }
  | .cancel => some { b with phase := .ended }
  | .trigger now reason => some { b with q_switch := b.q_switch.trigger_manually now reason }
  | .resume =>
    some { b with q_switch := b.q_switch.reset, circuit_breaker := b.circuit_breaker.reset }

/-- The steps of a bot, each with the phase that it needs. -/
inductive Bot.Step (b : Bot) : BotAct → Bot → Prop
  | warmup (balance : Option Balance) (h : b.phase = .starting) :
    Step b (.warmup balance) (b.warmup balance)
  | receive (global_mid : ℚ) (h : b.phase = .waiting) :
    Step b (.receive global_mid) { b with phase := .ticking global_mid }
  | timeout (h : b.phase = .waiting) : Step b .timeout b.round_end
  | check (now global_mid : ℚ) (balance : Balance) (h : b.phase = .ticking global_mid) :
    Step b (.check now (some balance)) (b.check now global_mid balance)
  | skip (now global_mid : ℚ) (h : b.phase = .ticking global_mid) :
    Step b (.check now none) b.round_end
  | place (h : b.phase = .reposting) : Step b .place { b with placed := b.placed + 1 }
  | finish (h : b.phase = .reposting) : Step b .finish b.round_end
  | stop : Step b .stop { b with running := false }
  | cancel : Step b .cancel { b with phase := .ended }
  | trigger (now : ℚ) (reason : String) :
    Step b (.trigger now reason) { b with q_switch := b.q_switch.trigger_manually now reason }
  | resume :
    Step b .resume
      { b with q_switch := b.q_switch.reset, circuit_breaker := b.circuit_breaker.reset }

theorem step_of_next {b b' : Bot} {a : BotAct} (h : b.next a = some b') : b.Step a b' := by
  cases a with
  | warmup balance =>
    obtain ⟨hp, ⟨⟩⟩ := Option.ite_none_right_eq_some.mp h
    exact .warmup balance hp
  | receive global_mid =>
    obtain ⟨hp, ⟨⟩⟩ := Option.ite_none_right_eq_some.mp h
    exact .receive global_mid hp
  | timeout =>
    obtain ⟨hp, ⟨⟩⟩ := Option.ite_none_right_eq_some.mp h
    exact .timeout hp
  | check now balance =>
    simp only [Bot.next] at h
    split at h
    · rename_i global_mid hp
      cases balance with
      | none =>
        obtain rfl := Option.some.inj h
        exact .skip now global_mid hp
      | some balance =>
        obtain rfl := Option.some.inj h
        exact .check now global_mid balance hp
    · cases h
  | place =>
    obtain ⟨hp, ⟨⟩⟩ := Option.ite_none_right_eq_some.mp h
    exact .place hp
  | finish =>
    obtain ⟨hp, ⟨⟩⟩ := Option.ite_none_right_eq_some.mp h
    exact .finish hp
  | stop =>
    obtain rfl := Option.some.inj h
    exact .stop
  | cancel =>
    obtain rfl := Option.some.inj h
    exact .cancel
  | trigger now reason =>
    obtain rfl := Option.some.inj h
    exact .trigger now reason
  | resume =>
    obtain rfl := Option.some.inj h
    exact .resume

/-! ## The orchestrator -/

/-- The orchestrator: its configuration, quant models and bots. -/
structure Orchestrator (K M : Type*) [Zero K] where
  config : BotConfig
  market : Market K M
  bots : ExchangeName → Option Bot

variable {K M : Type*} [Field K] [LinearOrder K] [MathFunctions K]

/-- `Orchestrator(config)` and the bots that `start` builds. -/
def start (hmmlearn : Option (Hmmlearn K M)) (today : ℤ) (config : BotConfig) :
    Orchestrator K M :=
  let market := Market.build hmmlearn config.volatility 0
  { config := config
    market := market
    bots := config.enabled_exchanges.foldl
      (fun bots ex => Function.update bots ex.exchange
        (some (Bot.build today ex market.agg_model (config.initial_balances ex.exchange))))
      fun _ => none }

/-- One round of the loop in `trigger_config_reload`. -/
def reload_bot (agg_model : AggressivenessModel) (bots : ExchangeName → Option Bot)
    (ex_cfg : ExchangeBotConfig) : ExchangeName → Option Bot :=
  match bots ex_cfg.exchange with
  | some bot => Function.update bots ex_cfg.exchange (some (bot.reload ex_cfg agg_model))
  | none => bots

/-- `trigger_config_reload` (`orchestrator.py:234-255`). -/
def trigger_config_reload (hmmlearn : Option (Hmmlearn K M)) (o : Orchestrator K M)
    (new_config : BotConfig) : Orchestrator K M :=
  let market := Market.build hmmlearn new_config.volatility o.market.last_candle_fetch_at
  { config := new_config
    market := market
    bots := new_config.enabled_exchanges.foldl (reload_bot market.agg_model) o.bots }

/-- A price tick, a step of a bot, or a reload. -/
inductive Act where
  | tick_prices (t : PriceTick)
  | bot (n : ExchangeName) (a : BotAct)
  | reload (new_config : BotConfig)

/-- One step. -/
def next (hmmlearn : Option (Hmmlearn K M)) (o : Orchestrator K M) : Act → Option (Orchestrator K M)
  | .tick_prices t => some { o with market := (o.market.tick_prices hmmlearn t).2 }
  | .bot n a =>
    match o.bots n with
    | some b => (b.next a).map fun b' => { o with bots := Function.update o.bots n (some b') }
    | none => none
  | .reload new_config => some (trigger_config_reload hmmlearn o new_config)

/-! ## What the two loops over the exchanges leave -/

/-- The entry that counts for an exchange: the last one that is enabled. -/
def enabled_entry (config : BotConfig) (n : ExchangeName) : Option ExchangeBotConfig :=
  config.enabled_exchanges.reverse.find? fun ex => ex.exchange = n

omit [LinearOrder K] [MathFunctions K] in
theorem start_bots (hmmlearn : Option (Hmmlearn K M)) (today : ℤ) (config : BotConfig)
    (n : ExchangeName) :
    (start hmmlearn today config).bots n = (enabled_entry config n).map fun ex =>
      Bot.build today ex ⟨config.volatility⟩ (config.initial_balances n) := by
  unfold start enabled_entry
  induction config.enabled_exchanges using List.reverseRecOn with
  | nil => rfl
  | append_singleton l ex ih =>
    rw [List.reverse_append, List.reverse_singleton, List.singleton_append, List.find?_cons]
    simp only [List.foldl_append, List.foldl_cons, List.foldl_nil] at ih ⊢
    by_cases hn : ex.exchange = n
    · subst hn
      rw [Function.update_self, decide_eq_true rfl]
      rfl
    · rw [Function.update_of_ne (Ne.symm hn), decide_eq_false hn]
      exact ih

theorem reload_bot_apply (agg_model : AggressivenessModel) (bots : ExchangeName → Option Bot)
    (ex : ExchangeBotConfig) (n : ExchangeName) : reload_bot agg_model bots ex n =
      if ex.exchange = n then (bots n).map fun b => b.reload ex agg_model else bots n := by
  unfold reload_bot
  by_cases hn : ex.exchange = n
  · subst hn
    rw [if_pos rfl]
    cases hb : bots ex.exchange with
    | none => exact hb
    | some b => exact Function.update_self ..
  · rw [if_neg hn]
    cases bots ex.exchange with
    | none => rfl
    | some b => exact Function.update_of_ne (Ne.symm hn) ..

omit [LinearOrder K] [MathFunctions K] in
theorem reload_bots (hmmlearn : Option (Hmmlearn K M)) (o : Orchestrator K M)
    (new_config : BotConfig) (n : ExchangeName) :
    (trigger_config_reload hmmlearn o new_config).bots n = (o.bots n).map fun b =>
      ((enabled_entry new_config n).map fun ex => b.reload ex ⟨new_config.volatility⟩).getD b := by
  unfold trigger_config_reload enabled_entry
  induction new_config.enabled_exchanges using List.reverseRecOn with
  | nil => exact Option.map_id'.symm
  | append_singleton l ex ih =>
    rw [List.reverse_append, List.reverse_singleton, List.singleton_append, List.find?_cons]
    simp only [List.foldl_append, List.foldl_cons, List.foldl_nil] at ih ⊢
    rw [reload_bot_apply, ih]
    by_cases hn : ex.exchange = n
    · rw [if_pos hn, decide_eq_true hn, Option.map_map]
      refine congrArg (fun f => Option.map f (o.bots n)) (funext fun b => ?_)
      -- the later entry replaces all that an earlier one has set
      cases List.find? (fun ex => decide (ex.exchange = n)) l.reverse <;> rfl
    · rw [if_neg hn, decide_eq_false hn]

/-! ## Runs -/

/-- The step is no reload. -/
def Act.noReload : Act → Bool
  | .reload _ => false
  | _ => true

variable {hmmlearn : Option (Hmmlearn K M)} {today : ℤ} {config : BotConfig}
  {o : Orchestrator K M} {n : ExchangeName}

/-- A bot after a step was there before it, and made the step or was reloaded if it has changed. -/
theorem bot_of_next {o' : Orchestrator K M} {a : Act} {b' : Bot} (hs : next hmmlearn o a = some o')
    (hb : o'.bots n = some b') : ∃ b, o.bots n = some b ∧
      (b' = b ∨ (∃ act, a = .bot n act ∧ b.Step act b') ∨
        a.noReload = false ∧ ∃ ex agg_model, b' = b.reload ex agg_model) := by
  cases a with
  | tick_prices t =>
    obtain rfl := Option.some.inj hs
    exact ⟨b', hb, Or.inl rfl⟩
  | bot m act =>
    simp only [next] at hs
    split at hs
    · rename_i bm hm
      obtain ⟨bm', hnext, rfl⟩ := Option.map_eq_some_iff.mp hs
      dsimp only at hb
      by_cases hnm : n = m
      · subst hnm
        rw [Function.update_self] at hb
        obtain rfl := Option.some.inj hb
        exact ⟨bm, hm, Or.inr (Or.inl ⟨act, rfl, step_of_next hnext⟩)⟩
      · rw [Function.update_of_ne hnm] at hb
        exact ⟨b', hb, Or.inl rfl⟩
    · cases hs
  | reload new_config =>
    obtain rfl := Option.some.inj hs
    rw [reload_bots] at hb
    obtain ⟨b, hb₀, rfl⟩ := Option.map_eq_some_iff.mp hb
    refine ⟨b, hb₀, ?_⟩
    cases enabled_entry new_config n with
    | none => exact Or.inl rfl
    | some ex => exact Or.inr (Or.inr ⟨rfl, ex, _, rfl⟩)

/-- A condition on the bots that holds when they are built and that their steps and every reload
keep holds in every run. -/
theorem bots_inv {cond : Orchestrator K M → Act → Prop} {I : ExchangeName → Bot → Prop}
    (h0 : ∀ n ex, enabled_entry config n = some ex →
      I n (Bot.build today ex ⟨config.volatility⟩ (config.initial_balances n)))
    (hstep : ∀ o n a b b', cond o (.bot n a) → b.Step a b' → I n b → I n b')
    (hreload : ∀ n b ex agg_model, I n b → I n (Bot.reload b ex agg_model))
    (h : Reaches (Fires (next hmmlearn)) cond (start hmmlearn today config) o) :
    ∀ n b, o.bots n = some b → I n b := by
  refine h.inv (I := fun o => ∀ n b, o.bots n = some b → I n b) ?_ ?_
  · intro n b hb
    rw [start_bots] at hb
    obtain ⟨ex, hex, rfl⟩ := Option.map_eq_some_iff.mp hb
    exact h0 n ex hex
  · intro o a o' hI hc hs n b' hb'
    obtain ⟨b, hb, rfl | ⟨act, rfl, hact⟩ | ⟨-, ex, agg_model, rfl⟩⟩ := bot_of_next hs hb'
    · exact hI n b' hb
    · exact hstep o n act b b' hc hact (hI n b hb)
    · exact hreload n b ex agg_model (hI n b hb)

variable (hmmlearn) in
/-- What one bot can do, it can do among the others. -/
theorem lift_bot {b b' : Bot} (h : Reaches (Fires Bot.next) (fun _ _ => True) b b')
    (hb : o.bots n = some b) :
    ∃ o', Reaches (Fires (next hmmlearn)) (fun _ a => a.noReload = true) o o' ∧
      o'.bots n = some b' := by
  induction h with
  | refl => exact ⟨o, Reaches.refl, hb⟩
  | @tail b₁ b₂ _ hs ih =>
    obtain ⟨o₁, hr, hb₁⟩ := ih
    obtain ⟨a, -, hs⟩ := hs
    have hnext : next hmmlearn o₁ (.bot n a) =
        some { o₁ with bots := Function.update o₁.bots n (some b₂) } := by
      rw [next, hb₁]
      exact congrArg (Option.map _) hs
    exact ⟨_, hr.tail rfl hnext, Function.update_self ..⟩

end Meridian.Reload
