import Meridian.Core.OrderManager
import Meridian.Lib.Binary64

/-!
# `ExchangeBot`: the tick loop and the stops

Model of `core/exchange_bot.py`. One round of `_run_loop` is a coroutine (`round`) that starts
again as long as `_running` holds. How a tick computes its grid from the market, the balance and
its configuration is pure code that touches none of the state below: it is the parameter `quote`.

The three stoppers are coroutines too. Each also writes the history in `Halt`.

The bound from which fills are fetched is computed in doubles, as the code does: the rounding decides
which millisecond is asked for. Other arithmetic is exact.
-/

namespace Meridian

open Binary64 Coop

variable {E : Type}

/-- How a tick computes its grid. -/
abbrev Quote (E : Type) := Sys E → GlobalState → Balance → OrderGrid

namespace ExchangeBot

/-- `BALANCE_CACHE_S`. -/
def BALANCE_CACHE_S : ℚ := 10

/-- `SNAPSHOT_INTERVAL_S`. -/
def SNAPSHOT_INTERVAL_S : ℚ := 30

/-- `RL_FEATURE_INTERVAL_S`. -/
def RL_FEATURE_INTERVAL_S : ℚ := 10

/-- `FILL_POLL_INTERVAL_S`. -/
def FILL_POLL_INTERVAL_S : ℚ := 5

/-- The refresh in `_get_balance`; where it fails, the old balance stays. -/
def refresh_balance : Co E Unit :=
  Prog.tryCatch
    (do
      ask .acquire
      let balance ← ask .fetch_balance
      Prog.modify fun s => s.mapBot fun b =>
        { b with balance := some balance, balance_cached_at := s.clock })
    fun _ => pure ()

/-- `_get_balance` (`exchange_bot.py:400-410`). -/
def get_balance : Co E (Option Balance) := do
  let s ← Prog.read
  if s.bot.balance = none ∨ s.clock - s.bot.balance_cached_at > BALANCE_CACHE_S then
    refresh_balance
    let s ← Prog.read
    pure s.bot.balance
  else pure s.bot.balance

/-- The fills newer than the last one seen, or none where the exchange cannot be asked. -/
def fetch_new_fills : Co E (List Fill) := do
  let s ← Prog.read
  let since :=
    match s.bot.last_fill_ts with
    | some ts => fl (ts + fl (1 / 1000))
    | none => fl (s.clock - 3600)
  Prog.tryCatch
    (do
      ask .acquire
      ask (.fetch_fills since))
    fun _ => pure []

/-- `self._last_fill_ts` after one more fill. -/
def see_fill (fill : Fill) (b : ExchangeBot) : ExchangeBot :=
  match b.last_fill_ts with
  | some ts => if fill.timestamp > ts then { b with last_fill_ts := some fill.timestamp } else b
  | none => { b with last_fill_ts := some fill.timestamp }

/-- `_ingest_fills` (`exchange_bot.py:412-426`). -/
def ingest_fills : Co E Unit := do
  let fills ← fetch_new_fills
  Prog.forEach fills fun fill => do
    ask (.insert_fill fill)
    Prog.modify (Sys.mapBot (see_fill fill))

/-- Step 7 of the tick, at time `ts`. -/
def poll_fills (ts : ℚ) : Co E Unit := do
  let s ← Prog.read
  if ts - s.bot.last_fill_poll_at ≥ FILL_POLL_INTERVAL_S then
    ingest_fills
    Prog.modify (Sys.mapBot fun b => { b with last_fill_poll_at := ts })
  else pure ()

/-- The inventory snapshot of step 8. -/
def write_snapshot (ts : ℚ) (state : GlobalState) (balance : Balance) (grid : OrderGrid) :
    Co E Unit := do
  let s ← Prog.read
  if ts - s.bot.last_snapshot_at ≥ SNAPSHOT_INTERVAL_S then
    ask (.insert_inventory_snapshot balance.usd balance.token state.global_mid state.volatility
      grid.aggressiveness)
    Prog.modify (Sys.mapBot fun b => { b with last_snapshot_at := ts })
  else pure ()

/-- The features of step 8. -/
def write_features (ts : ℚ) (state : GlobalState) (grid : OrderGrid) : Co E Unit := do
  let s ← Prog.read
  if ts - s.bot.last_rl_at ≥ RL_FEATURE_INTERVAL_S then
    let fill_rate ← ask .get_fill_rate
    let pnl_1h ← ask (.get_recent_pnl 3600)
    ask (.insert_rl_features state grid.aggressiveness fill_rate pnl_1h)
    Prog.modify (Sys.mapBot fun b => { b with last_rl_at := ts })
  else pure ()

/-- Step 6b: `paper_trader.set_open_orders(order_manager.open_orders)`. -/
def set_open_orders (s : Sys E) : Sys E :=
  if s.bot.has_paper_trader then
    s.mapPaper fun p => { p with open_orders_ref := s.om.open_orders.toList }
  else s

/-- Steps 6b to 9. -/
def after_repost (state : GlobalState) (balance : Balance) (grid : OrderGrid)
    (placed : List Order) : Co E Unit := do
  Prog.modify set_open_orders
  let s ← Prog.read
  let ts := s.clock
  poll_fills ts
  write_snapshot ts state balance grid
  write_features ts state grid
  let s ← Prog.read
  ask (.emit_tick state grid.aggressiveness s.om.open_orders.toList.length placed.length)

/-- The Q-Switch's part of step 3: whether it halts the tick. -/
def check_q_switch (balance : Balance) : Co E Bool := do
  let s ← Prog.read
  Prog.modify (Sys.mapBot fun b => { b with q_switch := (b.q_switch.check s.clock balance).2 })
  pure (s.bot.q_switch.check s.clock balance).1

/-- The circuit breaker's part of step 3: whether it halts the tick. -/
def check_circuit_breaker (state : GlobalState) (balance : Balance) : Co E Bool := do
  Prog.modify fun s => s.mapBot fun b =>
    { b with circuit_breaker :=
        b.circuit_breaker.record_equity s.clock balance.usd balance.token state.global_mid }
  let s ← Prog.read
  pure s.bot.circuit_breaker.tripped

/-- Steps 4 to 9. -/
def requote (quote : Quote E) (state : GlobalState) (balance : Balance) : Co E Unit := do
  let s ← Prog.read
  let grid := quote s state balance
  let placed ← OrderManager.diff_and_repost grid
  after_repost state balance grid placed

/-- Steps 3 to 9. -/
def guarded_requote (quote : Quote E) (state : GlobalState) (balance : Balance) : Co E Unit := do
  let halted ← check_q_switch balance
  if halted then pure ()
  else do
    let tripped ← check_circuit_breaker state balance
    if tripped then pure ()
    else requote quote state balance

/-- `_tick` (`exchange_bot.py:157-338`). -/
def tick (quote : Quote E) (state : GlobalState) : Co E Unit := do
  let balance ← get_balance
  match balance with
  | none => pure ()
  | some balance => guarded_requote quote state balance

/-- `_try_reconnect` (`exchange_bot.py:428-437`). -/
def try_reconnect : Co E Unit :=
  Prog.tryCatch (ask .reconnect) fun _ =>
    Prog.modify fun s => s.mapBot fun b =>
      { b with
        running := false
        q_switch := b.q_switch.trigger_manually s.clock
          "Reconnect failed — manual review required" }

/-- What a round does with an exception. -/
def on_error : Exn → Co E Unit
  | .timeout => pure ()
  | _ => do
    let s ← Prog.read
    if s.connected then pure () else try_reconnect

/-- One round of `_run_loop` (`exchange_bot.py:141-155`). -/
def round (quote : Quote E) : Co E Unit :=
  Prog.tryCatch
    (do
      let state ← ask .queue_get
      tick quote state
      Prog.modify fun s => s.mapBot fun b => { b with last_beat := s.clock })
    on_error

/-! ## The stoppers -/

/-- History: a stopper has triggered the halt. -/
def halting (s : Sys E) : Sys E := { s with halt := { s.halt with halting := true } }

/-- History: a stopper's `cancel_all` has returned. -/
def halted (s : Sys E) : Sys E := { s with halt := { s.halt with halted := s.halt.cleared } }

/-- `cancel_all`, awaited by a stopper. -/
def cancel_all : Co E Unit := do
  OrderManager.cancel_all
  Prog.modify halted

/-- `_emergency_stop` (`exchange_bot.py:439-445`). -/
def emergency_stop : Co E Unit := do
  Prog.modify fun s => halting <| s.mapBot fun b =>
    { b with
      running := false
      q_switch := b.q_switch.trigger_manually s.clock "Heartbeat failure" }
  cancel_all
  let s ← Prog.read
  ask (.emit_emergency_stop s.bot.exchange "Heartbeat failure")

/-- `stop` (`exchange_bot.py:128-134`). -/
def stop : Co E Unit := do
  Prog.modify fun s => halting <| s.mapBot fun b => { b with running := false }
  ask .heartbeat_stop
  cancel_all
  ask .disconnect

/-- What `Orchestrator.emergency_stop_all` does to one bot (`orchestrator.py:226-227`). -/
def halt_bot (reason : String) : Co E Unit := do
  Prog.modify fun s => halting <| s.mapBot fun b =>
    { b with q_switch := b.q_switch.trigger_manually s.clock reason }
  cancel_all

/-- `q_switch.reset()`; it ends what the history records. -/
def reset (s : Sys E) : Sys E :=
  { s.mapBot fun b => { b with q_switch := b.q_switch.reset } with halt := {} }

end ExchangeBot

end Meridian
