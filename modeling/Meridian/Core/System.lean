import Mathlib.Data.Rat.Defs
import Meridian.Core.FillSimulator
import Meridian.Lib.Coop
import Meridian.Lib.Keyed
import Meridian.Safety.CircuitBreaker
import Meridian.Safety.QSwitch

/-!
# One exchange's bot: the shared state and what its coroutines await

The asyncio tasks of one exchange (the bot's loop, a stopper, the paper trader's loop) share the
objects below and interleave only where they await. A call of the rate limiter, the connector, the
database, the queue or the live feed is one request; what it replies is the business of the
environment `E`.
-/

namespace Meridian

/-- `OrderGrid` (`order_manager.py:38-46`). -/
structure OrderGrid where
  buy_prices : List ℚ
  buy_amounts : List ℚ
  sell_prices : List ℚ
  sell_amounts : List ℚ
  global_mid : ℚ
  aggressiveness : ℚ
  deriving DecidableEq

/-- `GlobalState` (`orchestrator.py:53-64`), the fields a tick passes on. -/
structure GlobalState where
  global_mid : ℚ
  volatility : ℚ
  zz_vol : ℚ
  zz_regime : String
  hmm_regime : String
  hmm_regime_confidence : ℚ
  deriving DecidableEq

/-- `dict[str, Order]`, every order under its own id. -/
abbrev Orders := Keyed Order.id

/-- `dict[str, float]`: when each order was placed. -/
abbrev CreatedAt := Keyed (Prod.fst : String × ℚ → String)

/-- `OrderManager` (`order_manager.py:55-72`). -/
structure OrderManager where
  exchange : String
  symbol : String
  dry_run : Bool
  open_orders : Orders := .empty
  order_created_at : CreatedAt := .empty
  last_grid : Option OrderGrid := none
  max_order_age_seconds : ℚ := 300

/-- `ExchangeBot` (`exchange_bot.py:67-116`), what its loop and its safety checks use. -/
structure ExchangeBot where
  exchange : String
  q_switch : QSwitch
  circuit_breaker : CircuitBreaker
  /-- `paper_trader is not None` -/
  has_paper_trader : Bool
  running : Bool := false
  balance : Option Balance := none
  balance_cached_at : ℚ := 0
  last_snapshot_at : ℚ := 0
  last_rl_at : ℚ := 0
  last_fill_poll_at : ℚ := 0
  last_fill_ts : Option ℚ := none
  /-- `heartbeat._last_beat` -/
  last_beat : ℚ := 0

/-- `PaperTradingStats` (`paper_trader.py:36-44`), the running totals. -/
structure PaperTradingStats where
  total_fills : ℕ := 0
  total_qty : ℚ := 0
  total_pnl_usd : ℚ := 0
  total_fees : ℚ := 0

/-- `PaperTrader` (`paper_trader.py:53-81`). Two of its fields are history: `batch` is the part of
`on_book_update`'s local list `fills` that is still to be emitted, `emitted` all that was emitted. -/
structure PaperTrader where
  exchange : String
  maker_fee_rate : ℚ
  running : Bool := false
  open_orders_ref : List Order := []
  stats : PaperTradingStats := {}
  batch : List SimulatedFill := []
  emitted : List SimulatedFill := []

/-- History of the emergency stops: a stopper has triggered the halt, the exchange has since
cancelled everything, and `cancel_all` has since returned; each until the next reset. -/
structure Halt where
  halting : Bool := false
  cleared : Bool := false
  halted : Bool := false

/-- The shared state of one exchange's tasks: the objects, the clock, the source of new ids with
those it has given out, the history of the orders placed, and the environment. -/
structure Sys (E : Type) where
  om : OrderManager
  bot : ExchangeBot
  paper : PaperTrader
  halt : Halt := {}
  clock : ℚ
  /-- `connector.is_connected` -/
  connected : Bool := true
  uuid4 : List String → String
  drawn : List String := []
  ordered : List Order := []
  env : E

/-- What a task awaits. -/
inductive Req where
  /-- `rate_limiter.acquire()` -/
  | acquire
  | fetch_balance
  | fetch_open_orders
  | fetch_fills (since_ts : ℚ)
  | create_limit_order (side : Side) (price amount : ℚ)
  | cancel_order (order_id : String)
  | cancel_all_orders
  | disconnect
  | reconnect
  | insert_order (order : Order)
  | update_order_status (order_id status : String)
  | insert_fill (fill : Fill)
  | insert_inventory_snapshot (usd token global_mid volatility aggressiveness : ℚ)
  | get_fill_rate
  | get_recent_pnl (window_s : ℚ)
  | insert_rl_features (state : GlobalState) (aggressiveness fill_rate pnl_1h : ℚ)
  /-- `asyncio.wait_for(self.queue.get(), timeout=5.0)` -/
  | queue_get
  /-- the cancelled monitor task, in `heartbeat.stop()` -/
  | heartbeat_stop
  | emit_tick (state : GlobalState) (aggressiveness : ℚ) (open_orders placed_count : ℕ)
  | emit_emergency_stop (exchange reason : String)
  | watch_order_book
  | disconnect_ws
  /-- the `ORDER_FILLED` event of one simulated fill -/
  | broadcast_fill (fill : SimulatedFill)
  | sleep (delay : ℚ)
  deriving DecidableEq

abbrev Rep : Req → Type
  | .fetch_balance => Balance
  | .fetch_open_orders => List Order
  | .fetch_fills _ => List Fill
  | .create_limit_order .. => Order
  | .get_fill_rate => ℚ
  | .get_recent_pnl _ => ℚ
  | .queue_get => GlobalState
  | .watch_order_book => Option OrderBook
  | _ => Unit

/-- What an awaited call, or the code between two of them, can raise. -/
inductive Exn where
  | connector
  | database
  | feed
  /-- `asyncio.TimeoutError` of `queue_get` -/
  | timeout
  /-- `KeyError` of a `del` -/
  | key (id : String)
  deriving DecidableEq

/-- A coroutine of the bot. -/
abbrev Co (E α : Type) := Coop.Prog (Sys E) Rep Exn α

variable {E : Type}

/-- `await r`. -/
abbrev ask (r : Req) : Co E (Rep r) := Coop.Prog.call r

theorem wp_ask {A : Coop.Answer (Sys E) Rep Exn} {c : Coop.Rules (Sys E) Req} {s : Sys E} (r : Req)
    {Q : Except Exn (Rep r) → Sys E → Prop} :
    Coop.wp A c Q (ask r) s ↔ c.may r s ∧ ∀ s1, c.rely s s1 → c.guar s1 (A r s1).2 ∧
      ∀ s2, c.rely (A r s1).2 s2 → Q (A r s1).1 s2 := Coop.wp_call r

theorem wp_ask_alone {A : Coop.Answer (Sys E) Rep Exn} {s : Sys E} (r : Req)
    {Q : Except Exn (Rep r) → Sys E → Prop} :
    Coop.wp A Coop.alone Q (ask r) s ↔ Q (A r s).1 (A r s).2 := Coop.wp_call_alone r

/-- Change the order manager. -/
def Sys.mapOm (f : OrderManager → OrderManager) (s : Sys E) : Sys E := { s with om := f s.om }

/-- Change the bot. -/
def Sys.mapBot (f : ExchangeBot → ExchangeBot) (s : Sys E) : Sys E := { s with bot := f s.bot }

/-- Change the paper trader. -/
def Sys.mapPaper (f : PaperTrader → PaperTrader) (s : Sys E) : Sys E := { s with paper := f s.paper }

/-- History: one more order has been placed. -/
def Sys.order (o : Order) (s : Sys E) : Sys E := { s with ordered := o :: s.ordered }

/-- `uuid.uuid4().hex[:8]`. Nothing keeps it from being a text that was given out before. -/
def Sys.drawId (s : Sys E) : String × Sys E :=
  (s.uuid4 s.drawn, { s with drawn := s.uuid4 s.drawn :: s.drawn })

/-- Of the ids given out by now, those given out since `earlier` were new at the time. -/
def NewSince (earlier now : List String) : Prop :=
  ∀ id before, id :: before <:+ now → earlier <:+ before → id ∉ before

variable {earlier before now : List String}

theorem NewSince.at (h : NewSince earlier now) (hb : before <:+ now) : NewSince earlier before :=
  fun id ids hid he => h id ids (hid.trans hb) he

theorem NewSince.after (h : NewSince earlier now) (hb : earlier <:+ before) : NewSince before now :=
  fun id ids hid he => h id ids hid (hb.trans he)

/-- Distinct ids were new. -/
theorem NewSince.of_nodup (h : now.Nodup) : NewSince earlier now := fun _ _ hid _ =>
  (List.nodup_cons.mp (h.sublist hid.sublist)).1

end Meridian
