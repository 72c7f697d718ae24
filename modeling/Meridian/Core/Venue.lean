import Meridian.Core.System

/-!
# An exchange, a database and a feed

The environment that the bot's coroutines await. `World` says, call by call, what is left to
chance: which calls fail, what the clock shows, what the exchange, the queue and the feed report.
`Venue` is what the exchange remembers: the live orders, the ids of the orders placed through the
connector, and all ids it has given out. A call that fails changes nothing on the exchange.
-/

namespace Meridian

open Coop

/-- What is left to chance, by the number of the call. -/
structure World where
  connector_fails : ℕ → Bool
  db_fails : ℕ → Bool
  feed_fails : ℕ → Bool
  /-- what ended the heartbeat's monitor, which `heartbeat.stop()` raises again -/
  monitor_raised : ℕ → Option Exn
  time : ℕ → ℚ
  /-- whether the connection, where there is one, lasts -/
  stays_connected : ℕ → Bool
  /-- `none` where no state arrives in time -/
  state : ℕ → Option GlobalState
  balance : ℕ → Balance
  fills : ℕ → List Fill
  fill_rate : ℕ → ℚ
  pnl : ℕ → ℚ
  book : ℕ → Option OrderBook
  new_id : List String → String

/-- What the exchange remembers. -/
structure Venue where
  live : Orders := .empty
  placed : List String := []
  used : List String := []
  calls : ℕ := 0

namespace World

variable (w : World)

/-- The order that `create_limit_order` creates. -/
def new_order (s : Sys Venue) (side : Side) (price amount : ℚ) : Order :=
  { id := w.new_id s.env.used
    exchange := s.om.exchange
    symbol := s.om.symbol
    side := side
    price := price
    amount := amount
    amount_usd := price * amount
    status := "open"
    timestamp := s.clock }

/-- The exchange after an order is created. -/
def create (v : Venue) (order : Order) : Venue :=
  { v with
    live := v.live.set order, placed := order.id :: v.placed, used := order.id :: v.used }

/-- The exception a call raises when it fails. -/
def fault (n : ℕ) : Req → Option Exn
  | .fetch_balance | .fetch_open_orders | .fetch_fills _ | .create_limit_order .. | .cancel_order _
  | .cancel_all_orders | .disconnect | .reconnect =>
    if w.connector_fails n then some .connector else none
  | .insert_order _ | .update_order_status .. | .insert_fill _ | .insert_inventory_snapshot ..
  | .get_fill_rate | .get_recent_pnl _ | .insert_rl_features .. =>
    if w.db_fails n then some .database else none
  | .watch_order_book | .disconnect_ws => if w.feed_fails n then some .feed else none
  | .heartbeat_stop => w.monitor_raised n
  | .queue_get => if (w.state n).isNone then some .timeout else none
  | _ => none

/-- What the exchange does on a call that succeeds. -/
def effect (s : Sys Venue) : Req → Sys Venue
  | .create_limit_order side price amount =>
    { s with env := create s.env (w.new_order s side price amount) }
  | .cancel_order id => { s with env := { s.env with live := s.env.live.erase id } }
  | .cancel_all_orders =>
    { s with
      env := { s.env with live := .empty }
      halt := { s.halt with cleared := s.halt.halting } }
  | .disconnect => { s with connected := false }
  | .reconnect => { s with connected := true }
  | _ => s

/-- What a call that succeeds replies, the `n`-th of all. -/
def reply (n : ℕ) (s : Sys Venue) : (r : Req) → Rep r
  | .fetch_balance => w.balance n
  | .fetch_open_orders => s.env.live.toList
  | .fetch_fills _ => w.fills n
  | .create_limit_order side price amount => w.new_order s side price amount
  | .get_fill_rate => w.fill_rate n
  | .get_recent_pnl _ => w.pnl n
  | .queue_get => (w.state n).getD ⟨0, 0, 0, "", "", 0⟩
  | .watch_order_book => w.book n
  | .acquire | .cancel_order _ | .cancel_all_orders | .disconnect | .reconnect | .insert_order _
  | .update_order_status .. | .insert_fill _ | .insert_inventory_snapshot .. | .insert_rl_features ..
  | .heartbeat_stop | .emit_tick .. | .emit_emergency_stop .. | .disconnect_ws | .broadcast_fill _
  | .sleep _ => ()

/-- The state in which the next call is served. -/
def arrive (s : Sys Venue) : Sys Venue :=
  { s with
    clock := w.time s.env.calls
    connected := s.connected && w.stays_connected s.env.calls
    env := { s.env with calls := s.env.calls + 1 } }

/-- How a call is served. -/
def answer : Answer (Sys Venue) Rep Exn := fun r s =>
  match w.fault s.env.calls r with
  | some e => (.error e, w.arrive s)
  | none => (.ok (w.reply s.env.calls (w.arrive s) r), w.effect (w.arrive s) r)

variable {w} {s : Sys Venue} {r : Req}

/-- A call that does not fail. -/
theorem answer_of_fault_none (h : w.fault s.env.calls r = none) :
    w.answer r s = (.ok (w.reply s.env.calls (w.arrive s) r), w.effect (w.arrive s) r) := by
  rw [answer, h]

theorem answer_bot (w : World) (r : Req) (s : Sys Venue) : (w.answer r s).2.bot = s.bot := by
  unfold answer
  split
  · rfl
  · cases r <;> rfl

theorem answer_om (w : World) (r : Req) (s : Sys Venue) : (w.answer r s).2.om = s.om := by
  unfold answer
  split
  · rfl
  · cases r <;> rfl

/-- Serving a call leaves the orders and the paper trader alone. -/
theorem answer_same (w : World) (r : Req) (s : Sys Venue) :
    (w.answer r s).2.paper = s.paper ∧ (w.answer r s).2.ordered = s.ordered ∧
      (w.answer r s).2.drawn = s.drawn ∧ (w.answer r s).2.uuid4 = s.uuid4 := by
  unfold answer
  split
  · exact ⟨rfl, rfl, rfl, rfl⟩
  · cases r <;> exact ⟨rfl, rfl, rfl, rfl⟩

theorem answer_halt (w : World) (r : Req) (s : Sys Venue) (hr : r ≠ .cancel_all_orders) :
    (w.answer r s).2.halt = s.halt := by
  unfold answer
  split
  · rfl
  · cases r <;> first | rfl | exact absurd rfl hr

/-- A source of new ids: a text longer than all before. -/
def longer (l : List String) : String := l.foldr (· ++ ·) "x"

theorem longer_not_mem (l : List String) : longer l ∉ l := by
  have hlen : ∀ l : List String, 0 < (longer l).length ∧ ∀ id ∈ l, id.length < (longer l).length := by
    intro l
    induction l with
    | nil => exact ⟨by decide, fun _ h => absurd h List.not_mem_nil⟩
    | cons a l ih =>
      have hcons : (longer (a :: l)).length = a.length + (longer l).length := String.length_append a _
      refine ⟨by omega, fun id hid => ?_⟩
      rcases List.mem_cons.mp hid with rfl | hid
      · omega
      · have := ih.2 id hid
        omega
  exact fun h => lt_irrefl _ ((hlen l).2 _ h)

/-- Nothing fails, nothing is reported, and the clock stands still. -/
def quiet : World where
  connector_fails _ := false
  db_fails _ := false
  feed_fails _ := false
  monitor_raised _ := none
  time _ := 0
  stays_connected _ := true
  state _ := none
  balance _ := ⟨0, 0, "USDT"⟩
  fills _ := []
  fill_rate _ := 0
  pnl _ := 0
  book _ := none
  new_id := longer

end World

end Meridian
