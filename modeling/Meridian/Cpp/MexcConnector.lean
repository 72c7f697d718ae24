import Mathlib.Data.List.Infix
import Meridian.Cpp.Connector
import Meridian.Lib.Run

/-!
# `MexcConnector`: the open orders of the last bootstrap

Model of `exchange/cpp/src/mexc_connector.cpp` beside the exchange it talks to. The io thread
bootstraps balance, open orders and ticker over REST, opens the WebSocket, subscribes to the public
ticker alone and then dispatches what arrives; an exception sends it back to the bootstrap. The
calls on the connector go over REST and leave its caches alone.

* `io_thread_main` (`mexc_connector.cpp:254-357`): the phases `Io` and their steps.
* `on_ws_message` and the three handlers (`mexc_connector.cpp:363-439`).
* `fetch_open_orders`, `create_limit_order`, `cancel_order`, `cancel_all_orders`
  (`mexc_connector.cpp:458-500`), `json_to_order` (`mexc_connector.cpp:563-592`).

Results:
* `next_frozen`: no step but the storing of a bootstrap's listing touches the cached orders, since
  the one channel subscribed to goes to `on_ticker_msg` (`on_ws_message_orders`);
* `fetch_listed`: a fetch returns the orders of the last listing stored;
* `follows_iff`, `follows_of_settled`: when these are the orders open on the exchange, in a state and
  over a run;
* `view_misses_order`: an order placed after the listing is not among them.
-/

namespace Meridian.Mexc

open Meridian.Run

/-! ## JSON -/

/-- A JSON object, field by field: what `value` reads as a text, and the number that `jdbl` reads
from a number or a decimal text. -/
structure Json where
  text : String → Option String := fun _ => none
  number : String → Option ℚ := fun _ => none

/-- `j.value(key, fallback)`. -/
def Json.value (j : Json) (key fallback : String) : String := (j.text key).getD fallback

/-- `jdbl` (`mexc_connector.cpp:52-59`). -/
def jdbl (j : Json) (key : String) : ℚ := (j.number key).getD 0

/-- What the constructor makes of its arguments. -/
structure Market where
  mexc_symbol : String
  base_token : String
  quote_currency : String

/-- The status text of `json_to_order`. -/
def order_status (raw : String) : String :=
  if raw = "NEW" then "open"
  else if raw = "PARTIALLY_FILLED" then "partial"
  else if raw = "FILLED" then "filled"
  else if raw = "CANCELED" then "canceled"
  else raw

/-- A timestamp in milliseconds, or now. -/
def seconds (ts_ms now : ℚ) : ℚ := if ts_ms > 0 then ts_ms / 1000 else now

/-- `json_to_order` at time `now` (`mexc_connector.cpp:563-592`). -/
def json_to_order (mkt : Market) (now : ℚ) (j : Json) : Cpp.Order :=
  let price := jdbl j "price"
  let amount := jdbl j "origQty"
  let filled_amount := jdbl j "executedQty"
  { id := j.value "orderId" ""
    exchange := "mexc"
    symbol := mkt.mexc_symbol
    side := if j.value "side" "BUY" = "BUY" then "buy" else "sell"
    price := price
    amount := amount
    amount_usd := price * amount
    status := order_status (j.value "status" "NEW")
    timestamp := seconds (jdbl j "time") now
    filled_amount := filled_amount
    filled_price := if filled_amount > 0 then jdbl j "cummulativeQuoteQty" / filled_amount else 0 }

/-! ## The connector -/

/-- `std::map<std::string, Order>`. Its keys need not be the ids: an item without an `orderId` is
stored under "?". -/
abbrev OpenOrders := Keyed (Prod.fst : String × Cpp.Order → String)

/-- The orders as an iteration over the map yields them. -/
def OpenOrders.values (m : OpenOrders) : List Cpp.Order :=
  (m.toList.insertionSort fun a b => a.1 ≤ b.1).map Prod.snd

/-- The caches and flags of `MexcConnector`. -/
structure Connector where
  latest_ticker : Cpp.Ticker := {}
  latest_balance : Cpp.Balance := {}
  open_orders : OpenOrders := .empty
  ticker_ready : Bool := false
  balance_ready : Bool := false
  running : Bool := false
  connected : Bool := false

/-- `fetch_open_orders`, `none` where it throws (`mexc_connector.cpp:458-465`). -/
def fetch_open_orders (c : Connector) : Option (List Cpp.Order) :=
  if c.connected then some c.open_orders.values else none

/-- The balance the bootstrap reads from the account's list (`mexc_connector.cpp:258-274`). -/
def account_balance (mkt : Market) (balances : List Json) : Cpp.Balance :=
  balances.foldl
    (fun bal b =>
      let asset := b.value "asset" ""
      let free_amt := jdbl b "free"
      let bal := if asset = mkt.quote_currency then { bal with usd := free_amt } else bal
      if asset = mkt.base_token then { bal with token := free_amt } else bal)
    { quote_currency := mkt.quote_currency }

/-- The open orders the bootstrap builds from the listing (`mexc_connector.cpp:280-283`). -/
def bootstrap_orders (mkt : Market) (now : ℚ) (orders_arr : List Json) : OpenOrders :=
  .ofList (orders_arr.map fun item => (item.value "orderId" "?", json_to_order mkt now item))

/-- The ticker the bootstrap builds from the book ticker, or else from the last price
(`mexc_connector.cpp:293-306`). -/
def bootstrap_ticker (bt lt : Json) (now : ℚ) : Cpp.Ticker :=
  let bid := jdbl bt "bidPrice"
  let ask := jdbl bt "askPrice"
  let last := jdbl lt "price"
  let bid' := if bid ≤ 0 ∨ ask ≤ 0 then last * (999 / 1000) else bid
  let ask' := if bid ≤ 0 ∨ ask ≤ 0 then last * (1001 / 1000) else ask
  { bid := bid', ask := ask', last := (bid' + ask') / 2, mid := (bid' + ask') / 2, timestamp := now }

/-- `on_ticker_msg` (`mexc_connector.cpp:379-396`). -/
def on_ticker_msg (now : ℚ) (d : Json) (c : Connector) : Connector :=
  let bid := jdbl d "b"
  let ask := jdbl d "a"
  let last := if jdbl d "p" = 0 then jdbl d "c" else jdbl d "p"
  { c with
    latest_ticker :=
      { bid := bid, ask := ask, last := last
        mid := if bid > 0 ∧ ask > 0 then (bid + ask) / 2 else last, timestamp := now }
    ticker_ready := true }

/-- `on_order_msg` (`mexc_connector.cpp:398-427`). -/
def on_order_msg (mkt : Market) (now : ℚ) (d : Json) (c : Connector) : Connector :=
  let oid := d.value "i" ""
  let status := d.value "X" ""
  if oid = "" then c
  else if status = "NEW" ∨ status = "PARTIALLY_FILLED" then
    let price := jdbl d "p"
    let amount := jdbl d "q"
    let avg := jdbl d "ap"
    { c with
      open_orders := c.open_orders.set (oid,
        { id := oid
          exchange := "mexc"
          symbol := mkt.mexc_symbol
          side := if d.value "S" "BUY" = "BUY" then "buy" else "sell"
          price := price
          amount := amount
          amount_usd := price * amount
          filled_amount := jdbl d "z"
          filled_price := if avg > 0 then avg else 0
          status := if status = "NEW" then "open" else "partial"
          timestamp := seconds (jdbl d "t") now }) }
  else { c with open_orders := c.open_orders.erase oid }

/-- `on_balance_msg` (`mexc_connector.cpp:429-439`). -/
def on_balance_msg (mkt : Market) (d : Json) (c : Connector) : Connector :=
  let asset := d.value "a" ""
  let free_amt := jdbl d "f"
  let bal := c.latest_balance
  let bal := if asset = mkt.quote_currency then { bal with usd := free_amt } else bal
  let bal := if asset = mkt.base_token then { bal with token := free_amt } else bal
  { c with latest_balance := bal, balance_ready := true }

/-- A WebSocket message that parses: whether it has the fields "msg" and "id", its channel "c" and
its data "d". -/
structure Message where
  msg : Bool := false
  id : Bool := false
  c : Option String := none
  d : Option Json := none

/-- `s.find(sub) != npos`. -/
def find (s sub : String) : Bool := decide (sub.toList <:+: s.toList)

/-- `on_ws_message` (`mexc_connector.cpp:363-377`). -/
def on_ws_message (mkt : Market) (now : ℚ) (j : Message) (c : Connector) : Connector :=
  -- subscription ACK or PONG
  if j.msg || (j.id && j.c.isNone) then c
  else
    let channel := j.c.getD ""
    match j.d with
    | none => c
    | some d =>
      if channel = "" then c
      else if find channel "miniTicker" then on_ticker_msg now d c
      else if find channel "private.orders" then on_order_msg mkt now d c
      else if find channel "private.account" then on_balance_msg mkt d c
      else c

/-- The channel of the one subscription (`mexc_connector.cpp:321-325`). -/
def ticker_channel (mkt : Market) : String := "spot@public.miniTicker.v3.api@" ++ mkt.mexc_symbol

/-- `fmt`: a number with eight decimals, ties to even. -/
def fmt (v : ℚ) : ℚ :=
  let n := v * 10 ^ 8
  let low := Rat.floor n
  let up := n - low > 1 / 2 ∨ (n - low = 1 / 2 ∧ low % 2 = 1)
  (low + if up then 1 else 0) / 10 ^ 8

/-- The query of an order placement. -/
structure Query where
  symbol : String
  side : String
  quantity : ℚ
  price : ℚ

/-- The query that `create_limit_order` posts (`mexc_connector.cpp:480-486`). -/
def order_query (mkt : Market) (side : String) (price amount : ℚ) : Query :=
  { symbol := mkt.mexc_symbol
    side := if side = "buy" then "BUY" else "SELL"
    quantity := fmt amount
    price := fmt price }

/-! ## The connector and the exchange -/

/-- Where the io thread is. -/
inductive Io where
  | stopped
  /-- at the top of its loop, about to fetch the balance -/
  | account
  | open_orders
  /-- with the listing, about to store it -/
  | store (orders_arr : List Json)
  | ticker
  | ws_connect
  | subscribe
  | receiving

/-- The open orders on the exchange, each as REST lists it. -/
abbrev Book := Keyed fun j : Json => j.value "orderId" "?"

/-- The connector, the channels its WebSocket is subscribed to, and the exchange's open orders.
History: the ids the exchange has given out, and the orders of the last listing stored. -/
structure State where
  conn : Connector := {}
  io : Io := .stopped
  subscribed : List String := []
  book : Book := .empty
  used : List String := []
  listed : List Cpp.Order := []

/-- The exchange opens an order, under an id it has not given out. -/
def place (s : State) (j : Json) : Option State :=
  match j.text "orderId" with
  | some id => if id ∈ s.used then none else some { s with book := s.book.set j, used := id :: s.used }
  | none => none

/-- The record of an order opened as the query asks. -/
def Records (q : Query) (j : Json) : Prop :=
  j.text "side" = some q.side ∧ j.number "price" = some q.price ∧
    j.number "origQty" = some q.quantity

instance (q : Query) (j : Json) : Decidable (Records q j) := by unfold Records; infer_instance

/-- The server pushes what belongs to no channel (ACK, PONG) and the channels subscribed to. -/
def pushes (s : State) (j : Message) : Bool := j.c.all fun channel => decide (channel ∈ s.subscribed)

/-- The steps. A call that fails on the exchange changes nothing and is none. -/
inductive Act where
  /-- `connect`: the thread starts, and later the caches are ready or the wait is over -/
  | connect
  | connect_ready
  | connect_timeout
  | disconnect
  /-- the io thread raises an exception, or leaves its loop -/
  | raised
  | leave
  | account (balances : List Json)
  | list
  | store (now : ℚ)
  | ticker (bt lt : Json) (now : ℚ)
  | ws_connect
  | subscribe
  | message (j : Message) (now : ℚ)
  /-- on the exchange: an order opened, filled in part, or closed (filled or cancelled) -/
  | opened (j : Json)
  | filled (j : Json)
  | closed (id : String)
  /-- calls that the exchange accepts -/
  | create_limit_order (side : String) (price amount : ℚ) (j : Json)
  | cancel_order (order_id : String)
  | cancel_all_orders

/-- One step, where it is possible. -/
def next (mkt : Market) (s : State) : Act → Option State
  | .connect =>
    match s.conn.running, s.io with
    | false, .stopped => some { s with conn := { s.conn with running := true }, io := .account }
    | _, _ => none
  | .connect_ready =>
    if s.conn.running && s.conn.ticker_ready && s.conn.balance_ready then
      some { s with conn := { s.conn with connected := true } }
    else none
  | .connect_timeout =>
    if s.conn.ticker_ready && s.conn.balance_ready then none
    else some { s with conn := { s.conn with running := false } }
  | .disconnect => some { s with conn := { s.conn with running := false, connected := false } }
  | .raised =>
    match s.io with
    | .stopped => none
    -- the fetch of the open orders is skipped
    | .open_orders | .store _ => some { s with io := .ticker }
    | _ =>
      if s.conn.running then some { s with io := .account, subscribed := [] }
      else some { s with io := .stopped, subscribed := [] }
  | .leave =>
    match s.conn.running, s.io with
    | false, .account | false, .receiving => some { s with io := .stopped, subscribed := [] }
    | _, _ => none
  | .account balances =>
    match s.io with
    | .account => some { s with
        conn := { s.conn with
          latest_balance := account_balance mkt balances, balance_ready := true }
        io := .open_orders }
    | _ => none
  | .list =>
    match s.io with
    | .open_orders => some { s with io := .store s.book.toList }
    | _ => none
  | .store now =>
    match s.io with
    | .store orders_arr => some { s with
        conn := { s.conn with open_orders := bootstrap_orders mkt now orders_arr }
        io := .ticker
        listed := orders_arr.map (json_to_order mkt now) }
    | _ => none
  | .ticker bt lt now =>
    match s.io with
    | .ticker => some { s with
        conn := { s.conn with latest_ticker := bootstrap_ticker bt lt now, ticker_ready := true }
        io := .ws_connect }
    | _ => none
  | .ws_connect =>
    match s.io with
    | .ws_connect => some { s with io := .subscribe }
    | _ => none
  | .subscribe =>
    match s.io with
    | .subscribe => some { s with io := .receiving, subscribed := [ticker_channel mkt] }
    | _ => none
  | .message j now =>
    match s.io with
    | .receiving =>
      if pushes s j then some { s with conn := on_ws_message mkt now j s.conn } else none
    | _ => none
  | .opened j => place s j
  | .filled j =>
    if (j.text "orderId").any (fun id => decide (id ∈ s.book.keys)) then
      some { s with book := s.book.set j }
    else none
  | .closed id => some { s with book := s.book.erase id }
  | .create_limit_order side price amount j =>
    if s.conn.connected ∧ Records (order_query mkt side price amount) j then place s j else none
  | .cancel_order order_id =>
    if s.conn.connected then some { s with book := s.book.erase order_id } else none
  | .cancel_all_orders => if s.conn.connected then some { s with book := .empty } else none

/-! ## What a message does -/

variable {mkt : Market} {s s' : State}

theorem find_miniTicker (mkt : Market) : find (ticker_channel mkt) "miniTicker" = true := by
  have h : "miniTicker".toList <:+: "spot@public.miniTicker.v3.api@".toList :=
    ⟨"spot@public.".toList, ".v3.api@".toList, by decide⟩
  have hpre : "spot@public.miniTicker.v3.api@".toList <:+: (ticker_channel mkt).toList :=
    ⟨[], mkt.mexc_symbol.toList, (String.toList_append ..).symm⟩
  exact decide_eq_true (h.trans hpre)

/-- A message without a channel, or on the ticker's, leaves the orders alone. -/
theorem on_ws_message_orders {j : Message} {now : ℚ} {c : Connector}
    (h : j.c.all (fun channel => decide (channel ∈ [ticker_channel mkt])) = true) :
    (on_ws_message mkt now j c).open_orders = c.open_orders := by
  unfold on_ws_message
  split
  · rfl
  · cases hd : j.d with
    | none => rfl
    | some d =>
      cases hc : j.c with
      | none => rfl
      | some channel =>
        rw [hc, Option.all_some, decide_eq_true_eq, List.mem_singleton] at h
        subst h
        simp only [Option.getD_some, find_miniTicker, if_true]
        split <;> rfl

/-! ## What a step can be -/

/-- The steps, by what they touch. -/
inductive Step (mkt : Market) (s : State) : Act → State → Prop
  /-- The io thread and the callers move on, and the orders are left alone. -/
  | moves (a : Act) (conn : Connector) (io : Io) (subscribed : List String)
      (hconn : conn.open_orders = s.conn.open_orders)
      (hio : ∀ orders_arr, io = .store orders_arr → s.io = .store orders_arr)
      (hsub : subscribed = s.subscribed ∨ subscribed = [] ∨ subscribed = [ticker_channel mkt]) :
    Step mkt s a { s with conn := conn, io := io, subscribed := subscribed }
  | list : Step mkt s .list { s with io := .store s.book.toList }
  | store (now : ℚ) (orders_arr : List Json) (hio : s.io = .store orders_arr) :
    Step mkt s (.store now) { s with
      conn := { s.conn with open_orders := bootstrap_orders mkt now orders_arr }
      io := .ticker
      listed := orders_arr.map (json_to_order mkt now) }
  | message (j : Message) (now : ℚ) (hp : pushes s j = true) :
    Step mkt s (.message j now) { s with conn := on_ws_message mkt now j s.conn }
  | place (a : Act) (j : Json) (id : String) (hid : j.text "orderId" = some id) :
    Step mkt s a { s with book := s.book.set j, used := id :: s.used }
  /-- An order on the book is listed anew, or orders are taken off it. -/
  | book (a : Act) (book : Book) (hb : ∀ j ∈ book, j ∈ s.book ∨
      ∃ id ∈ s.book.keys, j.text "orderId" = some id) : Step mkt s a { s with book := book }

/-- An opened order is on the book under an id not given out before. -/
theorem place_eq {j : Json} (h : place s j = some s') : ∃ id, j.text "orderId" = some id ∧
    id ∉ s.used ∧ s' = { s with book := s.book.set j, used := id :: s.used } := by
  unfold place at h
  split at h
  · rename_i id hid
    split at h
    · exact absurd h (by simp)
    · rename_i hnew
      exact ⟨id, hid, hnew, (Option.some.inj h).symm⟩
  · exact absurd h (by simp)

theorem step_place {a : Act} {j : Json} (h : place s j = some s') : Step mkt s a s' := by
  obtain ⟨id, hid, -, rfl⟩ := place_eq h
  exact .place a j id hid

/-- The io thread and the callers only. -/
theorem Step.quiet {a : Act} {conn : Connector} {io : Io}
    (hconn : conn.open_orders = s.conn.open_orders)
    (hio : ∀ orders_arr, io = .store orders_arr → s.io = .store orders_arr) :
    Step mkt s a { s with conn := conn, io := io } :=
  .moves a conn io s.subscribed hconn hio (.inl rfl)

theorem step_raised (h : next mkt s .raised = some s') : Step mkt s .raised s' := by
  simp only [next] at h
  split at h
  · cases h
  · obtain rfl := Option.some.inj h
    exact .quiet rfl fun _ hio => nomatch hio
  · obtain rfl := Option.some.inj h
    exact .quiet rfl fun _ hio => nomatch hio
  · split at h
    · obtain rfl := Option.some.inj h
      exact .moves _ _ _ _ rfl (fun _ hio => nomatch hio) (.inr (.inl rfl))
    · obtain rfl := Option.some.inj h
      exact .moves _ _ _ _ rfl (fun _ hio => nomatch hio) (.inr (.inl rfl))

theorem step_filled {j : Json} (h : next mkt s (.filled j) = some s') :
    Step mkt s (.filled j) s' := by
  obtain ⟨hj, ⟨⟩⟩ := Option.ite_none_right_eq_some.mp h
  refine .book _ _ fun x hx => ?_
  rcases Keyed.mem_set.mp hx with rfl | ⟨hx, -⟩
  · obtain ⟨id, hid, hmem⟩ := (Option.any_eq_true _ _).mp hj
    exact .inr ⟨id, of_decide_eq_true hmem, hid⟩
  · exact .inl hx

/-- There are no others. -/
theorem step_of_next {a : Act} (h : next mkt s a = some s') : Step mkt s a s' := by
  have erased : ∀ id, ∀ j ∈ s.book.erase id, j ∈ s.book ∨
      ∃ id ∈ s.book.keys, j.text "orderId" = some id := fun id j hj => .inl (Keyed.mem_erase.mp hj).1
  cases a with
  | raised => exact step_raised h
  | opened j => exact step_place h
  | create_limit_order side price amount j =>
    obtain ⟨-, hj⟩ := Option.ite_none_right_eq_some.mp h
    exact step_place hj
  | filled j => exact step_filled h
  | closed id =>
    obtain rfl := Option.some.inj h
    exact .book _ _ (erased id)
  | cancel_order id =>
    obtain ⟨-, ⟨⟩⟩ := Option.ite_none_right_eq_some.mp h
    exact .book _ _ (erased id)
  | cancel_all_orders =>
    obtain ⟨-, ⟨⟩⟩ := Option.ite_none_right_eq_some.mp h
    exact .book _ _ fun j hj => absurd hj Keyed.not_mem_empty
  | disconnect =>
    obtain rfl := Option.some.inj h
    exact .quiet rfl fun _ hio => hio
  | connect_ready =>
    obtain ⟨-, ⟨⟩⟩ := Option.ite_none_right_eq_some.mp h
    exact .quiet rfl fun _ hio => hio
  | connect_timeout =>
    obtain ⟨-, ⟨⟩⟩ := Option.ite_none_left_eq_some.mp h
    exact .quiet rfl fun _ hio => hio
  | connect | account balances | ticker bt lt now | ws_connect =>
    simp only [next] at h
    split at h
    · obtain rfl := Option.some.inj h
      exact .quiet rfl fun _ hio => nomatch hio
    · cases h
  | leave =>
    simp only [next] at h
    split at h
    · obtain rfl := Option.some.inj h
      exact .moves _ _ _ _ rfl (fun _ hio => nomatch hio) (.inr (.inl rfl))
    · obtain rfl := Option.some.inj h
      exact .moves _ _ _ _ rfl (fun _ hio => nomatch hio) (.inr (.inl rfl))
    · cases h
  | list =>
    simp only [next] at h
    split at h
    · obtain rfl := Option.some.inj h
      exact .list
    · cases h
  | store now =>
    simp only [next] at h
    split at h
    · rename_i orders_arr hio
      obtain rfl := Option.some.inj h
      exact .store now orders_arr hio
    · cases h
  | subscribe =>
    simp only [next] at h
    split at h
    · obtain rfl := Option.some.inj h
      exact .moves _ _ _ _ rfl (fun _ hio => nomatch hio) (.inr (.inr rfl))
    · cases h
  | message j now =>
    simp only [next] at h
    split at h
    · obtain ⟨hp, ⟨⟩⟩ := Option.ite_none_right_eq_some.mp h
      exact .message j now hp
    · cases h

/-! ## The view is frozen -/

/-- Nothing but the ticker's channel is subscribed to. -/
def Public (mkt : Market) (s : State) : Prop := s.subscribed = [] ∨ s.subscribed = [ticker_channel mkt]

/-- What becomes of the cached orders over steps that neither disconnect nor store a listing: they
stay, while the exchange may have given out more ids. -/
structure Frozen (s s' : State) : Prop where
  open_orders : s'.conn.open_orders = s.conn.open_orders
  listed : s'.listed = s.listed
  used : ∀ id ∈ s.used, id ∈ s'.used

/-- A message that the server pushes leaves the orders alone. -/
theorem pushes_orders {j : Message} {now : ℚ} (hp : Public mkt s) (hj : pushes s j = true) :
    (on_ws_message mkt now j s.conn).open_orders = s.conn.open_orders := by
  refine on_ws_message_orders ?_
  rw [pushes] at hj
  rcases hp with hp | hp
  · rw [hp] at hj
    cases hc : j.c with
    | none => rfl
    | some channel => simp [hc] at hj
  · rwa [hp] at hj

/-- A step leaves the cached orders alone or stores a listing. -/
theorem frozen_or_store {a : Act} (hp : Public mkt s) (h : next mkt s a = some s') :
    Frozen s s' ∨ ∃ now orders_arr, a = .store now ∧ s.io = .store orders_arr ∧ s' = { s with
      conn := { s.conn with open_orders := bootstrap_orders mkt now orders_arr }
      io := .ticker
      listed := orders_arr.map (json_to_order mkt now) } := by
  cases step_of_next h with
  | moves _ conn _ _ hconn => exact .inl ⟨hconn, rfl, fun _ hi => hi⟩
  | list | book => exact .inl ⟨rfl, rfl, fun _ hi => hi⟩
  | store now orders_arr hio => exact .inr ⟨now, orders_arr, rfl, hio, rfl⟩
  | message j now hj => exact .inl ⟨pushes_orders hp hj, rfl, fun _ hi => hi⟩
  | place => exact .inl ⟨rfl, rfl, fun _ hi => List.mem_cons_of_mem _ hi⟩

/-- **Only the storing of a listing touches the cached orders.** -/
theorem next_frozen {a : Act} (hp : Public mkt s) (ha : ∀ now, a ≠ .store now)
    (h : next mkt s a = some s') : Frozen s s' := by
  rcases frozen_or_store hp h with hf | ⟨now, -, rfl, -⟩
  · exact hf
  · exact absurd rfl (ha now)

/-! ## The invariant -/

/-- The item carries an id that the exchange has given out. -/
def Known (used : List String) (j : Json) : Prop := ∃ id ∈ used, j.text "orderId" = some id

theorem Known.mono {used used' : List String} {j : Json} (h : Known used j)
    (hu : ∀ id ∈ used, id ∈ used') : Known used' j := by
  obtain ⟨id, hid, hj⟩ := h
  exact ⟨id, hu id hid, hj⟩

theorem Known.id_mem {used : List String} {j : Json} (h : Known used j) (now : ℚ) :
    (json_to_order mkt now j).id ∈ used := by
  obtain ⟨id, hid, hj⟩ := h
  simpa [json_to_order, Json.value, hj] using hid

theorem public_next {a : Act} (hp : Public mkt s) (h : next mkt s a = some s') : Public mkt s' := by
  cases step_of_next h with
  | moves _ _ _ _ _ _ hsub =>
    rcases hsub with hsub | hsub
    · exact hsub ▸ hp
    · exact hsub
  | list | store | message | place | book => exact hp

/-- A listing on its way into the cache was there before, or is the book. -/
theorem next_storing {a : Act} {orders_arr : List Json} (h : next mkt s a = some s')
    (hio : s'.io = .store orders_arr) : s.io = .store orders_arr ∨ orders_arr = s.book.toList := by
  cases step_of_next h with
  | moves _ _ _ _ _ hstore => exact .inl (hstore _ hio)
  | list => exact .inr (Io.store.inj hio).symm
  | store => cases hio
  | message | place | book => exact .inl hio

/-- Every order on the book keeps an id that has been given out, and no id is forgotten. -/
theorem next_known {a : Act} (hk : ∀ j ∈ s.book, Known s.used j) (h : next mkt s a = some s') :
    (∀ id ∈ s.used, id ∈ s'.used) ∧ ∀ j ∈ s'.book, Known s'.used j := by
  cases step_of_next h with
  | moves | list | store | message => exact ⟨fun _ hi => hi, hk⟩
  | place _ j id hid =>
    have hmono : ∀ i ∈ s.used, i ∈ id :: s.used := fun _ hi => List.mem_cons_of_mem _ hi
    refine ⟨hmono, fun x hx => ?_⟩
    rcases Keyed.mem_set.mp hx with rfl | ⟨hx, -⟩
    · exact ⟨id, List.mem_cons_self, hid⟩
    · exact (hk x hx).mono hmono
  | book _ book hb =>
    refine ⟨fun _ hi => hi, fun x hx => ?_⟩
    rcases hb x hx with hx | ⟨id, hmem, hid⟩
    · exact hk x hx
    · -- listed anew, under the id of an order that was there
      obtain ⟨y, hy, rfl⟩ := Keyed.mem_keys.mp hmem
      obtain ⟨id', hid', hy'⟩ := hk y hy
      refine ⟨id', hid', ?_⟩
      rw [hid, Json.value, hy', Option.getD_some]

/-- The invariant: the cached orders are those of the last listing stored, which all carry ids that
the exchange has given out, as do the orders on the book and those about to be stored. -/
structure Inv (mkt : Market) (s : State) : Prop where
  subscribed : Public mkt s
  view : s.conn.open_orders.toList.map Prod.snd = s.listed
  listed : ∀ o ∈ s.listed, o.id ∈ s.used
  book : ∀ j ∈ s.book, Known s.used j
  storing : ∀ orders_arr, s.io = .store orders_arr →
    (orders_arr.map fun j => j.value "orderId" "?").Nodup ∧ ∀ j ∈ orders_arr, Known s.used j

theorem inv_init : Inv mkt {} where
  subscribed := .inl rfl
  view := rfl
  listed _ h := absurd h List.not_mem_nil
  book _ h := absurd h Keyed.not_mem_empty
  storing _ h := by cases h

/-- Storing a listing with distinct ids caches its orders as they are. -/
theorem toList_bootstrap_orders {orders_arr : List Json} (now : ℚ)
    (h : (orders_arr.map fun j => j.value "orderId" "?").Nodup) :
    (bootstrap_orders mkt now orders_arr).toList.map Prod.snd =
      orders_arr.map (json_to_order mkt now) := by
  rw [bootstrap_orders, Keyed.toList_ofList]
  · rw [List.map_map]
    rfl
  · rw [List.map_map]
    exact h

theorem inv_next {a : Act} (h : Inv mkt s) (hs : next mkt s a = some s') : Inv mkt s' := by
  obtain ⟨hused, hbook⟩ := next_known h.book hs
  have hstoring : ∀ orders_arr, s'.io = .store orders_arr →
      (orders_arr.map fun j => j.value "orderId" "?").Nodup ∧ ∀ j ∈ orders_arr, Known s'.used j := by
    intro orders_arr hio
    rcases next_storing hs hio with hio | rfl
    · exact ⟨(h.storing _ hio).1, fun j hj => ((h.storing _ hio).2 j hj).mono hused⟩
    · exact ⟨s.book.nodup, fun j hj => (h.book j hj).mono hused⟩
  have hpub := public_next h.subscribed hs
  rcases frozen_or_store h.subscribed hs with ⟨ho, hl, -⟩ | ⟨now, orders_arr, rfl, hio, rfl⟩
  · refine ⟨hpub, ?_, ?_, hbook, hstoring⟩
    · rw [ho, hl, h.view]
    · rw [hl]
      exact fun o hm => hused _ (h.listed o hm)
  · obtain ⟨hn, hk⟩ := h.storing _ hio
    refine ⟨hpub, toList_bootstrap_orders now hn, fun o hm => ?_, hbook, hstoring⟩
    obtain ⟨j, hj, rfl⟩ := List.mem_map.mp hm
    exact (hk j hj).id_mem now

theorem inv_reaches (h : Reaches (Fires (next mkt)) (fun _ _ => True) {} s) : Inv mkt s :=
  h.inv inv_init fun _ _ _ hi _ hs => inv_next hi hs

/-- What a fetch returns, in any order. -/
theorem fetch_perm {c : Connector} {orders : List Cpp.Order} (h : fetch_open_orders c = some orders) :
    orders.Perm (c.open_orders.toList.map Prod.snd) := by
  unfold fetch_open_orders at h
  split at h
  · obtain rfl := Option.some.inj h
    exact (List.perm_insertionSort _ _).map _
  · cases h

/-- **A fetch returns the last listing stored**, whatever has been placed, cancelled, filled or
pushed since. -/
theorem fetch_listed (h : Reaches (Fires (next mkt)) (fun _ _ => True) {} s)
    {orders : List Cpp.Order} (hf : fetch_open_orders s.conn = some orders) :
    orders.Perm s.listed := by
  rw [← (inv_reaches h).view]
  exact fetch_perm hf

/-! ## When the view follows the exchange -/

/-- The open orders on the exchange, as a bootstrap at the time `now` would have them. -/
def open_on_exchange (mkt : Market) (now : ℚ) (s : State) : List Cpp.Order :=
  s.book.toList.map (json_to_order mkt now)

/-- A fetch returns exactly the orders open on the exchange. -/
def Follows (mkt : Market) (s : State) : Prop :=
  ∀ orders, fetch_open_orders s.conn = some orders → ∃ now, orders.Perm (open_on_exchange mkt now s)

/-- The last listing stored is what is open now. -/
def Aligned (mkt : Market) (s : State) : Prop := ∃ now, s.listed.Perm (open_on_exchange mkt now s)

/-- **The view follows the exchange** exactly as long as nothing has changed since the listing. -/
theorem follows_iff (h : Reaches (Fires (next mkt)) (fun _ _ => True) {} s) :
    Follows mkt s ↔ (s.conn.connected = true → Aligned mkt s) := by
  constructor
  · intro hf hc
    obtain ⟨now, hnow⟩ := hf _ (if_pos hc)
    exact ⟨now, (fetch_listed h (if_pos hc)).symm.trans hnow⟩
  · intro ha orders hf
    have hc : s.conn.connected = true := by
      by_contra hc
      rw [fetch_open_orders, if_neg hc] at hf
      cases hf
    obtain ⟨now, hnow⟩ := ha hc
    exact ⟨now, (fetch_listed h hf).trans hnow⟩

/-- The bootstrap has the listing of the open orders. -/
def Io.fetched : Io → Bool
  | .store _ | .ticker | .ws_connect | .subscribe | .receiving => true
  | _ => false

/-- The bootstrap is past storing it. -/
def Io.stored : Io → Bool
  | .ticker | .ws_connect | .subscribe | .receiving => true
  | _ => false

/-- The bootstrap fetches or stores it. -/
def Io.listing : Io → Bool
  | .open_orders | .store _ => true
  | _ => false

/-- No fetch returns anything before the io thread has listed the open orders once more. -/
def Unlisted (s : State) : Prop :=
  s.conn.connected = false ∧ (s.conn.running = false ∨ s.io.fetched = false)

instance (s : State) : Decidable (Unlisted s) := by unfold Unlisted; infer_instance

/-- The condition on a step: the orders on the exchange change only while they are to be listed
anew; before the connector is connected the listing is not skipped; and `connect` returns after it. -/
def Settled (s : State) : Act → Prop
  | .opened _ | .filled _ | .create_limit_order .. => Unlisted s
  | .closed id | .cancel_order id => Unlisted s ∨ id ∉ s.book.keys
  | .cancel_all_orders => Unlisted s ∨ s.book.toList = []
  | .raised => s.conn.connected = true ∨ s.conn.running = false ∨ s.io.listing = false
  | .connect_ready => s.conn.connected = true ∨ s.io.stored = true
  | _ => True

instance (s : State) (a : Act) : Decidable (Settled s a) := by
  cases a <;> unfold Settled <;> infer_instance

/-- What settled runs keep: the listing is what is open on the exchange, wherever it is used or is
going to be. -/
structure Synced (mkt : Market) (s : State) : Prop where
  aligned : s.conn.connected = true ∨ s.conn.running = true ∧ s.io.stored = true → Aligned mkt s
  storing : s.conn.connected = true ∨ s.conn.running = true →
    ∀ orders_arr, s.io = .store orders_arr → orders_arr = s.book.toList

theorem Unlisted.synced (h : Unlisted s) : Synced mkt s := by
  have hno : s.conn.running = true → s.io.fetched = false := fun hr =>
    h.2.resolve_left (by simp [hr])
  refine ⟨fun hc => ?_, fun hc orders_arr hio => ?_⟩
  · rcases hc with hc | ⟨hr, hstored⟩
    · exact absurd (hc.symm.trans h.1) (by decide)
    · have hfetched := hno hr
      cases hio : s.io <;> rw [hio] at hstored hfetched <;> cases hstored <;> cases hfetched
  · rcases hc with hc | hr
    · exact absurd (hc.symm.trans h.1) (by decide)
    · have hfetched := hno hr
      rw [hio] at hfetched
      cases hfetched

/-- The io thread and the callers move on. -/
theorem Synced.moves (h : Synced mkt s) (hlisted : s'.listed = s.listed) (hbook : s'.book = s.book)
    (haligned : s'.conn.connected = true ∨ s'.conn.running = true ∧ s'.io.stored = true →
      s.conn.connected = true ∨ s.conn.running = true ∧ s.io.stored = true)
    (hstoring : s'.conn.connected = true ∨ s'.conn.running = true →
      ∀ orders_arr, s'.io = .store orders_arr →
        (s.conn.connected = true ∨ s.conn.running = true) ∧ s.io = .store orders_arr) :
    Synced mkt s' where
  aligned hc := by
    unfold Aligned open_on_exchange
    rw [hlisted, hbook]
    exact h.aligned (haligned hc)
  storing hc orders_arr hio := by
    obtain ⟨hc', hio'⟩ := hstoring hc orders_arr hio
    rw [hbook]
    exact h.storing hc' orders_arr hio'

theorem on_order_msg_flags (now : ℚ) (d : Json) (c : Connector) :
    (on_order_msg mkt now d c).connected = c.connected ∧
      (on_order_msg mkt now d c).running = c.running := by
  simp only [on_order_msg]
  split
  · exact ⟨rfl, rfl⟩
  · split <;> exact ⟨rfl, rfl⟩

/-- A message leaves the flags of the connector alone. -/
theorem on_ws_message_flags (j : Message) (now : ℚ) (c : Connector) :
    (on_ws_message mkt now j c).connected = c.connected ∧
      (on_ws_message mkt now j c).running = c.running := by
  simp only [on_ws_message]
  repeat' split
  all_goals first | exact ⟨rfl, rfl⟩ | exact on_order_msg_flags now _ c

/-- The orders on the exchange may change where they are to be listed anew, and where nothing is
changed. -/
theorem Synced.book (h : Synced mkt s) {book : Book} (hb : Unlisted s ∨ book = s.book) :
    Synced mkt { s with book := book } := by
  rcases hb with hb | rfl
  · exact Unlisted.synced hb
  · exact h

theorem Synced.place (h : Unlisted s) {j : Json} (hs : place s j = some s') : Synced mkt s' := by
  obtain ⟨id, -, -, rfl⟩ := place_eq hs
  exact Unlisted.synced h

theorem Synced.raised (h : Synced mkt s) (hc : Settled s .raised)
    (hs : next mkt s .raised = some s') : Synced mkt s' := by
  have skipped : s.io.listing = true → Synced mkt { s with io := .ticker } := fun hio => by
    refine ⟨fun hready => ?_, fun _ _ hstore => nomatch hstore⟩
    rcases hc with hconn | hrun | hno
    · exact h.aligned (.inl hconn)
    · rcases hready with hconn | ⟨hrun', -⟩
      · exact h.aligned (.inl hconn)
      · exact absurd (hrun.symm.trans hrun') (by decide)
    · exact absurd (hno.symm.trans hio) (by decide)
  have back : ∀ (io : Io), io.stored = false → (∀ l, io ≠ .store l) →
      Synced mkt { s with io := io, subscribed := [] } := fun io hio hstore =>
    h.moves rfl rfl
      (Or.imp_right fun hready => absurd (hready.2.symm.trans hio) (by decide))
      fun _ orders_arr hl => absurd hl (hstore orders_arr)
  simp only [next] at hs
  split at hs
  · cases hs
  · rename_i hio
    obtain rfl := Option.some.inj hs
    exact skipped (by rw [hio]; rfl)
  · rename_i hio
    obtain rfl := Option.some.inj hs
    exact skipped (by rw [hio]; rfl)
  · split at hs
    · obtain rfl := Option.some.inj hs
      exact back .account rfl fun _ h => nomatch h
    · obtain rfl := Option.some.inj hs
      exact back .stopped rfl fun _ h => nomatch h

/-- **Step**: in a settled run the orders on the exchange change only while the next listing is
still to be fetched. -/
theorem Synced.next {a : Act} (h : Synced mkt s) (hc : Settled s a)
    (hs : next mkt s a = some s') : Synced mkt s' := by
  cases a with
  | raised => exact h.raised hc hs
  | opened j => exact Synced.place hc hs
  | create_limit_order side price amount j =>
    obtain ⟨-, hs⟩ := Option.ite_none_right_eq_some.mp hs
    exact Synced.place hc hs
  | filled j =>
    obtain ⟨-, ⟨⟩⟩ := Option.ite_none_right_eq_some.mp hs
    exact h.book (.inl hc)
  | closed id =>
    obtain rfl := Option.some.inj hs
    exact h.book (Or.imp_right Keyed.erase_of_not_mem hc)
  | cancel_order id =>
    obtain ⟨-, ⟨⟩⟩ := Option.ite_none_right_eq_some.mp hs
    exact h.book (Or.imp_right Keyed.erase_of_not_mem hc)
  | cancel_all_orders =>
    obtain ⟨-, ⟨⟩⟩ := Option.ite_none_right_eq_some.mp hs
    exact h.book (hc.imp_right fun hnone => Keyed.toList_injective hnone.symm)
  | connect_ready =>
    obtain ⟨hready, ⟨⟩⟩ := Option.ite_none_right_eq_some.mp hs
    simp only [Bool.and_eq_true] at hready
    refine ⟨fun _ => h.aligned (hc.imp_right fun hstored => ⟨hready.1.1, hstored⟩), fun _ => ?_⟩
    exact h.storing (.inr hready.1.1)
  | connect_timeout =>
    obtain ⟨-, ⟨⟩⟩ := Option.ite_none_left_eq_some.mp hs
    exact h.moves rfl rfl (by simp +contextual) fun hready _ hio =>
      ⟨hready.imp_right (fun h => nomatch h), hio⟩
  | disconnect =>
    obtain rfl := Option.some.inj hs
    exact h.moves rfl rfl (by simp) (by simp)
  | message j now =>
    simp only [Mexc.next] at hs
    split at hs
    · rename_i hio
      obtain ⟨-, ⟨⟩⟩ := Option.ite_none_right_eq_some.mp hs
      obtain ⟨hconn, hrun⟩ : (on_ws_message mkt now j s.conn).connected = s.conn.connected ∧
          (on_ws_message mkt now j s.conn).running = s.conn.running :=
        on_ws_message_flags j now s.conn
      refine h.moves rfl rfl (fun hready => ?_) fun _ orders_arr hl => ?_
      · simpa only [hconn, hrun] using hready
      · exact nomatch hio.symm.trans hl
    · cases hs
  | list =>
    simp only [Mexc.next] at hs
    split at hs
    · obtain rfl := Option.some.inj hs
      refine ⟨fun hready => h.aligned ?_, fun _ _ hl => (Io.store.inj hl).symm⟩
      exact hready.imp_right fun hno => nomatch hno.2
    · cases hs
  | store now =>
    simp only [Mexc.next] at hs
    split at hs
    · rename_i orders_arr hio
      obtain rfl := Option.some.inj hs
      refine ⟨fun hready => ⟨now, ?_⟩, fun _ _ hl => nomatch hl⟩
      rw [h.storing (hready.imp_right And.left) orders_arr hio]
      exact List.Perm.refl _
    · cases hs
  | connect | account balances | ticker bt lt now | ws_connect | subscribe | leave =>
    simp only [Mexc.next] at hs
    split at hs
    all_goals
      first
      | rename_i hio
        obtain rfl := Option.some.inj hs
        exact h.moves rfl rfl (by simp +contextual [Io.stored, hio]) fun _ _ hl => nomatch hl
      | cases hs

/-- **In settled runs the view follows the exchange**: what a fetch returns is what is open now. -/
theorem follows_of_settled (h : Reaches (Fires (next mkt)) Settled {} s) : Follows mkt s := by
  have hstart : Synced mkt {} := Unlisted.synced ⟨rfl, .inl rfl⟩
  have hsynced : Synced mkt s := h.inv hstart fun _ _ _ hi hc hs => hi.next hc hs
  exact (follows_iff (h.mono fun _ _ _ => trivial)).mpr fun hc => hsynced.aligned (.inl hc)

/-! ## An order the view misses -/

/-- A buy order for 2 at 10, as the exchange lists it. -/
def buy_two : Json where
  text
    | "orderId" => some "1"
    | "side" => some "BUY"
    | "status" => some "NEW"
    | _ => none
  number
    | "price" => some 10
    | "origQty" => some 2
    | _ => none

/-- A bootstrap that finds no open orders, and an order placed through the connector. -/
def missRun : List Act :=
  [.connect, .account [], .list, .store 0, .ticker {} {} 0, .connect_ready, .ws_connect, .subscribe,
    .create_limit_order "buy" 10 2 buy_two]

/-- **The order is open and a fetch does not return it.** -/
theorem view_misses_order :
    ¬∀ (mkt : Market) (s : State) (now : ℚ) (orders : List Cpp.Order),
      Reaches (Fires (next mkt)) (fun _ _ => True) {} s →
      fetch_open_orders s.conn = some orders →
      orders.Perm (s.book.toList.map (json_to_order mkt now)) := by
  intro hall
  have h : (play (next ⟨"AB", "A", "B"⟩) (fun _ _ => True) {} missRun).any (fun s => decide
      (s.book.toList ≠ [] ∧ fetch_open_orders s.conn = some [])) = true := by
    decide +kernel
  obtain ⟨s, hs, hp⟩ := (Option.any_eq_true _ _).mp h
  obtain ⟨hbook, hfetch⟩ := of_decide_eq_true hp
  have hperm := hall _ s 0 [] (reaches_of_play hs) hfetch
  exact hbook (List.map_eq_nil_iff.mp (List.nil_perm.mp hperm))

end Meridian.Mexc
