import Meridian.Cpp.KrakenBootstrap
import Meridian.Lib.Replica
import Meridian.Lib.Run

/-!
# The Kraken connector: the open orders it shows

Model of `KrakenConnector::on_ws_message` and of the three handlers behind it
(`exchange/cpp/src/kraken_connector.cpp`, 383-514), of `fetch_open_orders` (533-540), and of the sessions
of the io thread around them: the orders are taken from REST, then from the snapshot of the channel
`executions`, then from its updates, until the connection drops. The exchange goes on meanwhile. It
answers what it has open when it is asked, it lists the same in a snapshot when it is subscribed to, and
it sends every later change once and in order, in messages of any number of changes.

`on_ws_message` drops a message without items before it looks at the type, so a snapshot of no orders is
not taken over.

Results:
* `orders_follow`: a caller is always told what the exchange had open at some moment, never at an earlier
  one than before, and beside that what such a snapshot left behind, which is open no more;
* `exact_of_noticed`: with no such snapshot, just what the exchange had open.
-/

namespace Meridian.KrakenOrders

open Candles (Thrown member value items member_of_get ok_bind)
open KrakenBootstrap
open KrakenBootstrap renaming State → ConnState
open Cpp (OrderMap)
open Run (Reaches)
open Replica (Update apply replay named Enabled Logged Shown ShownUpdate Mirrors Follows)

/-! ## The handlers -/

section Handlers

variable (lib : Library) (k : KrakenConnector) (now : ℚ)

/-- The statuses of an order that is open. -/
def openStatuses : List String := ["pending_new", "new", "open", "partially_filled"]

/-- The order of an item of `executions`. -/
def execution_order (oid status : String) (item : Json) : Except Thrown Cpp.Order := do
  let side ← value item "side" "buy"
  let price := jdbl lib item "limit_price"
  let amount := jdbl lib item "order_qty"
  let order : Cpp.Order :=
    { id := oid
      exchange := "kraken"
      symbol := k.kraken_pair
      side := side
      price := price
      amount := amount
      amount_usd := price * amount
      filled_amount := jdbl lib item "cum_qty"
      filled_price := jdbl lib item "avg_price"
      status := if status = "partially_filled" then "partial" else "open"
      timestamp := now }
  return order

/-- One item of a snapshot. -/
def snapshotStep (snap : OrderMap) (item : Json) : Except Thrown OrderMap := do
  let oid ← value item "order_id" ""
  let status ← value item "order_status" ""
  if oid = "" then return snap
  else if status ∈ openStatuses then do
    let order ← execution_order lib k now oid status item
    return snap.set order
  else return snap

/-- `on_execution_msg` (`kraken_connector.cpp:458-487`). -/
def on_execution_msg (s : ConnState) (data : Json) : Except Thrown ConnState := do
  let oid ← value data "order_id" ""
  let status ← value data "order_status" ""
  if oid = "" then return s
  else if status ∈ openStatuses then do
    let order ← execution_order lib k now oid status data
    return { s with open_orders := s.open_orders.set order }
  else return { s with open_orders := s.open_orders.erase oid }

/-- `on_ticker_msg` (`kraken_connector.cpp:440-456`). -/
def on_ticker_msg (s : ConnState) (data : Json) : Except Thrown ConnState :=
  let bid := jdbl lib data "bid"
  let ask := jdbl lib data "ask"
  let last := jdbl lib data "last"
  .ok
    { s with
      latest_ticker :=
        { bid := bid, ask := ask, last := last
          mid := if 0 < bid ∧ 0 < ask then (bid + ask) / 2 else last
          timestamp := now }
      ticker_ready := true }

/-- The available balance of the first spot wallet that has one. -/
def spotAvailable : List Json → Except Thrown (Option ℚ)
  | [] => .ok none
  | w :: ws => do
    let type ← value w "type" ""
    if type = "spot" ∧ contains w "available" then return some (jdbl lib w "available")
    else spotAvailable ws

/-- The available balance of a balance item. -/
def walletsAvailable (data : Json) : Except Thrown (Option ℚ) :=
  match member data "wallets" with
  | .arr wallets => spotAvailable lib wallets
  | _ => .ok none

/-- `on_balance_msg` (`kraken_connector.cpp:489-514`). -/
def on_balance_msg (s : ConnState) (data : Json) : Except Thrown ConnState := do
  let asset ← value data "asset" ""
  let available ← walletsAvailable lib data
  let balance := available.getD (jdbl lib data "balance")
  let upper_qc := toupper k.quote_currency
  let bal := s.latest_balance
  let bal := if asset = upper_qc ∨ asset = "Z" ++ upper_qc then { bal with usd := balance } else bal
  let bal :=
    if asset = k.base_token ∨ asset = "X" ++ k.base_token then { bal with token := balance } else bal
  return { s with latest_balance := bal, balance_ready := true }

/-- The items of a message, one after the other; what was stored before an exception stays. -/
def forItems (handler : ConnState → Json → Except Thrown ConnState) :
    ConnState → List Json → ConnState × Except Thrown Unit
  | s, [] => (s, .ok ())
  | s, item :: rest =>
    match handler s item with
    | .error e => (s, .error e)
    | .ok s' => forItems handler s' rest

/-- The items of a snapshot. -/
def on_snapshot (s : ConnState) (data_arr : List Json) : ConnState × Except Thrown Unit :=
  match data_arr.foldlM (snapshotStep lib k now) Keyed.empty with
  | .error e => (s, .error e)
  | .ok snap => ({ s with open_orders := snap }, .ok ())

/-- The items of a message on a channel. -/
def on_channel (channel type : String) (s : ConnState) (data_arr : List Json) :
    ConnState × Except Thrown Unit :=
  if channel = "ticker" then forItems (on_ticker_msg lib now) s data_arr
  else if channel = "executions" then
    if type = "snapshot" then on_snapshot lib k now s data_arr
    else forItems (on_execution_msg lib k now) s data_arr
  else if channel = "balances" then forItems (on_balance_msg lib k) s data_arr
  else (s, .ok ())

/-- `on_ws_message` (`kraken_connector.cpp:383-438`). -/
def on_ws_message (s : ConnState) (raw : String) : ConnState × Except Thrown Unit :=
  match lib.parse raw with
  | none => (s, .ok ())
  | some j =>
    if contains j "method" then (s, .ok ())
    else
      match value j "channel" "" with
      | .error e => (s, .error e)
      | .ok channel =>
        if channel = "" ∨ channel = "heartbeat" ∨ channel = "status" then (s, .ok ())
        else
          match member j "data" with
          | .arr (item :: rest) =>
            match value j "type" "update" with
            | .error e => (s, .error e)
            | .ok type => on_channel lib k now channel type s (item :: rest)
          | _ => (s, .ok ())

end Handlers

/-- `fetch_open_orders` (`kraken_connector.cpp:533-540`). -/
def fetch_open_orders (connected : Bool) (s : ConnState) : Except Thrown (List Cpp.Order) :=
  if connected then .ok s.open_orders.values
  else .error (.runtime_error "KrakenConnector::fetch_open_orders: not connected")

/-! ## The exchange -/

/-- An open order at the exchange. -/
structure Report where
  id : String
  status : String
  side : String
  limit_price : ℚ
  order_qty : ℚ
  cum_qty : ℚ
  avg_price : ℚ
  named : id ≠ ""
  status_mem : status ∈ openStatuses

/-- What has happened to the orders. -/
abbrev Log := List (Update Report String)

/-- The open orders after the first `n` changes. -/
def book (log : Log) (n : ℕ) : Keyed Report.id := replay Report.id (log.take n)

variable (lib : Library) (k : KrakenConnector)

/-- The cached order shows what the exchange reports of it, field by field. -/
structure Shows (r : Report) (o : Cpp.Order) : Prop where
  exchange : o.exchange = "kraken"
  symbol : o.symbol = k.kraken_pair
  side : o.side = r.side
  price : o.price = r.limit_price
  amount : o.amount = r.order_qty
  amount_usd : o.amount_usd = r.limit_price * r.order_qty
  filled_amount : o.filled_amount = r.cum_qty
  filled_price : o.filled_price = r.avg_price
  status : o.status = "open" ∨ o.status = "partial"

/-- The item of an order that is open. -/
structure OpenItem (r : Report) (item : Json) : Prop where
  order_id : value item "order_id" "" = .ok r.id
  order_status : value item "order_status" "" = .ok r.status
  side : value item "side" "buy" = .ok r.side
  limit_price : jdbl lib item "limit_price" = r.limit_price
  order_qty : jdbl lib item "order_qty" = r.order_qty
  cum_qty : jdbl lib item "cum_qty" = r.cum_qty
  avg_price : jdbl lib item "avg_price" = r.avg_price

/-- The item of a change. -/
inductive ItemOf : Update Report String → Json → Prop where
  | put {r : Report} {item : Json} (h : OpenItem lib r item) : ItemOf (.put r) item
  | drop {id status : String} {item : Json} (hid : id ≠ "") (hstatus : status ∉ openStatuses)
      (order_id : value item "order_id" "" = .ok id)
      (order_status : value item "order_status" "" = .ok status) : ItemOf (.drop id) item

/-- A message on the channel `executions`. -/
def Executions (raw type : String) (data : List Json) : Prop :=
  ∃ members, lib.parse raw = some (.obj members) ∧ Dict.get members "method" = none ∧
    Dict.get members "channel" = some (.str "executions") ∧
    Dict.get members "type" = some (.str type) ∧ Dict.get members "data" = some (.arr data)

/-- A message on another channel, or none at all. -/
def Elsewhere (raw : String) : Prop :=
  ∀ j, lib.parse raw = some j → value j "channel" "" ≠ .ok "executions"

/-- The server lists these orders over REST. -/
def Lists (srv : Server) (open_now : Keyed Report.id) : Prop :=
  ∃ result orders, Answers lib (srv.request "POST" "/0/private/OpenOrders" "") (.obj result) ∧
    Dict.get result "open" = some (.obj orders) ∧
    (∀ txid, (Dict.get orders txid).isSome ↔ txid ∈ open_now.keys) ∧
    ∀ r ∈ open_now, ∀ j, Dict.get orders r.id = some j →
      Listed j ∧ Shows k r (orderOf lib k srv.now r.id j)

/-! ## The sessions -/

/-- How far a session is: the orders have been asked for, or the channel subscribed to, when so much had
happened. -/
inductive Session where
  | down
  | asked (n : ℕ)
  | up
  | subscribed (n : ℕ)
  | live

/-- The connector and the exchange. History: how much of the log the open orders show, and the ids that a
snapshot without items left behind. -/
structure System where
  conn : ConnState
  log : Log
  session : Session
  shown : ℕ
  leftover : List String

/-- A connector just constructed. -/
def init : System := { conn := {}, log := [], session := .down, shown := 0, leftover := [] }

/-- The exchange changes its orders; a bootstrap and its parts; messages; the connection drops. -/
inductive Act where
  | happen (u : Update Report String)
  | ask
  | bootstrap (srv : Server)
  | subscribe
  | message (raw : String) (now : ℚ)
  | drop

/-- The session after something that may have thrown. -/
def after (session : Session) : Except Thrown Unit → Session
  | .ok _ => session
  | .error _ => .down

/-- What a snapshot leaves behind. -/
def leftBy (data : List Json) (open_orders : OrderMap) : List String :=
  match data with
  | [] => open_orders.keys
  | _ :: _ => []

/-- One step. -/
inductive Step (s : System) : Act → System → Prop where
  | happen (u : Update Report String) (hu : Enabled Report.id s.log u) :
      Step s (.happen u) { s with log := s.log ++ [u] }
  | ask (h : s.session = .down) : Step s .ask { s with session := .asked s.log.length }
  | stored (srv : Server) (n : ℕ) (h : s.session = .asked n) (hlists : Lists lib k srv (book s.log n))
      (bal : Cpp.Balance) (hbal : bootstrapBalance lib k srv = .ok bal) :
      Step s (.bootstrap srv)
        { s with
          conn := (bootstrap lib k srv s.conn).1
          session := after .up (bootstrap lib k srv s.conn).2
          shown := n
          leftover := [] }
  | failed (srv : Server) (n : ℕ) (h : s.session = .asked n) (e : Thrown)
      (he : bootstrapBalance lib k srv = .error e ∨ bootstrapOrders lib k srv = .error e) :
      Step s (.bootstrap srv)
        { s with
          conn := (bootstrap lib k srv s.conn).1
          session := after .up (bootstrap lib k srv s.conn).2 }
  | subscribe (h : s.session = .up) : Step s .subscribe { s with session := .subscribed s.log.length }
  | snapshot (raw : String) (now : ℚ) (n : ℕ) (h : s.session = .subscribed n) (rs : List Report)
      (data : List Json) (hraw : Executions lib raw "snapshot" data)
      (hrs : rs.Perm (book s.log n).toList) (hdata : List.Forall₂ (OpenItem lib) rs data) :
      Step s (.message raw now)
        { s with
          conn := (on_ws_message lib k now s.conn raw).1
          session := .live
          shown := n
          leftover := leftBy data s.conn.open_orders }
  | update (raw : String) (now : ℚ) (h : s.session = .live) (us : List (Update Report String))
      (data : List Json) (hraw : Executions lib raw "update" data) (hus : us <+: s.log.drop s.shown)
      (hdata : List.Forall₂ (ItemOf lib) us data) :
      Step s (.message raw now)
        { s with
          conn := (on_ws_message lib k now s.conn raw).1
          shown := s.shown + us.length }
  | other (raw : String) (now : ℚ) (hraw : Elsewhere lib raw) :
      Step s (.message raw now)
        { s with
          conn := (on_ws_message lib k now s.conn raw).1
          session := after s.session (on_ws_message lib k now s.conn raw).2 }
  | drop : Step s .drop { s with session := .down }

/-! ## What the handlers do with an item -/

variable {lib} (now : ℚ)

theorem execution_order_eq {r : Report} {item : Json} (h : OpenItem lib r item) :
    ∃ o, execution_order lib k now r.id r.status item = .ok o ∧
      Shown Report.id Cpp.Order.id (Shows k) r o := by
  refine ⟨_, by rw [execution_order, h.side, ok_bind]; rfl, rfl, ?_⟩
  have hstatus : ∀ s : String, (if s = "partially_filled" then "partial" else "open") = "open" ∨
      (if s = "partially_filled" then "partial" else "open") = "partial" := by
    intro s
    split
    · exact .inr rfl
    · exact .inl rfl
  exact ⟨rfl, rfl, rfl, h.limit_price, h.order_qty, by rw [h.limit_price, h.order_qty], h.cum_qty,
    h.avg_price, hstatus _⟩

/-- **A snapshot** is made of what shows the orders it lists. -/
theorem foldlM_snapshotStep {rs : List Report} {data : List Json}
    (h : List.Forall₂ (OpenItem lib) rs data) :
    ∃ os, List.Forall₂ (Shown Report.id Cpp.Order.id (Shows k)) rs os ∧
      ∀ snap, data.foldlM (snapshotStep lib k now) snap = .ok (os.foldl Keyed.set snap) := by
  induction h with
  | nil => exact ⟨[], .nil, fun _ => rfl⟩
  | @cons r item rs data hitem _ ih =>
    obtain ⟨o, ho, hshown⟩ := execution_order_eq k now hitem
    obtain ⟨os, hos, hrun⟩ := ih
    refine ⟨o :: os, .cons hshown hos, fun snap => ?_⟩
    have hstep : snapshotStep lib k now snap item = .ok (snap.set o) := by
      rw [snapshotStep, hitem.order_id, ok_bind, hitem.order_status, ok_bind, if_neg r.named,
        if_pos r.status_mem, ho, ok_bind]
      rfl
    rw [List.foldlM_cons, hstep, ok_bind, List.foldl_cons]
    exact hrun _

/-- **One item** of an execution message changes the open orders as the change it reports does. -/
theorem on_execution_msg_eq {u : Update Report String} {item : Json} (h : ItemOf lib u item) :
    ∃ v, ShownUpdate Report.id Cpp.Order.id (Shows k) u v ∧ ∀ s, on_execution_msg lib k now s item =
      .ok { s with open_orders := apply s.open_orders v } := by
  cases h with
  | @put r item hitem =>
    obtain ⟨o, ho, hshown⟩ := execution_order_eq k now hitem
    refine ⟨.put o, .put hshown, fun s => ?_⟩
    rw [on_execution_msg, hitem.order_id, ok_bind, hitem.order_status, ok_bind, if_neg r.named,
      if_pos r.status_mem, ho, ok_bind]
    rfl
  | @drop id status item hid hstatus order_id order_status =>
    refine ⟨.drop id, .drop id, fun s => ?_⟩
    rw [on_execution_msg, order_id, ok_bind, order_status, ok_bind, if_neg hid, if_neg hstatus]
    rfl

theorem forItems_executions {us : List (Update Report String)} {data : List Json}
    (h : List.Forall₂ (ItemOf lib) us data) :
    ∃ vs, List.Forall₂ (ShownUpdate Report.id Cpp.Order.id (Shows k)) us vs ∧
      ∀ s, forItems (on_execution_msg lib k now) s data =
        ({ s with open_orders := vs.foldl apply s.open_orders }, .ok ()) := by
  induction h with
  | nil => exact ⟨[], .nil, fun _ => rfl⟩
  | cons hitem _ ih =>
    obtain ⟨v, hshown, hv⟩ := on_execution_msg_eq k now hitem
    obtain ⟨vs, hvs, hrun⟩ := ih
    refine ⟨v :: vs, .cons hshown hvs, fun s => ?_⟩
    simp only [forItems, hv, hrun, List.foldl_cons]

/-! ## What a message does -/

variable {s : ConnState}

theorem on_ws_message_executions {raw type : String} {data : List Json}
    (h : Executions lib raw type data) (s : ConnState) :
    on_ws_message lib k now s raw =
      match data with
      | [] => (s, .ok ())
      | _ :: _ => on_channel lib k now "executions" type s data := by
  obtain ⟨members, hparse, hmethod, hchannel, htype, hdata⟩ := h
  have hno : contains (.obj members) "method" = false := by
    rw [contains, hmethod]
    rfl
  have hvalue : ∀ {key fallback v}, Dict.get members key = some (.str v) →
      value (.obj members) key fallback = .ok v := by
    intro key fallback v hget
    simp only [value, hget]
  have hquiet : ¬("executions" = "" ∨ "executions" = "heartbeat" ∨ "executions" = "status") := by decide
  simp only [on_ws_message, hparse, hno, Bool.false_eq_true, if_false, hvalue hchannel, if_neg hquiet,
    member_of_get hdata]
  cases data with
  | nil => rfl
  | cons item rest => simp only [hvalue htype]

/-- The open orders after a snapshot, or what was there if it has no items. -/
theorem on_snapshot_orders {raw : String} {rs : List Report} {data : List Json}
    (h : Executions lib raw "snapshot" data) (hdata : List.Forall₂ (OpenItem lib) rs data)
    (s : ConnState) :
    data = [] ∧ (on_ws_message lib k now s raw).1 = s ∨
      data ≠ [] ∧ ∃ os, List.Forall₂ (Shown Report.id Cpp.Order.id (Shows k)) rs os ∧
        (on_ws_message lib k now s raw).1.open_orders = Keyed.ofList os := by
  rw [on_ws_message_executions k now h]
  cases data with
  | nil => exact .inl ⟨rfl, rfl⟩
  | cons item rest =>
    obtain ⟨os, hos, hrun⟩ := foldlM_snapshotStep k now hdata
    refine .inr ⟨List.cons_ne_nil _ _, os, hos, ?_⟩
    have hchannel : on_channel lib k now "executions" "snapshot" s (item :: rest) =
        on_snapshot lib k now s (item :: rest) := rfl
    simp only [hchannel, on_snapshot, hrun]
    rfl

/-- The open orders after an update. -/
theorem on_update_orders {raw : String} {us : List (Update Report String)} {data : List Json}
    (h : Executions lib raw "update" data) (hdata : List.Forall₂ (ItemOf lib) us data) (s : ConnState) :
    ∃ vs, List.Forall₂ (ShownUpdate Report.id Cpp.Order.id (Shows k)) us vs ∧
      (on_ws_message lib k now s raw).1.open_orders = vs.foldl apply s.open_orders := by
  obtain ⟨vs, hvs, hrun⟩ := forItems_executions k now hdata
  refine ⟨vs, hvs, ?_⟩
  rw [on_ws_message_executions k now h]
  cases data with
  | nil =>
    cases hdata
    cases hvs
    rfl
  | cons item rest =>
    have hchannel : on_channel lib k now "executions" "update" s (item :: rest) =
        forItems (on_execution_msg lib k now) s (item :: rest) := rfl
    simp only [hchannel, hrun]

variable {k now}

theorem forItems_orders {handler : ConnState → Json → Except Thrown ConnState}
    (hh : ∀ {s item s'}, handler s item = .ok s' → s'.open_orders = s.open_orders) (data : List Json) :
    ∀ s, (forItems handler s data).1.open_orders = s.open_orders := by
  induction data with
  | nil => exact fun _ => rfl
  | cons item rest ih =>
    intro s
    rw [forItems]
    cases hitem : handler s item with
    | error e => rfl
    | ok s' => exact (ih s').trans (hh hitem)

theorem on_balance_msg_orders {item : Json} {s s' : ConnState}
    (h : on_balance_msg lib k s item = .ok s') :
    s'.open_orders = s.open_orders := by
  unfold on_balance_msg at h
  cases hasset : value item "asset" "" with
  | error e => rw [hasset] at h; cases h
  | ok asset =>
    rw [hasset, ok_bind] at h
    cases havailable : walletsAvailable lib item with
    | error e => rw [havailable] at h; cases h
    | ok available =>
      rw [havailable, ok_bind] at h
      obtain rfl := Except.ok.inj h
      rfl

/-- **A message elsewhere** leaves the open orders alone, even if it throws. -/
theorem on_elsewhere_orders {raw : String} (h : Elsewhere lib raw) (s : ConnState) :
    (on_ws_message lib k now s raw).1.open_orders = s.open_orders := by
  unfold on_ws_message
  cases hparse : lib.parse raw with
  | none => rfl
  | some j =>
    have hj := h j hparse
    dsimp only
    split
    · rfl
    · cases hchannel : value j "channel" "" with
      | error e => rfl
      | ok channel =>
        have hne : channel ≠ "executions" := fun heq => hj (heq ▸ hchannel)
        dsimp only
        split
        · rfl
        · split
          · split
            · rfl
            · rw [on_channel, if_neg hne]
              split
              · exact forItems_orders (fun hs => by obtain rfl := Except.ok.inj hs; rfl) _ s
              · split
                · exact forItems_orders on_balance_msg_orders _ s
                · rfl
          · rfl

/-! ## What a bootstrap does -/

variable {srv : Server}

theorem bootstrap_stores {bal : Cpp.Balance} {omap : OrderMap}
    (hbal : bootstrapBalance lib k srv = .ok bal) (homap : bootstrapOrders lib k srv = .ok omap)
    (s : ConnState) :
    (bootstrap lib k srv s).1.open_orders = omap := by
  unfold bootstrap
  simp only [hbal, homap]
  split <;> rfl

theorem bootstrap_keeps {e : Thrown}
    (he : bootstrapBalance lib k srv = .error e ∨ bootstrapOrders lib k srv = .error e) (s : ConnState) :
    (bootstrap lib k srv s).1.open_orders = s.open_orders := by
  unfold bootstrap
  rcases he with he | he
  · simp only [he]
  · cases bootstrapBalance lib k srv with
    | error e' => rfl
    | ok bal =>
      simp only [he]
      split <;> rfl

/-- **The orders over REST** show the orders that are listed. -/
theorem bootstrapOrders_mirrors {open_now : Keyed Report.id} (h : Lists lib k srv open_now) :
    ∃ omap, bootstrapOrders lib k srv = .ok omap ∧ Mirrors (Shows k) [] open_now omap := by
  obtain ⟨result, orders, hanswer, hopen, hkeys, hshows⟩ := h
  have hget : rest_post_private lib srv "/0/private/OpenOrders" "" = .ok (.obj result) :=
    unwrap_answers hanswer _
  have hrun : bootstrapOrders lib k srv =
      (items (.obj orders)).foldlM (orderStep lib k srv) Keyed.empty := by
    rw [bootstrapOrders, hget, ok_bind, (get_member hopen).2]
  have hlisted : ∀ x ∈ items (.obj orders), Listed x.2 := by
    intro x hx
    have hx' := mem_items.mp hx
    obtain ⟨r, hr, hid⟩ := Keyed.mem_keys.mp ((hkeys x.1).mp (Option.isSome_iff_exists.mpr ⟨_, hx'⟩))
    exact (hshows r hr x.2 (hid ▸ hx')).1
  refine ⟨_, hrun.trans (foldlM_orderStep hlisted), ?_⟩
  have hids : (((items (.obj orders)).map fun x =>
      orderOf lib k srv.now x.1 x.2).map Cpp.Order.id) = (items (.obj orders)).map Prod.fst := by
    rw [List.map_map]
    rfl
  have hlist := Keyed.toList_ofList (hids ▸ nodup_items orders)
  rw [Keyed.ofList] at hlist
  refine ⟨fun id => ?_, fun _ hid => absurd hid List.not_mem_nil, fun r hr => ?_⟩
  · rw [Keyed.keys, hlist, hids, or_iff_left List.not_mem_nil, ← hkeys, List.mem_map,
      Option.isSome_iff_exists]
    constructor
    · rintro ⟨x, hx, rfl⟩
      exact ⟨x.2, mem_items.mp hx⟩
    · rintro ⟨j, hj⟩
      exact ⟨(id, j), mem_items.mpr hj, rfl⟩
  · obtain ⟨j, hj⟩ := Option.isSome_iff_exists.mp ((hkeys r.id).mpr (Keyed.key_mem hr))
    refine ⟨orderOf lib k srv.now r.id j, ?_, rfl, (hshows r hr j hj).2⟩
    rw [Keyed.mem_def, hlist]
    exact List.mem_map.mpr ⟨(r.id, j), mem_items.mpr hj, rfl⟩

/-! ## The invariant -/

/-- When the session last asked. -/
def Session.since : Session → Option ℕ
  | .asked n | .subscribed n => some n
  | .down | .up | .live => none

@[simp] theorem since_after {session : Session} (h : session.since = none) (r : Except Thrown Unit) :
    (after session r).since = none := by
  cases r with
  | error e => rfl
  | ok u => exact h

/-- The open orders follow the log, and what is awaited is no older. -/
structure Inv (k : KrakenConnector) (s : System) : Prop where
  logged : Logged Report.id s.log
  follows : Follows (Shows k) s.log s.shown s.leftover s.conn.open_orders Report.id
  since : ∀ n ∈ s.session.since, s.shown ≤ n ∧ n ≤ s.log.length

variable {s₀ s₁ s₂ : System} {a : Act}

theorem inv_init : Inv k init :=
  ⟨Replica.logged_nil, Replica.follows_empty, fun _ h => nomatch h⟩

/-- **One step** keeps the invariant, and the open orders go no way back. -/
theorem inv_step (h : Inv k s₁) (hs : Step lib k s₁ a s₂) : Inv k s₂ ∧ s₁.shown ≤ s₂.shown := by
  cases hs with
  | happen u hu =>
    refine ⟨⟨h.logged.concat hu, h.follows.concat, fun n hn => ?_⟩, le_rfl⟩
    obtain ⟨hle, hlength⟩ := h.since n hn
    exact ⟨hle, hlength.trans (List.length_append ▸ Nat.le_add_right _ _)⟩
  | ask =>
    refine ⟨⟨h.logged, h.follows, fun n hn => ?_⟩, le_rfl⟩
    obtain rfl := Option.mem_some_iff.mp hn
    exact ⟨h.follows.le, le_rfl⟩
  | stored srv n hsession hlists bal hbal =>
    obtain ⟨hle, hlength⟩ := h.since n (by rw [hsession]; rfl)
    obtain ⟨omap, homap, hmirrors⟩ := bootstrapOrders_mirrors hlists
    refine ⟨⟨h.logged, ⟨hlength, ?_, fun _ hid => absurd hid List.not_mem_nil⟩, fun m hm => ?_⟩, hle⟩
    · rw [bootstrap_stores hbal homap]
      exact hmirrors
    · rw [since_after rfl] at hm
      cases hm
  | failed srv n hsession e he =>
    refine ⟨⟨h.logged, ?_, fun m hm => ?_⟩, le_rfl⟩
    · rw [bootstrap_keeps he]
      exact h.follows
    · rw [since_after rfl] at hm
      cases hm
  | subscribe =>
    refine ⟨⟨h.logged, h.follows, fun n hn => ?_⟩, le_rfl⟩
    obtain rfl := Option.mem_some_iff.mp hn
    exact ⟨h.follows.le, le_rfl⟩
  | snapshot raw now n hsession rs data hraw hrs hdata =>
    obtain ⟨hle, hlength⟩ := h.since n (by rw [hsession]; rfl)
    refine ⟨⟨h.logged, ?_, fun m hm => nomatch hm⟩, hle⟩
    rcases on_snapshot_orders k now hraw hdata s₁.conn with
      ⟨rfl, horders⟩ | ⟨hne, os, hos, horders⟩
    · -- nothing is open, and the message is not looked at
      cases hdata
      rw [horders]
      exact h.follows.overlooked hle hlength hrs.symm.eq_nil
    · obtain ⟨item, rest, rfl⟩ := List.exists_cons_of_ne_nil hne
      rw [horders]
      exact Replica.follows_snapshot hlength hrs hos
  | update raw now hsession us data hraw hus hdata =>
    obtain ⟨vs, hvs, horders⟩ := on_update_orders k now hraw hdata s₁.conn
    refine ⟨⟨h.logged, ?_, fun m hm => ?_⟩, Nat.le_add_right _ _⟩
    · rw [horders]
      exact h.follows.updates h.logged hus hvs
    · rw [hsession] at hm
      cases hm
  | other raw now hraw =>
    refine ⟨⟨h.logged, ?_, fun n hn => ?_⟩, le_rfl⟩
    · rw [on_elsewhere_orders hraw]
      exact h.follows
    · refine h.since n ?_
      cases hthrown : (on_ws_message lib k now s₁.conn raw).2 with
      | ok u => rwa [hthrown] at hn
      | error e => rw [hthrown] at hn; cases hn
  | drop => exact ⟨⟨h.logged, h.follows, fun n hn => nomatch hn⟩, le_rfl⟩

theorem inv_run {cond : System → Act → Prop} (h : Reaches (Step lib k) cond s₀ s₁) (h₀ : Inv k s₀) :
    Inv k s₁ ∧ s₀.shown ≤ s₁.shown :=
  h.inv (I := fun s => Inv k s ∧ s₀.shown ≤ s.shown) ⟨h₀, le_rfl⟩ fun _ _ _ hi _ hs =>
    have hstep := inv_step hi.1 hs
    ⟨hstep.1, hi.2.trans hstep.2⟩

/-! ## What a caller is told -/

/-- The orders are those the exchange had open after the first `shown` changes, and beside them some
with the ids `leftover`, which it never has open from then on. -/
structure Told (k : KrakenConnector) (s : System) (orders : List Cpp.Order) : Prop where
  nodup : (orders.map Cpp.Order.id).Nodup
  ids : ∀ id, id ∈ orders.map Cpp.Order.id ↔ id ∈ (book s.log s.shown).keys ∨ id ∈ s.leftover
  shows : ∀ r ∈ book s.log s.shown, ∃ o ∈ orders, o.id = r.id ∧ Shows k r o
  gone : ∀ id ∈ s.leftover, ∀ n, s.shown ≤ n → id ∉ (book s.log n).keys

/-- The orders are just those the exchange had open after the first `shown` changes. -/
structure Exact (k : KrakenConnector) (s : System) (orders : List Cpp.Order) : Prop where
  ids : (orders.map Cpp.Order.id).Perm (book s.log s.shown).keys
  shows : ∀ r ∈ book s.log s.shown, ∃ o ∈ orders, o.id = r.id ∧ Shows k r o

theorem fetch_open_orders_eq {connected : Bool} {orders : List Cpp.Order}
    (h : fetch_open_orders connected s = .ok orders) : orders.Perm s.open_orders.toList := by
  cases connected with
  | false => cases h
  | true =>
    obtain rfl := Except.ok.inj h
    exact Cpp.OrderMap.values_perm _

theorem Inv.told (h : Inv k s₁) {orders : List Cpp.Order}
    (horders : orders.Perm s₁.conn.open_orders.toList) : Told k s₁ orders := by
  have hids := horders.map Cpp.Order.id
  refine ⟨hids.nodup_iff.mpr s₁.conn.open_orders.nodup, fun id => ?_, fun r hr => ?_,
    fun id hid n hn => ?_⟩
  · exact hids.mem_iff.trans (h.follows.mirrors.keys id)
  · obtain ⟨o, ho, hshown⟩ := h.follows.mirrors.shown r hr
    exact ⟨o, horders.mem_iff.mpr ho, hshown⟩
  · exact h.follows.gone h.logged hn id hid

theorem Told.exact_iff {orders : List Cpp.Order} (h : Told k s₁ orders) :
    Exact k s₁ orders ↔ s₁.leftover = [] := by
  constructor
  · intro hexact
    refine List.eq_nil_iff_forall_not_mem.mpr fun id hid => h.gone id hid _ le_rfl ?_
    exact hexact.ids.mem_iff.mp ((h.ids id).mpr (.inr hid))
  · intro hnone
    refine ⟨?_, h.shows⟩
    refine (List.perm_ext_iff_of_nodup h.nodup (book s₁.log s₁.shown).nodup).mpr fun id => ?_
    rw [h.ids, hnone, or_iff_left List.not_mem_nil]
    rfl

/-- **The open orders follow the exchange**, through every mix of changes, bootstraps that succeed
or fail, subscriptions, messages and drops: a fetch tells the orders that were open after some first
changes, never fewer of them than a fetch before, and exactly these orders unless some were left
over. -/
theorem orders_follow (h : Reaches (Step lib k) (fun _ _ => True) init s₁)
    (h' : Reaches (Step lib k) (fun _ _ => True) s₁ s₂) {connected : Bool} {orders : List Cpp.Order}
    (horders : fetch_open_orders connected s₂.conn = .ok orders) :
    Told k s₂ orders ∧ (Exact k s₂ orders ↔ s₂.leftover = []) ∧ s₁.shown ≤ s₂.shown ∧
      s₂.shown ≤ s₂.log.length := by
  obtain ⟨hinv, hle⟩ := inv_run h' (inv_run h inv_init).1
  have htold := hinv.told (fetch_open_orders_eq horders)
  exact ⟨htold, htold.exact_iff, hle, hinv.follows.le⟩

/-- Whenever a snapshot has no items, nothing is held. -/
def Noticed (lib : Library) (s : System) (a : Act) : Prop :=
  ∀ raw now, a = .message raw now → Executions lib raw "snapshot" [] → s.conn.open_orders.keys = []

theorem leftover_step (hc : Noticed lib s₁ a) (hs : Step lib k s₁ a s₂) (h : s₁.leftover = []) :
    s₂.leftover = [] := by
  cases hs with
  | snapshot raw now n hsession rs data hraw hrs hdata =>
    cases data with
    | nil => exact hc raw now rfl hraw
    | cons item rest => rfl
  | stored => rfl
  | happen | ask | failed | subscribe | update | other | drop => exact h

/-- **Just the exchange's open orders** are told in a run in which every snapshot without items finds
nothing held. -/
theorem exact_of_noticed (h : Reaches (Step lib k) (Noticed lib) init s₁) {connected : Bool}
    {orders : List Cpp.Order} (horders : fetch_open_orders connected s₁.conn = .ok orders) :
    Exact k s₁ orders := by
  have hnone : s₁.leftover = [] :=
    h.inv (I := fun s => s.leftover = []) rfl fun _ _ _ hi hc hs => leftover_step hc hs hi
  exact ((inv_run h inv_init).1.told (fetch_open_orders_eq horders)).exact_iff.mpr hnone

/-! ## A ghost -/

/-- An order that is placed and closed. -/
def report : Report where
  id := "O1"
  status := "new"
  side := "buy"
  limit_price := 1 / 20
  order_qty := 10
  cum_qty := 0
  avg_price := 0
  named := by decide
  status_mem := List.mem_cons_of_mem _ List.mem_cons_self

/-- The snapshot of no orders. -/
def snapshotText : String :=
  "\x7b\"channel\":\"executions\",\"type\":\"snapshot\",\"data\":[]\x7d"

def ghostLibrary : Library :=
  { library with
    parse := fun s =>
      if s = snapshotText then
        some (.obj [("channel", .str "executions"), ("type", .str "snapshot"), ("data", .arr [])])
      else library.parse s }

/-- The connector after the bootstrap. -/
def booted : ConnState := (bootstrap ghostLibrary connector server {}).1

/-- The order is closed between the bootstrap and the subscription. -/
def ghost : System where
  conn := (on_ws_message ghostLibrary connector 0 booted snapshotText).1
  log := [.put report, .drop "O1"]
  session := .live
  shown := 2
  leftover := booted.open_orders.keys

theorem lists_report : Lists ghostLibrary connector server (book [.put report] 1) := by
  refine ⟨_, [("O1", orderJson)], ⟨_, _, rfl, by decide, by decide, rfl, rfl, rfl⟩, rfl, fun txid => ?_,
    fun r hr j hj => ?_⟩
  · rw [show (book [.put report] 1).keys = ["O1"] from rfl, List.mem_singleton, Dict.get, Dict.get,
      Option.none_or]
    by_cases h : "O1" = txid
    · rw [if_pos h]
      exact iff_of_true rfl h.symm
    · rw [if_neg h]
      exact iff_of_false (by decide) fun h' => h h'.symm
  · obtain rfl : r = report := List.mem_singleton.mp hr
    obtain rfl := get_singleton hj
    exact ⟨listed_orderJson, ⟨rfl, rfl, rfl, by decide +kernel, by decide +kernel, by decide +kernel,
      by decide +kernel, by decide +kernel, .inl rfl⟩⟩

theorem reaches_ghost : Reaches (Step ghostLibrary connector) (fun _ _ => True) init ghost := by
  have hok : (bootstrapBalance ghostLibrary connector server).isOk = true := by decide +kernel
  have hup : after .up (bootstrap ghostLibrary connector server {}).2 = .up := by
    have : (bootstrap ghostLibrary connector server {}).2.isOk = true := by decide +kernel
    cases hresult : (bootstrap ghostLibrary connector server {}).2 with
    | ok u => rfl
    | error e => rw [hresult] at this; cases this
  obtain ⟨bal, hbal⟩ : ∃ bal, bootstrapBalance ghostLibrary connector server = .ok bal := by
    cases hbal : bootstrapBalance ghostLibrary connector server with
    | ok bal => exact ⟨bal, rfl⟩
    | error e => rw [hbal] at hok; cases hok
  refine .tail (.tail (.tail (.tail (.tail (.tail .refl trivial
    (.happen (.put report) (.inr List.not_mem_nil))) trivial (.ask rfl)) trivial
    (.stored server 1 rfl lists_report bal hbal)) trivial
    (.happen (.drop "O1") List.mem_cons_self)) trivial (.subscribe hup)) trivial
    (.snapshot snapshotText 0 2 rfl [] [] ⟨_, rfl, rfl, rfl, rfl, rfl⟩ .nil .nil)

/-- **An order that closed in between** is shown to whoever asks, and was closed for all the exchange
says. -/
theorem ghost_shown : ghost.session = .live ∧ ghost.conn.open_orders.keys = ["O1"] ∧
    (book ghost.log ghost.shown).keys = [] :=
  ⟨rfl, by decide +kernel, rfl⟩

theorem orders_follow_ghost :
    Told connector ghost ghost.conn.open_orders.values ∧
      (Exact connector ghost ghost.conn.open_orders.values ↔ ghost.leftover = []) ∧
      init.shown ≤ ghost.shown ∧ ghost.shown ≤ ghost.log.length :=
  orders_follow .refl reaches_ghost (show fetch_open_orders true ghost.conn = _ from rfl)

end Meridian.KrakenOrders
