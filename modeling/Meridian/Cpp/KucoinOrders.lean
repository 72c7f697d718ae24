import Mathlib.Tactic.Linarith
import Meridian.Lib.Run
import Meridian.Cpp.Connector

/-!
# `KuCoinConnector`: open orders from two sources

Model of the order path of `exchange/cpp/src/kucoin_connector.cpp`. A (re)connect fills `open_orders_`
from the REST list of active orders (245-257) with `json_to_order` (513-537); from then on
`on_order_msg` (355-381) changes it by the `/spotMarket/tradeOrders` messages. The list gives totals,
a message what is new:
* a match is taken off `amount`, which the list leaves at the size of the order;
* a match's price replaces `filled_price`, which the list gives as the mean over all matches;
* an order that opens has nothing filled, also if it was matched on its way to the book.

A reconnect whose request for the list fails goes on with the orders held before. Beside the connector
stand the exchange's records, those of closed orders included. While the connection is down nothing is
delivered; what happens between the list and the subscription counts as happening before the list.

Results:
* `snapshot_differs`: after two matches of an order, amount and price differ from what `json_to_order`
  makes of its record;
* `held_as_listed_iff`: in every run, an order is held as `json_to_order` gives it exactly if no match of
  it is left outside of the list or the opening that stored it.

Out of scope: rounding of doubles.
-/

namespace Meridian.KucoinOrders

open Meridian.Run Meridian.Cpp

/-! ## The two decoders -/

/-- An order as KuCoin lists it: texts, and the numbers that `safe_stod` reads from decimal texts. A
missing field is `none`. -/
structure OrderItem where
  id : String
  symbol : Option String := none
  side : Option String := none
  price : Option ℚ := none
  size : Option ℚ := none
  isActive : Option Bool := none
  cancelExist : Option Bool := none
  createdAt : Option ℚ := none
  dealSize : Option ℚ := none
  dealFunds : Option ℚ := none
  fee : Option ℚ := none
  feeCurrency : Option String := none

/-- What `/spotMarket/tradeOrders` sends. -/
structure OrderMsg where
  orderId : Option String := none
  type : Option String := none
  symbol : Option String := none
  side : Option String := none
  price : Option ℚ := none
  size : Option ℚ := none
  ts : Option ℤ := none
  matchSize : Option ℚ := none
  matchPrice : Option ℚ := none

/-- `json_to_order` (`kucoin_connector.cpp:513-537`). -/
def json_to_order (symbol_ : String) (j : OrderItem) : Cpp.Order :=
  let price := j.price.getD 0
  let amount := j.size.getD 0
  let ts_raw := j.createdAt.getD 0
  let filled_amount := j.dealSize.getD 0
  let deal_funds := j.dealFunds.getD 0
  { id := j.id
    exchange := "kucoin"
    symbol := j.symbol.getD symbol_
    side := j.side.getD ""
    price := price
    amount := amount
    amount_usd := price * amount
    status :=
      if j.isActive.getD false then "open" else if j.cancelExist.getD false then "canceled" else "filled"
    timestamp := if ts_raw > 10 ^ 12 then ts_raw / 1000 else ts_raw
    filled_amount := filled_amount
    filled_price := if filled_amount > 0 then deal_funds / filled_amount else 0
    fee := j.fee.getD 0
    fee_currency := j.feeCurrency.getD "" }

/-- The order that an "open" message stores. -/
def opened (symbol_ oid : String) (data : OrderMsg) : Cpp.Order :=
  let price := data.price.getD 0
  let amount := data.size.getD 0
  { id := oid
    exchange := "kucoin"
    symbol := data.symbol.getD symbol_
    side := data.side.getD ""
    price := price
    amount := amount
    amount_usd := price * amount
    status := "open"
    timestamp := (data.ts.getD 0 : ℚ) / 10 ^ 9 }

/-- What a "match" message makes of an order. -/
def matched (data : OrderMsg) (o : Cpp.Order) : Cpp.Order :=
  { o with
    filled_amount := o.filled_amount + data.matchSize.getD 0
    filled_price := data.matchPrice.getD 0
    amount := o.amount - data.matchSize.getD 0 }

/-- `on_order_msg` (`kucoin_connector.cpp:355-381`). -/
def on_order_msg (symbol_ : String) (data : OrderMsg) (open_orders : OrderMap) : OrderMap :=
  let oid := data.orderId.getD ""
  let type := data.type.getD ""
  if oid = "" then open_orders
  else if type = "open" then open_orders.set (opened symbol_ oid data)
  else if type = "filled" ∨ type = "canceled" then open_orders.erase oid
  else if type = "match" then
    match open_orders.find? oid with
    | some o => open_orders.set (matched data o)
    | none => open_orders
  else open_orders

/-- The orders of a (re)connect (`kucoin_connector.cpp:245-257`). -/
def bootstrap (symbol_ : String) (items : List OrderItem) : OrderMap :=
  Keyed.ofList (items.map (json_to_order symbol_))

/-! ## The connector and the exchange -/

/-- The record after a match. -/
def OrderItem.fill (r : OrderItem) (size price : ℚ) : OrderItem :=
  { r with
    dealSize := some (r.dealSize.getD 0 + size)
    dealFunds := some (r.dealFunds.getD 0 + size * price) }

/-- The message that an order is on the book. -/
def OrderItem.openMsg (r : OrderItem) (ts : ℤ) : OrderMsg :=
  { orderId := some r.id, type := some "open", symbol := r.symbol, side := r.side, price := r.price
    size := r.size, ts := some ts }

/-- The message of a match. -/
def OrderItem.matchMsg (r : OrderItem) (size price : ℚ) : OrderMsg :=
  { orderId := some r.id, type := some "match", matchSize := some size, matchPrice := some price }

/-- How an order leaves the book. -/
inductive Close where
  | filled
  | canceled

/-- The record after the order has left the book. -/
def OrderItem.close (r : OrderItem) (how : Close) : OrderItem :=
  { r with
    isActive := some false
    cancelExist := some (match how with | .filled => false | .canceled => true) }

/-- The message that an order has left the book. -/
def OrderItem.closeMsg (r : OrderItem) : Close → OrderMsg
  | .filled => { orderId := some r.id, type := some "filled" }
  | .canceled => { orderId := some r.id, type := some "canceled" }

/-- The records of all orders, the ids of those that are not active any more, `open_orders_`, and whether
messages are delivered. History: the orders with a match that is not part of what stored them. -/
structure State where
  records : Keyed OrderItem.id
  closed : List String
  open_orders : OrderMap
  live : Bool
  outside : List String

/-- A connector just constructed, and an exchange without orders. -/
def init : State :=
  { records := .empty, closed := [], open_orders := .empty, live := false, outside := [] }

/-- The record of an active order. -/
def State.active (s : State) (id : String) : Option OrderItem :=
  if id ∈ s.closed then none else s.records.find? id

/-- The list of the active orders. -/
def State.listed (s : State) : List OrderItem :=
  s.records.toList.filter fun r => decide (r.id ∉ s.closed)

/-- The exchange takes an order, puts it on the book, matches it or closes it; the connection drops;
or the connector connects, with the list of the active orders or without it. -/
inductive Act where
  | place (item : OrderItem)
  | toBook (id : String) (ts : ℤ)
  | fill (id : String) (size price : ℚ)
  | close (id : String) (how : Close)
  | drop
  | bootstrap
  /-- "open orders fetch skipped": the request has failed, and the loop goes on -/
  | skipped

variable (symbol_ : String)

/-- `open_orders_` after a message, if it is delivered. -/
def State.deliver (s : State) (data : OrderMsg) : OrderMap :=
  if s.live then on_order_msg symbol_ data s.open_orders else s.open_orders

/-- One step, where the order is there. -/
def next (s : State) : Act → Option State
  | .place item =>
    if item.id ≠ "" ∧ item.id ∉ s.records.keys ∧ item.dealSize.getD 0 = 0 ∧
        item.dealFunds.getD 0 = 0 then
      some { s with records := s.records.set item }
    else none
  | .toBook id ts => (s.active id).map fun (r : OrderItem) =>
    { s with
      open_orders := s.deliver symbol_ (r.openMsg ts)
      outside :=
        if s.live then
          if r.dealSize.getD 0 = 0 then s.outside.filter (· ≠ id) else id :: s.outside
        else s.outside }
  | .fill id size price =>
    if 0 < size then
      (s.active id).map fun r =>
        { s with
          records := s.records.set (r.fill size price)
          open_orders := s.deliver symbol_ (r.matchMsg size price)
          outside := id :: s.outside }
    else none
  | .close id how => (s.active id).map fun r =>
    { s with
      records := s.records.set (r.close how)
      closed := id :: s.closed
      open_orders := s.deliver symbol_ (r.closeMsg how) }
  | .drop => some { s with live := false }
  | .bootstrap => some
    { s with open_orders := bootstrap symbol_ s.listed, live := true, outside := [] }
  | .skipped => some { s with live := true }

/-- Two orders agree in what is filled and what is not. -/
def Agrees (o o' : Cpp.Order) : Prop :=
  o.amount = o'.amount ∧ o.filled_amount = o'.filled_amount ∧ o.filled_price = o'.filled_price

instance (o o' : Cpp.Order) : Decidable (Agrees o o') := by
  unfold Agrees
  infer_instance

/-! ## What a message does -/

variable {symbol_} {s s' : State} {r : OrderItem} {o : Cpp.Order} {open_orders : OrderMap}

theorem opened_id (symbol_ oid : String) (data : OrderMsg) : (opened symbol_ oid data).id = oid := rfl

theorem deliver_live {data : OrderMsg} (hlive : s.live = true) :
    s.deliver symbol_ data = on_order_msg symbol_ data s.open_orders := if_pos hlive

theorem deliver_down {data : OrderMsg} (hdown : ¬s.live = true) :
    s.deliver symbol_ data = s.open_orders := if_neg hdown

theorem active_eq_some {id : String} (h : s.active id = some r) :
    s.records.find? id = some r ∧ r ∈ s.records ∧ r.id = id := by
  have hfind := (Option.ite_none_left_eq_some.mp h).2
  exact ⟨hfind, Keyed.find?_eq_some.mp hfind⟩

theorem mem_openMsg {ts : ℤ} (hid : r.id ≠ "") :
    o ∈ on_order_msg symbol_ (r.openMsg ts) open_orders ↔
      o = opened symbol_ r.id (r.openMsg ts) ∨ o ∈ open_orders ∧ o.id ≠ r.id := by
  simp only [on_order_msg, OrderItem.openMsg, Option.getD_some, if_neg hid, if_true, Keyed.mem_set]
  rfl

theorem mem_matchMsg {size price : ℚ} (hid : r.id ≠ "") :
    o ∈ on_order_msg symbol_ (r.matchMsg size price) open_orders ↔
      (∃ o₀ ∈ open_orders, o₀.id = r.id ∧ o = matched (r.matchMsg size price) o₀) ∨
        o ∈ open_orders ∧ o.id ≠ r.id := by
  have hmsg : on_order_msg symbol_ (r.matchMsg size price) open_orders =
      match open_orders.find? r.id with
      | some o => open_orders.set (matched (r.matchMsg size price) o)
      | none => open_orders := by
    simp [on_order_msg, OrderItem.matchMsg, hid]
  rw [hmsg]
  cases hfind : open_orders.find? r.id with
  | none =>
    have hne : ∀ o ∈ open_orders, o.id ≠ r.id := fun o ho hoid =>
      Keyed.find?_eq_none.mp hfind (Keyed.mem_keys.mpr ⟨o, ho, hoid⟩)
    constructor
    · exact fun ho => .inr ⟨ho, hne o ho⟩
    · rintro (⟨o₀, ho₀, hoid, -⟩ | ⟨ho, -⟩)
      · exact absurd hoid (hne o₀ ho₀)
      · exact ho
  | some o₁ =>
    obtain ⟨ho₁, hoid₁⟩ := Keyed.find?_eq_some.mp hfind
    rw [Keyed.mem_set, show (matched (r.matchMsg size price) o₁).id = r.id from hoid₁]
    refine or_congr_left ⟨fun h => ⟨o₁, ho₁, hoid₁, h⟩, ?_⟩
    rintro ⟨o₀, ho₀, hoid₀, h⟩
    rw [h, Keyed.eq_of_key ho₀ ho₁ (hoid₀.trans hoid₁.symm)]

theorem mem_closeMsg {how : Close} (hid : r.id ≠ "") :
    o ∈ on_order_msg symbol_ (r.closeMsg how) open_orders ↔ o ∈ open_orders ∧ o.id ≠ r.id := by
  cases how <;> simp [on_order_msg, OrderItem.closeMsg, hid, Keyed.mem_erase]

/-! ## The invariant -/

/-- Something of what is filled is missing, or something of the size is. -/
def Behind (o : Cpp.Order) (r : OrderItem) : Prop :=
  o.amount ≤ r.size.getD 0 ∧ o.filled_amount ≤ r.dealSize.getD 0 ∧
    (o.amount < r.size.getD 0 ∨ o.filled_amount < r.dealSize.getD 0)

theorem Behind.not_agrees (h : Behind o r) : ¬Agrees o (json_to_order symbol_ r) := by
  rintro ⟨hamount, hfilled, -⟩
  rcases h.2.2 with h | h
  · exact h.ne hamount
  · exact h.ne hfilled

/-- How an order is held: behind its record if a match of it came outside of what stored it, and
else in agreement with the record. -/
def Tracks (symbol_ : String) (outside : List String) (o : Cpp.Order) (r : OrderItem) : Prop :=
  if o.id ∈ outside then Behind o r else Agrees o (json_to_order symbol_ r)

theorem Tracks.le {outside : List String} (h : Tracks symbol_ outside o r) :
    o.amount ≤ r.size.getD 0 ∧ o.filled_amount ≤ r.dealSize.getD 0 := by
  unfold Tracks at h
  split at h
  · exact ⟨h.1, h.2.1⟩
  · exact ⟨h.1.le, h.2.1.le⟩

/-- A match takes its size off the amount held. -/
theorem tracks_matched {outside : List String} {size price : ℚ} (hsize : 0 < size) (hid : o.id = r.id)
    (h : Tracks symbol_ outside o r) :
    Tracks symbol_ (r.id :: outside) (matched (r.matchMsg size price) o) (r.fill size price) := by
  have hout : (matched (r.matchMsg size price) o).id ∈ r.id :: outside := List.mem_cons.mpr (.inl hid)
  rw [Tracks, if_pos hout]
  refine ⟨?_, ?_, .inl ?_⟩
  · exact (sub_le_self _ hsize.le).trans h.le.1
  · exact add_le_add_left h.le.2 size
  · exact (sub_lt_self _ hsize).trans_le h.le.1

/-- A match that is not delivered leaves the order behind its record. -/
theorem tracks_missed {outside : List String} {size price : ℚ} (hsize : 0 < size) (hid : o.id = r.id)
    (h : Tracks symbol_ outside o r) : Tracks symbol_ (r.id :: outside) o (r.fill size price) := by
  have hlt : o.filled_amount < r.dealSize.getD 0 + size := by linarith [h.le.2]
  rw [Tracks, if_pos (List.mem_cons.mpr (.inl hid))]
  exact ⟨h.le.1, hlt.le, .inr hlt⟩

theorem tracks_cons {outside : List String} {id : String} (hid : o.id ≠ id) :
    Tracks symbol_ (id :: outside) o r ↔ Tracks symbol_ outside o r := by
  simp only [Tracks, List.mem_cons, or_iff_right hid]

theorem tracks_filter {outside : List String} {id : String} (hid : o.id ≠ id) :
    Tracks symbol_ (outside.filter (· ≠ id)) o r ↔ Tracks symbol_ outside o r := by
  simp only [Tracks, List.mem_filter, decide_eq_true hid, and_true]

/-- An order that opens is held as it is listed if nothing of it has been dealt. -/
theorem tracks_opened {outside : List String} {ts : ℤ} (hdealt : 0 ≤ r.dealSize.getD 0) :
    Tracks symbol_ (if r.dealSize.getD 0 = 0 then outside.filter (· ≠ r.id) else r.id :: outside)
      (opened symbol_ r.id (r.openMsg ts)) r := by
  split
  · rename_i hzero
    have hout : r.id ∉ outside.filter (· ≠ r.id) := fun hmem =>
      of_decide_eq_true (List.mem_filter.mp hmem).2 rfl
    have hprice : (json_to_order symbol_ r).filled_price = 0 := if_neg hzero.le.not_gt
    rw [Tracks, opened_id, if_neg hout]
    exact ⟨rfl, hzero.symm, hprice.symm⟩
  · rename_i hpos
    rw [Tracks, opened_id, if_pos List.mem_cons_self]
    exact ⟨le_rfl, hdealt, .inr (lt_of_le_of_ne hdealt (Ne.symm hpos))⟩

/-- The invariant of every run: no record has dealt less than nothing, and each held order has a
record, which it agrees with or is behind. -/
structure Inv (symbol_ : String) (s : State) : Prop where
  named : ∀ r ∈ s.records, r.id ≠ ""
  dealt : ∀ r ∈ s.records, 0 ≤ r.dealSize.getD 0
  held : ∀ o ∈ s.open_orders, ∃ r, s.records.find? o.id = some r ∧ Tracks symbol_ s.outside o r

theorem inv_init : Inv symbol_ init where
  named _ hr := absurd hr Keyed.not_mem_empty
  dealt _ hr := absurd hr Keyed.not_mem_empty
  held _ ho := absurd ho Keyed.not_mem_empty

theorem inv_place {item : OrderItem} (h : Inv symbol_ s)
    (hs : next symbol_ s (.place item) = some s') : Inv symbol_ s' := by
  rw [next, Option.ite_none_right_eq_some] at hs
  obtain ⟨⟨hid, hnew, hdealt, -⟩, hs⟩ := hs
  obtain rfl := Option.some.inj hs
  refine ⟨fun r hr => ?_, fun r hr => ?_, fun o ho => ?_⟩
  · rcases Keyed.mem_set.mp hr with rfl | ⟨hr, -⟩
    · exact hid
    · exact h.named r hr
  · rcases Keyed.mem_set.mp hr with rfl | ⟨hr, -⟩
    · exact hdealt.ge
    · exact h.dealt r hr
  · obtain ⟨r, hr, htracks⟩ := h.held o ho
    obtain ⟨hmem, hrid⟩ := Keyed.find?_eq_some.mp hr
    have hne : o.id ≠ item.id := fun he => hnew (Keyed.mem_keys.mpr ⟨r, hmem, hrid.trans he⟩)
    exact ⟨r, by rw [Keyed.find?_set, if_neg hne, hr], htracks⟩

theorem inv_toBook {id : String} {ts : ℤ} (h : Inv symbol_ s)
    (hs : next symbol_ s (.toBook id ts) = some s') : Inv symbol_ s' := by
  obtain ⟨r, hr, rfl⟩ := Option.map_eq_some_iff.mp hs
  obtain ⟨hr, hmem, rfl⟩ := active_eq_some hr
  refine ⟨h.named, h.dealt, fun o ho => ?_⟩
  replace ho : o ∈ s.deliver symbol_ (r.openMsg ts) := ho
  by_cases hlive : s.live = true
  · rw [deliver_live hlive, mem_openMsg (h.named r hmem)] at ho
    simp only [hlive, if_true]
    rcases ho with rfl | ⟨ho, hne⟩
    · exact ⟨r, hr, tracks_opened (h.dealt r hmem)⟩
    · obtain ⟨r', hr', htracks⟩ := h.held o ho
      refine ⟨r', hr', ?_⟩
      split
      · exact (tracks_filter hne).mpr htracks
      · exact (tracks_cons hne).mpr htracks
  · rw [deliver_down hlive] at ho
    simp only [hlive]
    exact h.held o ho

theorem inv_fill {id : String} {size price : ℚ} (h : Inv symbol_ s)
    (hs : next symbol_ s (.fill id size price) = some s') : Inv symbol_ s' := by
  rw [next, Option.ite_none_right_eq_some] at hs
  obtain ⟨hsize, hs⟩ := hs
  obtain ⟨r, hr, rfl⟩ := Option.map_eq_some_iff.mp hs
  obtain ⟨hr, hmem, rfl⟩ := active_eq_some hr
  -- an order held under the id of the record is matched, or misses the match
  have hmatch : ∀ o₀ ∈ s.open_orders, o₀.id = r.id → Tracks symbol_ s.outside o₀ r := by
    intro o₀ ho₀ hoid
    obtain ⟨r', hr', htracks⟩ := h.held o₀ ho₀
    exact Option.some.inj (hr'.symm.trans (hoid ▸ hr)) ▸ htracks
  have hother : ∀ o ∈ s.open_orders, o.id ≠ r.id →
      ∃ r', (s.records.set (r.fill size price)).find? o.id = some r' ∧
        Tracks symbol_ (r.id :: s.outside) o r' := by
    intro o ho hne
    obtain ⟨r', hr', htracks⟩ := h.held o ho
    refine ⟨r', ?_, (tracks_cons hne).mpr htracks⟩
    rw [Keyed.find?_set]
    exact (if_neg hne).trans hr'
  refine ⟨fun r' hr' => ?_, fun r' hr' => ?_, fun o ho => ?_⟩
  · rcases Keyed.mem_set.mp hr' with rfl | ⟨hr', -⟩
    · exact h.named r hmem
    · exact h.named r' hr'
  · rcases Keyed.mem_set.mp hr' with rfl | ⟨hr', -⟩
    · exact add_nonneg (h.dealt r hmem) hsize.le
    · exact h.dealt r' hr'
  · replace ho : o ∈ s.deliver symbol_ (r.matchMsg size price) := ho
    by_cases hlive : s.live = true
    · rw [deliver_live hlive, mem_matchMsg (h.named r hmem)] at ho
      rcases ho with ⟨o₀, ho₀, hoid, rfl⟩ | ⟨ho, hne⟩
      · refine ⟨r.fill size price, ?_, tracks_matched hsize hoid (hmatch o₀ ho₀ hoid)⟩
        rw [Keyed.find?_set]
        exact if_pos hoid
      · exact hother o ho hne
    · rw [deliver_down hlive] at ho
      by_cases hoid : o.id = r.id
      · refine ⟨r.fill size price, ?_, tracks_missed hsize hoid (hmatch o ho hoid)⟩
        rw [Keyed.find?_set]
        exact if_pos hoid
      · exact hother o ho hoid

theorem inv_close {id : String} {how : Close} (h : Inv symbol_ s)
    (hs : next symbol_ s (.close id how) = some s') : Inv symbol_ s' := by
  obtain ⟨r, hr, rfl⟩ := Option.map_eq_some_iff.mp hs
  obtain ⟨hr, hmem, rfl⟩ := active_eq_some hr
  refine ⟨fun r' hr' => ?_, fun r' hr' => ?_, fun o ho => ?_⟩
  · rcases Keyed.mem_set.mp hr' with rfl | ⟨hr', -⟩
    · exact h.named r hmem
    · exact h.named r' hr'
  · rcases Keyed.mem_set.mp hr' with rfl | ⟨hr', -⟩
    · exact h.dealt r hmem
    · exact h.dealt r' hr'
  · replace ho : o ∈ s.deliver symbol_ (r.closeMsg how) := ho
    have hheld : o ∈ s.open_orders := by
      by_cases hlive : s.live = true
      · rw [deliver_live hlive, mem_closeMsg (h.named r hmem)] at ho
        exact ho.1
      · rwa [deliver_down hlive] at ho
    obtain ⟨r', hr', htracks⟩ := h.held o hheld
    simp only [Keyed.find?_set]
    by_cases hoid : o.id = r.id
    · obtain rfl : r' = r := Option.some.inj (hr'.symm.trans (hoid ▸ hr))
      -- what a record says of sizes and funds stays when the order is closed
      exact ⟨r'.close how, if_pos hoid, htracks⟩
    · exact ⟨r', (if_neg hoid).trans hr', htracks⟩

/-- What is listed is held as it is listed. -/
theorem inv_bootstrap (h : Inv symbol_ s) (hs : next symbol_ s .bootstrap = some s') :
    Inv symbol_ s' := by
  obtain rfl := Option.some.inj hs
  refine ⟨h.named, h.dealt, fun o ho => ?_⟩
  have hids : ((s.listed.map (json_to_order symbol_)).map Cpp.Order.id).Nodup := by
    rw [List.map_map]
    exact s.records.nodup.sublist (List.filter_sublist.map _)
  rw [Keyed.mem_def, bootstrap, Keyed.toList_ofList hids] at ho
  obtain ⟨r, hr, rfl⟩ := List.mem_map.mp ho
  refine ⟨r, Keyed.find?_eq_some.mpr ⟨(List.mem_filter.mp hr).1, rfl⟩, ?_⟩
  rw [Tracks, if_neg List.not_mem_nil]
  exact ⟨rfl, rfl, rfl⟩

/-- **Step**: a match moves its order behind its record, a list or an opening stores what agrees
with it, and all else leaves the orders as they are. -/
theorem inv_next {a : Act} (h : Inv symbol_ s) (hs : next symbol_ s a = some s') :
    Inv symbol_ s' := by
  cases a with
  | place item => exact inv_place h hs
  | toBook id ts => exact inv_toBook h hs
  | fill id size price => exact inv_fill h hs
  | close id how => exact inv_close h hs
  | bootstrap => exact inv_bootstrap h hs
  | drop | skipped =>
    obtain rfl := Option.some.inj hs
    exact ⟨h.named, h.dealt, h.held⟩

/-- **Messages and list agree** on a held order exactly if no match of it is outside of what stored it,
whether messages are delivered or not and whether the last list was skipped or not. -/
theorem held_as_listed_iff (symbol_ : String) {s : State}
    (h : Reaches (Fires (next symbol_)) (fun _ _ => True) init s) {o : Cpp.Order}
    (ho : o ∈ s.open_orders) :
    ∃ r, s.records.find? o.id = some r ∧
      (Agrees o (json_to_order symbol_ r) ↔ o.id ∉ s.outside) := by
  have hinv : Inv symbol_ s := h.inv inv_init fun _ _ _ hi _ hs => inv_next hi hs
  obtain ⟨r, hr, htracks⟩ := hinv.held o ho
  refine ⟨r, hr, ?_⟩
  unfold Tracks at htracks
  split at htracks
  · rename_i hout
    exact iff_of_false htracks.not_agrees (not_not_intro hout)
  · rename_i hout
    exact iff_of_true htracks hout

/-- An order of 10 at 1. -/
def ten : OrderItem :=
  { id := "1", side := some "sell", price := some 1, size := some 10, isActive := some true }

/-- The order is matched while the connection is down, and then listed; it is closed while the
connection is down again, and the next list is skipped. -/
def listedRun : List Act :=
  [.place ten, .toBook "1" 0, .fill "1" 4 1, .bootstrap, .drop, .close "1" .canceled, .skipped]

theorem agrees_listed : ∃ s : State, s.live = true ∧ ∃ o ∈ s.open_orders, o.filled_amount = 4 ∧
    ∃ r, s.records.find? o.id = some r ∧
      (Agrees o (json_to_order "ALKIMI-USDT" r) ↔ o.id ∉ s.outside) := by
  have h : (play (next "ALKIMI-USDT") (fun _ _ => True) init listedRun).any (fun s => decide
      (s.live = true ∧ (s.open_orders.find? "1").any fun o => decide (o.filled_amount = 4))) = true := by
    decide +kernel
  obtain ⟨s, hs, hp⟩ := (Option.any_eq_true _ _).mp h
  obtain ⟨hlive, hfind⟩ := of_decide_eq_true hp
  obtain ⟨o, ho, hfilled⟩ := (Option.any_eq_true _ _).mp hfind
  have hmem := (Keyed.find?_eq_some.mp ho).1
  exact ⟨s, hlive, o, hmem, of_decide_eq_true hfilled,
    held_as_listed_iff _ (reaches_of_play hs) hmem⟩

/-- The connector is connected when the order comes, and sees two matches of it. -/
def matchedRun : List Act :=
  [.bootstrap, .place ten, .toBook "1" 0, .fill "1" 2 1, .fill "1" 2 (11 / 10)]

/-- What is held is the remaining amount and the last price; the list has the size and the mean. -/
theorem snapshot_differs : ∃ s : State,
    Reaches (Fires (next "ALKIMI-USDT")) (fun _ _ => True) init s ∧ s.live = true ∧
    ∃ o ∈ s.open_orders, ∃ r ∈ s.records, r.id = o.id ∧
      o.amount = 6 ∧ (json_to_order "ALKIMI-USDT" r).amount = 10 ∧
      o.filled_price = 11 / 10 ∧ (json_to_order "ALKIMI-USDT" r).filled_price = 21 / 20 ∧
      ¬Agrees o (json_to_order "ALKIMI-USDT" r) := by
  have h : (play (next "ALKIMI-USDT") (fun _ _ => True) init matchedRun).any (fun s => decide
      (s.live = true ∧ (s.open_orders.find? "1").any fun o => (s.records.find? "1").any fun r => decide
        (o.amount = 6 ∧ (json_to_order "ALKIMI-USDT" r).amount = 10 ∧ o.filled_price = 11 / 10 ∧
          (json_to_order "ALKIMI-USDT" r).filled_price = 21 / 20))) = true := by
    decide +kernel
  obtain ⟨s, hs, hp⟩ := (Option.any_eq_true _ _).mp h
  obtain ⟨hlive, hfind⟩ := of_decide_eq_true hp
  obtain ⟨o, ho, hfind⟩ := (Option.any_eq_true _ _).mp hfind
  obtain ⟨r, hr, hp⟩ := (Option.any_eq_true _ _).mp hfind
  obtain ⟨hamount, hlisted, hprice, hmean⟩ := of_decide_eq_true hp
  obtain ⟨ho, hoid⟩ := Keyed.find?_eq_some.mp ho
  obtain ⟨hr, hrid⟩ := Keyed.find?_eq_some.mp hr
  refine ⟨s, reaches_of_play hs, hlive, o, ho, r, hr, hrid.trans hoid.symm, hamount, hlisted, hprice,
    hmean, fun hagrees => ?_⟩
  have hne : (6 : ℚ) = 10 := hamount.symm.trans (hagrees.1.trans hlisted)
  exact absurd hne (by decide)

end Meridian.KucoinOrders
