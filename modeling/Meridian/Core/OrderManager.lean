import Meridian.Core.System

/-!
# `OrderManager`: diff-and-repost

Model of `core/order_manager.py`, method by method, as coroutines over the shared state of one
exchange. The pure scans (`find_stale_orders`, `find_missing_levels`, `has_order_near`) are functions
of the order manager's fields.
-/

namespace Meridian

open Coop

variable {E : Type}

namespace OrderManager

/-- `PRICE_TOLERANCE_PCT`. -/
def PRICE_TOLERANCE_PCT : ℚ := 3 / 100

/-- A price within the tolerance of a desired one. -/
def near (price desired : ℚ) : Bool :=
  decide (|price - desired| / max desired (1 / 10 ^ 8) * 100 ≤ PRICE_TOLERANCE_PCT)

/-- `_has_order_near` (`order_manager.py:173-178`), over the keys of `open_prices`. -/
def has_order_near (target_price : ℚ) (open_prices : List ℚ) : Bool :=
  open_prices.any fun price => near price target_price

/-- `_find_stale_orders` (`order_manager.py:139-155`): the orders with no price of either side
near. -/
def find_stale_orders (om : OrderManager) (grid : OrderGrid) : List Order :=
  let all_desired_prices := grid.buy_prices ++ grid.sell_prices
  om.open_orders.toList.filter fun order =>
    !all_desired_prices.any fun desired => near order.price desired

/-- A level of a grid: the side, the price and the token amount. -/
abbrev Level := Side × ℚ × ℚ

/-- The levels of a grid, each side's prices zipped with its amounts. -/
def levels (grid : OrderGrid) : List Level :=
  (grid.buy_prices.zip grid.buy_amounts).map (Prod.mk .buy) ++
    (grid.sell_prices.zip grid.sell_amounts).map (Prod.mk .sell)

/-- `_find_missing_levels` (`order_manager.py:157-171`): the levels with no order of either side
near. -/
def find_missing_levels (om : OrderManager) (grid : OrderGrid) : List Level :=
  let open_prices := om.open_orders.toList.map Order.price
  (levels grid).filter fun level => !has_order_near level.2.1 open_prices

/-- `self._open_orders[order.id] = order; self._order_created_at[order.id] = now`. -/
def track (order : Order) (now : ℚ) (om : OrderManager) : OrderManager :=
  { om with
    open_orders := om.open_orders.set order
    order_created_at := om.order_created_at.set (order.id, now) }

/-- `self._open_orders.pop(id, None); self._order_created_at.pop(id, None)`. -/
def untrack (id : String) (om : OrderManager) : OrderManager :=
  { om with
    open_orders := om.open_orders.erase id
    order_created_at := om.order_created_at.erase id }

/-- `self._open_orders.clear(); self._order_created_at.clear()`. -/
def clear (om : OrderManager) : OrderManager :=
  { om with open_orders := .empty, order_created_at := .empty }

/-- The orders `_cancel_stale_by_age` picks at time `now` (`order_manager.py:212-217`). -/
def stale_ids (om : OrderManager) (now : ℚ) : List String :=
  (om.order_created_at.toList.filter fun p =>
    decide (now - p.2 > om.max_order_age_seconds ∧ p.1 ∈ om.open_orders.keys)).map Prod.fst

/-- `del self._open_orders[oid]`. -/
def del_open_order (oid : String) : Co E Unit := do
  let s ← Prog.read
  if oid ∈ s.om.open_orders.keys then
    Prog.modify (Sys.mapOm fun om => { om with open_orders := om.open_orders.erase oid })
  else Prog.throw (.key oid)

/-- The body of the `try` of `_sync_open_orders` (`order_manager.py:190-203`). -/
def sync_body : Co E Unit := do
  let live_orders ← ask .fetch_open_orders
  let live_map : Orders := .ofList live_orders
  let s ← Prog.read
  let gone := s.om.open_orders.keys.filter fun oid => decide (oid ∉ live_map.keys)
  Prog.forEach gone fun oid => do
    del_open_order oid
    ask (.update_order_status oid "filled")
  -- `if oid not in self._open_orders: self._open_orders[oid] = order`
  Prog.forEach live_map.toList fun order => Prog.modify (Sys.mapOm fun om =>
    { om with open_orders := om.open_orders.add order })

/-- `_sync_open_orders` (`order_manager.py:184-205`). -/
def sync_open_orders : Co E Unit := do
  ask .acquire
  let s ← Prog.read
  if s.om.dry_run then pure ()
  else sync_body.tryCatch fun _ => pure ()

/-- `_cancel_one` (`order_manager.py:230-236`). -/
def cancel_one (order : Order) : Co E Unit := do
  ask .acquire
  let s ← Prog.read
  if s.om.dry_run then pure () else ask (.cancel_order order.id)
  Prog.modify (Sys.mapOm (untrack order.id))
  ask (.update_order_status order.id "canceled")

/-- One round of `_cancel_stale_by_age`'s loop. -/
def cancel_aged (oid : String) : Co E Unit := do
  let s ← Prog.read
  match s.om.open_orders.find? oid with
  | some order => cancel_one order
  | none => pure ()

/-- `_cancel_stale_by_age` (`order_manager.py:207-228`). -/
def cancel_stale_by_age : Co E Unit := do
  let s ← Prog.read
  if s.om.max_order_age_seconds ≤ 0 then pure ()
  else Prog.forEach (s.om.stale_ids s.clock) cancel_aged

/-- The simulated order of dry-run mode (`order_manager.py:245-255`). -/
def fake_order (om : OrderManager) (id : String) (now : ℚ) (side : Side) (price token_amount : ℚ) :
    Order :=
  { id := id
    exchange := om.exchange
    symbol := om.symbol
    side := side
    price := price
    amount := token_amount
    amount_usd := price * token_amount
    status := "open"
    timestamp := now }

/-- The state once a placed order is tracked. -/
def tracking (order : Order) (s : Sys E) : Sys E := (s.mapOm (track order s.clock)).order order

@[simp] theorem tracking_om (order : Order) (s : Sys E) :
    (tracking order s).om = track order s.clock s.om := rfl

/-- `_place_one` in dry-run mode (`order_manager.py:243-259`). -/
def place_dry (side : Side) (price token_amount : ℚ) : Co E (Option Order) := do
  let s ← Prog.read
  let order := s.om.fake_order ("DRY-" ++ s.drawId.1) s.clock side price token_amount
  Prog.modify fun s => tracking order s.drawId.2
  ask (.insert_order order)
  pure (some order)

/-- `_place_one` in live mode (`order_manager.py:261-275`). -/
def place_live (side : Side) (price token_amount : ℚ) : Co E (Option Order) :=
  Prog.tryCatch
    (do
      let order ← ask (.create_limit_order side price token_amount)
      Prog.modify (tracking order)
      ask (.insert_order order)
      pure (some order))
    fun _ => pure none

/-- `_place_one` (`order_manager.py:238-275`). -/
def place_one (level : Level) : Co E (Option Order) :=
  if level.2.2 ≤ 0 ∨ level.2.1 ≤ 0 then pure none
  else do
    ask .acquire
    let s ← Prog.read
    if s.om.dry_run then place_dry level.1 level.2.1 level.2.2
    else place_live level.1 level.2.1 level.2.2

/-- `diff_and_repost` (`order_manager.py:78-121`): the orders newly placed. -/
def diff_and_repost (grid : OrderGrid) : Co E (List Order) := do
  sync_open_orders
  cancel_stale_by_age
  let s ← Prog.read
  Prog.forEach (s.om.find_stale_orders grid) cancel_one
  let placed ← Prog.collect (s.om.find_missing_levels grid) place_one
  Prog.modify (Sys.mapOm fun om => { om with last_grid := some grid })
  pure placed

/-- The exchange's part of `cancel_all`. -/
def cancel_on_exchange : Co E Unit := do
  let s ← Prog.read
  if s.om.dry_run then pure ()
  else do
    ask .acquire
    ask .cancel_all_orders

/-- `cancel_all` (`order_manager.py:123-133`). -/
def cancel_all : Co E Unit := do
  cancel_on_exchange
  let s ← Prog.read
  Prog.forEach s.om.open_orders.keys fun order_id =>
    ask (.update_order_status order_id "canceled")
  Prog.modify (Sys.mapOm clear)

/-- The call creates an order. -/
def creates : Req → Bool
  | .create_limit_order .. => true
  | _ => false

/-- The calls of `diff_and_repost`. -/
def placing : Req → Bool
  | .acquire | .fetch_open_orders | .create_limit_order .. | .cancel_order _ | .insert_order _
  | .update_order_status .. => true
  | _ => false

end OrderManager

end Meridian
