import Meridian.Lib.Run
import Meridian.Cpp.Connector
import Meridian.Cpp.SpscQueue

/-!
# `GateConnector`: the lock-free view of the open orders

Model of the order path of `exchange/cpp/src/gate_connector.cpp`: `io_thread` turns the REST
snapshot of a (re)connect and the `spot.orders` messages into `OrderEvent`s and pushes them one at
a time; `fetch_open_orders` pops them one at a time into `consumer_orders_`, a map that outlives
every reconnect. Pushes and pops interleave freely.

* `io_thread_main` (`gate_connector.cpp:364-384`): `bootstrapEvents`.
* `on_order_msg` (`gate_connector.cpp:663-694`): `orderEvents`.
* `fetch_open_orders` (`gate_connector.cpp:755-778`): the steps `fetch` and `pop`.

Beside them stands the exchange's book of record (`State.book`): the last snapshot, changed by the
events delivered after it.

Results:
* `fetch_reports_ghost`: an order closed while disconnected is still reported after the snapshot
  that no longer lists it;
* `fetch_exact`: in every run in which no push finds the queue full and no snapshot omits an order
  that the book still lists, a fetch that ends with everything pushed returns the book.
-/

namespace Meridian.GateOrders

open Meridian.Run Meridian.Cpp

/-- An order as Gate sends it, over REST or `spot.orders`: texts, and the numbers that
`safe_stod` reads from decimal texts. A missing field is `none`. -/
structure OrderItem where
  id : Option String := none
  side : Option String := none
  price : Option ℚ := none
  amount : Option ℚ := none
  status : Option String := none
  create_time : Option ℚ := none
  left : Option ℚ := none
  filled_total : Option ℚ := none
  fee : Option ℚ := none
  fee_currency : Option String := none

/-- `OrderEventType`. -/
inductive OrderEventType where
  | OPEN
  | CANCEL
  | FILL
  deriving DecidableEq

/-- `OrderEvent`: for `CANCEL` and `FILL` only the id of the order is used. -/
structure OrderEvent where
  type : OrderEventType := .OPEN
  order : Cpp.Order := {}
  deriving DecidableEq

/-- The status text of `json_to_order`. -/
def orderStatus (raw_status : String) : String :=
  if raw_status = "open" then "open"
  else if raw_status = "closed" then "filled"
  else if raw_status = "cancelled" then "canceled"
  else raw_status

/-- `json_to_order` (`gate_connector.cpp:872-902`). -/
def json_to_order (gate_symbol : String) (j : OrderItem) : Cpp.Order :=
  let price := j.price.getD 0
  let amount := j.amount.getD 0
  let filled_amount := amount - j.left.getD 0
  { id := j.id.getD ""
    exchange := "gate"
    symbol := gate_symbol
    side := j.side.getD ""
    price := price
    amount := amount
    amount_usd := price * amount
    status := orderStatus (j.status.getD "open")
    timestamp := j.create_time.getD 0
    filled_amount := filled_amount
    filled_price := if filled_amount > 0 then j.filled_total.getD 0 / filled_amount else 0
    fee := j.fee.getD 0
    fee_currency := j.fee_currency.getD "" }

/-- The event of one item of a `spot.orders` message; an item without an id is skipped. -/
def orderEvent (gate_symbol : String) (item : OrderItem) : Option OrderEvent :=
  let oid := item.id.getD ""
  let status := item.status.getD ""
  if oid = "" then none
  else if status = "open" then some { type := .OPEN, order := json_to_order gate_symbol item }
  else if status = "closed" then some { type := .FILL, order := { id := oid } }
  -- "cancelled" or any unrecognised terminal status
  else some { type := .CANCEL, order := { id := oid } }

/-- The events that `on_order_msg` pushes (`gate_connector.cpp:663-694`). -/
def orderEvents (gate_symbol : String) (result : List OrderItem) : List OrderEvent :=
  result.filterMap (orderEvent gate_symbol)

/-- The events that a bootstrap pushes: one `OPEN` for each order of the snapshot, and nothing for
an order that the snapshot no longer lists (`gate_connector.cpp:364-384`). -/
def bootstrapEvents (gate_symbol : String) (orders_arr : List OrderItem) : List OrderEvent :=
  orders_arr.map fun item => { type := .OPEN, order := json_to_order gate_symbol item }

/-- What `fetch_open_orders` does with one popped event. -/
def apply (consumer_orders : OrderMap) (ev : OrderEvent) : OrderMap :=
  match ev.type with
  | .OPEN => consumer_orders.set ev.order
  | .FILL | .CANCEL => consumer_orders.erase ev.order.id

/-! ## The book of record -/

/-- A delivered event, on the exchange's side: an open order is listed with its current data, any
other status takes it off the book. -/
def deliver (gate_symbol : String) (book : OrderMap) (item : OrderItem) : OrderMap :=
  if item.id.getD "" = "" then book
  else if item.status = some "open" then book.set (json_to_order gate_symbol item)
  else book.erase (item.id.getD "")

/-- The open orders of a snapshot. -/
def snapshot (gate_symbol : String) (orders_arr : List OrderItem) : OrderMap :=
  Keyed.ofList (orders_arr.map (json_to_order gate_symbol))

/-! ## The system -/

theorem ringSize : RingSize 512 := ⟨by decide, by decide⟩

/-- The connector: the queue, the consumer's map, whether `fetch_open_orders` is draining and what
it returned last, and the events `io_thread` still has to push. `book` is history. -/
structure State where
  order_queue : SpscQueue OrderEvent 512
  consumer_orders : OrderMap
  connected : Bool
  draining : Bool
  returned : Option (List Cpp.Order)
  pushing : List OrderEvent
  book : OrderMap

/-- A connector just constructed. -/
def init : State :=
  { order_queue := .empty ringSize {}, consumer_orders := .empty, connected := false
    draining := false, returned := none, pushing := [], book := .empty }

/-- The steps: `connect`/`disconnect`, the two sources of events, one push, the start of a fetch
and one pop of it. -/
inductive Act where
  | connected (up : Bool)
  | bootstrap (orders_arr : List OrderItem)
  | order_msg (result : List OrderItem)
  | push
  | fetch
  | pop

/-- One step, where the thread it belongs to is at that place. -/
def next (gate_symbol : String) (s : State) : Act → Option State
  | .connected up => some { s with connected := up }
  | .bootstrap orders_arr =>
    match s.pushing with
    | [] => some { s with
        pushing := bootstrapEvents gate_symbol orders_arr, book := snapshot gate_symbol orders_arr }
    | _ :: _ => none
  | .order_msg result =>
    match s.pushing with
    | [] => some { s with
        pushing := orderEvents gate_symbol result
        book := result.foldl (deliver gate_symbol) s.book }
    | _ :: _ => none
  | .push =>
    match s.pushing with
    | [] => none
    -- a full queue drops the event with a line on stderr
    | ev :: rest => some { s with order_queue := (s.order_queue.push ev).1, pushing := rest }
  | .fetch =>
    if s.connected && !s.draining then some { s with draining := true, returned := none } else none
  | .pop =>
    if s.draining then
      match s.order_queue.pop with
      | some (ev, q) => some { s with order_queue := q, consumer_orders := apply s.consumer_orders ev }
      | none => some { s with draining := false, returned := some s.consumer_orders.values }
    else none

/-- A push finds a free slot, and a snapshot lists every order that is open according to the
snapshot before it and the events since. -/
def NoGhost (gate_symbol : String) (s : State) : Act → Prop
  | .push => s.order_queue.full = false
  | .bootstrap orders_arr =>
    ∀ o ∈ s.book.toList, o.id ∈ (orders_arr.map (json_to_order gate_symbol)).map Cpp.Order.id
  | _ => True

instance (gate_symbol : String) (s : State) (a : Act) : Decidable (NoGhost gate_symbol s a) := by
  unfold NoGhost; split <;> infer_instance

/-! ## The events mean what the exchange means -/

variable {gate_symbol : String}

theorem apply_agree {m m' : OrderMap} (h : Keyed.Agree m m') (ev : OrderEvent) :
    Keyed.Agree (apply m ev) (apply m' ev) := by
  unfold apply
  split
  · exact h.set _
  · exact h.erase _
  · exact h.erase _

theorem foldl_apply_agree : ∀ (evs : List OrderEvent) {m m' : OrderMap}, Keyed.Agree m m' →
    Keyed.Agree (evs.foldl apply m) (evs.foldl apply m')
  | [], _, _, h => h
  | ev :: evs, _, _, h => foldl_apply_agree evs (apply_agree h ev)

/-- The consumer makes of an item's event what the exchange makes of the item. -/
theorem foldl_apply_orderEvents : ∀ (result : List OrderItem) (m : OrderMap),
    (orderEvents gate_symbol result).foldl apply m = result.foldl (deliver gate_symbol) m
  | [], _ => rfl
  | item :: result, m => by
    rw [List.foldl_cons, ← foldl_apply_orderEvents result]
    unfold orderEvents
    rw [List.filterMap_cons]
    by_cases hid : item.id.getD "" = ""
    · simp only [orderEvent, deliver, if_pos hid]
    · cases hst : item.status with
      | none => simp [orderEvent, deliver, hid, hst, apply]
      | some status =>
        by_cases ho : status = "open"
        · simp [orderEvent, deliver, hid, hst, ho, apply]
        · by_cases hc : status = "closed"
          · simp [orderEvent, deliver, hid, hst, hc, apply]
          · simp [orderEvent, deliver, hid, hst, ho, hc, apply]

theorem foldl_apply_bootstrapEvents : ∀ (orders_arr : List OrderItem) (m : OrderMap),
    (bootstrapEvents gate_symbol orders_arr).foldl apply m =
      (orders_arr.map (json_to_order gate_symbol)).foldl Keyed.set m
  | [], _ => rfl
  | _ :: orders_arr, _ => foldl_apply_bootstrapEvents orders_arr _

/-! ## The invariant -/

/-- The events on their way to the consumer, oldest first. -/
def State.inFlight (s : State) : List OrderEvent := s.order_queue.contents ++ s.pushing

/-- Once the consumer has applied everything on its way, its map is the book. -/
def Inv (s : State) : Prop := Keyed.Agree (s.inFlight.foldl apply s.consumer_orders) s.book

theorem inv_init : Inv init := by
  have h : init.inFlight = [] := by
    simp only [State.inFlight, init, SpscQueue.contents_empty, List.append_nil]
  unfold Inv
  rw [h]
  exact Keyed.Agree.refl _

theorem inv_bootstrap {s s' : State} {orders_arr : List OrderItem} (h : Inv s)
    (hc : NoGhost gate_symbol s (.bootstrap orders_arr))
    (hs : next gate_symbol s (.bootstrap orders_arr) = some s') : Inv s' := by
  simp only [next] at hs
  split at hs
  · rename_i hp
    obtain rfl := Option.some.inj hs
    simp only [Inv, State.inFlight, hp, List.append_nil, List.foldl_append,
      foldl_apply_bootstrapEvents] at h ⊢
    exact Keyed.agree_ofList fun x hx => hc x (h.mem.mp hx)
  · exact absurd hs (by simp)

theorem inv_order_msg {s s' : State} {result : List OrderItem} (h : Inv s)
    (hs : next gate_symbol s (.order_msg result) = some s') : Inv s' := by
  simp only [next] at hs
  split at hs
  · rename_i hp
    obtain rfl := Option.some.inj hs
    simp only [Inv, State.inFlight, hp, List.append_nil, List.foldl_append] at h ⊢
    rw [← foldl_apply_orderEvents]
    exact foldl_apply_agree _ h
  · exact absurd hs (by simp)

theorem inv_push {s s' : State} (h : Inv s) (hc : NoGhost gate_symbol s .push)
    (hs : next gate_symbol s .push = some s') : Inv s' := by
  simp only [next] at hs
  split at hs
  · exact absurd hs (by simp)
  · rename_i ev rest hp
    obtain rfl := Option.some.inj hs
    have hin : s.inFlight = (s.order_queue.push ev).1.contents ++ rest := by
      rw [SpscQueue.contents_push ringSize hc, State.inFlight, hp, List.append_assoc]
      rfl
    unfold Inv at h ⊢
    rwa [hin] at h

theorem inv_pop {s s' : State} (h : Inv s) (hs : next gate_symbol s .pop = some s') : Inv s' := by
  simp only [next] at hs
  split at hs
  · split at hs
    · rename_i ev q hq
      obtain rfl := Option.some.inj hs
      have hin : s.inFlight = ev :: (q.contents ++ s.pushing) := by
        rw [State.inFlight, SpscQueue.contents_pop ringSize hq, List.cons_append]
      unfold Inv at h ⊢
      rwa [hin, List.foldl_cons] at h
    · obtain rfl := Option.some.inj hs
      exact h
  · exact absurd hs (by simp)

theorem inv_next {s s' : State} {a : Act} (h : Inv s) (hc : NoGhost gate_symbol s a)
    (hs : next gate_symbol s a = some s') : Inv s' := by
  cases a with
  | connected up =>
    obtain rfl := Option.some.inj hs
    exact h
  | bootstrap orders_arr => exact inv_bootstrap h hc hs
  | order_msg result => exact inv_order_msg h hs
  | push => exact inv_push h hc hs
  | fetch =>
    simp only [next] at hs
    split at hs
    · obtain rfl := Option.some.inj hs
      exact h
    · exact absurd hs (by simp)
  | pop => exact inv_pop h hs

/-- A fetch returns when it finds the queue empty, with the values of the consumer's map. -/
theorem pop_returns {s s' : State} {orders : List Cpp.Order} (h : s.draining = true → s.returned = none)
    (hs : next gate_symbol s .pop = some s') (hr : s'.returned = some orders) :
    s.order_queue.contents = [] ∧ orders = s.consumer_orders.values := by
  simp only [next] at hs
  split at hs
  · rename_i hd
    split at hs
    · obtain rfl := Option.some.inj hs
      simp [h hd] at hr
    · rename_i hq
      obtain rfl := Option.some.inj hs
      exact ⟨SpscQueue.pop_eq_none.mp hq, (Option.some.inj hr).symm⟩
  · exact absurd hs (by simp)

/-- While a fetch drains it has returned nothing. -/
theorem draining_returned {s s' : State} {a : Act} (h : s.draining = true → s.returned = none)
    (hs : next gate_symbol s a = some s') : s'.draining = true → s'.returned = none := by
  cases a with
  | connected up =>
    obtain rfl := Option.some.inj hs
    exact h
  | fetch =>
    simp only [next] at hs
    split at hs
    · obtain rfl := Option.some.inj hs
      exact fun _ => rfl
    · exact absurd hs (by simp)
  | pop =>
    simp only [next] at hs
    split at hs
    · split at hs
      · obtain rfl := Option.some.inj hs
        exact h
      · obtain rfl := Option.some.inj hs
        exact fun hd => absurd hd (by simp)
    · exact absurd hs (by simp)
  | bootstrap orders_arr | order_msg result =>
    simp only [next] at hs
    split at hs
    · obtain rfl := Option.some.inj hs
      exact h
    · exact absurd hs (by simp)
  | push =>
    simp only [next] at hs
    split at hs
    · exact absurd hs (by simp)
    · obtain rfl := Option.some.inj hs
      exact h

/-- **A fetch returns the book of record**: in every run in which no push finds the queue full and
no snapshot omits an order the book still lists, a fetch that ends with every delivered event
pushed returns exactly the orders open on the exchange. -/
theorem fetch_exact {s s' : State} {orders : List Cpp.Order}
    (h : Reaches (Fires (next gate_symbol)) (NoGhost gate_symbol) init s) (hp : s.pushing = [])
    (hs : next gate_symbol s .pop = some s') (hr : s'.returned = some orders) :
    orders.Perm s.book.toList := by
  have hinv : Inv s := h.inv inv_init fun _ _ _ hi hc hs => inv_next hi hc hs
  have hret : s.draining = true → s.returned = none :=
    h.inv (fun _ => rfl) fun _ _ _ hi _ hs => draining_returned hi hs
  obtain ⟨hq, rfl⟩ := pop_returns hret hs hr
  simp only [Inv, State.inFlight, hq, hp, List.append_nil, List.foldl_nil] at hinv
  exact s.consumer_orders.values_perm.trans hinv.perm

/-- Order "1" as the snapshot lists it. -/
def openItem : OrderItem :=
  { id := some "1", side := some "buy", price := some 10, amount := some 2, status := some "open"
    left := some 2 }

/-- A bootstrap that lists order "1", its push, and a fetch that pops it. -/
def bootstrapRun : List Act := [.connected true, .bootstrap [openItem], .push, .fetch, .pop]

theorem fetch_exact_bootstrap : ∃ s : State, ∃ orders : List Cpp.Order, orders ≠ [] ∧
    orders.Perm s.book.toList := by
  have h : (play (next "A_B") (NoGhost "A_B") init bootstrapRun).any (fun s => decide
      (s.pushing = [] ∧ (next "A_B" s .pop).any fun s' => s'.returned.any (! ·.isEmpty))) = true := by
    decide
  obtain ⟨s, hs, hp⟩ := (Option.any_eq_true _ _).mp h
  obtain ⟨hpush, hpop⟩ := of_decide_eq_true hp
  obtain ⟨s', hs', hret⟩ := (Option.any_eq_true _ _).mp hpop
  obtain ⟨orders, ho, hne⟩ := (Option.any_eq_true _ _).mp hret
  exact ⟨s, orders, by simpa using hne, fetch_exact (reaches_of_play hs) hpush hs' ho⟩

/-! ## The ghost -/

/-- Order "1" is listed and fetched; it closes while the connection is down, so the next snapshot
is empty, pushes nothing, and the map keeps the order. -/
def ghostRun : List Act :=
  [.connected true, .bootstrap [openItem], .push, .fetch, .pop, .pop, .bootstrap [], .fetch]

/-- **A closed order is still reported** by a fetch called after all events and the last snapshot
have been pushed. -/
theorem fetch_reports_ghost : ¬ ∀ (gate_symbol : String) (s s' : State) (orders : List Cpp.Order),
    Reaches (Fires (next gate_symbol)) (fun _ _ => True) init s → s.pushing = [] →
    next gate_symbol s .pop = some s' → s'.returned = some orders →
    orders.Perm s.book.toList := by
  intro hall
  have h : (play (next "A_B") (fun _ _ => True) init ghostRun).any (fun s => decide
      (s.pushing = [] ∧ s.book.toList = [] ∧
        (next "A_B" s .pop).any fun s' => s'.returned.any (! ·.isEmpty))) = true := by
    decide
  obtain ⟨s, hs, hp⟩ := (Option.any_eq_true _ _).mp h
  obtain ⟨hpush, hbook, hpop⟩ := of_decide_eq_true hp
  obtain ⟨s', hs', hret⟩ := (Option.any_eq_true _ _).mp hpop
  obtain ⟨orders, ho, hne⟩ := (Option.any_eq_true _ _).mp hret
  have hperm := hall "A_B" s s' orders (reaches_of_play hs) hpush hs' ho
  rw [hbook, List.perm_nil] at hperm
  simp [hperm] at hne

end Meridian.GateOrders
