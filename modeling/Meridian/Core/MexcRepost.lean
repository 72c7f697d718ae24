import Meridian.Core.DiffRepost
import Meridian.Cpp.MexcConnector

/-!
# A live order manager on the MEXC connector

`CppMexcConnector` (`exchange/cpp_connector.py`) hands the calls of an `OrderManager` to the C++
connector, whose cached orders stay those of the last bootstrap. `Env` is the connector and the
exchange between two bootstraps. While a call is served anything else may happen there: messages,
fills, cancellations, orders placed elsewhere.

Results:
* `smooth_answer`: without failures it is an environment in which every call succeeds and whose
  listing never changes;
* `open_orders_frozen`: a fetch returns the orders of the last listing stored, and every
  `diff_and_repost` places orders anew for the levels that none of these is near;
* `open_orders_follow_iff`: so when the orders a fetch returns are those open on the exchange, and when
  a `diff_and_repost` places nothing.
-/

namespace Meridian.Mexc

open Coop OrderManager Meridian.Run

variable {mkt : Market} {m : OpenOrders} {s s' : State}

/-- `_to_order` (`cpp_connector.py:93-108`). The connector writes no side but "buy" and "sell". -/
def to_order (o : Cpp.Order) : Order :=
  { id := o.id
    exchange := o.exchange
    symbol := o.symbol
    side := if o.side = "buy" then .buy else .sell
    price := o.price
    amount := o.amount
    amount_usd := o.amount_usd
    status := o.status
    timestamp := o.timestamp
    filled_amount := o.filled_amount
    filled_price := o.filled_price
    fee := o.fee
    fee_currency := o.fee_currency }

/-- A side as the text that Python passes on. -/
def side_text : Side → String
  | .buy => "buy"
  | .sell => "sell"

/-! ## Between two bootstraps -/

/-- The steps that leave the cached orders as they are: all but a disconnect and the end of a
bootstrap. -/
def Quiet : Act → Prop
  | .disconnect | .store _ => False
  | _ => True

theorem place_conn {j : Json} (h : place s j = some s') : s'.conn = s.conn := by
  obtain ⟨_, -, -, rfl⟩ := place_eq h
  rfl

theorem next_connected {a : Act} (ha : Quiet a) (hc : s.conn.connected = true)
    (h : next mkt s a = some s') : s'.conn.connected = true := by
  have same : ∀ {t : State}, some t = some s' → t.conn.connected = true →
      s'.conn.connected = true := fun ht hc => Option.some.inj ht ▸ hc
  cases a with
  | disconnect => exact absurd ha id
  | store now => exact absurd ha id
  | opened j => rwa [place_conn h]
  | message j now =>
    simp only [next] at h
    split at h
    · split at h
      · exact same h ((on_ws_message_flags j now _).1.trans hc)
      · cases h
    · cases h
  | create_limit_order side price amount j =>
    simp only [next] at h
    split at h
    · rwa [place_conn h]
    · cases h
  | closed id => exact same h hc
  | connect_ready =>
    simp only [next] at h
    split at h
    · exact same h rfl
    · cases h
  | connect | connect_timeout | raised | leave | account balances | list | ticker bt lt now
  | ws_connect | subscribe | filled j | cancel_order id | cancel_all_orders =>
    simp only [next] at h
    split at h <;> try split at h
    all_goals first | exact same h hc | cases h

theorem Quiet.not_store {a : Act} (ha : Quiet a) (now : ℚ) : a ≠ .store now := fun h => by
  rw [h] at ha
  exact ha

/-- A connected connector that caches the orders `m`, and the exchange; `calls` numbers the calls
of the order manager. -/
structure Env (mkt : Market) (m : OpenOrders) where
  state : State
  inv : Inv mkt state
  connected : state.conn.connected = true
  cached : state.conn.open_orders = m
  calls : ℕ := 0

/-- One step, where it is possible. -/
def Env.step (e : Env mkt m) (a : { a : Act // Quiet a }) : Env mkt m :=
  match h : next mkt e.state a.1 with
  | some s' =>
    { state := s'
      inv := inv_next e.inv h
      connected := next_connected a.2 e.connected h
      cached := (next_frozen e.inv.subscribed a.2.not_store h).open_orders.trans e.cached
      calls := e.calls }
  | none => e

theorem Env.step_state {e : Env mkt m} {a : { a : Act // Quiet a }}
    (h : next mkt e.state a.1 = some s') : (e.step a).state = s' := by
  unfold Env.step
  split
  · rename_i s'' h'
    exact Option.some.inj (h'.symm.trans h)
  · rename_i h'
    cases h'.symm.trans h

/-- The exchange forgets no id. -/
theorem Env.used_step (e : Env mkt m) (a : { a : Act // Quiet a }) :
    ∀ id ∈ e.state.used, id ∈ (e.step a).state.used := by
  intro id hid
  cases h : next mkt e.state a.1 with
  | some s' =>
    rw [Env.step_state h]
    exact (next_known e.inv.book h).1 id hid
  | none =>
    unfold Env.step
    split
    · rename_i s' h'
      cases h'.symm.trans h
    · exact hid

theorem Env.used_foldl : ∀ (l : List { a : Act // Quiet a }) (e : Env mkt m),
    ∀ id ∈ e.state.used, id ∈ (l.foldl Env.step e).state.used
  | [], _, _, h => h
  | a :: l, e, id, h => Env.used_foldl l (e.step a) id (e.used_step a id h)

/-! ## Serving the order manager -/

/-- What is left to chance, by the number of the call, and how the exchange records an order. -/
structure World where
  rest_fails : ℕ → Bool
  db_fails : ℕ → Bool
  time : ℕ → ℚ
  /-- what else happens before the call is served -/
  meanwhile : ℕ → List { a : Act // Quiet a }
  record : Query → List String → Json
  records : ∀ q used, Records q (record q used)
  record_new : ∀ q used, ∃ id, (record q used).text "orderId" = some id ∧ id ∉ used

namespace World

variable (w : World)

/-- The state in which the next call is served. -/
def arrive (s : Sys (Env mkt m)) : Sys (Env mkt m) :=
  { s with
    clock := w.time s.env.calls
    env := (w.meanwhile s.env.calls).foldl Env.step { s.env with calls := s.env.calls + 1 } }

/-- How the calls of an order manager are served; it makes no others. -/
def answer : Answer (Sys (Env mkt m)) Rep Exn := fun r s =>
  let rest_fails := w.rest_fails s.env.calls
  let db_fails := w.db_fails s.env.calls
  let t := w.arrive s
  match r with
  | .acquire => (.ok (), t)
  | .fetch_open_orders =>
    match fetch_open_orders t.env.state.conn with
    | some orders => (.ok (orders.map to_order), t)
    | none => (.error .connector, t)
  | .create_limit_order side price amount =>
    let j := w.record (order_query mkt (side_text side) price amount) t.env.state.used
    if rest_fails then (.error .connector, t)
    else (.ok (to_order (json_to_order mkt t.clock j)),
      { t with env := t.env.step ⟨.create_limit_order (side_text side) price amount j, trivial⟩ })
  | .cancel_order id =>
    if rest_fails then (.error .connector, t)
    else (.ok (), { t with env := t.env.step ⟨.cancel_order id, trivial⟩ })
  | .cancel_all_orders =>
    if rest_fails then (.error .connector, t)
    else (.ok (), { t with env := t.env.step ⟨.cancel_all_orders, trivial⟩ })
  | .insert_order _ | .update_order_status .. =>
    if db_fails then (.error .database, t) else (.ok (), t)
  | _ => (.error .connector, t)

variable {w}

theorem used_arrive (s : Sys (Env mkt m)) :
    ∀ id ∈ s.env.state.used, id ∈ (w.arrive s).env.state.used :=
  fun id h => Env.used_foldl _ { s.env with calls := s.env.calls + 1 } id h

/-- The cached orders as the order manager gets them. -/
theorem fetch_cached (e : Env mkt m) : fetch_open_orders e.state.conn = some m.values := by
  rw [fetch_open_orders, if_pos e.connected, e.cached]

/-- The record of a new order opens it. -/
theorem next_create (e : Env mkt m) (side : String) (price amount : ℚ) :
    ∃ id, (w.record (order_query mkt side price amount) e.state.used).text "orderId" = some id ∧
      id ∉ e.state.used ∧
      id ∈ (e.step ⟨.create_limit_order side price amount
        (w.record (order_query mkt side price amount) e.state.used), trivial⟩).state.used := by
  obtain ⟨id, hid, hnew⟩ := w.record_new (order_query mkt side price amount) e.state.used
  refine ⟨id, hid, hnew, ?_⟩
  have hnext : next mkt e.state (.create_limit_order side price amount
      (w.record (order_query mkt side price amount) e.state.used)) = some { e.state with
        book := e.state.book.set (w.record (order_query mkt side price amount) e.state.used)
        used := id :: e.state.used } := by
    simp only [next, place, hid, if_neg hnew]
    rw [if_pos ⟨e.connected, w.records _ _⟩]
  rw [Env.step_state hnext]
  exact List.mem_cons_self

/-- **Without failures every call succeeds and the listing never changes.** -/
theorem smooth_answer (hr : ∀ n, w.rest_fails n = false) (hd : ∀ n, w.db_fails n = false) :
    Smooth (E := Env mkt m) w.answer (fun _ => m.values.map to_order) fun e => e.state.used where
  ok r s hp := by
    cases r with
    | acquire => exact ⟨_, rfl⟩
    | fetch_open_orders =>
      simp only [answer, fetch_cached]
      exact ⟨_, rfl⟩
    | create_limit_order | cancel_order => simp [answer, hr]
    | insert_order | update_order_status => simp [answer, hd]
    | _ => exact absurd hp Bool.false_ne_true
  reached r s := by
    have ha : Reached (fun e : Env mkt m => e.state.used) s s.om (w.arrive s) :=
      ⟨rfl, rfl, used_arrive s⟩
    have hstep : ∀ a, Reached (fun e : Env mkt m => e.state.used) s s.om
        { w.arrive s with env := (w.arrive s).env.step a } := fun a =>
      ⟨rfl, rfl, fun id h => Env.used_step _ a id (used_arrive s id h)⟩
    cases r with
    | fetch_open_orders =>
      simp only [answer, fetch_cached]
      exact ha
    | create_limit_order | cancel_order | cancel_all_orders =>
      simp only [answer, hr, Bool.false_eq_true, if_false]
      exact hstep _
    | insert_order | update_order_status =>
      simp only [answer, hd, Bool.false_eq_true, if_false]
      exact ha
    | _ => exact ha
  acquire s := rfl
  fetch s := by simp only [answer, fetch_cached]
  create side price amount s := by
    obtain ⟨id, hid, hnew, hmem⟩ :=
      next_create (w := w) (w.arrive s).env (side_text side) price amount
    simp only [answer, hr, Bool.false_eq_true, if_false]
    refine ⟨_, rfl, ?_, ?_⟩
    · simp only [to_order, json_to_order, Json.value, hid, Option.getD_some]
      exact fun h => hnew (used_arrive s id h)
    · simpa only [to_order, json_to_order, Json.value, hid, Option.getD_some] using hmem

end World

/-! ## Repeated calls -/

variable {w : World}

/-- One `diff_and_repost` of the grid. -/
def repost (w : World) (grid : OrderGrid) (s : Sys (Env mkt m)) : Sys (Env mkt m) :=
  ((diff_and_repost grid).run w.answer s).2

/-- The listing, as the order manager gets it in every call. -/
def view (m : OpenOrders) : Env mkt m → List Order := fun _ => m.values.map to_order

theorem mem_view {o : Order} {e : Env mkt m} (h : o ∈ view m e) :
    ∃ c ∈ m.toList.map Prod.snd, to_order c = o := by
  obtain ⟨c, hc, rfl⟩ := List.mem_map.mp h
  exact ⟨c, ((List.perm_insertionSort _ _).map _).mem_iff.mp hc, rfl⟩

/-- In live mode only the exchange's ids matter, and those listed are not given out again. -/
theorem knownIds_live {σ : Sys (Env mkt m)} (hlive : σ.om.dry_run = false) :
    KnownIds (view m) (fun e => e.state.used) σ where
  dry hd := absurd (hlive.symm.trans hd) Bool.false_ne_true
  live o ho := by
    obtain ⟨c, hc, rfl⟩ := mem_view ho
    rw [← σ.env.cached, σ.env.inv.view] at hc
    exact σ.env.inv.listed c hc

/-- A live order manager stays live. -/
theorem live_iterate (hr : ∀ n, w.rest_fails n = false) (hd : ∀ n, w.db_fails n = false)
    {σ : Sys (Env mkt m)} (hlive : σ.om.dry_run = false) (grid : OrderGrid) :
    ∀ n, ((repost w grid)^[n] σ).om.dry_run = false := by
  intro n
  induction n with
  | zero => exact hlive
  | succ n ih =>
    rw [Function.iterate_succ_apply']
    obtain ⟨-, -, -, hdry, -⟩ :=
      (World.smooth_answer hr hd).diff_and_repost_spec (knownIds_live ih) grid
    exact hdry.trans ih

/-- Whatever is held over in live mode is, by its id, one of the listed orders. -/
theorem held_listed {σ : Sys (Env mkt m)} (hlive : σ.om.dry_run = false) {o : Order}
    (ho : o ∈ held w.answer (view m) σ) : ∃ c ∈ m.toList.map Prod.snd, c.id = o.id := by
  rw [held, heldOver] at ho
  rcases mem_afterSync (List.mem_filter.mp ho).1 with ⟨hd, -⟩ | ⟨x, hx, hxo⟩
  · exact absurd (hlive.symm.trans hd) Bool.false_ne_true
  · obtain ⟨c, hc, rfl⟩ := mem_view hx
    exact ⟨c, hc, hxo⟩

/-- **The listing stays that of the last bootstrap, and every call places the same levels again.**
Whatever has been placed, cancelled, filled or pushed since, a fetch returns the orders of the last
listing stored. So every `diff_and_repost` of a live order manager, the first or a later one, has
the exchange create one order for each positive level that none of the orders held over is near,
and all of these are orders of that listing. -/
theorem open_orders_frozen {s : State} (h : Reaches (Fires (next mkt)) (fun _ _ => True) {} s) :
    (∀ orders, fetch_open_orders s.conn = some orders → orders.Perm s.listed) ∧
    ∀ (w : World) (σ : Sys (Env mkt s.conn.open_orders)) (grid : OrderGrid) (n : ℕ),
      (∀ n, w.rest_fails n = false) → (∀ n, w.db_fails n = false) → σ.om.dry_run = false →
      let σₙ := (repost w grid)^[n] σ
      ∃ placed, ((diff_and_repost grid).run w.answer σₙ).1 = .ok placed ∧
        List.Forall₂ (Made (E := Env mkt s.conn.open_orders) w.answer false) placed
          (vacant (held w.answer (view s.conn.open_orders) σₙ) grid) ∧
        ∀ o ∈ held w.answer (view s.conn.open_orders) σₙ, ∃ c ∈ s.listed, c.id = o.id := by
  refine ⟨fun orders => fetch_listed h, fun w σ grid n hr hd hlive => ?_⟩
  have hn := live_iterate hr hd hlive grid n
  obtain ⟨placed, hok, -, -, hmade⟩ :=
    (World.smooth_answer hr hd).diff_and_repost_spec (knownIds_live hn) grid
  refine ⟨placed, hok, hn ▸ hmade, fun o ho => ?_⟩
  rw [← (inv_reaches h).view]
  exact held_listed hn ho

/-- **When the open orders follow the exchange**: in a reachable state a fetch returns exactly the orders
open on the exchange if and only if the last listing stored by a bootstrap is what is open now, or
nothing is returned. So it does in every run in which the orders on the exchange change only while they
are to be listed anew before the connector is connected; and a `diff_and_repost` on the connector places
nothing if and only if each positive level is near an order held over, which is one of that listing. -/
theorem open_orders_follow_iff (mkt : Market) :
    (∀ s, Reaches (Fires (next mkt)) (fun _ _ => True) {} s →
      (Follows mkt s ↔ (s.conn.connected = true → Aligned mkt s))) ∧
    (∀ s, Reaches (Fires (next mkt)) Settled {} s → Follows mkt s) ∧
    ∀ s, Reaches (Fires (next mkt)) (fun _ _ => True) {} s →
      ∀ (w : World) (σ : Sys (Env mkt s.conn.open_orders)) (grid : OrderGrid) (n : ℕ),
        (∀ n, w.rest_fails n = false) → (∀ n, w.db_fails n = false) → σ.om.dry_run = false →
        let σₙ := (repost w grid)^[n] σ
        ∃ placed, ((diff_and_repost grid).run w.answer σₙ).1 = .ok placed ∧
          (placed = [] ↔ vacant (held w.answer (view s.conn.open_orders) σₙ) grid = []) ∧
          ∀ o ∈ held w.answer (view s.conn.open_orders) σₙ, ∃ c ∈ s.listed, c.id = o.id := by
  refine ⟨fun s => follows_iff, fun s => follows_of_settled, fun s h w σ grid n hr hd hlive => ?_⟩
  obtain ⟨placed, hok, hmade, hheld⟩ := (open_orders_frozen h).2 w σ grid n hr hd hlive
  refine ⟨placed, hok, ?_, hheld⟩
  rw [← List.length_eq_zero_iff, ← List.length_eq_zero_iff, hmade.length_eq]

/-- An order that is open when the bootstrap lists the orders, and nothing new since. -/
def settledRun : List Act :=
  [.opened buy_two, .connect, .account [], .list, .store 0, .ticker {} {} 0, .connect_ready,
    .ws_connect, .subscribe, .message { c := some "spot@public.miniTicker.v3.api@AB", d := some {} } 1]

/-- A fetch returns that order. -/
theorem open_orders_follow_settled : ∃ s orders,
    play (next ⟨"AB", "A", "B"⟩) Settled {} settledRun = some s ∧
      fetch_open_orders s.conn = some orders ∧ orders ≠ [] ∧
      ∃ now, orders.Perm (open_on_exchange ⟨"AB", "A", "B"⟩ now s) := by
  have h : (play (next ⟨"AB", "A", "B"⟩) Settled {} settledRun).any (fun s =>
      (fetch_open_orders s.conn).any fun orders => decide (orders ≠ [])) = true := by
    decide +kernel
  obtain ⟨s, hs, hfetch⟩ := (Option.any_eq_true _ _).mp h
  obtain ⟨orders, ho, hne⟩ := (Option.any_eq_true _ _).mp hfetch
  exact ⟨s, orders, hs, ho, of_decide_eq_true hne,
    (open_orders_follow_iff ⟨"AB", "A", "B"⟩).2.1 s (reaches_of_play hs) orders ho⟩

/-! ## The same level twice -/

/-- Nothing fails, nothing else happens, and the exchange records an order as asked. -/
def World.quiet : World where
  rest_fails _ := false
  db_fails _ := false
  time _ := 0
  meanwhile _ := []
  record q used :=
    { text := fun
        | "orderId" => some (Meridian.World.longer used)
        | "side" => some q.side
        | _ => none
      number := fun
        | "price" => some q.price
        | "origQty" => some q.quantity
        | _ => none }
  records _ _ := ⟨rfl, rfl, rfl⟩
  record_new _ used := ⟨_, rfl, Meridian.World.longer_not_mem used⟩

/-- A new live order manager on a connector. -/
def starting (e : Env mkt m) : Sys (Env mkt m) where
  om := { exchange := "mexc", symbol := "ALKIMI/USDT", dry_run := false }
  bot :=
    { exchange := "mexc"
      q_switch := { exchange := "mexc", min_balance_usd := 0, min_balance_token := 0 }
      circuit_breaker := { max_daily_loss_pct := 10, max_drawdown_pct := 10, day_start := 0 }
      has_paper_trader := false }
  paper := { exchange := "mexc", maker_fee_rate := 0 }
  clock := 0
  uuid4 := Meridian.World.longer
  env := e

/-- A bootstrap that finds no open orders. -/
def bootRun : List Act :=
  [.connect, .account [], .list, .store 0, .ticker {} {} 0, .connect_ready, .ws_connect, .subscribe]

/-- Two calls with one buy level, on an exchange that listed no orders, place two orders. -/
theorem open_orders_frozen_twice :
    ∃ (m : OpenOrders) (σ : Sys (Env ⟨"ALKIMIUSDT", "ALKIMI", "USDT"⟩ m)),
      ∀ n < 2, ∃ o, ((diff_and_repost buy_at_100).run World.quiet.answer
        ((repost World.quiet buy_at_100)^[n] σ)).1 = .ok [o] := by
  have h : (play (next ⟨"ALKIMIUSDT", "ALKIMI", "USDT"⟩) (fun _ _ => True) {} bootRun).any
      (fun s => decide (s.conn.connected = true ∧ s.listed = [])) = true := by decide +kernel
  obtain ⟨s, hs, hp⟩ := (Option.any_eq_true _ _).mp h
  obtain ⟨hconn, hlisted⟩ := of_decide_eq_true hp
  have hreach := reaches_of_play hs
  refine ⟨s.conn.open_orders, starting ⟨s, inv_reaches hreach, hconn, rfl, 0⟩, fun n _ => ?_⟩
  obtain ⟨placed, hok, hmade, hheld⟩ := (open_orders_frozen hreach).2 World.quiet
    (starting ⟨s, inv_reaches hreach, hconn, rfl, 0⟩) buy_at_100 n (fun _ => rfl) (fun _ => rfl) rfl
  have hnone := List.eq_nil_iff_forall_not_mem.mpr fun o ho => by
    obtain ⟨c, hc, -⟩ := hheld o ho
    rw [hlisted] at hc
    exact List.not_mem_nil hc
  have hvacant : vacant [] buy_at_100 = [(.buy, 100, 1)] := by decide +kernel
  rw [hnone, hvacant] at hmade
  cases hmade with
  | cons _ hnil =>
    cases hnil
    exact ⟨_, hok⟩

end Meridian.Mexc
