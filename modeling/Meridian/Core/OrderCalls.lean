import Meridian.Core.OrderManager
import Meridian.Lib.Threads

/-!
# An order manager's calls against an exchange and a database

`diff_and_repost` and `cancel_all` of `core/order_manager.py`, one call after the other, while the
exchange fills, cancels and expires orders and others place orders there. What comes of a call of the
exchange is an event of its own before the call is served, so it is up to the run; the database
(`db/queries.py:24-47`, of the `orders` table the status of each row) does not fail.

* `calls`: the system;
* `Serves`: a condition on the requests that are served, and `reaches_ok`: the invariant rule of the
  runs that meet it.
-/

namespace Meridian.OrderCalls

open Coop Run

/-- The calls of an order manager. -/
inductive Call where
  | diff_and_repost (grid : OrderGrid)
  | cancel_all
  deriving DecidableEq

/-- What comes of the next call of the exchange: whether it fails, and the order that it returns if
it creates one. -/
structure Outcome where
  fails : Bool
  order : Order
  deriving DecidableEq

/-- The `orders` table: the status of each row, by id. -/
abbrev Rows := Keyed (Prod.fst : String × String → String)

/-- The exchange and the database. -/
structure Books where
  /-- the orders open on the exchange -/
  live : Orders := .empty
  /-- the ids it has given out -/
  used : List String := []
  /-- History: the orders that were filled -/
  filled : List String := []
  rows : Rows := .empty
  outcome : Outcome
  /-- the next call -/
  call : Call

/-- `update_order_status` (`queries.py:42-47`). -/
def update_order_status (rows : Rows) (order_id status : String) : Rows :=
  if order_id ∈ rows.keys then rows.set (order_id, status) else rows

/-- An order that the exchange creates; it gives no id twice. -/
def create (b : Books) : Except Exn Order × Books :=
  if b.outcome.fails ∨ b.outcome.order.id ∈ b.used then (.error .connector, b)
  else (.ok b.outcome.order,
    { b with live := b.live.set b.outcome.order, used := b.outcome.order.id :: b.used })

/-- How the calls of an order manager are served; it makes no others. -/
def answer : Answer (Sys Books) Rep Exn
  | .acquire, s => (.ok (), s)
  | .fetch_open_orders, s =>
    if s.env.outcome.fails then (.error .connector, s) else (.ok s.env.live.toList, s)
  | .create_limit_order _ _ _, s => ((create s.env).1, { s with env := (create s.env).2 })
  | .cancel_order order_id, s =>
    if s.env.outcome.fails then (.error .connector, s)
    else (.ok (), { s with env := { s.env with live := s.env.live.erase order_id } })
  | .cancel_all_orders, s =>
    if s.env.outcome.fails then (.error .connector, s)
    else (.ok (), { s with env := { s.env with live := .empty } })
  | .insert_order order, s =>
    (.ok (), { s with env := { s.env with rows := s.env.rows.set (order.id, order.status) } })
  | .update_order_status order_id status, s =>
    (.ok (), { s with env :=
      { s.env with rows := update_order_status s.env.rows order_id status } })
  | _, s => (.error .connector, s)

/-- What happens outside the order manager. -/
inductive Ev where
  | call (c : Call)
  | clock (now : ℚ)
  | outcome (o : Outcome)
  /-- somebody else places an order -/
  | placed (order : Order)
  | filled (id : String)
  /-- an order is cancelled or expires -/
  | gone (id : String)

def Ev.apply : Ev → Sys Books → Option (Sys Books)
  | .call c, s => some { s with env := { s.env with call := c } }
  | .clock now, s => if s.clock ≤ now then some { s with clock := now } else none
  | .outcome o, s => some { s with env := { s.env with outcome := o } }
  | .placed order, s =>
    if order.id ∈ s.env.used then none
    else some { s with env :=
      { s.env with live := s.env.live.set order, used := order.id :: s.env.used } }
  | .filled id, s =>
    if id ∈ s.env.live.keys then
      some { s with env :=
        { s.env with live := s.env.live.erase id, filled := id :: s.env.filled } }
    else none
  | .gone id, s => some { s with env := { s.env with live := s.env.live.erase id } }

/-- The next call. -/
def body : Co Books Unit := do
  let s ← Prog.read
  match s.env.call with
  | .diff_and_repost grid => do
    let _ ← OrderManager.diff_and_repost grid
    pure ()
  | .cancel_all => OrderManager.cancel_all

/-- Calls, one after the other. -/
def calls : Threads (Sys Books) Rep Exn Unit Ev where
  answer := answer
  starts _ _ := true
  body _ := body
  env := Ev.apply

abbrev State := Cfg (Sys Books) Rep Exn Unit

/-- Before the first call. -/
def boot (s : Sys Books) : State := ⟨s, fun _ => .rest, []⟩

/-- Every request that is served meets `ok`. -/
def Serves (ok : Req → Sys Books → Prop) (x : State) : Act Unit Ev → Prop
  | .serve i => ∀ r ∈ (x.thread i).pending, ok r x.shared
  | _ => True

instance (ok : Req → Sys Books → Prop) [∀ r s, Decidable (ok r s)] (x : State) (a : Act Unit Ev) :
    Decidable (Serves ok x a) := by
  unfold Serves
  split <;> infer_instance

/-! ## What others do -/

/-- The order manager, what it has placed and the table are left alone; what was filled stays so. -/
structure Outside (s s' : Sys Books) : Prop where
  om : s'.om = s.om
  drawn : s'.drawn = s.drawn
  uuid4 : s'.uuid4 = s.uuid4
  ordered : s'.ordered = s.ordered
  rows : s'.env.rows = s.env.rows
  filled : s.env.filled ⊆ s'.env.filled
  used : s.env.used ⊆ s'.env.used

/-- What is filled and what is given out grows, and nothing else of these changes. -/
theorem Outside.of_eq {s s' : Sys Books} (hom : s'.om = s.om) (hdrawn : s'.drawn = s.drawn)
    (huuid : s'.uuid4 = s.uuid4) (hord : s'.ordered = s.ordered) (hrows : s'.env.rows = s.env.rows)
    (hfilled : s'.env.filled = s.env.filled) (hused : s'.env.used = s.env.used) : Outside s s' :=
  ⟨hom, hdrawn, huuid, hord, hrows, hfilled ▸ List.Subset.refl _, hused ▸ List.Subset.refl _⟩

theorem Outside.refl (s : Sys Books) : Outside s s := .of_eq rfl rfl rfl rfl rfl rfl rfl

theorem Outside.trans {s s' s'' : Sys Books} (h : Outside s s') (h' : Outside s' s'') :
    Outside s s'' where
  om := h'.om.trans h.om
  drawn := h'.drawn.trans h.drawn
  uuid4 := h'.uuid4.trans h.uuid4
  ordered := h'.ordered.trans h.ordered
  rows := h'.rows.trans h.rows
  filled := List.Subset.trans h.filled h'.filled
  used := List.Subset.trans h.used h'.used

theorem outside_apply {e : Ev} {s s' : Sys Books} (h : e.apply s = some s') : Outside s s' := by
  cases e with
  | call c | outcome o | gone id =>
    obtain rfl := Option.some.inj h
    exact .of_eq rfl rfl rfl rfl rfl rfl rfl
  | clock now =>
    obtain ⟨-, ⟨⟩⟩ := Option.ite_none_right_eq_some.mp h
    exact .of_eq rfl rfl rfl rfl rfl rfl rfl
  | placed order =>
    obtain ⟨-, ⟨⟩⟩ := Option.ite_none_left_eq_some.mp h
    exact ⟨rfl, rfl, rfl, rfl, rfl, List.Subset.refl _, List.subset_cons_self ..⟩
  | filled id =>
    obtain ⟨-, ⟨⟩⟩ := Option.ite_none_right_eq_some.mp h
    exact ⟨rfl, rfl, rfl, rfl, rfl, List.subset_cons_self .., List.Subset.refl _⟩

/-- A request that writes the table. -/
def writes : Req → Bool
  | .insert_order _ | .update_order_status .. => true
  | _ => false

/-- Only the requests that write the table change it. -/
theorem outside_answer {r : Req} (hr : writes r = false) (s : Sys Books) :
    Outside s (answer r s).2 := by
  cases r with
  | insert_order order | update_order_status order_id status => cases hr
  | create_limit_order side price amount =>
    simp only [answer, create]
    split
    · exact .refl s
    · exact ⟨rfl, rfl, rfl, rfl, rfl, List.Subset.refl _, List.subset_cons_self ..⟩
  | fetch_open_orders | cancel_order order_id | cancel_all_orders =>
    simp only [answer]
    split
    · exact .refl s
    · exact .of_eq rfl rfl rfl rfl rfl rfl rfl
  | _ => exact .refl s

/-! ## The runs whose requests meet a condition -/

variable {ok : Req → Sys Books → Prop} [∀ r s, Decidable (ok r s)]

/-- The exchange as the condition has it: a request that does not meet it fails, and changes
nothing. -/
def guarded (ok : Req → Sys Books → Prop) [∀ r s, Decidable (ok r s)] :
    Answer (Sys Books) Rep Exn := fun r s =>
  if ok r s then answer r s else (.error .connector, s)

theorem guarded_of_ok {r : Req} {s : Sys Books} (h : ok r s) : guarded ok r s = answer r s :=
  if_pos h

theorem guarded_of_not {r : Req} {s : Sys Books} (h : ¬ok r s) :
    guarded ok r s = (.error .connector, s) := if_neg h

theorem outside_guarded {r : Req} (hr : writes r = false) (s : Sys Books) :
    Outside s (guarded ok r s).2 := by
  by_cases h : ok r s
  · rw [guarded_of_ok h]
    exact outside_answer hr s
  · rw [guarded_of_not h]
    exact .refl s

/-- A snapshot fails, or meets the condition. -/
theorem guarded_fetch (ok : Req → Sys Books → Prop) [∀ r s, Decidable (ok r s)] (s : Sys Books) :
    guarded ok .fetch_open_orders s = (.error .connector, s) ∨
      guarded ok .fetch_open_orders s = (.ok s.env.live.toList, s) ∧ ok .fetch_open_orders s ∧
        s.env.outcome.fails = false := by
  by_cases hok : ok .fetch_open_orders s
  · rw [guarded_of_ok hok]
    by_cases hf : s.env.outcome.fails = true
    · exact Or.inl (if_pos hf)
    · exact Or.inr ⟨if_neg hf, hok, Bool.eq_false_iff.mpr hf⟩
  · exact Or.inl (guarded_of_not hok)

/-- An order is not created, or it gets an id that is not used. -/
theorem guarded_create (ok : Req → Sys Books → Prop) [∀ r s, Decidable (ok r s)] (side : Side)
    (price amount : ℚ) (s : Sys Books) :
    guarded ok (.create_limit_order side price amount) s = (.error .connector, s) ∨
      guarded ok (.create_limit_order side price amount) s = (.ok s.env.outcome.order,
        { s with env :=
          { s.env with
            live := s.env.live.set s.env.outcome.order
            used := s.env.outcome.order.id :: s.env.used } }) ∧
        ok (.create_limit_order side price amount) s ∧ s.env.outcome.fails = false ∧
        s.env.outcome.order.id ∉ s.env.used := by
  by_cases hok : ok (.create_limit_order side price amount) s
  · rw [guarded_of_ok hok]
    simp only [answer, create]
    by_cases hf : s.env.outcome.fails = true ∨ s.env.outcome.order.id ∈ s.env.used
    · rw [if_pos hf]
      exact Or.inl rfl
    · rw [if_neg hf]
      obtain ⟨hfails, hused⟩ := not_or.mp hf
      exact Or.inr ⟨rfl, hok, Bool.eq_false_iff.mpr hfails, hused⟩
  · exact Or.inl (guarded_of_not hok)

/-- A step whose request meets the condition is a step of the calls served under it. -/
theorem next_guarded {x x' : State} {a : Act Unit Ev} (hc : Serves ok x a)
    (h : calls.next x a = some x') : (calls.serving (guarded ok)).next x a = some x' := by
  refine Threads.next_serving h fun i r ha hr => ?_
  subst ha
  exact (guarded_of_ok (hc r hr)).symm

variable {c : Rules (Sys Books) Req} {P : Sys Books → Prop}

/-- A call keeps to rules that both calls keep to. -/
theorem keeps_body {A : Answer (Sys Books) Rep Exn}
    (hrepost : ∀ grid, Keeps A c P (OrderManager.diff_and_repost grid))
    (hcancel : Keeps A c P OrderManager.cancel_all) : Keeps A c P body := by
  refine Keeps.read_bind fun s h => ?_
  split
  · rename_i grid _
    exact ((hrepost grid).bind fun _ => Keeps.done ()) s h
  · exact hcancel s h

/-- One step of the calls keeps to the rules. -/
theorem ok_step (hc : c.Closed P) (henv : ∀ s s', Outside s s' → c.rely s s')
    (hbody : Keeps (guarded ok) c P body) {x x' : State} {a : Act Unit Ev}
    (hx : ThreadOk (guarded ok) c P (x.thread ()) x.shared) (hok : Serves ok x a)
    (hstep : calls.next x a = some x') :
    ThreadOk (guarded ok) c P (x'.thread ()) x'.shared ∧
      a.Guaranteed (fun _ => c) x.shared x'.shared := by
  have hall : AllOk (guarded ok) (fun _ : Unit => c) (fun _ => P) x := fun _ => hx
  have hrely : a.Guaranteed (fun _ : Unit => c) x.shared x'.shared → ∀ j : Unit,
      a.thread ≠ some j → c.rely x.shared x'.shared := by
    intro _ j hj
    cases a with
    | env e =>
      obtain ⟨s', hs', rfl⟩ := Option.map_eq_some_iff.mp hstep
      exact henv _ _ (outside_apply hs')
    | start i | serve i | resume i => exact absurd rfl hj
  obtain ⟨hall', hguar, -⟩ := AllOk.next (T := calls.serving (guarded ok)) hall (fun _ => hc)
    (fun _ hP _ => hbody _ hP) hrely (next_guarded hok hstep)
  exact ⟨hall' (), hguar⟩

/-- **The invariant rule**: what the calls keep from rest to rest, served under the condition and
with others around, holds at rest in every run that meets the condition. -/
theorem reaches_ok (hc : c.Closed P) (henv : ∀ s s', Outside s s' → c.rely s s')
    (hbody : Keeps (guarded ok) c P body) {s : Sys Books} (hs : P s) {x : State}
    (h : Reaches (Fires calls.next) (Serves ok) (boot s) x) :
    ThreadOk (guarded ok) c P (x.thread ()) x.shared :=
  h.inv (I := fun x : State => ThreadOk (guarded ok) c P (x.thread ()) x.shared) hs
    fun _ _ _ hx hok hstep => (ok_step hc henv hbody hx hok hstep).1

/-! ## Adopting nothing -/

/-- Where all the listed orders are tracked the loop that adopts them changes nothing. -/
theorem wp_add_tracked {A : Answer (Sys Books) Rep Exn} {Q : Except Exn Unit → Sys Books → Prop}
    {s : Sys Books} (hown : c.own s s) (hQ : Q (.ok ()) s) :
    ∀ {orders : List Order}, (∀ order ∈ orders, order.id ∈ s.om.open_orders.keys) →
      wp A c Q (Prog.forEach orders fun order => Prog.modify (Sys.mapOm fun om =>
        { om with open_orders := om.open_orders.add order })) s
  | [], _ => hQ
  | order :: orders, hin => by
    have hadd : s.om.open_orders.add order = s.om.open_orders :=
      if_pos (hin order List.mem_cons_self)
    rw [Prog.forEach, wp_bind, wp_modify]
    simp only [Sys.mapOm, hadd]
    exact ⟨hown, wp_add_tracked hown hQ fun o ho => hin o (List.mem_cons_of_mem _ ho)⟩

/-- A dictionary of the listed orders has their ids. -/
theorem keys_live_map (live : Orders) : (Keyed.ofList live.toList : Orders).keys = live.keys :=
  congrArg (List.map Order.id) (Keyed.toList_ofList live.nodup)

/-! ## Concrete runs -/

/-- Serve a request and let the call resume, `n` times. -/
def turns (n : ℕ) : List (Act Unit Ev) :=
  (List.replicate n [Act.serve (), Act.resume ()]).flatten

/-- One token at the price 100. -/
def buy_order (id status : String) : Order :=
  { id := id, exchange := "kucoin", symbol := "ALKIMI/USDT", side := .buy, price := 100, amount := 1
    amount_usd := 100, status := status, timestamp := 0 }

/-- A grid with that level. -/
def one_buy : OrderGrid :=
  { buy_prices := [100], buy_amounts := [1], sell_prices := [], sell_amounts := [], global_mid := 100
    aggressiveness := 0 }

/-- A live order manager with the given orders of its own open, about to repost. -/
def holding (orders : List Order) : Sys Books where
  om := orders.foldl (fun om o => OrderManager.track o 0 om)
    { exchange := "kucoin", symbol := "ALKIMI/USDT", dry_run := false }
  bot :=
    { exchange := "kucoin"
      q_switch := { exchange := "kucoin", min_balance_usd := 0, min_balance_token := 0 }
      circuit_breaker := { max_daily_loss_pct := 10, max_drawdown_pct := 10, day_start := 0 }
      has_paper_trader := false }
  paper := { exchange := "kucoin", maker_fee_rate := 0 }
  clock := 0
  uuid4 _ := ""
  ordered := orders
  env :=
    { live := .ofList orders
      used := orders.map Order.id
      rows := .ofList (orders.map fun o => (o.id, o.status))
      outcome := ⟨false, buy_order "new" "open"⟩
      call := .diff_and_repost one_buy }

end Meridian.OrderCalls
