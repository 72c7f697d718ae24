import Mathlib.Data.Rat.Defs
import Meridian.Cpp.Candles
import Meridian.Cpp.ConnectJoin
import Meridian.Cpp.Connector
import Meridian.Lib.FixedPoint

/-!
# The Kraken connector: what it has before the first message

Model of the bootstrap of `KrakenConnector::io_thread_main`, of the REST calls it makes and of what
`connect()` waits for, of `exchange/cpp/src/kraken_connector.cpp` (44-128, 164-184, 210-227, 242-308,
659-694). `std::stod`, `json::parse` and `json::dump` are parameters, and the server answers each request
as it likes or not at all; the nonce and the signature of a request are left out.

`kraken_unwrap` returns the result of a reply, and the ticker section looks for a result in that.

Results:
* `bootstrap_stored`: the balance and the open orders are stored as they were sent;
* `never_ready`: the ticker never is;
* `still_waiting`, `not_connected`: `connect()` goes on to wait for a push.
-/

namespace Meridian.KrakenBootstrap

open Candles (Thrown member value get_string items names member_of_get mem_names ok_bind)
open GlobalMid (safe_stod mean_ticker)
open Cpp (OrderMap)

/-! ## The library -/

/-- What the connector takes from the standard library and from the JSON library. -/
structure Library where
  stod : String → Option ℚ
  parse : String → Option Json
  dump : Json → String

/-- `j.contains(key)` -/
def contains (j : Json) (key : String) : Bool :=
  match j with
  | .obj members => (Dict.get members key).isSome
  | _ => false

/-- `std::toupper` on every character. -/
def toupper (s : String) : String := String.ofList (s.toList.map Char.toUpper)

/-- `HttpResponse` -/
structure HttpResponse where
  status : ℤ
  body : String

/-- A server, which answers a method, a path and the parameters behind the nonce; and the clock. -/
structure Server where
  request : String → String → String → Except Thrown HttpResponse
  now : ℚ

/-! ## The connector -/

/-- What the constructor keeps. -/
structure KrakenConnector where
  kraken_pair : String
  kraken_rest_pair : String
  base_token : String
  quote_currency : String

/-- `parse_kraken_symbol` (`kraken_connector.cpp:94-121`). -/
def parse_kraken_symbol (symbol quote_currency : String) : String × String :=
  let rest_pair := (symbol.toList.filter fun c => c ≠ '/' ∧ c ≠ '-' ∧ c ≠ '_').map Char.toUpper
  let upper_qc := quote_currency.toList.map Char.toUpper
  let base :=
    if upper_qc.length < rest_pair.length ∧
        rest_pair.drop (rest_pair.length - upper_qc.length) = upper_qc then
      rest_pair.take (rest_pair.length - upper_qc.length)
    else rest_pair
  (String.ofList (base ++ '/' :: upper_qc), String.ofList rest_pair)

/-- The constructor. -/
def KrakenConnector.make (symbol quote_currency : String) : KrakenConnector :=
  let pairs := parse_kraken_symbol symbol quote_currency
  { kraken_pair := pairs.1
    kraken_rest_pair := pairs.2
    base_token := String.ofList (pairs.1.toList.takeWhile (· ≠ '/'))
    quote_currency := quote_currency }

/-- What the io thread stores under `state_mutex_`. -/
structure State where
  balance_ready : Bool := false
  ticker_ready : Bool := false
  latest_balance : Cpp.Balance := {}
  latest_ticker : Cpp.Ticker := {}
  open_orders : OrderMap := Keyed.empty

section Calls

variable (lib : Library) (k : KrakenConnector) (srv : Server)

/-- `jdbl` -/
def jdbl (j : Json) (key : String) : ℚ :=
  match member j key with
  | .str s => safe_stod lib.stod s
  | .num q => q
  | _ => 0

/-- `kraken_unwrap` (`kraken_connector.cpp:73-90`). -/
def kraken_unwrap (r : HttpResponse) (ctx : String) : Except Thrown Json :=
  if r.status = 0 then .error (.runtime_error (ctx ++ ": no response from server"))
  else if r.status < 200 ∨ r.status ≥ 300 then
    .error (.runtime_error (ctx ++ ": HTTP " ++ toString r.status ++ " — " ++ r.body))
  else
    match lib.parse r.body with
    | none => .error (.runtime_error (ctx ++ ": JSON parse error — " ++ r.body))
    | some j =>
      match (member j "error").arr? with
      | some (error :: _) =>
        .error (.runtime_error (ctx ++ ": Kraken error: " ++ lib.dump error))
      | _ =>
        if contains j "result" then .ok (member j "result")
        else .error (.runtime_error (ctx ++ ": missing 'result' field — " ++ r.body))

/-- `KrakenConnector::rest_post_private` -/
def rest_post_private (path extra_body : String) : Except Thrown Json := do
  let r ← srv.request "POST" path extra_body
  kraken_unwrap lib r ("POST " ++ path)

/-- `KrakenConnector::rest_get_public` -/
def rest_get_public (path_and_query : String) : Except Thrown Json := do
  let r ← srv.request "GET" path_and_query ""
  kraken_unwrap lib r ("GET " ++ path_and_query)

/-- The side and the price of an order's description. -/
def describe (descr : Json) : Except Thrown (String × ℚ) :=
  match descr with
  | .obj _ => do
    let side ← value descr "type" "buy"
    let price ← value descr "price" "0"
    return (side, safe_stod lib.stod price)
  | _ => .ok ("", 0)

/-- The status of an order. -/
def order_status (raw : String) : String :=
  if raw = "open" ∨ raw = "pending" then "open"
  else if raw = "closed" then "filled"
  else if raw = "canceled" ∨ raw = "expired" then "canceled"
  else raw

/-- `KrakenConnector::json_to_order_rest` (`kraken_connector.cpp:659-694`). -/
def json_to_order_rest (txid : String) (j : Json) : Except Thrown Cpp.Order := do
  let descr ← describe lib (member j "descr")
  let vol ← value j "vol" "0"
  let raw ← value j "status" "open"
  let vol_exec ← value j "vol_exec" "0"
  let avg_price ← value j "price" "0"
  let fee ← value j "fee" "0"
  let amount := safe_stod lib.stod vol
  let filled_amount := safe_stod lib.stod vol_exec
  let order : Cpp.Order :=
    { id := txid
      exchange := "kraken"
      symbol := k.kraken_pair
      side := descr.1
      price := descr.2
      amount := amount
      amount_usd := descr.2 * amount
      status := order_status raw
      timestamp := (member j "opentm").num?.getD srv.now
      filled_amount := filled_amount
      filled_price := if 0 < filled_amount then safe_stod lib.stod avg_price else 0
      fee := safe_stod lib.stod fee
      fee_currency := k.quote_currency }
  return order

/-! ## The bootstrap -/

/-- The amount of an asset. -/
def amountRead (bal_result : Json) (x : String × Json) : ℚ :=
  let amount := jdbl lib bal_result x.1
  if amount = 0 then (x.2.str?.map (safe_stod lib.stod)).getD amount else amount

/-- One asset of the balance. -/
def balanceStep (bal_result : Json) (bal : Cpp.Balance) (x : String × Json) : Cpp.Balance :=
  let amount := amountRead lib bal_result x
  let upper_qc := toupper k.quote_currency
  let bal := if x.1 = upper_qc ∨ x.1 = "Z" ++ upper_qc then { bal with usd := amount } else bal
  if x.1 = k.base_token ∨ x.1 = "X" ++ k.base_token then { bal with token := amount } else bal

/-- The balance section. -/
def bootstrapBalance : Except Thrown Cpp.Balance := do
  let bal_result ← rest_post_private lib srv "/0/private/Balance" ""
  return (items bal_result).foldl (balanceStep lib k bal_result)
    { quote_currency := k.quote_currency }

/-- One open order. -/
def orderStep (omap : OrderMap) (x : String × Json) : Except Thrown OrderMap := do
  let order ← json_to_order_rest lib k srv x.1 x.2
  return omap.set order

/-- The section of the open orders. -/
def bootstrapOrders : Except Thrown OrderMap := do
  let orders_result ← rest_post_private lib srv "/0/private/OpenOrders" ""
  match member orders_result "open" with
  | .obj orders => (items (.obj orders)).foldlM (orderStep lib k srv) Keyed.empty
  | _ => return Keyed.empty

/-- `safe_stod(tk[key][0].get<std::string>())`, if there is such a list. -/
def tickerPrice (tk : Json) (key : String) : Except Thrown ℚ :=
  match (member tk key).arr? with
  | some (price :: _) => do
    let s ← get_string price
    return safe_stod lib.stod s
  | _ => .ok 0

/-- The ticker of a reply's first entry. -/
def tickerOf (tk : Json) : Except Thrown Cpp.Ticker := do
  let bid ← tickerPrice lib tk "b"
  let ask ← tickerPrice lib tk "a"
  let last ← tickerPrice lib tk "c"
  if bid ≤ 0 ∧ ask ≤ 0 then
    return mean_ticker (last * (999 / 1000)) (last * (1001 / 1000)) last srv.now
  else return mean_ticker bid ask last srv.now

/-- The ticker section, which looks for a result in the result. -/
def bootstrapTicker : Except Thrown (Option Cpp.Ticker) := do
  let tk_result ← rest_get_public lib srv ("/0/public/Ticker?pair=" ++ k.kraken_rest_pair)
  if contains tk_result "result" then
    match (items (member tk_result "result")).head? with
    | some x => do
      let t ← tickerOf lib srv x.2
      return some t
    | none => return none
  else return none

/-- The bootstrap of `KrakenConnector::io_thread_main` (`kraken_connector.cpp:246-308`): what is stored,
and what is thrown, which ends it. Only the open orders may fail. -/
def bootstrap (s : State) : State × Except Thrown Unit :=
  match bootstrapBalance lib k srv with
  | .error e => (s, .error e)
  | .ok bal =>
    let s := { s with latest_balance := bal, balance_ready := true }
    let s :=
      match bootstrapOrders lib k srv with
      | .error _ => s
      | .ok omap => { s with open_orders := omap }
    match bootstrapTicker lib k srv with
    | .error e => (s, .error e)
    | .ok none => (s, .ok ())
    | .ok (some t) => ({ s with latest_ticker := t, ticker_ready := true }, .ok ())

end Calls

/-- What `connect()` waits for. -/
def waitedFor (running : Bool) (s : State) : Bool := (s.ticker_ready && s.balance_ready) || !running

/-! ## What the server sends -/

/-- The reply has this result, and no error. -/
def Answers (lib : Library) (x : Except Thrown HttpResponse) (result : Json) : Prop :=
  ∃ r members, x = .ok r ∧ 200 ≤ r.status ∧ r.status < 300 ∧
    lib.parse r.body = some (.obj members) ∧ Dict.get members "error" = some (.arr []) ∧
    Dict.get members "result" = some result

/-- The member is a text if it is there. -/
def TextIfThere (j : Json) (key : String) : Prop :=
  ∃ members, j = .obj members ∧ ∀ v, Dict.get members key = some v → ∃ s, v = .str s

/-- An order as Kraken lists it. -/
structure Listed (j : Json) : Prop where
  texts : ∀ key ∈ ["vol", "status", "vol_exec", "price", "fee"], TextIfThere j key
  descr : ∀ members, member j "descr" = .obj members →
    ∀ key ∈ ["type", "price"], TextIfThere (.obj members) key

/-- An entry of a ticker reply: lists of which the first items are the prices, and texts. -/
structure Entry (j : Json) (bid ask last : String) : Prop where
  flat : ∃ members, j = .obj members ∧ ∀ m ∈ members, m.2.obj? = none
  bid : ∃ rest, member j "b" = .arr (.str bid :: rest)
  ask : ∃ rest, member j "a" = .arr (.str ask :: rest)
  last : ∃ rest, member j "c" = .arr (.str last :: rest)

/-- What the server sends in a bootstrap. -/
structure Replies (lib : Library) (k : KrakenConnector) where
  balance : Dict
  amounts : ∀ key v, Dict.get balance key = some v → ∃ s, v = .str s
  orders_result : Dict
  open_orders : Dict
  orders_open : Dict.get orders_result "open" = some (.obj open_orders)
  listed : ∀ txid j, Dict.get open_orders txid = some j → Listed j
  ticker : Dict
  pair : String
  bid : String
  ask : String
  last : String
  entry : ∃ j, Dict.get ticker pair = some j ∧ Entry j bid ask last
  entries : ∀ key j, Dict.get ticker key = some j → ∃ bid ask last, Entry j bid ask last
  bid_pos : 0 < safe_stod lib.stod bid
  ask_pos : 0 < safe_stod lib.stod ask

/-- The server sends these replies. -/
structure Sends (lib : Library) (k : KrakenConnector) (srv : Server) (r : Replies lib k) : Prop where
  balance : Answers lib (srv.request "POST" "/0/private/Balance" "") (.obj r.balance)
  orders : Answers lib (srv.request "POST" "/0/private/OpenOrders" "") (.obj r.orders_result)
  ticker : Answers lib (srv.request "GET" ("/0/public/Ticker?pair=" ++ k.kraken_rest_pair) "")
    (.obj r.ticker)

/-! ## What is to be stored -/

section Spec

variable (lib : Library) (k : KrakenConnector)

/-- The amount of an asset that goes by two names. -/
def amountOf (balance : Dict) (name other : String) : ℚ :=
  ((((Dict.get balance name).or (Dict.get balance other)).bind Json.str?).map
    (safe_stod lib.stod)).getD 0

/-- An asset is listed under one of its names at most. -/
def Once (balance : Dict) (name other : String) : Prop :=
  Dict.get balance name = none ∨ Dict.get balance other = none

/-- A text of an order, or its default. -/
def textOf (j : Json) (key fallback : String) : String := (member j key).str?.getD fallback

/-- The order that is listed under this id. -/
def orderOf (now : ℚ) (txid : String) (j : Json) : Cpp.Order :=
  let price :=
    if (member j "descr").obj?.isSome then
      safe_stod lib.stod (textOf (member j "descr") "price" "0") else 0
  let filled := safe_stod lib.stod (textOf j "vol_exec" "0")
  { id := txid
    exchange := "kraken"
    symbol := k.kraken_pair
    side := if (member j "descr").obj?.isSome then textOf (member j "descr") "type" "buy" else ""
    price := price
    amount := safe_stod lib.stod (textOf j "vol" "0")
    amount_usd := price * safe_stod lib.stod (textOf j "vol" "0")
    status := order_status (textOf j "status" "open")
    timestamp := (member j "opentm").num?.getD now
    filled_amount := filled
    filled_price := if 0 < filled then safe_stod lib.stod (textOf j "price" "0") else 0
    fee := safe_stod lib.stod (textOf j "fee" "0")
    fee_currency := k.quote_currency }

variable {lib k}

/-- The balance and the open orders are those of the replies. -/
structure Stored (r : Replies lib k) (now : ℚ) (s : State) : Prop where
  balance_ready : s.balance_ready = true
  usd : Once r.balance (toupper k.quote_currency) ("Z" ++ toupper k.quote_currency) →
    s.latest_balance.usd =
      amountOf lib r.balance (toupper k.quote_currency) ("Z" ++ toupper k.quote_currency)
  token : Once r.balance k.base_token ("X" ++ k.base_token) →
    s.latest_balance.token = amountOf lib r.balance k.base_token ("X" ++ k.base_token)
  quote_currency : s.latest_balance.quote_currency = k.quote_currency
  open_orders : ∀ o, o ∈ s.open_orders ↔
    ∃ txid j, Dict.get r.open_orders txid = some j ∧ o = orderOf lib k now txid j

/-- The ticker is that of the reply. -/
structure Quoted (r : Replies lib k) (s : State) : Prop where
  ticker_ready : s.ticker_ready = true
  bid : s.latest_ticker.bid = safe_stod lib.stod r.bid
  ask : s.latest_ticker.ask = safe_stod lib.stod r.ask
  last : s.latest_ticker.last = safe_stod lib.stod r.last
  mid : s.latest_ticker.mid = (safe_stod lib.stod r.bid + safe_stod lib.stod r.ask) / 2

/-- The bootstrap has made the connector ready, so that `connect()` waits no longer. -/
structure Ready (r : Replies lib k) (now : ℚ) (s : State) : Prop where
  stored : Stored r now s
  quoted : Quoted r s
  returns : waitedFor true s = true

end Spec

/-! ## The envelope -/

variable {lib : Library} {k : KrakenConnector} {srv : Server}

theorem get_member {members : Dict} {key : String} {v : Json} (h : Dict.get members key = some v) :
    contains (.obj members) key = true ∧ member (.obj members) key = v := by
  refine ⟨?_, member_of_get h⟩
  rw [contains, h]
  rfl

/-- **The envelope is peeled once**: what a call returns is the result. -/
theorem unwrap_answers {x : Except Thrown HttpResponse} {result : Json} (h : Answers lib x result)
    (ctx : String) : (x >>= fun r => kraken_unwrap lib r ctx) = .ok result := by
  obtain ⟨r, members, rfl, hlow, hhigh, hparse, herror, hresult⟩ := h
  have hzero : ¬r.status = 0 := by omega
  have hrefused : ¬(r.status < 200 ∨ r.status ≥ 300) := by omega
  rw [ok_bind, kraken_unwrap, if_neg hzero, if_neg hrefused]
  simp only [hparse, (get_member herror).2, Json.arr?, (get_member hresult).1,
    (get_member hresult).2, if_true]

/-! ## The members of an object -/

theorem mem_of_get {members : Dict} {key : String} {v : Json} (h : Dict.get members key = some v) :
    (key, v) ∈ members := by
  induction members with
  | nil => cases h
  | cons m members ih =>
    obtain ⟨name, w⟩ := m
    rw [Dict.get, Option.or_eq_some_iff] at h
    rcases h with h | ⟨-, h⟩
    · exact List.mem_cons_of_mem _ (ih h)
    · obtain ⟨rfl, hv⟩ := Option.ite_none_right_eq_some.mp h
      obtain rfl := Option.some.inj hv
      exact List.mem_cons_self

theorem get_of_mem_names {members : Dict} {key : String} (h : key ∈ names members) :
    ∃ v, Dict.get members key = some v := by
  rw [names, List.mem_insertionSort, List.mem_dedup] at h
  induction members with
  | nil => exact absurd h List.not_mem_nil
  | cons m members ih =>
    obtain ⟨name, w⟩ := m
    rw [Dict.get]
    cases hget : Dict.get members key with
    | some v => exact ⟨v, rfl⟩
    | none =>
      rcases List.mem_cons.mp h with rfl | h
      · exact ⟨w, if_pos rfl⟩
      · obtain ⟨v, hv⟩ := ih h
        rw [hget] at hv
        cases hv

/-- An object is listed by its members. -/
theorem mem_items {members : Dict} {x : String × Json} :
    x ∈ items (.obj members) ↔ Dict.get members x.1 = some x.2 := by
  unfold items
  rw [List.mem_map]
  constructor
  · rintro ⟨key, hkey, rfl⟩
    obtain ⟨v, hv⟩ := get_of_mem_names hkey
    rw [hv, Option.getD_some]
  · intro h
    exact ⟨x.1, mem_names h, by rw [h, Option.getD_some]⟩

theorem nodup_items (members : Dict) : ((items (.obj members)).map Prod.fst).Nodup := by
  have hnames : (items (.obj members)).map Prod.fst = names members := by
    unfold items
    rw [List.map_map]
    exact List.map_id _
  rw [hnames, names, (List.perm_insertionSort _ _).nodup_iff]
  exact List.nodup_dedup _

/-! ## The ticker -/

/-- A value that is no object has no prices. -/
theorem tickerOf_flat {j : Json} (hj : j.obj? = none) :
    tickerOf lib srv j = .ok (mean_ticker 0 0 0 srv.now) := by
  have hprice : ∀ key, tickerPrice lib j key = .ok 0 := by
    intro key
    have hnull : member j key = .null := by
      rw [member, hj]
      rfl
    rw [tickerPrice, hnull]
    rfl
  unfold tickerOf
  simp only [hprice, ok_bind, le_refl, and_self, if_true, zero_mul]
  rfl

/-- **The ticker section stores nothing of the reply**: nothing at all, or, where a pair is called
"result", a ticker without prices. -/
theorem bootstrapTicker_eq {r : Replies lib k} (h : Sends lib k srv r) :
    bootstrapTicker lib k srv = .ok none ∨ Dict.get r.ticker "result" ≠ none ∧
      bootstrapTicker lib k srv = .ok (some (mean_ticker 0 0 0 srv.now)) := by
  have hget : rest_get_public lib srv ("/0/public/Ticker?pair=" ++ k.kraken_rest_pair) =
      .ok (.obj r.ticker) := unwrap_answers h.ticker _
  unfold bootstrapTicker
  rw [hget, ok_bind]
  cases hresult : Dict.get r.ticker "result" with
  | none =>
    have hno : contains (.obj r.ticker) "result" = false := by
      rw [contains, hresult]
      rfl
    left
    rw [hno]
    rfl
  | some j =>
    -- the pair is called "result": its entry is taken for the reply, and a price list for the entry
    obtain ⟨hcontains, hmember⟩ := get_member hresult
    obtain ⟨bid, ask, last, hentry⟩ := r.entries "result" j hresult
    obtain ⟨members, rfl, hflat⟩ := hentry.flat
    rw [if_pos hcontains, hmember]
    cases hhead : (items (.obj members)).head? with
    | none => exact Or.inl rfl
    | some x =>
      refine Or.inr ⟨Option.some_ne_none _, ?_⟩
      have hx : x ∈ items (.obj members) := List.mem_of_mem_head? hhead
      simp only [tickerOf_flat (hflat _ (mem_of_get (mem_items.mp hx))), ok_bind]
      rfl

/-! ## The balance and the orders -/

/-- A field that some items of a list set, all to one value. -/
theorem foldl_field {α β γ : Type} {step : β → α → β} {field : β → γ} {p : α → Prop}
    [DecidablePred p] {v : α → γ} (hstep : ∀ b x, field (step b x) = if p x then v x else field b)
    {c : γ} : ∀ {l : List α} {b : β}, (∀ x ∈ l, p x → v x = c) → (∃ x ∈ l, p x) ∨ field b = c →
      field (l.foldl step b) = c := by
  intro l
  induction l with
  | nil => exact fun _ h => h.elim (fun ⟨_, hx, _⟩ => absurd hx List.not_mem_nil) id
  | cons x l ih =>
    intro b hv h
    refine ih (fun y hy => hv y (List.mem_cons_of_mem _ hy)) ?_
    rw [hstep]
    by_cases hx : p x
    · rw [if_pos hx]
      exact Or.inr (hv x List.mem_cons_self hx)
    · rw [if_neg hx]
      rcases h with ⟨y, hy, hpy⟩ | h
      · rcases List.mem_cons.mp hy with rfl | hy
        · exact absurd hpy hx
        · exact Or.inl ⟨y, hy, hpy⟩
      · exact Or.inr h

theorem amountRead_eq {balance : Dict} {key text : String}
    (h : Dict.get balance key = some (.str text)) :
    amountRead lib (.obj balance) (key, .str text) = safe_stod lib.stod text := by
  have hread : jdbl lib (.obj balance) key = safe_stod lib.stod text := by
    rw [jdbl, (get_member h).2]
  simp only [amountRead, hread]
  split_ifs
  · rfl
  · rfl

theorem amountOf_eq {balance : Dict} {name other key text : String}
    (honce : Once balance name other)
    (hkey : key = name ∨ key = other) (h : Dict.get balance key = some (.str text)) :
    amountOf lib balance name other = safe_stod lib.stod text := by
  have hor : (Dict.get balance name).or (Dict.get balance other) = some (.str text) := by
    rcases hkey with rfl | rfl
    · rw [h]
      rfl
    · rcases honce with hnone | hnone
      · rw [hnone, h]
        rfl
      · rw [hnone] at h
        cases h
  rw [amountOf, hor]
  rfl

/-- **The balance loop** reads the amount of the asset that is listed under one of two names. -/
theorem foldl_amount {balance : Dict} {name other : String}
    {step : Cpp.Balance → String × Json → Cpp.Balance} {field : Cpp.Balance → ℚ} {bal : Cpp.Balance}
    (hstep : ∀ bal x, field (step bal x) =
      if x.1 = name ∨ x.1 = other then amountRead lib (.obj balance) x else field bal)
    (hamounts : ∀ key v, Dict.get balance key = some v → ∃ s, v = .str s)
    (honce : Once balance name other) (hbal : field bal = 0) :
    field ((items (.obj balance)).foldl step bal) = amountOf lib balance name other := by
  refine foldl_field hstep (fun x hx hname => ?_) ?_
  · obtain ⟨key, v⟩ := x
    have hget := mem_items.mp hx
    obtain ⟨text, rfl⟩ := hamounts key v hget
    rw [amountRead_eq hget, amountOf_eq honce hname hget]
  · have hlisted : ∀ key v, key = name ∨ key = other → Dict.get balance key = some v →
        ∃ x ∈ items (.obj balance), x.1 = name ∨ x.1 = other :=
      fun key v hkey hget => ⟨(key, v), mem_items.mpr hget, hkey⟩
    cases hname : Dict.get balance name with
    | some v => exact Or.inl (hlisted name v (Or.inl rfl) hname)
    | none =>
      cases hother : Dict.get balance other with
      | some v => exact Or.inl (hlisted other v (Or.inr rfl) hother)
      | none =>
        right
        rw [hbal, amountOf, hname, hother]
        rfl

theorem bootstrapBalance_eq {r : Replies lib k} (h : Sends lib k srv r) :
    ∃ bal, bootstrapBalance lib k srv = .ok bal ∧
      (Once r.balance (toupper k.quote_currency) ("Z" ++ toupper k.quote_currency) →
        bal.usd = amountOf lib r.balance (toupper k.quote_currency)
          ("Z" ++ toupper k.quote_currency)) ∧
      (Once r.balance k.base_token ("X" ++ k.base_token) →
        bal.token = amountOf lib r.balance k.base_token ("X" ++ k.base_token)) ∧
      bal.quote_currency = k.quote_currency := by
  have hget : rest_post_private lib srv "/0/private/Balance" "" = .ok (.obj r.balance) :=
    unwrap_answers h.balance _
  refine ⟨_, by rw [bootstrapBalance, hget]; rfl, ?_, ?_, ?_⟩
  · refine fun honce => foldl_amount (fun bal x => ?_) r.amounts honce rfl
    simp only [balanceStep]
    split_ifs <;> rfl
  · refine fun honce => foldl_amount (fun bal x => ?_) r.amounts honce rfl
    simp only [balanceStep]
    split_ifs <;> rfl
  · refine foldl_field (p := fun _ => False) (v := fun _ => "") (fun bal x => ?_)
      (fun _ _ => False.elim) (Or.inr rfl)
    simp only [balanceStep, if_false]
    split_ifs <;> rfl

/-! ## The orders -/

theorem value_text {j : Json} {key : String} (h : TextIfThere j key) (fallback : String) :
    value j key fallback = .ok (textOf j key fallback) := by
  obtain ⟨members, rfl, htext⟩ := h
  unfold value textOf
  cases hget : Dict.get members key with
  | none =>
    have hmember : member (.obj members) key = .null := by
      rw [member, Json.obj?, Option.bind_some, hget]
      rfl
    simp only [hget, hmember]
    rfl
  | some v =>
    obtain ⟨s, rfl⟩ := htext v hget
    simp only [hget, (get_member hget).2]
    rfl

/-- The description of a listed order. -/
theorem describe_eq {j : Json} (h : Listed j) :
    describe lib (member j "descr") = .ok
      (if (member j "descr").obj?.isSome then textOf (member j "descr") "type" "buy" else "",
        if (member j "descr").obj?.isSome then
          safe_stod lib.stod (textOf (member j "descr") "price" "0") else 0) := by
  cases hdescr : member j "descr" with
  | obj members =>
    have htext := h.descr members hdescr
    rw [describe, value_text (htext "type" (by decide)), ok_bind,
      value_text (htext "price" (by decide)), ok_bind]
    rfl
  | null => rfl
  | bool b => rfl
  | num q => rfl
  | str s => rfl
  | arr l => rfl

/-- A listed order is converted. -/
theorem json_to_order_rest_eq {j : Json} (h : Listed j) (txid : String) :
    json_to_order_rest lib k srv txid j = .ok (orderOf lib k srv.now txid j) := by
  have htext : ∀ key fallback, key ∈ ["vol", "status", "vol_exec", "price", "fee"] →
      value j key fallback = .ok (textOf j key fallback) :=
    fun key fallback hkey => value_text (h.texts key hkey) fallback
  unfold json_to_order_rest
  rw [describe_eq h, ok_bind, htext "vol" "0" (by decide), ok_bind, htext "status" "open" (by decide),
    ok_bind, htext "vol_exec" "0" (by decide), ok_bind, htext "price" "0" (by decide), ok_bind,
    htext "fee" "0" (by decide), ok_bind]
  rfl

theorem foldlM_orderStep : ∀ {l : List (String × Json)} {omap : OrderMap}, (∀ x ∈ l, Listed x.2) →
    l.foldlM (orderStep lib k srv) omap =
      .ok ((l.map fun x => orderOf lib k srv.now x.1 x.2).foldl Keyed.set omap) := by
  intro l
  induction l with
  | nil => exact fun _ => rfl
  | cons x l ih =>
    intro omap hl
    rw [List.foldlM_cons, orderStep, json_to_order_rest_eq (hl x List.mem_cons_self), ok_bind]
    exact ih fun y hy => hl y (List.mem_cons_of_mem _ hy)

theorem bootstrapOrders_eq {r : Replies lib k} (h : Sends lib k srv r) :
    ∃ omap, bootstrapOrders lib k srv = .ok omap ∧
      ∀ o, o ∈ omap ↔
        ∃ txid j, Dict.get r.open_orders txid = some j ∧ o = orderOf lib k srv.now txid j := by
  have hget : rest_post_private lib srv "/0/private/OpenOrders" "" = .ok (.obj r.orders_result) :=
    unwrap_answers h.orders _
  have hrun : bootstrapOrders lib k srv =
      (items (.obj r.open_orders)).foldlM (orderStep lib k srv) Keyed.empty := by
    rw [bootstrapOrders, hget, ok_bind, (get_member r.orders_open).2]
  have hlisted : ∀ x ∈ items (.obj r.open_orders), Listed x.2 :=
    fun x hx => r.listed x.1 x.2 (mem_items.mp hx)
  refine ⟨_, hrun.trans (foldlM_orderStep hlisted), fun o => ?_⟩
  have hkeys : (((items (.obj r.open_orders)).map fun x =>
      orderOf lib k srv.now x.1 x.2).map Cpp.Order.id).Nodup := by
    rw [List.map_map]
    exact nodup_items r.open_orders
  have hlist := Keyed.toList_ofList hkeys
  rw [Keyed.ofList] at hlist
  rw [Keyed.mem_def, hlist, List.mem_map]
  constructor
  · rintro ⟨x, hx, rfl⟩
    exact ⟨x.1, x.2, mem_items.mp hx, rfl⟩
  · rintro ⟨txid, j, hget, rfl⟩
    exact ⟨(txid, j), mem_items.mpr hget, rfl⟩

/-! ## The bootstrap -/

/-- A bootstrap and the replies it gets. -/
structure Round (lib : Library) (k : KrakenConnector) where
  srv : Server
  replies : Replies lib k
  sends : Sends lib k srv replies

/-- The state after these bootstraps. -/
def bootstrapped (rounds : List (Round lib k)) : State :=
  rounds.foldl (fun s round => (bootstrap lib k round.srv s).1) {}

/-- **What a bootstrap does**: it stores the balance and the orders, and a ticker without prices if
any. -/
theorem bootstrap_eq (round : Round lib k) (s : State) : ∃ bal omap,
    bootstrapBalance lib k round.srv = .ok bal ∧ bootstrapOrders lib k round.srv = .ok omap ∧
    (bootstrap lib k round.srv s =
        ({ s with latest_balance := bal, balance_ready := true, open_orders := omap }, .ok ()) ∨
      Dict.get round.replies.ticker "result" ≠ none ∧
        bootstrap lib k round.srv s =
          ({ s with
              latest_balance := bal, balance_ready := true, open_orders := omap
              latest_ticker := mean_ticker 0 0 0 round.srv.now, ticker_ready := true }, .ok ())) := by
  obtain ⟨bal, hbal, -⟩ := bootstrapBalance_eq round.sends
  obtain ⟨omap, homap, -⟩ := bootstrapOrders_eq round.sends
  refine ⟨bal, omap, hbal, homap, ?_⟩
  unfold bootstrap
  simp only [hbal, homap]
  rcases bootstrapTicker_eq round.sends with hticker | ⟨hpair, hticker⟩
  · left
    simp only [hticker]
  · refine Or.inr ⟨hpair, ?_⟩
    simp only [hticker]

/-- **The balance and the open orders** are stored as they were sent. -/
theorem bootstrap_stored (round : Round lib k) (s : State) :
    Stored round.replies round.srv.now (bootstrap lib k round.srv s).1 := by
  obtain ⟨bal, omap, hbal, homap, hrun⟩ := bootstrap_eq round s
  obtain ⟨bal', hbal', husd, htoken, hquote⟩ := bootstrapBalance_eq round.sends
  obtain ⟨omap', homap', horders⟩ := bootstrapOrders_eq round.sends
  obtain rfl := Except.ok.inj (hbal.symm.trans hbal')
  obtain rfl := Except.ok.inj (homap.symm.trans homap')
  rcases hrun with hrun | ⟨-, hrun⟩
  · rw [hrun]
    exact ⟨rfl, husd, htoken, hquote, horders⟩
  · rw [hrun]
    exact ⟨rfl, husd, htoken, hquote, horders⟩

/-- A ticker that is there has no prices. -/
def Unquoted (s : State) : Prop := s.ticker_ready = true → s.latest_ticker.bid = 0

theorem bootstrap_unquoted (round : Round lib k) {s : State} (hs : Unquoted s) :
    Unquoted (bootstrap lib k round.srv s).1 := by
  obtain ⟨bal, omap, -, -, hrun | ⟨-, hrun⟩⟩ := bootstrap_eq round s
  · rw [hrun]
    exact hs
  · rw [hrun]
    exact fun _ => rfl

theorem foldl_unquoted : ∀ {rounds : List (Round lib k)} {s : State}, Unquoted s →
    Unquoted (rounds.foldl (fun s round => (bootstrap lib k round.srv s).1) s) := by
  intro rounds
  induction rounds with
  | nil => exact id
  | cons round rounds ih => exact fun hs => ih (bootstrap_unquoted round hs)

theorem foldl_waiting : ∀ {rounds : List (Round lib k)} {s : State}, s.ticker_ready = false →
    (∀ round ∈ rounds, Dict.get round.replies.ticker "result" = none) →
    (rounds.foldl (fun s round => (bootstrap lib k round.srv s).1) s).ticker_ready = false := by
  intro rounds
  induction rounds with
  | nil => exact fun hs _ => hs
  | cons round rounds ih =>
    intro s hs hpair
    have hround : (bootstrap lib k round.srv s).1.ticker_ready = false := by
      obtain ⟨bal, omap, -, -, hrun | ⟨hsome, -⟩⟩ := bootstrap_eq round s
      · rw [hrun]
        exact hs
      · exact absurd (hpair round List.mem_cons_self) hsome
    exact ih hround fun round hround => hpair round (List.mem_cons_of_mem _ hround)

/-- With no pair of that name `connect()` goes on waiting. -/
theorem still_waiting {rounds : List (Round lib k)}
    (hpair : ∀ round ∈ rounds, Dict.get round.replies.ticker "result" = none) :
    waitedFor true (bootstrapped rounds) = false := by
  rw [waitedFor, bootstrapped, foldl_waiting rfl hpair]
  rfl

/-- **The bootstrap alone never makes the connector ready**: whatever the replies, and however often it
is run before the first message, the ticker is not that of the reply. -/
theorem never_ready (lib : Library) (k : KrakenConnector) (rounds : List (Round lib k))
    (round : Round lib k) :
    ¬Ready round.replies round.srv.now (bootstrapped (rounds ++ [round])) := by
  intro hready
  have hs : Unquoted (bootstrapped (rounds ++ [round])) := foldl_unquoted (fun h => nomatch h)
  have hbid := hready.quoted.bid
  rw [hs hready.quoted.ticker_ready] at hbid
  exact absurd round.replies.bid_pos (hbid ▸ lt_irrefl 0)

/-! ## What `connect()` makes of it -/

section Threads

open ConnectJoin (IoPc Act Handler Step Stage step_of_next)
open Run (Reaches Fires)

/-- The ticker section finds nothing to store, and no message has a ticker. -/
def NoPush (s : ConnectJoin.State) : Act → Prop
  | .reply r => r = .stores → ∀ stages, s.io ≠ .calling (.ticker :: stages)
  | .message hs => Handler.ticker ∉ hs
  | _ => True

/-- The io thread is not about to store a ticker. -/
def TickerFree : IoPc → Prop
  | .storing st _ | .stored st _ => st ≠ .ticker
  | .handling h hs _ | .handled h hs _ => h ≠ .ticker ∧ Handler.ticker ∉ hs
  | _ => True

/-- There is no ticker, and `connect()` has not returned because of one. -/
structure Tickerless (s : ConnectJoin.State) : Prop where
  ticker : s.ticker_ready = false
  connected : s.connected = false
  returned : s.conn = .returned true → s.running = false
  io : TickerFree s.io

variable {C : ConnectJoin.Connector} {s s' : ConnectJoin.State}

theorem tickerFree_of_out {io : IoPc} (ho : io.holds = false) (hw : io.wants = false) :
    TickerFree io := by
  cases io with
  | storing | handling => cases hw
  | stored | handled => cases ho
  | none | outer | calling | inner | polling | caught => trivial

theorem tickerFree_dispatch {hs : List Handler} (h : Handler.ticker ∉ hs) (n : ℕ) :
    TickerFree (IoPc.dispatch n hs) := by
  cases hs with
  | nil => exact tickerFree_of_out (ConnectJoin.holds_dispatch n []) (ConnectJoin.wants_dispatch_nil n)
  | cons hd hs =>
    rw [List.mem_cons, not_or] at h
    exact ⟨Ne.symm h.1, h.2⟩

theorem tickerFree_proceed (stages : List Stage) : TickerFree (IoPc.proceed stages) :=
  tickerFree_of_out (ConnectJoin.holds_proceed stages) (ConnectJoin.wants_proceed stages)

/-- **One step** without a pushed ticker leaves the connector without one: no bootstrap stores any.
-/
theorem tickerless_step {a : Act} (h : Tickerless s) (hc : NoPush s a)
    (hnext : ConnectJoin.next C s a = some s') : Tickerless s' := by
  have hs := step_of_next hnext
  cases hs with
  | refuse => exact h
  | call => exact ⟨h.ticker, h.connected, (fun hret => nomatch hret), trivial⟩
  | lock | wake | relock | block | giveUp | join =>
    exact ⟨h.ticker, h.connected, (fun hret => nomatch hret), h.io⟩
  | test timed_out ok hconn =>
    refine ⟨h.ticker, h.connected, fun hret => ?_, h.io⟩
    have hready := ConnectJoin.ready_of_test hnext hret
    simp only [ConnectJoin.State.ready, h.ticker, Bool.false_and, Bool.false_or] at hready
    exact (Bool.not_eq_true' _).mp hready
  | finish hconn hrun => exact absurd hrun (by rw [h.returned hconn]; decide)
  | stop => exact ⟨h.ticker, rfl, fun _ => rfl, h.io⟩
  | outer _ _ ho hw | inner _ _ ho hw | catches _ _ ho hw =>
    exact ⟨h.ticker, h.connected, h.returned, tickerFree_of_out ho hw⟩
  | fetched st stages hio =>
    have hst : st ≠ .ticker := by
      rintro rfl
      exact hc rfl stages hio
    exact ⟨h.ticker, h.connected, h.returned, hst⟩
  | skip _ _ stages => exact ⟨h.ticker, h.connected, h.returned, tickerFree_proceed stages⟩
  | fail | throws | throwsHeld => exact ⟨h.ticker, h.connected, h.returned, trivial⟩
  | store st stages hio | handle hd hds n hio =>
    have hfree := h.io
    rw [hio] at hfree
    exact ⟨h.ticker, h.connected, h.returned, hfree⟩
  | stored st stages hio =>
    have hst : st ≠ .ticker := by
      have hfree := h.io
      rwa [hio] at hfree
    have hfree := tickerFree_proceed stages
    cases st with
    | ticker => exact absurd rfl hst
    | credentials | balance | orders | token | ws =>
      exact ⟨h.ticker, h.connected, h.returned, hfree⟩
  | message hds n => exact ⟨h.ticker, h.connected, h.returned, tickerFree_dispatch hc n⟩
  | handled hd hds n hio =>
    have hfree := h.io
    rw [hio] at hfree
    have hrest := tickerFree_dispatch hfree.2 n
    cases hd with
    | ticker => exact absurd rfl hfree.1
    | order | balance | snapshot => exact ⟨h.ticker, h.connected, h.returned, hrest⟩

/-- **`connect()` does not return without a push**: in no run in which the ticker section finds nothing
to store and no message has a ticker does it come to be connected. -/
theorem not_connected (h : Reaches (Fires (ConnectJoin.next .kraken)) NoPush ConnectJoin.init s) :
    s.connected = false :=
  (h.inv (I := Tickerless) ⟨rfl, rfl, (fun hret => nomatch hret), trivial⟩
    fun _ _ _ hi hc hs => tickerless_step hi hc hs).connected

end Threads

/-! ## An illiquid pair -/

theorem textIfThere {members : Dict} {key : String}
    (h : ((Dict.get members key).getD (.str "")).str?.isSome = true) :
    TextIfThere (.obj members) key := by
  refine ⟨members, rfl, fun v hget => ?_⟩
  rw [hget, Option.getD_some] at h
  cases v with
  | str s => exact ⟨s, rfl⟩
  | _ => cases h

/-- The reply of `/0/private/Balance`. -/
def balanceText : String :=
  "\x7b\"error\":[],\"result\":\x7b\"ZUSD\":\"100.50\",\"ALKIMI\":\"2000\"\x7d\x7d"

def balanceResult : Dict := [("ZUSD", .str "100.50"), ("ALKIMI", .str "2000")]

/-- The reply of `/0/private/OpenOrders`. -/
def ordersText : String :=
  "\x7b\"error\":[],\"result\":\x7b\"open\":\x7b\"O1\":\x7b\"descr\":\x7b\"type\":\"buy\"," ++
    "\"price\":\"0.05\"\x7d,\"vol\":\"10\",\"opentm\":900\x7d\x7d\x7d\x7d"

def orderJson : Json :=
  .obj [("descr", .obj [("type", .str "buy"), ("price", .str "0.05")]), ("vol", .str "10"),
    ("opentm", .num 900)]

/-- The reply of `/0/public/Ticker`. -/
def tickerText : String :=
  "\x7b\"error\":[],\"result\":\x7b\"ALKIMIUSD\":\x7b\"a\":[\"0.06\"],\"b\":[\"0.05\"]," ++
    "\"c\":[\"0.055\"]\x7d\x7d\x7d"

def entryJson : Json :=
  .obj [("a", .arr [.str "0.06"]), ("b", .arr [.str "0.05"]), ("c", .arr [.str "0.055"])]

/-- The envelope of a result. -/
def envelope (result : Json) : Json := .obj [("error", .arr []), ("result", result)]

/-- The libraries, as far as these replies need them. -/
def library : Library where
  stod := fun s => some (FixedPoint.read s)
  parse := fun s =>
    if s = balanceText then some (envelope (.obj balanceResult))
    else if s = ordersText then some (envelope (.obj [("open", .obj [("O1", orderJson)])]))
    else if s = tickerText then some (envelope (.obj [("ALKIMIUSD", entryJson)]))
    else none
  dump := fun _ => ""

def connector : KrakenConnector := KrakenConnector.make "ALKIMI/USD" "USD"

/-- A server with one open order and a pair that is hardly traded. -/
def server : Server where
  request := fun _ path _ =>
    .ok ⟨200,
      if path = "/0/private/Balance" then balanceText
      else if path = "/0/private/OpenOrders" then ordersText
      else tickerText⟩
  now := 1000

theorem entry_json : Entry entryJson "0.05" "0.06" "0.055" where
  flat := ⟨_, rfl, by simp [Json.obj?]⟩
  bid := ⟨[], rfl⟩
  ask := ⟨[], rfl⟩
  last := ⟨[], rfl⟩

theorem listed_orderJson : Listed orderJson where
  texts := by
    intro key hkey
    simp only [List.mem_cons, List.not_mem_nil, or_false] at hkey
    rcases hkey with rfl | rfl | rfl | rfl | rfl <;> exact textIfThere rfl
  descr := by
    intro members hmembers key hkey
    obtain rfl := Json.obj.inj hmembers
    rcases List.mem_pair.mp hkey with rfl | rfl <;> exact textIfThere rfl

/-- The only member of an object. -/
theorem get_singleton {name key : String} {v j : Json} (h : Dict.get [(name, v)] key = some j) :
    j = v := by
  obtain ⟨-, rfl⟩ := Prod.mk.inj (List.mem_singleton.mp (mem_of_get h))
  rfl

def replies : Replies library connector where
  balance := balanceResult
  amounts := by
    intro key v hget
    rcases List.mem_pair.mp (mem_of_get hget) with hm | hm
    · exact ⟨_, (Prod.mk.inj hm).2⟩
    · exact ⟨_, (Prod.mk.inj hm).2⟩
  orders_result := [("open", .obj [("O1", orderJson)])]
  open_orders := [("O1", orderJson)]
  orders_open := rfl
  listed := by
    intro txid j hget
    rw [get_singleton hget]
    exact listed_orderJson
  ticker := [("ALKIMIUSD", entryJson)]
  pair := "ALKIMIUSD"
  bid := "0.05"
  ask := "0.06"
  last := "0.055"
  entry := ⟨entryJson, rfl, entry_json⟩
  entries := by
    intro key j hget
    rw [get_singleton hget]
    exact ⟨_, _, _, entry_json⟩
  bid_pos := by decide +kernel
  ask_pos := by decide +kernel

theorem sends_replies : Sends library connector server replies where
  balance := ⟨_, _, rfl, by decide, by decide, rfl, rfl, rfl⟩
  orders := ⟨_, _, rfl, by decide, by decide, rfl, rfl, rfl⟩
  ticker := ⟨_, _, rfl, by decide, by decide, rfl, rfl, rfl⟩

def round : Round library connector := ⟨server, replies, sends_replies⟩

theorem never_ready_round :
    ¬Ready round.replies round.srv.now (bootstrapped ([] ++ [round])) :=
  never_ready library connector [] round

/-- **The bootstrap of an illiquid pair**: the reply has a bid and an ask, and no ticker is stored. -/
theorem waits_for_push :
    0 < safe_stod library.stod round.replies.bid ∧ 0 < safe_stod library.stod round.replies.ask ∧
      (bootstrapped [round]).balance_ready = true ∧ (bootstrapped [round]).ticker_ready = false ∧
      waitedFor true (bootstrapped [round]) = false ∧
      ¬Ready round.replies round.srv.now (bootstrapped [round]) := by
  have hticker : (bootstrapped [round]).ticker_ready = false := by decide +kernel
  refine ⟨by decide +kernel, by decide +kernel, by decide +kernel, hticker, by decide +kernel, ?_⟩
  intro hready
  have htrue := hready.quoted.ticker_ready
  rw [hticker] at htrue
  cases htrue

end Meridian.KrakenBootstrap
