import Mathlib.Data.List.GetD
import Mathlib.Data.List.Sort
import Meridian.Core.GlobalMid
import Meridian.Lib.Codec
import Meridian.Quant.CandleBuffer

/-!
# The KuCoin and Kraken connectors: `fetch_candles`

Model of `kucoin_connector.cpp:479-507, 561-570` and `kraken_connector.cpp:608-653, 718-727`. Neither
request carries the limit, so each connector cuts what the server sends. KuCoin lists the newest row
first and the loop goes down from the last one; Kraken lists the oldest row first and the loop goes up:
both stop with the oldest rows in hand.

The server is a function of the path, `std::stod` and `json::dump` are parameters, and an `int` that
counts rows is an integer.

Results:
* `oldest_returned`: with more rows than the limit, both return old candles and leave out the newest;
* `fetches_newest_iff`: what is returned are the newest candles exactly if there are at most `limit`
  rows.
-/

namespace Meridian.Candles

open GlobalMid (safe_stod)

/-! ## JSON -/

/-- What a call throws: a `std::runtime_error` with its text, or a `type_error` of the JSON library. -/
inductive Thrown where
  | runtime_error (what : String)
  | type_error (id : ℕ)

/-- `HttpResponse`, with the body as `json::parse` reads it: `none` if it is discarded. -/
structure HttpResponse where
  status : ℤ
  body : Option Json

/-- `j[key]`, where a missing member is null. -/
def member (j : Json) (key : String) : Json :=
  (j.obj?.bind fun members => Dict.get members key).getD .null

/-- `j.value(key, fallback)` for a text. -/
def value (j : Json) (key fallback : String) : Except Thrown String :=
  match j with
  | .obj members =>
    match Dict.get members key with
    | none => .ok fallback
    | some (.str s) => .ok s
    | some _ => .error (.type_error 302)
  | _ => .error (.type_error 306)

/-- `j.get<std::string>()` -/
def get_string : Json → Except Thrown String
  | .str s => .ok s
  | _ => .error (.type_error 302)

/-- `j[i]`: a list is filled up with nulls, and null becomes a list. -/
def index (j : Json) (i : ℕ) : Except Thrown Json :=
  match j with
  | .arr items => .ok (items.getD i .null)
  | .null => .ok .null
  | _ => .error (.type_error 305)

/-- The names of an object, in the order of a `std::map`. -/
def names (members : Dict) : List String := (members.map Prod.fst).dedup.insertionSort (· ≤ ·)

/-- `j.size()` -/
def size : Json → ℕ
  | .null => 0
  | .arr items => items.length
  | .obj members => (names members).length
  | _ => 1

/-- `j.items()`: the positions of a list are its names, and a single value has none. -/
def items : Json → List (String × Json)
  | .null => []
  | .arr l => l.zipIdx.map fun x => (toString x.2, x.1)
  | .obj members => (names members).map fun key => (key, (Dict.get members key).getD .null)
  | j => [("", j)]

/-! ## KuCoin -/

variable (stod : String → Option ℚ) (dump : Json → String) (server : String → HttpResponse)

/-- `KuCoinConnector::map_timeframe` (`kucoin_connector.cpp:561-570`). -/
def kucoin_map_timeframe (tf : String) : String :=
  (List.lookup tf
    [("1m", "1min"), ("3m", "3min"), ("5m", "5min"), ("15m", "15min"), ("30m", "30min"),
      ("1h", "1hour"), ("2h", "2hour"), ("4h", "4hour"), ("6h", "6hour"), ("8h", "8hour"),
      ("12h", "12hour"), ("1d", "1day"), ("1w", "1week")]).getD "1min"

/-- What KuCoin is asked for. -/
def kucoin_path (symbol timeframe : String) : String :=
  "/api/v1/market/candles?" ++ "type=" ++ kucoin_map_timeframe timeframe ++ "&symbol=" ++ symbol

/-- `safe_stod(row[i].get<std::string>())` -/
def kucoin_column (row : Json) (i : ℕ) : Except Thrown ℚ := do
  let j ← index row i
  let s ← get_string j
  return safe_stod stod s

/-- A row is [time, open, close, high, low, volume]. -/
def kucoin_candle (row : Json) : Except Thrown Candle := do
  let timestamp ← kucoin_column stod row 0
  let open_ ← kucoin_column stod row 1
  let close ← kucoin_column stod row 2
  let high ← kucoin_column stod row 3
  let low ← kucoin_column stod row 4
  let volume ← kucoin_column stod row 5
  return ⟨timestamp, open_, high, low, close, volume⟩

/-- The loop over the rows below this one, down to `start`. -/
def kucoin_loop (rows : Json) (start : ℤ) : ℕ → List Candle → Except Thrown (List Candle)
  | 0, candles => .ok candles
  | i + 1, candles =>
    if start ≤ i then do
      let row ← index rows i
      let c ← kucoin_candle stod row
      kucoin_loop rows start i (candles ++ [c])
    else .ok candles

/-- `KuCoinConnector::fetch_candles` (`kucoin_connector.cpp:479-507`). -/
def kucoin_fetch_candles (symbol timeframe : String) (limit : ℤ) : Except Thrown (List Candle) :=
  let resp := server (kucoin_path symbol timeframe)
  if resp.status < 200 ∨ resp.status ≥ 300 then
    .error (.runtime_error ("fetch_candles: HTTP " ++ toString resp.status))
  else
    match resp.body with
    | none => .error (.runtime_error "fetch_candles: JSON parse error")
    | some j => do
      let code ← value j "code" ""
      if code = "200000" then
        let rows := member j "data"
        let n := size rows
        kucoin_loop stod rows (max 0 (n - limit)) n []
      else
        let code ← value j "code" "?"
        .error (.runtime_error ("fetch_candles: code=" ++ code))

/-! ## Kraken -/

/-- `KrakenConnector::map_timeframe` (`kraken_connector.cpp:718-727`). -/
def kraken_map_timeframe (tf : String) : String :=
  (List.lookup tf
    [("1m", "1"), ("5m", "5"), ("15m", "15"), ("30m", "30"), ("1h", "60"), ("4h", "240"),
      ("1d", "1440"), ("1w", "10080")]).getD "1"

/-- What Kraken is asked for. -/
def kraken_path (kraken_rest_pair timeframe : String) : String :=
  "/0/public/OHLC?pair=" ++ kraken_rest_pair ++ "&interval=" ++ kraken_map_timeframe timeframe

/-- The time of a row. -/
def kraken_time : Json → Except Thrown ℚ
  | .num q => .ok q
  | j => do
    let s ← get_string j
    return safe_stod stod s

/-- `col` -/
def kraken_column : Json → ℚ
  | .str s => safe_stod stod s
  | .num q => q
  | _ => 0

/-- A row is [time, open, high, low, close, vwap, volume, count]. -/
def kraken_candle (row : List Json) : Except Thrown Candle := do
  let timestamp ← kraken_time stod (row.getD 0 .null)
  let col (i : ℕ) := kraken_column stod (row.getD i .null)
  return ⟨timestamp, col 1, col 2, col 3, col 4, col 6⟩

/-- The loop over the rows. -/
def kraken_loop (limit : ℤ) : List Json → List Candle → Except Thrown (List Candle)
  | [], candles => .ok candles
  | .arr row :: rows, candles =>
    if row.length < 7 then kraken_loop limit rows candles
    else do
      let c ← kraken_candle stod row
      let candles := candles ++ [c]
      if limit ≤ candles.length then .ok candles else kraken_loop limit rows candles
  | _ :: rows, candles => kraken_loop limit rows candles

/-- The first list of the result that is not called "last". -/
def candle_arr (result : Json) : Option (List Json) :=
  (items result).findSome? fun x => if x.1 ≠ "last" then x.2.arr? else none

/-- `KrakenConnector::fetch_candles` (`kraken_connector.cpp:608-653`). -/
def kraken_fetch_candles (kraken_rest_pair timeframe : String) (limit : ℤ) :
    Except Thrown (List Candle) :=
  let resp := server (kraken_path kraken_rest_pair timeframe)
  if resp.status < 200 ∨ resp.status ≥ 300 then
    .error (.runtime_error ("fetch_candles: HTTP " ++ toString resp.status))
  else
    match resp.body with
    | none => .error (.runtime_error "fetch_candles: JSON parse error")
    | some j =>
      match (member j "error").arr? with
      | some (error :: _) =>
        .error (.runtime_error ("fetch_candles: Kraken error: " ++ dump error))
      | _ =>
        match candle_arr (member j "result") with
        | none => .ok []
        | some rows => kraken_loop stod limit rows []

/-! ## What the servers send -/

/-- A row of KuCoin and the candle it is about. -/
inductive KucoinRow : Json → Candle → Prop
  | row (time opened closed high low volume : String) (rest : List Json) :
    KucoinRow (.arr (.str time :: .str opened :: .str closed :: .str high :: .str low ::
        .str volume :: rest))
      ⟨safe_stod stod time, safe_stod stod opened, safe_stod stod high, safe_stod stod low,
        safe_stod stod closed, safe_stod stod volume⟩

/-- A number, also one that is sent as a text. -/
inductive Number : Json → ℚ → Prop
  | num (q : ℚ) : Number (.num q) q
  | str (s : String) : Number (.str s) (safe_stod stod s)

/-- A row of Kraken and the candle it is about. -/
inductive KrakenRow : Json → Candle → Prop
  | row {time opened high low closed vwap volume : Json} {c : Candle} (rest : List Json)
    (htime : Number stod time c.timestamp) (hopen : Number stod opened c.open)
    (hhigh : Number stod high c.high) (hlow : Number stod low c.low)
    (hclose : Number stod closed c.close) (hvolume : Number stod volume c.volume) :
    KrakenRow (.arr (time :: opened :: high :: low :: closed :: vwap :: volume :: rest)) c

/-- The reply was answered, with this object. -/
def Answered (resp : HttpResponse) (members : Dict) : Prop :=
  200 ≤ resp.status ∧ resp.status < 300 ∧ resp.body = some (.obj members)

/-- A reply of KuCoin that lists these candles, the newest first. -/
def KucoinReply (resp : HttpResponse) (candles : List Candle) : Prop :=
  ∃ members rows, Answered resp members ∧ Dict.get members "code" = some (.str "200000") ∧
    Dict.get members "data" = some (.arr rows) ∧
    List.Forall₂ (KucoinRow stod) rows candles.reverse

/-- A reply of Kraken that lists these candles under the name of the pair, the oldest first. -/
def KrakenReply (resp : HttpResponse) (candles : List Candle) : Prop :=
  ∃ members result pair rows, Answered resp members ∧ Dict.get members "error" = some (.arr []) ∧
    Dict.get members "result" = some (.obj result) ∧ pair ≠ "last" ∧
    Dict.get result pair = some (.arr rows) ∧
    (∀ key, key ≠ pair → key ≠ "last" → Dict.get result key = none) ∧
    List.Forall₂ (KrakenRow stod) rows candles

/-- The two connectors. -/
inductive Venue where
  | kucoin
  | kraken

/-- The path that the connector asks for. -/
def Venue.path : Venue → String → String → String
  | .kucoin => kucoin_path
  | .kraken => kraken_path

/-- The reply lists these candles, in the order in which this server does. -/
def Venue.Reply : Venue → HttpResponse → List Candle → Prop
  | .kucoin => KucoinReply stod
  | .kraken => KrakenReply stod

/-- `fetch_candles` of the connector. -/
def Venue.fetch_candles : Venue → String → String → ℤ → Except Thrown (List Candle)
  | .kucoin => kucoin_fetch_candles stod server
  | .kraken => kraken_fetch_candles stod dump server

/-- `out` is the last `limit` of these candles, or all if there are fewer, in ascending order. -/
structure Newest (limit : ℤ) (candles out : List Candle) : Prop where
  ascending : Ascending out
  length : (out.length : ℤ) = min limit candles.length
  listed : ∀ c ∈ out, c ∈ candles
  newest : ∀ c ∈ candles, c ∉ out → ∀ c' ∈ out, c.timestamp < c'.timestamp

/-! ## What the loops return -/

variable {stod}

theorem ok_bind {α β : Type} (a : α) (f : α → Except Thrown β) : (Except.ok a >>= f) = f a := rfl

theorem kucoin_candle_eq {row : Json} {c : Candle} (h : KucoinRow stod row c) :
    kucoin_candle stod row = .ok c := by
  cases h
  rfl

/-- The loop that goes down turns the rows from `start` on around. -/
theorem kucoin_loop_eq {rows : List Json} {listed : List Candle}
    (h : List.Forall₂ (KucoinRow stod) rows listed) (start : ℕ) :
    ∀ {k : ℕ} (candles : List Candle), k ≤ rows.length →
      kucoin_loop stod (.arr rows) start k candles =
        .ok (candles ++ ((listed.take k).drop start).reverse)
  | 0, candles, _ => by simp [kucoin_loop]
  | i + 1, candles, hi => by
    have hlisted : i < listed.length := h.length_eq ▸ hi
    have hrow : KucoinRow stod (rows.getD i .null) listed[i] := by
      rw [List.getD_eq_getElem _ _ hi]
      exact h.get hi hlisted
    simp only [kucoin_loop, Nat.cast_le]
    split
    · rename_i hstart
      rw [index, ok_bind, kucoin_candle_eq hrow, ok_bind,
        kucoin_loop_eq h start _ (Nat.le_of_succ_le hi), List.take_add_one,
        List.getElem?_eq_getElem hlisted, Option.toList_some, List.drop_append_of_le_length,
        List.reverse_append, List.reverse_singleton, List.append_assoc]
      rw [List.length_take]
      omega
    · rename_i hstart
      rw [List.drop_eq_nil_of_le, List.reverse_nil, List.append_nil]
      rw [List.length_take]
      omega

theorem kraken_time_eq {j : Json} {q : ℚ} (h : Number stod j q) : kraken_time stod j = .ok q := by
  cases h <;> rfl

theorem kraken_column_eq {j : Json} {q : ℚ} (h : Number stod j q) : kraken_column stod j = q := by
  cases h <;> rfl

theorem kraken_candle_eq {row : List Json} {c : Candle} (h : KrakenRow stod (.arr row) c) :
    7 ≤ row.length ∧ kraken_candle stod row = .ok c := by
  cases h with
  | row rest htime hopen hhigh hlow hclose hvolume =>
    refine ⟨Nat.le_add_left 7 rest.length, ?_⟩
    rw [kraken_candle, List.getD_cons_zero, kraken_time_eq htime, ok_bind]
    simp only [List.getD_cons_succ, List.getD_cons_zero, kraken_column_eq hopen,
      kraken_column_eq hhigh, kraken_column_eq hlow, kraken_column_eq hclose,
      kraken_column_eq hvolume]
    rfl

/-- The loop that goes up stops at the limit. -/
theorem kraken_loop_eq {limit : ℕ} :
    ∀ {rows : List Json} {listed candles : List Candle}, List.Forall₂ (KrakenRow stod) rows listed →
      candles.length < limit →
      kraken_loop stod limit rows candles =
        .ok (candles ++ listed.take (limit - candles.length))
  | [], [], candles, .nil, _ => by rw [kraken_loop, List.take_nil, List.append_nil]
  | row :: rows, c :: listed, candles, .cons hrow hrows, hlimit => by
    obtain ⟨row, rfl⟩ : ∃ items, row = .arr items := by
      cases hrow
      exact ⟨_, rfl⟩
    obtain ⟨hlen, hcandle⟩ := kraken_candle_eq hrow
    have hone : limit - candles.length = limit - (candles ++ [c]).length + 1 := by
      rw [List.length_append, List.length_singleton]
      omega
    rw [kraken_loop, if_neg hlen.not_gt, hcandle, ok_bind, hone, List.take_succ_cons]
    rcases le_or_gt limit (candles ++ [c]).length with h | h
    · rw [if_pos (by exact_mod_cast h), Nat.sub_eq_zero_of_le h, List.take_zero]
    · rw [if_neg (by exact_mod_cast h.not_ge), kraken_loop_eq hrows h, List.append_assoc,
        List.singleton_append]

theorem mem_names {members : Dict} {key : String} {j : Json} (h : Dict.get members key = some j) :
    key ∈ names members := by
  rw [names, List.mem_insertionSort, List.mem_dedup]
  induction members with
  | nil => cases h
  | cons m members ih =>
    obtain ⟨k, v⟩ := m
    rw [Dict.get, Option.or_eq_some_iff] at h
    rcases h with h | ⟨-, h⟩
    · exact List.mem_cons_of_mem _ (ih h)
    · split at h
      · rename_i hk
        exact hk ▸ List.mem_cons_self
      · cases h

/-- The one list that is not called "last" is found. -/
theorem candle_arr_eq {result : Dict} {pair : String} {rows : List Json} (hpair : pair ≠ "last")
    (hrows : Dict.get result pair = some (.arr rows))
    (hother : ∀ key, key ≠ pair → key ≠ "last" → Dict.get result key = none) :
    candle_arr (.obj result) = some rows := by
  unfold candle_arr items
  rw [List.findSome?_map]
  cases hfound : (names result).findSome? _ with
  | none =>
    have hnone := List.findSome?_eq_none_iff.mp hfound pair (mem_names hrows)
    rw [Function.comp_apply, if_pos hpair, hrows] at hnone
    cases hnone
  | some found =>
    obtain ⟨key, -, hkey⟩ := List.exists_of_findSome?_eq_some hfound
    rw [Function.comp_apply] at hkey
    split at hkey
    · rename_i hlast
      by_cases hk : key = pair
      · rw [hk, hrows] at hkey
        exact hkey.symm
      · rw [hother key hk hlast] at hkey
        cases hkey
    · cases hkey

/-! ## What is returned -/

variable {dump server}

theorem Answered.not_refused {resp : HttpResponse} {members : Dict} (h : Answered resp members) :
    ¬(resp.status < 200 ∨ resp.status ≥ 300) := fun hrefused =>
  hrefused.elim h.1.not_gt h.2.1.not_ge

theorem member_of_get {members : Dict} {key : String} {j : Json} (h : Dict.get members key = some j) :
    member (.obj members) key = j := by
  rw [member, Json.obj?, Option.bind_some, h, Option.getD_some]

theorem kucoin_fetch_candles_eq {symbol timeframe : String} {limit : ℕ} {candles : List Candle}
    (hreply : KucoinReply stod (server (kucoin_path symbol timeframe)) candles) :
    kucoin_fetch_candles stod server symbol timeframe limit = .ok (candles.take limit) := by
  obtain ⟨members, rows, hanswered, hcode, hdata, hrows⟩ := hreply
  have hlen : candles.length = rows.length := by rw [hrows.length_eq, List.length_reverse]
  have hstart : max 0 ((rows.length : ℤ) - (limit : ℤ)) = ((rows.length - limit : ℕ) : ℤ) := by
    omega
  have hvalue : value (.obj members) "code" "" = .ok "200000" := by rw [value, hcode]
  rw [kucoin_fetch_candles, if_neg hanswered.not_refused]
  simp only [hanswered.2.2, hvalue, ok_bind, if_true, member_of_get hdata, size, hstart]
  -- all rows but the newest `rows - limit`, the other way around
  rw [kucoin_loop_eq hrows _ _ le_rfl, List.nil_append, List.take_of_length_le hrows.length_eq.ge,
    List.drop_reverse, List.reverse_reverse, hlen]
  congr 1
  rcases le_total limit rows.length with h | h
  · rw [Nat.sub_sub_self h]
  · rw [Nat.sub_eq_zero_of_le h, Nat.sub_zero, ← hlen, List.take_length,
      List.take_of_length_le (hlen ▸ h)]

theorem kraken_fetch_candles_eq {pair timeframe : String} {limit : ℕ} {candles : List Candle}
    (hlimit : 1 ≤ limit)
    (hreply : KrakenReply stod (server (kraken_path pair timeframe)) candles) :
    kraken_fetch_candles stod dump server pair timeframe limit = .ok (candles.take limit) := by
  obtain ⟨members, result, name, rows, hanswered, herror, hresult, hname, hpair, hother, hrows⟩ :=
    hreply
  have harr := candle_arr_eq hname hpair hother
  rw [kraken_fetch_candles, if_neg hanswered.not_refused]
  simp only [hanswered.2.2, member_of_get herror, member_of_get hresult, harr, Json.arr?]
  rw [kraken_loop_eq hrows (by exact hlimit), List.nil_append, List.length_nil, Nat.sub_zero]

/-- Both connectors return the oldest candles of the reply, up to the limit. -/
theorem fetch_candles_eq {venue : Venue} {symbol timeframe : String} {limit : ℕ}
    {candles : List Candle} (hlimit : 1 ≤ limit)
    (hreply : venue.Reply stod (server (venue.path symbol timeframe)) candles) :
    venue.fetch_candles stod dump server symbol timeframe limit = .ok (candles.take limit) := by
  cases venue with
  | kucoin => exact kucoin_fetch_candles_eq hreply
  | kraken => exact kraken_fetch_candles_eq hlimit hreply

/-- The oldest candles are the newest ones exactly if they are all. -/
theorem newest_take_iff {limit : ℕ} {candles : List Candle} (hlimit : 1 ≤ limit)
    (hcandles : Ascending candles) :
    Newest limit candles (candles.take limit) ↔ candles.length ≤ limit := by
  constructor
  · intro h
    by_contra hlong
    rw [not_le] at hlong
    have hdrop := List.drop_eq_getElem_cons hlong
    have hfirst : candles[0] ∈ candles.take limit := by
      rw [List.mem_take_iff_getElem]
      exact ⟨0, by omega, rfl⟩
    -- the first one left out is newer than the first one returned
    have hlt : candles[0].timestamp < candles[limit].timestamp :=
      List.pairwise_iff_getElem.mp hcandles 0 limit (by omega) hlong (by omega)
    refine hlt.not_gt (h.newest _ (List.getElem_mem hlong) (fun hmem => ?_) _ hfirst)
    obtain ⟨i, hi, heq⟩ := List.mem_take_iff_getElem.mp hmem
    have hnot := List.pairwise_iff_getElem.mp hcandles i limit (by omega) hlong (by omega)
    exact absurd (congrArg Candle.timestamp heq) hnot.ne
  · intro h
    rw [List.take_of_length_le h]
    exact ⟨hcandles, (min_eq_right (by exact_mod_cast h)).symm, fun _ hc => hc,
      fun c hc hnot => absurd hc hnot⟩

variable (stod dump server)

/-- **The newest candles are returned**, by KuCoin and by Kraken, exactly if the reply has no more
rows than the limit: of a longer one both keep the oldest. -/
theorem fetches_newest_iff (venue : Venue) (symbol timeframe : String) {limit : ℤ}
    {candles : List Candle} (hlimit : 1 ≤ limit) (hcandles : Ascending candles)
    (hreply : venue.Reply stod (server (venue.path symbol timeframe)) candles) :
    (∃ out, venue.fetch_candles stod dump server symbol timeframe limit = .ok out ∧
      Newest limit candles out) ↔ candles.length ≤ limit := by
  lift limit to ℕ using by omega
  have hlimit : 1 ≤ limit := by exact_mod_cast hlimit
  rw [fetch_candles_eq hlimit hreply, Nat.cast_le, ← newest_take_iff hlimit hcandles]
  constructor
  · rintro ⟨out, hout, hnewest⟩
    exact Except.ok.inj hout ▸ hnewest
  · exact fun h => ⟨_, rfl, h⟩

/-- A reader of the numbers below. -/
def readSmall (s : String) : Option ℚ :=
  List.lookup s [("1", 1), ("60", 60), ("120", 120), ("180", 180)]

/-- A candle in which the price stays at 1. -/
def flat (timestamp : ℚ) : Candle := ⟨timestamp, 1, 1, 1, 1, 1⟩

/-- Three minutes, as each server sends them. -/
def threeMinutes : Venue → HttpResponse
  | .kucoin => ⟨200, some (.obj [("code", .str "200000"), ("data", .arr (["180", "120", "60"].map
      fun time => .arr (.str time :: List.replicate 6 (.str "1"))))])⟩
  | .kraken => ⟨200, some (.obj [("error", .arr []), ("result", .obj [("last", .num 180),
      ("XALKIMIUSD", .arr ([60, 120, 180].map
        fun time => .arr (.num time :: List.replicate 7 (.str "1"))))])])⟩

theorem reply_threeMinutes (venue : Venue) :
    venue.Reply readSmall (threeMinutes venue) [flat 60, flat 120, flat 180] := by
  cases venue with
  | kucoin =>
    have hrow (time : String) {t : ℚ} (ht : safe_stod readSmall time = t) :
        KucoinRow readSmall (.arr (.str time :: List.replicate 6 (.str "1"))) (flat t) :=
      ht ▸ .row time "1" "1" "1" "1" "1" [.str "1"]
    refine ⟨_, _, ⟨by decide, by decide, rfl⟩, rfl, rfl, ?_⟩
    exact .cons (hrow "180" rfl) (.cons (hrow "120" rfl) (.cons (hrow "60" rfl) .nil))
  | kraken =>
    have hrow (t : ℚ) : KrakenRow readSmall (.arr (.num t :: List.replicate 7 (.str "1"))) (flat t) :=
      .row [.str "1"] (.num t) (.str "1") (.str "1") (.str "1") (.str "1") (.str "1")
    refine ⟨_, _, "XALKIMIUSD", _, ⟨by decide, by decide, rfl⟩, rfl, rfl, by decide, rfl, ?_, ?_⟩
    · intro key hpair hlast
      rw [Dict.get, Dict.get, Dict.get, if_neg hpair.symm, if_neg hlast.symm]
      rfl
    · exact .cons (hrow 60) (.cons (hrow 120) (.cons (hrow 180) .nil))

/-- What the connector returns of the three minutes. -/
def fetchThree (venue : Venue) (limit : ℤ) : Except Thrown (List Candle) :=
  venue.fetch_candles readSmall (fun _ => "") (fun _ => threeMinutes venue) "ALKIMI" "1m" limit

theorem newest_threeMinutes :
    ((∃ out, fetchThree .kucoin 3 = .ok out ∧ Newest 3 [flat 60, flat 120, flat 180] out) ↔
      (3 : ℤ) ≤ 3) ∧
    ((∃ out, fetchThree .kraken 3 = .ok out ∧ Newest 3 [flat 60, flat 120, flat 180] out) ↔
      (3 : ℤ) ≤ 3) := by
  have hnewest (venue : Venue) := fetches_newest_iff readSmall (fun _ => "")
    (fun _ => threeMinutes venue) venue "ALKIMI" "1m" (show (1 : ℤ) ≤ 3 by decide)
    (show Ascending [flat 60, flat 120, flat 180] by decide) (reply_threeMinutes venue)
  exact ⟨hnewest .kucoin, hnewest .kraken⟩

/-- With a limit of two, each connector returns the first two of the three minutes. -/
theorem oldest_returned :
    fetchThree .kucoin 2 = .ok [flat 60, flat 120] ∧ fetchThree .kraken 2 = .ok [flat 60, flat 120] ∧
    KucoinReply readSmall (threeMinutes .kucoin) [flat 60, flat 120, flat 180] ∧
    KrakenReply readSmall (threeMinutes .kraken) [flat 60, flat 120, flat 180] ∧
    Ascending [flat 60, flat 120, flat 180] ∧
    ¬Newest 2 [flat 60, flat 120, flat 180] [flat 60, flat 120] := by
  have hfetch (venue : Venue) : fetchThree venue (2 : ℕ) =
      .ok ([flat 60, flat 120, flat 180].take 2) :=
    fetch_candles_eq one_le_two (reply_threeMinutes venue)
  refine ⟨hfetch .kucoin, hfetch .kraken, reply_threeMinutes .kucoin, reply_threeMinutes .kraken,
    by decide, fun h => ?_⟩
  have hlt := h.newest (flat 180) (by decide) (by decide) (flat 60) (by decide)
  exact absurd hlt (by decide)

end Meridian.Candles
