import Meridian.Core.AbComparator
import Meridian.Exchange.Base
import Meridian.Quant.Aggressiveness
import Meridian.Quant.DepthEngine
import Meridian.Quant.ProfitableSpread
import Meridian.Quant.Volatility
import Meridian.Utils.RealFunctions

/-!
# `ABComparator`: the ticks

Model of `ABComparator._tick`, `_build_grid`, `_simulate_fills` and `ConnectorMetrics.record_fill` of
`core/ab_comparator.py` (76-85, 151-165, 231-265, 345-419, 445-520). The two connectors are given what
their fetches find, and the calls of the clock what it shows.

A tick with a mid places a grid at it for each connector that answers and has matched the grids of the
tick before; one without leaves everything where it is. `Round` is a tick with a mid, as the abstract
book of a connector sees it, and `matched` what a run of them fills.

Results:
* `run_booked`: in every run a connector's order metrics are those of the abstract book: every grid is
  matched once, against the next mid;
* `run_dominates`: what a connector that answers whenever another does places, fills and turns over;
* `run_rescaled`: the unit of the prices does not matter.

Out of scope: the rounding of doubles (prices, amounts and fees are exact rationals).
-/

namespace Meridian.AbComparator

section Model

variable {K : Type*} [Field K] [LinearOrder K]

/-- `SPREAD_APPROX` -/
def SPREAD_APPROX : K := ((1 / 1000 : ℚ) : K)

/-- `_OpenOrder` (`ab_comparator.py:76-85`). -/
structure OpenOrder (K : Type*) where
  oid : String
  side : Side
  price : K
  amount : K
  placed_at : ℚ

/-- `ConnectorMetrics` (`ab_comparator.py:88-119`), with what the fills count. -/
structure RunMetrics (K : Type*) [Zero K] extends ConnectorMetrics where
  order_errors : ℕ := 0
  total_volume_usd : K := 0
  realized_pnl_usd : K := 0
  fill_prices : List K := []

/-- `ConnectorMetrics.record_fill` (`ab_comparator.py:151-165`). -/
def RunMetrics.record_fill (m : RunMetrics K) (side : Side) (price amount : K) : RunMetrics K :=
  let volume := price * amount
  let fee := volume * ((1 / 1000 : ℚ) : K)
  { m with
    fill_count := m.fill_count + 1
    total_volume_usd := m.total_volume_usd + volume
    fill_prices := m.fill_prices ++ [price]
    realized_pnl_usd :=
      match side with
      | .sell => m.realized_pnl_usd + (volume - fee)
      | .buy => m.realized_pnl_usd - (volume + fee) }

/-- `metrics.order_errors += 1` -/
def RunMetrics.error (m : RunMetrics K) : RunMetrics K := { m with order_errors := m.order_errors + 1 }

/-- One round of a loop of `_build_grid`; `tag` is the side's part of its ids. -/
def open_order (label tag : String) (side : Side) (mid : K) (now : ℚ) (spread_pct amt_usd : K)
    (i : ℕ) : Option (OpenOrder K) :=
  let price := mid * (1 + spread_pct / ((100 : ℚ) : K))
  let amount := if price > 0 then amt_usd / price else 0
  if amount ≤ 0 then none
  else
    some
      { oid := label ++ tag ++ toString (let t := now * 1000; t.num.tdiv t.den) ++ "-" ++ toString i
        side := side
        price := price
        amount := amount
        placed_at := now }

/-- One of the two loops of `_build_grid`. -/
def side_grid (label tag : String) (side : Side) (mid : K) (now : ℚ) (spreads amts : List K) :
    List (OpenOrder K) :=
  (spreads.zip amts).zipIdx.filterMap fun x => open_order label tag side mid now x.1.1 x.1.2 x.2

/-- `_build_grid` (`ab_comparator.py:445-484`). -/
def build_grid (mid : K) (buy_spreads sell_spreads buy_amts sell_amts : List K) (label : String)
    (now : ℚ) (metrics : RunMetrics K) : List (OpenOrder K) × RunMetrics K :=
  let orders := side_grid label "-buy-" .buy mid now buy_spreads buy_amts ++
    side_grid label "-sell-" .sell mid now sell_spreads sell_amts
  (orders, { metrics with orders_placed := metrics.orders_placed + orders.length })

/-- The mid moved past a price: the estimated ask down through a buy, the estimated bid up through a
sell. -/
def crossed (prev_mid curr_mid : K) (side : Side) (price : K) : Bool :=
  match side with
  | .buy =>
    decide (curr_mid * (1 + SPREAD_APPROX) ≤ price ∧ price < prev_mid * (1 + SPREAD_APPROX))
  | .sell =>
    decide (prev_mid * (1 - SPREAD_APPROX) < price ∧ price ≤ curr_mid * (1 - SPREAD_APPROX))

/-- `_simulate_fills` (`ab_comparator.py:486-520`): the orders that remain, and the metrics. -/
def simulate_fills (prev_mid curr_mid : K) :
    List (OpenOrder K) → RunMetrics K → List (OpenOrder K) × RunMetrics K
  | [], metrics => ([], metrics)
  | order :: orders, metrics =>
    if crossed prev_mid curr_mid order.side order.price then
      simulate_fills prev_mid curr_mid orders
        (metrics.record_fill order.side order.price order.amount)
    else
      let r := simulate_fills prev_mid curr_mid orders metrics
      (order :: r.1, r.2)

/-- What a fetch finds, how long it takes and when it is over. -/
structure Fetched where
  mid : Option ℚ
  elapsed_ms : ℚ
  now : ℚ

/-- What is left to chance in a tick: both fetches, and the clock when the grids are built. -/
structure TickInput where
  ccxt : Fetched
  cpp : Fetched
  ccxt_now : ℚ
  cpp_now : ℚ

/-- `ABComparator` (`ab_comparator.py:231-265`). -/
structure ABComparator (K : Type*) [Zero K] where
  spread_engine : SpreadEngine
  depth_engine : DepthEngine
  vol_engine : VolatilityEngine K
  agg_model : AggressivenessModel
  n_levels : ℕ
  ccxt_metrics : RunMetrics K
  cpp_metrics : RunMetrics K
  ccxt_orders : List (OpenOrder K) := []
  cpp_orders : List (OpenOrder K) := []
  prev_mid : ℚ := 0
  curr_mid : ℚ := 0

/-- `ABComparator.__init__` (`ab_comparator.py:231-265`). -/
def ABComparator.init (spread_cfg : SpreadConfig) (depth_cfg : DepthConfig)
    (vol_cfg : VolatilityConfig) : ABComparator K where
  spread_engine := ⟨spread_cfg⟩
  depth_engine := ⟨depth_cfg⟩
  vol_engine := { cfg := vol_cfg }
  agg_model := ⟨vol_cfg⟩
  n_levels := depth_cfg.levels.1
  ccxt_metrics := { name := "CCXT" }
  cpp_metrics := { name := "C++" }

/-- `_fetch_ticker_safe` (`ab_comparator.py:421-443`), on these metrics. -/
def fetch (m : RunMetrics K) (f : Fetched) : RunMetrics K :=
  { m with
    toConnectorMetrics := (fetch_ticker_safe m.toConnectorMetrics f.mid f.elapsed_ms f.now).1 }

/-- `ccxt_mid or cpp_mid` -/
def mid_or : Option ℚ → Option ℚ → Option ℚ
  | some mid, cpp_mid => if mid = 0 then cpp_mid else some mid
  | none, cpp_mid => cpp_mid

/-- The mid of a tick, if it has one. -/
def TickInput.global_mid (t : TickInput) : Option ℚ :=
  (mid_or t.ccxt.mid t.cpp.mid).filter fun mid => 0 < mid

variable [MathFunctions K] [ExpFunction K]

/-- The grid of a tick, as spreads and amounts (`ab_comparator.py:371-378`). -/
def levels (c : ABComparator K) (vol_engine : VolatilityEngine K) :
    (List K × List K) × List K × List K :=
  let agg := c.agg_model.compute vol_engine.rolling_vol
  (c.spread_engine.compute_levels 0 agg c.n_levels 1,
    c.depth_engine.compute_amounts agg c.n_levels 1 "buy" 0 1,
    c.depth_engine.compute_amounts agg c.n_levels 1 "sell" 0 1)

/-- Steps 4 to 6 for one connector (`ab_comparator.py:380-419`): its orders and its metrics. Those that
are not filled are dropped. -/
def requote (c : ABComparator K) (vol_engine : VolatilityEngine K) (prev_mid curr_mid : ℚ)
    (label : String) (now : ℚ) (answered : Bool) (orders : List (OpenOrder K))
    (metrics : RunMetrics K) : List (OpenOrder K) × RunMetrics K :=
  let metrics :=
    if prev_mid > 0 ∧ prev_mid ≠ curr_mid then
      (simulate_fills ((prev_mid : ℚ) : K) ((curr_mid : ℚ) : K) orders metrics).2
    else metrics
  let l := levels c vol_engine
  if answered then
    build_grid ((curr_mid : ℚ) : K) l.1.1 l.1.2 l.2.1 l.2.2 label now metrics
  else ([], metrics.error)

/-- `_tick` (`ab_comparator.py:345-419`). -/
def tick (c : ABComparator K) (t : TickInput) : ABComparator K :=
  let ccxt_metrics := fetch c.ccxt_metrics t.ccxt
  let cpp_metrics := fetch c.cpp_metrics t.cpp
  match t.global_mid with
  | none => { c with ccxt_metrics := ccxt_metrics.error, cpp_metrics := cpp_metrics.error }
  | some global_mid =>
    let prev_mid := if c.curr_mid > 0 then c.curr_mid else global_mid
    let vol_engine := c.vol_engine.update_price global_mid
    let ccxt := requote c vol_engine prev_mid global_mid "CCXT" t.ccxt_now t.ccxt.mid.isSome
      c.ccxt_orders ccxt_metrics
    let cpp := requote c vol_engine prev_mid global_mid "C++" t.cpp_now t.cpp.mid.isSome
      c.cpp_orders cpp_metrics
    { c with
      vol_engine := vol_engine
      ccxt_orders := ccxt.1
      ccxt_metrics := ccxt.2
      cpp_orders := cpp.1
      cpp_metrics := cpp.2
      prev_mid := prev_mid
      curr_mid := global_mid }

/-- The ticks of `_strategy_loop`. -/
def run (c : ABComparator K) (ts : List TickInput) : ABComparator K := ts.foldl tick c

end Model

/-! ## The abstract book -/

/-- What an order offers. -/
structure Offer (K : Type*) where
  side : Side
  price : K
  amount : K

def OpenOrder.offer {K : Type*} (o : OpenOrder K) : Offer K := ⟨o.side, o.price, o.amount⟩

/-- A tick with a mid, and what a connector offers from then on. -/
structure Round (K : Type*) where
  mid : K
  offers : List (Offer K)

section Book

variable {K : Type*} [Field K] [LinearOrder K]

namespace Offer

def volume (o : Offer K) : K := o.price * o.amount

/-- What a fill brings in, its fee taken off. -/
def cash (o : Offer K) : K :=
  match o.side with
  | .sell => o.volume - o.volume * ((1 / 1000 : ℚ) : K)
  | .buy => -(o.volume + o.volume * ((1 / 1000 : ℚ) : K))

def crossed (prev_mid curr_mid : K) (o : Offer K) : Bool :=
  AbComparator.crossed prev_mid curr_mid o.side o.price

end Offer

/-- The offer of one level, if its amount is positive. -/
def level_offer (side : Side) (mid spread_pct amt_usd : K) : Option (Offer K) :=
  let price := mid * (1 + spread_pct / ((100 : ℚ) : K))
  let amount := if price > 0 then amt_usd / price else 0
  if amount ≤ 0 then none else some ⟨side, price, amount⟩

/-- The offers of one side. -/
def side_offers (side : Side) (mid : K) (spreads amts : List K) : List (Offer K) :=
  (spreads.zip amts).filterMap fun x => level_offer side mid x.1 x.2

/-- What is offered in a run of rounds. -/
def placed (rs : List (Round K)) : List (Offer K) := rs.flatMap Round.offers

/-- **What is filled** in a run of rounds: of what each offers, what the mid of the next one crosses. -/
def matched : List (Round K) → List (Offer K)
  | r :: r' :: rs => r.offers.filter (Offer.crossed r.mid r'.mid) ++ matched (r' :: rs)
  | _ => []

/-- The metrics count these orders and these fills, and nothing else. -/
structure Booked (m : RunMetrics K) (placed filled : List (Offer K)) : Prop where
  orders_placed : m.orders_placed = placed.length
  fill_count : m.fill_count = filled.length
  fill_prices : m.fill_prices = filled.map Offer.price
  total_volume_usd : m.total_volume_usd = (filled.map Offer.volume).sum
  realized_pnl_usd : m.realized_pnl_usd = (filled.map Offer.cash).sum

variable {m : RunMetrics K} {orders : List (OpenOrder K)} {pl filled : List (Offer K)}
  {prev_mid curr_mid : K}

/-- A mid that does not move crosses nothing. -/
theorem filter_crossed_self (offers : List (Offer K)) (mid : K) :
    offers.filter (Offer.crossed mid mid) = [] := by
  refine List.filter_eq_nil_iff.mpr fun o _ => ?_
  unfold Offer.crossed crossed
  cases o.side with
  | buy => exact of_decide_eq_true.mt fun h => absurd h.2 (not_lt.mpr h.1)
  | sell => exact of_decide_eq_true.mt fun h => absurd h.1 (not_lt.mpr h.2)

/-- A round more fills what it crosses of the last one. -/
theorem matched_concat (r : Round K) : ∀ rs : List (Round K), matched (rs ++ [r]) =
    matched rs ++ (rs.getLast?.map Round.offers).toList.flatten.filter
      (Offer.crossed ((rs.getLast?.map Round.mid).getD r.mid) r.mid)
  | [] => rfl
  | [r'] => by
    simp [matched]
  | r' :: r'' :: rs => by
    have ih := matched_concat r (r'' :: rs)
    rw [List.cons_append] at ih
    rw [List.cons_append, List.cons_append, matched, matched, ih, List.append_assoc,
      List.getLast?_cons_cons]

omit [Field K] [LinearOrder K] in
theorem placed_concat (r : Round K) (rs : List (Round K)) :
    placed (rs ++ [r]) = placed rs ++ r.offers := by
  rw [placed, List.flatMap_append, List.flatMap_singleton, placed]

/-- **Nothing is filled but what is offered**: what a run of rounds fills is among what it places,
in order. -/
theorem matched_sublist : ∀ rs : List (Round K), (matched rs).Sublist (placed rs)
  | [] | [_] => List.nil_sublist _
  | r :: r' :: rs => by
    rw [matched, placed, List.flatMap_cons]
    exact List.filter_sublist.append (matched_sublist (r' :: rs))

/-! ## What the metrics count -/

omit [LinearOrder K] in
/-- A fill is one more of those that are counted. -/
theorem Booked.record_fill (h : Booked m pl filled) (o : OpenOrder K) :
    Booked (m.record_fill o.side o.price o.amount) pl (filled ++ [o.offer]) where
  orders_placed := h.orders_placed
  fill_count := by
    rw [List.length_append, ← h.fill_count]
    rfl
  fill_prices := by
    rw [List.map_append, ← h.fill_prices]
    rfl
  total_volume_usd := by
    rw [List.map_append, List.sum_append, ← h.total_volume_usd, List.map_singleton,
      List.sum_singleton]
    rfl
  realized_pnl_usd := by
    rw [List.map_append, List.sum_append, ← h.realized_pnl_usd, List.map_singleton,
      List.sum_singleton]
    unfold RunMetrics.record_fill Offer.cash OpenOrder.offer Offer.volume
    simp only
    cases o.side with
    | buy => exact sub_eq_add_neg _ _
    | sell => rfl

/-- **Matching** counts, on top of what is booked, exactly the orders of the grid that the new mid
crosses. -/
theorem Booked.simulate_fills (h : Booked m pl filled) (prev_mid curr_mid : K) :
    Booked (simulate_fills prev_mid curr_mid orders m).2 pl
      (filled ++ (orders.map OpenOrder.offer).filter (Offer.crossed prev_mid curr_mid)) := by
  induction orders generalizing m filled with
  | nil => simpa [AbComparator.simulate_fills] using h
  | cons o orders ih =>
    rw [AbComparator.simulate_fills, List.map_cons]
    split
    · rename_i hc
      have hrest := ih (h.record_fill o)
      rwa [List.append_assoc, List.singleton_append, ← List.filter_cons_of_pos (a := o.offer) hc]
        at hrest
    · rename_i hc
      rw [List.filter_cons_of_neg (a := o.offer) hc]
      exact ih h

omit [LinearOrder K] in
/-- A fetch counts no orders and no fills. -/
theorem Booked.fetch (h : Booked m pl filled) (f : Fetched) : Booked (fetch m f) pl filled := by
  have hsame : (fetch_ticker_safe m.toConnectorMetrics f.mid f.elapsed_ms f.now).1.orders_placed =
      m.orders_placed ∧
      (fetch_ticker_safe m.toConnectorMetrics f.mid f.elapsed_ms f.now).1.fill_count =
        m.fill_count := by
    unfold fetch_ticker_safe ConnectorMetrics.record_connect ConnectorMetrics.record_disconnect
      ConnectorMetrics.record_ticker
    cases f.mid <;> simp only <;> split_ifs <;> exact ⟨rfl, rfl⟩
  exact ⟨hsame.1.trans h.orders_placed, hsame.2.trans h.fill_count, h.fill_prices,
    h.total_volume_usd, h.realized_pnl_usd⟩

omit [LinearOrder K] in
theorem Booked.error (h : Booked m pl filled) : Booked m.error pl filled :=
  ⟨h.orders_placed, h.fill_count, h.fill_prices, h.total_volume_usd, h.realized_pnl_usd⟩

theorem map_offer_side_grid (label tag : String) (side : Side) (mid : K) (now : ℚ)
    (spreads amts : List K) :
    (side_grid label tag side mid now spreads amts).map OpenOrder.offer =
      side_offers side mid spreads amts := by
  have hlevel : ∀ x : (K × K) × ℕ,
      (open_order label tag side mid now x.1.1 x.1.2 x.2).map OpenOrder.offer =
        level_offer side mid x.1.1 x.1.2 := by
    intro x
    simp only [open_order, level_offer]
    split_ifs <;> rfl
  rw [side_grid, List.map_filterMap, side_offers]
  simp only [hlevel]
  calc (spreads.zip amts).zipIdx.filterMap (fun x => level_offer side mid x.1.1 x.1.2)
      = ((spreads.zip amts).zipIdx.map Prod.fst).filterMap
          (fun x => level_offer side mid x.1 x.2) := by
            rw [List.filterMap_map]
            rfl
    _ = (spreads.zip amts).filterMap (fun x => level_offer side mid x.1 x.2) := by
      rw [List.zipIdx_map_fst]

variable [MathFunctions K] [ExpFunction K]

/-- The grid of a tick. -/
def grid (c : ABComparator K) (vol_engine : VolatilityEngine K) (mid : K) : List (Offer K) :=
  let l := levels c vol_engine
  side_offers .buy mid l.1.1 l.2.1 ++ side_offers .sell mid l.1.2 l.2.2

/-- The rounds of a connector: the mids, and whether it answers. -/
def sheet (c : ABComparator K) : VolatilityEngine K → List (ℚ × Bool) → List (Round K)
  | _, [] => []
  | vol_engine, (mid, answered) :: es =>
    let vol_engine := vol_engine.update_price mid
    ⟨mid, if answered then grid c vol_engine mid else []⟩ :: sheet c vol_engine es

/-- The ticks with a mid, and whether a connector answers. -/
def entries (fetched : TickInput → Fetched) (ts : List TickInput) : List (ℚ × Bool) :=
  ts.filterMap fun t => t.global_mid.map fun mid => (mid, (fetched t).mid.isSome)

/-- A grid placed offers the grid of its tick. -/
theorem map_offer_build_grid (c : ABComparator K) (vol_engine : VolatilityEngine K) (mid : ℚ)
    (label : String) (now : ℚ) (m : RunMetrics K) :
    let l := levels c vol_engine
    (build_grid ((mid : ℚ) : K) l.1.1 l.1.2 l.2.1 l.2.2 label now m).1.map OpenOrder.offer =
      grid c vol_engine ((mid : ℚ) : K) := by
  simp only [build_grid, grid, List.map_append, map_offer_side_grid]

/-- **Steps 4 to 6** count what the new mid crosses of the last round and what the next one offers. -/
theorem Booked.requote (h : Booked m pl filled) (c : ABComparator K) (vol_engine : VolatilityEngine K)
    {prev_mid : ℚ} (curr_mid now : ℚ) (label : String) (answered : Bool) (orders : List (OpenOrder K))
    (hprev : 0 < prev_mid) :
    let r := requote c vol_engine prev_mid curr_mid label now answered orders m
    let offers := if answered then grid c vol_engine ((curr_mid : ℚ) : K) else []
    r.1.map OpenOrder.offer = offers ∧
      Booked r.2 (pl ++ offers) (filled ++ (orders.map OpenOrder.offer).filter
        (Offer.crossed ((prev_mid : ℚ) : K) ((curr_mid : ℚ) : K))) := by
  have hfill : Booked
      (if prev_mid > 0 ∧ prev_mid ≠ curr_mid then
        (AbComparator.simulate_fills ((prev_mid : ℚ) : K) ((curr_mid : ℚ) : K) orders m).2 else m) pl
      (filled ++ (orders.map OpenOrder.offer).filter
        (Offer.crossed ((prev_mid : ℚ) : K) ((curr_mid : ℚ) : K))) := by
    split
    · exact h.simulate_fills _ _
    · rename_i heq
      obtain rfl : prev_mid = curr_mid := not_not.mp fun hne => heq ⟨hprev, hne⟩
      rwa [filter_crossed_self, List.append_nil]
  unfold AbComparator.requote
  cases answered with
  | false =>
    refine ⟨rfl, ?_⟩
    simp only [Bool.false_eq_true, if_false, List.append_nil]
    exact hfill.error
  | true =>
    have hoffers := map_offer_build_grid c vol_engine curr_mid label now
      (if prev_mid > 0 ∧ prev_mid ≠ curr_mid then
        (AbComparator.simulate_fills ((prev_mid : ℚ) : K) ((curr_mid : ℚ) : K) orders m).2 else m)
    refine ⟨hoffers, ?_, hfill.fill_count, hfill.fill_prices, hfill.total_volume_usd,
      hfill.realized_pnl_usd⟩
    simp only [if_true] at hoffers ⊢
    rw [List.length_append, ← hfill.orders_placed, ← hoffers, List.length_map]
    rfl

/-! ## Whole runs -/

/-- The engines after a run: those of `__init__`, and the mids pushed. -/
structure Driven (c₀ c : ABComparator K) (mids : List ℚ) : Prop where
  spread_engine : c.spread_engine = c₀.spread_engine
  depth_engine : c.depth_engine = c₀.depth_engine
  agg_model : c.agg_model = c₀.agg_model
  n_levels : c.n_levels = c₀.n_levels
  vol_engine : c.vol_engine = mids.foldl VolatilityEngine.update_price c₀.vol_engine
  curr_mid : c.curr_mid = mids.getLast?.getD 0
  mids_pos : ∀ mid ∈ mids, 0 < mid

variable {c₀ c : ABComparator K} {mids : List ℚ} {es : List (ℚ × Bool)} {t : TickInput} {mid now : ℚ}
  {label : String} {answered : Bool}

theorem Driven.levels (h : Driven c₀ c mids) (vol_engine : VolatilityEngine K) :
    levels c vol_engine = levels c₀ vol_engine := by
  unfold AbComparator.levels
  rw [h.spread_engine, h.depth_engine, h.agg_model, h.n_levels]

theorem Driven.grid (h : Driven c₀ c mids) (vol_engine : VolatilityEngine K) (mid : K) :
    grid c vol_engine mid = grid c₀ vol_engine mid := by
  unfold AbComparator.grid
  rw [h.levels]

theorem global_mid_pos (h : t.global_mid = some mid) : 0 < mid := by
  have hmem : mid ∈ t.global_mid := h
  exact of_decide_eq_true (Option.mem_filter_iff.mp hmem).2

theorem tick_none (ht : t.global_mid = none) : tick c t =
    { c with
      ccxt_metrics := (fetch c.ccxt_metrics t.ccxt).error
      cpp_metrics := (fetch c.cpp_metrics t.cpp).error } := by
  rw [tick, ht]

theorem tick_some (ht : t.global_mid = some mid) : tick c t =
    let prev_mid := if c.curr_mid > 0 then c.curr_mid else mid
    let vol_engine := c.vol_engine.update_price mid
    let ccxt := requote c vol_engine prev_mid mid "CCXT" t.ccxt_now t.ccxt.mid.isSome c.ccxt_orders
      (fetch c.ccxt_metrics t.ccxt)
    let cpp := requote c vol_engine prev_mid mid "C++" t.cpp_now t.cpp.mid.isSome c.cpp_orders
      (fetch c.cpp_metrics t.cpp)
    { c with
      vol_engine := vol_engine
      ccxt_orders := ccxt.1
      ccxt_metrics := ccxt.2
      cpp_orders := cpp.1
      cpp_metrics := cpp.2
      prev_mid := prev_mid
      curr_mid := mid } := by
  rw [tick, ht]

theorem Driven.tick (h : Driven c₀ c mids) (ht : t.global_mid = some mid) :
    Driven c₀ (AbComparator.tick c t) (mids ++ [mid]) := by
  rw [tick_some ht]
  refine ⟨h.spread_engine, h.depth_engine, h.agg_model, h.n_levels, ?_, ?_, ?_⟩
  · rw [List.foldl_append, ← h.vol_engine]
    rfl
  · rw [List.getLast?_concat]
    rfl
  · intro x hx
    obtain hx | hx := List.mem_append.mp hx
    · exact h.mids_pos x hx
    · exact List.mem_singleton.mp hx ▸ global_mid_pos ht

theorem Driven.skip (h : Driven c₀ c mids) (ht : t.global_mid = none) :
    Driven c₀ (AbComparator.tick c t) mids := by
  rw [tick_none ht]
  exact ⟨h.spread_engine, h.depth_engine, h.agg_model, h.n_levels, h.vol_engine, h.curr_mid, h.mids_pos⟩

/-- A round more at the end of a sheet. -/
theorem sheet_concat (c : ABComparator K) (mid : ℚ) (answered : Bool) :
    ∀ (es : List (ℚ × Bool)) (vol_engine : VolatilityEngine K),
      sheet c vol_engine (es ++ [(mid, answered)]) =
        sheet c vol_engine es ++
          [⟨mid, if answered then
            grid c (((es.map Prod.fst).foldl VolatilityEngine.update_price vol_engine).update_price mid) mid
            else []⟩]
  | [], _ => rfl
  | (mid', answered') :: es, vol_engine => by
    rw [List.cons_append, sheet, sheet, sheet_concat c mid answered es, List.cons_append]
    rfl

theorem map_mid_sheet (c : ABComparator K) :
    ∀ (es : List (ℚ × Bool)) (vol_engine : VolatilityEngine K),
      (sheet c vol_engine es).map Round.mid = es.map fun e => ((e.1 : ℚ) : K)
  | [], _ => rfl
  | (mid, answered) :: es, vol_engine => by
    rw [sheet, List.map_cons, List.map_cons, map_mid_sheet c es]

/-- A connector's orders and metrics after the rounds of its entries. -/
structure Kept (c₀ : ABComparator K) (es : List (ℚ × Bool)) (orders : List (OpenOrder K))
    (m : RunMetrics K) : Prop where
  offers : orders.map OpenOrder.offer =
    ((sheet c₀ c₀.vol_engine es).getLast?.map Round.offers).toList.flatten
  booked : Booked m (placed (sheet c₀ c₀.vol_engine es)) (matched (sheet c₀ c₀.vol_engine es))

theorem Kept.fetch (h : Kept c₀ es orders m) (f : Fetched) : Kept c₀ es orders (fetch m f) :=
  ⟨h.offers, h.booked.fetch f⟩

theorem Kept.error (h : Kept c₀ es orders m) : Kept c₀ es orders m.error :=
  ⟨h.offers, h.booked.error⟩

/-- **A round more**: the last grid is matched against the new mid, and the new one is placed. -/
theorem Kept.requote (h : Kept c₀ es orders m) (hc : Driven c₀ c (es.map Prod.fst)) (hmid : 0 < mid) :
    let prev_mid := if c.curr_mid > 0 then c.curr_mid else mid
    let r := requote c (c.vol_engine.update_price mid) prev_mid mid label now answered orders m
    Kept c₀ (es ++ [(mid, answered)]) r.1 r.2 := by
  set prev_mid := if c.curr_mid > 0 then c.curr_mid else mid with hprev
  have hpos : 0 < prev_mid := by
    rw [hprev]
    split_ifs with hcurr
    · exact hcurr
    · exact hmid
  have hr := h.booked.requote c (c.vol_engine.update_price mid) mid now label answered orders hpos
  have hlast : (((sheet c₀ c₀.vol_engine es).getLast?.map Round.mid).getD ((mid : ℚ) : K)) =
      ((prev_mid : ℚ) : K) := by
    rw [← List.getLast?_map, map_mid_sheet, hprev, hc.curr_mid, List.getLast?_map, List.getLast?_map]
    cases hes : es.getLast? with
    | none => simp
    | some e =>
      have he : 0 < e.1 := hc.mids_pos e.1 (List.mem_map_of_mem (List.mem_of_getLast? hes))
      simp [he]
  rw [hc.grid, hc.vol_engine] at hr
  refine ⟨?_, ?_⟩
  · rw [sheet_concat, List.getLast?_concat, hc.vol_engine]
    simpa using hr.1
  · rw [sheet_concat, placed_concat, matched_concat, hlast, ← h.offers, hc.vol_engine]
    exact hr.2

/-- The mids of a run. -/
theorem map_fst_entries (fetched : TickInput → Fetched) (ts : List TickInput) :
    (entries fetched ts).map Prod.fst = ts.filterMap TickInput.global_mid := by
  rw [entries, List.map_filterMap]
  congr 1
  funext t
  rw [Option.map_map]
  exact Option.map_id'

/-- The state of both connectors after a run: the engines were driven by the same mids, and each
connector keeps the book of its own rounds. -/
structure Inv (c₀ c : ABComparator K) (ts : List TickInput) : Prop where
  driven : Driven c₀ c (ts.filterMap TickInput.global_mid)
  ccxt : Kept c₀ (entries TickInput.ccxt ts) c.ccxt_orders c.ccxt_metrics
  cpp : Kept c₀ (entries TickInput.cpp ts) c.cpp_orders c.cpp_metrics

theorem Inv.tick {ts : List TickInput} (h : Inv c₀ c ts) (t : TickInput) :
    Inv c₀ (AbComparator.tick c t) (ts ++ [t]) := by
  have hentries : ∀ fetched : TickInput → Fetched, entries fetched (ts ++ [t]) =
      entries fetched ts ++ (t.global_mid.map fun mid => (mid, (fetched t).mid.isSome)).toList := by
    intro fetched
    rw [entries, List.filterMap_append, entries, List.filterMap_cons, List.filterMap_nil]
    cases t.global_mid <;> rfl
  cases ht : t.global_mid with
  | none =>
    refine ⟨?_, ?_, ?_⟩
    · simpa [List.filterMap_append, ht] using h.driven.skip ht
    · rw [hentries, ht, tick_none ht]
      simpa using (h.ccxt.fetch t.ccxt).error
    · rw [hentries, ht, tick_none ht]
      simpa using (h.cpp.fetch t.cpp).error
  | some mid =>
    have hpos := global_mid_pos ht
    refine ⟨?_, ?_, ?_⟩
    · simpa [List.filterMap_append, ht] using h.driven.tick ht
    · rw [hentries, ht, tick_some ht]
      exact (h.ccxt.fetch t.ccxt).requote (map_fst_entries _ ts ▸ h.driven) hpos
    · rw [hentries, ht, tick_some ht]
      exact (h.cpp.fetch t.cpp).requote (map_fst_entries _ ts ▸ h.driven) hpos

theorem inv_run (hc : Inv c₀ c []) (ts : List TickInput) : Inv c₀ (run c ts) ts := by
  induction ts using List.reverseRecOn with
  | nil => exact hc
  | append_singleton ts t ih =>
    rw [run, List.foldl_concat]
    exact ih.tick t

/-- A comparator that has not ticked yet. -/
theorem inv_init (spread_cfg : SpreadConfig) (depth_cfg : DepthConfig) (vol_cfg : VolatilityConfig) :
    Inv (ABComparator.init spread_cfg depth_cfg vol_cfg : ABComparator K)
      (.init spread_cfg depth_cfg vol_cfg) [] :=
  ⟨⟨rfl, rfl, rfl, rfl, rfl, rfl, fun _ h => nomatch h⟩, ⟨rfl, rfl, rfl, rfl, rfl, rfl⟩,
    ⟨rfl, rfl, rfl, rfl, rfl, rfl⟩⟩

theorem inv_of_run (spread_cfg : SpreadConfig) (depth_cfg : DepthConfig) (vol_cfg : VolatilityConfig)
    (ts : List TickInput) : Inv (ABComparator.init spread_cfg depth_cfg vol_cfg : ABComparator K)
      (run (.init spread_cfg depth_cfg vol_cfg) ts) ts :=
  inv_run (inv_init spread_cfg depth_cfg vol_cfg) ts

/-- **The order metrics of both connectors are those of the abstract book**, in every run: one grid for
each tick with a mid that the connector answers, matched once, against the next mid. -/
theorem run_booked (spread_cfg : SpreadConfig) (depth_cfg : DepthConfig) (vol_cfg : VolatilityConfig)
    (ts : List TickInput) :
    let c₀ : ABComparator K := .init spread_cfg depth_cfg vol_cfg
    let book (fetched : TickInput → Fetched) := sheet c₀ c₀.vol_engine (entries fetched ts)
    Booked (run c₀ ts).ccxt_metrics (placed (book TickInput.ccxt)) (matched (book TickInput.ccxt)) ∧
      Booked (run c₀ ts).cpp_metrics (placed (book TickInput.cpp)) (matched (book TickInput.cpp)) :=
  have h := inv_of_run spread_cfg depth_cfg vol_cfg ts
  ⟨h.ccxt.booked, h.cpp.booked⟩

/-! ## A connector that answers whenever the other one does -/

section Dominates

/-- Round by round the same mid, and the offers of the first among those of the second. -/
def Covers (rs rs' : List (Round K)) : Prop :=
  List.Forall₂ (fun r r' => r.mid = r'.mid ∧ r.offers.Sublist r'.offers) rs rs'

omit [Field K] [LinearOrder K] [MathFunctions K] [ExpFunction K] in
theorem Covers.placed {rs rs' : List (Round K)} (h : Covers rs rs') :
    (placed rs).Sublist (placed rs') := by
  induction h with
  | nil => exact List.Sublist.refl _
  | cons hr _ ih => exact hr.2.append ih

omit [MathFunctions K] [ExpFunction K] in
/-- **More offers, more fills**: nothing a connector fills is missing where more is offered. -/
theorem Covers.matched {rs rs' : List (Round K)} (h : Covers rs rs') :
    (matched rs).Sublist (matched rs') := by
  induction h with
  | nil => exact List.Sublist.refl _
  | cons hr hrest ih =>
    cases hrest with
    | nil => exact List.Sublist.refl _
    | cons hr' hrest' =>
      rw [AbComparator.matched, AbComparator.matched, hr.1, hr'.1]
      exact (hr.2.filter _).append ih

theorem covers_sheet (c : ABComparator K) :
    ∀ (es : List (ℚ × Bool × Bool)) (vol_engine : VolatilityEngine K), (∀ e ∈ es, e.2.1 → e.2.2) →
      Covers (sheet c vol_engine (es.map fun e => (e.1, e.2.1)))
        (sheet c vol_engine (es.map fun e => (e.1, e.2.2)))
  | [], _, _ => List.Forall₂.nil
  | (mid, a, b) :: es, vol_engine, h => by
    refine List.Forall₂.cons ⟨rfl, ?_⟩ (covers_sheet c es _ fun e he => h e (List.mem_cons_of_mem _ he))
    have hab : a → b := h _ List.mem_cons_self
    cases a with
    | false => exact List.nil_sublist _
    | true =>
      simp only [hab rfl]
      exact List.Sublist.refl _

variable [IsStrictOrderedRing K]

omit [MathFunctions K] [ExpFunction K] in
theorem volume_nonneg_of_level_offer {side : Side} {mid spread_pct amt_usd : K} {o : Offer K}
    (h : level_offer side mid spread_pct amt_usd = some o) : 0 ≤ o.volume := by
  unfold level_offer at h
  simp only at h
  split_ifs at h with hprice hamount hzero
  · obtain rfl := Option.some.inj h
    exact mul_nonneg hprice.le (not_le.mp hamount).le
  · exact absurd le_rfl hzero

theorem volume_nonneg_of_mem_placed (c : ABComparator K) :
    ∀ (es : List (ℚ × Bool)) (vol_engine : VolatilityEngine K), ∀ o ∈ placed (sheet c vol_engine es),
      0 ≤ o.volume
  | [], _, _, h => nomatch h
  | (mid, answered) :: es, vol_engine, o, h => by
    rw [sheet, placed, List.flatMap_cons, List.mem_append] at h
    obtain h | h := h
    · cases answered with
      | false => exact nomatch h
      | true =>
        simp only [if_true, grid, side_offers, List.mem_append, List.mem_filterMap] at h
        obtain ⟨_, -, ho⟩ | ⟨_, -, ho⟩ := h
        · exact volume_nonneg_of_level_offer ho
        · exact volume_nonneg_of_level_offer ho
    · exact volume_nonneg_of_mem_placed c es _ o h

/-- One connector answers on every tick with a mid on which another one does. -/
def Answers (other fetched : TickInput → Fetched) (ts : List TickInput) : Prop :=
  ∀ t ∈ ts, t.global_mid.isSome → (other t).mid.isSome → (fetched t).mid.isSome

/-- What one connector places, fills and turns over is no more than what another one does: its fills are
among the fills of the other one. -/
structure NoMore (m m' : RunMetrics K) : Prop where
  orders_placed : m.orders_placed ≤ m'.orders_placed
  fill_count : m.fill_count ≤ m'.fill_count
  fill_prices : m.fill_prices.Sublist m'.fill_prices
  total_volume_usd : m.total_volume_usd ≤ m'.total_volume_usd

omit [IsStrictOrderedRing K] in
/-- The sheets of two connectors. -/
theorem covers_entries (c : ABComparator K) {other fetched : TickInput → Fetched} {ts : List TickInput}
    (h : Answers other fetched ts) :
    Covers (sheet c c.vol_engine (entries other ts)) (sheet c c.vol_engine (entries fetched ts)) := by
  let both := ts.filterMap fun t =>
    t.global_mid.map fun mid => (mid, (other t).mid.isSome, (fetched t).mid.isSome)
  have hboth : ∀ e ∈ both, e.2.1 → e.2.2 := by
    intro e he
    obtain ⟨t, ht, he⟩ := List.mem_filterMap.mp he
    obtain ⟨mid, hmid, rfl⟩ := Option.map_eq_some_iff.mp he
    exact h t ht (Option.isSome_iff_exists.mpr ⟨mid, hmid⟩)
  have hother : entries other ts = both.map fun e => (e.1, e.2.1) := by
    rw [entries, List.map_filterMap]
    simp only [Option.map_map]
    rfl
  have hfetched : entries fetched ts = both.map fun e => (e.1, e.2.2) := by
    rw [entries, List.map_filterMap]
    simp only [Option.map_map]
    rfl
  rw [hother, hfetched]
  exact covers_sheet c both c.vol_engine hboth

omit [MathFunctions K] [ExpFunction K] in
/-- Where one book covers the other, nothing of what it counts is less. -/
theorem Covers.noMore {rs rs' : List (Round K)} (h : Covers rs rs') {m m' : RunMetrics K}
    (hm : Booked m (AbComparator.placed rs) (AbComparator.matched rs))
    (hm' : Booked m' (AbComparator.placed rs') (AbComparator.matched rs'))
    (hpos : ∀ o ∈ AbComparator.placed rs', 0 ≤ o.volume) : NoMore m m' where
  orders_placed := by
    rw [hm.orders_placed, hm'.orders_placed]
    exact h.placed.length_le
  fill_count := by
    rw [hm.fill_count, hm'.fill_count]
    exact h.matched.length_le
  fill_prices := by
    rw [hm.fill_prices, hm'.fill_prices]
    exact h.matched.map _
  total_volume_usd := by
    rw [hm.total_volume_usd, hm'.total_volume_usd]
    refine (h.matched.map Offer.volume).sum_le_sum fun v hv => ?_
    obtain ⟨o, ho, rfl⟩ := List.mem_map.mp hv
    exact hpos o ((matched_sublist rs').subset ho)

/-- **A connector that answers whenever the other one does** places, fills and turns over no less: its
fills are the other one's and more. It does not matter which of the two connectors that is, although the
mid of a tick is the one of CCXT whenever there is one. -/
theorem run_dominates (spread_cfg : SpreadConfig) (depth_cfg : DepthConfig) (vol_cfg : VolatilityConfig)
    (ts : List TickInput) :
    let c : ABComparator K := run (.init spread_cfg depth_cfg vol_cfg) ts
    (Answers TickInput.ccxt TickInput.cpp ts → NoMore c.ccxt_metrics c.cpp_metrics) ∧
      (Answers TickInput.cpp TickInput.ccxt ts → NoMore c.cpp_metrics c.ccxt_metrics) := by
  set c₀ : ABComparator K := .init spread_cfg depth_cfg vol_cfg
  have hpos (fetched : TickInput → Fetched) :=
    volume_nonneg_of_mem_placed c₀ (entries fetched ts) c₀.vol_engine
  have hrun := inv_of_run (K := K) spread_cfg depth_cfg vol_cfg ts
  have hccxt := hrun.ccxt.booked
  have hcpp := hrun.cpp.booked
  exact ⟨fun h => (covers_entries c₀ h).noMore hccxt hcpp (hpos TickInput.cpp),
    fun h => (covers_entries c₀ h).noMore hcpp hccxt (hpos TickInput.ccxt)⟩

/-- Only the C++ connector answers at first, and then both do. -/
def lateCcxt : List TickInput :=
  [{ ccxt := ⟨none, 900, 1001⟩, cpp := ⟨some 100, 2, 1001⟩, ccxt_now := 1001, cpp_now := 1001 },
    { ccxt := ⟨some 99, 40, 1031⟩, cpp := ⟨some 99, 2, 1031⟩, ccxt_now := 1031, cpp_now := 1031 }]

/-- Only the CCXT connector does. -/
def lateCpp : List TickInput :=
  lateCcxt.map fun t => { t with ccxt := t.cpp, cpp := t.ccxt }

theorem run_dominates_late :
    (let c : ABComparator ℝ := run (.init default default default) lateCcxt;
      NoMore c.ccxt_metrics c.cpp_metrics) ∧
    (let c : ABComparator ℝ := run (.init default default default) lateCpp;
      NoMore c.cpp_metrics c.ccxt_metrics) :=
  ⟨(run_dominates default default default lateCcxt).1 (by unfold Answers; decide +kernel),
    (run_dominates default default default lateCpp).2 (by unfold Answers; decide +kernel)⟩

end Dominates

/-! ## The unit of the prices -/

section Rescaled

variable {r : ℚ}

/-- The same offer with its price in another unit. -/
def Offer.scaled (r : K) (o : Offer K) : Offer K := ⟨o.side, o.price * r, o.amount / r⟩

def Round.scaled (r : K) (round : Round K) : Round K :=
  ⟨round.mid * r, round.offers.map (Offer.scaled r)⟩

def Fetched.scaled (r : ℚ) (f : Fetched) : Fetched := { f with mid := f.mid.map (· * r) }

def TickInput.scaled (r : ℚ) (t : TickInput) : TickInput :=
  { t with ccxt := t.ccxt.scaled r, cpp := t.cpp.scaled r }

omit [LinearOrder K] [MathFunctions K] [ExpFunction K] in
theorem Offer.volume_scaled {r : K} (hr : r ≠ 0) (o : Offer K) : (o.scaled r).volume = o.volume := by
  unfold Offer.volume Offer.scaled
  field_simp

omit [LinearOrder K] [MathFunctions K] [ExpFunction K] in
theorem Offer.cash_scaled {r : K} (hr : r ≠ 0) (o : Offer K) : (o.scaled r).cash = o.cash := by
  rw [Offer.cash, Offer.cash, Offer.volume_scaled hr]
  rfl

theorem global_mid_scaled (hr : 0 < r) (t : TickInput) :
    (t.scaled r).global_mid = t.global_mid.map (· * r) := by
  have hor : ∀ a b : Option ℚ, mid_or (a.map (· * r)) (b.map (· * r)) = (mid_or a b).map (· * r) := by
    intro a b
    cases a with
    | none => rfl
    | some a =>
      by_cases ha : a = 0
      · simp [mid_or, ha]
      · simp [mid_or, ha, hr.ne']
  unfold TickInput.global_mid TickInput.scaled Fetched.scaled
  rw [hor, Option.filter_map]
  congr 2
  funext mid
  simp [hr]

theorem entries_scaled (hr : 0 < r) (fetched : TickInput → Fetched)
    (hfetched : ∀ t : TickInput, (fetched (t.scaled r)).mid.isSome = (fetched t).mid.isSome)
    (ts : List TickInput) :
    entries fetched (ts.map (TickInput.scaled r)) =
      (entries fetched ts).map fun e => (e.1 * r, e.2) := by
  rw [entries, entries, List.filterMap_map, List.map_filterMap]
  congr 1
  funext t
  simp only [Function.comp_apply, global_mid_scaled hr, hfetched, Option.map_map]
  rfl

/-- The window of closes, in another unit. -/
def ScaledBy (r : ℚ) (v v' : VolatilityEngine K) : Prop :=
  v'.cfg = v.cfg ∧ v'.closes.items = v.closes.items.map (· * r)

theorem returns_scaled (hr : 0 < r) : ∀ l : List ℚ, returns (l.map (· * r)) = returns l
  | [] | [_] => rfl
  | a :: b :: l => by
    have ih := returns_scaled hr (b :: l)
    rw [List.map_cons] at ih
    rw [List.map_cons, List.map_cons, returns, returns, ih, ← sub_mul, mul_div_mul_right _ _ hr.ne']

omit [LinearOrder K] [ExpFunction K] in
/-- Returns have no unit. -/
theorem rolling_vol_scaled (hr : 0 < r) {v v' : VolatilityEngine K} (h : ScaledBy r v v') :
    v'.rolling_vol = v.rolling_vol := by
  unfold VolatilityEngine.rolling_vol
  rw [h.2, returns_scaled hr, List.length_map]

omit [LinearOrder K] [MathFunctions K] [ExpFunction K] in
theorem ScaledBy.update_price {v v' : VolatilityEngine K} (h : ScaledBy r v v') (mid : ℚ) :
    ScaledBy r (v.update_price mid) (v'.update_price (mid * r)) := by
  refine ⟨h.1, ?_⟩
  unfold VolatilityEngine.update_price BoundedQueue.push
  simp only [h.1, h.2, List.map_drop, List.map_append, List.length_append, List.length_map]
  rfl

theorem levels_scaled (hr : 0 < r) (c : ABComparator K) {v v' : VolatilityEngine K}
    (h : ScaledBy r v v') : levels c v' = levels c v := by
  unfold levels
  rw [rolling_vol_scaled hr h]

variable [IsStrictOrderedRing K]

omit [MathFunctions K] [ExpFunction K] in
theorem level_offer_scaled {r : K} (hr : 0 < r) (side : Side) (mid spread_pct amt_usd : K) :
    level_offer side (mid * r) spread_pct amt_usd =
      (level_offer side mid spread_pct amt_usd).map (Offer.scaled r) := by
  have hprice : mid * r * (1 + spread_pct / ((100 : ℚ) : K)) =
      mid * (1 + spread_pct / ((100 : ℚ) : K)) * r := by ring
  unfold level_offer
  simp only [hprice]
  by_cases hpos : 0 < mid * (1 + spread_pct / ((100 : ℚ) : K))
  · rw [if_pos hpos, if_pos (mul_pos hpos hr), ← div_div]
    by_cases hamount : amt_usd / (mid * (1 + spread_pct / ((100 : ℚ) : K))) ≤ 0
    · rw [if_pos hamount, if_pos (div_nonpos_of_nonpos_of_nonneg hamount hr.le)]
      rfl
    · rw [if_neg hamount, if_neg (not_le.mpr (div_pos (not_le.mp hamount) hr))]
      rfl
  · rw [if_neg hpos, if_neg fun h => hpos ((mul_pos_iff_of_pos_right hr).mp h), if_pos le_rfl,
      if_pos le_rfl]
    rfl

omit [MathFunctions K] [ExpFunction K] in
theorem side_offers_scaled {r : K} (hr : 0 < r) (side : Side) (mid : K) (spreads amts : List K) :
    side_offers side (mid * r) spreads amts =
      (side_offers side mid spreads amts).map (Offer.scaled r) := by
  rw [side_offers, side_offers, List.map_filterMap]
  simp only [level_offer_scaled hr]

/-- **The grid in another unit**: from mids and a window in another unit come the same rounds, in
that unit. -/
theorem sheet_scaled (hr : 0 < r) (c : ABComparator K) :
    ∀ (es : List (ℚ × Bool)) {v v' : VolatilityEngine K}, ScaledBy r v v' →
      sheet c v' (es.map fun e => (e.1 * r, e.2)) =
        (sheet c v es).map (Round.scaled ((r : ℚ) : K))
  | [], _, _, _ => rfl
  | (mid, answered) :: es, v, v', h => by
    have hrK : (0 : K) < ((r : ℚ) : K) := Rat.cast_pos.mpr hr
    have hnext := h.update_price mid
    rw [List.map_cons, sheet, sheet, List.map_cons, sheet_scaled hr c es hnext]
    congr 1
    cases answered with
    | false => simp [Round.scaled]
    | true =>
      simp only [if_true, Round.scaled, grid, levels_scaled hr c hnext, Rat.cast_mul,
        side_offers_scaled hrK, List.map_append]

omit [MathFunctions K] [ExpFunction K] in
theorem crossed_scaled {r : K} (hr : 0 < r) (prev_mid curr_mid : K) (o : Offer K) :
    (o.scaled r).crossed (prev_mid * r) (curr_mid * r) = o.crossed prev_mid curr_mid := by
  unfold Offer.crossed Offer.scaled crossed
  simp only [mul_right_comm _ r, mul_le_mul_iff_left₀ hr, mul_lt_mul_iff_left₀ hr]

omit [MathFunctions K] [ExpFunction K] in
theorem matched_scaled {r : K} (hr : 0 < r) : ∀ rs : List (Round K),
    matched (rs.map (Round.scaled r)) = (matched rs).map (Offer.scaled r)
  | [] | [_] => rfl
  | a :: b :: rs => by
    have ih := matched_scaled hr (b :: rs)
    rw [List.map_cons] at ih
    rw [List.map_cons, List.map_cons, matched, matched, ih, List.map_append, Round.scaled,
      Round.scaled, List.filter_map]
    congr 3
    funext o
    exact crossed_scaled hr _ _ o

omit [IsStrictOrderedRing K] [LinearOrder K] [MathFunctions K] [ExpFunction K] in
theorem placed_scaled {r : K} (rs : List (Round K)) :
    placed (rs.map (Round.scaled r)) = (placed rs).map (Offer.scaled r) := by
  rw [placed, placed, List.flatMap_map, List.map_flatMap]
  rfl

omit [MathFunctions K] [ExpFunction K] in
/-- What two books with the same offers in two units count. -/
theorem Booked.scaled {m m' : RunMetrics K} {rs : List (Round K)} {r : K} (hr : 0 < r)
    (h : Booked m (placed rs) (matched rs))
    (h' : Booked m' (placed (rs.map (Round.scaled r))) (matched (rs.map (Round.scaled r)))) :
    m'.orders_placed = m.orders_placed ∧ m'.fill_count = m.fill_count ∧
      m'.total_volume_usd = m.total_volume_usd ∧ m'.realized_pnl_usd = m.realized_pnl_usd := by
  have hvolume : Offer.volume ∘ Offer.scaled r = (Offer.volume : Offer K → K) :=
    funext (Offer.volume_scaled hr.ne')
  have hcash : Offer.cash ∘ Offer.scaled r = (Offer.cash : Offer K → K) :=
    funext (Offer.cash_scaled hr.ne')
  rw [placed_scaled, matched_scaled hr] at h'
  refine ⟨?_, ?_, ?_, ?_⟩
  · rw [h.orders_placed, h'.orders_placed, List.length_map]
  · rw [h.fill_count, h'.fill_count, List.length_map]
  · rw [h.total_volume_usd, h'.total_volume_usd, List.map_map, hvolume]
  · rw [h.realized_pnl_usd, h'.realized_pnl_usd, List.map_map, hcash]

/-- **The unit of the prices does not matter**: with every mid multiplied by the same number, both
connectors place, fill, turn over and earn the same. -/
theorem run_rescaled (spread_cfg : SpreadConfig) (depth_cfg : DepthConfig) (vol_cfg : VolatilityConfig)
    (ts : List TickInput) (hr : 0 < r) :
    let c : ABComparator K := run (.init spread_cfg depth_cfg vol_cfg) ts
    let c' : ABComparator K := run (.init spread_cfg depth_cfg vol_cfg) (ts.map (TickInput.scaled r))
    ∀ metrics ∈ [ABComparator.ccxt_metrics, ABComparator.cpp_metrics],
      (metrics c').orders_placed = (metrics c).orders_placed ∧
        (metrics c').fill_count = (metrics c).fill_count ∧
        (metrics c').total_volume_usd = (metrics c).total_volume_usd ∧
        (metrics c').realized_pnl_usd = (metrics c).realized_pnl_usd := by
  intro c c' metrics hmetrics
  have hrun := inv_of_run (K := K) spread_cfg depth_cfg vol_cfg ts
  have hrun' := inv_of_run (K := K) spread_cfg depth_cfg vol_cfg (ts.map (TickInput.scaled r))
  have hrK : (0 : K) < ((r : ℚ) : K) := Rat.cast_pos.mpr hr
  have hempty : ScaledBy r (ABComparator.init spread_cfg depth_cfg vol_cfg : ABComparator K).vol_engine
      (ABComparator.init spread_cfg depth_cfg vol_cfg : ABComparator K).vol_engine := ⟨rfl, rfl⟩
  have hsheet (fetched : TickInput → Fetched)
      (hfetched : ∀ t : TickInput, (fetched (t.scaled r)).mid.isSome = (fetched t).mid.isSome) :=
    (congrArg (sheet (.init spread_cfg depth_cfg vol_cfg : ABComparator K) _)
      (entries_scaled hr fetched hfetched ts)).trans
      (sheet_scaled hr _ (entries fetched ts) hempty)
  simp only [List.mem_cons, List.not_mem_nil, or_false] at hmetrics
  obtain rfl | rfl := hmetrics
  · have hbooked' := hrun'.ccxt.booked
    rw [hsheet TickInput.ccxt fun t => Option.isSome_map] at hbooked'
    exact hrun.ccxt.booked.scaled hrK hbooked'
  · have hbooked' := hrun'.cpp.booked
    rw [hsheet TickInput.cpp fun t => Option.isSome_map] at hbooked'
    exact hrun.cpp.booked.scaled hrK hbooked'

/-- In hundredths. -/
theorem run_rescaled_lateCcxt :
    let c : ABComparator ℝ := run (.init default default default) lateCcxt
    let c' : ABComparator ℝ :=
      run (.init default default default) (lateCcxt.map (TickInput.scaled 100))
    ∀ metrics ∈ [ABComparator.ccxt_metrics, ABComparator.cpp_metrics],
      (metrics c').orders_placed = (metrics c).orders_placed ∧
        (metrics c').fill_count = (metrics c).fill_count ∧
        (metrics c').total_volume_usd = (metrics c).total_volume_usd ∧
        (metrics c').realized_pnl_usd = (metrics c).realized_pnl_usd :=
  run_rescaled default default default lateCcxt (by norm_num)

end Rescaled

end Book

end Meridian.AbComparator
