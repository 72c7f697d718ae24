import Mathlib.Algebra.BigOperators.Ring.List
import Mathlib.Algebra.Order.BigOperators.Group.List
import Mathlib.Data.Finset.Max
import Mathlib.Tactic.Linarith
import Mathlib.Tactic.Ring
import Meridian.Config.Schema
import Meridian.Cpp.MexcConnector
import Meridian.Exchange.CcxtConnector

/-!
# The global mid-price

The orchestrator averages the mids of the exchanges that answer. Model of `_tick_prices` up to the
price it publishes (`orchestrator.py:275-308`), of `normalize_weights` (`math_utils.py:33-41`) and
of the tickers that the connectors make of what the exchanges push: `gate_connector.cpp:638-643`,
`kucoin_connector.cpp:340-346`, `kraken_connector.cpp:440-448` (`mexc_connector.cpp:379-387` is
`Mexc.on_ticker_msg`), and `ccxt_connector.py:108-118`. `std::stod` is a parameter.

MEXC and Kraken fall back to the last price when a side of the book has none; Gate and KuCoin take
the mean of whatever the two texts parse to, and an empty text parses to 0.

## Results

* `published_below`: a Gate ticker with empty texts publishes half the price of the other exchange;
* `published_between`: what is published lies between the smallest and the largest positive mid of
  positive weight exactly if the mids that are not positive do not outweigh the others' excess over
  the smallest one (`Carried`), as when there are none of them (`carried_of_pos`);
* `published_between_last`: there are none where every exchange that answers is on a connector that
  falls back on the last price, and has one.

Out of scope: the rounding of doubles. Prices and weights are exact rationals, so that the average of
equal mids is that mid, where the code may be off by one unit in the last place.
-/

namespace Meridian.GlobalMid

/-! ## The connectors' tickers -/

/-- `safe_stod`: 0 for the empty text and for what `std::stod` throws on. -/
def safe_stod (stod : String → Option ℚ) (s : String) : ℚ := if s = "" then 0 else (stod s).getD 0

/-- A ticker whose mid is the mean of bid and ask. -/
def mean_ticker (bid ask last now : ℚ) : Cpp.Ticker :=
  { bid := bid, ask := ask, mid := (bid + ask) / 2, last := last, timestamp := now }

/-- `GateConnector::on_ticker_msg` (`gate_connector.cpp:638-643`). -/
def gate_ticker (stod : String → Option ℚ) (now : ℚ) (result : Mexc.Json) : Cpp.Ticker :=
  mean_ticker (safe_stod stod (result.value "highest_bid" "0"))
    (safe_stod stod (result.value "lowest_ask" "0")) (safe_stod stod (result.value "last" "0")) now

/-- `KuCoinConnector::on_ticker_msg` (`kucoin_connector.cpp:340-346`). -/
def kucoin_ticker (stod : String → Option ℚ) (now : ℚ) (data : Mexc.Json) : Cpp.Ticker :=
  mean_ticker (safe_stod stod (data.value "bestBid" "0"))
    (safe_stod stod (data.value "bestAsk" "0")) (safe_stod stod (data.value "price" "0")) now

/-- `KrakenConnector::on_ticker_msg` (`kraken_connector.cpp:440-448`). -/
def kraken_ticker (now : ℚ) (data : Mexc.Json) : Cpp.Ticker :=
  let bid := Mexc.jdbl data "bid"
  let ask := Mexc.jdbl data "ask"
  let last := Mexc.jdbl data "last"
  { bid := bid, ask := ask, mid := if bid > 0 ∧ ask > 0 then (bid + ask) / 2 else last
    last := last, timestamp := now }

/-- `CCXTConnector.fetch_ticker` (`ccxt_connector.py:108-118`), from ccxt's unified ticker; without a
last price it raises. -/
def ccxt_ticker (bid ask last timestamp : Option ℚ) (now : ℚ) : Option Cpp.Ticker :=
  last.map fun last =>
    mean_ticker (Ccxt.orElse bid last) (Ccxt.orElse ask last) last
      (if Ccxt.orElse timestamp 0 = 0 then now else Ccxt.orElse timestamp 0 / 1000)

/-- A ticker of a connector that falls back on the last price where a side of the book has none. -/
inductive FallsBack : Cpp.Ticker → Prop
  | mexc (now : ℚ) (d : Mexc.Json) (c : Mexc.Connector) :
    FallsBack (Mexc.on_ticker_msg now d c).latest_ticker
  | kraken (now : ℚ) (data : Mexc.Json) : FallsBack (kraken_ticker now data)
  | ccxt {bid ask last timestamp : Option ℚ} {now : ℚ} {t : Cpp.Ticker}
    (hbid : ∀ v, bid = some v → 0 ≤ v) (hask : ∀ v, ask = some v → 0 ≤ v)
    (h : ccxt_ticker bid ask last timestamp now = some t) : FallsBack t

/-- The mean of two positive prices, or the last price. -/
theorem mid_or_last_pos {bid ask last : ℚ} (h : 0 < last) :
    0 < if bid > 0 ∧ ask > 0 then (bid + ask) / 2 else last := by
  split_ifs with hpos
  · exact div_pos (add_pos hpos.1 hpos.2) two_pos
  · exact h

theorem orElse_pos {x : Option ℚ} {d : ℚ} (hx : ∀ v, x = some v → 0 ≤ v) (hd : 0 < d) :
    0 < Ccxt.orElse x d := by
  unfold Ccxt.orElse
  split
  · rename_i v
    split_ifs with hv
    · exact hd
    · exact lt_of_le_of_ne (hx v rfl) (Ne.symm hv)
  · exact hd

/-- Where there is a last price, their mid is positive. -/
theorem FallsBack.mid_pos {t : Cpp.Ticker} (h : FallsBack t) (hlast : 0 < t.last) : 0 < t.mid := by
  cases h with
  | mexc now d c => exact mid_or_last_pos hlast
  | kraken now data => exact mid_or_last_pos hlast
  | ccxt hbid hask h =>
    obtain ⟨last, rfl, rfl⟩ := Option.map_eq_some_iff.mp h
    exact div_pos (add_pos (orElse_pos hbid hlast) (orElse_pos hask hlast)) two_pos

/-! ## The price loop -/

/-- `GlobalMidWeights.as_dict`. -/
def as_dict (c : GlobalMidWeights) : List (String × ℚ) :=
  [("kucoin", c.kucoin.1), ("gate", c.gate.1), ("mexc", c.mexc.1), ("kraken", c.kraken.1),
    ("binance", c.binance.1)]

/-- `weights.get(k, 0.0)`. -/
def weight (c : GlobalMidWeights) (k : String) : ℚ := ((as_dict c).lookup k).getD 0

/-- `normalize_weights`, none where it raises. -/
def normalize_weights (weights : List (String × ℚ)) : Option (List (String × ℚ)) :=
  let total := (weights.map Prod.snd).sum
  if total = 0 then none else some (weights.map fun (k, v) => (k, v / total))

/-- The mids of the fetches that succeeded. -/
def valid (results : List (String × Option Cpp.Ticker)) : List (String × ℚ) :=
  results.filterMap fun (name, result) => result.map fun ticker => (name, ticker.mid)

/-- `_tick_prices`: the `global_mid` it publishes for the fetches of the exchanges, each failed or a
ticker; none where it returns or raises before. -/
def tick_prices (c : GlobalMidWeights) (results : List (String × Option Cpp.Ticker)) : Option ℚ :=
  let valid := valid results
  if valid = [] then none
  else do
    let normalised ← normalize_weights (valid.map fun (k, _) => (k, weight c k))
    let global_mid := (valid.map fun (k, v) => (normalised.lookup k).getD 0 * v).sum
    if global_mid ≤ 0 then none else some global_mid

/-! ## Weighted averages -/

/-- The values that are positive and of positive weight. -/
def positives (l : List (ℚ × ℚ)) : List ℚ :=
  (l.filter fun wv => decide (0 < wv.1 ∧ 0 < wv.2)).map Prod.snd

/-- `x` lies between the smallest and the largest of these. -/
def Between (l : List (ℚ × ℚ)) (x : ℚ) : Prop :=
  ∃ lo hi, IsLeast {v | v ∈ positives l} lo ∧ IsGreatest {v | v ∈ positives l} hi ∧ lo ≤ x ∧ x ≤ hi

/-- How far a value that is not positive lies below `lo`, weighted. -/
def shortfall (lo : ℚ) (wv : ℚ × ℚ) : ℚ := if 0 < wv.2 then 0 else wv.1 * (lo - wv.2)

/-- How far a positive value lies above `lo`, weighted. -/
def excess (lo : ℚ) (wv : ℚ × ℚ) : ℚ := if 0 < wv.2 then wv.1 * (wv.2 - lo) else 0

/-- The values that are not positive do not outweigh the excess of the others over the smallest. -/
def Carried (l : List (ℚ × ℚ)) : Prop :=
  ∀ lo, IsLeast {v | v ∈ positives l} lo → (l.map (shortfall lo)).sum ≤ (l.map (excess lo)).sum

/-- The sum of the weights. -/
def total (l : List (ℚ × ℚ)) : ℚ := (l.map Prod.fst).sum

/-- The weighted sum of the values. -/
def weighted_sum (l : List (ℚ × ℚ)) : ℚ := (l.map fun wv => wv.1 * wv.2).sum

variable {l : List (ℚ × ℚ)} {lo hi : ℚ}

theorem mem_positives {w v : ℚ} (h : (w, v) ∈ l) (hw : 0 < w) (hv : 0 < v) : v ∈ positives l :=
  List.mem_map.mpr ⟨(w, v), List.mem_filter.mpr ⟨h, decide_eq_true ⟨hw, hv⟩⟩, rfl⟩

theorem pos_of_mem_positives {v : ℚ} (h : v ∈ positives l) : 0 < v := by
  obtain ⟨wv, hwv, rfl⟩ := List.mem_map.mp h
  exact (of_decide_eq_true (List.mem_filter.mp hwv).2).2

/-- Positive values have a smallest and a largest one. -/
theorem exists_extremes (h : positives l ≠ []) :
    ∃ lo hi, IsLeast {v | v ∈ positives l} lo ∧ IsGreatest {v | v ∈ positives l} hi := by
  have hne : (positives l).toFinset.Nonempty := List.toFinset_nonempty_iff _ |>.mpr h
  have hcoe : {v | v ∈ positives l} = ((positives l).toFinset : Set ℚ) := (List.coe_toFinset _).symm
  rw [hcoe]
  exact ⟨_, _, Finset.isLeast_min' _ hne, Finset.isGreatest_max' _ hne⟩

theorem sum_map_nonpos {f : ℚ × ℚ → ℚ} (h : ∀ wv ∈ l, f wv ≤ 0) : (l.map f).sum ≤ 0 := by
  have hle : (l.map f).sum ≤ (l.map fun _ => (0 : ℚ)).sum := List.sum_le_sum h
  simpa using hle

theorem sum_map_nonneg {f : ℚ × ℚ → ℚ} (h : ∀ wv ∈ l, 0 ≤ f wv) : 0 ≤ (l.map f).sum := by
  have hle : (l.map fun _ => (0 : ℚ)).sum ≤ (l.map f).sum := List.sum_le_sum h
  simpa using hle

/-- A positive weighted sum has a positive value of positive weight. -/
theorem positives_ne_nil (hw : ∀ wv ∈ l, 0 ≤ wv.1) (h : 0 < weighted_sum l) :
    positives l ≠ [] := by
  intro hnil
  refine absurd h (not_lt.mpr (sum_map_nonpos fun wv hwv => ?_))
  rcases (hw wv hwv).eq_or_lt with h0 | h0
  · exact (mul_eq_zero_of_left h0.symm wv.2).le
  · refine mul_nonpos_of_nonneg_of_nonpos h0.le (not_lt.mp fun hv => ?_)
    exact List.not_mem_nil (hnil ▸ mem_positives hwv h0 hv)

/-- Against a multiple of the total: excess less shortfall. -/
theorem weighted_sum_sub (l : List (ℚ × ℚ)) (lo : ℚ) :
    weighted_sum l - lo * total l = (l.map (excess lo)).sum - (l.map (shortfall lo)).sum := by
  induction l with
  | nil => simp [weighted_sum, total]
  | cons wv l ih =>
    have hstep : wv.1 * wv.2 - lo * wv.1 = excess lo wv - shortfall lo wv := by
      unfold excess shortfall
      split_ifs <;> ring
    simp only [weighted_sum, total, List.map_cons, List.sum_cons] at ih ⊢
    linarith

theorem excess_nonneg (hw : ∀ wv ∈ l, 0 ≤ wv.1) (hlo : IsLeast {v | v ∈ positives l} lo) :
    ∀ wv ∈ l, 0 ≤ excess lo wv := by
  intro wv hwv
  unfold excess
  split_ifs with hv
  · rcases (hw wv hwv).eq_or_lt with h0 | h0
    · rw [← h0, zero_mul]
    · exact mul_nonneg h0.le (sub_nonneg.mpr (hlo.2 (mem_positives hwv h0 hv)))
  · exact le_rfl

theorem excess_nonpos (hw : ∀ wv ∈ l, 0 ≤ wv.1) (hhi : IsGreatest {v | v ∈ positives l} hi) :
    ∀ wv ∈ l, excess hi wv ≤ 0 := by
  intro wv hwv
  unfold excess
  split_ifs with hv
  · rcases (hw wv hwv).eq_or_lt with h0 | h0
    · rw [← h0, zero_mul]
    · exact mul_nonpos_of_nonneg_of_nonpos h0.le
        (sub_nonpos.mpr (hhi.2 (mem_positives hwv h0 hv)))
  · exact le_rfl

theorem shortfall_nonneg (hw : ∀ wv ∈ l, 0 ≤ wv.1) (hlo : 0 < lo) :
    ∀ wv ∈ l, 0 ≤ shortfall lo wv := by
  intro wv hwv
  unfold shortfall
  split_ifs with hv
  · exact le_rfl
  · exact mul_nonneg (hw wv hwv) (sub_nonneg.mpr ((not_lt.mp hv).trans hlo.le))

theorem weighted_sum_le (hw : ∀ wv ∈ l, 0 ≤ wv.1) (hhi : IsGreatest {v | v ∈ positives l} hi) :
    weighted_sum l ≤ hi * total l := by
  have hsub := weighted_sum_sub l hi
  have hexcess := sum_map_nonpos (excess_nonpos hw hhi)
  have hshort := sum_map_nonneg (shortfall_nonneg hw (pos_of_mem_positives hhi.1))
  linarith

theorem total_pos (hw : ∀ wv ∈ l, 0 ≤ wv.1) (h : 0 < weighted_sum l) : 0 < total l := by
  obtain ⟨lo, hi, -, hhi⟩ := exists_extremes (positives_ne_nil hw h)
  by_contra hle
  have hmul := mul_nonpos_of_nonneg_of_nonpos (pos_of_mem_positives hhi.1).le (not_lt.mp hle)
  have hsum := weighted_sum_le hw hhi
  linarith

/-- **A positive weighted average** lies between the extremes of the positive values exactly if the
others are carried. -/
theorem between_iff (hw : ∀ wv ∈ l, 0 ≤ wv.1) (h : 0 < weighted_sum l) :
    Between l (weighted_sum l / total l) ↔ Carried l := by
  have htotal := total_pos hw h
  obtain ⟨lo, hi, hlo, hhi⟩ := exists_extremes (positives_ne_nil hw h)
  have hlower : lo ≤ weighted_sum l / total l ↔
      (l.map (shortfall lo)).sum ≤ (l.map (excess lo)).sum := by
    have hsub := weighted_sum_sub l lo
    rw [le_div_iff₀ htotal]
    constructor
    · intro hle
      linarith
    · intro hle
      linarith
  constructor
  · rintro ⟨lo', -, hlo', -, hle, -⟩ lo'' hlo''
    rw [hlo''.unique hlo]
    rw [hlo'.unique hlo] at hle
    exact hlower.mp hle
  · intro hcarried
    exact ⟨lo, hi, hlo, hhi, hlower.mpr (hcarried lo hlo),
      (div_le_iff₀ htotal).mpr (weighted_sum_le hw hhi)⟩

/-- Where every value of positive weight is positive, there is no shortfall. -/
theorem carried_of_pos (hw : ∀ wv ∈ l, 0 ≤ wv.1) (h : ∀ wv ∈ l, 0 < wv.1 → 0 < wv.2) :
    Carried l := by
  intro lo hlo
  refine le_trans (sum_map_nonpos fun wv hwv => ?_) (sum_map_nonneg (excess_nonneg hw hlo))
  unfold shortfall
  split_ifs with hv
  · exact le_rfl
  · rcases (hw wv hwv).eq_or_lt with h0 | h0
    · rw [← h0, zero_mul]
    · exact absurd (h wv hwv h0) hv

/-! ## What is published -/

/-- The weights and mids of the exchanges that answered. -/
def responders (c : GlobalMidWeights) (results : List (String × Option Cpp.Ticker)) :
    List (ℚ × ℚ) :=
  (valid results).map fun (k, v) => (weight c k, v)

theorem weight_nonneg (c : GlobalMidWeights) (k : String) : 0 ≤ weight c k := by
  rw [weight]
  cases h : (as_dict c).lookup k with
  | none => exact le_rfl
  | some w =>
    obtain ⟨before, after, heq, -⟩ := List.lookup_eq_some_iff.mp h
    have hmem : (k, w) ∈ as_dict c := heq ▸ List.mem_append_right before List.mem_cons_self
    have hall : ∀ kv ∈ as_dict c, 0 ≤ kv.2 := by
      simp only [as_dict, List.forall_mem_cons]
      exact ⟨c.kucoin.2.1, c.gate.2.1, c.mexc.2.1, c.kraken.2.1, c.binance.2.1,
        fun _ hnil => absurd hnil List.not_mem_nil⟩
    exact hall _ hmem

theorem responders_nonneg (c : GlobalMidWeights) (results : List (String × Option Cpp.Ticker)) :
    ∀ wv ∈ responders c results, 0 ≤ wv.1 := by
  intro wv hwv
  obtain ⟨kv, -, rfl⟩ := List.mem_map.mp hwv
  exact weight_nonneg c kv.1

/-- A table with one value for each key. -/
theorem lookup_map {f : String → ℚ} {k : String} {vs : List (String × ℚ)} {v : ℚ}
    (h : (k, v) ∈ vs) : (vs.map fun kv => (kv.1, f kv.1)).lookup k = some (f k) := by
  induction vs with
  | nil => exact absurd h List.not_mem_nil
  | cons kv vs ih =>
    rw [List.map_cons, List.lookup_cons]
    by_cases hk : k = kv.1
    · rw [hk, beq_self_eq_true]
    · rw [beq_false_of_ne hk]
      refine ih ((List.mem_cons.mp h).resolve_left fun heq => hk ?_)
      rw [← heq]

/-- The mid that the loop forms is the weighted average of the responders. -/
theorem global_mid_eq (c : GlobalMidWeights) (results : List (String × Option Cpp.Ticker)) :
    ((valid results).map fun kv => (((valid results).map fun kv =>
        (kv.1, weight c kv.1 / total (responders c results))).lookup kv.1).getD 0 * kv.2).sum =
      weighted_sum (responders c results) / total (responders c results) := by
  have hterm : ∀ kv ∈ valid results, (((valid results).map fun kv =>
      (kv.1, weight c kv.1 / total (responders c results))).lookup kv.1).getD 0 * kv.2 =
        weight c kv.1 * kv.2 / total (responders c results) := by
    intro kv hkv
    rw [lookup_map (f := fun k => weight c k / total (responders c results)) hkv, Option.getD_some,
      div_mul_eq_mul_div]
  rw [List.map_congr_left hterm, weighted_sum, responders, List.map_map]
  simp only [div_eq_mul_inv, List.sum_map_mul_right]
  rfl

/-- What is published is the weighted average of the responders, where that is positive. -/
theorem tick_prices_eq (c : GlobalMidWeights) (results : List (String × Option Cpp.Ticker)) :
    tick_prices c results =
      let l := responders c results
      if 0 < weighted_sum l then some (weighted_sum l / total l) else none := by
  have hw := responders_nonneg c results
  have htotal :
      ((valid results).map fun kv => weight c kv.1).sum = total (responders c results) := by
    rw [total, responders, List.map_map]
    rfl
  have hmid := global_mid_eq c results
  dsimp only
  unfold tick_prices normalize_weights
  simp only [List.map_map, Function.comp_def, htotal]
  by_cases hnil : valid results = []
  · have hzero : ¬ 0 < weighted_sum (responders c results) := by
      rw [responders, hnil]
      exact lt_irrefl 0
    rw [if_pos hnil, if_neg hzero]
  · rw [if_neg hnil]
    by_cases hpos : 0 < weighted_sum (responders c results)
    · have htot := total_pos hw hpos
      rw [if_neg htot.ne', if_pos hpos, Option.bind_eq_bind, Option.bind_some, hmid,
        if_neg (not_le.mpr (div_pos hpos htot))]
    · rw [if_neg hpos]
      split_ifs with htot
      · rfl
      · have htot' : 0 ≤ total (responders c results) := by
          unfold total
          exact sum_map_nonneg hw
        rw [Option.bind_eq_bind, Option.bind_some, hmid,
          if_pos (div_nonpos_of_nonpos_of_nonneg (not_lt.mp hpos) htot')]

theorem published_iff (c : GlobalMidWeights) (results : List (String × Option Cpp.Ticker)) :
    (∀ mid, tick_prices c results = some mid → Between (responders c results) mid) ↔
      (0 < weighted_sum (responders c results) → Carried (responders c results)) := by
  have hw := responders_nonneg c results
  have heq := tick_prices_eq c results
  dsimp only at heq
  constructor
  · intro h hpos
    rw [if_pos hpos] at heq
    exact (between_iff hw hpos).mp (h _ heq)
  · intro h mid hmid
    split_ifs at heq with hpos
    · rw [Option.some.inj (hmid.symm.trans heq)]
      exact (between_iff hw hpos).mpr (h hpos)
    · exact absurd (hmid.symm.trans heq) (by simp)

/-- Where every responder of positive weight has a positive mid. -/
theorem published_of_pos {c : GlobalMidWeights} {results : List (String × Option Cpp.Ticker)}
    (h : ∀ wv ∈ responders c results, 0 < wv.1 → 0 < wv.2) {mid : ℚ}
    (hmid : tick_prices c results = some mid) : Between (responders c results) mid :=
  (published_iff c results).mpr (fun _ => carried_of_pos (responders_nonneg c results) h) mid hmid

/-- **When what is published lies between the positive mids**: exactly if nothing is published or the
mids that are not positive do not outweigh the others' excess over the smallest one; in particular
if every exchange of positive weight that answers delivers a positive mid. -/
theorem published_between (c : GlobalMidWeights) (results : List (String × Option Cpp.Ticker)) :
    ((∀ mid, tick_prices c results = some mid → Between (responders c results) mid) ↔
      (0 < weighted_sum (responders c results) → Carried (responders c results))) ∧
    ((∀ wv ∈ responders c results, 0 < wv.1 → 0 < wv.2) →
      ∀ mid, tick_prices c results = some mid → Between (responders c results) mid) :=
  ⟨published_iff c results, fun h _ hmid => published_of_pos h hmid⟩

/-- **Connectors that fall back on the last price** keep the published price between the mids, if
every exchange that answers has a last price. -/
theorem published_between_last (c : GlobalMidWeights) {results : List (String × Option Cpp.Ticker)}
    (h : ∀ name t, (name, some t) ∈ results → FallsBack t ∧ 0 < t.last) {mid : ℚ}
    (hmid : tick_prices c results = some mid) : Between (responders c results) mid := by
  refine published_of_pos (fun wv hwv _ => ?_) hmid
  obtain ⟨kv, hkv, rfl⟩ := List.mem_map.mp hwv
  obtain ⟨⟨name, result⟩, hmem, hsome⟩ := List.mem_filterMap.mp hkv
  obtain ⟨t, rfl, rfl⟩ := Option.map_eq_some_iff.mp hsome
  obtain ⟨hback, hlast⟩ := h name t hmem
  exact hback.mid_pos hlast

/-- Gate pushes a ticker with empty texts while KuCoin's best prices are 100: 50 is published. -/
theorem published_below :
    let stod (s : String) : Option ℚ := if s = "100" then some 100 else none
    let gate : Mexc.Json :=
      { text := fun k => if k = "highest_bid" ∨ k = "lowest_ask" then some "" else some "100" }
    let kucoin : Mexc.Json := { text := fun _ => some "100" }
    let results := [("kucoin", some (kucoin_ticker stod 0 kucoin)),
      ("gate", some (gate_ticker stod 0 gate))]
    tick_prices default results = some 50 ∧ ¬ Between (responders default results) 50 := by
  intro stod gate kucoin results
  have hpositives : positives (responders default results) = [100] := by decide +kernel
  refine ⟨by decide +kernel, ?_⟩
  rintro ⟨lo, hi, hlo, -, hle, -⟩
  have hmem : lo ∈ positives (responders default results) := hlo.1
  rw [hpositives, List.mem_singleton] at hmem
  rw [hmem] at hle
  exact absurd hle (by decide)

end Meridian.GlobalMid
