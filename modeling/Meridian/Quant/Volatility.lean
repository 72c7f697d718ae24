import Meridian.Config.Schema
import Meridian.Lib.BoundedQueue
import Meridian.Utils.MathUtils

/-!
# The volatility engine

Model of `quant/volatility.py`: the rolling deviation of the returns of the last prices, the
Zhang-Zhang estimator of the last candles, and the features that the regime detector observes. The
two histories are bounded queues that drop their oldest element.

Out of scope: the rounding of doubles.
-/

namespace Meridian

/-- `Candle` (`exchange/base.py`). -/
structure Candle where
  timestamp : ℚ
  «open» : ℚ
  high : ℚ
  low : ℚ
  close : ℚ
  volume : ℚ
  deriving DecidableEq

/-- The observation vector of the regime detector. -/
structure Features (K : Type*) where
  zz_vol : K
  net_direction : K
  volume_change : ℚ
  price_roc : ℚ

/-- How many prices are kept. -/
def VolatilityConfig.max_samples (cfg : VolatilityConfig) : ℕ := cfg.window_minutes.1 * 60 + 10

/-- How many candles are kept. -/
def VolatilityConfig.max_candles (cfg : VolatilityConfig) : ℕ := cfg.window_minutes.1 + 5

/-- `VolatilityEngine` (`volatility.py:32-45`). -/
structure VolatilityEngine (K : Type*) [Zero K] where
  cfg : VolatilityConfig
  closes : BoundedQueue ℚ cfg.max_samples := .empty
  candles : BoundedQueue Candle cfg.max_candles := .empty
  last_net_direction : K := 0

/-- `np.diff(closes) / closes[:-1]` -/
def returns : List ℚ → List ℚ
  | a :: b :: l => (b - a) / a :: returns (b :: l)
  | _ => []

namespace Candle

/-- The candle is not skipped. -/
def valid (c : Candle) : Bool :=
  !(decide (c.high ≤ 0) || decide (c.low ≤ 0) || decide (c.close ≤ 0) || decide (c.open ≤ 0))

variable {K : Type*} [Field K] [LinearOrder K] [MathFunctions K]

/-- `0.5 * (ln(H/L))²`, or 0 for a degenerate candle. -/
def hl_term (c : Candle) : K :=
  if c.high = c.low then 0 else 1 / 2 * MathFunctions.log ((c.high / c.low : ℚ) : K) ^ 2

/-- `ln(C/O)` -/
def co_val (c : Candle) : K := MathFunctions.log ((c.close / c.open : ℚ) : K)

/-- `(2ln2-1) * (ln(C/O))²` -/
def co_term (c : Candle) : K := (2 * MathFunctions.log 2 - 1) * c.co_val ^ 2

end Candle

namespace VolatilityEngine

variable {K : Type*} [Field K] [LinearOrder K] [MathFunctions K]

/-- `update_price` (`volatility.py:47-50`). -/
def update_price (e : VolatilityEngine K) (price : ℚ) : VolatilityEngine K :=
  { e with closes := e.closes.push price }

/-- `update_candles` (`volatility.py:56-59`). -/
def update_candles (e : VolatilityEngine K) (candles : List Candle) : VolatilityEngine K :=
  { e with candles := e.candles.pushAll candles }

/-- `rolling_vol` (`volatility.py:65-80`). -/
def rolling_vol (e : VolatilityEngine K) : K :=
  if e.closes.items.length < 3 then 0
  else MathFunctions.sqrt ((variance (returns e.closes.items) : ℚ) : K)

/-- The regime for a mean direction. -/
def zz_regime (cfg : VolatilityConfig) (net : K) : String :=
  if ((cfg.trending_threshold.1 : ℚ) : K) < net then "trending_up"
  else if net < -((cfg.trending_threshold.1 : ℚ) : K) then "trending_down"
  else if |net| < ((cfg.choppy_threshold.1 : ℚ) : K) then "choppy"
  else "choppy"

/-- `zhang_zhang_vol` (`volatility.py:86-148`), and the direction it leaves behind. -/
def zhang_zhang_vol (e : VolatilityEngine K) : (K × String) × VolatilityEngine K :=
  if e.candles.items.length < 3 then ((0, "choppy"), e)
  else
    match e.candles.items.filter Candle.valid with
    | [] => ((0, "choppy"), e)
    | valid =>
      let zz_variance : K := mean (valid.map fun c => c.hl_term - c.co_term)
      let net : K := mean (valid.map Candle.co_val)
      ((MathFunctions.sqrt (max zz_variance 0), zz_regime e.cfg net),
        { e with last_net_direction := net })

/-- The deviation of the last volume from the mean of those before it. -/
def volume_change (candles : List Candle) : ℚ :=
  match (candles.map Candle.volume).filter (0 < ·) with
  | v :: w :: l =>
    let mean_vol := mean (v :: w :: l).dropLast
    if 0 < mean_vol then ((w :: l).getLastD v - mean_vol) / mean_vol else 0
  | _ => 0

/-- The change of the close over the candles. -/
def price_roc (candles : List Candle) : ℚ :=
  match (candles.map Candle.close).filter (0 < ·) with
  | a :: b :: l => ((b :: l).getLastD a - a) / a
  | _ => 0

/-- `hmm_features` (`volatility.py:154-188`). -/
def hmm_features (e : VolatilityEngine K) : Option (Features K) × VolatilityEngine K :=
  if e.candles.items.length < 3 then (none, e)
  else
    let ((zz_vol, _), e') := e.zhang_zhang_vol
    (some
      { zz_vol := zz_vol
        net_direction := e'.last_net_direction
        volume_change := volume_change e.candles.items
        price_roc := price_roc e.candles.items }, e')

end VolatilityEngine

end Meridian
