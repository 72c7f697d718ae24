import Mathlib.Data.Rat.Defs

/-!
# The connector interface's records

The dataclasses of `exchange/base.py` that the modelled code passes around, and the order book of
`exchange/ws_connector.py`. Floats are exact rationals; a status is the free text that the
exchange uses.
-/

namespace Meridian

/-- "buy" or "sell". -/
inductive Side where
  | buy
  | sell
  deriving DecidableEq

/-- `Balance` (`base.py:38-42`). -/
structure Balance where
  usd : ℚ
  token : ℚ
  quote_currency : String := "USDT"
  deriving DecidableEq

/-- `Order` (`base.py:43-57`). -/
structure Order where
  id : String
  exchange : String
  symbol : String
  side : Side
  price : ℚ
  amount : ℚ
  amount_usd : ℚ
  status : String
  timestamp : ℚ
  filled_amount : ℚ := 0
  filled_price : ℚ := 0
  fee : ℚ := 0
  fee_currency : String := ""
  deriving DecidableEq

/-- `Fill` (`base.py:62-75`). -/
structure Fill where
  id : String
  order_id : String
  exchange : String
  symbol : String
  side : Side
  filled_price : ℚ
  filled_amount : ℚ
  fee : ℚ
  fee_currency : String
  timestamp : ℚ
  pnl_usd : ℚ := 0
  deriving DecidableEq

/-- `OrderBook` (`ws_connector.py:18-24`): prices with quantities, best level first. -/
structure OrderBook where
  exchange : String
  bids : List (ℚ × ℚ)
  asks : List (ℚ × ℚ)
  timestamp : ℚ
  deriving DecidableEq

/-- `OrderBook.mid` (`ws_connector.py:36-41`). -/
def OrderBook.mid (b : OrderBook) : Option ℚ :=
  match b.bids, b.asks with
  | (bid, _) :: _, (ask, _) :: _ => some ((bid + ask) / 2)
  | _, _ => none

end Meridian
