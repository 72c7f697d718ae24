import Mathlib.Data.List.Sort
import Mathlib.Data.Rat.Defs
import Meridian.Lib.Keyed

/-!
# The C++ connectors' records

The records of `exchange/cpp/include/connector.h` that the modelled connectors keep, and the
`std::map<std::string, Order>` in which they keep the open orders they know of. Doubles are exact
rationals.
-/

namespace Meridian.Cpp

/-- `Ticker` (`connector.h:22-28`). -/
structure Ticker where
  bid : ℚ := 0
  ask : ℚ := 0
  mid : ℚ := 0
  last : ℚ := 0
  timestamp : ℚ := 0
  deriving DecidableEq

/-- `Balance` (`connector.h:39-43`). -/
structure Balance where
  usd : ℚ := 0
  token : ℚ := 0
  quote_currency : String := "USDT"
  deriving DecidableEq

/-- `Order` (`connector.h:45-59`). -/
structure Order where
  id : String := ""
  exchange : String := ""
  symbol : String := ""
  /-- "buy" or "sell" -/
  side : String := ""
  price : ℚ := 0
  amount : ℚ := 0
  amount_usd : ℚ := 0
  /-- "open", "filled", "canceled" or "partial" -/
  status : String := "open"
  timestamp : ℚ := 0
  filled_amount : ℚ := 0
  filled_price : ℚ := 0
  fee : ℚ := 0
  fee_currency : String := ""
  deriving DecidableEq

/-- `std::map<std::string, Order>`, every order stored under its own id. -/
abbrev OrderMap := Keyed Order.id

/-- The orders as an iteration over the map yields them, by id. -/
def OrderMap.values (m : OrderMap) : List Order := m.toList.insertionSort fun a b => a.id ≤ b.id

theorem OrderMap.values_perm (m : OrderMap) : m.values.Perm m.toList := List.perm_insertionSort _ _

end Meridian.Cpp
