import Mathlib.Algebra.Order.Field.Basic
import Meridian.Exchange.Base
import Meridian.Utils.MathUtils

/-!
# The inventory tracker

Model of `core/inventory_tracker.py`: the balances a bot started with, those it has now, and how far
it skews its buying.

Out of scope: the position limits, which no bot sets, and the rounding of doubles.
-/

namespace Meridian

/-- `InventoryTracker` (`inventory_tracker.py:50-60`). -/
structure InventoryTracker where
  initial_usd : Option ℚ := none
  initial_token : Option ℚ := none
  current_usd : ℚ := 0
  current_token : ℚ := 0
  deriving DecidableEq

namespace InventoryTracker

/-- `record_initial` (`inventory_tracker.py:62-74`). -/
def record_initial (t : InventoryTracker) (balance : Balance) : InventoryTracker :=
  { t with initial_usd := some balance.usd, initial_token := some balance.token }

/-- `set_initial_from_config` (`inventory_tracker.py:158-167`). -/
def set_initial_from_config (t : InventoryTracker) (usd token : ℚ) : InventoryTracker :=
  { t with initial_usd := some usd, initial_token := some token }

/-- `update` (`inventory_tracker.py:76-81`). -/
def update (t : InventoryTracker) (balance : Balance) : InventoryTracker :=
  let t := if t.initial_usd.isNone then t.record_initial balance else t
  { t with current_usd := balance.usd, current_token := balance.token }

/-- The skew of `token` tokens against a baseline. -/
def skew (initial_token token : ℚ) : ℚ :=
  clip (1 - (token - initial_token) / initial_token * 2) (1 / 2) 2

/-- `skew_factor` (`inventory_tracker.py:83-103`). -/
def skew_factor (t : InventoryTracker) : ℚ :=
  match t.initial_token with
  | some initial_token => if initial_token ≤ 0 then 1 else skew initial_token t.current_token
  | none => 1

variable {t : InventoryTracker} {initial_token : ℚ}

theorem skew_factor_of_pos (h : t.initial_token = some initial_token) (hpos : 0 < initial_token) :
    t.skew_factor = skew initial_token t.current_token := by
  rw [skew_factor, h]
  exact if_neg (not_le.mpr hpos)

end InventoryTracker

end Meridian
