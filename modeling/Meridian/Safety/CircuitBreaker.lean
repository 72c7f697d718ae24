import Mathlib.Algebra.Order.Ring.Rat

/-!
# The circuit breaker

Model of `safety/circuit_breaker.py`: it trips on the daily loss and on the drawdown from the
peak, and starts afresh on every new UTC day.
-/

namespace Meridian

/-- Why the breaker tripped; the numbers stand for the text the source formats from them. -/
inductive TripReason where
  /-- `Daily loss {pct}% >= limit {limit}%` -/
  | daily_loss (pct limit : ℚ)
  /-- `Drawdown {pct}% >= limit {limit}%` -/
  | drawdown (pct limit : ℚ)
  deriving DecidableEq

/-- `CircuitBreaker` (`circuit_breaker.py:26-39`) with the two limits of its config. -/
structure CircuitBreaker where
  max_daily_loss_pct : ℚ
  max_drawdown_pct : ℚ
  start_equity : Option ℚ := none
  peak_equity : Option ℚ := none
  day_start : ℤ
  tripped : Bool := false
  trip_reason : Option TripReason := none
  deriving DecidableEq

/-- `_current_day` (`circuit_breaker.py:108-111`): the ordinal of the UTC day, 719163 for the day
of the epoch. -/
def current_day (now : ℚ) : ℤ := (now / 86400).floor + 719163

namespace CircuitBreaker

/-- `_trip` (`circuit_breaker.py:102-106`). -/
def trip (c : CircuitBreaker) (reason : TripReason) : CircuitBreaker :=
  if c.tripped then c else { c with tripped := true, trip_reason := some reason }

/-- The check of the drawdown from the peak (`circuit_breaker.py:78-81`). -/
def check_drawdown (c : CircuitBreaker) (equity : ℚ) : CircuitBreaker :=
  match c.peak_equity with
  | some peak =>
    if peak > 0 then
      let drawdown_pct := (peak - equity) / peak * 100
      if drawdown_pct ≥ c.max_drawdown_pct then
        c.trip (.drawdown drawdown_pct c.max_drawdown_pct)
      else c
    else c
  | none => c

/-- The check of the daily loss, and after it that of the drawdown (`circuit_breaker.py:70-81`). -/
def check_limits (c : CircuitBreaker) (start equity : ℚ) : CircuitBreaker :=
  if start > 0 then
    let daily_loss_pct := (start - equity) / start * 100
    if daily_loss_pct ≥ c.max_daily_loss_pct then
      c.trip (.daily_loss daily_loss_pct c.max_daily_loss_pct)
    else c.check_drawdown equity
  else c.check_drawdown equity

/-- `record_equity` (`circuit_breaker.py:41-81`). -/
def record_equity (c : CircuitBreaker) (now usd token mid_price : ℚ) : CircuitBreaker :=
  let equity := usd + token * mid_price
  let today := current_day now
  if today ≠ c.day_start then
    { c with
      start_equity := some equity, peak_equity := some equity, day_start := today
      tripped := false, trip_reason := none }
  else
    let start := c.start_equity.getD equity
    let peak :=
      match c.peak_equity with
      | some peak => if equity > peak then equity else peak
      | none => equity
    { c with start_equity := some start, peak_equity := some peak }.check_limits start equity

/-- `reset` (`circuit_breaker.py:86-92`). -/
def reset (c : CircuitBreaker) : CircuitBreaker :=
  { c with tripped := false, trip_reason := none, start_equity := none, peak_equity := none }

/-- The two limits. -/
def limits (c : CircuitBreaker) : ℚ × ℚ := (c.max_daily_loss_pct, c.max_drawdown_pct)

theorem limits_trip (c : CircuitBreaker) (reason : TripReason) :
    (c.trip reason).limits = c.limits := by
  unfold trip
  split <;> rfl

theorem limits_check_drawdown (c : CircuitBreaker) (equity : ℚ) :
    (c.check_drawdown equity).limits = c.limits := by
  unfold check_drawdown
  split
  · split
    · dsimp only
      split
      · exact limits_trip ..
      · rfl
    · rfl
  · rfl

theorem limits_check_limits (c : CircuitBreaker) (start equity : ℚ) :
    (c.check_limits start equity).limits = c.limits := by
  unfold check_limits
  split
  · dsimp only
    split
    · exact limits_trip ..
    · exact limits_check_drawdown ..
  · exact limits_check_drawdown ..

theorem limits_record_equity (c : CircuitBreaker) (now usd token mid_price : ℚ) :
    (c.record_equity now usd token mid_price).limits = c.limits := by
  unfold record_equity
  dsimp only
  split
  · rfl
  · exact limits_check_limits ..

/-- The first equity after a reset trips nothing. -/
theorem tripped_record_equity_reset (c : CircuitBreaker) (now usd token mid_price : ℚ)
    (hloss : 0 < c.max_daily_loss_pct) (hdrawdown : 0 < c.max_drawdown_pct) :
    (c.reset.record_equity now usd token mid_price).tripped = false := by
  unfold record_equity reset
  dsimp only
  split
  · rfl
  · -- the day starts here, and here is its peak
    unfold check_limits check_drawdown
    simp only [Option.getD_none, sub_self, zero_div, zero_mul]
    rw [if_neg (not_le.mpr hloss), if_neg (not_le.mpr hdrawdown)]
    split_ifs <;> rfl

end CircuitBreaker

end Meridian
