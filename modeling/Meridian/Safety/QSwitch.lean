import Mathlib.Algebra.Order.Ring.Rat
import Meridian.Exchange.Base

/-!
# The Q-Switch

Model of `safety/q_switch.py`: the per-exchange emergency stop. The `asyncio.Event` and the webhook
alert, which nothing in the bot waits for, are left out.
-/

namespace Meridian

/-- Why the switch fired; the balances stand for the text the source formats from them. -/
inductive TriggerReason where
  /-- `USD balance {balance.usd} < threshold {min_balance_usd}` -/
  | usd (balance threshold : ℚ)
  /-- `Token balance {balance.token} < threshold {min_balance_token}` -/
  | token (balance threshold : ℚ)
  | manual (reason : String)
  deriving DecidableEq

/-- `QSwitchEvent` (`q_switch.py:34-40`). -/
structure QSwitchEvent where
  exchange : String
  reason : TriggerReason
  triggered_at : ℚ
  balance_usd : ℚ
  balance_token : ℚ
  deriving DecidableEq

/-- `QSwitch` (`q_switch.py:43-54`) with the two thresholds of its config. -/
structure QSwitch where
  exchange : String
  min_balance_usd : ℚ
  min_balance_token : ℚ
  triggered : Bool := false
  last_event : Option QSwitchEvent := none
  deriving DecidableEq

namespace QSwitch

/-- `_fire` (`q_switch.py:104-125`). -/
def fire (q : QSwitch) (now : ℚ) (reason : TriggerReason) (balance : Option Balance) : QSwitch :=
  { q with
    triggered := true
    last_event := some
      { exchange := q.exchange, reason := reason, triggered_at := now
        balance_usd := (balance.map Balance.usd).getD 0
        balance_token := (balance.map Balance.token).getD 0 } }

/-- `check` (`q_switch.py:65-84`): whether the bot should halt. -/
def check (q : QSwitch) (now : ℚ) (balance : Balance) : Bool × QSwitch :=
  if q.triggered then (true, q)
  else if balance.usd < q.min_balance_usd then
    (true, q.fire now (.usd balance.usd q.min_balance_usd) (some balance))
  else if balance.token < q.min_balance_token then
    (true, q.fire now (.token balance.token q.min_balance_token) (some balance))
  else (false, q)

/-- `trigger_manually` (`q_switch.py:86-89`). -/
def trigger_manually (q : QSwitch) (now : ℚ) (reason : String) : QSwitch :=
  if q.triggered then q else q.fire now (.manual reason) none

/-- `reset` (`q_switch.py:91-100`). -/
def reset (q : QSwitch) : QSwitch :=
  if q.triggered then { q with triggered := false, last_event := none } else q

@[simp] theorem trigger_manually_triggered (q : QSwitch) (now : ℚ) (reason : String) :
    (q.trigger_manually now reason).triggered = true := by
  unfold trigger_manually
  split
  · assumption
  · rfl

/-- A triggered switch stays triggered through a check, and halts the tick. -/
theorem check_of_triggered {q : QSwitch} (h : q.triggered = true) (now : ℚ) (balance : Balance) :
    q.check now balance = (true, q) := by
  rw [check, if_pos h]

/-- The two thresholds. -/
def thresholds (q : QSwitch) : ℚ × ℚ := (q.min_balance_usd, q.min_balance_token)

theorem thresholds_check (q : QSwitch) (now : ℚ) (balance : Balance) :
    (q.check now balance).2.thresholds = q.thresholds := by
  unfold check
  split_ifs <;> rfl

theorem thresholds_trigger_manually (q : QSwitch) (now : ℚ) (reason : String) :
    (q.trigger_manually now reason).thresholds = q.thresholds := by
  unfold trigger_manually
  split <;> rfl

theorem thresholds_reset (q : QSwitch) : q.reset.thresholds = q.thresholds := by
  unfold reset
  split <;> rfl

end QSwitch

end Meridian
