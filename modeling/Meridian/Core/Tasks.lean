import Meridian.Core.ExchangeBot
import Meridian.Core.PaperTrader
import Meridian.Core.Venue
import Meridian.Lib.Threads

/-!
# The tasks of one exchange

The asyncio tasks that share one exchange's objects, as a system of threads: the bot's loop, the
stoppers, each any number of times, and the paper trader's loop and stop. A loop starts its next
round as long as its `_running` holds.
-/

namespace Meridian

open Coop

/-- The tasks. -/
inductive Task where
  | loop
  /-- `_emergency_stop`, called by the heartbeat monitor -/
  | heartbeat (n : ℕ)
  /-- `ExchangeBot.stop` -/
  | shutdown (n : ℕ)
  /-- `Orchestrator.emergency_stop_all`, its part for this bot -/
  | api (n : ℕ)
  /-- `PaperTrader._poll_loop` -/
  | poller
  /-- `PaperTrader.stop` -/
  | poller_stop (n : ℕ)
  deriving DecidableEq

/-- What happens by itself: an order is filled on the exchange, or the Q-Switch is reset. -/
inductive Ev where
  | fill (id : String)
  | reset
  deriving DecidableEq

/-- The body of a task. -/
def Task.body (quote : Quote Venue) (reason : String) : Task → Co Venue Unit
  | .loop => ExchangeBot.round quote
  | .heartbeat _ => ExchangeBot.emergency_stop
  | .shutdown _ => ExchangeBot.stop
  | .api _ => ExchangeBot.halt_bot reason
  | .poller => PaperTrader.round
  | .poller_stop _ => PaperTrader.stop

/-- Whether a task may start. -/
def Task.starts : Task → Sys Venue → Bool
  | .loop, s => s.bot.running
  | .poller, s => s.paper.running
  | _, _ => true

/-- What an event does. -/
def Ev.apply : Ev → Sys Venue → Sys Venue
  | .fill id, s => { s with env := { s.env with live := s.env.live.erase id } }
  | .reset, s => ExchangeBot.reset s

/-- The system of one exchange's tasks. -/
def tasks (w : World) (quote : Quote Venue) (reason : String) :
    Threads (Sys Venue) Rep Exn Task Ev where
  answer := w.answer
  starts := Task.starts
  body := Task.body quote reason
  env e s := some (e.apply s)

/-- A state of the system. -/
abbrev State := Cfg (Sys Venue) Rep Exn Task

/-- Serve a task's call and let it resume, `n` times. -/
def turns (i : Task) (n : ℕ) : List (Act Task Ev) :=
  (List.replicate n [Act.serve i, Act.resume i]).flatten

/-- The system before any task has started. -/
def boot (s : Sys Venue) : State := ⟨s, fun _ => .rest, []⟩

end Meridian
