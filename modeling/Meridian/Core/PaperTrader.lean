import Mathlib.Data.Rat.Floor
import Meridian.Core.System

/-!
# `PaperTrader`: simulated fills against the live book

Model of `core/paper_trader.py`. One round of `_poll_loop` is a coroutine (`round`) that starts
again as long as `_running` holds. A fill counts as emitted from the moment its event is broadcast.
-/

namespace Meridian

open Coop

variable {E : Type}

namespace PaperTrader

/-- `POLL_INTERVAL_S`. -/
def POLL_INTERVAL_S : ℚ := 1 / 4

/-- The database's record of a simulated fill (`paper_trader.py:181-193`). -/
def db_fill (p : PaperTrader) (f : SimulatedFill) : Fill :=
  { id := "sim_" ++ f.order_id ++ "_" ++
      toString (let t := f.filled_at * 1000; t.num.tdiv t.den)
    order_id := f.order_id
    exchange := p.exchange
    symbol := "ALKIMI/USDT"
    side := f.side
    filled_price := f.price
    filled_amount := f.amount
    fee := f.fee
    fee_currency := "USDT"
    timestamp := f.filled_at
    pnl_usd := f.pnl_usd }

/-- `_persist_fill` (`paper_trader.py:179-197`). -/
def persist_fill (f : SimulatedFill) : Co E Unit := do
  let s ← Prog.read
  Prog.tryCatch (ask (.insert_fill (s.paper.db_fill f))) fun _ => pure ()

/-- History: the next fill of the batch is emitted. -/
def emitting (f : SimulatedFill) (p : PaperTrader) : PaperTrader :=
  { p with batch := p.batch.tail, emitted := f :: p.emitted }

/-- `_emit_fill_event` (`paper_trader.py:199-218`). -/
def emit_fill_event (f : SimulatedFill) : Co E Unit := do
  Prog.modify (Sys.mapPaper (emitting f))
  Prog.tryCatch (ask (.broadcast_fill f)) fun _ => pure ()

/-- `_update_stats` (`paper_trader.py:219-225`). -/
def update_stats (f : SimulatedFill) (p : PaperTrader) : PaperTrader :=
  { p with stats :=
      { total_fills := p.stats.total_fills + 1
        total_qty := p.stats.total_qty + f.amount
        total_pnl_usd := p.stats.total_pnl_usd + f.pnl_usd
        total_fees := p.stats.total_fees + f.fee } }

/-- One round of the loop of `on_book_update`. -/
def book_fill (f : SimulatedFill) : Co E Unit := do
  persist_fill f
  emit_fill_event f
  Prog.modify (Sys.mapPaper (update_stats f))

/-- The fills that a book makes of the listed orders. -/
def fills (s : Sys E) (book : OrderBook) (open_orders : List Order) (current_mid : ℚ) :
    List SimulatedFill :=
  FillSimulator.simulate s.paper.maker_fee_rate s.clock open_orders book current_mid

/-- `on_book_update` (`paper_trader.py:109-134`). -/
def on_book_update (book : OrderBook) (open_orders : List Order) (current_mid : ℚ) : Co E Unit := do
  let s ← Prog.read
  let fills := fills s book open_orders current_mid
  Prog.modify (Sys.mapPaper fun p => { p with batch := fills })
  Prog.forEach fills book_fill

/-- What a round does with the book it receives. -/
def on_book : Option OrderBook → Co E Unit
  | none => pure ()
  | some book => do
    let s ← Prog.read
    if s.paper.open_orders_ref = [] then pure ()
    else on_book_update book s.paper.open_orders_ref (book.mid.getD 0)

/-- One round of `_poll_loop` (`paper_trader.py:161-177`). -/
def round : Co E Unit := do
  Prog.tryCatch
    (do
      let book ← ask .watch_order_book
      on_book book)
    fun _ => pure ()
  ask (.sleep POLL_INTERVAL_S)

/-- A round from the reply of the feed on. -/
def resume_round (reply : Except Exn (Option OrderBook)) : Co E Unit := do
  Prog.tryCatch
    (do
      let book ← Prog.ofReply reply
      on_book book)
    fun _ => pure ()
  ask (.sleep POLL_INTERVAL_S)

/-- `stop` (`paper_trader.py:98-103`). -/
def stop : Co E Unit := do
  Prog.modify (Sys.mapPaper fun p => { p with running := false })
  ask .disconnect_ws

end PaperTrader

end Meridian
