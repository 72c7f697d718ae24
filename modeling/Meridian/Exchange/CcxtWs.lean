import Mathlib.Algebra.Order.Ring.Rat
import Mathlib.Data.List.Sort
import Meridian.Exchange.Base
import Meridian.Lib.BoundedQueue
import Meridian.Lib.Run

/-!
# `CCXTWSConnector`: the two streams

Model of `connect_ws`, `disconnect_ws`, the watch loops and the watch methods of
`exchange/ccxt_ws_connector.py` (80-251). What a `watch_` call of the exchange brings is left open; a loop
sleeps by itself, so between two of its steps anything can happen. `disconnect_ws` waits for each of the
two tasks it cancels, so it is three steps.

Results:
* `watch_order_book_latest`: in every run a read returns the last book that came since the one before it,
  if one did, with its levels in order and no quantity of zero;
* `ws_connected_iff`: `is_ws_connected` says that the connector was started, not disconnected since, and
  that the book loop has not failed to reach the exchange six times without an answer in between.
-/

namespace Meridian.CcxtWs

section Model

def MAX_RETRIES : ℕ := 5

def BASE_DELAY_S : ℚ := 1

/-- `Ticker` (`base.py:19-25`). -/
structure Ticker where
  bid : ℚ
  ask : ℚ
  mid : ℚ
  last : ℚ
  timestamp : ℚ
  deriving DecidableEq

/-- An order book as the exchange sends it. -/
structure BookData where
  bids : Option (List (ℚ × ℚ))
  asks : Option (List (ℚ × ℚ))
  timestamp : Option ℚ

/-- A ticker as the exchange sends it. -/
structure TickerData where
  bid : Option ℚ
  ask : Option ℚ
  last : Option ℚ
  timestamp : Option ℚ

/-- `float(data.get("timestamp") or now_s() * 1000) / 1000.0` -/
def seconds (timestamp : Option ℚ) (now : ℚ) : ℚ :=
  (match timestamp with
    | some t => if t = 0 then now * 1000 else t
    | none => now * 1000) / 1000

/-- The `OrderBook` of `_watch_book_loop` (`ccxt_ws_connector.py:166-178`). -/
def read_book (exchange_name : String) (book_data : BookData) (now : ℚ) : OrderBook :=
  let bids := (book_data.bids.getD []).filter fun l => l.2 > 0
  let asks := (book_data.asks.getD []).filter fun l => l.2 > 0
  { exchange := exchange_name
    bids := bids.mergeSort fun a b => a.1 ≥ b.1
    asks := asks.mergeSort fun a b => a.1 ≤ b.1
    timestamp := seconds book_data.timestamp now }

/-- The `Ticker` of `_watch_ticker_loop` (`ccxt_ws_connector.py:219-225`). -/
def read_ticker (ticker_data : TickerData) (now : ℚ) : Ticker :=
  let bid := ticker_data.bid.getD 0
  let ask := ticker_data.ask.getD 0
  let last := ticker_data.last.getD 0
  { bid := bid
    ask := ask
    last := last
    mid := if bid ≠ 0 ∧ ask ≠ 0 then (bid + ask) / 2 else last
    timestamp := seconds ticker_data.timestamp now }

/-- What a `watch_` call of the exchange comes to: data, read at a time or not readable; an error of the
network, or another one. -/
inductive Watched (R : Type*) where
  | data (raw : R) (now : ℚ)
  | unreadable
  | network_error
  | error

/-- A watch loop and its queue. -/
structure Loop (M : Type*) where
  running : Bool := false
  retries : ℕ := 0
  queue : BoundedQueue M 1 := .empty

/-- Put `m` in the place of what the queue holds (`ccxt_ws_connector.py:180-186`, `228-233`). -/
def overwrite {M : Type*} (queue : BoundedQueue M 1) (m : M) : BoundedQueue M 1 :=
  let queue :=
    if queue.full then
      match queue.get_nowait with
      | some r => r.2
      | none => queue
    else queue
  queue.offer m

/-- A round of `_watch_book_loop` and of `_watch_ticker_loop` (`ccxt_ws_connector.py:156-208`, `210-251`),
and what it sleeps. -/
def Loop.watch {R M : Type*} (read : R → ℚ → M) (l : Loop M) : Watched R → Loop M × ℚ
  | .data raw now => ({ l with retries := 0, queue := overwrite l.queue (read raw now) }, 0)
  | .unreadable => ({ l with retries := 0 }, 1)
  | .network_error =>
    let retries := l.retries + 1
    if retries > MAX_RETRIES then ({ l with retries := retries, running := false }, 0)
    else ({ l with retries := retries }, BASE_DELAY_S * 2 ^ (retries - 1))
  | .error => (l, 1)

/-- `CCXTWSConnector` (`ccxt_ws_connector.py:34-74`). -/
structure CCXTWSConnector where
  exchange_name : String
  book : Loop OrderBook := {}
  ticker : Loop Ticker := {}
  ws_connected : Bool := false

inductive Action where
  | start
  | cancel_book
  | cancel_ticker
  | down
  | book (w : Watched BookData)
  | ticker (w : Watched TickerData)
  | watch_order_book
  | watch_ticker

namespace CCXTWSConnector

/-- `watch_order_book` (`ccxt_ws_connector.py:122-130`). -/
def watch_order_book (c : CCXTWSConnector) : Option OrderBook × CCXTWSConnector :=
  match c.book.queue.get_nowait with
  | some r => (some r.1, { c with book := { c.book with queue := r.2 } })
  | none => (none, c)

/-- `watch_ticker` (`ccxt_ws_connector.py:132-140`). -/
def watch_ticker (c : CCXTWSConnector) : Option Ticker × CCXTWSConnector :=
  match c.ticker.queue.get_nowait with
  | some r => (some r.1, { c with ticker := { c.ticker with queue := r.2 } })
  | none => (none, c)

/-- One step. `start` is `connect_ws` after its `disconnect_ws`, and that is `cancel_book`,
`cancel_ticker` and `down` (`ccxt_ws_connector.py:80-116`). A book loop that gives up says so. -/
def next (c : CCXTWSConnector) : Action → Option CCXTWSConnector
  | .start =>
    if c.book.running || c.ticker.running then none
    else
      some
        { c with
          book := { c.book with running := true, retries := 0 }
          ticker := { c.ticker with running := true, retries := 0 }
          ws_connected := true }
  | .cancel_book => some { c with book := { c.book with running := false } }
  | .cancel_ticker => some { c with ticker := { c.ticker with running := false } }
  | .down =>
    if c.book.running || c.ticker.running then none else some { c with ws_connected := false }
  | .book w =>
    if c.book.running then
      let book := (c.book.watch (read_book c.exchange_name) w).1
      some { c with book := book, ws_connected := c.ws_connected && book.running }
    else none
  | .ticker w =>
    if c.ticker.running then some { c with ticker := (c.ticker.watch read_ticker w).1 } else none
  | .watch_order_book => some c.watch_order_book.2
  | .watch_ticker => some c.watch_ticker.2

/-- These steps, one after the other, of a new connector. -/
def run (exchange_name : String) (as : List Action) : Option CCXTWSConnector :=
  as.foldlM next { exchange_name := exchange_name }

end CCXTWSConnector

end Model

/-! ## What is read -/

section Latest

variable {M : Type*} {exchange_name : String} {as : List Action} {c c' : CCXTWSConnector} {a : Action}

/-- The books that came since the last read. -/
def arrived (exchange_name : String) (as : List Action) : List OrderBook :=
  as.foldl
    (fun books a =>
      match a with
      | .book (.data raw now) => books ++ [read_book exchange_name raw now]
      | .watch_order_book => []
      | _ => books)
    []

/-- Best level first, and nothing but quantities above zero. -/
structure Ordered (book : OrderBook) : Prop where
  bids : book.bids.Pairwise fun a b => b.1 ≤ a.1
  asks : book.asks.Pairwise fun a b => a.1 ≤ b.1
  qty_pos : ∀ l ∈ book.bids ++ book.asks, 0 < l.2

theorem ordered_read_book (exchange_name : String) (book_data : BookData) (now : ℚ) :
    Ordered (read_book exchange_name book_data now) where
  bids := (@List.pairwise_mergeSort (ℚ × ℚ) (fun a b => a.1 ≥ b.1)
      (fun _ _ _ hab hbc => by simp only [decide_eq_true_eq] at *; exact hbc.trans hab)
      (fun a b => by simpa using le_total b.1 a.1) _).imp of_decide_eq_true
  asks := (@List.pairwise_mergeSort (ℚ × ℚ) (fun a b => a.1 ≤ b.1)
      (fun _ _ _ hab hbc => by simp only [decide_eq_true_eq] at *; exact hab.trans hbc)
      (fun a b => by simpa using le_total a.1 b.1) _).imp of_decide_eq_true
  qty_pos l hl := by
    simp only [read_book, List.mem_append, List.mem_mergeSort, List.mem_filter] at hl
    exact hl.elim (fun h => of_decide_eq_true h.2) fun h => of_decide_eq_true h.2

/-- **Putting never waits**: the queue holds the new element, and only that. -/
theorem items_overwrite (queue : BoundedQueue M 1) (m : M) : (overwrite queue m).items = [m] := by
  have hbound := queue.bound
  match hitems : queue.items with
  | [] =>
    have hfull : queue.full = false := decide_eq_false (by rw [hitems]; exact Nat.not_succ_le_zero 0)
    rw [overwrite, hfull]
    exact (BoundedQueue.items_offer_of_not_full hfull).trans (by rw [hitems]; rfl)
  | [m'] =>
    have hfull : queue.full = true := decide_eq_true (by rw [hitems]; exact le_rfl)
    obtain ⟨queue', hget, hitems'⟩ := BoundedQueue.exists_get_nowait hitems
    have hfull' : queue'.full = false := decide_eq_false (by rw [hitems']; exact Nat.not_succ_le_zero 0)
    rw [overwrite, hfull, hget]
    exact (BoundedQueue.items_offer_of_not_full hfull').trans (by rw [hitems']; rfl)
  | _ :: _ :: _ =>
    rw [hitems] at hbound
    exact absurd hbound (by simp)

theorem arrived_concat (exchange_name : String) (as : List Action) (a : Action) :
    arrived exchange_name (as ++ [a]) =
      match a with
      | .book (.data raw now) => arrived exchange_name as ++ [read_book exchange_name raw now]
      | .watch_order_book => []
      | _ => arrived exchange_name as := by
  rw [arrived, List.foldl_append, arrived]
  rfl

/-- **One step**, for the queue of books: a book that arrives replaces what is there, a read empties
it, and nothing else touches it. -/
theorem queue_next (h : c.next a = some c') : c'.exchange_name = c.exchange_name ∧
    c'.book.queue.items =
      match a with
      | .book (.data raw now) => [read_book c.exchange_name raw now]
      | .watch_order_book => []
      | _ => c.book.queue.items := by
  cases a with
  | start | down | ticker w =>
    simp only [CCXTWSConnector.next] at h
    split_ifs at h
    obtain rfl := Option.some.inj h
    exact ⟨rfl, rfl⟩
  | cancel_book | cancel_ticker =>
    obtain rfl := Option.some.inj h
    exact ⟨rfl, rfl⟩
  | book w =>
    simp only [CCXTWSConnector.next] at h
    split_ifs at h
    obtain rfl := Option.some.inj h
    refine ⟨rfl, ?_⟩
    cases w with
    | data raw now => exact items_overwrite _ _
    | unreadable | error => rfl
    | network_error =>
      simp only [Loop.watch]
      split_ifs <;> rfl
  | watch_order_book =>
    obtain rfl := Option.some.inj h
    simp only [CCXTWSConnector.watch_order_book]
    split
    · rename_i r hget
      have hbound := c.book.queue.bound
      rw [BoundedQueue.get_nowait_eq_some hget] at hbound
      exact ⟨rfl, List.length_eq_zero_iff.mp (by simpa using hbound)⟩
    · rename_i hget
      refine ⟨rfl, ?_⟩
      match hitems : c.book.queue.items with
      | [] => rfl
      | _ :: _ =>
        obtain ⟨_, hsome, -⟩ := BoundedQueue.exists_get_nowait hitems
        exact absurd (hget.symm.trans hsome) (Option.some_ne_none _).symm
  | watch_ticker =>
    obtain rfl := Option.some.inj h
    simp only [CCXTWSConnector.watch_ticker]
    split <;> exact ⟨rfl, rfl⟩

theorem ordered_arrived (exchange_name : String) (as : List Action) :
    ∀ book ∈ arrived exchange_name as, Ordered book := by
  induction as using List.reverseRecOn with
  | nil => exact fun _ h => nomatch h
  | append_singleton as a ih =>
    rw [arrived_concat]
    intro book hbook
    split at hbook
    · rename_i raw now
      obtain hbook | hbook := List.mem_append.mp hbook
      · exact ih book hbook
      · exact List.mem_singleton.mp hbook ▸ ordered_read_book exchange_name raw now
    · exact nomatch hbook
    · exact ih book hbook

/-- The queue holds the last book that came since the last read. -/
theorem queue_run (h : CCXTWSConnector.run exchange_name as = some c) :
    c.book.queue.items = (arrived exchange_name as).getLast?.toList := by
  refine (Run.foldlM_inv (I := fun as c => c.exchange_name = exchange_name ∧
    c.book.queue.items = (arrived exchange_name as).getLast?.toList) h ⟨rfl, rfl⟩ ?_).2
  rintro as a c c' ⟨hname, hqueue⟩ hnext
  obtain ⟨hname', hqueue'⟩ := queue_next hnext
  refine ⟨hname'.trans hname, ?_⟩
  rw [hqueue', arrived_concat, hname, hqueue]
  cases a with
  | book w =>
    cases w with
    | data raw now =>
      rw [List.getLast?_concat]
      rfl
    | _ => rfl
  | _ => rfl

/-- **A read returns the newest book** that came since the one before it, in order, or that there is
none: no book is read twice, and none after a newer one. -/
theorem watch_order_book_latest (exchange_name : String) (as : List Action) {c : CCXTWSConnector}
    (h : CCXTWSConnector.run exchange_name as = some c) :
    c.watch_order_book.1 = (arrived exchange_name as).getLast? ∧
      ∀ book ∈ c.watch_order_book.1, Ordered book := by
  have hread : c.watch_order_book.1 = (arrived exchange_name as).getLast? := by
    have hqueue := queue_run h
    rw [CCXTWSConnector.watch_order_book]
    cases hlast : (arrived exchange_name as).getLast? with
    | none =>
      rw [hlast] at hqueue
      split
      · rename_i r hget
        rw [BoundedQueue.get_nowait_eq_some hget] at hqueue
        exact absurd hqueue (by simp)
      · rfl
    | some book =>
      rw [hlast] at hqueue
      obtain ⟨queue', hget, -⟩ := BoundedQueue.exists_get_nowait hqueue
      rw [hget]
  refine ⟨hread, fun book hbook => ?_⟩
  rw [hread] at hbook
  exact ordered_arrived exchange_name as book (List.mem_of_getLast? hbook)

/-- Two books and an error before the first read. -/
def twoBooks : List Action :=
  [.start, .book (.data ⟨some [(9, 1), (10, 2)], some [(11, 1), (12, 0)], none⟩ 100),
    .ticker .network_error, .book (.data ⟨some [(10, 1)], none, some 101000⟩ 101), .book .error]

theorem watch_order_book_twoBooks :
    ∃ c, CCXTWSConnector.run "mexc" twoBooks = some c ∧
      c.watch_order_book.1 = (arrived "mexc" twoBooks).getLast? ∧
      ∀ book ∈ c.watch_order_book.1, Ordered book :=
  ⟨_, rfl, watch_order_book_latest "mexc" twoBooks rfl⟩

end Latest

/-! ## Whether it is connected -/

section Connected

variable {exchange_name : String} {as : List Action} {c c' : CCXTWSConnector} {a : Action}

/-- What the calls of the book loop came to since the last `start`, if there was one since the last
`down`. -/
def since_start (as : List Action) : Option (List (Watched BookData)) :=
  as.foldl
    (fun ws a =>
      match a with
      | .start => some []
      | .down => none
      | .book w => ws.map (· ++ [w])
      | _ => ws)
    none

def Watched.answered {R : Type*} : Watched R → Bool
  | .data .. | .unreadable => true
  | .network_error | .error => false

def Watched.unreachable {R : Type*} : Watched R → Bool
  | .network_error => true
  | _ => false

/-- Six times the exchange was not reached, and it did not answer in between. -/
def GaveUp {R : Type*} (ws : List (Watched R)) : Prop :=
  ∃ before tail, ws = before ++ tail ∧ (∀ w ∈ tail, w.answered = false) ∧
    tail.countP Watched.unreachable = MAX_RETRIES + 1

/-- The errors of the network since the last answer. -/
def streak {R : Type*} (ws : List (Watched R)) : ℕ :=
  ws.foldl (fun n w => if w.answered then 0 else if w.unreachable then n + 1 else n) 0

theorem streak_concat {R : Type*} (ws : List (Watched R)) (w : Watched R) :
    streak (ws ++ [w]) =
      if w.answered then 0 else if w.unreachable then streak ws + 1 else streak ws := by
  rw [streak, List.foldl_concat, streak]

/-- Without an answer the errors add up. -/
theorem streak_append {R : Type*} (before : List (Watched R)) :
    ∀ {tail : List (Watched R)}, (∀ w ∈ tail, w.answered = false) →
      streak (before ++ tail) = streak before + tail.countP Watched.unreachable := by
  intro tail
  induction tail using List.reverseRecOn with
  | nil => intro _; simp
  | append_singleton tail w ih =>
    intro h
    have hw : w.answered = false := h w (by simp)
    rw [← List.append_assoc, streak_concat, ih fun v hv => h v (List.mem_append_left _ hv), hw,
      List.countP_append, List.countP_singleton]
    cases w.unreachable
    · simp
    · exact Nat.add_assoc _ _ _

theorem exists_streak {R : Type*} (ws : List (Watched R)) :
    ∃ before tail, ws = before ++ tail ∧ (∀ w ∈ tail, w.answered = false) ∧
      tail.countP Watched.unreachable = streak ws := by
  induction ws using List.reverseRecOn with
  | nil => exact ⟨[], [], rfl, nofun, rfl⟩
  | append_singleton ws w ih =>
    obtain ⟨before, tail, rfl, htail, hcount⟩ := ih
    cases hw : w.answered with
    | true => exact ⟨before ++ tail ++ [w], [], by simp, nofun, by rw [streak_concat, hw]; rfl⟩
    | false =>
      refine ⟨before, tail ++ [w], List.append_assoc .., fun v hv => ?_, ?_⟩
      · obtain hv | hv := List.mem_append.mp hv
        · exact htail v hv
        · exact List.mem_singleton.mp hv ▸ hw
      · rw [List.countP_append, List.countP_singleton, hcount, streak_concat, hw]
        cases w.unreachable <;> simp

theorem GaveUp.le_streak {R : Type*} {ws : List (Watched R)} (h : GaveUp ws) :
    MAX_RETRIES < streak ws := by
  obtain ⟨before, tail, rfl, htail, hcount⟩ := h
  rw [streak_append before htail, hcount]
  omega

theorem gaveUp_of_streak {R : Type*} {ws : List (Watched R)} (h : streak ws = MAX_RETRIES + 1) :
    GaveUp ws := by
  obtain ⟨before, tail, hws, htail, hcount⟩ := exists_streak ws
  exact ⟨before, tail, hws, htail, hcount.trans h⟩

/-- The book loop since its last `start`: its count of retries is the network errors in a row, and
the flag says whether they are few enough. -/
structure Tracked (ws : List (Watched BookData)) (c : CCXTWSConnector) : Prop where
  retries : c.book.retries = streak ws
  streak_le : streak ws ≤ MAX_RETRIES + 1
  connected : c.ws_connected = decide (streak ws ≤ MAX_RETRIES)
  running : c.book.running = true → c.ws_connected = true

/-- **A round of the book loop** keeps count: a network error adds one to the row, an answer ends
it, and the sixth in a row ends the loop. -/
theorem Tracked.watch {ws : List (Watched BookData)} (h : Tracked ws c) (w : Watched BookData)
    (hnext : c.next (.book w) = some c') : Tracked (ws ++ [w]) c' := by
  simp only [CCXTWSConnector.next] at hnext
  split_ifs at hnext with hrun
  obtain rfl := Option.some.inj hnext
  have hconn := h.running hrun
  have hle : streak ws ≤ MAX_RETRIES := of_decide_eq_true (h.connected ▸ hconn)
  have hretries := h.retries
  cases w with
  | data raw now =>
    have hstreak : streak (ws ++ [_]) = 0 := streak_concat ws (.data raw now)
    refine ⟨?_, ?_, ?_, fun _ => ?_⟩
    · rw [hstreak]
      rfl
    · rw [hstreak]
      exact Nat.zero_le _
    · simp [hstreak, Loop.watch, hrun, hconn]
    · simp [Loop.watch, hrun, hconn]
  | unreadable =>
    have hstreak : streak (ws ++ [_]) = 0 := streak_concat ws .unreadable
    refine ⟨?_, ?_, ?_, fun _ => ?_⟩
    · rw [hstreak]
      rfl
    · rw [hstreak]
      exact Nat.zero_le _
    · simp [hstreak, Loop.watch, hrun, hconn]
    · simp [Loop.watch, hrun, hconn]
  | error =>
    have hstreak : streak (ws ++ [Watched.error]) = streak ws := streak_concat ws _
    refine ⟨?_, ?_, ?_, fun _ => ?_⟩
    · rw [hstreak, ← hretries]
      rfl
    · rw [hstreak]
      exact h.streak_le
    · simp [hstreak, hle, Loop.watch, hrun, hconn]
    · simp [Loop.watch, hrun, hconn]
  | network_error =>
    have hstreak : streak (ws ++ [Watched.network_error]) = streak ws + 1 := streak_concat ws _
    refine ⟨?_, ?_, ?_, fun hrun' => ?_⟩
    · rw [hstreak, ← hretries]
      simp only [Loop.watch]
      split_ifs <;> rfl
    · rw [hstreak]
      exact Nat.succ_le_succ hle
    · rw [hstreak, ← hretries]
      simp only [Loop.watch]
      split_ifs with hmax
      · simp [Nat.not_le_of_lt hmax]
      · simp [hrun, hconn, Nat.le_of_not_lt hmax]
    · simp only at hrun' ⊢
      rw [hconn, hrun']
      rfl

theorem since_start_concat (as : List Action) (a : Action) :
    since_start (as ++ [a]) =
      match a with
      | .start => some []
      | .down => none
      | .book w => (since_start as).map (· ++ [w])
      | _ => since_start as := by
  rw [since_start, List.foldl_append, since_start]
  rfl

/-- The book loop, since its last `start` or not started since the last `down`. -/
structure Inv (as : List Action) (c : CCXTWSConnector) : Prop where
  tracked : ∀ ws, since_start as = some ws → Tracked ws c
  idle : since_start as = none → c.ws_connected = false ∧ c.book.running = false

/-- A step that leaves the count and the flag as they are and starts no loop. -/
theorem Inv.frame (h : Inv as c) (ha : since_start (as ++ [a]) = since_start as)
    (hretries : c'.book.retries = c.book.retries) (hconn : c'.ws_connected = c.ws_connected)
    (hrun : c'.book.running = true → c.book.running = true) : Inv (as ++ [a]) c' where
  tracked ws hws :=
    have ht := h.tracked ws (ha ▸ hws)
    ⟨hretries.trans ht.retries, ht.streak_le, hconn.trans ht.connected,
      fun hr => hconn.trans (ht.running (hrun hr))⟩
  idle hnone :=
    have hi := h.idle (ha ▸ hnone)
    ⟨hconn.trans hi.1, Bool.eq_false_iff.mpr fun hr => Bool.eq_false_iff.mp hi.2 (hrun hr)⟩

theorem Inv.next (h : Inv as c) (hnext : c.next a = some c') : Inv (as ++ [a]) c' := by
  cases a with
  | start =>
    simp only [CCXTWSConnector.next] at hnext
    split_ifs at hnext
    obtain rfl := Option.some.inj hnext
    refine ⟨fun ws hws => ?_, fun hnone => ?_⟩
    · rw [since_start_concat] at hws
      obtain rfl := Option.some.inj hws
      exact ⟨rfl, Nat.zero_le _, rfl, fun _ => rfl⟩
    · rw [since_start_concat] at hnone
      cases hnone
  | down =>
    simp only [CCXTWSConnector.next] at hnext
    split_ifs at hnext with hrun
    obtain rfl := Option.some.inj hnext
    refine ⟨fun ws hws => ?_, fun _ => ⟨rfl, ?_⟩⟩
    · rw [since_start_concat] at hws
      cases hws
    · exact (Bool.or_eq_false_iff.mp (Bool.not_eq_true _ ▸ hrun)).1
  | book w =>
    refine ⟨fun ws hws => ?_, fun hnone => ?_⟩
    · rw [since_start_concat] at hws
      obtain ⟨ws₀, hws₀, rfl⟩ := Option.map_eq_some_iff.mp hws
      exact (h.tracked ws₀ hws₀).watch w hnext
    · rw [since_start_concat] at hnone
      have hrun := (h.idle (Option.map_eq_none_iff.mp hnone)).2
      simp only [CCXTWSConnector.next, hrun, Bool.false_eq_true, if_false] at hnext
      cases hnext
  | cancel_book =>
    obtain rfl := Option.some.inj hnext
    exact h.frame (since_start_concat as _) rfl rfl nofun
  | cancel_ticker =>
    obtain rfl := Option.some.inj hnext
    exact h.frame (since_start_concat as _) rfl rfl id
  | ticker w =>
    simp only [CCXTWSConnector.next] at hnext
    split_ifs at hnext
    obtain rfl := Option.some.inj hnext
    exact h.frame (since_start_concat as _) rfl rfl id
  | watch_order_book =>
    obtain rfl := Option.some.inj hnext
    simp only [CCXTWSConnector.watch_order_book]
    split <;> exact h.frame (since_start_concat as _) rfl rfl id
  | watch_ticker =>
    obtain rfl := Option.some.inj hnext
    simp only [CCXTWSConnector.watch_ticker]
    split <;> exact h.frame (since_start_concat as _) rfl rfl id

/-- **`is_ws_connected`** is true exactly from a `start` to the next `down` or the sixth time in a row
that the book loop does not reach the exchange. Every answer of the exchange breaks the row, one that
cannot be read included; other errors neither count nor break it, and what becomes of the ticker loop
does not matter. -/
theorem ws_connected_iff (exchange_name : String) (as : List Action) {c : CCXTWSConnector}
    (h : CCXTWSConnector.run exchange_name as = some c) :
    c.ws_connected = true ↔ ∃ ws, since_start as = some ws ∧ ¬GaveUp ws := by
  have hinv : Inv as c := Run.foldlM_inv (I := Inv) h ⟨nofun, fun _ => ⟨rfl, rfl⟩⟩ fun _ _ _ _ => Inv.next
  cases hws : since_start as with
  | none =>
    rw [(hinv.idle hws).1]
    exact ⟨nofun, fun ⟨_, h, _⟩ => nomatch h⟩
  | some ws =>
    have ht := hinv.tracked ws hws
    rw [ht.connected, decide_eq_true_iff]
    constructor
    · exact fun hle => ⟨ws, rfl, fun hgave => absurd hgave.le_streak (Nat.not_lt_of_le hle)⟩
    · rintro ⟨ws', hws', hgave⟩
      obtain rfl := Option.some.inj hws'
      exact Nat.le_of_not_lt fun hlt => hgave (gaveUp_of_streak (Nat.le_antisymm ht.streak_le hlt))

theorem ws_connected_twoBooks :
    ∃ c, CCXTWSConnector.run "mexc" twoBooks = some c ∧
      (c.ws_connected = true ↔ ∃ ws, since_start twoBooks = some ws ∧ ¬GaveUp ws) :=
  ⟨_, rfl, ws_connected_iff "mexc" twoBooks rfl⟩

end Connected

end Meridian.CcxtWs
