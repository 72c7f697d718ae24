import Mathlib.Data.Nat.Notation
import Mathlib.Tactic.Common
import Meridian.Lib.Run

/-!
# `connect()` against its io thread

Model of `connect()` and `io_thread_main()` of three connectors under `exchange/cpp/src`:
`kucoin_connector.cpp` (109-129, 223-320, 326-391), `mexc_connector.cpp` (150-170, 254-357,
363-439) and `kraken_connector.cpp` (164-184, 242-378, 384-495). They are one program with other
bootstrap stages, sockets and message handlers, so the model is one step function with these as
parameters. What the threads store under `state_mutex_` is left out but for the flags that
`connect()` waits for; `rest_mutex_` is held by nobody else while the connector is not connected.

Results:
* `connect_deadlocks`: on every connector `connect()` that gives up joins with `state_mutex_` held
  while the io thread is at a lock of it;
* `deadlocked_forever`: neither thread leaves that state;
* `join_not_blocked`: in every run in which the io thread is at no lock of `state_mutex_` when
  `connect()` gives up, and no REST reply or message after that makes it store anything, no such
  state is reached.
-/

namespace Meridian.ConnectJoin

open Meridian.Run

/-! ## The connectors -/

inductive Connector where
  | kucoin
  | mexc
  | kraken
  deriving DecidableEq

/-- The stages before the receive loop, in `try`. -/
inductive Stage where
  /-- `fetch_ws_credentials()` -/
  | credentials
  | balance
  | orders
  | ticker
  /-- `fetch_ws_token()` -/
  | token
  /-- the `connect` and the subscriptions of the sockets -/
  | ws
  deriving DecidableEq

/-- The stages of `io_thread_main`. -/
def Connector.bootstrap : Connector → List Stage
  | .kucoin => [.credentials, .balance, .orders, .ticker, .ws]
  | .mexc => [.balance, .orders, .ticker, .ws]
  | .kraken => [.balance, .orders, .ticker, .token, .ws]

/-- What comes of the network calls of a stage. -/
inductive Reply where
  | stores
  /-- a reply with nothing to store in it -/
  | empty
  | fails
  deriving DecidableEq

/-- The stage stores its reply under `state_mutex_`. -/
def Stage.locks : Stage → Bool
  | .balance | .orders | .ticker => true
  | .credentials | .token | .ws => false

/-- Only Kraken's ticker section is inside an `if` on the reply. -/
def Connector.skips : Connector → Stage → Bool
  | .kraken, .ticker => true
  | _, _ => false

/-- How many sockets the receive loop polls before it tests `running_` again. -/
def Connector.sockets : Connector → ℕ
  | .kucoin | .mexc => 1
  | .kraken => 2

/-- A section of `state_mutex_` in a message handler. -/
inductive Handler where
  | ticker
  | order
  | balance
  /-- Kraken's `executions` snapshot -/
  | snapshot
  deriving DecidableEq

/-- The sections that one message can lead to: at most one, but for the items of Kraken's `data`
array. -/
def Connector.handles : Connector → List Handler → Bool
  | .kraken, hs => hs = [.snapshot] || hs.all (· = .ticker) || hs.all (· = .order) ||
      hs.all (· = .balance)
  | _, hs => hs = [] || hs = [.ticker] || hs = [.order] || hs = [.balance]

/-! ## The threads -/

/-- Where the io thread stands. -/
inductive IoPc where
  /-- there is no thread, or it has returned -/
  | none
  /-- `while (running_.load())`, the outer loop -/
  | outer
  /-- in the network calls of the first of these stages -/
  | calling (stages : List Stage)
  /-- at the `lock_guard` of the stage -/
  | storing (st : Stage) (stages : List Stage)
  /-- it holds the mutex -/
  | stored (st : Stage) (stages : List Stage)
  /-- `while (running_.load())`, the receive loop -/
  | inner
  /-- this many sockets are still to be polled -/
  | polling (n : ℕ)
  /-- at the `lock_guard` of the first of these handlers -/
  | handling (h : Handler) (hs : List Handler) (n : ℕ)
  /-- it holds the mutex -/
  | handled (h : Handler) (hs : List Handler) (n : ℕ)
  /-- in the `catch` block -/
  | caught
  deriving DecidableEq

/-- It is at a `lock_guard` of `state_mutex_`. -/
def IoPc.wants : IoPc → Bool
  | .storing _ _ | .handling _ _ _ => true
  | _ => false

/-- It awaits a reply that it stores under `state_mutex_`. -/
def IoPc.fetches : IoPc → Bool
  | .calling (st :: _) => st.locks
  | _ => false

/-- It holds `state_mutex_`. -/
def IoPc.holds : IoPc → Bool
  | .stored _ _ | .handled _ _ _ => true
  | _ => false

/-- Past a stage. -/
def IoPc.proceed : List Stage → IoPc
  | [] => .inner
  | st :: stages => .calling (st :: stages)

/-- Past a handler. -/
def IoPc.dispatch (n : ℕ) : List Handler → IoPc
  | [] => if n = 0 then .inner else .polling n
  | h :: hs => .handling h hs n

/-- Where `connect()` stands. -/
inductive ConnPc where
  | idle
  /-- the thread is started, before the `unique_lock` -/
  | started
  /-- `wait_for` with the mutex held, about to test its predicate -/
  | testing (timed_out : Bool)
  /-- `wait_for`, the mutex released -/
  | blocked
  /-- woken up, before the mutex is taken again -/
  | woken (timed_out : Bool)
  /-- `wait_for` has returned `ok`, the mutex held -/
  | returned (ok : Bool)
  /-- in `io_thread_.join()`, the mutex held -/
  | joining
  deriving DecidableEq

/-- `connect()` holds `state_mutex_`. -/
def ConnPc.holds : ConnPc → Bool
  | .testing _ | .returned _ | .joining => true
  | _ => false

inductive Thread where
  | connect
  | io
  deriving DecidableEq

structure State where
  running : Bool
  connected : Bool
  ticker_ready : Bool
  balance_ready : Bool
  state_mutex : Option Thread
  conn : ConnPc
  io : IoPc

def init : State :=
  { running := false, connected := false, ticker_ready := false, balance_ready := false
    state_mutex := none, conn := .idle, io := .none }

/-- The steps of `connect()`, of the io thread, and of another thread's `disconnect()`. -/
inductive Act where
  | call
  | lock
  | test
  | wake (timed_out : Bool)
  | relock
  | decide
  | join
  | stop
  | outer
  | reply (r : Reply)
  | store
  | stored
  | inner
  | message (hs : List Handler)
  | handle
  | handled
  | throws
  | catches

/-- The predicate of `wait_for`. -/
def State.ready (s : State) : Bool := (s.ticker_ready && s.balance_ready) || !s.running

/-- The flags a stage sets. -/
def State.set (s : State) : Stage → State
  | .balance => { s with balance_ready := true }
  | .ticker => { s with ticker_ready := true }
  | _ => s

/-- The flags a handler sets. -/
def State.note (s : State) : Handler → State
  | .ticker => { s with ticker_ready := true }
  | .balance => { s with balance_ready := true }
  | _ => s

/-- One step, where the thread it belongs to is at that place and the mutex is free to take. -/
def next (C : Connector) (s : State) : Act → Option State
  | .call =>
    match s.conn, s.io with
    | .idle, io =>
      if s.running then some s
      -- the last io thread has been joined
      else if io = .none then some { s with running := true, io := .outer, conn := .started }
      else none
    | _, _ => none
  | .lock =>
    match s.conn, s.state_mutex with
    | .started, none => some { s with conn := .testing false, state_mutex := some .connect }
    | _, _ => none
  | .test =>
    match s.conn with
    | .testing timed_out =>
      if s.ready then some { s with conn := .returned true }
      else if timed_out then some { s with conn := .returned false }
      else some { s with conn := .blocked, state_mutex := none }
    | _ => none
  | .wake timed_out =>
    match s.conn with
    | .blocked => some { s with conn := .woken timed_out }
    | _ => none
  | .relock =>
    match s.conn, s.state_mutex with
    | .woken timed_out, none =>
      some { s with conn := .testing timed_out, state_mutex := some .connect }
    | _, _ => none
  | .decide =>
    match s.conn with
    | .returned ok =>
      if ok then
        if s.running then some { s with connected := true, conn := .idle, state_mutex := none }
        else some { s with conn := .joining }
      else some { s with running := false, conn := .joining }
    | _ => none
  | .join =>
    match s.conn, s.io with
    -- it throws, and the `unique_lock` is released
    | .joining, .none => some { s with conn := .idle, state_mutex := none }
    | _, _ => none
  | .stop => some { s with running := false, connected := false }
  | .outer =>
    match s.io with
    | .outer => some { s with io := if s.running then .proceed C.bootstrap else .none }
    | _ => none
  | .reply r =>
    match s.io with
    | .calling (st :: stages) =>
      match r with
      | .stores => some { s with io := if st.locks then .storing st stages else .proceed stages }
      | .empty => if C.skips st then some { s with io := .proceed stages } else none
      -- the open orders have a `try` of their own
      | .fails => some { s with io := if st = .orders then .proceed stages else .caught }
    | _ => none
  | .store =>
    match s.io, s.state_mutex with
    | .storing st stages, none => some { s with io := .stored st stages, state_mutex := some .io }
    | _, _ => none
  | .stored =>
    match s.io with
    | .stored st stages => some { s.set st with io := .proceed stages, state_mutex := none }
    | _ => none
  | .inner =>
    match s.io with
    | .inner => some { s with io := if s.running then .polling C.sockets else .outer }
    | _ => none
  | .message hs =>
    match s.io with
    | .polling (n + 1) => if C.handles hs then some { s with io := .dispatch n hs } else none
    | _ => none
  | .handle =>
    match s.io, s.state_mutex with
    | .handling h hs n, none => some { s with io := .handled h hs n, state_mutex := some .io }
    | _, _ => none
  | .handled =>
    match s.io with
    | .handled h hs n => some { s.note h with io := .dispatch n hs, state_mutex := none }
    | _ => none
  | .throws =>
    match s.io with
    | .polling _ => some { s with io := .caught }
    | .handled _ _ _ => some { s with io := .caught, state_mutex := none }
    | _ => none
  | .catches =>
    match s.io with
    | .caught => some { s with io := if s.running then .outer else .none }
    | _ => none

/-- `connect()` is in `join` with the mutex held, and the io thread at a lock of it. -/
def Deadlocked (s : State) : Prop :=
  s.conn = .joining ∧ s.state_mutex = some .connect ∧ s.io.wants = true

/-- The io thread is at no lock of `state_mutex_` when `connect()` gives up, and from then on no
reply and no message makes it store anything. -/
def Meets (s : State) : Act → Prop
  | .decide => (s.conn = .returned true ∧ s.running = true) ∨ s.io.wants = false
  | .reply r => s.conn = .joining → r = .stores → s.io.fetches = false
  | .message hs => s.conn = .joining → hs = []
  | _ => True

instance (s : State) (a : Act) : Decidable (Meets s a) := by
  unfold Meets
  split <;> infer_instance

/-! ## What a step can be -/

/-- The steps, each with what it needs. -/
inductive Step (C : Connector) (s : State) : Act → State → Prop
  | refuse (hc : s.conn = .idle) (hr : s.running = true) : Step C s .call s
  | call (hc : s.conn = .idle) (hio : s.io = .none) :
    Step C s .call { s with running := true, io := .outer, conn := .started }
  | lock (hc : s.conn = .started) (hm : s.state_mutex = none) :
    Step C s .lock { s with conn := .testing false, state_mutex := some .connect }
  | test (timed_out ok : Bool) (hc : s.conn = .testing timed_out) :
    Step C s .test { s with conn := .returned ok }
  | block (timed_out : Bool) (hc : s.conn = .testing timed_out) :
    Step C s .test { s with conn := .blocked, state_mutex := none }
  | wake (timed_out : Bool) (hc : s.conn = .blocked) :
    Step C s (.wake timed_out) { s with conn := .woken timed_out }
  | relock (timed_out : Bool) (hc : s.conn = .woken timed_out) (hm : s.state_mutex = none) :
    Step C s .relock { s with conn := .testing timed_out, state_mutex := some .connect }
  | finish (hc : s.conn = .returned true) (hr : s.running = true) :
    Step C s .decide { s with connected := true, conn := .idle, state_mutex := none }
  | giveUp (ok running : Bool) (hc : s.conn = .returned ok)
      (hno : ¬(s.conn = .returned true ∧ s.running = true)) :
    Step C s .decide { s with running := running, conn := .joining }
  | join (hc : s.conn = .joining) (hio : s.io = .none) :
    Step C s .join { s with conn := .idle, state_mutex := none }
  | stop : Step C s .stop { s with running := false, connected := false }
  | outer (io : IoPc) (hio : s.io = .outer) (ho : io.holds = false) (hw : io.wants = false) :
    Step C s .outer { s with io := io }
  | fetched (st : Stage) (stages : List Stage) (hio : s.io = .calling (st :: stages))
      (hl : st.locks = true) : Step C s (.reply .stores) { s with io := .storing st stages }
  | skip (r : Reply) (st : Stage) (stages : List Stage) (hio : s.io = .calling (st :: stages))
      (hl : r = .stores → st.locks = false) : Step C s (.reply r) { s with io := .proceed stages }
  | fail (st : Stage) (stages : List Stage) (hio : s.io = .calling (st :: stages)) :
    Step C s (.reply .fails) { s with io := .caught }
  | store (st : Stage) (stages : List Stage) (hio : s.io = .storing st stages)
      (hm : s.state_mutex = none) :
    Step C s .store { s with io := .stored st stages, state_mutex := some .io }
  | stored (st : Stage) (stages : List Stage) (hio : s.io = .stored st stages) :
    Step C s .stored { s.set st with io := .proceed stages, state_mutex := none }
  | inner (io : IoPc) (hio : s.io = .inner) (ho : io.holds = false) (hw : io.wants = false) :
    Step C s .inner { s with io := io }
  | message (hs : List Handler) (n : ℕ) (hio : s.io = .polling (n + 1)) :
    Step C s (.message hs) { s with io := .dispatch n hs }
  | handle (h : Handler) (hs : List Handler) (n : ℕ) (hio : s.io = .handling h hs n)
      (hm : s.state_mutex = none) :
    Step C s .handle { s with io := .handled h hs n, state_mutex := some .io }
  | handled (h : Handler) (hs : List Handler) (n : ℕ) (hio : s.io = .handled h hs n) :
    Step C s .handled { s.note h with io := .dispatch n hs, state_mutex := none }
  | throws (n : ℕ) (hio : s.io = .polling n) : Step C s .throws { s with io := .caught }
  | throwsHeld (h : Handler) (hs : List Handler) (n : ℕ) (hio : s.io = .handled h hs n) :
    Step C s .throws { s with io := .caught, state_mutex := none }
  | catches (io : IoPc) (hio : s.io = .caught) (ho : io.holds = false) (hw : io.wants = false) :
    Step C s .catches { s with io := io }

variable {C : Connector} {s s' : State}

theorem holds_proceed (stages : List Stage) : (IoPc.proceed stages).holds = false := by
  cases stages <;> rfl

theorem wants_proceed (stages : List Stage) : (IoPc.proceed stages).wants = false := by
  cases stages <;> rfl

theorem step_call (hs : next C s .call = some s') : Step C s .call s' := by
  simp only [next] at hs
  split at hs
  · rename_i hc
    split at hs
    · rename_i hr
      obtain rfl := Option.some.inj hs
      exact .refuse hc hr
    · obtain ⟨hio, ⟨⟩⟩ := Option.ite_none_right_eq_some.mp hs
      exact .call hc hio
  · cases hs

theorem step_test (hs : next C s .test = some s') : Step C s .test s' := by
  simp only [next] at hs
  split at hs
  · rename_i timed_out hc
    split at hs
    · obtain rfl := Option.some.inj hs
      exact .test timed_out true hc
    · split at hs
      · obtain rfl := Option.some.inj hs
        exact .test timed_out false hc
      · obtain rfl := Option.some.inj hs
        exact .block timed_out hc
  · cases hs

/-- `wait_for` returns true only where its predicate is. -/
theorem ready_of_test (hs : next C s .test = some s') (hret : s'.conn = .returned true) :
    s'.ready = true := by
  simp only [next] at hs
  split at hs
  · split at hs
    · rename_i hready
      obtain rfl := Option.some.inj hs
      exact hready
    · split at hs
      · obtain rfl := Option.some.inj hs
        cases hret
      · obtain rfl := Option.some.inj hs
        cases hret
  · cases hs

theorem step_decide (hs : next C s .decide = some s') : Step C s .decide s' := by
  simp only [next] at hs
  split at hs
  · rename_i ok hc
    split at hs
    · rename_i hok
      subst hok
      split at hs
      · rename_i hr
        obtain rfl := Option.some.inj hs
        exact .finish hc hr
      · rename_i hr
        obtain rfl := Option.some.inj hs
        exact .giveUp true s.running hc fun h => hr h.2
    · rename_i hok
      obtain rfl := Option.some.inj hs
      exact .giveUp ok false hc fun h => hok (ConnPc.returned.inj (hc.symm.trans h.1))
  · cases hs

theorem step_reply {r : Reply} (hs : next C s (.reply r) = some s') : Step C s (.reply r) s' := by
  simp only [next] at hs
  split at hs
  · rename_i st stages hio
    cases r with
    | stores =>
      obtain rfl := Option.some.inj hs
      by_cases hl : st.locks = true
      · rw [if_pos hl]
        exact .fetched st stages hio hl
      · rw [if_neg hl]
        exact .skip .stores st stages hio fun _ => Bool.eq_false_iff.mpr hl
    | empty =>
      obtain ⟨-, ⟨⟩⟩ := Option.ite_none_right_eq_some.mp hs
      exact .skip .empty st stages hio fun h => nomatch h
    | fails =>
      obtain rfl := Option.some.inj hs
      split
      · exact .skip .fails st stages hio fun h => nomatch h
      · exact .fail st stages hio
  · cases hs

theorem step_throws (hs : next C s .throws = some s') : Step C s .throws s' := by
  simp only [next] at hs
  split at hs
  · rename_i n hio
    obtain rfl := Option.some.inj hs
    exact .throws n hio
  · rename_i h hds n hio
    obtain rfl := Option.some.inj hs
    exact .throwsHeld h hds n hio
  · cases hs

/-- There are no others. -/
theorem step_of_next {a : Act} (hs : next C s a = some s') : Step C s a s' := by
  cases a with
  | call => exact step_call hs
  | test => exact step_test hs
  | decide => exact step_decide hs
  | reply r => exact step_reply hs
  | throws => exact step_throws hs
  | stop =>
    obtain rfl := Option.some.inj hs
    exact .stop
  | lock =>
    simp only [next] at hs
    split at hs
    · rename_i hc hm
      obtain rfl := Option.some.inj hs
      exact .lock hc hm
    · cases hs
  | wake timed_out =>
    simp only [next] at hs
    split at hs
    · rename_i hc
      obtain rfl := Option.some.inj hs
      exact .wake timed_out hc
    · cases hs
  | relock =>
    simp only [next] at hs
    split at hs
    · rename_i timed_out hc hm
      obtain rfl := Option.some.inj hs
      exact .relock timed_out hc hm
    · cases hs
  | join =>
    simp only [next] at hs
    split at hs
    · rename_i hc hio
      obtain rfl := Option.some.inj hs
      exact .join hc hio
    · cases hs
  | outer =>
    simp only [next] at hs
    split at hs
    · rename_i hio
      obtain rfl := Option.some.inj hs
      split
      · exact .outer _ hio (holds_proceed _) (wants_proceed _)
      · exact .outer _ hio rfl rfl
    · cases hs
  | store =>
    simp only [next] at hs
    split at hs
    · rename_i st stages hio hm
      obtain rfl := Option.some.inj hs
      exact .store st stages hio hm
    · cases hs
  | stored =>
    simp only [next] at hs
    split at hs
    · rename_i st stages hio
      obtain rfl := Option.some.inj hs
      exact .stored st stages hio
    · cases hs
  | inner =>
    simp only [next] at hs
    split at hs
    · rename_i hio
      obtain rfl := Option.some.inj hs
      split
      · exact .inner _ hio rfl rfl
      · exact .inner _ hio rfl rfl
    · cases hs
  | message hds =>
    simp only [next] at hs
    split at hs
    · rename_i n hio
      obtain ⟨-, ⟨⟩⟩ := Option.ite_none_right_eq_some.mp hs
      exact .message hds n hio
    · cases hs
  | handle =>
    simp only [next] at hs
    split at hs
    · rename_i h hds n hio hm
      obtain rfl := Option.some.inj hs
      exact .handle h hds n hio hm
    · cases hs
  | handled =>
    simp only [next] at hs
    split at hs
    · rename_i h hds n hio
      obtain rfl := Option.some.inj hs
      exact .handled h hds n hio
    · cases hs
  | catches =>
    simp only [next] at hs
    split at hs
    · rename_i hio
      obtain rfl := Option.some.inj hs
      split
      · exact .catches _ hio rfl rfl
      · exact .catches _ hio rfl rfl
    · cases hs

/-! ## Who holds the mutex -/

/-- A thread inside a section holds the mutex. -/
structure Held (s : State) : Prop where
  conn : s.conn.holds = true → s.state_mutex = some .connect
  io : s.io.holds = true → s.state_mutex = some .io

theorem held_init : Held init where
  conn h := by cases h
  io h := by cases h

/-- While the io thread is inside a section `connect()` is not. -/
theorem Held.conn_out (h : Held s) (hio : s.io.holds = true) : s.conn.holds = false := by
  by_contra hc
  have := (h.conn (Bool.not_eq_false _ ▸ hc)).symm.trans (h.io hio)
  cases this

theorem Held.io_out (h : Held s) (hc : s.conn.holds = true) : s.io.holds = false := by
  by_contra hio
  have := (h.conn hc).symm.trans (h.io (Bool.not_eq_false _ ▸ hio))
  cases this

/-- While the mutex is free nobody is inside a section. -/
theorem Held.free (h : Held s) (hm : s.state_mutex = none) :
    s.conn.holds = false ∧ s.io.holds = false := by
  constructor
  · by_contra hc
    cases hm.symm.trans (h.conn (Bool.not_eq_false _ ▸ hc))
  · by_contra hio
    cases hm.symm.trans (h.io (Bool.not_eq_false _ ▸ hio))

theorem holds_dispatch (n : ℕ) (hs : List Handler) : (IoPc.dispatch n hs).holds = false := by
  cases hs with
  | nil =>
    simp only [IoPc.dispatch]
    split <;> rfl
  | cons h hs => rfl

theorem wants_dispatch_nil (n : ℕ) : (IoPc.dispatch n []).wants = false := by
  simp only [IoPc.dispatch]
  split <;> rfl

/-- A thread that is outside its sections before and after, the mutex untouched. -/
theorem Held.outside (h : Held s) (hm : s'.state_mutex = s.state_mutex)
    (hconn : s'.conn.holds = true → s.conn.holds = true)
    (hio : s'.io.holds = true → s.io.holds = true) : Held s' where
  conn hc := hm ▸ h.conn (hconn hc)
  io hc := hm ▸ h.io (hio hc)

/-- Nobody is inside a section. -/
theorem Held.of_out (hc : s.conn.holds = false) (hio : s.io.holds = false) : Held s where
  conn h := by cases hc.symm.trans h
  io h := by cases hio.symm.trans h

/-- `connect()` takes the free mutex. -/
theorem Held.take_conn (h : Held s) (hm : s.state_mutex = none) {conn : ConnPc} :
    Held { s with conn := conn, state_mutex := some .connect } where
  conn _ := rfl
  io hio := by cases (h.free hm).2.symm.trans hio

/-- The io thread takes the free mutex. -/
theorem Held.take_io (h : Held s) (hm : s.state_mutex = none) {io : IoPc} :
    Held { s with io := io, state_mutex := some .io } where
  conn hc := by cases (h.free hm).1.symm.trans hc
  io _ := rfl

/-- The io thread goes on outside its sections. -/
theorem Held.io_moves (h : Held s) {io : IoPc} (hio : io.holds = false) :
    Held { s with io := io } where
  conn hc := h.conn hc
  io hh := by cases hio.symm.trans hh

/-- **One step** keeps the mutex with the thread inside its section. -/
theorem held_step {a : Act} (h : Held s) (hs : Step C s a s') : Held s' := by
  -- where the threads are decides whether they are inside a section
  have conn_in : ∀ {pc : ConnPc}, s.conn = pc → pc.holds = true → s.conn.holds = true :=
    fun hc hin => hc ▸ hin
  have io_in : ∀ {pc : IoPc}, s.io = pc → pc.holds = true → s.io.holds = true :=
    fun hio hin => hio ▸ hin
  cases hs with
  | refuse | stop => exact ⟨h.conn, h.io⟩
  | call => exact .of_out rfl rfl
  | lock _ hm | relock _ _ hm => exact h.take_conn hm
  | test _ _ hc | giveUp _ _ hc _ => exact h.outside rfl (fun _ => conn_in hc rfl) fun hio => hio
  | block _ hc => exact .of_out rfl (h.io_out (conn_in hc rfl))
  | finish hc _ => exact .of_out rfl (h.io_out (conn_in hc rfl))
  | wake => exact h.outside rfl (fun hc => nomatch hc) fun hio => hio
  | join _ hio => exact .of_out rfl (congrArg IoPc.holds hio)
  | outer _ _ ho _ | inner _ _ ho _ | catches _ _ ho _ => exact h.io_moves ho
  | fetched | fail | throws => exact h.io_moves rfl
  | skip _ _ stages => exact h.io_moves (holds_proceed stages)
  | store _ _ _ hm | handle _ _ _ _ hm => exact h.take_io hm
  | stored st stages hio =>
    have hout := h.conn_out (io_in hio rfl)
    refine .of_out ?_ (holds_proceed stages)
    cases st <;> exact hout
  | message hds n => exact h.io_moves (holds_dispatch n hds)
  | handled hd hds n hio =>
    have hout := h.conn_out (io_in hio rfl)
    refine .of_out ?_ (holds_dispatch n hds)
    cases hd <;> exact hout
  | throwsHeld _ _ _ hio => exact .of_out (h.conn_out (io_in hio rfl)) rfl

/-! ## While the io thread has nothing to store -/

/-- While `connect()` joins, the io thread is at no lock of the mutex. -/
def Calm (s : State) : Prop := s.conn = .joining → s.io.wants = false

/-- The io thread inside a section: `connect()` does not join. -/
theorem Held.not_joining (h : Held s) (hio : s.io.holds = true) : s.conn ≠ .joining := by
  intro hj
  have hout := h.conn_out hio
  rw [hj] at hout
  cases hout

/-- **One step** that meets the condition keeps the io thread away from the locks. -/
theorem calm_step {a : Act} (h : Calm s) (hh : Held s) (hc : Meets s a) (hs : Step C s a s') :
    Calm s' := by
  cases hs with
  | refuse | stop => exact h
  | call | lock | test | block | wake | relock | finish | join => exact fun hj => nomatch hj
  | giveUp _ _ _ hno => exact fun _ => hc.resolve_left hno
  | outer _ _ _ hw | inner _ _ _ hw | catches _ _ _ hw => exact fun _ => hw
  | fetched st stages hio hl =>
    -- a reply to store is the condition's to exclude
    intro hj
    have hf := hc hj rfl
    rw [hio] at hf
    cases hl.symm.trans hf
  | skip _ _ stages | stored _ stages => exact fun _ => wants_proceed stages
  | fail | store | handle | throws | throwsHeld => exact fun _ => rfl
  | message hds n =>
    intro hj
    rw [hc hj]
    exact wants_dispatch_nil n
  | handled hd hds n hio =>
    -- more handlers may follow, but `connect()` is not joining
    have hj := hh.not_joining (by rw [hio]; rfl)
    refine fun hj' => absurd ?_ hj
    cases hd <;> exact hj'

/-- **`connect()` is not blocked in `join`** by the io thread at its own mutex, in every run in
which the io thread is at no lock of `state_mutex_` when `connect()` gives up, and no later reply or
message makes it store anything. -/
theorem join_not_blocked (C : Connector) (h : Reaches (Fires (next C)) Meets init s) :
    ¬Deadlocked s := by
  have hi := h.inv (I := fun s => Held s ∧ Calm s) ⟨held_init, fun hj => nomatch hj⟩
    fun _ _ _ hi hc hs =>
      ⟨held_step hi.1 (step_of_next hs), calm_step hi.2 hi.1 hc (step_of_next hs)⟩
  rintro ⟨hj, -, hw⟩
  cases (hi.2 hj).symm.trans hw

/-- `connect()` times out while the io thread waits for the balance, which never comes. -/
def timeoutRun : List Act :=
  [.call, .lock, .test, .outer, .wake true, .relock, .test, .decide, .reply .fails, .catches, .join]

theorem timeout_joined : ∃ s : State, s.io = .none ∧ s.running = false ∧ ¬Deadlocked s := by
  have h : (play (next .mexc) Meets init timeoutRun).any (fun s => decide
      (s.io = .none ∧ s.running = false)) = true := by
    decide
  obtain ⟨s, hs, hp⟩ := (Option.any_eq_true _ _).mp h
  obtain ⟨hio, hrun⟩ := of_decide_eq_true hp
  exact ⟨s, hio, hrun, join_not_blocked .mexc (reaches_of_play hs)⟩

/-! ## The deadlock -/

/-- A step that does not meet the condition ends in the deadlock. -/
theorem deadlocked_of_not_meets {a : Act} (hh : Held s) (hc : ¬Meets s a)
    (hs : next C s a = some s') : Deadlocked s' := by
  have hmutex : ∀ {pc : ConnPc}, s.conn = pc → pc.holds = true → s.state_mutex = some .connect :=
    fun hpc hin => hh.conn (hpc ▸ hin)
  cases step_of_next hs with
  | finish hret hr => exact absurd (Or.inl ⟨hret, hr⟩) hc
  | giveUp _ _ hret _ =>
    have hw : s.io.wants = true := Bool.not_eq_false _ ▸ (not_or.mp hc).2
    exact ⟨rfl, hmutex hret rfl, hw⟩
  | fetched st stages hio hl =>
    obtain ⟨hj, -⟩ := Classical.not_imp.mp hc
    exact ⟨hj, hmutex hj rfl, rfl⟩
  | skip r st stages hio hl =>
    obtain ⟨-, hrest⟩ := Classical.not_imp.mp hc
    obtain ⟨hr, hf⟩ := Classical.not_imp.mp hrest
    rw [hio] at hf
    exact absurd (hl hr) hf
  | fail =>
    obtain ⟨-, hrest⟩ := Classical.not_imp.mp hc
    cases (Classical.not_imp.mp hrest).1
  | message hds n hio =>
    obtain ⟨hj, hne⟩ := Classical.not_imp.mp hc
    refine ⟨hj, hmutex hj rfl, ?_⟩
    cases hds with
    | nil => exact absurd rfl hne
    | cons h hds => rfl
  | _ => exact absurd trivial hc

/-- Every other step needs the mutex or another place than the two threads are at. -/
theorem deadlocked_next {a : Act} (hd : Deadlocked s) (hs : next C s a = some s') :
    Deadlocked s' := by
  obtain ⟨hj, hm, hw⟩ := hd
  cases step_of_next hs with
  | stop => exact ⟨hj, hm, hw⟩
  | refuse hc | call hc | lock hc | test _ _ hc | block _ hc | wake _ hc | relock _ hc
  | finish hc | giveUp _ _ hc => cases hj.symm.trans hc
  | store _ _ _ hfree | handle _ _ _ _ hfree => cases hm.symm.trans hfree
  | join _ hio | outer _ hio | fetched _ _ hio | skip _ _ _ hio | fail _ _ hio | stored _ _ hio
  | inner _ hio | message _ _ hio | handled _ _ _ hio | throws _ hio | throwsHeld _ _ _ hio
  | catches _ hio =>
    rw [hio] at hw
    cases hw

/-- **Neither thread gets out** of the deadlock: `connect()` waits for the io thread to end, and the
io thread for the mutex that `connect()` holds. -/
theorem deadlocked_forever (h : Reaches (Fires (next C)) (fun _ _ => True) s s')
    (hd : Deadlocked s) : Deadlocked s' :=
  h.inv hd fun _ _ _ hd _ hs => deadlocked_next hd hs

/-- The time runs out just as the balance has come in. -/
def lateRun : Connector → List Act
  | .kucoin => [.call, .lock, .test, .outer, .reply .stores, .wake true, .relock, .test,
      .reply .stores, .decide]
  | _ => [.call, .lock, .test, .outer, .wake true, .relock, .test, .reply .stores, .decide]

/-- `connect()` can come to a deadlock. -/
def Deadlocks (C : Connector) : Prop :=
  ∃ s, Reaches (Fires (next C)) (fun _ _ => True) init s ∧ Deadlocked s

theorem deadlocks (C : Connector) : Deadlocks C := by
  have h : (play (next C) (fun _ _ => True) init (lateRun C)).any (fun s => decide
      (s.conn = .joining ∧ s.state_mutex = some .connect ∧ s.io.wants = true)) = true := by
    cases C <;> decide
  obtain ⟨s, hs, hp⟩ := (Option.any_eq_true _ _).mp h
  have hd := of_decide_eq_true hp
  exact ⟨s, reaches_of_play hs, hd⟩

/-- **`connect()` deadlocks** with its io thread, on all three connectors. -/
theorem connect_deadlocks : Deadlocks .kucoin ∧ Deadlocks .mexc ∧ Deadlocks .kraken :=
  ⟨deadlocks .kucoin, deadlocks .mexc, deadlocks .kraken⟩

end Meridian.ConnectJoin
