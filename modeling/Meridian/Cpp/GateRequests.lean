import Mathlib.Data.Int.Notation
import Mathlib.Data.List.Nodup
import Mathlib.Data.Nat.Notation
import Mathlib.Logic.Function.Basic
import Meridian.Lib.Run

/-!
# `GateConnector`: WebSocket requests and their promises

Model of the request and response protocol of `exchange/cpp/src/gate_connector.cpp`: any number of
calls of `ws_api_request` (`gate_connector.cpp:269-332`) against the io thread, which resolves
promises in `on_ws_message` (`gate_connector.cpp:571-617`), and on a disconnect clears `ws_ptr_` and
runs `fail_pending_requests` (`gate_connector.cpp:255-264`, `546-556`). A call is known by the
request id it draws. A critical section with one access is one step; `on_ws_message` and
`fail_pending_requests` hold `pending_mutex_` from the first promise they resolve to the last entry
they erase, and a caller may wake up in between. Messages without a `request_id` touch none of this,
and an exception of `on_ws_message` leaves the receive loop like any other (`leave`).

Results:
* `resolved_once`: in every run a promise is resolved at most once, and by nobody but a response
  that is no ACK and carries its id, or a teardown;
* `requests_settled`: in every run in which `send_text` throws for no entry still in the map, no
  call returns before the section that resolved its promise is over, and none finds `ws_ptr_` set
  after a teardown that came between its registration and its test, calls also leave no entry
  behind and failed calls are not sent;
* `entry_left`, `request_resent`: they do otherwise.

Out of scope: the wrap of the `uint64_t` `req_id_counter_`, a natural number here. Ids would come
twice only after `2 ^ 64` requests in the life of one connector.
-/

namespace Meridian.GateRequests

open Meridian.Run

variable {J : Type}

/-! ## Requests, messages and promises -/

/-- The arguments of `ws_api_request`. -/
structure Request (J : Type) where
  channel : String
  req_param : J
  timeout_ms : ℤ

/-- `data.errs`. -/
structure Errs where
  label : Option String
  message : Option String
  deriving DecidableEq

/-- A message with a `request_id`; the fields that may be missing are optional. -/
structure Message (J : Type) where
  request_id : String
  ack : Bool
  status : Option String
  channel : Option String
  result : Option J
  errs : Option Errs
  deriving DecidableEq

/-- Any `2xx` is success. -/
def Message.ok (m : Message J) : Bool :=
  match (m.status.getD "0").toList with
  | c :: _ => c == '2'
  | [] => false

/-- What the promise is given: `data.result` (`none` is the empty object in its place) or the text
of the error. -/
def Message.outcome (m : Message J) : Except String (Option J) :=
  if m.ok then .ok m.result
  else
    let label := (m.errs.bind Errs.label).getD "UNKNOWN"
    let errmsg := (m.errs.bind Errs.message).getD ""
    .error ("Gate.io WS error [" ++ m.channel.getD "?" ++ "]: " ++ label ++
      if errmsg = "" then "" else " — " ++ errmsg)

/-- Who resolved a promise: `on_ws_message`, or `fail_pending_requests` after that many
connections. -/
inductive Resolution (J : Type) where
  | response (m : Message J)
  | teardown (conns : ℕ)
  deriving DecidableEq

def Resolution.isResponse : Resolution J → Bool
  | .response _ => true
  | .teardown _ => false

/-- What `fut.get()` returns or throws. -/
def Resolution.outcome : Resolution J → Except String (Option J)
  | .response m => m.outcome
  | .teardown _ => .error "[GateConnector] WebSocket disconnected — reconnecting"

/-! ## The threads -/

/-- Where a call of `ws_api_request` stands. -/
inductive CallerPc (J : Type) where
  | idle
  /-- its id is drawn, its promise not yet in the map -/
  | drawn
  | registered
  /-- it holds `ws_send_mutex_` -/
  | locked
  /-- `ws_ptr_` was connection `c`: `send_text` comes next -/
  | sending (c : ℕ)
  /-- `fut.wait_for` -/
  | waiting
  | notSent
  | timedOut
  /-- it returned or threw -/
  | ended (r : Except String (Option J))

/-- Its promise has been put into the map. -/
def CallerPc.registers : CallerPc J → Bool
  | .idle | .drawn => false
  | _ => true

/-- The call is over. -/
def CallerPc.isEnded : CallerPc J → Bool
  | .ended _ => true
  | _ => false

/-- Where the io thread stands. -/
inductive IoPc where
  /-- REST bootstrap, connecting, backoff or the end -/
  | down
  /-- `ws_ptr_` is published: login, subscriptions and the receive loop -/
  | up
  /-- `on_ws_message` has resolved this promise, `pending_mutex_` still held -/
  | erasing (id : String)
  /-- past the receive loop, before `ws_ptr_` is cleared -/
  | leaving
  | cleared
  /-- `fail_pending_requests` holds `pending_mutex_`: what it has failed, and what is to come -/
  | failing (done todo : List String)
  deriving DecidableEq

/-- The promises resolved by the critical section the io thread is in. -/
def IoPc.done : IoPc → List String
  | .erasing id => [id]
  | .failing done _ => done
  | _ => []

/-- The promises it has still to fail. -/
def IoPc.todo : IoPc → List String
  | .failing _ todo => todo
  | _ => []

/-- `fail_pending_requests` is running. -/
def IoPc.fails : IoPc → Bool
  | .failing _ _ => true
  | _ => false

/-- The io thread holds `pending_mutex_`. -/
def IoPc.holdsPending : IoPc → Bool
  | .erasing _ | .failing _ _ => true
  | _ => false

/-- The flags, the mutex, the map (by its keys) and the calls. History: who resolved each promise,
what was sent on which connection, the number of connections published and of teardowns, and at
which of these a call was registered. -/
structure State (J : Type) where
  connected : Bool
  req_id_counter : ℕ
  ws_send_mutex : Option String
  ws_ptr : Option ℕ
  pending_requests : List String
  io : IoPc
  call : String → CallerPc J
  request : String → Option (Request J)
  resolved : String → List (Resolution J)
  sent : List (String × ℕ)
  conns : ℕ
  teardowns : ℕ
  registered_at : String → ℕ

/-- No call yet, no connection. -/
def init : State J :=
  { connected := false, req_id_counter := 0, ws_send_mutex := none, ws_ptr := none
    pending_requests := [], io := .down, call := fun _ => .idle, request := fun _ => none
    resolved := fun _ => [], sent := [], conns := 0, teardowns := 0, registered_at := fun _ => 0 }

/-- The steps of the calls and of the io thread; `connect` and `disconnect` set `connected_`. -/
inductive Act (J : Type) where
  | setConnected (b : Bool)
  | begin (req : Request J)
  | register (id : String)
  | lock (id : String)
  | test (id : String)
  | send (id : String)
  | sendThrows (id : String) (what : String)
  | eraseUnsent (id : String)
  | timeout (id : String)
  | eraseTimedOut (id : String)
  | get (id : String)
  | publish
  | login
  | message (m : Message J)
  | eraseEntry
  | leave
  | clear
  | failLock
  | failOne
  | failDone

/-- A call moves on. -/
def State.move (s : State J) (id : String) (pc : CallerPc J) : State J :=
  { s with call := Function.update s.call id pc }

/-- `pending_requests_.emplace(req_id, …)`, of an id that is not in the map. -/
def State.emplace (s : State J) (id : String) : State J :=
  { s with
    pending_requests := id :: s.pending_requests
    registered_at := Function.update s.registered_at id s.teardowns }

/-- `pending_requests_.erase(req_id)`. -/
def State.erase (s : State J) (id : String) : State J :=
  { s with pending_requests := s.pending_requests.filter (· ≠ id) }

/-- `set_value` or `set_exception`. -/
def State.resolve (s : State J) (id : String) (r : Resolution J) : State J :=
  { s with resolved := Function.update s.resolved id (r :: s.resolved id) }

/-- One step, where the thread it belongs to is at that place and the mutex is free to take. -/
def next (s : State J) : Act J → Option (State J)
  | .setConnected b => some { s with connected := b }
  | .begin req =>
    if s.connected then
      let id := toString (s.req_id_counter + 1)
      some ({ s with
        req_id_counter := s.req_id_counter + 1
        request := Function.update s.request id (some req) }.move id .drawn)
    else some s
  | .register id =>
    match s.call id with
    | .drawn =>
      if s.io.holdsPending then none
      else some ((s.emplace id).move id .registered)
    | _ => none
  | .lock id =>
    match s.call id, s.ws_send_mutex with
    | .registered, none => some ({ s with ws_send_mutex := some id }.move id .locked)
    | _, _ => none
  | .test id =>
    match s.call id with
    | .locked =>
      match s.ws_ptr with
      | some c => some (s.move id (.sending c))
      | none => some ({ s with ws_send_mutex := none }.move id .notSent)
    | _ => none
  | .send id =>
    match s.call id with
    | .sending c =>
      some ({ s with ws_send_mutex := none, sent := (id, c) :: s.sent }.move id .waiting)
    | _ => none
  | .sendThrows id what =>
    match s.call id with
    -- the exception releases the mutex and passes both `erase`s by
    | .sending _ => some ({ s with ws_send_mutex := none }.move id (.ended (.error what)))
    | _ => none
  | .eraseUnsent id =>
    match s.call id with
    | .notSent =>
      if s.io.holdsPending then none
      else
        some ((s.erase id).move id
          (.ended (.error "GateConnector::ws_api_request: WebSocket not connected")))
    | _ => none
  | .timeout id =>
    match s.call id, s.resolved id with
    | .waiting, [] => some (s.move id .timedOut)
    | _, _ => none
  | .eraseTimedOut id =>
    match s.call id, s.request id with
    | .timedOut, some req =>
      if s.io.holdsPending then none
      else
        some ((s.erase id).move id (.ended (.error
          (req.channel ++ " WS request timed out after " ++ toString req.timeout_ms ++ " ms"))))
    | _, _ => none
  | .get id =>
    match s.call id, s.resolved id with
    | .waiting, r :: _ => some (s.move id (.ended r.outcome))
    | _, _ => none
  | .publish =>
    match s.io, s.ws_send_mutex with
    | .down, none => some { s with io := .up, ws_ptr := some s.conns, conns := s.conns + 1 }
    | _, _ => none
  | .login =>
    match s.io with
    | .up => some { s with req_id_counter := s.req_id_counter + 1 }
    | _ => none
  | .message m =>
    match s.io with
    | .up =>
      if m.ack ∨ m.request_id = "" ∨ m.request_id ∉ s.pending_requests then some s
      else some { s.resolve m.request_id (.response m) with io := .erasing m.request_id }
    | _ => none
  | .eraseEntry =>
    match s.io with
    | .erasing id => some { s.erase id with io := .up }
    | _ => none
  | .leave =>
    match s.io with
    | .down | .up => some { s with io := .leaving }
    | _ => none
  | .clear =>
    match s.io, s.ws_send_mutex with
    | .leaving, none => some { s with io := .cleared, ws_ptr := none }
    | _, _ => none
  | .failLock =>
    match s.io with
    | .cleared =>
      some { s with io := .failing [] s.pending_requests, teardowns := s.teardowns + 1 }
    | _ => none
  | .failOne =>
    match s.io with
    | .failing done (id :: todo) =>
      some { s.resolve id (.teardown s.conns) with io := .failing (id :: done) todo }
    | _ => none
  | .failDone =>
    match s.io with
    | .failing _ [] => some { s with io := .down, pending_requests := [] }
    | _ => none

/-! ## The protocol -/

/-- A promise is resolved at most once, by a response that is no ACK and carries its id, or by a
teardown. -/
def ResolvedOnce (s : State J) : Prop :=
  ∀ id, (s.resolved id).length ≤ 1 ∧
    ∀ m, Resolution.response m ∈ s.resolved id → m.ack = false ∧ m.request_id = id

/-- A call that is over has no entry in the map. -/
def NoEntryLeft (s : State J) : Prop := ∀ id r, s.call id = .ended r → id ∉ s.pending_requests

/-- A call failed by a teardown is sent on no connection published after it. -/
def NotResent (s : State J) : Prop :=
  ∀ id k, Resolution.teardown k ∈ s.resolved id → ∀ c, (id, c) ∈ s.sent → c < k

/-- `send_text` throws only for a call whose promise is resolved, a call returns only when the
section that resolved its promise is over, and a call that finds `ws_ptr_` set has had no teardown
since it was registered or was answered before. -/
def Meets (s : State J) : Act J → Prop
  | .sendThrows id _ => s.resolved id ≠ [] ∧ id ∉ s.io.done
  | .get id => id ∉ s.io.done
  | .test id => s.ws_ptr = none ∨ s.registered_at id = s.teardowns ∨
      ∃ r ∈ s.resolved id, r.isResponse = true
  | _ => True

instance (s : State J) (a : Act J) : Decidable (Meets s a) := by
  unfold Meets
  split <;> infer_instance

theorem toString_inj {n k : ℕ} (h : toString n = toString k) : n = k := by
  have hd : Nat.toDigits 10 n = Nat.toDigits 10 k := by
    rw [← Nat.toList_repr, ← Nat.toList_repr, ← Nat.toString_eq_repr, ← Nat.toString_eq_repr, h]
  rw [← Nat.ofDigitChars_toDigits (by omega) (by omega) (n := n) (b := 10), hd,
    Nat.ofDigitChars_toDigits (by omega) (by omega)]

variable {s s' : State J} {id id' : String}

theorem call_move_self (s : State J) (id : String) (pc : CallerPc J) :
    (s.move id pc).call id = pc := by
  simp only [State.move, Function.update_self]

theorem call_move_of_ne (s : State J) (pc : CallerPc J) (h : id' ≠ id) :
    (s.move id pc).call id' = s.call id' := by
  simp only [State.move, Function.update_of_ne h]

theorem resolved_resolve_self (s : State J) (id : String) (r : Resolution J) :
    (s.resolve id r).resolved id = r :: s.resolved id := by
  simp only [State.resolve, Function.update_self]

theorem resolved_resolve_of_ne (s : State J) (r : Resolution J) (h : id' ≠ id) :
    (s.resolve id r).resolved id' = s.resolved id' := by
  simp only [State.resolve, Function.update_of_ne h]

theorem registered_at_emplace_self (s : State J) (id : String) :
    (s.emplace id).registered_at id = s.teardowns := by
  simp only [State.emplace, Function.update_self]

theorem registered_at_emplace_of_ne (s : State J) (h : id' ≠ id) :
    (s.emplace id).registered_at id' = s.registered_at id' := by
  simp only [State.emplace, Function.update_of_ne h]

theorem mem_erase : id' ∈ (s.erase id).pending_requests ↔
    id' ∈ s.pending_requests ∧ id' ≠ id := by
  simp only [State.erase, List.mem_filter, decide_eq_true_eq]

/-- Only inside a critical section are there promises to fail. -/
theorem todo_of_not_holds {io : IoPc} (h : io.holdsPending = false) :
    io.todo = [] ∧ io.done = [] := by
  cases io <;> first | exact ⟨rfl, rfl⟩ | exact absurd h (by simp [IoPc.holdsPending])

theorem holds_of_fails {io : IoPc} (h : io.fails = true) : io.holdsPending = true := by
  cases io with
  | failing done todo => rfl
  | _ => cases h

/-! ## What a step can be -/

/-- The steps, each with what it needs. -/
inductive Step (s : State J) : Act J → State J → Prop
  | setConnected (b : Bool) : Step s (.setConnected b) { s with connected := b }
  | refuse (req : Request J) : Step s (.begin req) s
  | begin (req : Request J) :
    Step s (.begin req) ({ s with
      req_id_counter := s.req_id_counter + 1
      request := Function.update s.request (toString (s.req_id_counter + 1)) (some req) }.move
        (toString (s.req_id_counter + 1)) .drawn)
  | register (id : String) (hpc : s.call id = .drawn) (hio : s.io.holdsPending = false) :
    Step s (.register id) ((s.emplace id).move id .registered)
  | lock (id : String) (hpc : s.call id = .registered) :
    Step s (.lock id) ({ s with ws_send_mutex := some id }.move id .locked)
  | found (id : String) (c : ℕ) (hpc : s.call id = .locked) (hptr : s.ws_ptr = some c) :
    Step s (.test id) (s.move id (.sending c))
  | missing (id : String) (hpc : s.call id = .locked) :
    Step s (.test id) ({ s with ws_send_mutex := none }.move id .notSent)
  | send (id : String) (c : ℕ) (hpc : s.call id = .sending c) :
    Step s (.send id) ({ s with ws_send_mutex := none, sent := (id, c) :: s.sent }.move id .waiting)
  | sendThrows (id what : String) (c : ℕ) (hpc : s.call id = .sending c) :
    Step s (.sendThrows id what) ({ s with ws_send_mutex := none }.move id (.ended (.error what)))
  | eraseUnsent (id what : String) (hpc : s.call id = .notSent)
      (hio : s.io.holdsPending = false) :
    Step s (.eraseUnsent id) ((s.erase id).move id (.ended (.error what)))
  | timeout (id : String) (hpc : s.call id = .waiting) : Step s (.timeout id) (s.move id .timedOut)
  | eraseTimedOut (id what : String) (hpc : s.call id = .timedOut)
      (hio : s.io.holdsPending = false) :
    Step s (.eraseTimedOut id) ((s.erase id).move id (.ended (.error what)))
  | get (id : String) (r : Resolution J) (hpc : s.call id = .waiting) (hres : r ∈ s.resolved id) :
    Step s (.get id) (s.move id (.ended r.outcome))
  | publish (hio : s.io = .down) :
    Step s .publish { s with io := .up, ws_ptr := some s.conns, conns := s.conns + 1 }
  | login : Step s .login { s with req_id_counter := s.req_id_counter + 1 }
  | ignore (m : Message J) : Step s (.message m) s
  | answer (m : Message J) (hio : s.io = .up) (hack : m.ack = false)
      (hin : m.request_id ∈ s.pending_requests) :
    Step s (.message m) { s.resolve m.request_id (.response m) with io := .erasing m.request_id }
  | eraseEntry (id : String) (hio : s.io = .erasing id) :
    Step s .eraseEntry { s.erase id with io := .up }
  | leave (hio : s.io.holdsPending = false) : Step s .leave { s with io := .leaving }
  | clear (hio : s.io = .leaving) : Step s .clear { s with io := .cleared, ws_ptr := none }
  | failLock (hio : s.io = .cleared) :
    Step s .failLock
      { s with io := .failing [] s.pending_requests, teardowns := s.teardowns + 1 }
  | failOne (done : List String) (id : String) (todo : List String)
      (hio : s.io = .failing done (id :: todo)) :
    Step s .failOne { s.resolve id (.teardown s.conns) with io := .failing (id :: done) todo }
  | failDone : Step s .failDone { s with io := .down, pending_requests := [] }

theorem step_test (hs : next s (.test id) = some s') : Step s (.test id) s' := by
  simp only [next] at hs
  split at hs
  · rename_i hpc
    split at hs
    · rename_i c hptr
      obtain rfl := Option.some.inj hs
      exact .found id c hpc hptr
    · obtain rfl := Option.some.inj hs
      exact .missing id hpc
  · cases hs

theorem step_message {m : Message J} (hs : next s (.message m) = some s') :
    Step s (.message m) s' := by
  simp only [next] at hs
  split at hs
  · rename_i hio
    split at hs
    · obtain rfl := Option.some.inj hs
      exact .ignore m
    · rename_i hm
      obtain ⟨hack, -, hin⟩ : m.ack = false ∧ m.request_id ≠ "" ∧
          m.request_id ∈ s.pending_requests := by simpa using hm
      obtain rfl := Option.some.inj hs
      exact .answer m hio hack hin
  · cases hs

theorem step_leave (hs : next s .leave = some s') : Step s .leave s' := by
  simp only [next] at hs
  split at hs
  · rename_i hio
    obtain rfl := Option.some.inj hs
    exact .leave (by rw [hio]; rfl)
  · rename_i hio
    obtain rfl := Option.some.inj hs
    exact .leave (by rw [hio]; rfl)
  · cases hs

/-- A call takes its entry out unless the io thread holds the mutex. -/
theorem erase_of_next {pc : CallerPc J}
    (hs : (if s.io.holdsPending then none else some ((s.erase id).move id pc)) = some s') :
    s.io.holdsPending = false ∧ s' = (s.erase id).move id pc := by
  split at hs
  · cases hs
  · rename_i hio
    exact ⟨Bool.eq_false_iff.mpr hio, (Option.some.inj hs).symm⟩

/-- There are no others. -/
theorem step_of_next {a : Act J} (hs : next s a = some s') : Step s a s' := by
  cases a with
  | setConnected b =>
    obtain rfl := Option.some.inj hs
    exact .setConnected b
  | begin req =>
    simp only [next] at hs
    split at hs
    · obtain rfl := Option.some.inj hs
      exact .begin req
    · obtain rfl := Option.some.inj hs
      exact .refuse req
  | register id =>
    simp only [next] at hs
    split at hs
    · rename_i hpc
      split at hs
      · cases hs
      · rename_i hio
        obtain rfl := Option.some.inj hs
        exact .register id hpc (Bool.eq_false_iff.mpr hio)
    · cases hs
  | lock id =>
    simp only [next] at hs
    split at hs
    · rename_i hpc _
      obtain rfl := Option.some.inj hs
      exact .lock id hpc
    · cases hs
  | test id => exact step_test hs
  | send id =>
    simp only [next] at hs
    split at hs
    · rename_i c hpc
      obtain rfl := Option.some.inj hs
      exact .send id c hpc
    · cases hs
  | sendThrows id what =>
    simp only [next] at hs
    split at hs
    · rename_i c hpc
      obtain rfl := Option.some.inj hs
      exact .sendThrows id what c hpc
    · cases hs
  | eraseUnsent id =>
    simp only [next] at hs
    split at hs
    · rename_i hpc
      obtain ⟨hio, rfl⟩ := erase_of_next hs
      exact .eraseUnsent id _ hpc hio
    · cases hs
  | timeout id =>
    simp only [next] at hs
    split at hs
    · rename_i hpc _
      obtain rfl := Option.some.inj hs
      exact .timeout id hpc
    · cases hs
  | eraseTimedOut id =>
    simp only [next] at hs
    split at hs
    · rename_i hpc _
      obtain ⟨hio, rfl⟩ := erase_of_next hs
      exact .eraseTimedOut id _ hpc hio
    · cases hs
  | get id =>
    simp only [next] at hs
    split at hs
    · rename_i r l hpc hres
      obtain rfl := Option.some.inj hs
      exact .get id r hpc (by rw [hres]; exact List.mem_cons_self)
    · cases hs
  | publish =>
    simp only [next] at hs
    split at hs
    · rename_i hio _
      obtain rfl := Option.some.inj hs
      exact .publish hio
    · cases hs
  | login =>
    simp only [next] at hs
    split at hs
    · obtain rfl := Option.some.inj hs
      exact .login
    · cases hs
  | message m => exact step_message hs
  | eraseEntry =>
    simp only [next] at hs
    split at hs
    · rename_i id hio
      obtain rfl := Option.some.inj hs
      exact .eraseEntry id hio
    · cases hs
  | leave => exact step_leave hs
  | clear =>
    simp only [next] at hs
    split at hs
    · rename_i hio _
      obtain rfl := Option.some.inj hs
      exact .clear hio
    · cases hs
  | failLock =>
    simp only [next] at hs
    split at hs
    · rename_i hio
      obtain rfl := Option.some.inj hs
      exact .failLock hio
    · cases hs
  | failOne =>
    simp only [next] at hs
    split at hs
    · rename_i done id todo hio
      obtain rfl := Option.some.inj hs
      exact .failOne done id todo hio
    · cases hs
  | failDone =>
    simp only [next] at hs
    split at hs
    · obtain rfl := Option.some.inj hs
      exact .failDone
    · cases hs

/-! ## In every run -/

/-- What may resolve the promise of `id`. -/
def Resolution.owns (id : String) : Resolution J → Prop
  | .response m => m.ack = false ∧ m.request_id = id
  | .teardown _ => True

/-- The invariant of every run: ids come from the counter, an entry of the map is not resolved yet,
and nothing is resolved twice. -/
structure Inv (s : State J) : Prop where
  drawn : ∀ id, s.call id ≠ .idle → ∃ n ≤ s.req_id_counter, id = toString n
  entered : ∀ id, id ∈ s.pending_requests ∨ s.resolved id ≠ [] → (s.call id).registers = true
  unresolved : ∀ id ∈ s.pending_requests, id ∉ s.io.done → s.resolved id = []
  once : ∀ id, (s.resolved id).length ≤ 1
  owned : ∀ id, ∀ r ∈ s.resolved id, r.owns id
  nodup : s.pending_requests.Nodup
  todo : s.io.todo.Nodup ∧ ∀ id ∈ s.io.todo, id ∈ s.pending_requests ∧ id ∉ s.io.done

theorem inv_init : Inv (init : State J) where
  drawn _ h := absurd rfl h
  entered _ h := by simp [init] at h
  unresolved _ h := absurd h List.not_mem_nil
  once _ := Nat.zero_le _
  owned _ _ h := absurd h List.not_mem_nil
  nodup := List.nodup_nil
  todo := ⟨List.nodup_nil, fun _ h => absurd h List.not_mem_nil⟩

/-- A step that resolves nothing and puts nothing into the map. -/
theorem Inv.frame (h : Inv s) (hcount : s.req_id_counter ≤ s'.req_id_counter)
    (hcall : ∀ id, s'.call id ≠ s.call id →
      (s.call id).registers = true ∧ (s'.call id).registers = true)
    (hpend : List.Sublist s'.pending_requests s.pending_requests)
    (hres : s'.resolved = s.resolved) (hdone : s'.io.done = s.io.done)
    (htodo : s'.io.todo.Nodup ∧ ∀ id ∈ s'.io.todo, id ∈ s'.pending_requests ∧ id ∉ s'.io.done) :
    Inv s' where
  drawn id hid := by
    by_cases he : s'.call id = s.call id
    · rw [he] at hid
      obtain ⟨n, hn, rfl⟩ := h.drawn id hid
      exact ⟨n, Nat.le_trans hn hcount, rfl⟩
    · have hreg := (hcall id he).1
      have hne : s.call id ≠ .idle := by
        intro hidle
        rw [hidle] at hreg
        exact absurd hreg (by simp [CallerPc.registers])
      obtain ⟨n, hn, rfl⟩ := h.drawn id hne
      exact ⟨n, Nat.le_trans hn hcount, rfl⟩
  entered id hid := by
    by_cases he : s'.call id = s.call id
    · rw [he]
      rw [hres] at hid
      exact h.entered id (hid.imp_left fun hm => hpend.subset hm)
    · exact (hcall id he).2
  unresolved id hid hd := by
    rw [hres]
    exact h.unresolved id (hpend.subset hid) (hdone ▸ hd)
  once id := hres ▸ h.once id
  owned id := hres ▸ h.owned id
  nodup := h.nodup.sublist hpend
  todo := htodo

/-- A step that touches neither the calls nor the map nor the promises. -/
theorem Inv.same (h : Inv s) (hcount : s.req_id_counter ≤ s'.req_id_counter)
    (hcall : s'.call = s.call) (hpend : s'.pending_requests = s.pending_requests)
    (hres : s'.resolved = s.resolved) (hdone : s'.io.done = s.io.done)
    (htodo : s'.io.todo = s.io.todo) : Inv s' := by
  refine h.frame hcount (fun id hne => absurd (congrFun hcall id) hne) (hpend ▸ List.Sublist.refl _)
    hres hdone ?_
  rw [htodo, hpend, hdone]
  exact h.todo

/-- A registered call moves on. -/
theorem Inv.move (h : Inv s) {pc : CallerPc J} (hid : (s.call id).registers = true)
    (hpc : pc.registers = true) : Inv (s.move id pc) := by
  refine h.frame (Nat.le_refl _) (fun id' hne => ?_) (List.Sublist.refl _) rfl rfl h.todo
  by_cases he : id' = id
  · subst he
    exact ⟨hid, by rwa [call_move_self]⟩
  · exact absurd (call_move_of_ne s pc he) hne

/-- A call takes its entry out. -/
theorem Inv.erase (h : Inv s) (hio : s.io.holdsPending = false) (id : String) :
    Inv (s.erase id) := by
  refine h.frame (Nat.le_refl _) (fun id' hne => absurd rfl hne) List.filter_sublist rfl rfl
    ⟨h.todo.1, ?_⟩
  intro id' hid'
  rw [show (s.erase id).io = s.io from rfl, (todo_of_not_holds hio).1] at hid'
  exact absurd hid' List.not_mem_nil

/-- The id of a new call is fresh: every id in use was drawn from a smaller count. -/
theorem Inv.begin (h : Inv s) (req : Request J) :
    Inv ({ s with
      req_id_counter := s.req_id_counter + 1
      request := Function.update s.request (toString (s.req_id_counter + 1)) (some req) }.move
        (toString (s.req_id_counter + 1)) .drawn) := by
  have hidle : s.call (toString (s.req_id_counter + 1)) = .idle := by
    by_contra hne
    obtain ⟨n, hn, he⟩ := h.drawn _ hne
    have := toString_inj he
    omega
  have hreg : ¬(s.call (toString (s.req_id_counter + 1))).registers = true := by
    rw [hidle]
    exact Bool.noConfusion
  refine ⟨fun id hid => ?_, fun id hid => ?_, h.unresolved, h.once, h.owned, h.nodup, h.todo⟩
  · by_cases he : id = toString (s.req_id_counter + 1)
    · exact ⟨s.req_id_counter + 1, Nat.le_refl _, he⟩
    · rw [call_move_of_ne _ _ he] at hid
      obtain ⟨n, hn, rfl⟩ := h.drawn id hid
      exact ⟨n, Nat.le_succ_of_le hn, rfl⟩
  · have he : id ≠ toString (s.req_id_counter + 1) := by
      intro he
      exact hreg (he ▸ h.entered id hid)
    rw [call_move_of_ne _ _ he]
    exact h.entered id hid

/-- A call that has drawn its id and not registered has no promise yet. -/
theorem Inv.fresh (h : Inv s) (hid : s.call id = .drawn) :
    id ∉ s.pending_requests ∧ s.resolved id = [] := by
  have hreg : ¬(s.call id).registers = true := by
    rw [hid]
    exact Bool.noConfusion
  constructor
  · exact fun hm => hreg (h.entered id (Or.inl hm))
  · by_contra hne
    exact hreg (h.entered id (Or.inr hne))

theorem Inv.register (h : Inv s) (hpc : s.call id = .drawn) (hio : s.io.holdsPending = false) :
    Inv ((s.emplace id).move id .registered) := by
  obtain ⟨hnew, hres⟩ := h.fresh hpc
  obtain ⟨htodo, hdone⟩ := todo_of_not_holds hio
  refine ⟨fun id' hid' => ?_, fun id' hid' => ?_, fun id' hid' hd => ?_, h.once, h.owned,
    List.nodup_cons.mpr ⟨hnew, h.nodup⟩, ?_⟩
  · by_cases he : id' = id
    · subst he
      exact h.drawn id' (by simp [hpc])
    · rw [call_move_of_ne _ _ he] at hid'
      exact h.drawn id' hid'
  · by_cases he : id' = id
    · subst he
      rw [call_move_self]
      rfl
    · rw [call_move_of_ne _ _ he]
      refine h.entered id' (hid'.imp_left fun hm => ?_)
      exact (List.mem_cons.mp hm).resolve_left he
  · rcases List.mem_cons.mp hid' with rfl | hm
    · exact hres
    · exact h.unresolved id' hm hd
  · refine ⟨h.todo.1, fun id' hid' => ?_⟩
    have hnil : id' ∈ s.io.todo := hid'
    rw [htodo] at hnil
    exact absurd hnil List.not_mem_nil

/-- The promise of an entry not yet resolved is resolved, within a critical section. -/
theorem Inv.resolve (h : Inv s) {r : Resolution J} {io : IoPc} (hin : id ∈ s.pending_requests)
    (hnd : id ∉ s.io.done) (hr : r.owns id) (hdone : io.done = id :: s.io.done)
    (htodo : io.todo.Nodup ∧ ∀ id ∈ io.todo, id ∈ s.pending_requests ∧ id ∉ io.done) :
    Inv { s.resolve id r with io := io } := by
  have hnil := h.unresolved id hin hnd
  refine ⟨h.drawn, fun id' hid => ?_, fun id' hid hd => ?_, fun id' => ?_, fun id' r' hr' => ?_,
    h.nodup, htodo⟩
  · by_cases he : id' = id
    · subst he
      exact h.entered _ (Or.inl hin)
    · exact h.entered id' (hid.imp_right fun hr => by rwa [resolved_resolve_of_ne _ _ he] at hr)
  · have hd : id' ∉ id :: s.io.done := hdone ▸ hd
    obtain ⟨he, hd⟩ := not_or.mp (fun hm => hd (List.mem_cons.mpr hm))
    exact (resolved_resolve_of_ne _ _ he).trans (h.unresolved id' hid hd)
  · by_cases he : id' = id
    · subst he
      exact Nat.le_of_eq (by rw [resolved_resolve_self, hnil, List.length_singleton])
    · exact Nat.le_trans (Nat.le_of_eq (by rw [resolved_resolve_of_ne _ _ he])) (h.once id')
  · by_cases he : id' = id
    · subst he
      rw [resolved_resolve_self, hnil, List.mem_singleton] at hr'
      exact hr' ▸ hr
    · rw [resolved_resolve_of_ne _ _ he] at hr'
      exact h.owned id' r' hr'

theorem Inv.answer {m : Message J} (h : Inv s) (hio : s.io = .up) (hack : m.ack = false)
    (hin : m.request_id ∈ s.pending_requests) :
    Inv { s.resolve m.request_id (.response m) with io := .erasing m.request_id } := by
  have hdone : s.io.done = [] := (todo_of_not_holds (by rw [hio]; rfl)).2
  refine h.resolve hin ?_ ⟨hack, rfl⟩ ?_ ⟨List.nodup_nil, fun _ h => absurd h List.not_mem_nil⟩
  · rw [hdone]
    exact List.not_mem_nil
  · rw [hdone]
    rfl

theorem Inv.failOne {done todo : List String} (h : Inv s)
    (hio : s.io = .failing done (id :: todo)) :
    Inv { s.resolve id (.teardown s.conns) with io := .failing (id :: done) todo } := by
  obtain ⟨hnodup, htodo⟩ := h.todo
  rw [hio] at hnodup htodo
  obtain ⟨hnot, hrest⟩ := List.nodup_cons.mp hnodup
  obtain ⟨hin, hnd⟩ := htodo id List.mem_cons_self
  have hdone : s.io.done = done := by rw [hio]; rfl
  refine h.resolve hin (hdone ▸ hnd) trivial (by rw [hdone]; rfl) ⟨hrest, fun id' hid' => ?_⟩
  obtain ⟨hp, hd⟩ := htodo id' (List.mem_cons_of_mem _ hid')
  refine ⟨hp, fun hm => ?_⟩
  rcases List.mem_cons.mp hm with rfl | hm
  · exact hnot hid'
  · exact hd hm

theorem Inv.eraseEntry (h : Inv s) (hio : s.io = .erasing id) :
    Inv { s.erase id with io := .up } := by
  refine ⟨h.drawn, fun id' hid => ?_, fun id' hid _ => ?_, h.once, h.owned,
    h.nodup.filter _, List.nodup_nil, fun _ h => absurd h List.not_mem_nil⟩
  · exact h.entered id' (hid.imp_left fun hm => (mem_erase.mp hm).1)
  · obtain ⟨hp, hne⟩ := mem_erase.mp hid
    refine h.unresolved id' hp ?_
    rw [hio]
    exact fun hm => hne (List.mem_singleton.mp hm)

theorem Inv.failLock (h : Inv s) (hio : s.io = .cleared) :
    Inv { s with io := .failing [] s.pending_requests, teardowns := s.teardowns + 1 } := by
  have hdone : s.io.done = [] := (todo_of_not_holds (by rw [hio]; rfl)).2
  exact h.frame (Nat.le_refl _) (fun id hne => absurd rfl hne) (List.Sublist.refl _) rfl
    hdone.symm ⟨h.nodup, fun id hid => ⟨hid, List.not_mem_nil⟩⟩

theorem Inv.failDone (h : Inv s) : Inv { s with io := .down, pending_requests := [] } :=
  ⟨h.drawn, fun id hid => h.entered id (hid.imp_left fun hm => absurd hm List.not_mem_nil),
    fun _ hid => absurd hid List.not_mem_nil, h.once, h.owned, List.nodup_nil,
    List.nodup_nil, fun _ h => absurd h List.not_mem_nil⟩

/-- A step that leaves the calls, the map and the promises alone and starts no critical section. -/
theorem Inv.outside (h : Inv s) (hio : s.io.holdsPending = false)
    (hio' : s'.io.holdsPending = false) (hcount : s.req_id_counter ≤ s'.req_id_counter)
    (hcall : s'.call = s.call)
    (hpend : s'.pending_requests = s.pending_requests) (hres : s'.resolved = s.resolved) :
    Inv s' := by
  obtain ⟨htodo, hdone⟩ := todo_of_not_holds hio
  obtain ⟨htodo', hdone'⟩ := todo_of_not_holds hio'
  exact h.same hcount hcall hpend hres (hdone'.trans hdone.symm) (htodo'.trans htodo.symm)

/-- **One step** keeps the invariant of every run: a promise is resolved only while its entry is in
the map, and the section that resolves it erases the entry. -/
theorem inv_step {a : Act J} (h : Inv s) (hs : Step s a s') : Inv s' := by
  have hreg : ∀ {id : String} {pc : CallerPc J}, s.call id = pc → pc.registers = true →
      (s.call id).registers = true := fun hpc hr => hpc ▸ hr
  -- the mutex and what is sent are no part of it
  have hsame : ∀ m sent, Inv { s with ws_send_mutex := m, sent := sent } := fun _ _ =>
    h.same (Nat.le_refl _) rfl rfl rfl rfl rfl
  cases hs with
  | setConnected => exact h.same (Nat.le_refl _) rfl rfl rfl rfl rfl
  | login => exact h.same (Nat.le_succ _) rfl rfl rfl rfl rfl
  | refuse | ignore => exact h
  | begin req => exact h.begin req
  | register id hpc hio => exact h.register hpc hio
  | lock id hpc | missing id hpc | send id _ hpc | sendThrows id _ _ hpc =>
    exact (hsame _ _).move (hreg hpc rfl) rfl
  | found id _ hpc | timeout id hpc | get id _ hpc => exact h.move (hreg hpc rfl) rfl
  | eraseUnsent id _ hpc hio | eraseTimedOut id _ hpc hio =>
    exact (h.erase hio id).move (hreg hpc rfl) rfl
  | publish hio | clear hio => exact h.outside (by rw [hio]; rfl) rfl (Nat.le_refl _) rfl rfl rfl
  | answer m hio hack hin => exact h.answer hio hack hin
  | eraseEntry id hio => exact h.eraseEntry hio
  | leave hio => exact h.outside hio rfl (Nat.le_refl _) rfl rfl rfl
  | failLock hio => exact h.failLock hio
  | failOne done id todo hio => exact h.failOne hio
  | failDone => exact h.failDone

theorem Inv.resolvedOnce (h : Inv s) : ResolvedOnce s := by
  intro id
  exact ⟨h.once id, fun m hm => h.owned id _ hm⟩

/-- **A promise is resolved at most once**, by a response that is no ACK and carries its id, or by a
teardown, in every run. -/
theorem resolved_once (h : Reaches (Fires next) (fun _ _ => True) init s) : ResolvedOnce s :=
  (h.inv inv_init fun _ _ _ hi _ hs => inv_step hi (step_of_next hs)).resolvedOnce

/-! ## While the calls meet the condition -/

/-- The call is sent on connection `c`, or its `send_text` on `c` comes next. -/
def State.carries (s : State J) (id : String) (c : ℕ) : Prop :=
  (id, c) ∈ s.sent ∨ s.call id = .sending c

/-- The invariant of the runs that meet the condition: an entry is of a call that is not over, and a
call that a teardown failed has met none but connections from before it. -/
structure Clean (s : State J) : Prop where
  live : ∀ id ∈ s.pending_requests, (s.call id).isEnded = false
  stamp : ∀ id ∈ s.pending_requests, s.registered_at id ≤ s.teardowns ∧
    (s.io.fails = true → s.registered_at id < s.teardowns)
  torn : ∀ id k, .teardown k ∈ s.resolved id → s.registered_at id < s.teardowns
  carried : ∀ id c, s.carries id c → c < s.conns ∧ ∀ k, .teardown k ∈ s.resolved id → c < k
  ptr : ∀ c, s.ws_ptr = some c → c < s.conns

theorem clean_init : Clean (init : State J) where
  live _ h := absurd h List.not_mem_nil
  stamp _ h := absurd h List.not_mem_nil
  torn _ _ h := absurd h List.not_mem_nil
  carried _ _ h := by simp [State.carries, init] at h
  ptr _ h := by simp [init] at h

/-- A step that registers and resolves nothing. -/
theorem Clean.frame (h : Clean s)
    (hpend : ∀ id ∈ s'.pending_requests, id ∈ s.pending_requests ∧
      ((s'.call id).isEnded = true → (s.call id).isEnded = true))
    (hres : s'.resolved = s.resolved) (hat : s'.registered_at = s.registered_at)
    (htear : s'.teardowns = s.teardowns) (hio : s'.io.fails = true → s.io.fails = true)
    (hconns : s.conns ≤ s'.conns) (hcarried : ∀ id c, s'.carries id c → s.carries id c ∨
      c < s'.conns ∧ ∀ k, .teardown k ∉ s.resolved id)
    (hptr : ∀ c, s'.ws_ptr = some c → c < s'.conns) : Clean s' where
  live id hid := by
    obtain ⟨hp, he⟩ := hpend id hid
    have := h.live id hp
    by_contra hne
    rw [he (Bool.not_eq_false _ ▸ hne)] at this
    cases this
  stamp id hid := by
    rw [hat, htear]
    exact (h.stamp id (hpend id hid).1).imp_right fun hf hf' => hf (hio hf')
  torn id k hk := by
    rw [hat, htear]
    exact h.torn id k (hres ▸ hk)
  carried id c hc := by
    rw [hres]
    rcases hcarried id c hc with hc | ⟨hlt, hno⟩
    · exact (h.carried id c hc).imp_left fun hlt => Nat.lt_of_lt_of_le hlt hconns
    · exact ⟨hlt, fun k hk => absurd hk (hno k)⟩
  ptr := hptr

/-- A step that leaves the calls, the promises and the stamps alone. -/
theorem Clean.same (h : Clean s) (hpend : ∀ id ∈ s'.pending_requests, id ∈ s.pending_requests)
    (hcall : s'.call = s.call) (hsent : s'.sent = s.sent) (hres : s'.resolved = s.resolved)
    (hat : s'.registered_at = s.registered_at) (htear : s'.teardowns = s.teardowns)
    (hio : s'.io.fails = true → s.io.fails = true) (hconns : s.conns ≤ s'.conns)
    (hptr : ∀ c, s'.ws_ptr = some c → c < s'.conns) : Clean s' := by
  refine h.frame (fun id hid => ⟨hpend id hid, fun he => ?_⟩) hres hat htear hio hconns
    (fun id c hc => Or.inl ?_) hptr
  · rwa [hcall] at he
  · rwa [State.carries, hsent, hcall] at hc

/-- A call moves on: where it ends, its entry is out, and where it finds a connection, no teardown
has failed it. -/
theorem Clean.move (h : Clean s) {pc : CallerPc J}
    (hend : pc.isEnded = true → id ∉ s.pending_requests)
    (hsend : ∀ c, pc = .sending c → c < s.conns ∧ ∀ k, .teardown k ∉ s.resolved id) :
    Clean (s.move id pc) := by
  refine h.frame (fun id' hid' => ⟨hid', fun he => ?_⟩) rfl rfl rfl (fun hf => hf) (Nat.le_refl _)
    (fun id' c hc => ?_) h.ptr
  · by_cases hne : id' = id
    · subst hne
      rw [call_move_self] at he
      exact absurd hid' (hend he)
    · rwa [call_move_of_ne _ _ hne] at he
  · rcases hc with hc | hc
    · exact Or.inl (Or.inl hc)
    · by_cases hne : id' = id
      · subst hne
        rw [call_move_self] at hc
        exact Or.inr (hsend c hc)
      · rw [call_move_of_ne _ _ hne] at hc
        exact Or.inl (Or.inr hc)

/-- A call moves on to where it neither ends nor sends. -/
theorem Clean.move_on (h : Clean s) {pc : CallerPc J} (hpc : pc.isEnded = false)
    (hns : ∀ c, pc ≠ .sending c) : Clean (s.move id pc) := by
  refine h.move (fun he => ?_) fun c hc => absurd hc (hns c)
  rw [hpc] at he
  cases he

/-- A promise is resolved, by a teardown only when its call was registered before it. -/
theorem Clean.resolve (h : Clean s) {r : Resolution J} {io : IoPc}
    (hio : io.fails = true → s.io.fails = true)
    (hr : ∀ k, r = .teardown k → s.registered_at id < s.teardowns ∧ k = s.conns) :
    Clean { s.resolve id r with io := io } := by
  have hold : ∀ id' k, .teardown k ∈ (s.resolve id r).resolved id' →
      .teardown k ∈ s.resolved id' ∨ id' = id ∧ r = .teardown k := by
    intro id' k hk
    by_cases he : id' = id
    · subst he
      rw [resolved_resolve_self] at hk
      exact (List.mem_cons.mp hk).symm.imp_right fun hk => ⟨rfl, hk.symm⟩
    · rw [resolved_resolve_of_ne _ _ he] at hk
      exact Or.inl hk
  refine ⟨h.live, fun id' hid' => (h.stamp id' hid').imp_right fun hf hf' => hf (hio hf'),
    fun id' k hk => ?_, fun id' c hc => ⟨(h.carried id' c hc).1, fun k hk => ?_⟩, h.ptr⟩
  · rcases hold id' k hk with hm | ⟨rfl, hm⟩
    · exact h.torn id' k hm
    · exact (hr k hm).1
  · rcases hold id' k hk with hm | ⟨-, hm⟩
    · exact (h.carried id' c hc).2 k hm
    · exact (hr k hm).2 ▸ (h.carried id' c hc).1

theorem Clean.register (h : Clean s) (hi : Inv s) (hpc : s.call id = .drawn)
    (hio : s.io.holdsPending = false) : Clean ((s.emplace id).move id .registered) := by
  have hnil := (hi.fresh hpc).2
  have hfails : ¬s.io.fails = true := by
    intro hf
    cases hio.symm.trans (holds_of_fails hf)
  refine Clean.move_on ?_ rfl fun c hc => nomatch hc
  refine ⟨fun id' hid' => ?_, fun id' hid' => ?_, fun id' k hk => ?_, h.carried, h.ptr⟩
  · rcases List.mem_cons.mp hid' with rfl | hm
    · exact congrArg CallerPc.isEnded hpc
    · exact h.live id' hm
  · by_cases he : id' = id
    · subst he
      rw [registered_at_emplace_self]
      exact ⟨Nat.le_refl _, fun hf => absurd hf hfails⟩
    · rw [registered_at_emplace_of_ne _ he]
      exact h.stamp id' ((List.mem_cons.mp hid').resolve_left he)
  · by_cases he : id' = id
    · subst he
      have hk : Resolution.teardown k ∈ s.resolved id' := hk
      rw [hnil] at hk
      exact absurd hk List.not_mem_nil
    · rw [registered_at_emplace_of_ne _ he]
      exact h.torn id' k hk

/-- A call that finds `ws_ptr_` set has been failed by no teardown. -/
theorem Clean.found {c : ℕ} (h : Clean s) (hi : Inv s) (hc : Meets s (.test id))
    (hptr : s.ws_ptr = some c) : Clean (s.move id (.sending c)) := by
  refine h.move (fun he => absurd he (by simp [CallerPc.isEnded])) fun c' he => ?_
  obtain rfl := CallerPc.sending.inj he
  refine ⟨h.ptr c hptr, fun k hk => ?_⟩
  rcases hc with hnone | heq | ⟨r', hm, hresp⟩
  · cases hptr.symm.trans hnone
  · exact Nat.lt_irrefl _ (heq ▸ h.torn id k hk)
  · -- answered, and resolved only once
    obtain ⟨r, hr⟩ := List.length_eq_one_iff.mp
      (Nat.le_antisymm (hi.once id) (List.length_pos_of_mem hk))
    rw [hr, List.mem_singleton] at hk hm
    rw [hm, ← hk] at hresp
    cases hresp

theorem Clean.send {c : ℕ} (h : Clean s) (hpc : s.call id = .sending c) :
    Clean ({ s with ws_send_mutex := none, sent := (id, c) :: s.sent }.move id .waiting) := by
  refine Clean.move_on ?_ rfl fun c hc => nomatch hc
  refine h.frame (fun _ hid => ⟨hid, fun he => he⟩) rfl rfl rfl (fun hf => hf) (Nat.le_refl _)
    (fun id' c' hc => Or.inl ?_) h.ptr
  rcases hc with hc | hc
  · rcases List.mem_cons.mp hc with heq | hm
    · obtain ⟨rfl, rfl⟩ := Prod.mk.inj heq
      exact Or.inr hpc
    · exact Or.inl hm
  · exact Or.inr hc

/-- A promise resolved by a section that is over has no entry. -/
theorem Inv.not_pending (h : Inv s) (hr : s.resolved id ≠ []) (hd : id ∉ s.io.done) :
    id ∉ s.pending_requests := fun hm => hr (h.unresolved id hm hd)

theorem Clean.erase (h : Clean s) (id : String) : Clean (s.erase id) :=
  h.same (fun _ hid => (mem_erase.mp hid).1) rfl rfl rfl rfl rfl (fun hf => hf) (Nat.le_refl _)
    h.ptr

/-- A call that is over once it has taken its entry out. -/
theorem Clean.erase_move (h : Clean s) (id : String) (r : Except String (Option J)) :
    Clean ((s.erase id).move id (.ended r)) :=
  (h.erase id).move (fun _ hm => (mem_erase.mp hm).2 rfl) fun _ hc => nomatch hc

theorem Clean.failLock (h : Clean s) :
    Clean { s with io := .failing [] s.pending_requests, teardowns := s.teardowns + 1 } := by
  refine ⟨h.live, fun id hid => ?_, fun id k hk => Nat.lt_succ_of_lt (h.torn id k hk), h.carried,
    h.ptr⟩
  have hlt := Nat.lt_succ_of_le (h.stamp id hid).1
  exact ⟨Nat.le_of_lt hlt, fun _ => hlt⟩

theorem Clean.failOne {done todo : List String} (h : Clean s) (hi : Inv s)
    (hio : s.io = .failing done (id :: todo)) :
    Clean { s.resolve id (.teardown s.conns) with io := .failing (id :: done) todo } := by
  have hin := (hi.todo.2 id (by rw [hio]; exact List.mem_cons_self)).1
  have hfails : s.io.fails = true := by rw [hio]; rfl
  refine h.resolve (fun _ => hfails) fun k hk => ?_
  exact ⟨(h.stamp id hin).2 hfails, (Resolution.teardown.inj hk).symm⟩

/-- **One step** that meets the condition keeps the invariant. -/
theorem clean_step {a : Act J} (h : Clean s) (hi : Inv s) (hc : Meets s a) (hs : Step s a s') :
    Clean s' := by
  have hsame : ∀ {s' : State J}, s'.pending_requests = s.pending_requests → s'.call = s.call →
      s'.sent = s.sent → s'.resolved = s.resolved → s'.registered_at = s.registered_at →
      s'.teardowns = s.teardowns → (s'.io.fails = true → s.io.fails = true) →
      s'.conns = s.conns → s'.ws_ptr = s.ws_ptr → Clean s' :=
    fun hp hcall hsent hr ha ht hf hn hw => h.same (fun _ hid => hp ▸ hid) hcall hsent hr ha ht hf
      (Nat.le_of_eq hn.symm) fun c hptr => hn ▸ h.ptr c (hw ▸ hptr)
  have hmutex : ∀ m, Clean { s with ws_send_mutex := m } := fun _ =>
    hsame rfl rfl rfl rfl rfl rfl (fun hf => hf) rfl rfl
  cases hs with
  | setConnected | login => exact hsame rfl rfl rfl rfl rfl rfl (fun hf => hf) rfl rfl
  | refuse | ignore => exact h
  | begin req =>
    refine Clean.move_on ?_ rfl fun c hc => nomatch hc
    exact hsame rfl rfl rfl rfl rfl rfl (fun hf => hf) rfl rfl
  | register id hpc hio => exact h.register hi hpc hio
  | lock | missing => exact (hmutex _).move_on rfl fun c hc => nomatch hc
  | found id c hpc hptr => exact h.found hi hc hptr
  | send id c hpc => exact h.send hpc
  | sendThrows id what =>
    exact (hmutex _).move (fun _ => hi.not_pending hc.1 hc.2) fun c hc => nomatch hc
  | eraseUnsent id | eraseTimedOut id => exact h.erase_move id _
  | timeout => exact h.move_on rfl fun _ hc => nomatch hc
  | get id r hpc hres =>
    exact h.move (fun _ => hi.not_pending (List.ne_nil_of_mem hres) hc) fun c hc => nomatch hc
  | publish =>
    refine h.same (fun _ hid => hid) rfl rfl rfl rfl rfl (fun hf => nomatch hf) (Nat.le_succ _) ?_
    intro c hc
    exact Option.some.inj hc ▸ Nat.lt_succ_self _
  | answer => exact h.resolve (fun hf => nomatch hf) fun k hk => nomatch hk
  | eraseEntry id =>
    exact h.same (fun _ hid => (mem_erase.mp hid).1) rfl rfl rfl rfl rfl (fun hf => nomatch hf)
      (Nat.le_refl _) h.ptr
  | leave => exact hsame rfl rfl rfl rfl rfl rfl (fun hf => nomatch hf) rfl rfl
  | clear =>
    exact h.same (fun _ hid => hid) rfl rfl rfl rfl rfl (fun hf => nomatch hf) (Nat.le_refl _)
      fun c hc => nomatch hc
  | failLock => exact h.failLock
  | failOne done id todo hio => exact h.failOne hi hio
  | failDone =>
    exact h.same (fun _ hid => absurd hid List.not_mem_nil) rfl rfl rfl rfl rfl
      (fun hf => nomatch hf) (Nat.le_refl _) h.ptr

/-- **Calls leave no entry and are not sent once failed**, besides being resolved at most once, in
every run in which `send_text` throws only for calls that are resolved, no call returns within the
section that resolved it, and none that a teardown has failed finds a connection published after it.
-/
theorem requests_settled (h : Reaches (Fires next) Meets init s) :
    ResolvedOnce s ∧ NoEntryLeft s ∧ NotResent s := by
  obtain ⟨hi, hclean⟩ := h.inv (I := fun s => Inv s ∧ Clean s) ⟨inv_init, clean_init⟩
    fun _ _ _ hi hc hs =>
      ⟨inv_step hi.1 (step_of_next hs), clean_step hi.2 hi.1 hc (step_of_next hs)⟩
  refine ⟨hi.resolvedOnce, fun id r hr hid => ?_, fun id k hk c hc => ?_⟩
  · have := hclean.live id hid
    rw [hr] at this
    cases this
  · exact (hclean.carried id c (Or.inl hc)).2 k hk

/-- An order is requested. -/
def order : Request Unit := { channel := "spot.order_place", req_param := (), timeout_ms := 5000 }

/-- The response to request `id`. -/
def response (id : String) : Message Unit :=
  { request_id := id, ack := false, status := some "200", channel := none, result := some ()
    errs := none }

/-- A request is sent and answered, and the connection drops while a second one waits. -/
def settledRun : List (Act Unit) :=
  [.publish, .setConnected true, .begin order, .register "1", .lock "1", .test "1", .send "1",
    .message { response "1" with ack := true }, .message (response "1"), .eraseEntry, .get "1",
    .begin order, .register "2", .lock "2", .test "2", .send "2", .leave, .clear, .failLock,
    .failOne, .failDone, .get "2"]

theorem requests_settled_two : ∃ s : State Unit, (s.call "1").isEnded = true ∧
    (s.call "2").isEnded = true ∧ ResolvedOnce s ∧ NoEntryLeft s ∧ NotResent s := by
  have h : (play next Meets init settledRun).any (fun s => decide
      ((s.call "1").isEnded = true ∧ (s.call "2").isEnded = true)) = true := by
    decide
  obtain ⟨s, hs, hp⟩ := (Option.any_eq_true _ _).mp h
  obtain ⟨h1, h2⟩ := of_decide_eq_true hp
  exact ⟨s, h1, h2, requests_settled (reaches_of_play hs)⟩

/-! ## The two failures -/

/-- `send_text` throws. -/
def throwRun : List (Act Unit) :=
  [.publish, .setConnected true, .begin order, .register "1", .lock "1", .test "1",
    .sendThrows "1" "send error"]

/-- **An entry is left** by a call that the exception of `send_text` ends. -/
theorem entry_left : ∃ s : State Unit,
    Reaches (Fires next) (fun _ _ => True) init s ∧ ¬NoEntryLeft s := by
  have h : (play next (fun _ _ => True) (init : State Unit) throwRun).any (fun s => decide
      ((s.call "1").isEnded = true ∧ "1" ∈ s.pending_requests)) = true := by
    decide
  obtain ⟨s, hs, hp⟩ := (Option.any_eq_true _ _).mp h
  obtain ⟨hend, hin⟩ := of_decide_eq_true hp
  refine ⟨s, reaches_of_play hs, fun hno => ?_⟩
  cases hpc : s.call "1" with
  | ended r => exact hno "1" r hpc hin
  | _ => rw [hpc] at hend; cases hend

/-- A call registers, the connection drops and the next one is up before the call goes on. -/
def resendRun : List (Act Unit) :=
  [.publish, .setConnected true, .begin order, .register "1", .leave, .clear, .failLock, .failOne,
    .failDone, .publish, .lock "1", .test "1", .send "1"]

/-- **A failed request is sent** on the connection after the one whose teardown failed it. -/
theorem request_resent : ¬∀ s : State Unit, Reaches (Fires next) (fun _ _ => True) init s →
    ResolvedOnce s ∧ NoEntryLeft s ∧ NotResent s := by
  intro hall
  have h : (play next (fun _ _ => True) (init : State Unit) resendRun).any (fun s => decide
      (s.resolved "1" = [.teardown 1] ∧ s.sent = [("1", 1)])) = true := by
    decide
  obtain ⟨s, hs, hp⟩ := (Option.any_eq_true _ _).mp h
  obtain ⟨hres, hsent⟩ := of_decide_eq_true hp
  have hno := (hall s (reaches_of_play hs)).2.2
  exact Nat.lt_irrefl _ (hno "1" 1 (by simp [hres]) 1 (by simp [hsent]))

end Meridian.GateRequests
