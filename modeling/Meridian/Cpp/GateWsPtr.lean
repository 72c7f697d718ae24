import Mathlib.Data.Nat.Notation
import Mathlib.Logic.Function.Basic
import Meridian.Lib.Run

/-!
# `GateConnector`: the lifetime of what `ws_ptr_` points to

Model of the life of the `WsClient` in `exchange/cpp/src/gate_connector.cpp`: `io_thread_main`
(`gate_connector.cpp:452-556`) against any number of `ws_api_request` callers
(`gate_connector.cpp:304-320`). The client is a local variable of the `try` block, so it is
destroyed when the block is left, by any path; only after that does the thread take
`ws_send_mutex_` and clear `ws_ptr_`. Every step that another thread can come between is a step of
its own, and a client is known by its number in the order of construction.

Results:
* `send_through_destroyed`: a caller that has tested `ws_ptr_`, or tests it before it is cleared,
  calls `send_text` on a destroyed client;
* `ptr_not_dangling`: in every run in which the client is destroyed only while no caller stands
  between its test and its call, and no caller tests a pointer not yet cleared, every call goes to
  a client that is constructed and not destroyed.
-/

namespace Meridian.GateWsPtr

open Meridian.Run

variable {T : Type}

/-- Where `io_thread_main` stands. -/
inductive IoPc where
  /-- REST bootstrap, backoff or the end: there is no client -/
  | outside
  /-- `WsClient ws;` is constructed and `ws.connect` runs -/
  | connecting (g : ℕ)
  /-- connected, before the lock of the publication -/
  | connected (g : ℕ)
  | publishLocked (g : ℕ)
  /-- `ws_ptr_` is set, `ws_send_mutex_` still held -/
  | publishedLocked (g : ℕ)
  /-- login, subscriptions and the receive loop -/
  | running (g : ℕ)
  /-- `ws_login` holds `ws_send_mutex_` for its `send_text` -/
  | loginLocked (g : ℕ)
  /-- the end of the `try` block is reached, or an exception unwinds it -/
  | leaving (g : ℕ)
  /-- the client is destroyed, before the lock of the teardown -/
  | teardown
  | teardownLocked
  /-- `ws_ptr_` is cleared, `ws_send_mutex_` still held -/
  | clearedLocked
  deriving DecidableEq

/-- Where a caller of `ws_api_request` stands. -/
inductive CallerPc where
  | idle
  | locked
  /-- `ws_ptr_` was not null: `ws_ptr_->send_text` comes next -/
  | sending
  /-- the end of the locked block, whether it sent or not -/
  | done
  deriving DecidableEq

/-- Who holds `ws_send_mutex_`. -/
inductive Holder (T : Type) where
  | io
  | caller (t : T)
  deriving DecidableEq

/-- The pointer, the mutex and the places of the threads; `alive` is the client that is constructed
and not yet destroyed, `made` the number of clients constructed so far. -/
structure State (T : Type) where
  ws_ptr : Option ℕ
  ws_send_mutex : Option (Holder T)
  io : IoPc
  caller : T → CallerPc
  alive : Option ℕ
  made : ℕ

/-- The steps of the io thread and of the callers. -/
inductive Act (T : Type) where
  | construct
  | connect
  | publishLock
  | publish
  | publishUnlock
  | loginLock
  | loginUnlock
  | leave
  | destroy
  | teardownLock
  | clear
  | teardownUnlock
  | lock (t : T)
  | test (t : T)
  | send (t : T)
  | unlock (t : T)

/-- No client yet, nobody in a critical section. -/
def init : State T :=
  { ws_ptr := none, ws_send_mutex := none, io := .outside, caller := fun _ => .idle
    alive := none, made := 0 }

/-- The client of the `try` block, where an exception can leave it. -/
def IoPc.leaves : IoPc → Option ℕ
  | .connecting g | .connected g | .running g | .loginLocked g => some g
  | _ => none

/-- A caller moves on. -/
def State.move [DecidableEq T] (s : State T) (t : T) (pc : CallerPc) : State T :=
  { s with caller := Function.update s.caller t pc }

/-- One step, where the thread it belongs to is at that place and the mutex is free to take. -/
def next [DecidableEq T] (s : State T) : Act T → Option (State T)
  | .construct =>
    match s.io with
    | .outside => some { s with io := .connecting s.made, alive := some s.made, made := s.made + 1 }
    | _ => none
  | .connect =>
    match s.io with
    | .connecting g => some { s with io := .connected g }
    | _ => none
  | .publishLock =>
    match s.io, s.ws_send_mutex with
    | .connected g, none => some { s with io := .publishLocked g, ws_send_mutex := some .io }
    | _, _ => none
  | .publish =>
    match s.io with
    | .publishLocked g => some { s with io := .publishedLocked g, ws_ptr := some g }
    | _ => none
  | .publishUnlock =>
    match s.io with
    | .publishedLocked g => some { s with io := .running g, ws_send_mutex := none }
    | _ => none
  | .loginLock =>
    match s.io, s.ws_send_mutex with
    | .running g, none => some { s with io := .loginLocked g, ws_send_mutex := some .io }
    | _, _ => none
  | .loginUnlock =>
    match s.io with
    | .loginLocked g => some { s with io := .running g, ws_send_mutex := none }
    | _ => none
  | .leave =>
    -- unwinding out of `ws_login` releases its lock first
    match s.io.leaves with
    | some g => some { s with
        io := .leaving g
        ws_send_mutex := if s.ws_send_mutex = some .io then none else s.ws_send_mutex }
    | none => none
  | .destroy =>
    match s.io with
    | .leaving _ => some { s with io := .teardown, alive := none }
    | _ => none
  | .teardownLock =>
    match s.io, s.ws_send_mutex with
    | .teardown, none => some { s with io := .teardownLocked, ws_send_mutex := some .io }
    | _, _ => none
  | .clear =>
    match s.io with
    | .teardownLocked => some { s with io := .clearedLocked, ws_ptr := none }
    | _ => none
  | .teardownUnlock =>
    match s.io with
    | .clearedLocked => some { s with io := .outside, ws_send_mutex := none }
    | _ => none
  | .lock t =>
    match s.caller t, s.ws_send_mutex with
    | .idle, none => some ({ s with ws_send_mutex := some (.caller t) }.move t .locked)
    | _, _ => none
  | .test t =>
    match s.caller t with
    | .locked => some (s.move t (if s.ws_ptr.isSome then .sending else .done))
    | _ => none
  | .send t =>
    match s.caller t with
    | .sending => some (s.move t .done)
    | _ => none
  | .unlock t =>
    match s.caller t with
    | .done => some ({ s with ws_send_mutex := none }.move t .idle)
    | _ => none

/-- The client is not destroyed under a caller between its test and its call, and no caller tests
the pointer between the destruction and the clearing. -/
def Apart (s : State T) : Act T → Prop
  | .destroy =>
    match s.ws_send_mutex with
    | some (.caller t) => s.caller t ≠ .sending
    | _ => True
  | .test _ => s.io = .teardown → s.ws_ptr = none
  | _ => True

instance (s : State T) (a : Act T) : Decidable (Apart s a) := by
  unfold Apart
  split
  · split <;> infer_instance
  · infer_instance
  · infer_instance

/-- Every caller about to call `send_text` does so on a client that is constructed and not
destroyed. -/
def NotDangling (s : State T) : Prop :=
  ∀ t, s.caller t = .sending → ∃ g, s.ws_ptr = some g ∧ s.alive = some g

/-! ## What a step can be -/

/-- The steps, each with what it needs. -/
inductive Step [DecidableEq T] (s : State T) : Act T → State T → Prop
  | construct (hio : s.io = .outside) :
    Step s .construct { s with io := .connecting s.made, alive := some s.made, made := s.made + 1 }
  | connect (g : ℕ) (hio : s.io = .connecting g) : Step s .connect { s with io := .connected g }
  | publishLock (g : ℕ) (hio : s.io = .connected g) (hm : s.ws_send_mutex = none) :
    Step s .publishLock { s with io := .publishLocked g, ws_send_mutex := some .io }
  | publish (g : ℕ) (hio : s.io = .publishLocked g) :
    Step s .publish { s with io := .publishedLocked g, ws_ptr := some g }
  | publishUnlock (g : ℕ) (hio : s.io = .publishedLocked g) :
    Step s .publishUnlock { s with io := .running g, ws_send_mutex := none }
  | loginLock (g : ℕ) (hio : s.io = .running g) (hm : s.ws_send_mutex = none) :
    Step s .loginLock { s with io := .loginLocked g, ws_send_mutex := some .io }
  | loginUnlock (g : ℕ) (hio : s.io = .loginLocked g) :
    Step s .loginUnlock { s with io := .running g, ws_send_mutex := none }
  | leave (g : ℕ) (hl : s.io.leaves = some g) : Step s .leave { s with
      io := .leaving g
      ws_send_mutex := if s.ws_send_mutex = some .io then none else s.ws_send_mutex }
  | destroy (g : ℕ) (hio : s.io = .leaving g) :
    Step s .destroy { s with io := .teardown, alive := none }
  | teardownLock (hio : s.io = .teardown) (hm : s.ws_send_mutex = none) :
    Step s .teardownLock { s with io := .teardownLocked, ws_send_mutex := some .io }
  | clear (hio : s.io = .teardownLocked) :
    Step s .clear { s with io := .clearedLocked, ws_ptr := none }
  | teardownUnlock (hio : s.io = .clearedLocked) :
    Step s .teardownUnlock { s with io := .outside, ws_send_mutex := none }
  | lock (t : T) (ht : s.caller t = .idle) (hm : s.ws_send_mutex = none) :
    Step s (.lock t) ({ s with ws_send_mutex := some (.caller t) }.move t .locked)
  | found (t : T) (g : ℕ) (ht : s.caller t = .locked) (hp : s.ws_ptr = some g) :
    Step s (.test t) (s.move t .sending)
  | missing (t : T) (ht : s.caller t = .locked) (hp : s.ws_ptr = none) :
    Step s (.test t) (s.move t .done)
  | send (t : T) (ht : s.caller t = .sending) : Step s (.send t) (s.move t .done)
  | unlock (t : T) (ht : s.caller t = .done) :
    Step s (.unlock t) ({ s with ws_send_mutex := none }.move t .idle)

theorem step_of_next [DecidableEq T] {s s' : State T} {a : Act T} (h : next s a = some s') :
    Step s a s' := by
  cases a with
  | construct =>
    simp only [next] at h
    split at h
    · rename_i hio
      exact Option.some.inj h ▸ .construct hio
    · cases h
  | connect =>
    simp only [next] at h
    split at h
    · rename_i g hio
      exact Option.some.inj h ▸ .connect g hio
    · cases h
  | publishLock =>
    simp only [next] at h
    split at h
    · rename_i g hio hm
      exact Option.some.inj h ▸ .publishLock g hio hm
    · cases h
  | publish =>
    simp only [next] at h
    split at h
    · rename_i g hio
      exact Option.some.inj h ▸ .publish g hio
    · cases h
  | publishUnlock =>
    simp only [next] at h
    split at h
    · rename_i g hio
      exact Option.some.inj h ▸ .publishUnlock g hio
    · cases h
  | loginLock =>
    simp only [next] at h
    split at h
    · rename_i g hio hm
      exact Option.some.inj h ▸ .loginLock g hio hm
    · cases h
  | loginUnlock =>
    simp only [next] at h
    split at h
    · rename_i g hio
      exact Option.some.inj h ▸ .loginUnlock g hio
    · cases h
  | leave =>
    simp only [next] at h
    split at h
    · rename_i g hl
      exact Option.some.inj h ▸ .leave g hl
    · cases h
  | destroy =>
    simp only [next] at h
    split at h
    · rename_i g hio
      exact Option.some.inj h ▸ .destroy g hio
    · cases h
  | teardownLock =>
    simp only [next] at h
    split at h
    · rename_i hio hm
      exact Option.some.inj h ▸ .teardownLock hio hm
    · cases h
  | clear =>
    simp only [next] at h
    split at h
    · rename_i hio
      exact Option.some.inj h ▸ .clear hio
    · cases h
  | teardownUnlock =>
    simp only [next] at h
    split at h
    · rename_i hio
      exact Option.some.inj h ▸ .teardownUnlock hio
    · cases h
  | lock t =>
    simp only [next] at h
    split at h
    · rename_i ht hm
      exact Option.some.inj h ▸ .lock t ht hm
    · cases h
  | test t =>
    simp only [next] at h
    split at h
    · rename_i ht
      cases hp : s.ws_ptr with
      | none =>
        rw [hp] at h
        exact Option.some.inj h ▸ .missing t ht hp
      | some g =>
        rw [hp] at h
        exact Option.some.inj h ▸ .found t g ht hp
    · cases h
  | send t =>
    simp only [next] at h
    split at h
    · rename_i ht
      exact Option.some.inj h ▸ .send t ht
    · cases h
  | unlock t =>
    simp only [next] at h
    split at h
    · rename_i ht
      exact Option.some.inj h ▸ .unlock t ht
    · cases h

/-! ## The invariant -/

/-- Where the io thread stands decides what it holds, which client exists and what `ws_ptr_` may
designate. -/
def IoOk (s : State T) : Prop :=
  match s.io with
  | .outside => s.ws_ptr = none
  | .connecting g | .connected g => s.ws_ptr = none ∧ s.alive = some g
  | .publishLocked g => s.ws_ptr = none ∧ s.alive = some g ∧ s.ws_send_mutex = some .io
  | .publishedLocked g | .loginLocked g =>
    s.ws_ptr = some g ∧ s.alive = some g ∧ s.ws_send_mutex = some .io
  | .running g => s.ws_ptr = some g ∧ s.alive = some g
  | .leaving g => (s.ws_ptr = none ∨ s.ws_ptr = some g) ∧ s.alive = some g
  | .teardown => True
  | .teardownLocked => s.ws_send_mutex = some .io
  | .clearedLocked => s.ws_ptr = none ∧ s.ws_send_mutex = some .io

/-- The invariant of the runs that keep the callers apart from the destruction. -/
structure Inv (s : State T) : Prop where
  holds : ∀ t, s.caller t ≠ .idle → s.ws_send_mutex = some (.caller t)
  io : IoOk s
  safe : NotDangling s

theorem inv_init : Inv (init : State T) where
  holds := fun _ h => absurd rfl h
  io := rfl
  safe := fun _ h => absurd h (by simp [init])

/-- While the io thread holds the mutex no caller is in its critical section. -/
theorem Inv.idle_of_io {s : State T} (h : Inv s) (hm : s.ws_send_mutex = some .io) (t : T) :
    s.caller t = .idle := by
  by_contra hne
  have := h.holds t hne
  rw [hm] at this
  exact absurd this (by simp)

/-- While the mutex is free no caller is in its critical section. -/
theorem Inv.idle_of_free {s : State T} (h : Inv s) (hm : s.ws_send_mutex = none) (t : T) :
    s.caller t = .idle := by
  by_contra hne
  have := h.holds t hne
  rw [hm] at this
  exact absurd this (by simp)

/-- With every caller outside its critical section, what the io thread does is its own affair. -/
theorem inv_of_idle {s : State T} (hidle : ∀ t, s.caller t = .idle) (hio : IoOk s) : Inv s where
  holds := fun t h => absurd (hidle t) h
  io := hio
  safe := fun t h => by
    rw [hidle t] at h
    exact absurd h (by simp)

/-- A step that leaves pointer, mutex, callers and client alone keeps them safe. -/
theorem Inv.frame {s s' : State T} (h : Inv s) (hp : s'.ws_ptr = s.ws_ptr)
    (hm : s'.ws_send_mutex = s.ws_send_mutex) (hc : s'.caller = s.caller)
    (ha : s'.alive = s.alive) (hio : IoOk s') : Inv s' where
  holds := fun t ht => by
    rw [hm]
    exact h.holds t (by rwa [← hc])
  io := hio
  safe := fun t ht => by
    rw [hp, ha]
    exact h.safe t (by rwa [← hc])

/-- With a null pointer no caller is about to call. -/
theorem Inv.not_sending {s : State T} (h : Inv s) (hp : s.ws_ptr = none) (t : T) :
    s.caller t ≠ .sending := by
  intro ht
  obtain ⟨g, hg, -⟩ := h.safe t ht
  rw [hp] at hg
  exact absurd hg (by simp)

/-- Where an exception can leave the `try` block, the client exists and the pointer designates no
other. -/
theorem IoOk.leaves {s : State T} {g : ℕ} (h : IoOk s) (hl : s.io.leaves = some g) :
    (s.ws_ptr = none ∨ s.ws_ptr = some g) ∧ s.alive = some g := by
  unfold IoOk at h
  cases hpc : s.io with
  | connecting g' | connected g' =>
    rw [hpc] at h hl
    obtain rfl := Option.some.inj hl
    exact ⟨Or.inl h.1, h.2⟩
  | running g' =>
    rw [hpc] at h hl
    obtain rfl := Option.some.inj hl
    exact ⟨Or.inr h.1, h.2⟩
  | loginLocked g' =>
    rw [hpc] at h hl
    obtain rfl := Option.some.inj hl
    exact ⟨Or.inr h.1, h.2.1⟩
  | _ =>
    rw [hpc] at hl
    exact absurd hl (by simp [IoPc.leaves])

/-- While the io thread does not hold the mutex, what it stands on does not depend on who does. -/
theorem IoOk.relock {s s' : State T} (h : IoOk s) (hm : s.ws_send_mutex ≠ some .io)
    (hio : s'.io = s.io) (hp : s'.ws_ptr = s.ws_ptr) (ha : s'.alive = s.alive) : IoOk s' := by
  unfold IoOk at h ⊢
  rw [hio, hp, ha]
  cases hpc : s.io with
  | outside | connecting g | connected g | running g | leaving g | teardown =>
    rw [hpc] at h
    exact h
  | publishLocked g | publishedLocked g | loginLocked g =>
    rw [hpc] at h
    exact absurd h.2.2 hm
  | teardownLocked =>
    rw [hpc] at h
    exact absurd h hm
  | clearedLocked =>
    rw [hpc] at h
    exact absurd h.2 hm

/-- Outside the io thread's critical sections the pointer designates the client that is alive, but
for the time between the destruction and the clearing. -/
theorem IoOk.alive_of_ptr {s : State T} {g : ℕ} (h : IoOk s) (hm : s.ws_send_mutex ≠ some .io)
    (ht : s.io ≠ .teardown) (hp : s.ws_ptr = some g) : s.alive = some g := by
  unfold IoOk at h
  cases hpc : s.io with
  | outside =>
    rw [hpc] at h
    cases h.symm.trans hp
  | connecting g' | connected g' =>
    rw [hpc] at h
    cases h.1.symm.trans hp
  | running g' =>
    rw [hpc] at h
    exact h.2.trans (h.1.symm.trans hp)
  | leaving g' =>
    rw [hpc] at h
    rcases h.1 with hnone | hsome
    · cases hnone.symm.trans hp
    · exact h.2.trans (hsome.symm.trans hp)
  | teardown => exact absurd hpc ht
  | publishLocked g' | publishedLocked g' | loginLocked g' =>
    rw [hpc] at h
    exact absurd h.2.2 hm
  | teardownLocked =>
    rw [hpc] at h
    exact absurd h hm
  | clearedLocked =>
    rw [hpc] at h
    exact absurd h.2 hm

/-! ## A caller's steps -/

variable {s : State T} {t : T}

/-- In its critical section a caller holds the mutex. -/
theorem Inv.holds_of {pc : CallerPc} (h : Inv s) (ht : s.caller t = pc) (hpc : pc ≠ .idle) :
    s.ws_send_mutex = some (.caller t) := h.holds t (ht ▸ hpc)

theorem not_io_of_caller (hm : s.ws_send_mutex = some (.caller t)) :
    s.ws_send_mutex ≠ some .io := by
  rw [hm]
  exact nofun

variable [DecidableEq T]

theorem caller_move_self (s : State T) (t : T) (pc : CallerPc) : (s.move t pc).caller t = pc :=
  Function.update_self ..

theorem caller_move_of_ne {u : T} (h : u ≠ t) (pc : CallerPc) :
    (s.move t pc).caller u = s.caller u := Function.update_of_ne h ..

/-- A caller that holds the mutex moves inside its critical section. -/
theorem inv_move {pc : CallerPc} (h : Inv s) (hm : s.ws_send_mutex = some (.caller t))
    (hsafe : pc = .sending → ∃ g, s.ws_ptr = some g ∧ s.alive = some g) : Inv (s.move t pc) where
  holds u hu := by
    by_cases hut : u = t
    · rw [hut]
      exact hm
    · exact h.holds u (by rwa [caller_move_of_ne hut] at hu)
  io := h.io
  safe u hu := by
    by_cases hut : u = t
    · subst hut
      rw [caller_move_self] at hu
      exact hsafe hu
    · rw [caller_move_of_ne hut] at hu
      exact h.safe u hu

theorem inv_lock (h : Inv s) (hm : s.ws_send_mutex = none) :
    Inv ({ s with ws_send_mutex := some (.caller t) }.move t .locked) := by
  have hidle := h.idle_of_free hm
  refine ⟨fun u hu => ?_, h.io.relock (by rw [hm]; exact nofun) rfl rfl rfl, fun u hu => ?_⟩
  · by_cases hut : u = t
    · rw [hut]
      rfl
    · rw [caller_move_of_ne hut] at hu
      exact absurd (hidle u) hu
  · by_cases hut : u = t
    · subst hut
      rw [caller_move_self] at hu
      cases hu
    · rw [caller_move_of_ne hut] at hu
      cases (hidle u).symm.trans hu

theorem inv_unlock (h : Inv s) (hm : s.ws_send_mutex = some (.caller t)) :
    Inv ({ s with ws_send_mutex := none }.move t .idle) := by
  refine inv_of_idle (fun u => ?_) (h.io.relock (not_io_of_caller hm) rfl rfl rfl)
  by_cases hut : u = t
  · rw [hut]
    exact caller_move_self _ t _
  · rw [caller_move_of_ne hut]
    by_contra hne
    have hu := hm.symm.trans (h.holds u hne)
    rw [Option.some.injEq, Holder.caller.injEq] at hu
    exact hut hu.symm

/-! ## The io thread's steps -/

omit [DecidableEq T] in
/-- **The destruction** is safe because no caller stands between its test and its call. -/
theorem inv_destroy (h : Inv s) (hc : Apart s .destroy) :
    Inv { s with io := .teardown, alive := none } := by
  refine ⟨h.holds, trivial, fun t ht => ?_⟩
  have hm := h.holds_of ht nofun
  simp only [Apart, hm] at hc
  exact absurd ht hc

/-- **One step** that keeps the destruction apart keeps the invariant, with one lemma for each step
that touches the client or the pointer. -/
theorem inv_step {s' : State T} {a : Act T} (h : Inv s) (hc : Apart s a) (hs : Step s a s') :
    Inv s' := by
  have hok := h.io
  unfold IoOk at hok
  cases hs with
  | construct hio =>
    rw [hio] at hok
    exact ⟨h.holds, ⟨hok, rfl⟩, fun t ht => absurd ht (h.not_sending hok t)⟩
  | connect g hio =>
    rw [hio] at hok
    exact h.frame rfl rfl rfl rfl hok
  | publishLock g hio hm =>
    rw [hio] at hok
    exact inv_of_idle (h.idle_of_free hm) ⟨hok.1, hok.2, rfl⟩
  | publish g hio =>
    rw [hio] at hok
    exact inv_of_idle (h.idle_of_io hok.2.2) ⟨rfl, hok.2⟩
  | publishUnlock g hio | loginUnlock g hio =>
    rw [hio] at hok
    exact inv_of_idle (h.idle_of_io hok.2.2) ⟨hok.1, hok.2.1⟩
  | loginLock g hio hm =>
    rw [hio] at hok
    exact inv_of_idle (h.idle_of_free hm) ⟨hok.1, hok.2, rfl⟩
  | leave g hl =>
    by_cases hm : s.ws_send_mutex = some .io
    · exact inv_of_idle (h.idle_of_io hm) (h.io.leaves hl)
    · exact h.frame rfl (if_neg hm) rfl rfl (h.io.leaves hl)
  | destroy g hio => exact inv_destroy h hc
  | teardownLock hio hm => exact inv_of_idle (h.idle_of_free hm) rfl
  | clear hio =>
    rw [hio] at hok
    exact inv_of_idle (h.idle_of_io hok) ⟨rfl, hok⟩
  | teardownUnlock hio =>
    rw [hio] at hok
    exact inv_of_idle (h.idle_of_io hok.2) hok.1
  | lock t ht hm => exact inv_lock h hm
  | found t g ht hp =>
    -- the pointer is cleared before another caller can look, unless it is not yet cleared
    have hm := h.holds_of ht nofun
    have hlive : s.io ≠ .teardown := fun he => by cases (hc he).symm.trans hp
    exact inv_move h hm fun _ => ⟨g, hp, h.io.alive_of_ptr (not_io_of_caller hm) hlive hp⟩
  | missing t ht hp => exact inv_move h (h.holds_of ht nofun) nofun
  | send t ht => exact inv_move h (h.holds_of ht nofun) nofun
  | unlock t ht => exact inv_unlock h (h.holds_of ht nofun)

/-- **`ws_ptr_` does not dangle** in any run that keeps the destruction of the client apart from the
callers' test and call: a caller that is about to call `send_text` has a client that is constructed
and not destroyed, whatever the number of callers. -/
theorem ptr_not_dangling {s : State T} (h : Reaches (Fires next) Apart init s) : NotDangling s :=
  (h.inv inv_init fun _ _ _ hi hc hs => inv_step hi hc (step_of_next hs)).safe

/-- A client is published and a caller tests the pointer. -/
def sendRun : List (Act ℕ) :=
  [.construct, .connect, .publishLock, .publish, .publishUnlock, .lock 0, .test 0]

theorem ptr_not_dangling_published :
    ∃ s : State ℕ, s.caller 0 = .sending ∧ ∃ g, s.ws_ptr = some g ∧ s.alive = some g := by
  have h : (play next Apart (init : State ℕ) sendRun).any
      (fun s => decide (s.caller 0 = .sending)) = true := by decide
  obtain ⟨s, hs, hp⟩ := (Option.any_eq_true _ _).mp h
  have hsend := of_decide_eq_true hp
  exact ⟨s, hsend, ptr_not_dangling (reaches_of_play hs) 0 hsend⟩

/-! ## The dangling call -/

/-- The receive loop throws while a caller stands between its test and its call. -/
def danglingRun : List (Act ℕ) := sendRun ++ [.leave, .destroy]

/-- **`send_text` is called on a destroyed client.** -/
theorem send_through_destroyed : ¬ ∀ s : State ℕ,
    Reaches (Fires next) (fun _ _ => True) init s → NotDangling s := by
  intro hall
  have h : (play next (fun _ _ => True) (init : State ℕ) danglingRun).any
      (fun s => decide (s.caller 0 = .sending ∧ s.alive = none)) = true := by decide
  obtain ⟨s, hs, hp⟩ := (Option.any_eq_true _ _).mp h
  obtain ⟨hsend, ha⟩ := of_decide_eq_true hp
  obtain ⟨g, -, hg⟩ := hall s (reaches_of_play hs) 0 hsend
  rw [ha] at hg
  exact absurd hg (by simp)

end Meridian.GateWsPtr
