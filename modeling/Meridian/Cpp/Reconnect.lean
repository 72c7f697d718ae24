import Mathlib.Data.List.Infix
import Meridian.Cpp.ConnectJoin

/-!
# What a reconnected connector serves

`reconnect()` of `exchange/cpp_connector.py` (205-208) calls `disconnect()` and `connect()` on one
connector object, whose caches and flags live on: `kucoin_connector.cpp` (109-136, 223-320, 326-409),
`mexc_connector.cpp` (150-177, 254-357, 363-456), `kraken_connector.cpp` (164-191, 242-378, 384-531).
The threads are those of `Meridian.Cpp.ConnectJoin`; here each cached value is known by the session
whose io thread wrote it, a session being a call of `connect()` that starts a thread.

Results:
* `reconnect_serves_old_data`: on every connector a second `connect()` can return with the ticker and
  the balance of the first;
* `served_by_this_session`: while no `connect()` starts its thread with `ticker_ready_` still set,
  what is served was written in the session it is served in, in every run;
* `old_data_of_not_meets`: the first such start is enough for the opposite.
-/

namespace Meridian.Reconnect

open Meridian.Run
open Meridian.ConnectJoin (Connector Stage Handler IoPc ConnPc)

/-- The fields of `latest_balance_` that a balance message is about. -/
structure Named where
  usd : Bool
  token : Bool

structure State where
  threads : ConnectJoin.State
  /-- how many io threads were started -/
  session : ℕ
  /-- the session whose io thread wrote `latest_ticker_` -/
  ticker_by : Option ℕ
  /-- and `latest_balance_.usd` -/
  usd_by : Option ℕ
  /-- and `latest_balance_.token` -/
  token_by : Option ℕ

def init : State :=
  { threads := ConnectJoin.init, session := 0, ticker_by := none, usd_by := none
    token_by := none }

/-- A step of the threads, and what it is about where it handles a balance message. -/
structure Act where
  step : ConnectJoin.Act
  named : Named

/-- A bootstrap stage replaces the whole of what it fetched. -/
def State.store (s : State) : Stage → State
  | .balance => { s with usd_by := some s.session, token_by := some s.session }
  | .ticker => { s with ticker_by := some s.session }
  | _ => s

/-- `on_ticker_msg` replaces the ticker, `on_balance_msg` the named fields. -/
def State.handle (s : State) (n : Named) : Handler → State
  | .ticker => { s with ticker_by := some s.session }
  | .balance =>
    { s with
      usd_by := if n.usd then some s.session else s.usd_by
      token_by := if n.token then some s.session else s.token_by }
  | _ => s

/-- What a step writes. -/
def State.write (s : State) (a : Act) : State :=
  match a.step, s.threads.io with
  | .call, _ => if s.threads.running then s else { s with session := s.session + 1 }
  | .stored, .stored st _ => s.store st
  | .handled, .handled h _ _ => s.handle a.named h
  | _, _ => s

def next (C : Connector) (s : State) (a : Act) : Option State :=
  (ConnectJoin.next C s.threads a.step).map fun t => { s.write a with threads := t }

/-- The balance is this session's. -/
def State.balanceNew (s : State) : Prop :=
  s.usd_by = some s.session ∧ s.token_by = some s.session

/-- What `fetch_ticker` and `fetch_balance` return once `connect()` has, `connected_` being set:
the io thread of this session wrote it. -/
def Fresh (s : State) : Prop :=
  s.threads.connected = true → s.ticker_by = some s.session ∧ s.balanceNew

/-- `connect()` starts its thread only while `ticker_ready_` is not set. -/
def Meets (s : State) (a : Act) : Prop :=
  match a.step with
  | .call => s.threads.running = false → s.threads.ticker_ready = false
  | _ => True

instance (s : State) (a : Act) : Decidable (Meets s a) := by
  unfold Meets
  split <;> infer_instance

/-! ## Where the balance has been stored -/

/-- The io thread is past its balance stage only when `p`. -/
def Past (C : Connector) (p : Prop) : IoPc → Prop
  | .none | .outer | .caught => True
  | .calling stages => stages <:+ C.bootstrap ∧ (.balance ∉ stages → p)
  | .storing st stages | .stored st stages =>
    st :: stages <:+ C.bootstrap ∧ (.balance ∉ st :: stages → p)
  | .inner | .polling _ | .handling _ _ _ | .handled _ _ _ => p

variable {C : Connector} {p : Prop}

/-- The balance stage precedes the ticker stage. -/
theorem balance_before_ticker {stages : List Stage} (h : .ticker :: stages <:+ C.bootstrap) :
    .balance ∉ Stage.ticker :: stages := by
  have hall : ∀ l ∈ C.bootstrap.tails, l.head? = some .ticker → Stage.balance ∉ l := by
    cases C <;> decide
  exact hall _ ((List.mem_tails _ _).mpr h) rfl

theorem Past.bootstrap : Past C p (.proceed C.bootstrap) := by
  cases C <;> exact ⟨List.suffix_rfl, fun h => absurd (by decide) h⟩

theorem Past.proceed {stages : List Stage} (h : stages <:+ C.bootstrap)
    (hp : .balance ∉ stages → p) : Past C p (.proceed stages) := by
  cases stages with
  | nil => exact hp List.not_mem_nil
  | cons st stages => exact ⟨h, hp⟩

/-- On to the next stage, the balance not being the one that is left. -/
theorem Past.skip {st : Stage} {stages : List Stage} (h : Past C p (.calling (st :: stages)))
    (hst : st ≠ .balance) : Past C p (.proceed stages) :=
  Past.proceed ((List.suffix_cons ..).trans h.1) fun hn =>
    h.2 (List.not_mem_cons_of_ne_of_not_mem hst.symm hn)

theorem Past.dispatch (hp : p) (n : ℕ) (hs : List Handler) : Past C p (.dispatch n hs) := by
  cases hs with
  | nil =>
    simp only [IoPc.dispatch]
    split <;> exact hp
  | cons h hs => exact hp

theorem Past.mono {q : Prop} (hq : p → q) {io : IoPc} (h : Past C p io) : Past C q io := by
  cases io with
  | none | outer | caught => trivial
  | calling stages => exact ⟨h.1, fun hn => hq (h.2 hn)⟩
  | storing st stages | stored st stages => exact ⟨h.1, fun hn => hq (h.2 hn)⟩
  | inner | polling | handling | handled => exact hq h

/-! ## The steps whose outcome matters -/

variable {t t' : ConnectJoin.State}

/-- A predicate that holds while the thread runs is about the flags. -/
theorem test_ready (hs : ConnectJoin.next C t .test = some t') (hret : t'.conn = .returned true)
    (hr : t'.running = true) : t'.ticker_ready = true := by
  have hready := ConnectJoin.ready_of_test hs hret
  rw [ConnectJoin.State.ready, hr, Bool.not_true, Bool.or_false, Bool.and_eq_true] at hready
  exact hready.1

/-- A thread is started only while `running_` is not set. -/
theorem call_running (hs : ConnectJoin.next C t .call = some t') (hc : t'.conn = .started) :
    t.running = false := by
  by_contra hr
  simp only [ConnectJoin.next, Bool.not_eq_false _ ▸ hr] at hs
  split at hs
  · rename_i hidle
    obtain rfl := Option.some.inj hs
    cases hidle.symm.trans hc
  · cases hs

/-- The balance stage is not passed without a balance. -/
theorem reply_past {r : ConnectJoin.Reply} (h : Past C p t.io)
    (hs : ConnectJoin.next C t (.reply r) = some t') : Past C p t'.io := by
  simp only [ConnectJoin.next] at hs
  split at hs
  · rename_i st stages hio
    rw [hio] at h
    cases r with
    | stores =>
      obtain rfl := Option.some.inj hs
      dsimp only
      split
      · exact h
      · rename_i hl
        exact h.skip fun hst => hl (hst ▸ rfl)
    | empty =>
      obtain ⟨hskip, ⟨⟩⟩ := Option.ite_none_right_eq_some.mp hs
      refine h.skip fun hst => ?_
      subst hst
      cases C <;> cases hskip
    | fails =>
      obtain rfl := Option.some.inj hs
      dsimp only
      split
      · rename_i hst
        exact h.skip fun hb => by cases hst.symm.trans hb
      · trivial
  · cases hs

theorem outer_past (hs : ConnectJoin.next C t .outer = some t') : Past C p t'.io := by
  simp only [ConnectJoin.next] at hs
  split at hs
  · obtain rfl := Option.some.inj hs
    dsimp only
    split
    · exact Past.bootstrap
    · trivial
  · cases hs

theorem inner_past (h : Past C p t.io) (hs : ConnectJoin.next C t .inner = some t') :
    Past C p t'.io := by
  simp only [ConnectJoin.next] at hs
  split at hs
  · rename_i hio
    rw [hio] at h
    obtain rfl := Option.some.inj hs
    dsimp only
    split
    · exact h
    · trivial
  · cases hs

theorem catches_past (hs : ConnectJoin.next C t .catches = some t') : Past C p t'.io := by
  simp only [ConnectJoin.next] at hs
  split at hs
  · obtain rfl := Option.some.inj hs
    dsimp only
    split <;> trivial
  · cases hs

/-! ## The invariant -/

structure Inv (C : Connector) (s : State) : Prop where
  connected : s.threads.connected = true →
    s.threads.conn = .idle ∧ s.threads.running = true ∧ s.threads.ticker_ready = true
  returned : s.threads.conn = .returned true → s.threads.running = true →
    s.threads.ticker_ready = true
  /-- a ticker is there: it came after the balance, in this session -/
  ready : s.threads.ticker_ready = true → s.ticker_by = some s.session ∧ s.balanceNew
  past : Past C s.balanceNew s.threads.io

variable {s s' : State}

theorem inv_init : Inv C init where
  connected h := by cases h
  returned h := by cases h
  ready h := by cases h
  past := trivial

theorem Inv.fresh (h : Inv C s) : Fresh s := fun hc => h.ready (h.connected hc).2.2

/-- `connect()` goes on, outside a successful return. -/
theorem Inv.conn_moves (h : Inv C s) (hc : s.threads.conn ≠ .idle) {conn : ConnPc}
    {m : Option ConnectJoin.Thread} (hret : conn ≠ .returned true) :
    Inv C { s with threads := { s.threads with conn := conn, state_mutex := m } } where
  connected hcon := absurd (h.connected hcon).1 hc
  returned hr := absurd hr hret
  ready := h.ready
  past := h.past

/-- The io thread goes on, without a write. -/
theorem Inv.io_moves (h : Inv C s) {io : IoPc} {m : Option ConnectJoin.Thread}
    (hp : Past C s.balanceNew io) :
    Inv C { s with threads := { s.threads with io := io, state_mutex := m } } where
  connected := h.connected
  returned := h.returned
  ready := h.ready
  past := hp

/-- A ticker is written, the balance being this session's. -/
theorem Inv.ticker (h : Inv C s) {io : IoPc} {m : Option ConnectJoin.Thread}
    (hb : s.balanceNew) (hp : Past C s.balanceNew io) :
    Inv C { s with
      ticker_by := some s.session
      threads := { s.threads with ticker_ready := true, io := io, state_mutex := m } } where
  connected hcon := ⟨(h.connected hcon).1, (h.connected hcon).2.1, rfl⟩
  returned _ _ := rfl
  ready _ := ⟨rfl, hb⟩
  past := hp

/-- A balance is written, all of it being this session's afterwards. -/
theorem Inv.balance (h : Inv C s) {usd token : Option ℕ} {io : IoPc}
    {m : Option ConnectJoin.Thread} (husd : usd = some s.session) (htok : token = some s.session)
    (hp : Past C True io) :
    Inv C { s with
      usd_by := usd, token_by := token
      threads := { s.threads with balance_ready := true, io := io, state_mutex := m } } where
  connected := h.connected
  returned := h.returned
  ready hr := ⟨(h.ready hr).1, husd, htok⟩
  past := hp.mono fun _ => ⟨husd, htok⟩

theorem Inv.stores (h : Inv C s) {st : Stage} {stages : List Stage}
    (hp : Past C s.balanceNew (.stored st stages)) :
    Inv C { s.store st with
      threads := { s.threads.set st with io := .proceed stages, state_mutex := none } } := by
  have hrest := (List.suffix_cons ..).trans hp.1
  cases st with
  | balance => exact h.balance rfl rfl (Past.proceed hrest fun _ => trivial)
  | ticker =>
    have hb := hp.2 (balance_before_ticker hp.1)
    exact h.ticker hb (Past.proceed hrest fun _ => hb)
  | credentials | orders | token | ws =>
    exact h.io_moves (@Past.skip C s.balanceNew _ stages hp nofun)

/-- A field that is new stays so when it is written again. -/
theorem named_new {old : Option ℕ} {n : ℕ} (b : Bool) (h : old = some n) :
    (if b then some n else old) = some n := by
  cases b
  · exact h
  · rfl

theorem Inv.handles (h : Inv C s) {named : Named} {hd : Handler} {hds : List Handler} {n : ℕ}
    (hb : s.balanceNew) :
    Inv C { s.handle named hd with
      threads := { s.threads.note hd with io := .dispatch n hds, state_mutex := none } } := by
  cases hd with
  | ticker => exact h.ticker hb (Past.dispatch hb n hds)
  | balance =>
    exact h.balance (named_new named.usd hb.1) (named_new named.token hb.2)
      (Past.dispatch trivial n hds)
  | order | snapshot => exact h.io_moves (Past.dispatch hb n hds)

/-- **One step** keeps the invariant where no thread starts with `ticker_ready_` set: only the io
thread of the session writes, its balance before its ticker. -/
theorem inv_step {a : Act} (h : Inv C s) (hc : Meets s a) (hs : next C s a = some s') :
    Inv C s' := by
  obtain ⟨act, named⟩ := a
  obtain ⟨t, ht, rfl⟩ := Option.map_eq_some_iff.mp hs
  cases ConnectJoin.step_of_next ht with
  | refuse hi hr =>
    simp only [State.write, hr, if_true]
    exact h
  | call hi hio =>
    have hr := call_running ht rfl
    simp only [State.write, hr, Bool.false_eq_true, if_false]
    refine ⟨fun hcon => ?_, nofun, fun hready => ?_, trivial⟩
    · cases hr.symm.trans (h.connected hcon).2.1
    · cases (hc hr).symm.trans hready
  | lock hi hm => exact h.conn_moves (by rw [hi]; nofun) nofun
  | test timed_out ok hi =>
    refine ⟨fun hcon => ?_, fun hok hr => test_ready ht hok hr, h.ready, h.past⟩
    cases hi.symm.trans (h.connected hcon).1
  | block timed_out hi => exact h.conn_moves (by rw [hi]; nofun) nofun
  | wake timed_out hi => exact h.conn_moves (by rw [hi]; nofun) nofun
  | relock timed_out hi hm => exact h.conn_moves (by rw [hi]; nofun) nofun
  | finish hi hr => exact ⟨fun _ => ⟨rfl, hr, h.returned hi hr⟩, nofun, h.ready, h.past⟩
  | giveUp ok running hi hno =>
    refine ⟨fun hcon => ?_, nofun, h.ready, h.past⟩
    cases hi.symm.trans (h.connected hcon).1
  | join hi hio => exact h.conn_moves (by rw [hi]; nofun) nofun
  | stop => exact ⟨nofun, fun _ => nofun, h.ready, h.past⟩
  | outer io hio ho hw => exact h.io_moves (outer_past ht)
  | inner io hio ho hw => exact h.io_moves (inner_past h.past ht)
  | catches io hio ho hw => exact h.io_moves (catches_past ht)
  | fetched st stages hio hl => exact h.io_moves (reply_past h.past ht)
  | skip r st stages hio hl => exact h.io_moves (reply_past h.past ht)
  | fail st stages hio => exact h.io_moves trivial
  | store st stages hio hm =>
    have hp := h.past
    rw [hio] at hp
    exact h.io_moves hp
  | stored st stages hio =>
    have hp := h.past
    rw [hio] at hp
    simp only [State.write, hio]
    exact h.stores hp
  | message hds n hio =>
    have hp := h.past
    rw [hio] at hp
    exact h.io_moves (Past.dispatch hp n hds)
  | handle hd hds n hio hm =>
    have hp := h.past
    rw [hio] at hp
    exact h.io_moves hp
  | handled hd hds n hio =>
    have hp := h.past
    rw [hio] at hp
    simp only [State.write, hio]
    exact h.handles hp
  | throws n hio => exact h.io_moves trivial
  | throwsHeld hd hds n hio => exact h.io_moves trivial

/-- **What is served was written in the session it is served in**, ticker and balance, in every run
in which no `connect()` starts its thread with `ticker_ready_` set: nothing resets the flag on the
way, so a `connect()` that finds it set returns on the ticker of the session before. -/
theorem served_by_this_session (C : Connector) (h : Reaches (Fires (next C)) Meets init s) :
    Fresh s :=
  (h.inv inv_init fun _ _ _ hi hc hs => inv_step hi hc hs).fresh

/-! ## A start that does not meet the condition -/

/-- What every run keeps: nobody is left with the mutex, a ticker comes after a balance, and no
later session wrote it. -/
structure Kept (C : Connector) (s : State) : Prop where
  mutex : s.threads.conn.holds = false → s.threads.io.holds = false →
    s.threads.state_mutex = none
  balance : s.threads.ticker_ready = true → s.threads.balance_ready = true
  past : Past C (s.threads.balance_ready = true) s.threads.io
  old : ∀ n ∈ s.ticker_by, n ≤ s.session

theorem kept_init : Kept C init where
  mutex _ _ := rfl
  balance h := by cases h
  past := trivial
  old _ h := by cases h

/-- `connect()` goes on. -/
theorem Kept.conn_moves (h : Kept C s) {t : ConnectJoin.State}
    (hm : t.conn.holds = false → t.io.holds = false → t.state_mutex = none)
    (htick : t.ticker_ready = s.threads.ticker_ready)
    (hbal : t.balance_ready = s.threads.balance_ready) (hio : t.io = s.threads.io) :
    Kept C { s with threads := t } where
  mutex := hm
  balance hr := hbal.trans (h.balance (htick.symm.trans hr))
  past := by
    rw [hbal, hio]
    exact h.past
  old := h.old

/-- The io thread goes on. -/
theorem Kept.io_moves (h : Kept C s) {io : IoPc} (hin : s.threads.io.holds = false)
    (hp : Past C (s.threads.balance_ready = true) io) :
    Kept C { s with threads := { s.threads with io := io } } where
  mutex hc _ := h.mutex hc hin
  balance := h.balance
  past := hp
  old := h.old

theorem Kept.stores (h : Kept C s) {st : Stage} {stages : List Stage}
    (hp : Past C (s.threads.balance_ready = true) (.stored st stages)) :
    Kept C { s.store st with
      threads := { s.threads.set st with io := .proceed stages, state_mutex := none } } := by
  have hrest := (List.suffix_cons ..).trans hp.1
  cases st with
  | balance => exact ⟨fun _ _ => rfl, fun _ => rfl, Past.proceed hrest fun _ => rfl, h.old⟩
  | ticker =>
    have hb := hp.2 (balance_before_ticker hp.1)
    refine ⟨fun _ _ => rfl, fun _ => hb, Past.proceed hrest fun _ => hb, fun n hn => ?_⟩
    obtain rfl := Option.some.inj hn
    exact le_rfl
  | credentials | orders | token | ws =>
    exact ⟨fun _ _ => rfl, h.balance, @Past.skip _ _ _ stages hp nofun, h.old⟩

theorem Kept.handles (h : Kept C s) {named : Named} {hd : Handler} {hds : List Handler} {n : ℕ}
    (hb : s.threads.balance_ready = true) :
    Kept C { s.handle named hd with
      threads := { s.threads.note hd with io := .dispatch n hds, state_mutex := none } } := by
  cases hd with
  | ticker =>
    refine ⟨fun _ _ => rfl, fun _ => hb, Past.dispatch hb n hds, fun k hk => ?_⟩
    obtain rfl := Option.some.inj hk
    exact le_rfl
  | balance => exact ⟨fun _ _ => rfl, fun _ => rfl, Past.dispatch rfl n hds, h.old⟩
  | order | snapshot => exact ⟨fun _ _ => rfl, h.balance, Past.dispatch hb n hds, h.old⟩

theorem kept_step {a : Act} (h : Kept C s) (hs : next C s a = some s') : Kept C s' := by
  obtain ⟨act, named⟩ := a
  obtain ⟨t, ht, rfl⟩ := Option.map_eq_some_iff.mp hs
  have hp := h.past
  cases ConnectJoin.step_of_next ht with
  | refuse hi hr =>
    simp only [State.write, hr, if_true]
    exact h
  | call hi hio =>
    have hm := h.mutex (by rw [hi]; rfl) (by rw [hio]; rfl)
    simp only [State.write, call_running ht rfl, Bool.false_eq_true, if_false]
    exact ⟨fun _ _ => hm, h.balance, trivial, fun n hn => (h.old n hn).trans (Nat.le_succ _)⟩
  | lock | test | relock | giveUp => exact h.conn_moves nofun rfl rfl rfl
  | block | finish | join => exact h.conn_moves (fun _ _ => rfl) rfl rfl rfl
  | wake timed_out hi => exact h.conn_moves (fun _ hin => h.mutex (by rw [hi]; rfl) hin) rfl rfl rfl
  | stop => exact h.conn_moves h.mutex rfl rfl rfl
  | outer io hio => exact h.io_moves (by rw [hio]; rfl) (outer_past ht)
  | inner io hio => exact h.io_moves (by rw [hio]; rfl) (inner_past hp ht)
  | catches io hio => exact h.io_moves (by rw [hio]; rfl) (catches_past ht)
  | fetched st stages hio | skip r st stages hio =>
    exact h.io_moves (by rw [hio]; rfl) (reply_past hp ht)
  | fail st stages hio => exact h.io_moves (by rw [hio]; rfl) trivial
  | throws n hio => exact h.io_moves (by rw [hio]; rfl) trivial
  | throwsHeld => exact ⟨fun _ _ => rfl, h.balance, trivial, h.old⟩
  | store st stages hio | handle hd hds n hio =>
    rw [hio] at hp
    exact ⟨nofun, h.balance, hp, h.old⟩
  | message hds n hio =>
    rw [hio] at hp
    exact h.io_moves (by rw [hio]; rfl) (Past.dispatch hp n hds)
  | stored st stages hio =>
    rw [hio] at hp
    simp only [State.write, hio]
    exact h.stores hp
  | handled hd hds n hio =>
    rw [hio] at hp
    simp only [State.write, hio]
    exact h.handles hp

/-- With both flags set `connect()` takes the mutex and returns, its io thread not having run. -/
theorem returns_at_once (hc : s.threads.conn = .started) (hm : s.threads.state_mutex = none)
    (hr : s.threads.running = true) (htick : s.threads.ticker_ready = true)
    (hbal : s.threads.balance_ready = true) :
    Reaches (Fires (next C)) (fun _ _ => True) s
      { s with threads :=
        { s.threads with connected := true, conn := .idle, state_mutex := none } } := by
  have hlock : next C s ⟨.lock, ⟨false, false⟩⟩ = some { s with threads :=
      { s.threads with conn := .testing false, state_mutex := some .connect } } := by
    simp only [next, ConnectJoin.next, hc, hm]
    rfl
  have htest : next C { s with threads :=
      { s.threads with conn := .testing false, state_mutex := some .connect } }
      ⟨.test, ⟨false, false⟩⟩ = some { s with threads :=
        { s.threads with conn := .returned true, state_mutex := some .connect } } := by
    simp only [next, ConnectJoin.next, ConnectJoin.State.ready, htick, hbal]
    rfl
  have hdecide : next C { s with threads :=
      { s.threads with conn := .returned true, state_mutex := some .connect } }
      ⟨.decide, ⟨false, false⟩⟩ = some { s with threads :=
        { s.threads with connected := true, conn := .idle, state_mutex := none } } := by
    simp only [next, ConnectJoin.next, hr]
    rfl
  exact ((Reaches.refl.tail trivial hlock).tail trivial htest).tail trivial hdecide

/-- A `connect()` that starts its thread with `ticker_ready_` set can return what an earlier session
left. -/
theorem old_data_of_not_meets {a : Act} (h : Reaches (Fires (next C)) (fun _ _ => True) init s)
    (hc : ¬Meets s a) (hs : next C s a = some s') :
    ∃ s'', Reaches (Fires (next C)) (fun _ _ => True) s' s'' ∧ ¬Fresh s'' := by
  have hk : Kept C s := h.inv kept_init fun _ _ _ hk _ hs => kept_step hk hs
  obtain ⟨act, named⟩ := a
  cases act with
  | call =>
    obtain ⟨hr, htick⟩ := Classical.not_imp.mp hc
    have htick : s.threads.ticker_ready = true := Bool.not_eq_false _ ▸ htick
    obtain ⟨t, ht, rfl⟩ := Option.map_eq_some_iff.mp hs
    cases ConnectJoin.step_of_next ht with
    | refuse _ hrun => cases hr.symm.trans hrun
    | call hi hio =>
      have hm := hk.mutex (by rw [hi]; rfl) (by rw [hio]; rfl)
      have hbal := hk.balance htick
      simp only [State.write, hr, Bool.false_eq_true, if_false]
      refine ⟨_, returns_at_once rfl hm rfl htick hbal, fun hfresh => ?_⟩
      exact absurd (hk.old _ (hfresh rfl).1) (Nat.not_succ_le_self _)
  | _ => exact absurd trivial hc

/-! ## Two sessions -/

/-- Steps that are about no currency. -/
def plain (as : List ConnectJoin.Act) : List Act := as.map fun a => ⟨a, ⟨false, false⟩⟩

/-- A session: `connect()` waits until the io thread has all its stages stored. -/
def connectRun (C : Connector) : List ConnectJoin.Act :=
  [.call, .lock, .test, .outer] ++
    C.bootstrap.flatMap (fun st => if st.locks then [.reply .stores, .store, .stored]
      else [.reply .stores]) ++
    [.wake false, .relock, .test, .decide]

/-- `disconnect()` ends the io thread, which is in its receive loop. -/
def disconnectRun : List ConnectJoin.Act := [.stop, .inner, .outer]

/-- `reconnect()`: the new `connect()` returns before its io thread has run. -/
def reconnectRun : List ConnectJoin.Act := disconnectRun ++ [.call, .lock, .test, .decide]

theorem first_session_served : ∃ s : State,
    s.threads.connected = true ∧ s.ticker_by = some 1 ∧ Fresh s := by
  have h : (play (next .kucoin) Meets init (plain (connectRun .kucoin))).any (fun s => decide
      (s.threads.connected = true ∧ s.ticker_by = some 1)) = true := by
    decide +kernel
  obtain ⟨s, hs, hp⟩ := (Option.any_eq_true _ _).mp h
  obtain ⟨hcon, ht⟩ := of_decide_eq_true hp
  exact ⟨s, hcon, ht, served_by_this_session .kucoin (reaches_of_play hs)⟩

/-- A connector serves, in every run, what the current session wrote. -/
def ServesNew (C : Connector) : Prop :=
  ∀ s, Reaches (Fires (next C)) (fun _ _ => True) init s → Fresh s

theorem not_servesNew (C : Connector) : ¬ServesNew C := by
  intro hall
  have h : (play (next C) (fun _ _ => True) init (plain (connectRun C ++ reconnectRun))).any
      (fun s => decide (s.threads.connected = true ∧ s.ticker_by ≠ some s.session)) = true := by
    cases C <;> decide +kernel
  obtain ⟨s, hs, hp⟩ := (Option.any_eq_true _ _).mp h
  obtain ⟨hcon, hne⟩ := of_decide_eq_true hp
  exact hne (hall s (reaches_of_play hs) hcon).1

/-- **`reconnect()` serves the old session's data**, on all three connectors. -/
theorem reconnect_serves_old_data :
    ¬ServesNew .kucoin ∧ ¬ServesNew .mexc ∧ ¬ServesNew .kraken :=
  ⟨not_servesNew .kucoin, not_servesNew .mexc, not_servesNew .kraken⟩

end Meridian.Reconnect
