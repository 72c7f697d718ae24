import Mathlib.Logic.Function.Basic
import Meridian.Core.System
import Meridian.Lib.BoundedQueue
import Meridian.Lib.Run

/-!
# What the bots are fed: prices and regimes

The orchestrator and the regime master hand every bot what is new through queues of five. Model of
the end of `_tick_prices` (`orchestrator.py:335-362`), of `_broadcast` (`regime_master.py:262-268`)
and of the start of a bot's tick (`exchange_bot.py:141-165`, `345-370`), for any set of bots. A
`put_nowait` on a full queue is dropped. What the states and the regimes say is arbitrary; `_tick`
drains and resolves before its first await, so that is one step, and a bot may rest between its
steps as long as it likes.

Results:
* `stale_start`, `newest_iff`: a bot may start a tick on a state that is not the last one published,
  and all its ticks start on the last one exactly if at each of them the last state published had
  found the queue empty;
* `stale_params`, `shared_iff`: two bots that drain with no broadcast in between may differ, and all
  bots resolve the parameters of the last broadcast exactly if at each drain the last broadcast that
  found room in the bot's queue has these.
-/

namespace Meridian.Feeds

open Meridian.Run

/-! ## Regimes -/

/-- `mm_params`. -/
structure MmParams where
  spread_mult : ℚ
  depth_mult : ℚ
  aggressiveness : ℚ
  inventory_skew : ℚ
  deriving DecidableEq

/-- `RegimeState` (`regime_master.py:44-65`). -/
structure RegimeState where
  regime : String
  confidence : ℚ
  zz_regime : String
  agreement : Bool
  mm_params : MmParams
  timestamp : ℚ

/-- `MM_PARAMETERS["RANGING"]`. -/
def RANGING : MmParams :=
  { spread_mult := 1, depth_mult := 1, aggressiveness := 4 / 5, inventory_skew := 0 }

/-- `_DEFAULT_REGIME_STATE`. -/
def DEFAULT_REGIME_STATE : RegimeState :=
  { regime := "RANGING", confidence := 1 / 2, zz_regime := "choppy", agreement := true
    mm_params := RANGING, timestamp := 0 }

/-! ## The bots -/

/-- One `put_nowait` of the price loop, with its number. -/
structure Published where
  seq : ℕ
  state : GlobalState
  regime_state : Option RegimeState

/-- History of a tick: the state it starts with, how many had been published when that state was
dequeued, and whether the last of these had found the queue empty. -/
structure Start where
  state : Published
  published : ℕ
  found_empty : Bool

/-- The state is the last one published. -/
def Start.newest (t : Start) : Prop := t.state.seq + 1 = t.published

/-- History of a drain: the parameters resolved right after it, what had been broadcast by then, the
latest first, and the last broadcast that had found room in the bot's queue. -/
structure Drained where
  mm_params : MmParams
  log : List RegimeState
  accepted : RegimeState

/-- `current_regime_state` of the regime master after these broadcasts. -/
def currentRegime (log : List RegimeState) : RegimeState := log.headD DEFAULT_REGIME_STATE

/-- A bot: its two queues, `_current_regime_state`, and the state it has dequeued and not yet
started its tick on. -/
structure Bot where
  queue : BoundedQueue Published 5 := .empty
  regime_queue : BoundedQueue RegimeState 5 := .empty
  current_regime_state : Option RegimeState := none
  got : Option Published := none
  ticking : Bool := false
  found_empty : Bool := true
  accepted : RegimeState := DEFAULT_REGIME_STATE
  starts : List Start := []
  drains : List Drained := []

variable {ι : Type}

/-- All bots, the number of states published and the broadcasts, the latest first. -/
structure State (ι : Type) where
  published : ℕ := 0
  log : List RegimeState := []
  bot : ι → Bot := fun _ => {}

/-- `put_nowait(state)` for every bot, `_broadcast`, and the steps of a bot: it dequeues, starts its
tick and ends it. -/
inductive Act (ι : Type) where
  | publish (state : GlobalState)
  | broadcast (rs : RegimeState)
  | dequeue (i : ι)
  | start (i : ι)
  | finish (i : ι)

/-- `q.put_nowait(state)`. -/
def Bot.publish (b : Bot) (p : Published) : Bot :=
  { b with queue := b.queue.offer p, found_empty := b.queue.items.isEmpty }

/-- `q.put_nowait(regime_state)`. -/
def Bot.broadcast (b : Bot) (rs : RegimeState) : Bot :=
  { b with
    regime_queue := b.regime_queue.offer rs
    accepted := if b.regime_queue.full then b.accepted else rs }

/-- `_drain_regime_queue`. -/
def Bot.drain_regime_queue (b : Bot) : Bot :=
  { b with
    regime_queue := b.regime_queue.drain.2
    current_regime_state := b.regime_queue.drain.1.or b.current_regime_state }

/-- `_resolve_mm_params`. -/
def Bot.resolve_mm_params (b : Bot) (regime_state : Option RegimeState) : MmParams :=
  match b.current_regime_state.or regime_state with
  | some rs => rs.mm_params
  | none => RANGING

/-- The start of `_tick`, after these broadcasts. -/
def Bot.tick (b : Bot) (p : Published) (log : List RegimeState) : Bot :=
  let b := b.drain_regime_queue
  { b with
    got := none
    ticking := true
    drains := ⟨b.resolve_mm_params p.regime_state, log, b.accepted⟩ :: b.drains }

/-- One step. -/
def next [DecidableEq ι] (s : State ι) : Act ι → Option (State ι)
  | .publish state =>
    let p : Published := ⟨s.published, state, some (currentRegime s.log)⟩
    some { s with published := s.published + 1, bot := fun i => (s.bot i).publish p }
  | .broadcast rs => some { s with log := rs :: s.log, bot := fun i => (s.bot i).broadcast rs }
  | .dequeue i =>
    if (s.bot i).got.isSome || (s.bot i).ticking then none
    else
      match (s.bot i).queue.get_nowait with
      | some (p, queue) =>
        let b := { s.bot i with
          queue := queue
          got := some p
          starts := ⟨p, s.published, (s.bot i).found_empty⟩ :: (s.bot i).starts }
        some { s with bot := Function.update s.bot i b }
      | none => none
  | .start i =>
    match (s.bot i).got with
    | some p => some { s with bot := Function.update s.bot i ((s.bot i).tick p s.log) }
    | none => none
  | .finish i =>
    if (s.bot i).ticking then
      some { s with bot := Function.update s.bot i { s.bot i with ticking := false } }
    else none

/-- What a step does to one bot: to the count of published states, the broadcasts and the bot. -/
inductive Step (n : ℕ) (log : List RegimeState) (b : Bot) : ℕ → List RegimeState → Bot → Prop
  | publish (state : GlobalState) :
    Step n log b (n + 1) log (b.publish ⟨n, state, some (currentRegime log)⟩)
  | broadcast (rs : RegimeState) : Step n log b n (rs :: log) (b.broadcast rs)
  | dequeue (p : Published) (queue : BoundedQueue Published 5)
    (h : b.queue.get_nowait = some (p, queue)) :
    Step n log b n log
      { b with queue := queue, got := some p, starts := ⟨p, n, b.found_empty⟩ :: b.starts }
  | start (p : Published) (h : b.got = some p) : Step n log b n log (b.tick p log)
  | finish : Step n log b n log { b with ticking := false }
  | idle : Step n log b n log b

variable [DecidableEq ι] {s s' : State ι}

/-- Every step is one of these for every bot. -/
theorem step_bot {a : Act ι} (h : next s a = some s') (i : ι) :
    Step s.published s.log (s.bot i) s'.published s'.log (s'.bot i) := by
  -- a bot's own step, seen by bot `i`
  have own : ∀ (j : ι) (b : Bot), Step s.published s.log (s.bot j) s.published s.log b →
      Step s.published s.log (s.bot i) s.published s.log (Function.update s.bot j b i) := by
    intro j b hb
    by_cases hij : i = j
    · subst hij
      rw [Function.update_self]
      exact hb
    · rw [Function.update_of_ne hij]
      exact Step.idle
  cases a with
  | publish state =>
    obtain rfl := Option.some.inj h
    exact Step.publish state
  | broadcast rs =>
    obtain rfl := Option.some.inj h
    exact Step.broadcast rs
  | dequeue j =>
    simp only [next] at h
    split at h
    · cases h
    · split at h
      · rename_i p queue hq
        obtain rfl := Option.some.inj h
        exact own j _ (Step.dequeue p queue hq)
      · cases h
  | start j =>
    simp only [next] at h
    split at h
    · rename_i p hp
      obtain rfl := Option.some.inj h
      exact own j _ (Step.start p hp)
    · cases h
  | finish j =>
    simp only [next] at h
    split at h
    · obtain rfl := Option.some.inj h
      exact own j _ Step.finish
    · cases h

/-- A condition on one bot that its steps keep holds in every run. -/
theorem bot_inv {I : ℕ → List RegimeState → Bot → Prop} (i : ι) (h0 : I 0 [] {})
    (hstep : ∀ n log b n' log' b', Step n log b n' log' b' → I n log b → I n' log' b')
    (h : Reaches (Fires next) (fun _ _ => True) ({} : State ι) s) :
    I s.published s.log (s.bot i) :=
  h.inv (I := fun s => I s.published s.log (s.bot i)) h0 fun _ _ _ hI _ hs =>
    hstep _ _ _ _ _ _ (step_bot hs i) hI

/-! ## Prices -/

/-- All ticks of the bot so far started on the state that had been published last when it was
dequeued. -/
def Bot.Newest (b : Bot) : Prop := ∀ t ∈ b.starts, t.newest

/-- What the queue of a bot holds after `n` states: the last one alone, where that one had found it
empty; otherwise an older one in front, unless the bot has already started on one. -/
structure Prices (n : ℕ) (b : Bot) : Prop where
  below : ∀ p ∈ b.queue.items, p.seq < n
  fresh : b.found_empty = true → ∀ p ∈ b.queue.items, b.queue.items = [p] ∧ p.seq + 1 = n
  lag : b.found_empty = false → (∀ p ∈ b.queue.items.head?, p.seq + 1 < n) ∨ ¬b.Newest
  iff : b.Newest ↔ ∀ t ∈ b.starts, t.found_empty = true

theorem Prices.publish {n : ℕ} {b : Bot} {p : Published} (h : Prices n b) (hp : p.seq = n) :
    Prices (n + 1) (b.publish p) := by
  have below : ∀ q ∈ (b.queue.offer p).items, q.seq < n + 1 := by
    intro q hq
    rcases BoundedQueue.mem_items_offer hq with hq | rfl
    · exact Nat.lt_succ_of_lt (h.below q hq)
    · rw [hp]
      exact Nat.lt_succ_self n
  refine ⟨below, ?_, ?_, h.iff⟩
  · intro he q hq
    have hnil : b.queue.items = [] := List.isEmpty_iff.mp he
    have hroom : b.queue.full = false := by rw [BoundedQueue.full, hnil]; rfl
    have hone : (b.queue.offer p).items = [p] := by
      rw [BoundedQueue.items_offer_of_not_full hroom, hnil]
      rfl
    have hqp : q = p := List.mem_singleton.mp (hone ▸ hq)
    subst hqp
    exact ⟨hone, by rw [hp]⟩
  · -- what is in front stays in front, whether or not the new state finds room
    intro he
    refine Or.inl fun q hq => ?_
    have hfront : (b.queue.offer p).items.head? = b.queue.items.head? := by
      cases hf : b.queue.full with
      | true => rw [BoundedQueue.offer_of_full hf]
      | false =>
        rw [BoundedQueue.items_offer_of_not_full hf]
        cases hi : b.queue.items with
        | nil => exact absurd he (by simp [Bot.publish, hi])
        | cons x l => rfl
    rw [show (b.publish p).queue = b.queue.offer p from rfl, hfront] at hq
    exact Nat.succ_lt_succ (h.below q (List.mem_of_mem_head? hq))

theorem Prices.dequeue {n : ℕ} {b : Bot} {p : Published} {queue : BoundedQueue Published 5}
    (h : Prices n b) (hq : b.queue.get_nowait = some (p, queue)) :
    Prices n
      { b with queue := queue, got := some p, starts := ⟨p, n, b.found_empty⟩ :: b.starts } := by
  have hitems := BoundedQueue.get_nowait_eq_some hq
  have hp : p ∈ b.queue.items := by rw [hitems]; exact List.mem_cons_self
  have below : ∀ q ∈ queue.items, q.seq < n := fun q hq => h.below q (by
    rw [hitems]
    exact List.mem_cons_of_mem p hq)
  cases hf : b.found_empty with
  | true =>
    obtain ⟨hone, hseq⟩ := h.fresh hf p hp
    have hnil : queue.items = [] := (List.cons.inj (hitems.symm.trans hone)).2
    refine ⟨below, fun _ q hq => absurd hq (by simp [hnil]), fun hc => absurd hc (by simp), ?_⟩
    have hnew : (⟨p, n, true⟩ : Start).newest := hseq
    simp only [Bot.Newest, List.forall_mem_cons, hnew, true_and]
    exact h.iff
  | false =>
    have hold : ¬(∀ t ∈ (⟨p, n, false⟩ : Start) :: b.starts, t.newest) := by
      rw [List.forall_mem_cons]
      rintro ⟨hnew, hrest⟩
      rcases h.lag hf with hlt | hstale
      · exact Nat.ne_of_lt (hlt p (by rw [hitems]; rfl)) hnew
      · exact hstale hrest
    refine ⟨below, fun hc => absurd hc (by simp), fun _ => Or.inr hold, ?_⟩
    exact iff_of_false hold fun hall => absurd (hall _ List.mem_cons_self) Bool.false_ne_true

theorem Prices.step {n n' : ℕ} {log log' : List RegimeState} {b b' : Bot}
    (hs : Step n log b n' log' b') (h : Prices n b) : Prices n' b' := by
  cases hs with
  | publish state => exact h.publish rfl
  | broadcast rs => exact ⟨h.below, h.fresh, h.lag, h.iff⟩
  | dequeue p queue hq => exact h.dequeue hq
  | start p hp => exact ⟨h.below, h.fresh, h.lag, h.iff⟩
  | finish => exact ⟨h.below, h.fresh, h.lag, h.iff⟩
  | idle => exact h

/-- **When every tick starts on the newest state**: exactly if the bot has dequeued only states that
were published to its empty queue. The states that come while one is in the queue stand behind it,
and those that come to a full queue are dropped, so that the older ones are what the bot gets. -/
theorem newest_iff (h : Reaches (Fires next) (fun _ _ => True) ({} : State ι) s) (i : ι) :
    (∀ t ∈ (s.bot i).starts, t.newest) ↔ ∀ t ∈ (s.bot i).starts, t.found_empty = true := by
  have h0 : Prices 0 ({} : Bot) :=
    { below := fun _ hp => absurd hp List.not_mem_nil
      fresh := fun _ _ hp => absurd hp List.not_mem_nil
      lag := fun hc => absurd hc.symm Bool.false_ne_true
      iff := iff_of_true (fun _ ht => absurd ht List.not_mem_nil) fun _ ht =>
        absurd ht List.not_mem_nil }
  exact (bot_inv (I := fun n _ b => Prices n b) i h0 (fun _ _ _ _ _ _ => Prices.step) h).iff

instance (t : Start) : Decidable t.newest := inferInstanceAs (Decidable (_ = _))

/-- A state of a quiet market. -/
def sample : GlobalState :=
  { global_mid := 100, volatility := 0, zz_vol := 0, zz_regime := "choppy", hmm_regime := "NORMAL"
    hmm_regime_confidence := 0 }

/-- Two states are published before the bot dequeues. -/
def lagging : List (Act Unit) := [.publish sample, .publish sample, .dequeue ()]

/-- A bot that lags starts its tick on the older of the two. -/
theorem stale_start :
    ∃ s : State Unit, Reaches (Fires next) (fun _ _ => True) {} s ∧
      ¬∀ t ∈ (s.bot ()).starts, t.newest := by
  have hrun : (play next (fun _ _ => True) ({} : State Unit) lagging).any
      (fun s => decide (¬∀ t ∈ (s.bot ()).starts, t.newest)) = true := by decide
  obtain ⟨s, hs, hb⟩ := (Option.any_eq_true _ _).mp hrun
  exact ⟨s, reaches_of_play hs, of_decide_eq_true hb⟩

/-- A bot that keeps up: it dequeues each state before the next one is published. -/
def keepingUp : List (Act Unit) :=
  [.publish sample, .dequeue (), .start (), .finish (), .publish sample, .dequeue ()]

theorem newest_keepingUp :
    ∃ s : State Unit, Reaches (Fires next) (fun _ _ => True) {} s ∧ (s.bot ()).starts.length = 2 ∧
      ∀ t ∈ (s.bot ()).starts, t.newest := by
  have hrun : (play next (fun _ _ => True) ({} : State Unit) keepingUp).any
      (fun s => decide ((s.bot ()).starts.length = 2 ∧
        ∀ t ∈ (s.bot ()).starts, t.found_empty = true)) = true := by decide
  obtain ⟨s, hs, hb⟩ := (Option.any_eq_true _ _).mp hrun
  obtain ⟨hlen, hall⟩ := of_decide_eq_true hb
  have hr := reaches_of_play hs
  exact ⟨s, hr, hlen, (newest_iff hr ()).mpr hall⟩

/-! ## Regimes -/

/-- What a bot resolves after this many broadcasts: the last one that had found room in its queue,
or the default before the first. -/
structure Regimes (log : List RegimeState) (b : Bot) : Prop where
  resolved : log ≠ [] →
    b.regime_queue.items.getLast?.or b.current_regime_state = some b.accepted
  silent : log = [] → b.regime_queue.items = [] ∧ b.current_regime_state = none ∧
    b.accepted = DEFAULT_REGIME_STATE
  queued : log = [] → ∀ p ∈ b.queue.items, p.regime_state = some DEFAULT_REGIME_STATE
  got : log = [] → ∀ p ∈ b.got, p.regime_state = some DEFAULT_REGIME_STATE
  drained : ∀ d ∈ b.drains, d.mm_params = d.accepted.mm_params ∧ d.log <:+ log

theorem Regimes.publish {log : List RegimeState} {b : Bot} {p : Published} (h : Regimes log b)
    (hp : p.regime_state = some (currentRegime log)) : Regimes log (b.publish p) := by
  refine ⟨h.resolved, h.silent, fun hl q hq => ?_, h.got, h.drained⟩
  rcases BoundedQueue.mem_items_offer hq with hq | rfl
  · exact h.queued hl q hq
  · rw [hp, hl]
    rfl

theorem Regimes.broadcast {log : List RegimeState} {b : Bot} (h : Regimes log b)
    (rs : RegimeState) : Regimes (rs :: log) (b.broadcast rs) := by
  refine ⟨fun _ => ?_, fun hl => absurd hl (List.cons_ne_nil rs log),
    fun hl => absurd hl (List.cons_ne_nil rs log), fun hl => absurd hl (List.cons_ne_nil rs log),
    fun d hd => ⟨(h.drained d hd).1, (h.drained d hd).2.trans (List.suffix_cons rs log)⟩⟩
  cases hf : b.regime_queue.full with
  | true =>
    -- dropped; something has been broadcast before, or the queue would be empty
    have hlog : log ≠ [] := by
      intro hl
      rw [BoundedQueue.full, (h.silent hl).1] at hf
      exact absurd hf (by decide)
    simp only [Bot.broadcast, hf, BoundedQueue.offer_of_full hf, if_true]
    exact h.resolved hlog
  | false =>
    simp only [Bot.broadcast, hf, BoundedQueue.items_offer_of_not_full hf, Bool.false_eq_true,
      if_false, List.getLast?_append, List.getLast?_singleton, Option.some_or]

theorem Regimes.tick {log : List RegimeState} {b : Bot} {p : Published} (h : Regimes log b)
    (hp : b.got = some p) : Regimes log (b.tick p log) := by
  have hdrain : b.regime_queue.drain = (b.regime_queue.items.getLast?, BoundedQueue.empty) :=
    BoundedQueue.drain_eq b.regime_queue
  have hcur : b.drain_regime_queue.current_regime_state =
      b.regime_queue.items.getLast?.or b.current_regime_state := by
    rw [Bot.drain_regime_queue, hdrain]
  have hres : b.drain_regime_queue.resolve_mm_params p.regime_state = b.accepted.mm_params := by
    by_cases hl : log = []
    · obtain ⟨hitems, hnone, hacc⟩ := h.silent hl
      have hstate : p.regime_state = some DEFAULT_REGIME_STATE := h.got hl p hp
      rw [Bot.resolve_mm_params, hcur, hitems, hnone, hstate, hacc]
      rfl
    · rw [Bot.resolve_mm_params, hcur, h.resolved hl]
      rfl
  refine ⟨fun hl => ?_, fun hl => ?_, h.queued, fun _ q hq => absurd hq (by simp [Bot.tick]), ?_⟩
  · simp only [Bot.tick, Bot.drain_regime_queue, hdrain]
    exact h.resolved hl
  · obtain ⟨hitems, hnone, hacc⟩ := h.silent hl
    refine ⟨by simp only [Bot.tick, Bot.drain_regime_queue, hdrain]; rfl, ?_, hacc⟩
    show b.drain_regime_queue.current_regime_state = none
    rw [hcur, hitems, hnone]
    rfl
  · intro d hd
    rcases List.mem_cons.mp hd with rfl | hd
    · exact ⟨hres, List.suffix_rfl⟩
    · exact h.drained d hd

theorem Regimes.step {n n' : ℕ} {log log' : List RegimeState} {b b' : Bot}
    (hs : Step n log b n' log' b') (h : Regimes log b) : Regimes log' b' := by
  cases hs with
  | publish state => exact h.publish rfl
  | broadcast rs => exact h.broadcast rs
  | dequeue p queue hq =>
    have hitems := BoundedQueue.get_nowait_eq_some hq
    refine ⟨h.resolved, h.silent, fun hl q hq => h.queued hl q ?_, fun hl q hq => ?_, h.drained⟩
    · rw [hitems]
      exact List.mem_cons_of_mem p hq
    · obtain rfl := Option.mem_some.mp hq
      refine h.queued hl _ ?_
      rw [hitems]
      exact List.mem_cons_self
  | start p hp => exact h.tick hp
  | finish => exact ⟨h.resolved, h.silent, h.queued, h.got, h.drained⟩
  | idle => exact h

theorem regimes (h : Reaches (Fires next) (fun _ _ => True) ({} : State ι) s) (i : ι) :
    Regimes s.log (s.bot i) := by
  have h0 : Regimes [] ({} : Bot) :=
    { resolved := fun hl => absurd rfl hl
      silent := fun _ => ⟨rfl, rfl, rfl⟩
      queued := fun _ _ hp => absurd hp List.not_mem_nil
      got := fun _ _ hp => absurd hp (Option.not_mem_none _)
      drained := fun _ hd => absurd hd List.not_mem_nil }
  exact bot_inv (I := fun _ log b => Regimes log b) i h0 (fun _ _ _ _ _ _ => Regimes.step) h

/-- Every drain so far resolves the parameters of the last broadcast before it, whatever the queue
of that bot has dropped. -/
def Current (s : State ι) : Prop :=
  ∀ i, ∀ d ∈ (s.bot i).drains, d.mm_params = (currentRegime d.log).mm_params

/-- Two bots whose drains have no broadcast in between resolve the same parameters. -/
def Agree (s : State ι) : Prop :=
  ∀ i j, ∀ d ∈ (s.bot i).drains, ∀ d' ∈ (s.bot j).drains, d.log.length = d'.log.length →
    d.mm_params = d'.mm_params

omit [DecidableEq ι] in
/-- Two drains with as many broadcasts before them have the same ones. -/
theorem Current.agree (hs : ∀ i, Regimes s.log (s.bot i)) (h : Current s) : Agree s := by
  intro i j d hd d' hd' hlen
  have hsuf : d.log <:+ d'.log :=
    List.suffix_of_suffix_length_le ((hs i).drained d hd).2 ((hs j).drained d' hd').2
      (Nat.le_of_eq hlen)
  rw [h i d hd, h j d' hd', hsuf.eq_of_length hlen]

/-- **When all bots share the last regime**: exactly if at each drain the last broadcast that had
found room in the bot's queue has the parameters of the last broadcast, which it has not where a
full queue has dropped a broadcast of another regime. -/
theorem shared_iff (h : Reaches (Fires next) (fun _ _ => True) ({} : State ι) s) :
    (Current s ∧ Agree s) ↔ ∀ i, ∀ d ∈ (s.bot i).drains,
      d.accepted.mm_params = (currentRegime d.log).mm_params := by
  have hreg : ∀ i, Regimes s.log (s.bot i) := regimes h
  have hcur : Current s ↔ ∀ i, ∀ d ∈ (s.bot i).drains,
      d.accepted.mm_params = (currentRegime d.log).mm_params :=
    forall_congr' fun i => forall₂_congr fun d hd => by rw [((hreg i).drained d hd).1]
  rw [← hcur]
  exact and_iff_left_of_imp fun hc => hc.agree hreg

/-- A regime other than the default one. -/
def highVol : RegimeState :=
  { regime := "HIGH_VOL", confidence := 9 / 10, zz_regime := "trending", agreement := true
    mm_params := { spread_mult := 3, depth_mult := 3 / 10, aggressiveness := 1 / 10
                   inventory_skew := 0 }
    timestamp := 0 }

/-- One bot starts a tick and rests; the other drains while six regimes are broadcast. -/
def lateRegime : List (Act Bool) :=
  [.publish sample, .broadcast DEFAULT_REGIME_STATE, .broadcast DEFAULT_REGIME_STATE,
    .broadcast DEFAULT_REGIME_STATE, .broadcast DEFAULT_REGIME_STATE,
    .broadcast DEFAULT_REGIME_STATE, .dequeue true, .start true, .finish true, .broadcast highVol,
    .publish sample, .dequeue true, .start true, .dequeue false, .start false]

instance (s : State Bool) : Decidable (Current s) := by
  unfold Current
  infer_instance

instance (s : State Bool) : Decidable (Agree s) := by
  unfold Agree
  infer_instance

/-- The sixth broadcast is dropped for the slow bot alone. -/
theorem stale_params :
    ∃ s : State Bool, Reaches (Fires next) (fun _ _ => True) {} s ∧ ¬Current s ∧ ¬Agree s := by
  have hrun : (play next (fun _ _ => True) ({} : State Bool) lateRegime).any
      (fun s => decide (¬Current s ∧ ¬Agree s)) = true := by decide +kernel
  obtain ⟨s, hs, hb⟩ := (Option.any_eq_true _ _).mp hrun
  exact ⟨s, reaches_of_play hs, of_decide_eq_true hb⟩

/-- Both bots drain after every broadcast. -/
def promptRegime : List (Act Bool) :=
  [.broadcast highVol, .publish sample, .dequeue true, .start true, .dequeue false, .start false]

theorem shared_promptRegime :
    ∃ s : State Bool, Reaches (Fires next) (fun _ _ => True) {} s ∧
      (s.bot true).drains.length = 1 ∧ Current s ∧ Agree s := by
  have hrun : (play next (fun _ _ => True) ({} : State Bool) promptRegime).any
      (fun s => decide ((s.bot true).drains.length = 1 ∧ ∀ i, ∀ d ∈ (s.bot i).drains,
        d.accepted.mm_params = (currentRegime d.log).mm_params)) = true := by decide +kernel
  obtain ⟨s, hs, hb⟩ := (Option.any_eq_true _ _).mp hrun
  obtain ⟨hlen, hall⟩ := of_decide_eq_true hb
  have hr := reaches_of_play hs
  exact ⟨s, hr, hlen, (shared_iff hr).mpr hall⟩

end Meridian.Feeds
