import Meridian.Core.Permits
import Meridian.Lib.BoundedQueue
import Meridian.Lib.Fair

/-!
# Does resume resume?

`reset` of the Q-Switch (`q_switch.py:91-97`) says that the bot "will resume normal operation on the
next tick", and the two resume endpoints (`routes.py:207-233`) report a success in every case. The
bot's loop, its stoppers, the pauses and the resumes of the API and the orchestrator's states
(`orchestrator.py:357-362`) run here on one queue; what comes of a call, whether there is a
connection, and the clock are up to the run.

`_emergency_stop`, `stop` and a failed `_try_reconnect` clear `_running`, which nothing but `start`
sets (`exchange_bot.py:118-134,428-445`).

Results:
* `resume_leaves_ended`: a run in which the heartbeat has failed and a resume leaves the loop ended;
* `ended_for_good`: whatever happens, a loop that is to end never starts another round;
* `resume_resumes`: in every run without these three, fair to the loop, each state that the queue
  takes after a resume is handed to `_tick`.
-/

namespace Meridian.Resume

open Coop ExchangeBot

/-- The queue of the bot, and what its calls come to. -/
structure Feed where
  queue : BoundedQueue GlobalState 5 := .empty
  /-- what the next call of each kind replies -/
  reply : (r : Req) → Except Exn (Rep r)
  /-- History: the states that the queue took, the oldest first -/
  put : List GlobalState := []
  /-- History: how many of these the bot has got -/
  got : ℕ := 0

/-- `q.put_nowait(state)`, nothing where the queue is full. -/
def Feed.offer (f : Feed) (state : GlobalState) : Feed :=
  if f.queue.full then f
  else { f with queue := f.queue.offer state, put := f.put ++ [state] }

/-- How a call is served. -/
def answer : Answer (Sys Feed) Rep Exn
  | .queue_get, s =>
    match s.env.queue.get_nowait with
    | some (state, queue) =>
      (.ok state, { s with env := { s.env with queue := queue, got := s.env.got + 1 } })
    | none => (.error .timeout, s)
  | r, s => (s.env.reply r, s)

/-- The tasks. -/
inductive Task where
  | loop
  /-- `_emergency_stop`, called by the heartbeat monitor -/
  | heartbeat (n : ℕ)
  /-- `ExchangeBot.stop` -/
  | shutdown (n : ℕ)
  /-- `Orchestrator.emergency_stop_all`, its part for this bot -/
  | api (n : ℕ)
  deriving DecidableEq

/-- What happens outside the tasks. -/
inductive Ev where
  /-- the orchestrator distributes a state -/
  | put (state : GlobalState)
  | pause
  | resume
  | reply (f : (r : Req) → Except Exn (Rep r))
  | connection (up : Bool)
  | clock (now : ℚ)

/-- `pause_all`, `pause_exchange`. -/
def pause_exchange (s : Sys Feed) : Sys Feed :=
  s.mapBot fun b => { b with q_switch := b.q_switch.trigger_manually s.clock "Paused via API" }

/-- `resume_all`, `resume_exchange`. -/
def resume_exchange (s : Sys Feed) : Sys Feed :=
  (ExchangeBot.reset s).mapBot fun b => { b with circuit_breaker := b.circuit_breaker.reset }

def Ev.apply : Ev → Sys Feed → Option (Sys Feed)
  | .put state, s => some { s with env := s.env.offer state }
  | .pause, s => some (pause_exchange s)
  | .resume, s => some (resume_exchange s)
  | .reply f, s => some { s with env := { s.env with reply := f } }
  | .connection up, s => some { s with connected := up }
  | .clock now, s => if s.clock ≤ now then some { s with clock := now } else none

/-- The body of a task. -/
def Task.body (quote : Quote Feed) (reason : String) : Task → Co Feed Unit
  | .loop => round quote
  | .heartbeat _ => emergency_stop
  | .shutdown _ => stop
  | .api _ => halt_bot reason

/-- Whether a task may start. -/
def Task.starts : Task → Sys Feed → Bool
  | .loop, s => s.bot.running
  | _, _ => true

/-- The tasks of one bot. -/
def tasks (quote : Quote Feed) (reason : String) : Threads (Sys Feed) Rep Exn Task Ev where
  answer := answer
  starts := Task.starts
  body := Task.body quote reason
  env := Ev.apply

abbrev State := Cfg (Sys Feed) Rep Exn Task

/-- A bot whose loop is about to begin. -/
def boot (s : Sys Feed) : State := ⟨s, fun _ => .rest, []⟩

/-! ## The property -/

/-- The rest of a round, on what comes of the wait for a state. -/
def round_from (quote : Quote Feed) (x : Except Exn GlobalState) : Co Feed Unit :=
  Prog.tryCatch
    (do
      let state ← Prog.ofReply x
      tick quote state
      Prog.modify fun s => s.mapBot fun b => { b with last_beat := s.clock })
    on_error

variable {quote : Quote Feed} {reason : String}

/-- What the queue takes at time `m` the loop gets later, and goes on to its `_tick`. -/
def Processed (t : (tasks quote reason).Trace) (m : ℕ) (state : GlobalState) : Prop :=
  ∃ l > m, t.act l = .serve .loop ∧
    (t.state l).shared.env.got = (t.state m).shared.env.put.length ∧
    (t.state (l + 1)).thread .loop = .ready (round_from quote (.ok state))

/-- After every resume the loop is still running, and what the queue then takes is processed. -/
def Resumes (t : (tasks quote reason).Trace) : Prop :=
  ∀ n, t.act n = .env .resume →
    (t.state (n + 1)).shared.bot.running = true ∧
      ∀ m > n, ∀ state, t.act m = .env (.put state) →
        (t.state m).shared.env.queue.full = false → Processed t m state

/-- The condition on a step: the heartbeat does not fail, the bot is not shut down, and a new
connection does not fail. -/
def Meets (x : State) : Act Task Ev → Prop
  | .start (.heartbeat _) | .start (.shutdown _) => False
  | .serve i => (x.thread i).pending = some .reconnect → x.shared.env.reply .reconnect = .ok ()
  | _ => True

/-! ## A loop that keeps running -/

/-- The calls, none of them a reconnect that fails. -/
def connecting : Answer (Sys Feed) Rep Exn
  | .reconnect, s => (.ok (), s)
  | r, s => answer r s

/-- `_running` stays set. -/
def Running (s s' : Sys Feed) : Prop := s.bot.running = true → s'.bot.running = true

/-- A thread that leaves `_running` and the queue alone. -/
def quiet : Rules (Sys Feed) Req where
  rely := Running
  own s s' := Running s s' ∧ s'.env = s.env
  guar s s' := s'.bot = s.bot ∧ s'.env = s.env
  may _ _ := True

/-- `_running` is set. -/
def Alive (s : Sys Feed) : Prop := s.bot.running = true

theorem quiet_closed : quiet.Closed Alive where
  refl _ := id
  trans h h' hr := h' (h hr)
  stable h hr := h hr

theorem connecting_quiet {r : Req} (hr : r ≠ .queue_get) (s : Sys Feed) :
    (connecting r s).2 = s := by
  cases r with
  | queue_get => exact absurd rfl hr
  | _ => rfl

theorem quiet_call {r : Req} (hr : r ≠ .queue_get) : Keeps connecting quiet Alive (ask r) :=
  Keeps.call (fun h hs => h hs) (fun _ _ => trivial) fun s hs => by
    rw [connecting_quiet hr]
    exact ⟨⟨rfl, rfl⟩, hs⟩

/-- Every call but the wait for a state. -/
def others : Req → Bool
  | .queue_get => false
  | _ => true

theorem quiet_others {r : Req} (hr : others r = true) : Keeps connecting quiet Alive (ask r) :=
  quiet_call fun h => by
    subst h
    cases hr

theorem others_of_ticking {r : Req} (hr : ticking r = true) : others r = true := by
  cases r with
  | queue_get => cases hr
  | _ => rfl

/-- A change that leaves `_running` and the queue alone. -/
theorem quiet_modify {f : Sys Feed → Sys Feed} (hrun : ∀ s, (f s).bot.running = s.bot.running)
    (henv : ∀ s, (f s).env = s.env) : Keeps connecting quiet Alive (Prog.modify f) :=
  Keeps.modify fun s hs => ⟨⟨fun hr => (hrun s).trans hr, henv s⟩, (hrun s).trans hs⟩

theorem quiet_fields : FieldPermits connecting quiet Alive others where
  call _ hr := quiet_others hr
  field _ _ hs _ hrun := ⟨⟨fun hr => hrun.trans hr, rfl⟩, hrun.trans hs⟩

theorem quiet_orders : OrderManager.Permits connecting quiet Alive others :=
  .of_any (fun _ hr => quiet_others hr) (fun r hr _ => by
    cases r with
    | queue_get => cases hr
    | _ => rfl) fun _ _ _ _ hs => ⟨⟨id, rfl⟩, hs⟩

theorem quiet_tick (state : GlobalState) : Keeps connecting quiet Alive (tick quote state) := by
  refine (quiet_fields.get_balance rfl rfl).bind fun balance => ?_
  split
  · exact Keeps.done ()
  · rename_i balance
    have hcheck : Keeps connecting quiet Alive (check_q_switch balance : Co Feed Bool) :=
      Keeps.read_bind fun s hs => ⟨⟨id, rfl⟩, hs⟩
    refine hcheck.bind fun halted => ?_
    split
    · exact Keeps.done ()
    · refine (quiet_fields.check_circuit_breaker state balance).bind fun tripped => ?_
      split
      · exact Keeps.done ()
      · refine Keeps.read_bind fun s hs => ?_
        refine ((quiet_orders.diff_and_repost (fun r hr => ?_) _).bind fun placed => ?_) s hs
        · cases r with
          | queue_get => cases hr
          | _ => rfl
        · refine quiet_fields.after_repost (fun s hs => ?_) (fun _ hr => others_of_ticking hr) state
            balance _ placed
          unfold set_open_orders
          split <;> exact ⟨⟨id, rfl⟩, hs⟩

theorem quiet_on_error (e : Exn) : Keeps connecting quiet Alive (on_error e : Co Feed Unit) := by
  have hreconnect : Keeps connecting quiet Alive (try_reconnect : Co Feed Unit) := by
    intro s hs
    rw [try_reconnect, wp_tryCatch]
    -- the reconnect does not fail, so the handler is not reached
    exact (wp_ask .reconnect).mpr ⟨trivial, fun s1 h1 => ⟨⟨rfl, rfl⟩, fun s2 h2 => h2 (h1 hs)⟩⟩
  cases e with
  | timeout => exact Keeps.done ()
  | connector | database | feed | key id =>
    refine Keeps.read_bind fun s hs => ?_
    split
    · exact hs
    · exact hreconnect s hs

/-- The rest of a round neither stops the loop nor asks for a further state. -/
theorem quiet_round_from (x : Except Exn GlobalState) :
    Keeps connecting quiet Alive (round_from quote x) := by
  refine Keeps.tryCatch ?_ quiet_on_error
  cases x with
  | error e => exact fun _ hs => hs
  | ok state =>
    exact (quiet_tick state).bind fun _ => quiet_modify (fun _ => rfl) fun _ => rfl

theorem quiet_halt_bot (reason : String) :
    Keeps connecting quiet Alive (halt_bot reason : Co Feed Unit) := by
  have hcancel : Keeps connecting quiet Alive (OrderManager.cancel_all : Co Feed Unit) :=
    OrderManager.keeps_cancel_all (fun r hr => quiet_call fun h => by simp [h] at hr)
      (fun _ => quiet_others rfl) fun _ hs => ⟨⟨id, rfl⟩, hs⟩
  refine Keeps.bind (Keeps.modify fun _ hs => ⟨⟨id, rfl⟩, hs⟩) fun _ => ?_
  exact hcancel.bind fun _ => Keeps.modify fun _ hs => ⟨⟨id, rfl⟩, hs⟩

/-! ## One step -/

/-- Where a task stands: it is the loop and waits for a state, or it leaves `_running` and the queue
alone. -/
def At (quote : Quote Feed) (i : Task) (t : Thread (Sys Feed) Rep Exn) (s : Sys Feed) : Prop :=
  (i = .loop ∧ t = .waiting .queue_get (round_from quote)) ∨ ThreadOk connecting quiet Alive t s

/-- The invariant of the runs that meet the condition: the loop is running, and no task stands where
it would stop it. -/
structure Sound (quote : Quote Feed) (x : State) : Prop where
  alive : Alive x.shared
  stands : ∀ i, At quote i (x.thread i) x.shared

/-- What a step does to the queue: only a state that is put and the loop's own get change it. -/
inductive Queued (quote : Quote Feed) (x : State) (a : Act Task Ev) (x' : State) : Prop
  | same (hf : x'.shared.env = x.shared.env)
  | reply (g : (r : Req) → Except Exn (Rep r)) (ha : a = .env (.reply g))
    (hf : x'.shared.env = { x.shared.env with reply := g })
  | put (state : GlobalState) (ha : a = .env (.put state))
    (hf : x'.shared.env = x.shared.env.offer state)
  | got (state : GlobalState) (queue : BoundedQueue GlobalState 5) (ha : a = .serve .loop)
    (hq : x.shared.env.queue.get_nowait = some (state, queue))
    (hf : x'.shared.env = { x.shared.env with queue := queue, got := x.shared.env.got + 1 })
    (hx : x'.thread .loop = .ready (round_from quote (.ok state)))

variable {x x' : State} {a : Act Task Ev}

theorem sound_boot {s : Sys Feed} (h : Alive s) : Sound quote (boot s) := ⟨h, fun _ => .inr h⟩

theorem At.of_running {i : Task} {t : Thread (Sys Feed) Rep Exn} {s s' : Sys Feed}
    (h : At quote i t s) (hr : Running s s') : At quote i t s' :=
  h.imp_right fun hok => hok.of_rely quiet_closed hr

/-- One task has moved, and the loop is still running. -/
theorem Sound.move (h : Sound quote x) {i : Task} {t : Thread (Sys Feed) Rep Exn} {s : Sys Feed}
    (ht : At quote i t s) (hr : Running x.shared s) : Sound quote (x.move i t s) where
  alive := hr h.alive
  stands j := by
    rw [Cfg.move_shared]
    by_cases hj : j = i
    · subst hj
      rwa [Cfg.move_thread_self]
    · rw [Cfg.move_thread_of_ne hj]
      exact (h.stands j).of_running hr

theorem own_star {s s' : Sys Feed} (h : Relation.ReflTransGen quiet.own s s') :
    Running s s' ∧ s'.env = s.env := by
  induction h with
  | refl => exact ⟨id, rfl⟩
  | tail _ hown ih => exact ⟨fun hr => hown.1 (ih.1 hr), hown.2.trans ih.2⟩

/-- A call is served as if no reconnect failed, where this one does not. -/
theorem answer_eq_connecting {r : Req} {s : Sys Feed}
    (h : r = .reconnect → s.env.reply .reconnect = .ok ()) : answer r s = connecting r s := by
  cases r with
  | reconnect => exact congrArg (Prod.mk · s) (h rfl)
  | _ => rfl

theorem running_apply {e : Ev} {s s' : Sys Feed} (h : e.apply s = some s') :
    s'.bot.running = s.bot.running := by
  cases e with
  | put state | pause | resume | reply f | connection up =>
    obtain rfl := Option.some.inj h
    rfl
  | clock now =>
    obtain ⟨-, ⟨⟩⟩ := Option.ite_none_right_eq_some.mp h
    rfl

theorem queued_apply {e : Ev} {s : Sys Feed} (h : e.apply x.shared = some s) :
    Queued quote x (.env e) { x with shared := s } := by
  cases e with
  | put state =>
    obtain rfl := Option.some.inj h
    exact .put state rfl rfl
  | reply f =>
    obtain rfl := Option.some.inj h
    exact .reply f rfl rfl
  | pause | resume | connection up =>
    obtain rfl := Option.some.inj h
    exact .same rfl
  | clock now =>
    obtain ⟨-, ⟨⟩⟩ := Option.ite_none_right_eq_some.mp h
    exact .same rfl

/-- The loop's wait for a state is served. -/
theorem sound_get (h : Sound quote x) :
    let y := answer .queue_get x.shared
    let x' := x.move .loop (.ready (round_from quote y.1)) y.2
    Sound quote x' ∧ Queued quote x (.serve .loop) x' := by
  simp only [answer]
  split
  · rename_i state queue hq
    refine ⟨h.move (.inr fun s hs => ?_) id, .got state queue rfl hq rfl Cfg.move_thread_self⟩
    exact quiet_round_from _ s (hs h.alive)
  · refine ⟨h.move (.inr fun s hs => ?_) id, .same rfl⟩
    exact quiet_round_from _ s (hs h.alive)

/-- **One step** that meets the condition leaves the loop running. -/
theorem sound_next (h : Sound quote x) (hm : Meets x a)
    (hn : (tasks quote reason).next x a = some x') : Sound quote x' ∧ Queued quote x a x' := by
  cases Threads.next_cases hn with
  | @start i ht hs =>
    cases i with
    | loop => exact ⟨h.move (.inl ⟨rfl, rfl⟩) id, .same rfl⟩
    | heartbeat n | shutdown n => exact absurd hm id
    | api n =>
      obtain ⟨hown, hok, -⟩ := settle_ok (quiet_halt_bot reason x.shared h.alive)
      obtain ⟨hr, henv⟩ := own_star hown
      exact ⟨h.move (.inr hok) hr, .same henv⟩
  | @serve i r k ht =>
    rcases h.stands i with ⟨rfl, hw⟩ | hok
    · cases ht.symm.trans hw
      exact sound_get h
    · rw [ht] at hok
      have hA : (tasks quote reason).answer r x.shared = connecting r x.shared :=
        answer_eq_connecting fun hr => hm (by rw [ht, Thread.pending, hr])
      obtain ⟨⟨hbot, henv⟩, hrest⟩ := hok x.shared id
      rw [hA]
      exact ⟨h.move (.inr hrest) fun hr => (congrArg _ hbot).trans hr, .same henv⟩
  | @resume i p ht =>
    rcases h.stands i with ⟨rfl, hw⟩ | hok
    · exact absurd (ht.symm.trans hw) (by simp)
    · rw [ht] at hok
      obtain ⟨hown, hok, -⟩ := settle_ok (hok x.shared id)
      obtain ⟨hr, henv⟩ := own_star hown
      exact ⟨h.move (.inr hok) hr, .same henv⟩
  | @env e s he =>
    have hr : Running x.shared s := (running_apply he).trans
    exact ⟨⟨hr h.alive, fun i => (h.stands i).of_running hr⟩, queued_apply he⟩

/-! ## The queue -/

/-- What the bot has not got is in the queue, in its order. -/
structure Feed.Fifo (f : Feed) : Prop where
  le : f.got ≤ f.put.length
  items : f.queue.items = f.put.drop f.got

theorem Feed.Fifo.offer {f : Feed} (h : f.Fifo) (state : GlobalState) : (f.offer state).Fifo := by
  unfold Feed.offer
  split
  · exact h
  · rename_i hfull
    refine ⟨?_, ?_⟩
    · rw [List.length_append]
      exact h.le.trans (Nat.le_add_right _ _)
    · simp only
      rw [BoundedQueue.items_offer_of_not_full (Bool.eq_false_iff.mpr hfull), h.items,
        List.drop_append_of_le_length h.le]

theorem Feed.Fifo.got {f : Feed} (h : f.Fifo) {state : GlobalState}
    {queue : BoundedQueue GlobalState 5} (hq : f.queue.get_nowait = some (state, queue)) :
    f.put[f.got]? = some state ∧ Feed.Fifo { f with queue := queue, got := f.got + 1 } := by
  have hitems : f.put.drop f.got = state :: queue.items :=
    h.items.symm.trans (BoundedQueue.get_nowait_eq_some hq)
  have hlt : f.got < f.put.length := by
    by_contra hle
    rw [List.drop_of_length_le (not_lt.mp hle)] at hitems
    cases hitems
  refine ⟨?_, hlt, ?_⟩
  · rw [← List.head?_drop, hitems]
    rfl
  · simp only
    rw [← List.tail_drop, hitems]
    rfl

theorem Queued.fifo (h : Queued quote x a x') (hx : x.shared.env.Fifo) : x'.shared.env.Fifo := by
  cases h with
  | same hf => exact hf ▸ hx
  | reply g ha hf => exact hf ▸ ⟨hx.le, hx.items⟩
  | put state ha hf => exact hf ▸ hx.offer state
  | got state queue ha hq hf hthread => exact hf ▸ (hx.got hq).2

theorem Queued.got_le (h : Queued quote x a x') : x.shared.env.got ≤ x'.shared.env.got := by
  cases h with
  | same hf | reply g ha hf => rw [hf]
  | put state ha hf =>
    rw [hf, Feed.offer]
    split <;> exact le_rfl
  | got state queue ha hq hf hthread =>
    rw [hf]
    exact Nat.le_succ _

theorem Queued.put_grows (h : Queued quote x a x') :
    x.shared.env.put <+: x'.shared.env.put := by
  cases h with
  | same hf | reply g ha hf | got state queue ha hq hf hthread => exact hf ▸ List.prefix_rfl
  | put state ha hf =>
    rw [hf, Feed.offer]
    split
    · exact List.prefix_rfl
    · exact List.prefix_append _ _

/-! ## Whole runs -/

section Trace

variable {t : (tasks quote reason).Trace} (hsound : ∀ n, Sound quote (t.state n))
  (hqueued : ∀ n, Queued quote (t.state n) (t.act n) (t.state (n + 1)))
  (hfifo : ∀ n, (t.state n).shared.env.Fifo)

include hqueued in
theorem got_mono {n m : ℕ} (h : n ≤ m) :
    (t.state n).shared.env.got ≤ (t.state m).shared.env.got :=
  Nat.le_induction le_rfl (fun m _ ih => ih.trans (hqueued m).got_le) m h

include hqueued in
theorem put_mono {n m : ℕ} (h : n ≤ m) :
    (t.state n).shared.env.put <+: (t.state m).shared.env.put :=
  Nat.le_induction List.prefix_rfl (fun m _ ih => ih.trans (hqueued m).put_grows) m h

include hsound hqueued hfifo

/-- While there is a state in the queue the loop comes back for one. -/
theorem gets_more (hfair : t.Fair .loop) {n : ℕ}
    (h : (t.state n).shared.env.got < (t.state n).shared.env.put.length) :
    ∃ m ≥ n, (t.state n).shared.env.got < (t.state m).shared.env.got := by
  have hen : ∀ n, (tasks quote reason).Enabled .loop (t.state n) := fun n _ => (hsound n).alive
  obtain ⟨m₁, hm₁, -, hwait⟩ := Threads.Trace.starts_again hfair hen n
  obtain ⟨m, hm, -, -, -, hshared⟩ := Threads.Trace.served_of_waiting hfair hen hwait
  have hnm : n ≤ m := by omega
  by_cases hgot : (t.state n).shared.env.got < (t.state m).shared.env.got
  · exact ⟨m, hnm, hgot⟩
  · -- nothing was got since, so the queue is not empty
    have heq := le_antisymm (not_lt.mp hgot) (got_mono hqueued hnm)
    have hlt : (t.state m).shared.env.got < (t.state m).shared.env.put.length :=
      heq ▸ h.trans_le (put_mono hqueued hnm).length_le
    obtain ⟨queue, hq, -⟩ := BoundedQueue.exists_get_nowait
      ((hfifo m).items.trans (List.drop_eq_getElem_cons hlt))
    refine ⟨m + 1, by omega, ?_⟩
    rw [hshared]
    show _ < (answer .queue_get (t.state m).shared).2.env.got
    simp only [answer, hq]
    omega

theorem gets_all (hfair : t.Fair .loop) {n : ℕ} : ∀ j < (t.state n).shared.env.put.length,
    ∃ m ≥ n, j < (t.state m).shared.env.got := by
  intro j
  induction j with
  | zero =>
    intro hj
    by_cases hgot : 0 < (t.state n).shared.env.got
    · exact ⟨n, le_rfl, hgot⟩
    · obtain ⟨m, hm, hlt⟩ := gets_more hsound hqueued hfifo hfair (n := n) (by omega)
      exact ⟨m, hm, by omega⟩
  | succ j ih =>
    intro hj
    obtain ⟨m, hm, hgot⟩ := ih (by omega)
    by_cases hmore : j + 1 < (t.state m).shared.env.got
    · exact ⟨m, hm, hmore⟩
    · have hput := (put_mono hqueued hm).length_le
      obtain ⟨m', hm', hlt⟩ := gets_more hsound hqueued hfifo hfair (n := m) (by omega)
      exact ⟨m', by omega, by omega⟩

/-- Every state that the queue takes is processed. -/
theorem processed (hfair : t.Fair .loop) {m : ℕ} {state : GlobalState}
    (hact : t.act m = .env (.put state)) (hroom : (t.state m).shared.env.queue.full = false) :
    Processed t m state := by
  have hput : (t.state (m + 1)).shared.env.put = (t.state m).shared.env.put ++ [state] := by
    have hstep := t.step m
    rw [hact] at hstep
    generalize t.state (m + 1) = y at hstep
    cases Threads.next_cases hstep with
    | env he =>
      obtain rfl := Option.some.inj he
      show ((t.state m).shared.env.offer state).put = _
      rw [Feed.offer, hroom]
      rfl
  have hlast : (t.state m).shared.env.put.length < (t.state (m + 1)).shared.env.put.length := by
    rw [hput, List.length_append]
    exact Nat.lt_succ_self _
  obtain ⟨l', hl', hmore⟩ := gets_all hsound hqueued hfifo hfair _ hlast
  -- at the step when the bot has got one more than were put before, it gets this one
  obtain ⟨l, hl, hle, hlt⟩ := Threads.exists_crossing
    (f := fun l => (t.state l).shared.env.got) (hfifo m).le (Nat.le_of_succ_le hl') hmore
  cases hqueued l with
  | same hf | reply g ha hf =>
    simp only [hf] at hlt
    exact absurd hlt (not_lt.mpr hle)
  | put state' ha hf =>
    refine absurd hlt (not_lt.mpr ?_)
    simp only [hf, Feed.offer]
    split <;> exact hle
  | got state' queue ha hq hf hthread =>
    have hgot : (t.state l).shared.env.got = (t.state m).shared.env.put.length := by
      simp only [hf] at hlt
      omega
    have hml : m < l := by
      refine lt_of_le_of_ne hl fun h => ?_
      subst h
      cases hact.symm.trans ha
    have hstate : state' = state := by
      obtain ⟨r, hr⟩ := hput ▸ put_mono hqueued hml
      have hget := ((hfifo l).got hq).1
      rw [hgot, ← hr] at hget
      simpa using hget.symm
    exact ⟨l, hml, ha, hgot, hstate ▸ hthread⟩

end Trace

theorem trace_sound {s : Sys Feed} {t : (tasks quote reason).Trace} (h0 : t.state 0 = boot s)
    (hrun : s.bot.running = true) (hmeets : ∀ n, Meets (t.state n) (t.act n)) :
    ∀ n, Sound quote (t.state n) := by
  intro n
  induction n with
  | zero => exact h0 ▸ sound_boot hrun
  | succ n ih => exact (sound_next ih (hmeets n) (t.step n)).1

theorem trace_fifo {s : Sys Feed} {t : (tasks quote reason).Trace} (h0 : t.state 0 = boot s)
    (hfifo : s.env.Fifo)
    (hqueued : ∀ n, Queued quote (t.state n) (t.act n) (t.state (n + 1))) :
    ∀ n, (t.state n).shared.env.Fifo := by
  intro n
  induction n with
  | zero => exact h0 ▸ hfifo
  | succ n ih => exact (hqueued n).fifo ih

/-- **Resume resumes** in every fair run in which the heartbeat does not fail, the bot is not shut
down and no reconnect fails: after every `resume` the loop still runs, and a state that the queue
takes then is processed. Each of the three ends the loop, which nothing starts again. -/
theorem resume_resumes (quote : Quote Feed) (reason : String) (s : Sys Feed)
    (hrun : s.bot.running = true) (hfifo : s.env.Fifo) (t : (tasks quote reason).Trace)
    (h0 : t.state 0 = boot s) (hfair : t.Fair .loop)
    (hmeets : ∀ n, Meets (t.state n) (t.act n)) : Resumes t := by
  have hsound := trace_sound h0 hrun hmeets
  have hqueued : ∀ n, Queued quote (t.state n) (t.act n) (t.state (n + 1)) := fun n =>
    (sound_next (hsound n) (hmeets n) (t.step n)).2
  intro n _
  refine ⟨(hsound (n + 1)).alive, fun m _ state hact hroom => ?_⟩
  exact processed hsound hqueued (trace_fifo h0 hfifo hqueued) hfair hact hroom

/-! ## A loop that is to end -/

/-- `_running` stays cleared. -/
def Ended (s s' : Sys Feed) : Prop := s.bot.running = false → s'.bot.running = false

/-- No thread sets `_running`. -/
def ending : Rules (Sys Feed) Req where
  rely := Ended
  own := Ended
  guar := Ended
  may _ _ := True

theorem ended_answer (r : Req) (s : Sys Feed) : Ended s (answer r s).2 := by
  cases r with
  | queue_get =>
    simp only [answer]
    split <;> exact id
  | _ => exact id

theorem ending_call (r : Req) : Keeps answer ending (fun _ => True) (ask r) :=
  Keeps.call (fun _ _ => trivial) (fun _ _ => trivial) fun s _ => ⟨ended_answer r s, trivial⟩

theorem ending_permits : Permits answer ending (fun _ => True) fun _ => true where
  toPermits := .of_any (fun r _ => ending_call r) (fun _ _ _ => rfl) fun _ _ _ _ _ => ⟨id, trivial⟩
  bot _ _ _ h := ⟨h.2, trivial⟩
  listing s _ := by
    unfold set_open_orders
    split <;> exact ⟨id, trivial⟩
  trigger _ _ _ h _ := ⟨h.2, trivial⟩
  returned _ _ := ⟨id, trivial⟩

theorem ending_body (i : Task) : Keeps answer ending (fun _ => True) (i.body quote reason) := by
  have hok : ∀ (f : Req → Bool) (r : Req), f r = true → true = true := fun _ _ _ => rfl
  cases i with
  | loop => exact ending_permits.round (hok _) quote
  | heartbeat n => exact ending_permits.emergency_stop (hok _)
  | shutdown n => exact ending_permits.stop (hok _)
  | api n => exact ending_permits.halt_bot (hok _) reason

theorem ended_star {s s' : Sys Feed} (h : Relation.ReflTransGen Ended s s') : Ended s s' := by
  induction h with
  | refl => exact id
  | tail _ hown ih => exact fun hr => hown (ih hr)

/-- No step sets `_running`. -/
theorem ended_next (hx : AllOk answer (fun _ => ending) (fun _ _ => True) x)
    (hn : (tasks quote reason).next x a = some x') :
    AllOk answer (fun _ => ending) (fun _ _ => True) x' ∧ Ended x.shared x'.shared := by
  have hended : a.Guaranteed (fun _ => ending) x.shared x'.shared → Ended x.shared x'.shared := by
    intro hguar
    cases a with
    | start i | resume i => exact ended_star hguar
    | serve i => exact hguar
    | env e =>
      cases Threads.next_cases hn with
      | env he => exact (running_apply he).trans
  have hclosed : ending.Closed fun _ => True :=
    ⟨fun _ => id, fun h h' he => h' (h he), fun _ _ => trivial⟩
  obtain ⟨hx', hguar, -⟩ := AllOk.next (T := tasks quote reason) hx (fun _ => hclosed)
    (fun i _ _ => ending_body i _ trivial) (fun hguar _ _ => hended hguar) hn
  exact ⟨hx', hended hguar⟩

/-- **A loop that is to end** does so: nothing starts another round. -/
theorem ended_for_good {s : Sys Feed} {t : (tasks quote reason).Trace} (h0 : t.state 0 = boot s)
    {n : ℕ} (hn : (t.state n).shared.bot.running = false) {m : ℕ} (hm : n ≤ m) :
    (t.state m).shared.bot.running = false ∧ t.act m ≠ .start .loop := by
  have hall : ∀ m, AllOk answer (fun _ => ending) (fun _ _ => True) (t.state m) := by
    intro m
    induction m with
    | zero => exact h0 ▸ fun _ => trivial
    | succ m ih => exact (ended_next ih (t.step m)).1
  have hended : (t.state m).shared.bot.running = false :=
    Nat.le_induction hn (fun m _ ih => (ended_next (hall m) (t.step m)).2 ih) m hm
  refine ⟨hended, fun hact => ?_⟩
  have hstep := t.step m
  rw [hact] at hstep
  generalize t.state (m + 1) = y at hstep
  cases Threads.next_cases hstep with
  | start _ hs => exact Bool.false_ne_true (hended.symm.trans hs)

/-! ## Concrete runs -/

/-- A state of the market. -/
def market : GlobalState := ⟨1, 0, 0, "", "", 0⟩

/-- An empty grid. -/
def bare : Quote Feed := fun _ _ _ => ⟨[], [], [], [], 1, 0⟩

/-- The balance cannot be fetched, and everything else succeeds that the loop may ask for. -/
def replies : (r : Req) → Except Exn (Rep r)
  | .reconnect | .emit_emergency_stop .. => .ok ()
  | _ => .error .connector

/-- A dry-running bot with nothing in its queue. -/
def idle : Sys Feed where
  om := { exchange := "kucoin", symbol := "ALKIMI/USDT", dry_run := true }
  bot :=
    { exchange := "kucoin"
      q_switch := { exchange := "kucoin", min_balance_usd := 0, min_balance_token := 0 }
      circuit_breaker := { max_daily_loss_pct := 10, max_drawdown_pct := 10, day_start := 0 }
      has_paper_trader := false
      running := true }
  paper := { exchange := "kucoin", maker_fee_rate := 0 }
  clock := 0
  uuid4 _ := ""
  env := { reply := replies }

theorem idle_fifo : idle.env.Fifo := ⟨Nat.zero_le _, rfl⟩

/-- A pause, a resume and a state. -/
def pausing : List (Act Task Ev) := [.env .pause, .env .resume, .env (.put market)]

/-- From a sound state the loop may go on alone, with no reconnect that fails. -/
theorem exists_looping (quote : Quote Feed) (reason : String) {x : State} (hx : Sound quote x)
    (hreply : x.shared.env.reply .reconnect = .ok ()) :
    ∃ t : (tasks quote reason).Trace, t.state 0 = x ∧ (∀ n, (t.act n).thread = some .loop) ∧
      ∀ n, Meets (t.state n) (t.act n) := by
  have hmeets : ∀ (x : State) (a : Act Task Ev), x.shared.env.reply .reconnect = .ok () →
      a.thread = some .loop → Meets x a := by
    intro x a hreply ha
    cases a with
    | start i =>
      obtain rfl := Option.some.inj ha
      trivial
    | serve i => exact fun _ => hreply
    | resume i => trivial
    | env e => cases ha
  obtain ⟨t, h0, hI, hloop⟩ := Threads.Trace.exists_alone (T := tasks quote reason) (i := .loop)
    (I := fun x => Sound quote x ∧ x.shared.env.reply .reconnect = .ok ()) ⟨hx, hreply⟩
    (fun c hc _ => hc.1.alive) fun c a c' hc ha hn => by
      obtain ⟨hsound, hqueued⟩ := sound_next hc.1 (hmeets c a hc.2 ha) hn
      refine ⟨hsound, ?_⟩
      cases hqueued with
      | same hf | got state queue _ hq hf hthread => exact hf ▸ hc.2
      | reply g hact hf | put state hact hf => cases hact ▸ ha
  exact ⟨t, h0, hloop, fun n => hmeets _ _ (hI n).2 (hloop n)⟩

/-- The bot is paused and resumed, and goes on. -/
theorem resume_resumes_paused : ∃ t : (tasks bare "").Trace,
    t.act 1 = .env .resume ∧ t.act 2 = .env (.put market) ∧ Resumes t := by
  let x : State := boot { resume_exchange (pause_exchange idle) with env := idle.env.offer market }
  have hx : Sound bare x := ⟨rfl, fun _ => .inr rfl⟩
  obtain ⟨t, h0, hloop, hmeets⟩ := exists_looping bare "" hx rfl
  have hplay : Run.play (tasks bare "").next (fun _ _ => True) (boot idle) pausing =
      some (t.state 0) := h0 ▸ rfl
  obtain ⟨u, hstate, hact, hrest⟩ := t.exists_prepend hplay
  refine ⟨u, hact 1 _ rfl, hact 2 _ rfl, ?_⟩
  refine resume_resumes bare "" idle rfl idle_fifo u ?_ (fun n => ?_) fun n => ?_
  · exact (Option.some.inj (hstate 0 (Nat.zero_le _))).symm
  · exact ⟨n + pausing.length, Nat.le_add_right _ _, .inl ((hrest n).2 ▸ hloop n)⟩
  · rcases n.lt_or_ge pausing.length with hn | hn
    · -- none of the three steps is a task's
      obtain ⟨e, he⟩ : ∃ e, pausing[n] = .env e := by
        have hall : ∀ a ∈ pausing, ∃ e, a = Act.env e := by simp [pausing]
        exact hall _ (List.getElem_mem hn)
      rw [hact n _ (List.getElem?_eq_getElem hn), he]
      trivial
    · obtain ⟨k, rfl⟩ := Nat.exists_eq_add_of_le' hn
      rw [(hrest k).1, (hrest k).2]
      exact hmeets k

/-- The heartbeat fails while the loop waits for a state, the wait runs out and the loop ends; then a
resume and a state. -/
def failing : List (Act Task Ev) :=
  [.start .loop, .start (.heartbeat 0), .serve (.heartbeat 0), .resume (.heartbeat 0), .serve .loop,
    .resume .loop, .env .resume, .env (.put market)]

/-- **The resume leaves the loop ended**: nobody takes the state out of the queue. -/
theorem resume_leaves_ended :
    ¬∀ (quote : Quote Feed) (reason : String) (s : Sys Feed), s.bot.running = true →
      s.env.Fifo → ∀ t : (tasks quote reason).Trace, t.state 0 = boot s → t.Fair .loop →
        Resumes t := by
  intro h
  have hplay : ((Run.play (tasks bare "").next (fun _ _ => True) (boot idle) failing).any
      fun x => (x.thread .loop).atRest && !x.shared.bot.running) = true := by decide +kernel
  have hroom : ((Run.play (tasks bare "").next (fun _ _ => True) (boot idle) (failing.take 7)).any
      fun x => !x.shared.env.queue.full) = true := by decide +kernel
  obtain ⟨x, hx, hp⟩ := (Option.any_eq_true _ _).mp hplay
  obtain ⟨hrest, hended⟩ := Bool.and_eq_true_iff.mp hp
  -- from here on only time passes
  let t : (tasks bare "").Trace := .stay x (.env (.clock x.shared.clock)) (by
    show ((Ev.clock x.shared.clock).apply x.shared).map _ = some x
    rw [Ev.apply, if_pos le_rfl]
    rfl)
  obtain ⟨u, hstate, hact, hafter⟩ := t.exists_prepend hx
  have hfair : u.Fair .loop := fun n => by
    refine ⟨n + failing.length, Nat.le_add_right _ _, .inr fun hen => ?_⟩
    rw [(hafter n).1] at hen
    have hrun : x.shared.bot.running = true := hen (Thread.eq_rest hrest)
    rw [hrun] at hended
    cases hended
  have h0 : u.state 0 = boot idle := (Option.some.inj (hstate 0 (Nat.zero_le _))).symm
  rw [hstate 7 (by decide)] at hroom
  obtain ⟨l, hl, hserve, -⟩ := (h bare "" idle rfl idle_fifo u h0 hfair 6 (hact 6 _ rfl)).2 7
    (by decide) market (hact 7 _ rfl) (by simpa using hroom)
  obtain ⟨k, rfl⟩ : ∃ k, l = k + failing.length := Nat.exists_eq_add_of_le' hl
  cases (hafter k).2.symm.trans hserve

end Meridian.Resume
