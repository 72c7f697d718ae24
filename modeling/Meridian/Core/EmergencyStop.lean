import Meridian.Core.Permits
import Meridian.Core.Tasks

/-!
# Is an emergency stop final?

Once a stopper's `cancel_all` has returned and until the Q-Switch is reset, the bot is to create no
order and to have none on the exchange. The tick consults the Q-Switch once, at its start, so the
loop may still be on its way to a `create_limit_order` when the exchange serves the stopper's
`cancel_all_orders`.

Results:
* `emergency_stop_final`: in every run in which the loop is on its way to no `create_limit_order`
  whenever a stopper's `cancel_all_orders` is served, the stop is final;
* `stop_overtaken`: a run in which it is not;
* `createsNothing_rest`, `createsNothing_of_triggered`: a loop at rest, or waiting for its state
  with the Q-Switch fired, is on its way to none.
-/

namespace Meridian.EmergencyStop

open Coop ExchangeBot

/-! ## The property -/

/-- No order that the bot has placed is live. -/
def NoneLive (v : Venue) : Prop := ∀ o ∈ v.live, o.id ∉ v.placed

/-- The stop is final: since a `cancel_all` has returned no order was created, and none of the bot's
orders is live. -/
def Final (x : State) : Prop :=
  (∀ y ∈ x.sent, y.2.halt.halted = true → OrderManager.creates y.1 = false) ∧
    (x.shared.halt.halted = true → NoneLive x.shared.env)

/-! ## What every task does -/

/-- The history is sound: a halt has stopped the bot, the exchange was cleared for a halt, and a
`cancel_all` has returned after that. -/
structure Sound (s : Sys Venue) : Prop where
  halting : s.halt.halting = true → Stopped s.bot
  cleared : s.halt.cleared = true → s.halt.halting = true
  halted : s.halt.halted = true → s.halt.cleared = true

/-- What a task does by itself, between two calls: it leaves the exchange alone, and neither resets
the switch nor starts the loop again. -/
structure Own (s s' : Sys Venue) : Prop where
  env : s'.env = s.env
  cleared : s'.halt.cleared = s.halt.cleared
  lasting : Lasting s.bot s'.bot
  sound : Sound s → Sound s'

/-- What serving a call that creates no order does: where none of the bot's orders is live, none is
live after it. -/
structure Calm (s s' : Sys Venue) : Prop where
  lasting : Lasting s.bot s'.bot
  none_live : NoneLive s.env → NoneLive s'.env

/-- The rules of a task. The loop, unless `calm`, may create orders; a calm loop relies on the stop
lasting. -/
def rules (calm : Bool) : Task → Rules (Sys Venue) Req
  | .loop =>
    { rely := fun s s' => calm = true → Lasting s.bot s'.bot
      own := Own
      guar := fun s s' => Lasting s.bot s'.bot ∧ (calm = true → Calm s s')
      may := fun r _ => calm = true → OrderManager.creates r = false }
  | _ =>
    { rely := fun _ _ => True
      own := Own
      guar := Calm
      may := fun r _ => OrderManager.creates r = false }

/-- The loop is on its way to no `create_limit_order`: whatever it is replied and whatever the others
do short of a reset, it sends none and makes no order live. -/
def CreatesNothing (w : World) (t : Thread (Sys Venue) Rep Exn) (s : Sys Venue) : Prop :=
  ThreadOk w.answer (rules true .loop) (fun _ => True) t s

/-- The condition on a step: when the exchange serves the `cancel_all_orders` of a halt, the loop is on
its way to no `create_limit_order`. -/
def Clear (w : World) (x : State) : Act Task Ev → Prop
  | .serve i => (x.thread i).pending = some .cancel_all_orders → x.shared.halt.halting = true →
      CreatesNothing w (x.thread .loop) x.shared
  | _ => True

theorem lasting_refl (b : ExchangeBot) : Lasting b b := ⟨id, id⟩

theorem lasting_trans {b b' b'' : ExchangeBot} (h : Lasting b b') (h' : Lasting b' b'') :
    Lasting b b'' := ⟨fun ht => h'.1 (h.1 ht), fun hr => h'.2 (h.2 hr)⟩

theorem stopped_of_lasting {b b' : ExchangeBot} (h : Lasting b b') (hs : Stopped b) : Stopped b' :=
  hs.imp h.1 h.2

theorem Own.trans {s s' s'' : Sys Venue} (h : Own s s') (h' : Own s' s'') : Own s s'' where
  env := h'.env.trans h.env
  cleared := h'.cleared.trans h.cleared
  lasting := lasting_trans h.lasting h'.lasting
  sound hs := h'.sound (h.sound hs)

theorem Own.refl (s : Sys Venue) : Own s s := ⟨rfl, rfl, lasting_refl _, id⟩

theorem Own.chain {s s' : Sys Venue} (h : Relation.ReflTransGen Own s s') : Own s s' := by
  induction h with
  | refl => exact Own.refl s
  | tail _ h ih => exact ih.trans h

theorem closed (calm : Bool) (i : Task) : (rules calm i).Closed fun _ => True := by
  cases i with
  | loop =>
    exact ⟨fun _ _ => lasting_refl _, fun h h' hc => lasting_trans (h hc) (h' hc), fun _ => id⟩
  | _ => exact ⟨fun _ => trivial, fun _ _ => trivial, fun _ => id⟩

theorem own_eq (calm : Bool) (i : Task) : (rules calm i).own = Own := by cases i <;> rfl

/-! ## Serving a call -/

variable {w : World} {s : Sys Venue} {r : Req}

/-- A call that creates nothing makes nothing live. -/
theorem answer_noneLive (hr : OrderManager.creates r = false) (h : NoneLive s.env) :
    NoneLive (w.answer r s).2.env := by
  unfold World.answer
  split
  · exact h
  · cases r <;> first | exact h | skip
    · exact absurd hr (by simp [OrderManager.creates])
    · exact fun o ho => h o (Keyed.mem_erase.mp ho).1
    · exact fun o ho => absurd ho Keyed.not_mem_empty

theorem calm_answer (hr : OrderManager.creates r = false) : Calm s (w.answer r s).2 :=
  ⟨by rw [World.answer_bot]; exact lasting_refl _, answer_noneLive hr⟩

/-- The exchange is cleared by a `cancel_all_orders` only. -/
theorem answer_cleared (h : (w.answer r s).2.halt.cleared = true) : s.halt.cleared = true ∨
    r = .cancel_all_orders ∧ s.halt.halting = true ∧ NoneLive (w.answer r s).2.env := by
  by_cases hr : r = .cancel_all_orders
  · subst hr
    unfold World.answer at h ⊢
    split at h
    · exact .inl h
    · refine .inr ⟨rfl, h, fun o ho => absurd ho Keyed.not_mem_empty⟩
  · rw [World.answer_halt w r s hr] at h
    exact .inl h

theorem answer_sound (h : Sound s) : Sound (w.answer r s).2 := by
  by_cases hr : r = .cancel_all_orders
  · subst hr
    unfold World.answer
    split
    · exact ⟨h.halting, h.cleared, h.halted⟩
    · exact ⟨h.halting, fun hc => hc, fun hh => h.cleared (h.halted hh)⟩
  · have hhalt := World.answer_halt w r s hr
    have hbot := World.answer_bot w r s
    exact ⟨by rw [hhalt, hbot]; exact h.halting, by rw [hhalt]; exact h.cleared,
      by rw [hhalt]; exact h.halted⟩

/-! ## Every task keeps to its rules -/

variable {c : Rules (Sys Venue) Req} {I : Sys Venue → Prop} {ok : Req → Bool}

/-- Rules under which a task may do all that `Own` allows. -/
theorem permits (hcall : ∀ r, ok r = true → Keeps w.answer c I (ask r))
    (hok : ∀ r, OrderManager.placing r = true → OrderManager.creates r = false → ok r = true)
    (hown : c.own = Own) (hI : ∀ {s s'}, Lasting s.bot s'.bot → I s → I s') :
    ExchangeBot.Permits w.answer c I ok where
  toPermits := .of_any hcall hok fun s _ _ _ hs =>
    ⟨hown ▸ ⟨rfl, rfl, lasting_refl _, fun h => ⟨h.halting, h.cleared, h.halted⟩⟩,
      hI (lasting_refl s.bot) hs⟩
  bot s b hs hb := ⟨hown ▸ ⟨rfl, rfl, hb, fun h =>
    ⟨fun hh => stopped_of_lasting hb (h.halting hh), h.cleared, h.halted⟩⟩, hI hb hs⟩
  listing s hs := by
    unfold set_open_orders
    split
    · exact ⟨hown ▸ ⟨rfl, rfl, lasting_refl _, fun h => ⟨h.halting, h.cleared, h.halted⟩⟩,
        hI (lasting_refl s.bot) hs⟩
    · exact ⟨hown ▸ Own.refl s, hs⟩
  trigger s b hs hb hstop := ⟨hown ▸ ⟨rfl, rfl, hb, fun h =>
    ⟨fun _ => hstop, fun _ => rfl, h.halted⟩⟩, hI hb hs⟩
  returned s hs := ⟨hown ▸ ⟨rfl, rfl, lasting_refl _, fun h =>
    ⟨h.halting, h.cleared, fun hh => hh⟩⟩, hI (lasting_refl s.bot) hs⟩

/-- The paper trader's loop, for rules that allow any change of the paper trader. -/
theorem poller_keeps (hcall : ∀ r, OrderManager.creates r = false → Keeps w.answer c I (ask r))
    (hpaper : ∀ f, Allowed c I (Sys.mapPaper f)) : Keeps w.answer c I PaperTrader.round := by
  refine Keeps.bind (Keeps.tryCatch ?_ fun _ => Keeps.done ()) fun _ => hcall _ rfl
  refine (hcall .watch_order_book rfl).bind fun book => ?_
  cases book with
  | none => exact Keeps.done ()
  | some book =>
    refine Keeps.read_bind fun s hs => ?_
    split
    · exact hs
    · refine Keeps.read_bind (fun s hs => ?_) s hs
      refine ((Keeps.modify (hpaper _)).bind fun _ => Keeps.forEach fun f _ => ?_) s hs
      refine Keeps.bind (Keeps.read_bind fun s hs => ?_) fun _ => Keeps.bind ?_ fun _ =>
        Keeps.modify (hpaper _)
      · exact Keeps.tryCatch (hcall _ rfl) (fun _ => Keeps.done ()) s hs
      · exact (Keeps.modify (hpaper _)).bind fun _ =>
          Keeps.tryCatch (hcall _ rfl) fun _ => Keeps.done ()

/-- A task that creates nothing. -/
theorem quiet_keeps {calm : Bool} {i : Task} (hi : i ≠ .loop) (quote : Quote Venue)
    (reason : String) :
    Keeps w.answer (rules calm i) (fun _ => True) (i.body quote reason) := by
  have hcall : ∀ r, OrderManager.creates r = false →
      Keeps w.answer (rules calm i) (fun _ => True) (ask r) := fun r hr => by
    refine Keeps.call (fun _ h => h) (fun s _ => ?_) fun s _ => ⟨?_, trivial⟩
    · cases i <;> first | exact absurd rfl hi | exact hr
    · cases i <;> first | exact absurd rfl hi | exact calm_answer hr
  have hpermits : ExchangeBot.Permits w.answer (rules calm i) (fun _ => True)
      (fun r => !OrderManager.creates r) :=
    permits (fun r hr => hcall r (by simpa using hr)) (fun r _ hr => by simpa using hr)
      (own_eq calm i) fun _ h => h
  have hstopping : ∀ r, stopping r = true → (!OrderManager.creates r) = true := fun r hr => by
    cases r <;> first | rfl | exact absurd hr (by simp [stopping])
  have hpaper : ∀ f, Allowed (rules calm i) (fun _ => True) (Sys.mapPaper f) := fun f s _ =>
    ⟨by rw [own_eq]; exact ⟨rfl, rfl, lasting_refl _, fun h => ⟨h.halting, h.cleared, h.halted⟩⟩,
      trivial⟩
  cases i with
  | loop => exact absurd rfl hi
  | heartbeat n => exact hpermits.emergency_stop hstopping
  | shutdown n => exact hpermits.stop hstopping
  | api n => exact hpermits.halt_bot hstopping reason
  | poller => exact poller_keeps hcall hpaper
  | poller_stop n => exact (Keeps.modify (hpaper _)).bind fun _ => hcall _ rfl

/-- A round of the loop, which may create orders. -/
theorem round_keeps (quote : Quote Venue) :
    Keeps w.answer (rules false .loop) (fun _ => True) (round quote) := by
  have hpermits : ExchangeBot.Permits w.answer (rules false .loop) (fun _ => True)
      (fun _ => true) :=
    permits (fun r _ => Keeps.call (fun _ h => h) (fun _ _ h => absurd h (by simp)) fun s _ =>
      ⟨⟨by rw [World.answer_bot]; exact lasting_refl _, fun h => absurd h (by simp)⟩, trivial⟩)
      (fun _ _ _ => rfl) rfl fun _ h => h
  exact hpermits.round (fun _ _ => rfl) quote

/-- A round of the loop once the Q-Switch has fired. -/
theorem round_calm (quote : Quote Venue) : Keeps w.answer (rules true .loop)
    (fun s => s.bot.q_switch.triggered = true) (round quote) := by
  have hpermits : ExchangeBot.Permits w.answer (rules true .loop)
      (fun s => s.bot.q_switch.triggered = true) (fun r => !OrderManager.creates r) := by
    refine permits (fun r hr => ?_) (fun r _ hr => by simpa using hr) rfl fun h => h.1
    have hr' : OrderManager.creates r = false := by simpa using hr
    refine Keeps.call (fun h => (h rfl).1) (fun _ _ _ => hr') fun s hs => ⟨⟨?_, fun _ => ?_⟩, ?_⟩
    · rw [World.answer_bot]
      exact lasting_refl _
    · exact calm_answer hr'
    · rwa [World.answer_bot]
  refine hpermits.round_of_triggered (fun _ h => h) (fun r hr => ?_) quote
  simp only [List.mem_cons, List.not_mem_nil, or_false] at hr
  rcases hr with rfl | rfl | rfl | rfl <;> rfl

/-- What a task runs when it starts keeps to the task's rules. -/
theorem body_ok {calm : Bool} {quote : Quote Venue} {reason : String}
    (hcalm : calm = true → Stopped s.bot) (i : Task) (hs : i.starts s = true) :
    wp w.answer (rules calm i) (fun _ _ => True) (i.body quote reason) s := by
  by_cases hi : i = .loop
  · subst hi
    cases calm with
    | false => exact round_keeps quote s trivial
    | true =>
      have htrig : s.bot.q_switch.triggered = true := by
        rcases hcalm rfl with h | h
        · exact h
        · exact absurd (hs.symm.trans h) (by simp)
      exact wp_mono (fun _ _ _ => trivial) (round_calm quote s htrig)
  · exact quiet_keeps hi quote reason s trivial

/-! ## The invariant -/

/-- What holds in every state reached. Once the exchange is cleared for a halt, the loop is calm. -/
structure Inv (w : World) (x : State) : Prop where
  sound : Sound x.shared
  tasks : AllOk w.answer (rules false) (fun _ _ => True) x
  calm : x.shared.halt.cleared = true →
    AllOk w.answer (rules true) (fun _ _ => True) x ∧ NoneLive x.shared.env
  sent : ∀ y ∈ x.sent, y.2.halt.halted = true → OrderManager.creates y.1 = false

variable {quote : Quote Venue} {reason : String} {x x' : State} {a : Act Task Ev}

/-- Only the loop's rules depend on whether it is calm. -/
theorem allOk_calm (h : AllOk w.answer (rules false) (fun _ _ => True) x)
    (hloop : CreatesNothing w (x.thread .loop) x.shared) :
    AllOk w.answer (rules true) (fun _ _ => True) x := fun i => by
  cases i with
  | loop => exact hloop
  | heartbeat n => exact h (.heartbeat n)
  | shutdown n => exact h (.shutdown n)
  | api n => exact h (.api n)
  | poller => exact h .poller
  | poller_stop n => exact h (.poller_stop n)

/-- One step of calm tasks that does not undo the stop. -/
theorem calm_next (hn : (tasks w quote reason).next x a = some x')
    (h : AllOk w.answer (rules true) (fun _ _ => True) x)
    (hstop : Stopped x.shared.bot) (hlast : Lasting x.shared.bot x'.shared.bot) :
    AllOk w.answer (rules true) (fun _ _ => True) x' ∧
      a.Guaranteed (rules true) x.shared x'.shared ∧
      ∀ y ∈ x'.sent, y ∈ x.sent ∨ y.2 = x'.shared ∧ OrderManager.creates y.1 = false := by
  obtain ⟨hok, hg, hsent⟩ := AllOk.next (T := tasks w quote reason) h (closed true)
    (fun i _ hs => body_ok (fun _ => hstop) i hs)
    (fun _ j _ => by
      cases j with
      | loop => exact fun _ => hlast
      | _ => trivial) hn
  refine ⟨hok, hg, fun y hy => (hsent y hy).imp_right fun ⟨hs, i, _, hmay⟩ => ⟨hs, ?_⟩⟩
  cases i with
  | loop => exact hmay rfl
  | _ => exact hmay

/-- A task runs by itself, from its start or from where it resumes. -/
theorem inv_own (hI : Inv w x) (hown : Own x.shared x'.shared)
    (hn : (tasks w quote reason).next x a = some x')
    (htasks : AllOk w.answer (rules false) (fun _ _ => True) x')
    (hsent : ∀ y ∈ x'.sent, y ∈ x.sent ∨ y.2 = x'.shared) : Inv w x' := by
  have hsound := hown.sound hI.sound
  have hcalm : x.shared.halt.cleared = true → _ := fun hc =>
    calm_next hn (hI.calm hc).1 (hI.sound.halting (hI.sound.cleared hc)) hown.lasting
  refine ⟨hsound, htasks, fun hc => ?_, fun y hy hh => ?_⟩
  · rw [hown.cleared] at hc
    exact ⟨(hcalm hc).1, by rw [hown.env]; exact (hI.calm hc).2⟩
  · rcases hsent y hy with hy' | hs
    · exact hI.sent y hy' hh
    · have hc : x.shared.halt.cleared = true := by
        rw [← hown.cleared]
        exact hsound.halted (hs ▸ hh)
      rcases (hcalm hc).2.2 y hy with hy' | ⟨-, hcr⟩
      · exact hI.sent y hy' hh
      · exact hcr

/-- A call is served. -/
theorem inv_serve {i : Task} {k : Except Exn (Rep r) → Co Venue Unit} (hI : Inv w x)
    (hclear : Clear w x (.serve i)) (ht : x.thread i = .waiting r k)
    (hn : (tasks w quote reason).next x (.serve i) =
      some (x.move i (.ready (k (w.answer r x.shared).1)) (w.answer r x.shared).2))
    (htasks : AllOk w.answer (rules false) (fun _ _ => True)
      (x.move i (.ready (k (w.answer r x.shared).1)) (w.answer r x.shared).2)) :
    Inv w (x.move i (.ready (k (w.answer r x.shared).1)) (w.answer r x.shared).2) := by
  refine ⟨answer_sound hI.sound, htasks, fun hc => ?_, fun y hy hh => ?_⟩
  · rw [Cfg.move_shared] at hc ⊢
    have hlast : Lasting x.shared.bot (w.answer r x.shared).2.bot := by
      rw [World.answer_bot]
      exact lasting_refl _
    rcases answer_cleared hc with hc' | ⟨hr, hhalt, hnone⟩
    · obtain ⟨hok, hg, -⟩ := calm_next hn (hI.calm hc').1
        (hI.sound.halting (hI.sound.cleared hc')) hlast
      have hcalm : Calm x.shared (w.answer r x.shared).2 := by
        cases i with
        | loop => exact hg.2 rfl
        | _ => exact hg
      exact ⟨hok, hcalm.none_live (hI.calm hc').2⟩
    · have hloop := hclear (by rw [ht, Thread.pending, hr]) hhalt
      exact ⟨(calm_next hn (allOk_calm hI.tasks hloop) (hI.sound.halting hhalt) hlast).1, hnone⟩
  · rcases Cfg.mem_sent_move hy with hy | ⟨hp, -⟩
    · exact hI.sent y hy hh
    · exact absurd hp (by simp [Thread.pending])

/-- Something happens by itself. -/
theorem inv_env {e : Ev} (hI : Inv w x)
    (hn : (tasks w quote reason).next x (.env e) = some { x with shared := e.apply x.shared })
    (htasks : AllOk w.answer (rules false) (fun _ _ => True)
      { x with shared := e.apply x.shared }) :
    Inv w { x with shared := e.apply x.shared } := by
  cases e with
  | fill id =>
    have hnext := fun hc => calm_next hn (hI.calm hc).1 (hI.sound.halting (hI.sound.cleared hc))
      (lasting_refl _)
    refine ⟨⟨hI.sound.halting, hI.sound.cleared, hI.sound.halted⟩, htasks,
      fun hc => ⟨(hnext hc).1, fun o ho => ?_⟩, hI.sent⟩
    exact (hI.calm hc).2 o (Keyed.mem_erase.mp ho).1
  | reset =>
    exact ⟨⟨fun h => absurd h (by simp [Ev.apply, reset]),
      fun h => absurd h (by simp [Ev.apply, reset]), fun h => absurd h (by simp [Ev.apply, reset])⟩,
      htasks, fun h => absurd h (by simp [Ev.apply, reset]), hI.sent⟩

theorem inv_next (hI : Inv w x) (hclear : Clear w x a)
    (hn : (tasks w quote reason).next x a = some x') : Inv w x' := by
  obtain ⟨htasks, hg, hsent⟩ := AllOk.next (T := tasks w quote reason) hI.tasks (closed false)
    (fun i _ hs => body_ok (fun h => absurd h (by simp)) i hs)
    (fun _ j _ => by
      cases j with
      | loop => exact fun h => absurd h (by simp)
      | _ => trivial) hn
  have hown : ∀ i, Relation.ReflTransGen (rules false i).own x.shared x'.shared →
      Own x.shared x'.shared := fun i h => by
    rw [own_eq] at h
    exact Own.chain h
  cases Threads.next_cases hn with
  | @start i => exact inv_own hI (hown i hg) hn htasks fun y hy => (hsent y hy).imp_right And.left
  | @resume i => exact inv_own hI (hown i hg) hn htasks fun y hy => (hsent y hy).imp_right And.left
  | serve ht => exact inv_serve hI hclear ht hn htasks
  | env he =>
    obtain rfl := Option.some.inj he
    exact inv_env hI hn htasks

/-! ## The result -/

theorem inv_boot (w : World) (s : Sys Venue) (h : s.halt = {}) : Inv w (boot s) where
  sound := ⟨fun hh => absurd hh (by simp [boot, h]), fun hh => absurd hh (by simp [boot, h]),
    fun hh => absurd hh (by simp [boot, h])⟩
  tasks _ := trivial
  calm hc := absurd hc (by simp [boot, h])
  sent y hy := absurd hy List.not_mem_nil

/-- **An emergency stop is final** in every run in which the loop is on its way to no
`create_limit_order` whenever the `cancel_all_orders` of a halt is served: once that has returned, the
loop creates no further order and none of the bot's orders is live. -/
theorem emergency_stop_final (w : World) (quote : Quote Venue) (reason : String) (s : Sys Venue)
    (h0 : s.halt = {}) {x : State}
    (h : Run.Reaches (Run.Fires (tasks w quote reason).next) (Clear w) (boot s) x) : Final x := by
  have hI : Inv w x := h.inv (inv_boot w s h0) fun _ _ _ hI hc hn => inv_next hI hc hn
  exact ⟨hI.sent, fun hh => (hI.calm (hI.sound.halted hh)).2⟩

/-! ## Where the loop is on its way to no order -/

theorem createsNothing_rest (w : World) (s : Sys Venue) : CreatesNothing w .rest s := trivial

/-- The loop waits for its next state and the Q-Switch has fired. -/
theorem createsNothing_of_triggered (w : World) (quote : Quote Venue)
    (h : s.bot.q_switch.triggered = true) : CreatesNothing w (settle (round quote) s).1 s :=
  (settle_ok (round_calm quote s h)).2.1.mono fun _ _ => trivial

/-! ## The history records the return -/

/-- While nobody resets the Q-Switch of a live bot. -/
def unreset : Rules (Sys Venue) Req where
  rely s s' := (s.halt.halting = true → s'.halt.halting = true) ∧
    (s.halt.cleared = true → s'.halt.cleared = true) ∧ s'.om.dry_run = s.om.dry_run
  own _ _ := True
  guar _ _ := True
  may _ _ := True

/-- Where the connector does not fail, a live stopper's `cancel_all` that returns has halted. -/
theorem cancel_all_halted (hc : ∀ n, w.connector_fails n = false) (hhalt : s.halt.halting = true)
    (hd : s.om.dry_run = false) :
    wp w.answer unreset (fun x s' => x = .ok () → s'.halt.halted = true) cancel_all s := by
  have hrow : ∀ id, Keeps w.answer unreset (fun s => s.halt.cleared = true)
      (ask (.update_order_status id "canceled")) := fun id =>
    Keeps.call (fun h => h.2.1) (fun _ _ => trivial) fun s hs =>
      ⟨trivial, by rwa [World.answer_halt w _ s (by simp)]⟩
  have hrows : Keeps w.answer unreset (fun s => s.halt.cleared = true) (do
      let s ← Prog.read
      Prog.forEach s.om.open_orders.keys fun order_id =>
        ask (.update_order_status order_id "canceled")
      Prog.modify (Sys.mapOm OrderManager.clear) : Co Venue Unit) := by
    refine Keeps.read_bind fun s hs => ?_
    refine (Keeps.bind (Keeps.forEach fun id _ => hrow id) fun _ => ?_) s hs
    exact Keeps.modify fun _ h => ⟨trivial, h⟩
  simp only [cancel_all, OrderManager.cancel_all, OrderManager.cancel_on_exchange, bind_eq, wp_bind,
    wp_read, thenPost, hd, Bool.false_eq_true, if_false]
  rw [wp_ask .acquire]
  refine ⟨trivial, fun s1 h1 => ⟨trivial, fun s2 h2 => ?_⟩⟩
  rw [World.answer_of_fault_none rfl] at h2 ⊢
  rw [thenPost, wp_ask .cancel_all_orders]
  refine ⟨trivial, fun s3 h3 => ⟨trivial, fun s4 h4 => ?_⟩⟩
  rw [World.answer_of_fault_none (by simp [World.fault, hc])] at h4 ⊢
  have hcleared : s4.halt.cleared = true := h4.2.1 (h3.1 (h2.1 (h1.1 hhalt)))
  refine wp_mono (fun x s' hx => ?_) (hrows s4 hcleared)
  cases x with
  | ok _ => exact ⟨trivial, fun _ => hx⟩
  | error e => exact fun h => absurd h (by simp)

/-! ## Two runs -/

/-- A live bot that tracks nothing. -/
def live_bot : Sys Venue where
  om := { exchange := "kucoin", symbol := "ALKIMI/USDT", dry_run := false }
  bot :=
    { exchange := "kucoin"
      q_switch := { exchange := "kucoin", min_balance_usd := 0, min_balance_token := 0 }
      circuit_breaker := { max_daily_loss_pct := 10, max_drawdown_pct := 10, day_start := 0 }
      has_paper_trader := false
      running := true }
  paper := { exchange := "kucoin", maker_fee_rate := 0 }
  clock := 0
  uuid4 := World.longer
  env := {}

/-- Every tick quotes one buy level. -/
def one_buy : Quote Venue := fun _ _ _ =>
  { buy_prices := [10], buy_amounts := [1], sell_prices := [], sell_amounts := [], global_mid := 10
    aggressiveness := 0 }

/-- Nothing fails, and the states keep coming. -/
def ticking : World := { World.quiet with state := fun _ => some ⟨10, 0, 0, "", "", 0⟩ }

/-- A `cancel_all_orders` is served only while the loop is at rest. -/
def idle (x : State) : Act Task Ev → Bool
  | .serve i => decide ((x.thread i).pending ≠ some .cancel_all_orders) || (x.thread .loop).atRest
  | _ => true

/-- The stop lands between two ticks; the next tick stops at its Q-Switch check. -/
theorem final_between_ticks : ∃ x, x.shared.halt.halted = true ∧ Final x := by
  have hplay : (Run.play (tasks ticking one_buy "stop").next (fun x a => idle x a = true)
      (boot live_bot) (.start (.api 0) :: turns (.api 0) 2 ++ .start .loop :: turns .loop 3)).any
      (fun x => x.shared.halt.halted) = true := by
    decide +kernel
  obtain ⟨x, hx, hhalted⟩ := (Option.any_eq_true _ _).mp hplay
  refine ⟨x, hhalted, emergency_stop_final ticking one_buy "stop" live_bot rfl
    ((Run.reaches_of_play hx).mono fun x a ha => ?_)⟩
  cases a with
  | serve i =>
    intro hp _
    rw [idle, Bool.or_eq_true, decide_eq_true_eq] at ha
    rcases ha with ha | ha
    · exact absurd hp ha
    · rw [Thread.eq_rest ha]
      exact createsNothing_rest _ _
  | _ => trivial

/-- The stop lands while the loop awaits the rate limiter, with its order still to be created: the
order is created after the stop, and stays. -/
theorem stop_overtaken :
    ¬∀ (w : World) (quote : Quote Venue) (reason : String) (s : Sys Venue) (x : State),
      (∀ n, w.connector_fails n = false) → s.om.dry_run = false → s.halt = {} →
      Run.Reaches (Run.Fires (tasks w quote reason).next) (fun _ _ => True) (boot s) x →
      Final x := by
  intro h
  have hplay : (Run.play (tasks ticking one_buy "stop").next (fun _ _ => True) (boot live_bot)
      (.start .loop :: turns .loop 5 ++ .start (.api 0) :: turns (.api 0) 2 ++ turns .loop 2)).any
      (fun x => x.sent.any fun y => y.2.halt.halted && OrderManager.creates y.1) = true := by
    decide +kernel
  obtain ⟨x, hx, hsent⟩ := (Option.any_eq_true _ _).mp hplay
  obtain ⟨y, hy, hyc⟩ := List.any_eq_true.mp hsent
  rw [Bool.and_eq_true] at hyc
  have hfinal := h ticking one_buy "stop" live_bot x (fun _ => rfl) rfl rfl (Run.reaches_of_play hx)
  exact absurd hyc.2 (by simp [hfinal.1 y hy hyc.1])

end Meridian.EmergencyStop
