import Meridian.Core.EmergencyStop
import Meridian.Lib.Stretches

/-!
# Does a Q-Switch halt leave resting orders?

The README and the safety diagram of `docs/ARCHITECTURE.md` have a tick whose `QSwitch.check` fires
cancel all open orders. `_tick` (`exchange_bot.py:178-180`) only returns.

Results:
* `orders_rest`: a run in which the orders stay, tracked and live, after the tick that fired;
* `none_open_after_halt`: in every run in which no tick fires on its balance while orders of the bot
  are open, none is from then on until the reset, whatever the other tasks do;
* `round_stretches`: the check is the only place in a round that fires on a balance, and nothing
  happens to the orders between the await before it and the end of the round.
-/

namespace Meridian

/-- The switch has compared a balance with a threshold, not been triggered from outside. -/
def TriggerReason.onBalance : TriggerReason → Bool
  | .manual _ => false
  | _ => true

namespace QSwitch

/-- `check` has fired, and nobody has reset the switch since. -/
def byBalance (q : QSwitch) : Bool :=
  q.triggered && q.last_event.any fun e => e.reason.onBalance

theorem triggered_of_byBalance {q : QSwitch} (h : q.byBalance = true) : q.triggered = true :=
  (Bool.and_eq_true _ _ ▸ h).1

theorem byBalance_trigger_manually {q : QSwitch} {now : ℚ} {reason : String}
    (h : (q.trigger_manually now reason).byBalance = true) : q.byBalance = true := by
  unfold trigger_manually at h
  split at h
  · exact h
  · exact absurd h (by simp [byBalance, fire, TriggerReason.onBalance])

theorem byBalance_reset (q : QSwitch) : q.reset.byBalance = false := by
  unfold reset
  split
  · rfl
  · rename_i h
    rw [byBalance, Bool.eq_false_iff.mpr h, Bool.false_and]

/-- A check that does not halt changes nothing. -/
theorem check_of_false {q : QSwitch} {now : ℚ} {balance : Balance}
    (h : (q.check now balance).1 = false) : (q.check now balance).2 = q := by
  unfold check at h ⊢
  split
  · rfl
  · rename_i ht
    rw [if_neg ht] at h
    split
    · rename_i hu
      rw [if_pos hu] at h
      cases h
    · rename_i hu
      rw [if_neg hu] at h
      split
      · rename_i hk
        rw [if_pos hk] at h
        cases h
      · rfl

end QSwitch

namespace QSwitchHalt

open Coop ExchangeBot
open EmergencyStop (NoneLive)

/-! ## The property -/

/-- No order of the bot is open, on the exchange or in `_open_orders`. -/
structure NoneOpen (s : Sys Venue) : Prop where
  tracked : s.om.open_orders.toList = []
  live : NoneLive s.env

/-- Once a tick's check has fired, and until the reset, no order of the bot is open. -/
def Swept (x : State) : Prop := x.shared.bot.q_switch.byBalance = true → NoneOpen x.shared

/-- The condition on a step: a tick fires on its balance only while no order of the bot is open. -/
def FiresBare (w : World) (quote : Quote Venue) (reason : String) (x : State) (a : Act Task Ev) :
    Prop :=
  ∀ x', (tasks w quote reason).next x a = some x' → x.shared.bot.q_switch.byBalance = false →
    x'.shared.bot.q_switch.byBalance = true → NoneOpen x.shared

/-! ## The stretches of a round -/

/-- No balance check has fired since `s0`. -/
def Unfired (s0 s : Sys Venue) : Prop :=
  s.bot.q_switch.byBalance = true → s0.bot.q_switch.byBalance = true

/-- No balance check has fired since `s0`, or the orders are as they were then: a tick that fires
returns before it reposts. -/
def Settled (s0 s : Sys Venue) : Prop := Unfired s0 s ∨ s.om = s0.om ∧ s.env = s0.env

/-- The orders and the switch are as they were. -/
def Untouched (s0 s : Sys Venue) : Prop :=
  s.om = s0.om ∧ s.env = s0.env ∧ s.bot.q_switch = s0.bot.q_switch

/-- Changes in `R`, and no other rules. -/
def changing (R : Sys Venue → Sys Venue → Prop) : Rules (Sys Venue) Req where
  rely _ _ := True
  own := R
  guar _ _ := True
  may _ _ := True

variable {w : World} {R : Sys Venue → Sys Venue → Prop} {s0 s : Sys Venue}

theorem changing_call (r : Req) : Keeps w.answer (changing R) (fun _ => True) (ask r) :=
  Keeps.call (fun _ _ => trivial) (fun _ _ => trivial) fun _ _ => ⟨trivial, trivial⟩

theorem changing_fields
    (hR : ∀ (s : Sys Venue) b, b.q_switch = s.bot.q_switch → R s { s with bot := b }) :
    FieldPermits w.answer (changing R) (fun _ => True) (fun _ => true) where
  call r _ := changing_call r
  field s b _ hq _ := ⟨hR s b hq, trivial⟩

theorem Unfired.refl (s : Sys Venue) : Unfired s s := id

theorem Unfired.of_eq (h : s.bot.q_switch = s0.bot.q_switch) : Unfired s0 s := fun hb => h ▸ hb

/-- Where no balance is checked, no check fires. -/
theorem stretch_unfired {α : Type} {p : Co Venue α}
    (hp : Keeps w.answer (changing Unfired) (fun _ => True) p) (h : Unfired s0 s) :
    Stretch w.answer Unfired (fun _ => Unfired) p s0 s :=
  stretch_of_wp (fun _ _ => trivial) (fun h hown hb => h (hown hb)) Unfired.refl (hp s trivial) h

/-- The part of a tick after its check. -/
theorem keeps_after_check (quote : Quote Venue) (state : GlobalState) (balance : Balance) :
    Keeps w.answer (changing Unfired) (fun _ => True) (do
      let tripped ← check_circuit_breaker state balance
      if tripped then pure () else requote quote state balance : Co Venue Unit) := by
  have hfields : FieldPermits w.answer (changing Unfired) (fun _ => True) (fun _ => true) :=
    changing_fields fun _ _ hq => .of_eq hq
  have horders : OrderManager.Permits w.answer (changing Unfired) (fun _ => True) (fun _ => true) :=
    .of_any (fun r _ => changing_call r) (fun _ _ _ => rfl) fun _ _ _ _ _ => ⟨id, trivial⟩
  refine (hfields.check_circuit_breaker state balance).bind fun tripped => ?_
  split
  · exact Keeps.done ()
  · refine Keeps.read_bind fun s _ => ?_
    refine ((horders.diff_and_repost (fun _ _ => rfl) _).bind fun placed => ?_) s trivial
    refine hfields.after_repost (fun s _ => ⟨?_, trivial⟩) (fun _ _ => rfl) state balance _ placed
    unfold set_open_orders
    split <;> exact id

/-- What a round does with an exception fires nothing on a balance. -/
theorem keeps_on_error (e : Exn) :
    Keeps w.answer (changing Unfired) (fun _ => True) (on_error e : Co Venue Unit) := by
  have hreconnect : Keeps w.answer (changing Unfired) (fun _ => True)
      (try_reconnect : Co Venue Unit) := by
    refine Keeps.tryCatch (changing_call _) fun _ => Keeps.modify fun s _ => ⟨?_, trivial⟩
    exact QSwitch.byBalance_trigger_manually
  have hlost : Keeps w.answer (changing Unfired) (fun _ => True) (do
      let s ← Prog.read
      if s.connected then pure () else try_reconnect : Co Venue Unit) :=
    Keeps.read_bind fun s hs => by
      split
      · exact hs
      · exact hreconnect s hs
  cases e with
  | timeout => exact Keeps.done ()
  | connector | database | feed | key id => exact hlost

/-- What a tick comes to, in a stretch: it has returned and nothing happened to the orders where
the check fired. -/
def TickEnd : Except Exn Unit → Sys Venue → Sys Venue → Prop
  | .ok _, s0, s => Settled s0 s
  | .error _, s0, s => Unfired s0 s

/-- The part of a tick from its check. -/
theorem stretch_guarded (quote : Quote Venue) (state : GlobalState) (balance : Balance)
    (h : Untouched s0 s) :
    Stretch w.answer Unfired TickEnd (guarded_requote quote state balance) s0 s := by
  obtain ⟨hom, henv, hq⟩ := h
  simp only [guarded_requote, check_q_switch, bind_eq]
  rw [stretch_bind, stretch_bind]
  -- the check reads, writes the switch and returns
  show Stretch w.answer Unfired TickEnd
    (if (s.bot.q_switch.check s.clock balance).1 then pure ()
      else (check_circuit_breaker state balance).bind fun tripped =>
        if tripped then pure () else requote quote state balance) s0
    (s.mapBot fun b => { b with q_switch := (b.q_switch.check s.clock balance).2 })
  split
  · exact Or.inr ⟨hom, henv⟩
  · rename_i hcheck
    refine stretch_mono (fun _ _ => id) (fun x _ _ hx => ?_)
      (stretch_unfired (keeps_after_check quote state balance) (.of_eq ?_))
    · cases x with
      | ok _ => exact Or.inl hx
      | error _ => exact hx
    · exact (QSwitch.check_of_false (Bool.eq_false_iff.mpr hcheck)).trans hq

theorem stretch_tick (quote : Quote Venue) (state : GlobalState) (s : Sys Venue) :
    Stretch w.answer Unfired TickEnd (tick quote state) s s := by
  have hfields : FieldPermits w.answer (changing Untouched) (fun _ => True) (fun _ => true) :=
    changing_fields fun _ _ hq => ⟨rfl, rfl, hq⟩
  have hbalance : Stretch w.answer Untouched (fun _ => Untouched)
      (get_balance : Co Venue (Option Balance)) s s :=
    stretch_of_wp (fun _ _ => trivial)
      (fun h h' => ⟨h'.1.trans h.1, h'.2.1.trans h.2.1, h'.2.2.trans h.2.2⟩)
      (fun _ => ⟨rfl, rfl, rfl⟩) (hfields.get_balance rfl rfl s trivial) ⟨rfl, rfl, rfl⟩
  rw [tick, bind_eq, stretch_bind]
  refine stretch_mono (fun _ _ h => .of_eq h.2.2) (fun x s0 s hx => ?_) hbalance
  cases x with
  | error e => exact Unfired.of_eq hx.2.2
  | ok balance =>
    cases balance with
    | none => exact Or.inr ⟨hx.1, hx.2.1⟩
    | some balance => exact stretch_guarded quote state balance hx

/-- **One check, and nothing else, in a round**: a stretch in which a check fires is the last one of
the round and leaves the orders as they were. -/
theorem round_stretches (quote : Quote Venue) (s : Sys Venue) :
    Stretch w.answer Unfired (fun _ => Settled) (round quote) s s := by
  have herror : ∀ (e : Exn) {s0 s : Sys Venue}, Unfired s0 s →
      Stretch w.answer Unfired (fun _ => Settled) (on_error e) s0 s := fun e _ _ h =>
    stretch_mono (fun _ _ => id) (fun _ _ _ => Or.inl) (stretch_unfired (keeps_on_error e) h)
  unfold ExchangeBot.round
  rw [stretch_tryCatch, bind_eq, stretch_bind, stretch_call]
  refine ⟨Unfired.refl s, fun s1 s2 => ?_⟩
  cases (w.answer .queue_get s1).1 with
  | error e => exact herror e (Unfired.refl s2)
  | ok state =>
    simp only [thenStretch, bind_eq]
    rw [stretch_bind]
    refine stretch_mono (fun _ _ => id) (fun x s0 s hx => ?_) (stretch_tick quote state s2)
    cases x with
    | error e => exact herror e hx
    | ok _ => exact hx

/-! ## What every task does -/

/-- What a task does by itself, the loop's repostings aside: it may clear the tracked orders, but
adds none, and does not reset the switch. -/
structure Own (s s' : Sys Venue) : Prop where
  env : s'.env = s.env
  orders : s'.om.open_orders = s.om.open_orders ∨ s'.om.open_orders.toList = []
  switch : s.bot.q_switch.triggered = true → s'.bot.q_switch.triggered = true

/-- What serving a call that creates no order does: the bot is left alone, and where none of its
orders is live, none is live after it. -/
structure Calm (s s' : Sys Venue) : Prop where
  om : s'.om = s.om
  bot : s'.bot = s.bot
  live : NoneLive s.env → NoneLive s'.env

/-- The rules of a task. The stoppers and the paper trader fire no check; the loop, unless `calm`,
may do anything, and a calm loop relies on the switch staying triggered. -/
def rules (calm : Bool) : Task → Rules (Sys Venue) Req
  | .loop =>
    { rely := fun s s' => calm = true →
        (s.bot.q_switch.triggered = true → s'.bot.q_switch.triggered = true)
      own := fun s s' => calm = true → Own s s'
      guar := fun s s' => calm = true → Calm s s'
      may := fun r _ => calm = true → OrderManager.creates r = false }
  | _ =>
    { rely := fun _ _ => True
      own := fun s s' => Own s s' ∧ Unfired s s'
      guar := Calm
      may := fun r _ => OrderManager.creates r = false }

variable {r : Req}

theorem calm_answer (hr : OrderManager.creates r = false) : Calm s (w.answer r s).2 :=
  ⟨World.answer_om w r s, World.answer_bot w r s, EmergencyStop.answer_noneLive hr⟩

theorem closed (calm : Bool) (i : Task) : (rules calm i).Closed fun _ => True := by
  cases i with
  | loop =>
    exact ⟨fun _ _ => id, fun h h' hc ht => h' hc (h hc ht), fun _ => id⟩
  | _ => exact ⟨fun _ => trivial, fun _ _ => trivial, fun _ => id⟩

theorem Own.trans {s s' s'' : Sys Venue} (h : Own s s') (h' : Own s' s'') : Own s s'' where
  env := h'.env.trans h.env
  orders := by
    rcases h'.orders with ho | ho
    · exact h.orders.imp ho.trans fun he => by rw [ho, he]
    · exact Or.inr ho
  switch := h'.switch ∘ h.switch

theorem Own.refl (s : Sys Venue) : Own s s := ⟨rfl, Or.inl rfl, id⟩

/-- Nothing is open after what leaves nothing open. -/
theorem Own.noneOpen {s s' : Sys Venue} (h : Own s s') (hs : NoneOpen s) : NoneOpen s' where
  tracked := by
    rcases h.orders with ho | ho
    · rw [ho, hs.tracked]
    · exact ho
  live := h.env ▸ hs.live

theorem Calm.noneOpen {s s' : Sys Venue} (h : Calm s s') (hs : NoneOpen s) : NoneOpen s' :=
  ⟨h.om ▸ hs.tracked, h.live hs.live⟩

/-- A round of the loop once the switch is triggered. -/
theorem round_calm (quote : Quote Venue) : Keeps w.answer (rules true .loop)
    (fun s => s.bot.q_switch.triggered = true) (ExchangeBot.round quote) := by
  have hbot : BotPermits w.answer (rules true .loop)
      (fun s => s.bot.q_switch.triggered = true) (fun r => !OrderManager.creates r) := by
    refine ⟨fun r hr => ?_, fun s b ht hb => ⟨fun _ => ⟨rfl, Or.inl rfl, hb.1⟩, hb.1 ht⟩⟩
    have hr' : OrderManager.creates r = false := by simpa using hr
    refine Keeps.call (fun h => h rfl) (fun _ _ _ => hr') fun s hs => ⟨fun _ => calm_answer hr', ?_⟩
    rwa [World.answer_bot]
  refine hbot.round_of_triggered (fun _ h => h) (fun r hr => ?_) quote
  simp only [List.mem_cons, List.not_mem_nil, or_false] at hr
  rcases hr with rfl | rfl | rfl | rfl <;> rfl

/-- A task other than the loop fires no check and creates no order. -/
theorem quiet_keeps {calm : Bool} {i : Task} (hi : i ≠ .loop) (quote : Quote Venue)
    (reason : String) :
    Keeps w.answer (rules calm i) (fun _ => True) (i.body quote reason) := by
  have hown : (rules calm i).own = fun s s' => Own s s' ∧ Unfired s s' := by
    cases i <;> first | exact absurd rfl hi | rfl
  have hcall : ∀ r, OrderManager.creates r = false →
      Keeps w.answer (rules calm i) (fun _ => True) (ask r) := fun r hr => by
    refine Keeps.call (fun _ h => h) (fun s _ => ?_) fun s _ => ⟨?_, trivial⟩
    · cases i <;> first | exact absurd rfl hi | exact hr
    · cases i <;> first | exact absurd rfl hi | exact calm_answer hr
  have hclear : Keeps w.answer (rules calm i) (fun _ => True)
      (OrderManager.cancel_all : Co Venue Unit) := by
    refine OrderManager.keeps_cancel_all (fun r hr => hcall r ?_) (fun id => hcall _ rfl) fun s _ =>
      ⟨hown ▸ ⟨⟨rfl, Or.inr rfl, id⟩, id⟩, trivial⟩
    simp only [List.mem_cons, List.not_mem_nil, or_false] at hr
    rcases hr with rfl | rfl <;> rfl
  have hcancel : Keeps w.answer (rules calm i) (fun _ => True) (cancel_all : Co Venue Unit) :=
    hclear.bind fun _ => Keeps.modify fun s _ => ⟨hown ▸ ⟨⟨rfl, Or.inl rfl, id⟩, id⟩, trivial⟩
  have htrigger : ∀ why, Keeps w.answer (rules calm i) (fun _ => True)
      (Prog.modify fun s => halting <| s.mapBot fun b =>
        { b with q_switch := b.q_switch.trigger_manually s.clock why } : Co Venue Unit) :=
    fun why => Keeps.modify fun s _ => by
      refine ⟨hown ▸ ⟨⟨rfl, Or.inl rfl, fun _ => ?_⟩, ?_⟩, trivial⟩
      · exact QSwitch.trigger_manually_triggered _ _ _
      · exact QSwitch.byBalance_trigger_manually
  have hpaper : ∀ f, Allowed (rules calm i) (fun _ => True) (Sys.mapPaper f) := fun f s _ =>
    ⟨hown ▸ ⟨⟨rfl, Or.inl rfl, id⟩, id⟩, trivial⟩
  cases i with
  | loop => exact absurd rfl hi
  | heartbeat n =>
    refine Keeps.bind (Keeps.modify fun s _ => ?_) fun _ => hcancel.bind fun _ =>
      Keeps.read_bind fun s hs => hcall _ rfl s hs
    refine ⟨⟨⟨rfl, Or.inl rfl, fun _ => ?_⟩, ?_⟩, trivial⟩
    · exact QSwitch.trigger_manually_triggered _ _ _
    · exact QSwitch.byBalance_trigger_manually
  | shutdown n =>
    refine Keeps.bind (Keeps.modify fun s _ => ⟨⟨⟨rfl, Or.inl rfl, id⟩, id⟩, trivial⟩) fun _ => ?_
    exact (hcall _ rfl).bind fun _ => hcancel.bind fun _ => hcall _ rfl
  | api n => exact (htrigger reason).bind fun _ => hcancel
  | poller => exact EmergencyStop.poller_keeps hcall hpaper
  | poller_stop n => exact (Keeps.modify (hpaper _)).bind fun _ => hcall _ rfl

/-- What a task runs when it starts keeps to the task's rules. -/
theorem body_ok {calm : Bool} {quote : Quote Venue} {reason : String}
    (hcalm : calm = true → s.bot.q_switch.triggered = true) (i : Task) :
    wp w.answer (rules calm i) (fun _ _ => True) (i.body quote reason) s := by
  by_cases hi : i = .loop
  · subst hi
    cases calm with
    | true => exact wp_mono (fun _ _ _ => trivial) (round_calm quote s (hcalm rfl))
    | false =>
      refine wp_lax (c := rules false .loop) ?_ ?_ ?_ _ s
      all_goals exact fun _ _ h => absurd h Bool.false_ne_true
  · exact quiet_keeps hi quote reason s trivial

/-! ## The invariant -/

/-- What holds in every state reached. Once a check has fired, the loop is calm. -/
structure Inv (w : World) (x : State) : Prop where
  tasks : AllOk w.answer (rules false) (fun _ _ => True) x
  loop : StretchThread w.answer Unfired (fun _ => Settled) (x.thread .loop)
  calm : x.shared.bot.q_switch.byBalance = true →
    AllOk w.answer (rules true) (fun _ _ => True) x ∧ NoneOpen x.shared

variable {quote : Quote Venue} {reason : String} {x x' : State} {a : Act Task Ev}

/-- Only the loop's rules depend on whether it is calm. -/
theorem allOk_calm (h : AllOk w.answer (rules false) (fun _ _ => True) x)
    (hloop : x.thread .loop = .rest) : AllOk w.answer (rules true) (fun _ _ => True) x := fun i => by
  cases i with
  | loop =>
    rw [hloop]
    trivial
  | heartbeat n => exact h (.heartbeat n)
  | shutdown n => exact h (.shutdown n)
  | api n => exact h (.api n)
  | poller => exact h .poller
  | poller_stop n => exact h (.poller_stop n)

theorem own_of_chain {R : Sys Venue → Sys Venue → Prop} {s s' : Sys Venue}
    (hR : ∀ {s s'}, R s s' → Own s s') (h : Relation.ReflTransGen R s s') : Own s s' := by
  induction h with
  | refl => exact Own.refl s
  | tail _ h ih => exact ih.trans (hR h)

theorem unfired_of_chain {R : Sys Venue → Sys Venue → Prop} {s s' : Sys Venue}
    (hR : ∀ {s s'}, R s s' → Unfired s s') (h : Relation.ReflTransGen R s s') : Unfired s s' := by
  induction h with
  | refl => exact Unfired.refl s
  | tail _ h ih => exact fun hb => ih (hR h hb)

/-- What any task does by itself while the loop is calm. -/
theorem own_of_guaranteed {i : Task} {s s' : Sys Venue}
    (h : Relation.ReflTransGen (rules true i).own s s') : Own s s' := by
  cases i with
  | loop => exact own_of_chain (fun h => h rfl) h
  | _ => exact own_of_chain And.left h

theorem calm_of_guaranteed {i : Task} {s s' : Sys Venue} (h : (rules true i).guar s s') :
    Calm s s' := by
  cases i with
  | loop => exact h rfl
  | _ => exact h

/-- **One step after a check has fired** opens nothing: no task is on its way to an order, and none
is created. -/
theorem calm_next (hn : (tasks w quote reason).next x a = some x')
    (h : AllOk w.answer (rules true) (fun _ _ => True) x)
    (hb : x.shared.bot.q_switch.byBalance = true) (hb' : x'.shared.bot.q_switch.byBalance = true)
    (hnone : NoneOpen x.shared) :
    AllOk w.answer (rules true) (fun _ _ => True) x' ∧ NoneOpen x'.shared := by
  have ht := QSwitch.triggered_of_byBalance hb
  have ht' := QSwitch.triggered_of_byBalance hb'
  obtain ⟨hok, hg, -⟩ := AllOk.next (T := tasks w quote reason) h (closed true)
    (fun i _ _ => body_ok (fun _ => ht) i)
    (fun _ j _ => by
      cases j with
      | loop => exact fun _ _ => ht'
      | _ => trivial) hn
  refine ⟨hok, ?_⟩
  cases Threads.next_cases hn with
  | start ht hs => exact (own_of_guaranteed hg).noneOpen hnone
  | resume ht => exact (own_of_guaranteed hg).noneOpen hnone
  | serve ht => exact (calm_of_guaranteed hg).noneOpen hnone
  | @env e s he =>
    obtain rfl := Option.some.inj he
    cases e with
    | fill id => exact ⟨hnone.tracked, fun o ho => hnone.live o (Keyed.mem_erase.mp ho).1⟩
    | reset =>
      rw [show (Ev.apply .reset x.shared).bot.q_switch = x.shared.bot.q_switch.reset from rfl,
        QSwitch.byBalance_reset] at hb'
      cases hb'

/-- **The step in which a check fires** is the last one of its tick and leaves the orders as they
were. -/
theorem fires_next (hI : Inv w x) (hn : (tasks w quote reason).next x a = some x')
    (hb : x.shared.bot.q_switch.byBalance = false) (hb' : x'.shared.bot.q_switch.byBalance = true)
    (hg : a.Guaranteed (rules false) x.shared x'.shared) :
    x'.thread .loop = .rest ∧ x'.shared.om = x.shared.om ∧ x'.shared.env = x.shared.env := by
  have hfired : ¬Unfired x.shared x'.shared := fun h => by
    rw [h hb'] at hb
    cases hb
  obtain ⟨-, hstretch⟩ := hI.loop.next (T := tasks w quote reason) (round_stretches quote) hn
  have hloop : a = .start .loop ∨ a = .resume .loop → x'.thread .loop = .rest ∧
      x'.shared.om = x.shared.om ∧ x'.shared.env = x.shared.env := fun ha => by
    rcases hstretch ha with ⟨hrest, e, hu | hsame⟩ | hu
    · exact absurd hu hfired
    · exact ⟨hrest, hsame⟩
    · exact absurd hu hfired
  have hother : ∀ i : Task, i ≠ .loop →
      ¬Relation.ReflTransGen (rules false i).own x.shared x'.shared := fun i hi h => by
    refine hfired (unfired_of_chain (fun hR => ?_) h)
    cases i with
    | loop => exact absurd rfl hi
    | _ => exact hR.2
  cases Threads.next_cases hn with
  | @start i _ _ =>
    by_cases hi : i = .loop
    · exact hloop (Or.inl (by rw [hi]))
    · exact absurd hg (hother i hi)
  | @resume i _ _ =>
    by_cases hi : i = .loop
    · exact hloop (Or.inr (by rw [hi]))
    · exact absurd hg (hother i hi)
  | serve ht =>
    refine absurd (fun hb' => ?_) hfired
    rwa [Cfg.move_shared, show (tasks w quote reason).answer = w.answer from rfl,
      World.answer_bot] at hb'
  | @env e s he =>
    obtain rfl := Option.some.inj he
    cases e with
    | fill oid => exact absurd (Unfired.of_eq rfl) hfired
    | reset =>
      rw [show (Ev.apply .reset x.shared).bot.q_switch = x.shared.bot.q_switch.reset from rfl,
        QSwitch.byBalance_reset] at hb'
      cases hb'

theorem inv_next (hI : Inv w x) (hc : FiresBare w quote reason x a)
    (hn : (tasks w quote reason).next x a = some x') : Inv w x' := by
  obtain ⟨htasks, hg, -⟩ := AllOk.next (T := tasks w quote reason) hI.tasks (closed false)
    (fun i _ _ => body_ok (fun h => absurd h Bool.false_ne_true) i)
    (fun _ j _ => by
      cases j with
      | loop => exact fun h => absurd h Bool.false_ne_true
      | _ => trivial) hn
  refine ⟨htasks, (hI.loop.next (round_stretches quote) hn).1, fun hb' => ?_⟩
  cases hb : x.shared.bot.q_switch.byBalance with
  | true => exact calm_next hn (hI.calm hb).1 hb hb' (hI.calm hb).2
  | false =>
    obtain ⟨hrest, hom, henv⟩ := fires_next hI hn hb hb' hg
    have hnone := hc x' hn hb hb'
    exact ⟨allOk_calm htasks hrest, hom ▸ hnone.tracked, henv ▸ hnone.live⟩

/-! ## The result -/

/-- **A halt leaves no open order** in every run in which no tick fires on its balance while orders
of the bot are open: a tick that fires just returns, and cancels nothing of what was placed before.
From then on, until the reset, none is tracked and none is live on the exchange. -/
theorem none_open_after_halt (w : World) (quote : Quote Venue) (reason : String) (s : Sys Venue)
    (h0 : s.bot.q_switch.byBalance = false) {x : State}
    (h : Run.Reaches (Run.Fires (tasks w quote reason).next) (FiresBare w quote reason) (boot s) x) :
    Swept x := by
  have hboot : Inv w (boot s) :=
    ⟨fun _ => trivial, trivial, fun hb => by cases h0.symm.trans hb⟩
  exact fun hb => ((h.inv hboot fun _ _ _ hI hc hn => inv_next hI hc hn).calm hb).2

/-- A live bot with a floor of 100 USD. -/
def floored (open_orders : Orders) (v : Venue) : Sys Venue :=
  { EmergencyStop.live_bot with
    om := { EmergencyStop.live_bot.om with open_orders := open_orders }
    bot := { EmergencyStop.live_bot.bot with
      q_switch := { exchange := "kucoin", min_balance_usd := 100, min_balance_token := 0 } }
    env := v }

/-- The loop's tick with a balance of 0 USD. -/
def haltRun : List (Act Task Ev) := .start .loop :: turns .loop 3

/-- The bot has nothing open when its balance falls below the floor. -/
theorem halted_bare : ∃ x, x.shared.bot.q_switch.byBalance = true ∧ Swept x := by
  have hplay : (Run.play (tasks EmergencyStop.ticking EmergencyStop.one_buy "").next
      (fun x _ => x.shared.om.open_orders.toList = [] ∧ x.shared.env.live.toList = [])
      (boot (floored .empty {})) haltRun).any
      (fun x => x.shared.bot.q_switch.byBalance) = true := by
    decide +kernel
  obtain ⟨x, hx, hb⟩ := (Option.any_eq_true _ _).mp hplay
  refine ⟨x, hb, none_open_after_halt _ _ _ _ rfl ((Run.reaches_of_play hx).mono ?_)⟩
  intro x a ⟨ht, hl⟩ x' _ _ _
  refine ⟨ht, fun o ho => ?_⟩
  have ho' : o ∈ x.shared.env.live.toList := ho
  rw [hl] at ho'
  exact absurd ho' List.not_mem_nil

/-! ## Orders that rest -/

/-- An open buy order. -/
def resting : Order :=
  { id := "1", exchange := "kucoin", symbol := "ALKIMI/USDT", side := .buy, price := 10
    amount := 1, amount_usd := 10, status := "open", timestamp := 0 }

/-- **The orders rest**: the tick fires its Q-Switch and returns, and the order stays where it
was. -/
theorem orders_rest :
    ¬∀ (w : World) (quote : Quote Venue) (reason : String) (s : Sys Venue) (x : State),
      (∀ n, w.connector_fails n = false) → s.om.dry_run = false →
      s.bot.q_switch.byBalance = false →
      Run.Reaches (Run.Fires (tasks w quote reason).next) (fun _ _ => True) (boot s) x →
      (x.thread .loop).atRest = true → Swept x := by
  intro h
  have hplay : (Run.play (tasks EmergencyStop.ticking EmergencyStop.one_buy "").next
      (fun _ _ => True)
      (boot (floored (Keyed.empty.set resting) (World.create {} resting))) haltRun).any
      (fun x => x.shared.bot.q_switch.byBalance && (x.thread .loop).atRest &&
        decide (x.shared.om.open_orders.toList ≠ [])) = true := by
    decide +kernel
  obtain ⟨x, hx, hp⟩ := (Option.any_eq_true _ _).mp hplay
  rw [Bool.and_eq_true, Bool.and_eq_true] at hp
  obtain ⟨⟨hb, hrest⟩, hopen⟩ := hp
  have hswept := h _ _ _ _ x (fun _ => rfl) rfl rfl (Run.reaches_of_play hx) hrest hb
  exact of_decide_eq_true hopen hswept.tracked

end QSwitchHalt

end Meridian
