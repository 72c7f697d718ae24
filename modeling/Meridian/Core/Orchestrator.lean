import Meridian.Core.Permits
import Meridian.Core.Venue

/-!
# `Orchestrator`: stopping every bot

Model of `emergency_stop_all` and `stop` of `core/orchestrator.py`. The bots of all exchanges make
up a `Fleet`; what the orchestrator does to one of them is the bot's own coroutine, on its part of the
fleet (`on_bot`).

Both loops await one bot after the other and let what a bot raises end them, so a bot that fails
leaves those behind it as they were.

Results:
* `stops_isolated_iff`: whatever the order of the bots, each one is stopped in spite of the others'
  failures iff, for every bot that fails, all the others were stopped before;
* `later_bot_keeps_trading`: two bots of which the first fails.
-/

namespace Meridian

open Coop

/-- `self._bots`, each bot with what belongs to its exchange, by name. -/
abbrev Fleet := String → Sys Venue

/-- What the orchestrator awaits: a bot's calls, the live feed, the regime master. -/
inductive FleetReq where
  | bot (name : String) (r : Req)
  | emit_emergency_stop (exchange reason : String)
  | regime_master_stop
  deriving DecidableEq

abbrev FleetRep : FleetReq → Type
  | .bot _ r => Rep r
  | _ => Unit

/-- A coroutine of the orchestrator. -/
abbrev FleetCo (α : Type) := Prog Fleet FleetRep Exn α

namespace Orchestrator

/-- One bot of the fleet. -/
def bot_lens (name : String) : Lens (Sys Venue) Fleet where
  get f := f name
  set f s := Function.update f name s
  get_set f s := Function.update_self name s f
  set_get f := Function.update_eq_self name f
  set_set f s s' := by simp only [Function.update_idem]

/-- A bot's coroutine, run by the orchestrator. -/
def on_bot (name : String) (p : Co Venue Unit) : FleetCo Unit :=
  p.zoom (bot_lens name) (FleetReq.bot name) fun _ x => x

/-- `for bot in self._bots.values()`: the same for each. -/
def each (names : List String) (p : Co Venue Unit) : FleetCo Unit :=
  Prog.forEach names fun name => on_bot name p

/-- `emergency_stop_all` (`orchestrator.py:222-228`). -/
def emergency_stop_all (names : List String) (reason : String) : FleetCo Unit := do
  each names (ExchangeBot.halt_bot reason)
  Prog.call (FleetReq.emit_emergency_stop "ALL" reason)

/-- `stop` (`orchestrator.py:208-220`), up to the cancelling of its own tasks. -/
def stop (names paper_names : List String) : FleetCo Unit := do
  each names ExchangeBot.stop
  each paper_names PaperTrader.stop
  Prog.call FleetReq.regime_master_stop

/-- How the orchestrator's calls are served: a bot's, by its exchange. -/
def answer (w : String → World) : Answer Fleet FleetRep Exn
  | .bot name r, f =>
    (((w name).answer r (f name)).1, Function.update f name ((w name).answer r (f name)).2)
  | .emit_emergency_stop .., f => (.ok (), f)
  | .regime_master_stop, f => (.ok (), f)

/-! ## One loop over the bots -/

variable {w : String → World} {p : Co Venue Unit} {names : List String} {f : Fleet} {i j : String}

/-- What the coroutine does to one bot. -/
def after (w : String → World) (p : Co Venue Unit) (i : String) (s : Sys Venue) : Sys Venue :=
  (p.run (w i).answer s).2

/-- The coroutine, run at this bot from here with what its exchange answers, ends in an exception.
-/
def Raises (w : String → World) (p : Co Venue Unit) (i : String) (s : Sys Venue) : Prop :=
  ∃ e, (p.run (w i).answer s).1 = .error e

theorem run_on_bot (w : String → World) (name : String) (p : Co Venue Unit) (f : Fleet) :
    (on_bot name p).run (answer w) f =
      ((p.run (w name).answer (f name)).1, Function.update f name (after w p name (f name))) := by
  refine run_zoom (fun r f => ⟨?_, rfl⟩) p f
  show Except.map (fun x => x) ((w name).answer r (f name)).1 = ((w name).answer r (f name)).1
  cases ((w name).answer r (f name)).1 <;> rfl

/-- The loop at its first bot. -/
theorem run_each_cons (w : String → World) (p : Co Venue Unit) (j : String) (names : List String)
    (f : Fleet) : (each (j :: names) p).run (answer w) f =
    match (p.run (w j).answer (f j)).1 with
    | .ok _ => (each names p).run (answer w) (Function.update f j (after w p j (f j)))
    | .error e => (.error e, Function.update f j (after w p j (f j))) := by
  rw [each, Prog.forEach, run_bind, run_on_bot]
  cases (p.run (w j).answer (f j)).1 <;> rfl

/-- A bot that the loop does not name is left alone. -/
theorem run_each_of_not_mem : ∀ {names : List String} {f : Fleet}, i ∉ names →
    ((each names p).run (answer w) f).2 i = f i
  | [], _, _ => rfl
  | j :: names, f, h => by
    have hj := List.ne_of_not_mem_cons h
    have hn := List.not_mem_of_not_mem_cons h
    rw [run_each_cons]
    split
    · rw [run_each_of_not_mem hn, Function.update_of_ne hj]
    · exact Function.update_of_ne hj _ _

/-- **Every bot is reached, or left as it was behind a bot that raises.** -/
theorem run_each_of_mem : ∀ {names : List String} {f : Fleet}, names.Nodup → i ∈ names →
    ((each names p).run (answer w) f).2 i = after w p i (f i) ∨
      ((each names p).run (answer w) f).2 i = f i ∧ ∃ j ∈ names, i ≠ j ∧ Raises w p j (f j)
  | [], _, _, h => absurd h List.not_mem_nil
  | j :: names, f, hn, h => by
    obtain ⟨hj, hn⟩ := List.nodup_cons.mp hn
    rw [run_each_cons]
    by_cases hij : i = j
    · subst hij
      refine .inl ?_
      split
      · rw [run_each_of_not_mem hj, Function.update_self]
      · exact Function.update_self _ _ _
    · have hi : i ∈ names := (List.mem_cons.mp h).resolve_left hij
      split
      · rename_i x hx
        have hrest := run_each_of_mem (f := Function.update f j (after w p j (f j))) hn hi
        rw [Function.update_of_ne hij] at hrest
        refine hrest.imp_right fun ⟨hsame, k, hk, hik, hraise⟩ => ⟨hsame, k, ?_⟩
        have hkj : k ≠ j := fun he => hj (he ▸ hk)
        rw [Function.update_of_ne hkj] at hraise
        exact ⟨List.mem_cons_of_mem _ hk, hik, hraise⟩
      · rename_i e he
        exact .inr ⟨Function.update_of_ne hij _ _, j, List.mem_cons_self, hij, e, he⟩

/-- What the coroutine keeps true of a bot, the loop keeps true of it. -/
theorem run_each_keeps {G : Sys Venue → Prop} (hp : ∀ s, G s → G (after w p i s)) :
    ∀ {names : List String} {f : Fleet}, G (f i) → G (((each names p).run (answer w) f).2 i)
  | [], _, h => h
  | j :: names, f, h => by
    have hj : G (Function.update f j (after w p j (f j)) i) := by
      by_cases hij : i = j
      · subst hij
        rw [Function.update_self]
        exact hp _ h
      · rwa [Function.update_of_ne hij]
    rw [run_each_cons]
    split
    · exact run_each_keeps hp hj
    · exact hj

/-- **Isolation of one loop.** Whatever the order of the bots, what the coroutine achieves for each,
and what follows the loop keeps, is achieved iff, for every bot that raises, it holds of all the others
from the start. -/
theorem each_isolated_iff {G : String → Sys Venue → Prop} {tail : FleetCo Unit}
    (hn : names.Nodup) (hgood : ∀ i ∈ names, G i (after w p i (f i)))
    (htail : ∀ f i, G i (f i) → G i ((tail.run (answer w) f).2 i)) :
    (∀ ns, ns.Perm names → ∀ i ∈ names,
      G i ((((each ns p).bind fun _ => tail).run (answer w) f).2 i)) ↔
      ∀ j ∈ names, Raises w p j (f j) → ∀ i ∈ names, i ≠ j → G i (f i) := by
  constructor
  · rintro h j hj ⟨e, he⟩ i hi hij
    have hfirst := h (j :: names.erase j) (List.perm_cons_erase hj).symm i hi
    simp only [run_bind, run_each_cons, he] at hfirst
    rwa [Function.update_of_ne hij] at hfirst
  · intro h ns hp i hi
    have hloop : G i (((each ns p).run (answer w) f).2 i) := by
      rcases run_each_of_mem (w := w) (p := p) (f := f) (hp.nodup_iff.mpr hn) (hp.mem_iff.mpr hi)
        with hreached | ⟨hsame, j, hj, hij, hraise⟩
      · rw [hreached]
        exact hgood i hi
      · rw [hsame]
        exact h j (hp.mem_iff.mp hj) hraise i hi hij
    rw [run_bind]
    split
    · rename_i x f' hrun
      rw [hrun] at hloop
      exact htail f' i hloop
    · rename_i e f' hrun
      rwa [hrun] at hloop

/-! ## One bot -/

/-- The bot's orders are cancelled: it tracks none, and unless it is a dry run none is live. -/
def Cancelled (s : Sys Venue) : Prop :=
  s.om.open_orders.toList = [] ∧ (s.om.dry_run = false → s.env.live.toList = [])

/-- `ExchangeBot.stop` has stopped the bot. -/
def StoppedBot (s : Sys Venue) : Prop :=
  s.bot.running = false ∧ s.connected = false ∧ Cancelled s

variable {s : Sys Venue} {v : World}

theorem ask_bot (v : World) (b : ExchangeBot) (r : Req) :
    Keeps v.answer alone (fun s => s.bot = b) (ask r) :=
  Keeps.call (fun h hs => h ▸ hs) (fun _ _ => trivial) fun s hs =>
    ⟨trivial, (World.answer_bot v r s).trans hs⟩

/-- `cancel_all` leaves the bot itself as it is. -/
theorem cancel_all_bot (v : World) (b : ExchangeBot) :
    Keeps v.answer alone (fun s => s.bot = b) (ExchangeBot.cancel_all : Co Venue Unit) := by
  have hpermits : OrderManager.Permits v.answer alone (fun s => s.bot = b) fun _ => true :=
    .of_any (fun r _ => ask_bot v b r) (fun _ _ _ => rfl) fun _ _ _ _ hs => ⟨trivial, hs⟩
  exact (hpermits.cancel_all (fun _ _ => rfl) fun _ _ => rfl).bind fun _ =>
    Keeps.modify fun _ hs => ⟨trivial, hs⟩

/-- No order is live on the exchange of a live bot. -/
def NothingLive (s : Sys Venue) : Prop := s.om.dry_run = false → s.env.live.toList = []

theorem row_nothingLive (v : World) (id status : String) :
    Keeps v.answer alone NothingLive (ask (.update_order_status id status)) := by
  refine Keeps.call (fun h hs => h ▸ hs) (fun _ _ => trivial) fun s hs => ⟨trivial, ?_⟩
  unfold World.answer
  split
  · exact hs
  · exact hs

/-- A `cancel_all` that returns has cancelled the orders. -/
theorem cancel_all_cancelled (v : World) (s : Sys Venue) :
    wp v.answer alone (onOk fun _ => Cancelled) (ExchangeBot.cancel_all : Co Venue Unit) s := by
  have hexchange : wp v.answer alone (onOk fun _ => NothingLive)
      (OrderManager.cancel_on_exchange : Co Venue Unit) s := by
    simp only [OrderManager.cancel_on_exchange, bind_eq, wp_bind, wp_read, thenPost]
    split
    · rename_i hd
      exact fun hd' => absurd (hd.symm.trans hd') (by simp)
    · have hacquire : Keeps v.answer alone (fun _ => True) (ask .acquire) :=
        Keeps.call (fun _ h => h) (fun _ _ => trivial) fun _ _ => ⟨trivial, trivial⟩
      refine wp_bind_ok (hacquire.onOk trivial) fun _ s1 _ => ?_
      rw [wp_ask_alone .cancel_all_orders]
      unfold World.answer
      split
      · trivial
      · exact fun _ => rfl
  refine wp_bind_ok (wp_bind_ok hexchange fun _ s1 h1 => ?_) fun _ s2 h2 => ⟨trivial, h2⟩
  rw [bind_eq, wp_bind, wp_read]
  refine wp_bind_ok ((Keeps.forEach fun id _ => row_nothingLive v id "canceled").onOk h1)
    fun _ s2 h2 => ⟨trivial, rfl, h2⟩

/-- `emergency_stop_all` triggers the bot's Q-Switch in any case, and cancels its orders unless it
raises. -/
theorem after_halt_bot (v : World) (reason : String) (s : Sys Venue) :
    wp v.answer alone (fun x s' => s'.bot.q_switch.triggered = true ∧
      onOk (fun _ => Cancelled) x s') (ExchangeBot.halt_bot reason : Co Venue Unit) s := by
  rw [ExchangeBot.halt_bot, bind_eq, wp_bind, wp_modify]
  refine ⟨trivial, ?_⟩
  refine wp_and (wp_mono (fun x s' hb => ?_) (cancel_all_bot v _ _ rfl)) (cancel_all_cancelled v _)
  rw [hb]
  exact QSwitch.trigger_manually_triggered _ _ _

/-- A `stop` that returns has stopped the bot. -/
theorem after_stop (v : World) (s : Sys Venue) :
    wp v.answer alone (onOk fun _ => StoppedBot) (ExchangeBot.stop : Co Venue Unit) s := by
  rw [ExchangeBot.stop, bind_eq, wp_bind, wp_modify]
  refine ⟨trivial, ?_⟩
  refine wp_bind_ok ((ask_bot v { s.bot with running := false } .heartbeat_stop).onOk rfl)
    fun _ s1 h1 => ?_
  refine wp_bind_ok (R := fun _ s' => s'.bot.running = false ∧ Cancelled s') ?_
    fun _ s2 ⟨hrunning, hc⟩ => ?_
  · refine wp_mono (fun x s2 hx => ?_) (wp_and (cancel_all_bot v _ s1 h1) (cancel_all_cancelled v s1))
    cases x with
    | ok _ => exact ⟨by rw [hx.1], hx.2⟩
    | error e => trivial
  · rw [wp_ask_alone .disconnect]
    unfold World.answer
    split
    · trivial
    · exact ⟨hrunning, rfl, hc⟩

/-- Unless the coroutine raises, it achieves what its runs that raise nothing achieve. -/
theorem achieved {q : Co Venue Unit} {P : Sys Venue → Prop} {i : String}
    (h : wp (w i).answer alone (onOk fun _ => P) q s) (hno : ¬Raises w q i s) : P (after w q i s) := by
  rw [wp_alone] at h
  unfold Raises at hno
  unfold after
  generalize q.run (w i).answer s = x at *
  obtain ⟨x, s'⟩ := x
  cases x with
  | ok a => exact h
  | error e => exact absurd ⟨e, rfl⟩ hno

/-- Stopping the paper trader leaves a stopped bot stopped. -/
theorem poller_stop_stopped (v : World) (h : StoppedBot s) :
    StoppedBot (PaperTrader.stop.run v.answer s).2 := by
  have hw : wp v.answer alone (fun _ => StoppedBot) (PaperTrader.stop : Co Venue Unit) s := by
    rw [PaperTrader.stop, bind_eq, wp_bind, wp_modify]
    refine ⟨trivial, ?_⟩
    rw [thenPost, wp_ask_alone .disconnect_ws]
    have harrive : ∀ s', StoppedBot s' → StoppedBot (v.arrive s') := fun s' h' =>
      ⟨h'.1, by rw [World.arrive, h'.2.1, Bool.false_and], h'.2.2⟩
    unfold World.answer
    split
    · exact harrive _ h
    · exact harrive _ h
  exact wp_alone.mp hw

/-! ## Both stops -/

/-- `emergency_stop_all` has done its work: every bot's Q-Switch is triggered, and every bot whose
`cancel_all` did not raise has its orders cancelled. -/
def AllHalted (w : String → World) (names : List String) (reason : String) (f f' : Fleet) : Prop :=
  ∀ i ∈ names, (f' i).bot.q_switch.triggered = true ∧
    (¬Raises w (ExchangeBot.halt_bot reason) i (f i) → Cancelled (f' i))

/-- `stop` has done its work: every bot that did not raise is stopped. -/
def AllStopped (w : String → World) (names : List String) (f f' : Fleet) : Prop :=
  ∀ i ∈ names, ¬Raises w ExchangeBot.stop i (f i) → StoppedBot (f' i)

/-- **Isolation.** Whatever the order of the bots, an emergency stop halts all of them and a stop
ends all of them iff, for every bot that raises, the work was done for all the others before the
call: what one bot raises ends the loop over the bots, and where it comes first no other is reached.
-/
theorem stops_isolated_iff (w : String → World) (names paper_names : List String) (reason : String)
    (f : Fleet) (hn : names.Nodup) :
    (∀ ns, ns.Perm names →
      AllHalted w names reason f ((emergency_stop_all ns reason).run (answer w) f).2 ∧
      AllStopped w names f ((stop ns paper_names).run (answer w) f).2) ↔
    (∀ j ∈ names, Raises w (ExchangeBot.halt_bot reason) j (f j) → ∀ i ∈ names, i ≠ j →
      (f i).bot.q_switch.triggered = true ∧
        (¬Raises w (ExchangeBot.halt_bot reason) i (f i) → Cancelled (f i))) ∧
    ∀ j ∈ names, Raises w ExchangeBot.stop j (f j) → ∀ i ∈ names, i ≠ j →
      ¬Raises w ExchangeBot.stop i (f i) → StoppedBot (f i) := by
  rw [forall₂_and]
  refine and_congr ?_ ?_
  · refine each_isolated_iff (G := fun i s => s.bot.q_switch.triggered = true ∧
      (¬Raises w (ExchangeBot.halt_bot reason) i (f i) → Cancelled s)) hn (fun i _ => ?_)
      fun _ _ h => h
    have h := after_halt_bot (w i) reason (f i)
    exact ⟨(wp_alone.mp h).1, achieved (wp_mono (fun _ _ hx => hx.2) h)⟩
  · refine each_isolated_iff (G := fun i s => ¬Raises w ExchangeBot.stop i (f i) →
      StoppedBot s) hn (fun i _ => achieved (after_stop (w i) (f i))) fun g i h hno => ?_
    rw [bind_eq, run_bind]
    have hkeeps : StoppedBot (((each paper_names PaperTrader.stop).run (answer w) g).2 i) :=
      run_each_keeps (fun s hs => poller_stop_stopped (w i) hs) (h hno)
    split
    · rename_i x g' hrun
      rwa [hrun] at hkeeps
    · rename_i e g' hrun
      rwa [hrun] at hkeeps

/-! ## Two fleets -/

/-- A live bot with its loop running. -/
def trading : Sys Venue where
  om := { exchange := "gate", symbol := "ALKIMI/USDT", dry_run := false }
  bot :=
    { exchange := "gate"
      q_switch := { exchange := "gate", min_balance_usd := 0, min_balance_token := 0 }
      circuit_breaker := { max_daily_loss_pct := 10, max_drawdown_pct := 10, day_start := 0 }
      has_paper_trader := false
      running := true }
  paper := { exchange := "gate", maker_fee_rate := 0 }
  clock := 0
  uuid4 := World.longer
  env := {}

/-- The connector of kucoin fails. -/
def kucoin_down (name : String) : World :=
  { World.quiet with connector_fails := fun _ => decide (name = "kucoin") }

/-- The bot after the one that fails keeps trading. -/
theorem later_bot_keeps_trading :
    ¬∀ (w : String → World) (names paper_names : List String) (reason : String) (f : Fleet),
      names.Nodup → ∀ ns, ns.Perm names →
        AllHalted w names reason f ((emergency_stop_all ns reason).run (answer w) f).2 ∧
        AllStopped w names f ((stop ns paper_names).run (answer w) f).2 := by
  intro h
  have hgate := ((h kucoin_down ["kucoin", "gate"] [] "stop" (fun _ => trading) (by decide) _
    (List.Perm.refl _)).1 "gate" (by simp)).1
  exact absurd hgate (by decide +kernel)

/-- Where no bot fails, both are stopped. -/
theorem both_bots_stopped :
    AllHalted (fun _ => World.quiet) ["kucoin", "gate"] "stop" (fun _ => trading)
        ((emergency_stop_all ["gate", "kucoin"] "stop").run (answer fun _ => World.quiet)
          fun _ => trading).2 ∧
      AllStopped (fun _ => World.quiet) ["kucoin", "gate"] (fun _ => trading)
        ((stop ["gate", "kucoin"] []).run (answer fun _ => World.quiet) fun _ => trading).2 := by
  have hhalt : ((ExchangeBot.halt_bot "stop").run World.quiet.answer trading).1 = .ok () := rfl
  have hstop : (ExchangeBot.stop.run World.quiet.answer trading).1 = .ok () := rfl
  refine (stops_isolated_iff _ ["kucoin", "gate"] [] "stop" (fun _ => trading) (by decide)).mpr
    ⟨?_, ?_⟩ ["gate", "kucoin"] (by decide)
  · rintro j - ⟨e, he⟩
    exact absurd (hhalt.symm.trans he) (by simp)
  · rintro j - ⟨e, he⟩
    exact absurd (hstop.symm.trans he) (by simp)

end Orchestrator

end Meridian
