import Meridian.Core.Tasks
import Meridian.Lib.Protocol

/-!
# What the tasks of one exchange ask of it

Which requests the coroutines of `core/order_manager.py`, `core/exchange_bot.py` and
`core/paper_trader.py` send, in any interleaving. `Suits` says what a protocol has to allow for all of
them to obey it: every request but those to the exchange, each request to the exchange right after a
permit of the rate limiter, and one that places or cancels orders only outside dry-run mode.

Results:
* `dry_run_sends_no_orders`: in dry-run mode no task ever asks the exchange to place or cancel anything;
* `requests_are_paid`: every request to the exchange has a permit of its own.
-/

namespace Meridian.Requests

open Coop ExchangeBot

section Model

/-- A request that the rate limiter paces. -/
def paced : Req → Bool
  | .fetch_balance | .fetch_open_orders | .fetch_fills _ | .create_limit_order .. | .cancel_order _
  | .cancel_all_orders => true
  | _ => false

/-- A request that places or cancels orders. -/
def orders : Req → Bool
  | .create_limit_order .. | .cancel_order _ | .cancel_all_orders => true
  | _ => false

variable {E σ : Type}

/-- A protocol that the coroutines of the bot and of the paper trader obey, while the state is in `I`. -/
structure Suits (P : Protocol Req Rep Exn σ) (I : Sys E → Prop) : Prop where
  free : ∀ q r, paced r = false → P.allows q r
  paid : ∀ q r, paced r = true → orders r = false → P.allows (P.next q .acquire (.ok ())) r
  live : ∀ q r s, I s → s.om.dry_run = false → orders r = true →
    P.allows (P.next q .acquire (.ok ())) r
  same : ∀ s s' : Sys E, s'.om.dry_run = s.om.dry_run → I s → I s'

end Model

section Coroutines

variable {E σ : Type} {P : Protocol Req Rep Exn σ} {I : Sys E → Prop} {α β : Type}

namespace Suits

variable (h : Suits P I)
include h

theorem ask {r : Req} (hr : paced r = false) : Obeys P I (ask r : Co E (Rep r)) :=
  Obeys.call fun q => h.free q r hr

theorem modify {f : Sys E → Sys E}
    (hf : ∀ s, (f s).om.dry_run = s.om.dry_run) :
    Obeys P I (Prog.modify f : Co E Unit) := Obeys.modify fun s => h.same s (f s) (hf s)

/-- What follows a permit. -/
theorem after_acquire {f : Unit → Co E α}
    (hf : ∀ q, Follows P I (fun _ _ => True) (f ()) (P.next q .acquire (.ok ()))) :
    Obeys P I (Prog.bind (Meridian.ask .acquire : Co E Unit) f) := fun q =>
  follows_bind.mpr ((follows_call _).mpr ⟨h.free q _ rfl, fun x => by
    cases x with
    | ok y => exact hf q
    | error e => trivial⟩)

/-- A request that no mode forbids, after its permit. -/
theorem acquire_ask {r : Req} (hr : paced r = true) (ho : orders r = false) {f : Rep r → Co E α}
    (hf : ∀ a, Obeys P I (f a)) :
    Obeys P I (Prog.bind (Meridian.ask .acquire : Co E Unit) fun _ =>
      Prog.bind (Meridian.ask r : Co E (Rep r)) f) :=
  h.after_acquire fun q => follows_bind.mpr ((follows_call _).mpr ⟨h.paid q r hr ho, fun x => by
    cases x with
    | ok a => exact hf a _
    | error e => trivial⟩)

/-! ## The order manager -/

theorem sync_rest (live_orders : List Order) :
    Obeys P I (do
      let live_map : Orders := .ofList live_orders
      let s ← Prog.read
      let gone := s.om.open_orders.keys.filter fun oid => decide (oid ∉ live_map.keys)
      Prog.forEach gone fun oid => do
        OrderManager.del_open_order oid
        Meridian.ask (.update_order_status oid "filled")
      Prog.forEach live_map.toList fun order => Prog.modify (Sys.mapOm fun om =>
        { om with open_orders := om.open_orders.add order }) : Co E Unit) := by
  refine Obeys.read_bind fun s _ => Obeys.bind (Obeys.forEach (fun oid => ?_) _) fun _ =>
    Obeys.forEach (fun order => ?_) _
  · refine Obeys.bind (Obeys.read_bind fun s _ => ?_) fun _ => h.ask rfl
    split
    · exact h.modify fun _ => rfl
    · exact fun _ => trivial
  · exact h.modify fun _ => rfl

theorem sync_open_orders : Obeys P I (OrderManager.sync_open_orders : Co E Unit) := by
  refine h.after_acquire fun q => follows_read_bind.mpr fun s hs => ?_
  split
  · trivial
  · refine follows_tryCatch.mpr (follows_bind.mpr ((follows_call _).mpr
      ⟨h.paid q _ rfl rfl, fun x => ?_⟩))
    cases x with
    | error e => trivial
    | ok live_orders =>
      refine follows_mono (fun x q _ => ?_) (h.sync_rest live_orders _)
      cases x <;> trivial

theorem cancel_one (order : Order) : Obeys P I (OrderManager.cancel_one order : Co E Unit) := by
  have hrest : Obeys P I (do
      Prog.modify (Sys.mapOm (OrderManager.untrack order.id))
      Meridian.ask (.update_order_status order.id "canceled") : Co E Unit) :=
    Obeys.bind (h.modify fun _ => rfl) fun _ => h.ask rfl
  refine h.after_acquire fun q => follows_read_bind.mpr fun s hs => ?_
  split
  · exact hrest _
  · rename_i hd
    refine follows_bind.mpr ((follows_call _).mpr
      ⟨h.live q _ s hs (Bool.eq_false_iff.mpr hd) rfl, fun x => ?_⟩)
    cases x with
    | error e => trivial
    | ok _ => exact hrest _

theorem cancel_stale_by_age : Obeys P I (OrderManager.cancel_stale_by_age : Co E Unit) := by
  refine Obeys.read_bind fun s _ => ?_
  split
  · exact Obeys.done ()
  · refine Obeys.forEach (fun oid => Obeys.read_bind fun s _ => ?_) _
    split
    · exact h.cancel_one _
    · exact Obeys.done ()

theorem place_one (level : OrderManager.Level) :
    Obeys P I (OrderManager.place_one level : Co E (Option Order)) := by
  unfold OrderManager.place_one
  split
  · exact Obeys.done none
  · refine h.after_acquire fun q => follows_read_bind.mpr fun s hs => ?_
    split
    · exact (Obeys.read_bind fun _ _ => Obeys.bind (h.modify fun _ => rfl) fun _ =>
        Obeys.bind (h.ask rfl) fun _ => Obeys.done _ : Obeys P I (OrderManager.place_dry ..)) _
    · rename_i hd
      refine follows_tryCatch.mpr (follows_bind.mpr ((follows_call _).mpr
        ⟨h.live q _ s hs (Bool.eq_false_iff.mpr hd) rfl, fun x => ?_⟩))
      cases x with
      | error e => trivial
      | ok order =>
        have hrest : Obeys P I (do
            Prog.modify (OrderManager.tracking order)
            Meridian.ask (.insert_order order)
            pure (some order) : Co E (Option Order)) :=
          Obeys.bind (h.modify fun _ => rfl) fun _ => Obeys.bind (h.ask rfl) fun _ => Obeys.done _
        refine follows_mono (fun x q _ => ?_) (hrest _)
        cases x <;> trivial

/-- **A repost** obeys. -/
theorem diff_and_repost (grid : OrderGrid) :
    Obeys P I (OrderManager.diff_and_repost grid : Co E (List Order)) := by
  refine h.sync_open_orders.bind fun _ => h.cancel_stale_by_age.bind fun _ => ?_
  refine Obeys.read_bind fun s _ => Obeys.bind (Obeys.forEach h.cancel_one _) fun _ => ?_
  refine (Obeys.collect h.place_one _).bind fun placed => ?_
  exact Obeys.bind (h.modify fun _ => rfl) fun _ => Obeys.done placed

theorem cancel_all : Obeys P I (OrderManager.cancel_all : Co E Unit) := by
  refine Obeys.bind ?_ fun _ => Obeys.read_bind fun s _ =>
    Obeys.bind (Obeys.forEach (fun _ => (h.ask rfl)) _) fun _ => h.modify fun _ => rfl
  refine fun q => follows_read_bind.mpr fun s hs => ?_
  split
  · trivial
  · rename_i hd
    exact (h.after_acquire fun q => (follows_call _).mpr
      ⟨h.live q _ s hs (Bool.eq_false_iff.mpr hd) rfl, fun _ => trivial⟩) q

/-! ## The bot's loop and the stoppers -/

theorem get_balance : Obeys P I (get_balance : Co E (Option Balance)) := by
  have hrefresh : Obeys P I (refresh_balance : Co E Unit) :=
    Obeys.tryCatch (h.acquire_ask rfl rfl fun _ => h.modify fun _ => rfl) fun _ => Obeys.done ()
  refine Obeys.read_bind fun s _ => ?_
  split
  · exact hrefresh.bind fun _ => Obeys.read_bind fun _ _ => Obeys.done _
  · exact Obeys.done _

theorem ingest_fills : Obeys P I (ingest_fills : Co E Unit) := by
  have hfetch : Obeys P I (fetch_new_fills : Co E (List Fill)) := by
    refine Obeys.read_bind fun s _ => Obeys.tryCatch ?_ fun _ => Obeys.done []
    exact h.after_acquire fun q => (follows_call _).mpr ⟨h.paid q _ rfl rfl, fun _ => trivial⟩
  refine hfetch.bind fun fills => Obeys.forEach (fun fill => ?_) fills
  exact Obeys.bind (h.ask rfl) fun _ => h.modify fun _ => rfl

theorem after_repost (state : GlobalState) (balance : Balance) (grid : OrderGrid)
    (placed : List Order) : Obeys P I (after_repost state balance grid placed : Co E Unit) := by
  have hlist : ∀ s : Sys E, (set_open_orders s).om.dry_run = s.om.dry_run := by
    intro s
    unfold set_open_orders
    split <;> rfl
  refine (h.modify hlist).bind fun _ => Obeys.read_bind fun s _ => ?_
  have hfills : Obeys P I (poll_fills s.clock : Co E Unit) := Obeys.read_bind fun _ _ => by
    split
    · exact h.ingest_fills.bind fun _ => h.modify fun _ => rfl
    · exact Obeys.done ()
  have hsnapshot : Obeys P I (write_snapshot s.clock state balance grid : Co E Unit) :=
    Obeys.read_bind fun _ _ => by
      split
      · exact Obeys.bind (h.ask rfl) fun _ => h.modify fun _ => rfl
      · exact Obeys.done ()
  have hfeatures : Obeys P I (write_features s.clock state grid : Co E Unit) :=
    Obeys.read_bind fun _ _ => by
      split
      · exact Obeys.bind (h.ask rfl) fun _ => Obeys.bind (h.ask rfl) fun _ => Obeys.bind (h.ask rfl) fun _ =>
          (h.modify fun _ => rfl)
      · exact Obeys.done ()
  exact hfills.bind fun _ => hsnapshot.bind fun _ => hfeatures.bind fun _ =>
    Obeys.read_bind fun _ _ => h.ask rfl

theorem tick (quote : Quote E) (state : GlobalState) : Obeys P I (tick quote state) := by
  refine h.get_balance.bind fun balance => ?_
  split
  · exact Obeys.done ()
  · rename_i balance
    have hswitch : Obeys P I (check_q_switch balance : Co E Bool) :=
      Obeys.read_bind fun _ _ => Obeys.bind (h.modify fun _ => rfl) fun _ => Obeys.done _
    have hbreaker : Obeys P I (check_circuit_breaker state balance : Co E Bool) :=
      Obeys.bind (h.modify fun _ => rfl) fun _ => Obeys.read_bind fun _ _ => Obeys.done _
    refine hswitch.bind fun halted => ?_
    split
    · exact Obeys.done ()
    · refine hbreaker.bind fun tripped => ?_
      split
      · exact Obeys.done ()
      · exact Obeys.read_bind fun s _ =>
          (h.diff_and_repost _).bind fun placed => h.after_repost state balance _ placed

/-- **A round of the loop** obeys. -/
theorem round (quote : Quote E) : Obeys P I (round quote) := by
  refine Obeys.tryCatch ?_ fun e => ?_
  · exact Obeys.bind (h.ask rfl) fun state => (h.tick quote state).bind fun _ => h.modify fun _ => rfl
  · have hlost : Obeys P I (do
        let s ← Prog.read
        if s.connected then pure () else try_reconnect : Co E Unit) := Obeys.read_bind fun s _ => by
      split
      · exact Obeys.done ()
      · exact Obeys.tryCatch (h.ask rfl) fun _ => h.modify fun _ => rfl
    cases e with
    | timeout => exact Obeys.done ()
    | connector | database | feed | key id => exact hlost

theorem stopper : Obeys P I (ExchangeBot.cancel_all : Co E Unit) :=
  h.cancel_all.bind fun _ => h.modify fun _ => rfl

theorem emergency_stop : Obeys P I (emergency_stop : Co E Unit) :=
  Obeys.bind (h.modify fun _ => rfl) fun _ => h.stopper.bind fun _ => Obeys.read_bind fun _ _ => h.ask rfl

theorem stop : Obeys P I (stop : Co E Unit) :=
  Obeys.bind (h.modify fun _ => rfl) fun _ => Obeys.bind (h.ask rfl) fun _ => h.stopper.bind fun _ => h.ask rfl

theorem halt_bot (reason : String) : Obeys P I (halt_bot reason : Co E Unit) :=
  Obeys.bind (h.modify fun _ => rfl) fun _ => h.stopper

/-! ## The paper trader -/

theorem book_fill (f : SimulatedFill) : Obeys P I (PaperTrader.book_fill f : Co E Unit) := by
  have hpersist : Obeys P I (PaperTrader.persist_fill f : Co E Unit) :=
    Obeys.read_bind fun _ _ => Obeys.tryCatch (h.ask rfl) fun _ => Obeys.done ()
  have hemit : Obeys P I (PaperTrader.emit_fill_event f : Co E Unit) :=
    Obeys.bind (h.modify fun _ => rfl) fun _ => Obeys.tryCatch (h.ask rfl) fun _ => Obeys.done ()
  exact hpersist.bind fun _ => hemit.bind fun _ => h.modify fun _ => rfl

/-- **A round of the paper trader's loop** obeys. -/
theorem paper_round : Obeys P I (PaperTrader.round : Co E Unit) := by
  have hbook : ∀ book, Obeys P I (PaperTrader.on_book book : Co E Unit) := by
    intro book
    cases book with
    | none => exact Obeys.done ()
    | some book =>
      refine Obeys.read_bind fun s _ => ?_
      split
      · exact Obeys.done ()
      · exact Obeys.read_bind fun _ _ => Obeys.bind (h.modify fun _ => rfl) fun _ =>
          Obeys.forEach h.book_fill _
  refine Obeys.bind (Obeys.tryCatch ?_ fun _ => Obeys.done ()) fun _ => h.ask rfl
  exact Obeys.bind (h.ask rfl) fun book => hbook book

end Suits

end Coroutines

section System

variable {σ : Type} {w : World} {quote : Quote Venue} {reason : String} {x : State}

/-- Every task obeys. -/
theorem Suits.body {P : Protocol Req Rep Exn σ} {I : Sys Venue → Prop} (h : Suits P I) (i : Task) :
    Obeys P I ((tasks w quote reason).body i) := by
  cases i with
  | loop => exact h.round quote
  | heartbeat n => exact h.emergency_stop
  | shutdown n => exact h.stop
  | api n => exact h.halt_bot reason
  | poller => exact h.paper_round
  | poller_stop n => exact Obeys.bind (h.modify fun _ => rfl) fun _ => h.ask rfl

/-- Neither a call nor an event changes the mode. -/
theorem Suits.env {P : Protocol Req Rep Exn σ} {I : Sys Venue → Prop} (h : Suits P I) (w : World)
    (quote : Quote Venue) (reason : String) :
    (∀ r s, I s → I ((tasks w quote reason).answer r s).2) ∧
      ∀ e s s', I s → (tasks w quote reason).env e s = some s' → I s' := by
  refine ⟨fun r s => h.same s _ (congrArg OrderManager.dry_run (World.answer_om w r s)), ?_⟩
  rintro e s s' hs he
  obtain rfl := Option.some.inj he
  refine h.same s _ ?_ hs
  cases e <;> rfl

/-! ## Dry-run mode -/

/-- Nothing that places or cancels orders. -/
def noOrders : Protocol Req Rep Exn Unit where
  allows _ r := orders r = false
  next _ _ _ := ()

theorem suits_noOrders : Suits noOrders fun s : Sys Venue => s.om.dry_run = true where
  free _ r hr := by cases r <;> first | rfl | exact absurd hr nofun
  paid _ _ _ ho := ho
  live _ _ _ hs hd := absurd (hs.symm.trans hd) nofun
  same _ _ hd hs := hd.trans hs

/-- **In dry-run mode** the tasks never ask the exchange to place or to cancel anything, in whatever
order they run, stop and are stopped, and whatever the exchange, the database and the feed reply. -/
theorem dry_run_sends_no_orders (w : World) (quote : Quote Venue) (reason : String) {s : Sys Venue}
    (hdry : s.om.dry_run = true)
    (h : Run.Reaches (Run.Fires (tasks w quote reason).next) (fun _ _ => True) (boot s) x) :
    ∀ y ∈ x.sent, orders y.1 = false := by
  obtain ⟨hanswer, henv⟩ := suits_noOrders.env w quote reason
  refine (h.inv (I := fun x => (∃ qs, Obedient noOrders (fun s => s.om.dry_run = true) x qs) ∧
    ∀ y ∈ x.sent, orders y.1 = false) ⟨⟨fun _ => (), hdry, fun _ => trivial⟩, fun _ hy =>
      absurd hy List.not_mem_nil⟩ ?_).2
  rintro x a x' ⟨⟨qs, hx⟩, hsent⟩ - hn
  obtain ⟨qs', hx', hstep⟩ := hx.next suits_noOrders.body hanswer henv hn
  refine ⟨⟨qs', hx'⟩, fun y hy => ?_⟩
  obtain ⟨i, q', t', s', rfl, -, hm⟩ | ⟨-, hsame, -⟩ := hstep
  · exact (hm.sent_allowed hy).elim (hsent y) id
  · exact hsent y (hsame ▸ hy)

/-- A bot that is running. -/
def running_bot (dry_run : Bool) : Sys Venue where
  om := { exchange := "mexc", symbol := "ALKIMI/USDT", dry_run := dry_run }
  bot :=
    { exchange := "mexc"
      q_switch := { exchange := "mexc", min_balance_usd := 0, min_balance_token := 0 }
      circuit_breaker := { max_daily_loss_pct := 10, max_drawdown_pct := 10, day_start := 719163 }
      has_paper_trader := false
      running := true }
  paper := { exchange := "mexc", maker_fee_rate := 1 / 1000 }
  clock := 0
  uuid4 := World.longer
  env := {}

/-- The states keep coming. -/
def ticking_world : World := { World.quiet with state := fun _ => some ⟨10, 0, 0, "", "", 0⟩ }

/-- One buy level. -/
def one_level : Quote Venue := fun _ _ _ =>
  { buy_prices := [10], buy_amounts := [1], sell_prices := [], sell_amounts := [], global_mid := 10
    aggressiveness := 0 }

/-- A tick, and a stop that comes to its first await. -/
def tick_and_stop : List (Act Task Ev) :=
  .start .loop :: turns .loop 6 ++ .start (.heartbeat 0) :: turns (.heartbeat 0) 1

theorem no_orders_tick_and_stop :
    ∃ x : State, x.sent ≠ [] ∧ ∀ y ∈ x.sent, orders y.1 = false := by
  have hplay : (Run.play (tasks ticking_world one_level "stop").next (fun _ _ => True)
      (boot (running_bot true)) tick_and_stop).any (fun x => decide (x.sent.length ≠ 0)) = true := by
    decide +kernel
  obtain ⟨x, hx, hne⟩ := (Option.any_eq_true _ _).mp hplay
  exact ⟨x, List.length_pos_iff.mp (Nat.pos_of_ne_zero (of_decide_eq_true hne)),
    dry_run_sends_no_orders ticking_world one_level "stop" rfl (Run.reaches_of_play hx)⟩

/-! ## Permits -/

/-- A granted permit pays for one request. -/
def permits : Account Req Rep Exn Bool where
  allows q r := paced r = true → q = true
  next q r y :=
    match r, y with
    | .acquire, .ok _ => true
    | r, _ => q && !paced r
  worth q := q.toNat
  gain r := if r = .acquire then 1 else 0
  cost r := if paced r then 1 else 0
  affords q r hr := by
    by_cases hp : paced r = true
    · rw [hr hp, if_pos hp]
      exact Nat.le_add_right _ _
    · rw [if_neg hp]
      exact Nat.zero_le _
  keeps q r y hr := by
    cases r with
    | acquire => cases y <;> cases q <;> simp [paced]
    | fetch_balance | fetch_open_orders | fetch_fills | create_limit_order | cancel_order
    | cancel_all_orders =>
      obtain rfl := hr rfl
      simp [paced]
    | _ => simp [paced]

theorem suits_permits : Suits permits.toProtocol fun _ : Sys Venue => True where
  free _ _ hr hp := absurd (hr.symm.trans hp) nofun
  paid _ _ _ _ _ := rfl
  live _ _ _ _ _ _ _ := rfl
  same _ _ _ _ := trivial

theorem sum_ite_eq_countP {α : Type} (p : α → Prop) [DecidablePred p] (l : List α) :
    (l.map fun a => if p a then 1 else 0).sum = l.countP fun a => decide (p a) := by
  induction l with
  | nil => rfl
  | cons a l ih =>
    rw [List.map_cons, List.sum_cons, ih, List.countP_cons, Nat.add_comm]
    simp

/-- **Every request to the exchange has a permit of its own**: whatever the order of the steps, the
paced requests that were sent and the tasks that still wait for their permit are together no more
than the permits asked for. -/
theorem requests_are_paid (w : World) (quote : Quote Venue) (reason : String) (s : Sys Venue)
    (h : Run.Reaches (Run.Fires (tasks w quote reason).next) (fun _ _ => True) (boot s) x)
    {F : Finset Task} (hF : ∀ i ∈ F, (x.thread i).pending = some .acquire) :
    (x.sent.countP fun y => paced y.1) + F.card ≤ x.sent.countP fun y => decide (y.1 = .acquire) := by
  obtain ⟨hanswer, henv⟩ := suits_permits.env w quote reason
  obtain ⟨qs, -, hbalance⟩ := h.inv
    (I := fun x => ∃ qs, Obedient permits.toProtocol (fun _ => True) x qs ∧ permits.Balanced x qs)
    ⟨fun _ => false, ⟨trivial, fun _ => trivial⟩, fun F => by simp [Account.credit, Account.spent,
      Account.gained, boot, Thread.pending, permits]⟩ (by
      rintro x a x' ⟨qs, hx, hb⟩ - hn
      obtain ⟨qs', hx', hstep⟩ := hx.next suits_permits.body hanswer henv hn
      refine ⟨qs', hx', ?_⟩
      obtain ⟨i, q', t', s', rfl, rfl, hm⟩ | ⟨hthread, hsent, rfl⟩ := hstep
      · exact hb.move hm
      · intro F
        have hF := hb F
        unfold Account.spent Account.gained at hF ⊢
        rwa [hthread, hsent])
  have hcredit : F.card ≤ ∑ i ∈ F, permits.credit (x.thread i) (qs i) := by
    rw [Finset.card_eq_sum_ones]
    refine Finset.sum_le_sum fun i hi => ?_
    unfold Account.credit
    simp [hF i hi, permits, paced]
  have hF := hbalance F
  unfold Account.spent Account.gained permits at hF
  simp only at hF
  rw [sum_ite_eq_countP (fun y : Req × Sys Venue => paced y.1 = true),
    sum_ite_eq_countP fun y : Req × Sys Venue => y.1 = .acquire] at hF
  simp only [Bool.decide_eq_true] at hF
  exact (Nat.add_comm _ _).trans_le ((Nat.add_le_add_right hcredit _).trans hF)

/-- A stop of a live bot that waits for its permit. -/
theorem paid_tick_and_stop : ∃ x : State, x.sent.length ≠ 0 ∧
    (x.sent.countP fun y => paced y.1) + 1 ≤ x.sent.countP fun y => decide (y.1 = .acquire) := by
  have hplay : (Run.play (tasks ticking_world one_level "stop").next (fun _ _ => True)
      (boot (running_bot false)) (.start .loop :: turns .loop 8 ++ [.start (.heartbeat 0)])).any
      (fun x => decide (x.sent.length ≠ 0) &&
        decide ((x.thread (.heartbeat 0)).pending = some .acquire)) = true := by
    decide +kernel
  obtain ⟨x, hx, hcheck⟩ := (Option.any_eq_true _ _).mp hplay
  rw [Bool.and_eq_true, decide_eq_true_eq, decide_eq_true_eq] at hcheck
  refine ⟨x, hcheck.1, ?_⟩
  have hpaid := requests_are_paid ticking_world one_level "stop" (running_bot false)
    (Run.reaches_of_play hx) (F := {.heartbeat 0}) fun i hi => by
      rw [Finset.mem_singleton.mp hi]
      exact hcheck.2
  rwa [Finset.card_singleton] at hpaid

end System

end Meridian.Requests
