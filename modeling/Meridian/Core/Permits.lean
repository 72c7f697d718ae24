import Meridian.Core.ExchangeBot
import Meridian.Core.PaperTrader

/-!
# What the bot's coroutines do to the state they share

Which rules the coroutines of one exchange keep to depends on what is proved about them; what they
do does not. `OrderManager.Permits` lists every change that the order manager makes and the requests
it sends, `ExchangeBot.Permits` adds those of the bot's loop and of the stoppers. Rules that permit
these are kept by every coroutine (`Permits.round`, `Permits.emergency_stop`, `Permits.stop`,
`Permits.halt_bot`), from any state in `I`.
-/

namespace Meridian

open Coop

variable {E : Type} {A : Answer (Sys E) Rep Exn} {c : Rules (Sys E) Req} {I : Sys E → Prop}
  {ok : Req → Bool}

/-- The rules allow a change of the state. -/
def Allowed (c : Rules (Sys E) Req) (I : Sys E → Prop) (f : Sys E → Sys E) : Prop :=
  ∀ s, I s → c.own s (f s) ∧ I (f s)

namespace OrderManager

/-- Every call of `cancel_all` keeps to rules that permit its calls and the clearing at its end. -/
theorem keeps_cancel_all (hcall : ∀ r ∈ [Req.acquire, .cancel_all_orders], Keeps A c I (ask r))
    (hrow : ∀ id, Keeps A c I (ask (.update_order_status id "canceled")))
    (hclear : Allowed c I (Sys.mapOm clear)) : Keeps A c I cancel_all := by
  refine Keeps.bind (Keeps.read_bind fun s hs => ?_) fun _ => Keeps.read_bind fun s hs => ?_
  · split
    · exact hs
    · exact ((hcall .acquire (by simp)).bind fun _ => hcall .cancel_all_orders (by simp)) s hs
  · exact ((Keeps.forEach fun id _ => hrow id).bind fun _ => Keeps.modify hclear) s hs

/-- `_sync_open_orders` keeps to rules that its body keeps to in live mode. -/
theorem keeps_sync_open_orders (hacquire : Keeps A c I (ask .acquire))
    (hsync : ∀ s, I s → s.om.dry_run = false → wp A c (fun _ => I) sync_body s) :
    Keeps A c I sync_open_orders := by
  refine hacquire.bind fun _ => Keeps.read_bind fun s hs => ?_
  split
  · exact hs
  · rename_i hd
    rw [wp_tryCatch]
    refine wp_mono (fun x s' hx => ?_) (hsync s hs (Bool.eq_false_iff.mpr hd))
    cases x <;> exact hx

/-- `_cancel_stale_by_age` keeps to rules that `_cancel_one` keeps to. -/
theorem keeps_cancel_stale_by_age (hcancel : ∀ order, Keeps A c I (cancel_one order)) :
    Keeps A c I cancel_stale_by_age := by
  refine Keeps.read_bind fun s hs => ?_
  split
  · exact hs
  · refine Keeps.forEach (fun oid _ => Keeps.read_bind fun s hs => ?_) s hs
    split
    · exact hcancel _ s hs
    · exact hs

/-- `_place_one` keeps to rules that both its modes keep to. -/
theorem keeps_place_one (hacquire : Keeps A c I (ask .acquire)) (level : Level)
    (hdry : ∀ s, I s → s.om.dry_run = true → 0 < level.2.1 → 0 < level.2.2 →
      wp A c (fun _ => I) (place_dry level.1 level.2.1 level.2.2) s)
    (hlive : ∀ s, I s → s.om.dry_run = false →
      wp A c (fun _ => I) (place_live level.1 level.2.1 level.2.2) s) :
    Keeps A c I (place_one level) := by
  unfold place_one
  split
  · exact Keeps.done none
  · rename_i hpos
    rw [not_or, not_le, not_le] at hpos
    refine hacquire.bind fun _ => Keeps.read_bind fun s hs => ?_
    split
    · rename_i hd
      exact hdry s hs hd hpos.2 hpos.1
    · rename_i hd
      exact hlive s hs (Bool.eq_false_iff.mpr hd)

/-- `diff_and_repost` keeps to rules that its parts keep to. -/
theorem keeps_diff_and_repost (hsync : Keeps A c I sync_open_orders)
    (hcancel : ∀ order, Keeps A c I (cancel_one order))
    (hplace : ∀ level, Keeps A c I (place_one level))
    (hgrid : ∀ grid, Allowed c I (Sys.mapOm fun om => { om with last_grid := some grid }))
    (grid : OrderGrid) : Keeps A c I (diff_and_repost grid) := by
  refine hsync.bind fun _ => (keeps_cancel_stale_by_age hcancel).bind fun _ => ?_
  refine Keeps.read_bind fun s hs => ?_
  refine (Keeps.bind (Keeps.forEach fun order _ => hcancel order) fun _ => ?_) s hs
  refine (Keeps.collect hplace).bind fun placed => ?_
  exact (Keeps.modify (hgrid grid)).bind fun _ => Keeps.done placed

/-- Rules that permit what the order manager does. -/
structure Permits (A : Answer (Sys E) Rep Exn) (c : Rules (Sys E) Req) (I : Sys E → Prop)
    (ok : Req → Bool) : Prop where
  call : ∀ r, ok r = true → Keeps A c I (ask r)
  untrack : ∀ id, Allowed c I (Sys.mapOm (untrack id))
  clear : Allowed c I (Sys.mapOm clear)
  last_grid : ∀ grid, Allowed c I (Sys.mapOm fun om => { om with last_grid := some grid })
  dry : ∀ s side price amount, I s → s.om.dry_run = true → 0 < price → 0 < amount →
    let order := s.om.fake_order ("DRY-" ++ s.drawId.1) s.clock side price amount
    c.own s (tracking order s.drawId.2) ∧ I (tracking order s.drawId.2)
  sync : ∀ s, I s → s.om.dry_run = false → wp A c (fun _ => I) sync_body s
  live : ∀ s (level : Level), I s → s.om.dry_run = false →
    ok (.create_limit_order level.1 level.2.1 level.2.2) = true →
    wp A c (fun _ => I) (place_live level.1 level.2.1 level.2.2) s

namespace Permits

variable (h : Permits A c I ok)
include h

theorem sync_open_orders (hok : ∀ r, placing r = true → ok r = true) :
    Keeps A c I sync_open_orders :=
  keeps_sync_open_orders (h.call _ (hok .acquire rfl)) h.sync

theorem cancel_one (hok : ∀ r, placing r = true → ok r = true) (order : Order) :
    Keeps A c I (cancel_one order) := by
  refine (h.call _ (hok .acquire rfl)).bind fun _ => Keeps.read_bind fun s hs => ?_
  have hrest : Keeps A c I (do
      Prog.modify (Sys.mapOm (OrderManager.untrack order.id))
      ask (.update_order_status order.id "canceled") : Co E Unit) :=
    (Keeps.modify (h.untrack order.id)).bind fun _ => h.call _ (hok _ rfl)
  split
  · exact hrest s hs
  · exact ((h.call _ (hok (.cancel_order order.id) rfl)).bind fun _ => hrest) s hs

theorem place_one (hok : ∀ r, placing r = true → ok r = true) (level : Level) :
    Keeps A c I (place_one level) := by
  refine keeps_place_one (h.call _ (hok .acquire rfl)) level (fun s hs hd hprice hamount => ?_)
    fun s hs hd => h.live s level hs hd (hok _ rfl)
  simp only [place_dry, bind_eq, wp_bind, wp_read, thenPost, wp_modify]
  obtain ⟨hown, hI⟩ := h.dry s level.1 level.2.1 level.2.2 hs hd hprice hamount
  refine ⟨hown, wp_mono (fun x s' hx => ?_) (h.call _ (hok _ rfl) _ hI)⟩
  cases x <;> exact hx

/-- Every call of `diff_and_repost` keeps to the rules. -/
theorem diff_and_repost (hok : ∀ r, placing r = true → ok r = true) (grid : OrderGrid) :
    Keeps A c I (diff_and_repost grid) :=
  keeps_diff_and_repost (h.sync_open_orders hok) (h.cancel_one hok) (h.place_one hok) h.last_grid grid

/-- So does every call of `cancel_all`. -/
theorem cancel_all (hcall : ∀ r ∈ [Req.acquire, .cancel_all_orders], ok r = true)
    (hrow : ∀ id status, ok (.update_order_status id status) = true) :
    Keeps A c I cancel_all :=
  keeps_cancel_all (fun r hr => h.call r (hcall r hr)) (fun id => h.call _ (hrow id "canceled"))
    h.clear

omit h in
/-- Rules that allow any change of the order manager and of the ids. -/
theorem of_any (hcall : ∀ r, ok r = true → Keeps A c I (ask r))
    (hok : ∀ r, placing r = true → creates r = false → ok r = true)
    (hany : ∀ s om drawn ordered, I s →
      c.own s { s with om := om, drawn := drawn, ordered := ordered } ∧
        I { s with om := om, drawn := drawn, ordered := ordered }) : Permits A c I ok where
  call := hcall
  untrack _ s := hany s _ _ _
  clear s := hany s _ _ _
  last_grid _ s := hany s _ _ _
  dry s _ _ _ hs _ _ _ := hany s _ _ _ hs
  sync s hs _ := by
    refine ((hcall _ (hok .fetch_open_orders rfl rfl)).bind fun live => ?_) s hs
    refine Keeps.read_bind fun s hs => ?_
    refine (Keeps.bind (Keeps.forEach fun oid _ => ?_) fun _ =>
      Keeps.forEach fun order _ => Keeps.modify fun s hs => hany s _ _ _ hs) s hs
    refine Keeps.bind (Keeps.read_bind fun s hs => ?_) fun _ => hcall _ (hok _ rfl rfl)
    split
    · exact hany s _ _ _ hs
    · exact hs
  live s level hs _ hcreate := by
    refine Keeps.tryCatch ?_ (fun _ => Keeps.done none) s hs
    refine (hcall _ hcreate).bind fun order => ?_
    refine Keeps.bind (Keeps.modify fun s hs => hany s _ _ _ hs) fun _ => ?_
    exact (hcall _ (hok _ rfl rfl)).bind fun _ => Keeps.done (some order)

end Permits

end OrderManager

namespace ExchangeBot

/-- The calls of the bot's loop. -/
def looping : Req → Bool
  | .fetch_balance | .fetch_fills _ | .insert_fill _ | .insert_inventory_snapshot ..
  | .get_fill_rate | .get_recent_pnl _ | .insert_rl_features .. | .queue_get | .emit_tick ..
  | .reconnect => true
  | r => OrderManager.placing r

/-- The calls of a tick: those of the loop but for its state and for a new connection. -/
def ticking : Req → Bool
  | .queue_get | .reconnect => false
  | r => looping r

theorem looping_of_ticking {r : Req} (h : ticking r = true) : looping r = true := by
  cases r with
  | queue_get | reconnect => rfl
  | _ => exact h

/-- The calls of the stoppers. -/
def stopping : Req → Bool
  | .acquire | .cancel_all_orders | .update_order_status .. | .heartbeat_stop | .disconnect
  | .emit_emergency_stop .. => true
  | _ => false

/-- Neither a reset nor a start. -/
def Lasting (b b' : ExchangeBot) : Prop :=
  (b.q_switch.triggered = true → b'.q_switch.triggered = true) ∧
    (b.running = false → b'.running = false)

/-- The Q-Switch has fired, or the loop is to end. -/
def Stopped (b : ExchangeBot) : Prop := b.q_switch.triggered = true ∨ b.running = false

/-- Rules that permit the loop's changes of the bot that leave its stops alone. -/
structure FieldPermits (A : Answer (Sys E) Rep Exn) (c : Rules (Sys E) Req) (I : Sys E → Prop)
    (ok : Req → Bool) : Prop where
  call : ∀ r, ok r = true → Keeps A c I (ask r)
  field : ∀ s b, I s → b.q_switch = s.bot.q_switch → b.running = s.bot.running →
    c.own s { s with bot := b } ∧ I { s with bot := b }

namespace FieldPermits

variable (h : FieldPermits A c I ok)
include h

/-- A change of the bot that leaves its stops alone. -/
theorem keeps_bot {f : Sys E → Sys E} (hf : ∀ s, { s with bot := (f s).bot } = f s)
    (hq : ∀ s, (f s).bot.q_switch = s.bot.q_switch)
    (hr : ∀ s, (f s).bot.running = s.bot.running) : Keeps A c I (Prog.modify f) :=
  Keeps.modify fun s hs => by
    have hbot := h.field s (f s).bot hs (hq s) (hr s)
    rwa [hf] at hbot

theorem get_balance (ha : ok .acquire = true) (hb : ok .fetch_balance = true) :
    Keeps A c I get_balance := by
  refine Keeps.read_bind fun s hs => ?_
  have hrefresh : Keeps A c I (refresh_balance : Co E Unit) := by
    refine Keeps.tryCatch ?_ fun _ => Keeps.done ()
    refine (h.call _ ha).bind fun _ => (h.call _ hb).bind fun balance => ?_
    exact h.keeps_bot (fun _ => rfl) (fun _ => rfl) fun _ => rfl
  have hcached : Keeps A c I (do
      let s ← Prog.read
      pure s.bot.balance : Co E (Option Balance)) := Keeps.read_bind fun _ hs => hs
  split
  · exact (hrefresh.bind fun _ => hcached) s hs
  · exact hs

theorem check_circuit_breaker (state : GlobalState) (balance : Balance) :
    Keeps A c I (check_circuit_breaker state balance) := by
  refine Keeps.bind ?_ fun _ => Keeps.read_bind fun _ hs => hs
  exact h.keeps_bot (fun _ => rfl) (fun _ => rfl) fun _ => rfl

theorem ingest_fills (hok : ∀ r, ticking r = true → ok r = true) : Keeps A c I ingest_fills := by
  refine Keeps.bind (Keeps.read_bind fun s hs => ?_) fun fills => Keeps.forEach fun fill _ => ?_
  · refine Keeps.tryCatch ?_ (fun _ => Keeps.done []) s hs
    exact (h.call _ (hok .acquire rfl)).bind fun _ => h.call _ (hok _ rfl)
  · refine (h.call _ (hok (.insert_fill fill) rfl)).bind fun _ => ?_
    refine h.keeps_bot (fun _ => rfl) (fun s => ?_) fun s => ?_
    all_goals
      unfold Sys.mapBot see_fill
      simp only
      split
      · split <;> rfl
      · rfl

theorem after_repost (hlist : Allowed c I set_open_orders)
    (hok : ∀ r, ticking r = true → ok r = true) (state : GlobalState) (balance : Balance)
    (grid : OrderGrid) (placed : List Order) :
    Keeps A c I (after_repost state balance grid placed) := by
  refine (Keeps.modify hlist).bind fun _ => Keeps.read_bind fun s hs => ?_
  have hfills : Keeps A c I (poll_fills s.clock) := Keeps.read_bind fun s' hs' => by
    split
    · refine ((h.ingest_fills hok).bind fun _ => ?_) s' hs'
      exact h.keeps_bot (fun _ => rfl) (fun _ => rfl) fun _ => rfl
    · exact hs'
  have hsnapshot : Keeps A c I (write_snapshot s.clock state balance grid) :=
    Keeps.read_bind fun s' hs' => by
      split
      · refine ((h.call _ (hok _ rfl)).bind fun _ => ?_) s' hs'
        exact h.keeps_bot (fun _ => rfl) (fun _ => rfl) fun _ => rfl
      · exact hs'
  have hfeatures : Keeps A c I (write_features s.clock state grid) :=
    Keeps.read_bind fun s' hs' => by
      split
      · refine ((h.call _ (hok .get_fill_rate rfl)).bind fun fill_rate => ?_) s' hs'
        refine (h.call _ (hok (.get_recent_pnl 3600) rfl)).bind fun pnl_1h => ?_
        refine (h.call _ (hok _ rfl)).bind fun _ => ?_
        exact h.keeps_bot (fun _ => rfl) (fun _ => rfl) fun _ => rfl
      · exact hs'
  refine (hfills.bind fun _ => hsnapshot.bind fun _ => hfeatures.bind fun _ => ?_) s hs
  exact Keeps.read_bind fun s hs => h.call _ (hok _ rfl) s hs

end FieldPermits

/-- Rules that permit the loop's changes of the bot. -/
structure BotPermits (A : Answer (Sys E) Rep Exn) (c : Rules (Sys E) Req) (I : Sys E → Prop)
    (ok : Req → Bool) : Prop where
  call : ∀ r, ok r = true → Keeps A c I (ask r)
  bot : ∀ s b, I s → Lasting s.bot b → c.own s { s with bot := b } ∧ I { s with bot := b }

namespace BotPermits

variable (h : BotPermits A c I ok)
include h

theorem fields : FieldPermits A c I ok where
  call := h.call
  field s b hs hq hr := h.bot s b hs ⟨fun ht => by rw [hq, ht], fun ht => by rw [hr, ht]⟩

theorem check_q_switch (balance : Balance) :
    Keeps A c I (check_q_switch balance) := by
  refine Keeps.read_bind fun s hs => ?_
  rw [bind_eq, wp_bind, wp_modify]
  refine h.bot s _ hs ⟨fun ht => ?_, fun ht => ht⟩
  show (s.bot.q_switch.check s.clock balance).2.triggered = true
  rwa [QSwitch.check_of_triggered ht]

theorem on_error (hr : ok .reconnect = true) (e : Exn) :
    Keeps A c I (on_error e) := by
  have hreconnect : Keeps A c I (try_reconnect : Co E Unit) := by
    refine Keeps.tryCatch (h.call _ hr) fun _ => Keeps.modify fun s hs => ?_
    exact h.bot s _ hs ⟨fun _ => QSwitch.trigger_manually_triggered _ _ _, fun _ => rfl⟩
  have hlost : Keeps A c I (do
      let s ← Prog.read
      if s.connected then pure () else try_reconnect : Co E Unit) := Keeps.read_bind fun s hs => by
    split
    · exact hs
    · exact hreconnect s hs
  cases e with
  | timeout => exact Keeps.done ()
  | connector | database | feed | key id => exact hlost

/-- **While the Q-Switch has fired** a round asks for its state and its balance and goes no
further. -/
theorem round_of_triggered (hI : ∀ s, I s → s.bot.q_switch.triggered = true)
    (hok : ∀ r ∈ [Req.acquire, .fetch_balance, .queue_get, .reconnect], ok r = true)
    (quote : Quote E) : Keeps A c I (ExchangeBot.round quote) := by
  refine Keeps.tryCatch ?_ (h.on_error (hok _ (by simp)))
  refine (h.call _ (hok .queue_get (by simp))).bind fun state => Keeps.bind ?_ fun _ => ?_
  · refine (h.fields.get_balance (hok _ (by simp)) (hok _ (by simp))).bind fun balance => ?_
    split
    · exact Keeps.done ()
    · rename_i balance
      intro s hs
      have hcheck := QSwitch.check_of_triggered (hI s hs) s.clock balance
      have hq := h.check_q_switch balance s hs
      simp only [guarded_requote, ExchangeBot.check_q_switch, bind_eq, wp_bind, wp_read, thenPost,
        wp_modify, pure_eq, wp_done, hcheck] at hq ⊢
      exact hq
  · exact h.fields.keeps_bot (fun _ => rfl) (fun _ => rfl) fun _ => rfl

end BotPermits

/-- Rules that permit what the bot's loop and the stoppers do. -/
structure Permits (A : Answer (Sys E) Rep Exn) (c : Rules (Sys E) Req) (I : Sys E → Prop)
    (ok : Req → Bool) : Prop extends OrderManager.Permits A c I ok where
  bot : ∀ s b, I s → Lasting s.bot b → c.own s { s with bot := b } ∧ I { s with bot := b }
  listing : Allowed c I set_open_orders
  trigger : ∀ s b, I s → Lasting s.bot b → Stopped b →
    c.own s (halting { s with bot := b }) ∧ I (halting { s with bot := b })
  returned : Allowed c I halted

namespace Permits

variable (h : Permits A c I ok)
include h

theorem toBot : BotPermits A c I ok := ⟨h.call, h.bot⟩

/-- A tick keeps to the rules. -/
theorem tick (hok : ∀ r, looping r = true → ok r = true) (quote : Quote E) (state : GlobalState) :
    Keeps A c I (tick quote state) := by
  have hplacing : ∀ r, OrderManager.placing r = true → ok r = true := fun r hr => hok r (by
    cases r <;> first | rfl | exact hr)
  refine (h.toBot.fields.get_balance (hok _ rfl) (hok _ rfl)).bind fun balance => ?_
  split
  · exact Keeps.done ()
  · rename_i balance
    refine (h.toBot.check_q_switch balance).bind fun halted => ?_
    split
    · exact Keeps.done ()
    · refine (h.toBot.fields.check_circuit_breaker state balance).bind fun tripped => ?_
      split
      · exact Keeps.done ()
      · refine Keeps.read_bind fun s hs => ?_
        exact ((h.diff_and_repost hplacing _).bind fun placed =>
          h.toBot.fields.after_repost h.listing (fun r hr => hok r (looping_of_ticking hr)) state
            balance _ placed) s hs

/-- **A round of the loop** keeps to the rules. -/
theorem round (hok : ∀ r, looping r = true → ok r = true) (quote : Quote E) :
    Keeps A c I (round quote) := by
  refine Keeps.tryCatch ?_ (h.toBot.on_error (hok _ rfl))
  refine (h.call _ (hok .queue_get rfl)).bind fun state => (h.tick hok quote state).bind fun _ => ?_
  exact h.toBot.fields.keeps_bot (fun _ => rfl) (fun _ => rfl) fun _ => rfl

theorem round_of_triggered (hI : ∀ s, I s → s.bot.q_switch.triggered = true)
    (hok : ∀ r ∈ [Req.acquire, .fetch_balance, .queue_get, .reconnect], ok r = true)
    (quote : Quote E) : Keeps A c I (ExchangeBot.round quote) :=
  h.toBot.round_of_triggered hI hok quote

theorem cancel_all (hok : ∀ r, stopping r = true → ok r = true) :
    Keeps A c I (cancel_all : Co E Unit) := by
  refine Keeps.bind ?_ fun _ => Keeps.modify h.returned
  refine h.toPermits.cancel_all (fun r hr => hok r ?_) fun _ _ => hok _ rfl
  rcases List.mem_cons.mp hr with rfl | hr
  · rfl
  · rw [List.mem_singleton.mp hr]
    rfl

/-- **The stops** keep to the rules. -/
theorem emergency_stop (hok : ∀ r, stopping r = true → ok r = true) :
    Keeps A c I (emergency_stop : Co E Unit) := by
  refine Keeps.bind (Keeps.modify fun s hs => ?_) fun _ => (h.cancel_all hok).bind fun _ =>
    Keeps.read_bind fun s hs => h.call _ (hok _ rfl) s hs
  exact h.trigger s _ hs ⟨fun _ => QSwitch.trigger_manually_triggered _ _ _, fun _ => rfl⟩ (.inr rfl)

theorem stop (hok : ∀ r, stopping r = true → ok r = true) : Keeps A c I (stop : Co E Unit) := by
  refine Keeps.bind (Keeps.modify fun s hs => ?_) fun _ =>
    (h.call _ (hok .heartbeat_stop rfl)).bind fun _ => (h.cancel_all hok).bind fun _ =>
    h.call _ (hok .disconnect rfl)
  exact h.trigger s _ hs ⟨fun ht => ht, fun _ => rfl⟩ (.inr rfl)

theorem halt_bot (hok : ∀ r, stopping r = true → ok r = true) (reason : String) :
    Keeps A c I (halt_bot reason : Co E Unit) := by
  refine Keeps.bind (Keeps.modify fun s hs => ?_) fun _ => h.cancel_all hok
  exact h.trigger s _ hs ⟨fun _ => QSwitch.trigger_manually_triggered _ _ _, fun hr => hr⟩
    (.inl (QSwitch.trigger_manually_triggered _ _ _))

end Permits

end ExchangeBot

end Meridian
