import Meridian.Core.Reload
import Meridian.Utils.RealFunctions

/-!
# Is a reload as good as a restart?

`docs/CONFIG.md` marks the spread, depth and safety settings and the initial balances as
hot-reloadable, and `docs/DEPLOYMENT.md` has an exchange disabled by a reload.
`trigger_config_reload` replaces what it replaces; the safety checks and the order manager keep the
section they were built with, and the loop of a bot runs on.

Results:
* `limits_kept`: a reload that lowers the daily loss limit and disables an exchange changes neither;
* `reload_equivalent_iff`: in every state reached, a reload leaves every bot with what one built
  afresh would have, and stops the bots of the disabled exchanges, exactly if no section of an
  enabled exchange differs from the one its bot was built with, the baselines agree, and the loops
  of the disabled ones have ended.
-/

namespace Meridian.Reload

open Run

/-! ## The property -/

/-- The settings that the safety checks and the order manager were built with. -/
structure Captured where
  thresholds : ℚ × ℚ
  limits : ℚ × ℚ
  heartbeat : Heartbeat
  order_manager : ExchangeBotConfig

/-- What a bot consults. -/
structure Carried where
  config : ExchangeBotConfig
  spread_engine : SpreadConfig
  depth_engine : DepthConfig
  agg_model : AggressivenessModel
  captured : Captured
  initial : Option ℚ × Option ℚ

/-- The safety settings and the order manager's configuration of a bot. -/
def Bot.captured (b : Bot) : Captured where
  thresholds := b.q_switch.thresholds
  limits := b.circuit_breaker.limits
  heartbeat := b.heartbeat
  order_manager := b.order_manager

/-- The baseline of a bot's inventory. -/
def Bot.initial (b : Bot) : Option ℚ × Option ℚ :=
  (b.inventory.initial_usd, b.inventory.initial_token)

/-- What a bot consults. -/
def Bot.carried (b : Bot) : Carried where
  config := b.config
  spread_engine := b.spread_engine
  depth_engine := b.depth_engine
  agg_model := b.agg_model
  captured := b.captured
  initial := b.initial

/-- The configured baseline, none where none is configured. -/
def baseline (init_bal : Option ExchangeInitialBalance) : Option ℚ × Option ℚ :=
  (init_bal.map fun b => b.usd.1, init_bal.map fun b => b.token.1)

/-- The configuration has the exchange and marks it disabled. -/
def Disables (config : BotConfig) (n : ExchangeName) : Prop :=
  (∃ ex ∈ config.exchanges, ex.exchange = n) ∧ enabled_entry config n = none

variable {K M : Type*} [Field K] [LinearOrder K] [MathFunctions K]

/-- No run without a reload has the bot of `n` place an order more. -/
def Silent (hmmlearn : Option (Hmmlearn K M)) (o : Orchestrator K M) (n : ExchangeName)
    (placed : ℕ) : Prop :=
  ∀ o' b', Reaches (Fires (next hmmlearn)) (fun _ a => a.noReload = true) o o' →
    o'.bots n = some b' → b'.placed = placed

/-- A reload is as good as a restart: a bot consults what one built afresh from the new
configuration would, and one whose exchange it disables places no further orders. -/
def Equivalent (hmmlearn : Option (Hmmlearn K M)) (today : ℤ) (o : Orchestrator K M)
    (new_config : BotConfig) : Prop :=
  ∀ n b, (trigger_config_reload hmmlearn o new_config).bots n = some b →
    (∀ ex, enabled_entry new_config n = some ex → b.carried =
      (Bot.build today ex ⟨new_config.volatility⟩ (new_config.initial_balances n)).carried) ∧
    (Disables new_config n →
      Silent hmmlearn (trigger_config_reload hmmlearn o new_config) n b.placed)

/-! ## What a step keeps -/

/-- The safety settings are those of the order manager's configuration, as `__init__` has them: a
reload changes neither. -/
def Bot.Intact (b : Bot) : Prop :=
  b.captured = (Bot.build 0 b.order_manager b.agg_model none).captured

variable {b b' : Bot} {a : BotAct}

theorem captured_check (b : Bot) (now global_mid : ℚ) (balance : Balance) :
    (b.check now global_mid balance).captured = b.captured := by
  have hq := b.q_switch.thresholds_check now balance
  have hc := b.circuit_breaker.limits_record_equity now balance.usd balance.token global_mid
  unfold Bot.check Bot.captured
  dsimp only
  split
  · exact congrArg (Captured.mk · _ _ _) hq
  · split
    · exact congrArg₂ (Captured.mk · · _ _) hq hc
    · exact congrArg₂ (Captured.mk · · _ _) hq hc

/-- A step changes no setting. -/
theorem captured_step (h : b.Step a b') : b'.captured = b.captured := by
  cases h with
  | check now global_mid balance => exact captured_check ..
  | trigger now reason =>
    exact congrArg (Captured.mk · _ _ _) (b.q_switch.thresholds_trigger_manually now reason)
  | resume => exact congrArg (Captured.mk · _ _ _) b.q_switch.thresholds_reset
  | warmup | receive | timeout | skip | place | finish | stop | cancel => rfl

theorem Bot.Intact.step (h : b.Step a b') (hb : b.Intact) : b'.Intact := by
  have hcap := captured_step h
  have hom : b'.order_manager = b.order_manager := congrArg Captured.order_manager hcap
  rw [Bot.Intact, hcap, hb, hom]
  rfl

/-- A bot whose loop has ended does nothing more. -/
theorem ended_step (h : b.Step a b') (hp : b.phase = .ended) :
    b'.phase = .ended ∧ b'.placed = b.placed := by
  have absurd_phase : ∀ {p : Phase}, b.phase = p → p ≠ .ended → False := fun h hne =>
    hne (h.symm.trans hp)
  cases h with
  | warmup balance h => exact (absurd_phase h (by decide)).elim
  | receive global_mid h => exact (absurd_phase h (by decide)).elim
  | timeout h => exact (absurd_phase h (by decide)).elim
  | check now global_mid balance h => exact (absurd_phase h (by simp)).elim
  | skip now global_mid h => exact (absurd_phase h (by simp)).elim
  | place h => exact (absurd_phase h (by decide)).elim
  | finish h => exact (absurd_phase h (by decide)).elim
  | cancel => exact ⟨rfl, rfl⟩
  | stop | trigger | resume => exact ⟨hp, rfl⟩

/-! ## A bot in its loop can place an order -/

/-- A balance at the thresholds. -/
def Bot.least (b : Bot) : Balance :=
  { usd := b.q_switch.min_balance_usd, token := b.q_switch.min_balance_token }

/-- The bot after a resume. -/
def Bot.resumed (b : Bot) : Bot :=
  { b with q_switch := b.q_switch.reset, circuit_breaker := b.circuit_breaker.reset }

/-- After a resume, a tick with such a balance passes its checks. -/
theorem check_resumed (hb : b.Intact) (global_mid : ℚ) :
    (b.resumed.check 0 global_mid b.resumed.least).phase = .reposting := by
  have hq : b.resumed.q_switch.triggered = false := by
    show b.q_switch.reset.triggered = false
    unfold QSwitch.reset
    split
    · rfl
    · exact Bool.eq_false_iff.mpr ‹_›
  have hcheck : b.resumed.q_switch.check 0 b.resumed.least = (false, b.resumed.q_switch) := by
    rw [QSwitch.check, hq, if_neg Bool.false_ne_true, Bot.least, if_neg (lt_irrefl _),
      if_neg (lt_irrefl _)]
  have hlimits : b.circuit_breaker.limits =
      (b.order_manager.safety.max_daily_loss_pct.1, b.order_manager.safety.max_drawdown_pct.1) :=
    congrArg Captured.limits hb
  have htripped : (b.resumed.circuit_breaker.record_equity 0 b.resumed.least.usd
      b.resumed.least.token global_mid).tripped = false := by
    refine b.circuit_breaker.tripped_record_equity_reset 0 _ _ _ ?_ ?_
    · show 0 < b.circuit_breaker.limits.1
      rw [hlimits]
      exact b.order_manager.safety.max_daily_loss_pct.2.1
    · show 0 < b.circuit_breaker.limits.2
      rw [hlimits]
      exact b.order_manager.safety.max_drawdown_pct.2.1
  unfold Bot.check
  rw [hcheck]
  simp only [htripped, Bool.false_eq_true, if_false]

/-- Some run of the bot places one order more than it has placed so far. -/
def CanPlace (b : Bot) : Prop :=
  ∃ b', Reaches (Fires Bot.next) (fun _ _ => True) b b' ∧ b'.placed = b.placed + 1

theorem CanPlace.of_next (h : b.next a = some b') (hplaced : b'.placed = b.placed)
    (hb : CanPlace b') : CanPlace b := by
  obtain ⟨b'', hr, hb''⟩ := hb
  have hstep : Reaches (Fires Bot.next) (fun _ _ => True) b b' := Reaches.refl.tail trivial h
  exact ⟨b'', hstep.trans hr, by rw [hb'', hplaced]⟩

theorem placed_check (b : Bot) (now global_mid : ℚ) (balance : Balance) :
    (b.check now global_mid balance).placed = b.placed := by
  unfold Bot.check
  dsimp only
  split
  · rfl
  · split <;> rfl

theorem canPlace_reposting (hp : b.phase = .reposting) : CanPlace b := by
  have hnext : b.next .place = some { b with placed := b.placed + 1 } := if_pos hp
  exact ⟨_, Reaches.refl.tail trivial hnext, rfl⟩

theorem canPlace_ticking {global_mid : ℚ} (hb : b.Intact) (hp : b.phase = .ticking global_mid) :
    CanPlace b := by
  have hphase : b.resumed.phase = .ticking global_mid := hp
  have hcheck : b.resumed.next (.check 0 (some b.resumed.least)) =
      some (b.resumed.check 0 global_mid b.resumed.least) := by
    rw [Bot.next, hphase]
  have hlast : CanPlace b.resumed :=
    .of_next hcheck (placed_check ..) (canPlace_reposting (check_resumed hb global_mid))
  have hresume : b.next .resume = some b.resumed := rfl
  exact .of_next hresume rfl hlast

theorem canPlace_waiting (hb : b.Intact) (hp : b.phase = .waiting) : CanPlace b := by
  have hnext : b.next (.receive 1) = some { b with phase := .ticking 1 } := if_pos hp
  exact .of_next hnext rfl (canPlace_ticking (Bot.Intact.step (.receive 1 hp) hb) rfl)

/-- Unless its loop has ended. -/
theorem canPlace (hb : b.Intact) (hp : b.phase ≠ .ended) : CanPlace b := by
  cases hphase : b.phase with
  | starting =>
    have hnext : b.next (.warmup none) = some (b.warmup none) := if_pos hphase
    exact .of_next hnext rfl (canPlace_waiting (Bot.Intact.step (.warmup none hphase) hb) rfl)
  | waiting => exact canPlace_waiting hb hphase
  | ticking global_mid => exact canPlace_ticking hb hphase
  | reposting => exact canPlace_reposting hphase
  | ended => exact absurd hphase hp

/-! ## When a reload is a restart -/

variable {hmmlearn : Option (Hmmlearn K M)} {today : ℤ} {config : BotConfig}
  {o : Orchestrator K M} {n : ExchangeName}

theorem intact (h : Reaches (Fires (next hmmlearn)) (fun _ _ => True)
    (start hmmlearn today config) o) : ∀ n b, o.bots n = some b → b.Intact := by
  refine bots_inv (I := fun _ b => b.Intact) (fun n ex _ => ?_) (fun o n a b b' _ hs hb => ?_)
    (fun n b ex agg_model hb => hb) h
  · rfl
  · exact hb.step hs

theorem silent_iff (hb : b.Intact) (ho : o.bots n = some b) :
    Silent hmmlearn o n b.placed ↔ b.phase = .ended := by
  constructor
  · intro hsilent
    by_contra hp
    obtain ⟨b', hr, hplaced⟩ := canPlace hb hp
    obtain ⟨o', hr', ho'⟩ := lift_bot hmmlearn hr ho
    have hsame := hsilent o' b' hr' ho'
    omega
  · intro hp o' b' hr ho'
    refine (hr.inv (I := fun o' => ∀ b', o'.bots n = some b' →
      b'.phase = .ended ∧ b'.placed = b.placed) ?_ ?_ b' ho').2
    · intro b' hb'
      obtain rfl := Option.some.inj (ho.symm.trans hb')
      exact ⟨hp, rfl⟩
    · intro o₁ a o₂ hI hc hs b₂ hb₂
      obtain ⟨b₁, hb₁, rfl | ⟨act, rfl, hact⟩ | ⟨hre, -⟩⟩ := bot_of_next hs hb₂
      · exact hI b₂ hb₁
      · obtain ⟨hp₁, hplaced₁⟩ := hI b₁ hb₁
        obtain ⟨hp₂, hplaced₂⟩ := ended_step hact hp₁
        exact ⟨hp₂, hplaced₂.trans hplaced₁⟩
      · rw [hc] at hre
        cases hre

/-- The condition on a reload: no section of an enabled exchange differs from the one its bot was
built with, its inventory has the configured baseline, and the loop of a disabled one has ended. -/
def NothingToCarry (o : Orchestrator K M) (new_config : BotConfig) : Prop :=
  ∀ n b, o.bots n = some b →
    (∀ ex, enabled_entry new_config n = some ex →
      ex = b.order_manager ∧ b.initial = baseline (new_config.initial_balances n)) ∧
    (Disables new_config n → b.phase = .ended)

theorem initial_build (today : ℤ) (ex : ExchangeBotConfig) (agg_model : AggressivenessModel)
    (init_bal : Option ExchangeInitialBalance) :
    (Bot.build today ex agg_model init_bal).initial = baseline init_bal := by
  cases init_bal <;> rfl

/-- A reload carries the spread, the depth and the aggressiveness, and nothing else. -/
theorem carried_reload (hb : b.Intact) (ex : ExchangeBotConfig) (agg_model : AggressivenessModel)
    (init_bal : Option ExchangeInitialBalance) :
    (b.reload ex agg_model).carried = (Bot.build today ex agg_model init_bal).carried ↔
      ex = b.order_manager ∧ b.initial = baseline init_bal := by
  constructor
  · intro h
    have hom : b.order_manager = ex :=
      congrArg (fun c => c.captured.order_manager) h
    refine ⟨hom.symm, ?_⟩
    rw [← initial_build today ex agg_model init_bal]
    exact congrArg Carried.initial h
  · rintro ⟨rfl, hinit⟩
    have hcap : b.captured = (Bot.build today b.order_manager agg_model init_bal).captured := hb
    have hcar : (b.reload b.order_manager agg_model).carried =
        ⟨b.order_manager, b.order_manager.spread, b.order_manager.depth, agg_model, b.captured,
          b.initial⟩ := rfl
    rw [hcar, hcap, hinit, ← initial_build today b.order_manager agg_model init_bal]
    rfl

/-- **When a reload is as good as a restart**, after any run: exactly if there is nothing to carry
to the safety checks, the order manager or the baselines, which keep what they were built with, and
no bot to stop, as the loop of a bot whose exchange is disabled goes on. -/
theorem reload_equivalent_iff (h : Reaches (Fires (next hmmlearn)) (fun _ _ => True)
    (start hmmlearn today config) o) (new_config : BotConfig) :
    Equivalent hmmlearn today o new_config ↔ NothingToCarry o new_config := by
  have hafter : ∀ n b, (trigger_config_reload hmmlearn o new_config).bots n = some b → b.Intact :=
    intact (h.tail (a := .reload new_config) trivial rfl)
  unfold Equivalent NothingToCarry
  refine forall_congr' fun n => ?_
  have hbots := reload_bots hmmlearn o new_config n
  cases hb : o.bots n with
  | none =>
    rw [hb] at hbots
    exact iff_of_true (fun b hb' => absurd (hbots.symm.trans hb') (by simp)) fun b hb' =>
      absurd hb' (by simp)
  | some b =>
    rw [hb, Option.map_some] at hbots
    have hintact := intact h n b hb
    have hafter := hafter n _ hbots
    rw [hbots]
    simp only [Option.some.injEq, forall_eq']
    refine and_congr ?_ ?_
    · refine forall_congr' fun ex => imp_congr_right fun hex => ?_
      rw [hex]
      exact carried_reload hintact ex _ _
    · refine imp_congr_right fun hdis => ?_
      rw [hdis.2] at hbots hafter ⊢
      exact silent_iff hafter hbots

/-- One exchange, with a configured balance. -/
def oneExchange : BotConfig :=
  { exchanges := [{ exchange := .kucoin, symbol := "ALKIMI/USDT" }]
    initial_balances := fun n =>
      if n = .kucoin then some { usd := ⟨250, by norm_num⟩, token := ⟨4000, by norm_num⟩ }
      else none }

/-- The same with a longer window. -/
def longerWindow : BotConfig :=
  { oneExchange with
    volatility := { (default : VolatilityConfig) with window_minutes := ⟨20, by decide⟩ } }

/-- The window is not for the safety checks, and the balance fetched at warm-up is the configured
one. -/
theorem reload_equivalent_window :
    ∃ o : Orchestrator ℝ Unit,
      Reaches (Fires (next none)) (fun _ _ => True) (start none 0 oneExchange) o ∧
      Equivalent none 0 o longerWindow := by
  have hr : Reaches (Fires (next none)) (fun _ _ => True)
      (start none 0 oneExchange : Orchestrator ℝ Unit) _ :=
    Reaches.refl.tail (a := .bot .kucoin (.warmup (some { usd := 250, token := 4000 }))) trivial rfl
  refine ⟨_, hr, (reload_equivalent_iff hr _).mpr ?_⟩
  intro n b hb
  cases n with
  | kucoin =>
    obtain rfl := Option.some.inj hb
    refine ⟨fun ex hex => ?_, fun hdis => absurd hdis.2 (Option.some_ne_none _)⟩
    obtain rfl := Option.some.inj hex
    exact ⟨rfl, rfl⟩
  | gate | mexc | kraken | binance => cases hb

/-- Two exchanges. -/
def twoExchanges : BotConfig :=
  { exchanges :=
      [{ exchange := .kucoin, symbol := "ALKIMI/USDT" },
       { exchange := .gate, symbol := "ALKIMI/USDT" }] }

/-- A lower loss limit for one, and the other disabled. -/
def stricter : BotConfig :=
  { exchanges :=
      [{ exchange := .kucoin, symbol := "ALKIMI/USDT"
         safety := { (default : SafetyConfig) with max_daily_loss_pct := ⟨5, by norm_num⟩ } },
       { exchange := .gate, symbol := "ALKIMI/USDT", enabled := false }] }

/-- The circuit breaker keeps the old limit, and the bot of the disabled exchange may go on placing
orders. -/
theorem limits_kept :
    ∃ o : Orchestrator ℝ Unit,
      Reaches (Fires (next none)) (fun _ _ => True) (start none 0 twoExchanges) o ∧
      (((trigger_config_reload none o stricter).bots .kucoin).map fun b =>
        b.circuit_breaker.limits) = some (10, 15) ∧
      ¬Silent none (trigger_config_reload none o stricter) .gate 0 ∧
      ¬Equivalent none 0 o stricter := by
  have hr : Reaches (Fires (next none)) (fun _ _ => True)
      (start none 0 twoExchanges : Orchestrator ℝ Unit) _ :=
    Reaches.refl.tail (a := .bot .gate (.warmup none)) trivial rfl
  refine ⟨_, hr, rfl, ?_, ?_⟩
  · -- the bot of the disabled exchange is in its loop
    intro hsilent
    have hended := (silent_iff (intact (hr.tail (a := .reload stricter) trivial rfl) .gate _ rfl)
      rfl).mp hsilent
    exact absurd hended (by decide)
  · intro heq
    have hcar := (heq .kucoin _ rfl).1 _ rfl
    have hlimits : ((10, 15) : ℚ × ℚ) = (5, 15) := congrArg (fun c => c.captured.limits) hcar
    exact absurd hlimits (by decide +kernel)

end Meridian.Reload
