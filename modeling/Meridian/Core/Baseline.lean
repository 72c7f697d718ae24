import Meridian.Core.Reload
import Meridian.Utils.RealFunctions

/-!
# The configured baseline

`docs/CONFIG.md` calls the configured initial balances the neutral point of the skew, and
`record_initial` says that they are used instead of the balances found. `Orchestrator.start` sets
them (`orchestrator.py:178-181`), and then `_warmup` (`exchange_bot.py:376-389`) looks for them
where nobody puts them and records the balance it has fetched.

Results:
* `skew_of_warmup`: a run in which the skew is measured from the balance found at warm-up;
* `skew_configured`: in every run in which the warm-up fails or finds the configured amount of
  tokens, the skew is measured from the configured amount in every state, and in a tick that passes
  its checks it is the skew of the balance that the tick has fetched.

Out of scope: the rounding of doubles (amounts are exact rationals).
-/

namespace Meridian.Reload

open Run

variable {K M : Type*} [Field K] [LinearOrder K] [MathFunctions K]
  {hmmlearn : Option (Hmmlearn K M)} {today : ℤ} {config : BotConfig} {o : Orchestrator K M}
  {n : ExchangeName}

/-- The skew that a tick takes is measured from `T0` tokens: it is that of the last balance that the
tracker has seen. -/
def SkewFrom (T0 : ℚ) (b : Bot) : Prop :=
  b.inventory.skew_factor = clip (1 - 2 * (b.inventory.current_token - T0) / T0) (1 / 2) 2

instance (T0 : ℚ) (b : Bot) : Decidable (SkewFrom T0 b) := inferInstanceAs (Decidable (_ = _))

/-- The condition on a step: a warm-up of the bot of `n` that gets a balance finds `T0` tokens. -/
def WarmsUpAt (n : ExchangeName) (T0 : ℚ) (_ : Orchestrator K M) (a : Act) : Prop :=
  ∀ balance, a = .bot n (.warmup (some balance)) → balance.token = T0

/-- The baseline is set, to `T0` tokens. -/
structure BaselineAt (T0 : ℚ) (t : InventoryTracker) : Prop where
  usd : t.initial_usd.isSome = true
  token : t.initial_token = some T0

theorem BaselineAt.update {T0 : ℚ} {t : InventoryTracker} (h : BaselineAt T0 t)
    (balance : Balance) : BaselineAt T0 (t.update balance) := by
  have hset : t.initial_usd.isNone = false := by
    rw [← Option.not_isSome, h.usd]
    rfl
  rw [InventoryTracker.update, hset]
  exact ⟨h.usd, h.token⟩

theorem BaselineAt.check {T0 : ℚ} {b : Bot} (h : BaselineAt T0 b.inventory) (now global_mid : ℚ)
    (balance : Balance) : BaselineAt T0 (b.check now global_mid balance).inventory := by
  unfold Bot.check
  dsimp only
  split
  · exact h
  · split
    · exact h
    · exact h.update balance

/-- Only the warm-up moves the baseline. -/
theorem BaselineAt.step {T0 : ℚ} {b b' : Bot} {a : BotAct} (hs : b.Step a b')
    (hwarm : ∀ balance, a = .warmup (some balance) → balance.token = T0)
    (h : BaselineAt T0 b.inventory) : BaselineAt T0 b'.inventory := by
  cases hs with
  | warmup balance =>
    cases balance with
    | none => exact h
    | some balance => exact ⟨rfl, congrArg some (hwarm balance rfl)⟩
  | check now global_mid balance => exact h.check now global_mid balance
  | receive | timeout | skip | place | finish | stop | cancel | trigger | resume => exact h

/-- A tick that goes on to repost has recorded the balance it has fetched. -/
theorem current_token_check {b : Bot} {now global_mid : ℚ} {balance : Balance}
    (h : (b.check now global_mid balance).phase = .reposting) :
    (b.check now global_mid balance).inventory.current_token = balance.token := by
  have hround : ∀ c : Bot, c.round_end.phase ≠ .reposting := fun c => by
    unfold Bot.round_end
    dsimp only
    split <;> exact Phase.noConfusion
  unfold Bot.check at h ⊢
  dsimp only at h ⊢
  split at h
  · exact absurd h (hround _)
  · rename_i hgo
    rw [if_neg hgo]
    split at h
    · exact absurd h (hround _)
    · rename_i hpassed
      rw [if_neg hpassed]
      rfl

theorem BaselineAt.skewFrom {T0 : ℚ} (hpos : 0 < T0) {b : Bot} (h : BaselineAt T0 b.inventory) :
    SkewFrom T0 b := by
  rw [SkewFrom, InventoryTracker.skew_factor_of_pos h.token hpos, InventoryTracker.skew]
  congr 2
  ring

/-- **The configured baseline is used** where the warm-up does not find another amount: the skew is
measured from it in every state, and a tick that passes its checks has recorded the balance that it
has fetched, so that the skew it quotes with is the skew of that balance. -/
theorem skew_configured {init : ExchangeInitialBalance}
    (hconfig : config.initial_balances n = some init) (hpos : 0 < init.token.1)
    (h : Reaches (Fires (next hmmlearn)) (WarmsUpAt n init.token.1) (start hmmlearn today config)
      o) :
    ∀ b, o.bots n = some b → SkewFrom init.token.1 b ∧
      ∀ now balance b', b.next (.check now (some balance)) = some b' → b'.phase = .reposting →
        b'.inventory.current_token = balance.token ∧ SkewFrom init.token.1 b' := by
  have hinv : ∀ m b, o.bots m = some b → m = n → BaselineAt init.token.1 b.inventory := by
    refine bots_inv (fun m ex _ hm => ?_) (fun o m a b b' hc hs hb hm => ?_)
      (fun m b ex agg_model hb hm => hb hm) h
    · subst hm
      rw [hconfig]
      exact ⟨rfl, rfl⟩
    · subst hm
      exact (hb rfl).step hs fun balance ha => hc balance (congrArg _ ha)
  refine fun b hb => ⟨(hinv n b hb rfl).skewFrom hpos, fun now balance b' hnext hpassed => ?_⟩
  have hs := step_of_next hnext
  have hkept := (hinv n b hb rfl).step hs fun balance ha => BotAct.noConfusion ha
  refine ⟨?_, hkept.skewFrom hpos⟩
  cases hs with
  | check _ global_mid _ _ => exact current_token_check hpassed

/-- One exchange with a configured balance. -/
def withBaseline : BotConfig :=
  { exchanges := [{ exchange := .kucoin, symbol := "ALKIMI/USDT" }]
    initial_balances := fun n =>
      if n = .kucoin then some { usd := ⟨500, by norm_num⟩, token := ⟨1000, by norm_num⟩ }
      else none }

/-- The warm-up finds what is configured. -/
theorem skew_at_warmup :
    ∃ (o : Orchestrator ℝ Unit) (b : Bot),
      Reaches (Fires (next none)) (WarmsUpAt .kucoin 1000) (start none 0 withBaseline) o ∧
      o.bots .kucoin = some b ∧ b.phase = .waiting ∧ SkewFrom 1000 b := by
  have hr : Reaches (Fires (next none)) (WarmsUpAt .kucoin 1000)
      (start none 0 withBaseline : Orchestrator ℝ Unit) _ :=
    Reaches.refl.tail (a := .bot .kucoin (.warmup (some { usd := 400, token := 1000 })))
      (fun balance h => by cases h; rfl) rfl
  have hconfig : withBaseline.initial_balances .kucoin =
      some { usd := ⟨500, by norm_num⟩, token := ⟨1000, by norm_num⟩ } := rfl
  exact ⟨_, _, hr, rfl, rfl, (skew_configured hconfig (by norm_num) hr _ rfl).1⟩

/-- The warm-up finds 800 tokens, and the first tick the configured 1000. -/
def found800 : List BotAct :=
  [.warmup (some { usd := 500, token := 800 }), .receive 1,
    .check 0 (some { usd := 500, token := 1000 })]

/-- At the configured balance the bot takes itself to be full of tokens. -/
theorem skew_of_warmup :
    ∃ (o : Orchestrator ℝ Unit) (b : Bot),
      Reaches (Fires (next none)) (fun _ _ => True) (start none 0 withBaseline) o ∧
      o.bots .kucoin = some b ∧ b.inventory.current_token = 1000 ∧
      b.inventory.skew_factor = 1 / 2 ∧ ¬SkewFrom 1000 b := by
  have hrun : (play Bot.next (fun _ _ => True)
      (Bot.build 0 { exchange := .kucoin, symbol := "ALKIMI/USDT" } ⟨{}⟩
        (withBaseline.initial_balances .kucoin)) found800).any
      (fun b => decide (b.inventory.current_token = 1000 ∧ b.inventory.skew_factor = 1 / 2 ∧
        ¬SkewFrom 1000 b)) = true := by decide +kernel
  obtain ⟨b, hb, hskew⟩ := (Option.any_eq_true _ _).mp hrun
  have hstart : (start none 0 withBaseline : Orchestrator ℝ Unit).bots .kucoin = some _ := rfl
  obtain ⟨o, hr, ho⟩ := lift_bot none (reaches_of_play hb) hstart
  exact ⟨o, b, hr.mono fun _ _ _ => trivial, ho, of_decide_eq_true hskew⟩

end Meridian.Reload
