import Mathlib.Data.List.Induction
import Meridian.Quant.HmmRegime

/-!
# The regime detector without its library

`HMMRegimeDetector` (`quant/hmm_regime.py`, 107-206) where `hmmlearn` is not installed, or where every
decoding raises: the regime is then a matter of thresholds on the latest observation, and, for a
recovery, of the regime before it.

Results:
* `fallback_regime`: after any observations, a crash is what the last one says, and a recovery says that
  the observations since some crash all bounced;
* `normal_for_ever`: a detector that is to see more observations than it keeps reports `NORMAL` for ever.
-/

namespace Meridian.HmmFallback

open HMMRegimeDetector

variable {K M : Type*} [Field K] [LinearOrder K]

/-- The first rule of the fallback: the market moves much, and down. -/
def Crash (f : Features K) : Prop :=
  ((5 / 1000 : ℚ) : K) < f.zz_vol ∧ f.net_direction < ((-3 / 1000 : ℚ) : K) ∧ f.price_roc < -4 / 1000

/-- The condition of the second rule on the observation. -/
def Bounce (f : Features K) : Prop :=
  ((2 / 1000 : ℚ) : K) < f.zz_vol ∧ ((1 / 1000 : ℚ) : K) < f.net_direction ∧ 1 / 1000 < f.price_roc

/-- A detector of this configuration is ready after `n` observations. -/
def Ready (cfg : HMMConfig) (n : ℕ) : Prop := cfg.hmm_min_observations.1 ≤ min n cfg.hmm_lookback.1

instance (cfg : HMMConfig) (n : ℕ) : Decidable (Ready cfg n) := inferInstanceAs (Decidable (_ ≤ _))

/-- No decoding succeeds. -/
def NeverDecodes (hmmlearn : Option (Hmmlearn K M)) : Prop :=
  ∀ h ∈ hmmlearn, ∀ model observations, h.decode model observations = none

/-- The detector after these observations. -/
def observed (hmmlearn : Option (Hmmlearn K M)) (cfg : HMMConfig) (fs : List (Features K)) :
    HMMRegimeDetector K M :=
  fs.foldl (update hmmlearn) (new hmmlearn cfg)

/-- The observations since a crash that was decoded all bounced. -/
def Rebounding (cfg : HMMConfig) (fs : List (Features K)) : Prop :=
  ∃ before crash bounces, fs = before ++ crash :: bounces ∧ Ready cfg (before.length + 1) ∧
    Crash crash ∧ ∀ f ∈ bounces, Bounce f

variable {hmmlearn : Option (Hmmlearn K M)} {cfg : HMMConfig} {d : HMMRegimeDetector K M}
  {fs : List (Features K)} {f : Features K} {n : ℕ}

/-! ## One observation -/

omit [LinearOrder K] in
theorem refit_eq (hmmlearn : Option (Hmmlearn K M)) (d : HMMRegimeDetector K M) :
    ∃ model, refit hmmlearn d = { d with model := model } := by
  unfold refit
  split
  · split
    · exact ⟨_, rfl⟩
    · exact ⟨d.model, rfl⟩
  · exact ⟨d.model, rfl⟩

theorem decode_regime_eq (h : NeverDecodes hmmlearn) (f : Features K) :
    d.decode_regime hmmlearn f = d.fallback_decode f := by
  unfold decode_regime
  cases hmmlearn with
  | none => rfl
  | some lib =>
    cases d.model with
    | none => rfl
    | some model => simp only [h lib rfl]

/-- What the detector has kept of `n` observations under this configuration: the last ones, up to
its lookback. -/
structure Seen (cfg : HMMConfig) (n : ℕ) (d : HMMRegimeDetector K M) : Prop where
  same : d.cfg = cfg
  length : d.observations.items.length = min n cfg.hmm_lookback.1

omit [LinearOrder K] in
theorem seen_new : Seen cfg 0 (new hmmlearn cfg) := ⟨rfl, (Nat.zero_min _).symm⟩

/-- **One observation**: once the detector is ready its rules say the regime. -/
theorem Seen.update (h : Seen cfg n d) (hnone : NeverDecodes hmmlearn) (f : Features K) :
    Seen cfg (n + 1) (d.update hmmlearn f) ∧ (d.update hmmlearn f).current_regime =
      if Ready cfg (n + 1) then (d.fallback_decode f).1 else d.current_regime := by
  obtain ⟨rfl, hlength⟩ := h
  have hpush : (d.observations.push f).items.length = min (n + 1) d.cfg.hmm_lookback.1 := by
    rw [BoundedQueue.length_push, hlength]
    omega
  let pushed : HMMRegimeDetector K M :=
    { d with observations := d.observations.push f, obs_count := d.obs_count + 1 }
  have his : pushed.is_ready = true ↔ Ready d.cfg (n + 1) := by
    unfold is_ready Ready
    rw [decide_eq_true_iff, ← hpush]
  have hupdate : d.update hmmlearn f = if pushed.is_ready then refit hmmlearn
      { pushed with
        current_regime := (pushed.decode_regime hmmlearn f).1
        confidence := (pushed.decode_regime hmmlearn f).2 } else pushed := rfl
  rw [hupdate, decode_regime_eq hnone]
  by_cases hready : Ready d.cfg (n + 1)
  · rw [if_pos (his.mpr hready), if_pos hready]
    obtain ⟨model, hmodel⟩ := refit_eq hmmlearn
      { pushed with
        current_regime := (pushed.fallback_decode f).1, confidence := (pushed.fallback_decode f).2 }
    rw [hmodel]
    exact ⟨⟨rfl, hpush⟩, rfl⟩
  · rw [if_neg fun h => hready (his.mp h), if_neg hready]
    exact ⟨⟨rfl, hpush⟩, rfl⟩

/-! ## The rules -/

/-- The regimes a recovery may follow. -/
def Active (d : HMMRegimeDetector K M) : Prop :=
  d.current_regime = "HIGH_VOL_CRASH" ∨ d.current_regime = "RECOVERY"

omit [LinearOrder K] in
theorem not_active_new : ¬ Active (new hmmlearn cfg) := by
  rintro (h | h) <;> exact absurd h (by simp [new])

theorem Bounce.not_crash [IsStrictOrderedRing K] (h : Bounce f) : ¬ Crash f := by
  intro hcrash
  have hup : ((1 / 1000 : ℚ) : K) < ((-3 / 1000 : ℚ) : K) := h.2.1.trans hcrash.2.1
  rw [Rat.cast_lt] at hup
  norm_num at hup

theorem fallback_decode_crash (d : HMMRegimeDetector K M) (f : Features K) :
    (d.fallback_decode f).1 = "HIGH_VOL_CRASH" ↔ Crash f := by
  unfold fallback_decode
  split_ifs with hcrash
  · exact iff_of_true rfl hcrash
  all_goals exact iff_of_false (by simp) hcrash

theorem fallback_decode_recovery [IsStrictOrderedRing K] (d : HMMRegimeDetector K M)
    (f : Features K) : (d.fallback_decode f).1 = "RECOVERY" ↔ Bounce f ∧ Active d := by
  unfold fallback_decode
  split_ifs with hcrash hrule
  · exact iff_of_false (by simp) fun h => h.1.not_crash hcrash
  · exact iff_of_true rfl hrule
  all_goals exact iff_of_false (by simp) hrule

/-! ## Any observations -/

theorem Ready.succ (h : Ready cfg n) : Ready cfg (n + 1) := by
  unfold Ready at *
  omega

theorem Rebounding.ready (h : Rebounding cfg fs) : Ready cfg fs.length := by
  obtain ⟨before, crash, bounces, rfl, hready, -, -⟩ := h
  rw [List.length_append, List.length_cons]
  unfold Ready at *
  omega

/-- A rebound goes on with a bounce, and starts over with a crash. -/
theorem rebounding_concat : Rebounding cfg (fs ++ [f]) ↔
    Ready cfg (fs.length + 1) ∧ (Crash f ∨ Bounce f ∧ Rebounding cfg fs) := by
  constructor
  · intro h
    refine ⟨by simpa using h.ready, ?_⟩
    obtain ⟨before, crash, bounces, heq, hready, hcrash, hall⟩ := h
    rcases bounces.eq_nil_or_concat with rfl | ⟨bounces, last, rfl⟩
    · obtain ⟨-, hlast⟩ := List.append_inj' heq rfl
      obtain rfl : f = crash := by simpa using hlast
      exact .inl hcrash
    · rw [List.concat_eq_append] at heq hall
      rw [← List.cons_append, ← List.append_assoc] at heq
      obtain ⟨hfront, hlast⟩ := List.append_inj' heq rfl
      obtain rfl : f = last := by simpa using hlast
      refine .inr ⟨hall f (by simp), before, crash, bounces, hfront, hready, hcrash, ?_⟩
      exact fun g hg => hall g (List.mem_append_left _ hg)
  · rintro ⟨hready, hcrash | ⟨hbounce, before, crash, bounces, rfl, hthen, hcrash, hall⟩⟩
    · exact ⟨fs, f, [], rfl, hready, hcrash, by simp⟩
    · refine ⟨before, crash, bounces ++ [f], by simp, hthen, hcrash, ?_⟩
      intro g hg
      rcases List.mem_append.mp hg with hg | hg
      · exact hall g hg
      · exact List.mem_singleton.mp hg ▸ hbounce

theorem observed_concat (fs : List (Features K)) (f : Features K) :
    observed hmmlearn cfg (fs ++ [f]) = (observed hmmlearn cfg fs).update hmmlearn f :=
  List.foldl_append

theorem seen_observed (hnone : NeverDecodes hmmlearn) (cfg : HMMConfig) (fs : List (Features K)) :
    Seen cfg fs.length (observed hmmlearn cfg fs) := by
  induction fs using List.reverseRecOn with
  | nil => exact seen_new
  | append_singleton fs f ih =>
    rw [observed_concat, List.length_append]
    exact (ih.update hnone f).1

theorem normal_of_not_ready (hnone : NeverDecodes hmmlearn) (fs : List (Features K))
    (h : ¬ Ready cfg fs.length) : (observed hmmlearn cfg fs).current_regime = "NORMAL" := by
  induction fs using List.reverseRecOn with
  | nil => rfl
  | append_singleton fs f ih =>
    obtain ⟨-, hregime⟩ := (seen_observed hnone cfg fs).update hnone f
    rw [List.length_append, List.length_singleton] at h
    rw [observed_concat, hregime, if_neg h]
    exact ih fun hready => h hready.succ

/-- The detector remembers a crash for as long as what follows it bounces. -/
theorem active_observed [IsStrictOrderedRing K] (hnone : NeverDecodes hmmlearn)
    (fs : List (Features K)) : Active (observed hmmlearn cfg fs) ↔ Rebounding cfg fs := by
  induction fs using List.reverseRecOn with
  | nil =>
    refine iff_of_false not_active_new ?_
    rintro ⟨before, crash, bounces, heq, -⟩
    simp at heq
  | append_singleton fs f ih =>
    obtain ⟨-, hregime⟩ := (seen_observed hnone cfg fs).update hnone f
    rw [rebounding_concat, observed_concat, Active, hregime, ← ih]
    by_cases hready : Ready cfg (fs.length + 1)
    · rw [if_pos hready, fallback_decode_crash, fallback_decode_recovery]
      exact ⟨fun h => ⟨hready, h⟩, fun h => h.2⟩
    · rw [if_neg hready]
      refine iff_of_false (fun hactive => ?_) fun h => hready h.1
      exact hready (ih.mp hactive).ready.succ

/-- **The regime without `hmmlearn`.** Whatever was observed before, once there are enough observations
the regime is a crash exactly when the last one passes its thresholds, and a recovery exactly when the
last one bounces and so did every one since some crash; until then it is `NORMAL`. -/
theorem fallback_regime [IsStrictOrderedRing K] (hnone : NeverDecodes hmmlearn) (cfg : HMMConfig)
    (fs : List (Features K)) (f : Features K) :
    (¬ Ready cfg (fs.length + 1) →
      (observed hmmlearn cfg (fs ++ [f])).current_regime = "NORMAL") ∧
    (Ready cfg (fs.length + 1) →
      ((observed hmmlearn cfg (fs ++ [f])).current_regime = "HIGH_VOL_CRASH" ↔ Crash f) ∧
      ((observed hmmlearn cfg (fs ++ [f])).current_regime = "RECOVERY" ↔
        Bounce f ∧ Rebounding cfg fs)) := by
  refine ⟨fun hready => normal_of_not_ready hnone _ (by simpa using hready), fun hready => ?_⟩
  obtain ⟨-, hregime⟩ := (seen_observed hnone cfg fs).update hnone f
  rw [observed_concat, hregime, if_pos hready, fallback_decode_crash, fallback_decode_recovery,
    active_observed hnone]
  exact ⟨Iff.rfl, Iff.rfl⟩

/-- A detector that is to see more observations than it keeps never leaves `NORMAL`. -/
theorem normal_for_ever (hnone : NeverDecodes hmmlearn)
    (hmore : cfg.hmm_lookback.1 < cfg.hmm_min_observations.1) (fs : List (Features K)) :
    (observed hmmlearn cfg fs).current_regime = "NORMAL" := by
  refine normal_of_not_ready hnone fs ?_
  unfold Ready
  omega

/-! ## After a crash -/

/-- A crash, and what bounces back from it. -/
def crashed : Features ℚ :=
  { zz_vol := 8 / 1000, net_direction := -5 / 1000, volume_change := 8 / 10
    price_roc := -8 / 1000 }

@[inherit_doc crashed]
def bounced : Features ℚ :=
  { zz_vol := 3 / 1000, net_direction := 2 / 1000, volume_change := 4 / 10, price_roc := 3 / 1000 }

theorem crash_crashed : Crash crashed := by
  norm_num [Crash, crashed]

theorem bounce_bounced : Bounce bounced := by
  norm_num [Bounce, bounced]

theorem fallback_regime_crashed :
    (observed (none : Option (Hmmlearn ℚ Unit)) default
      (List.replicate 10 crashed ++ [bounced])).current_regime = "RECOVERY" := by
  have hnone : NeverDecodes (none : Option (Hmmlearn ℚ Unit)) := by simp [NeverDecodes]
  refine (((fallback_regime hnone default (List.replicate 10 crashed) bounced).2 (by decide)).2).mpr
    ⟨bounce_bounced, List.replicate 9 crashed, crashed, [], ?_, by decide, crash_crashed, by simp⟩
  exact List.replicate_succ'

end Meridian.HmmFallback
