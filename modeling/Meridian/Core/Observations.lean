import Meridian.Core.Reload
import Meridian.Quant.CandleBuffer
import Meridian.Utils.RealFunctions

/-!
# What the regime detector observes

`_tick_prices` (`orchestrator.py:308-333`) reads the features of the candles on every price tick and
hands them to the detector, whether the candles are new or not. `update` (`hmm_regime.py:131-162`) is
documented to be called "each time new candle features are available (typically every 60 seconds)"; a
price tick comes every half second. A run is any sequence of ticks, at any times, some without a price
and some without candles. History: how many refreshes have succeeded, and for each observation the
number of the refresh that its candles are from.

Results:
* `sound_run`: there is one such number for each observation, of a refresh that has succeeded;
* `one_per_refresh_iff`: when no refresh is observed twice.
-/

namespace Meridian.Reload

open VolatilityEngine (quarter)

variable {K M : Type*} [Field K] [LinearOrder K] [MathFunctions K]

/-- The tick refreshes the candles: it fetches them, as the interval is over, and gets them. -/
def Market.Refreshes (m : Market K M) (t : PriceTick) : Prop :=
  CANDLE_FETCH_INTERVAL_S ≤ t.now - m.last_candle_fetch_at ∧ t.candles.isSome

instance (m : Market K M) (t : PriceTick) : Decidable (m.Refreshes t) :=
  inferInstanceAs (Decidable (_ ∧ _))

/-- How many observations the detector has had. -/
def Market.obs_count (m : Market K M) : ℕ :=
  match m.hmm_detector with
  | some detector => detector.obs_count
  | none => 0

/-- The quant models, and the history of the refreshes. -/
structure Traced (K M : Type*) [Zero K] where
  market : Market K M
  refreshes : ℕ := 0
  /-- the refresh of each observation, the latest first -/
  observed : List ℕ := []

/-- One `_tick_prices`; none where no ticker gives a price. -/
def Traced.tick (hmmlearn : Option (Hmmlearn K M)) (s : Traced K M) : Option PriceTick → Traced K M
  | none => s
  | some t =>
    let market := (s.market.tick_prices hmmlearn t).2
    let refreshes := if s.market.Refreshes t then s.refreshes + 1 else s.refreshes
    { market := market
      refreshes := refreshes
      observed :=
        List.replicate (market.obs_count - s.market.obs_count) refreshes ++ s.observed }

/-- New quant models after these ticks. -/
def run (hmmlearn : Option (Hmmlearn K M)) (cfg : VolatilityConfig) (ticks : List (Option PriceTick)) :
    Traced K M :=
  ticks.foldl (Traced.tick hmmlearn) { market := Market.build hmmlearn cfg 0 }

variable {hmmlearn : Option (Hmmlearn K M)} {m : Market K M} {t : PriceTick} {s : Traced K M}

/-! ## One tick -/

omit [MathFunctions K] in
theorem obs_count_update (d : HMMRegimeDetector K M) (obs : Features K) :
    (d.update hmmlearn obs).obs_count = d.obs_count + 1 := by
  have hrefit : ∀ d : HMMRegimeDetector K M,
      (HMMRegimeDetector.refit hmmlearn d).obs_count = d.obs_count := by
    intro d
    unfold HMMRegimeDetector.refit
    split
    · split <;> rfl
    · rfl
  unfold HMMRegimeDetector.update
  simp only
  split
  · exact hrefit _
  · rfl

/-- The engine has the candles of another one. -/
structure SameCandles (e e' : VolatilityEngine K) : Prop where
  candles : e'.candles.items = e.candles.items

theorem sameCandles_zhang_zhang_vol (e : VolatilityEngine K) :
    SameCandles e e.zhang_zhang_vol.2 := by
  unfold VolatilityEngine.zhang_zhang_vol
  split
  · exact ⟨rfl⟩
  · split <;> exact ⟨rfl⟩

theorem sameCandles_hmm_features (e : VolatilityEngine K) : SameCandles e e.hmm_features.2 := by
  unfold VolatilityEngine.hmm_features
  split
  · exact ⟨rfl⟩
  · exact sameCandles_zhang_zhang_vol e

theorem isSome_hmm_features (e : VolatilityEngine K) :
    e.hmm_features.1.isSome ↔ 3 ≤ e.candles.items.length := by
  unfold VolatilityEngine.hmm_features
  split
  · rename_i hfew
    exact iff_of_false Bool.false_ne_true hfew.not_ge
  · rename_i hfew
    exact iff_of_true rfl (not_lt.mp hfew)

/-- The detector observes wherever there are three candles. -/
def Market.Observes (m : Market K M) : Prop :=
  m.hmm_detector.isSome ∧ 3 ≤ m.vol_engine.candles.items.length

instance (m : Market K M) : Decidable m.Observes := inferInstanceAs (Decidable (_ ∧ _))

/-- What a detection leaves: the candles, and the detector with one more observation where there are
enough of them. -/
theorem detect_spec (hmmlearn : Option (Hmmlearn K M)) (m : Market K M) :
    SameCandles m.vol_engine (m.detect hmmlearn).2.vol_engine ∧
      (m.detect hmmlearn).2.hmm_detector.isSome = m.hmm_detector.isSome ∧
      (m.detect hmmlearn).2.obs_count = m.obs_count + if m.Observes then 1 else 0 := by
  have hcandles := sameCandles_hmm_features m.vol_engine
  have hsome := isSome_hmm_features m.vol_engine
  unfold Market.detect
  split
  · rename_i d hd
    have hcount : m.obs_count = d.obs_count := by
      rw [Market.obs_count, hd]
    split
    · rename_i features vol_engine he
      rw [he] at hcandles hsome
      rw [if_pos ⟨by rw [hd]; rfl, hsome.mp rfl⟩, hcount]
      exact ⟨hcandles, by rw [hd]; rfl, obs_count_update d features⟩
    · rename_i vol_engine he
      rw [he] at hcandles hsome
      rw [if_neg fun h => Bool.false_ne_true (hsome.mpr h.2)]
      exact ⟨hcandles, rfl, rfl⟩
  · rename_i hd
    have hnone : ¬m.Observes := by
      rintro ⟨hsome, -⟩
      rw [hd] at hsome
      exact Bool.false_ne_true hsome
    rw [if_neg hnone]
    exact ⟨⟨rfl⟩, rfl, rfl⟩

/-- What the price and the candles of a tick do to a market: the candles do not get fewer, and only
change where they are refreshed. -/
structure Collects (m : Market K M) (t : PriceTick) (m' : Market K M) : Prop where
  detector : m'.hmm_detector = m.hmm_detector
  grow : m.vol_engine.candles.items.length ≤ m'.vol_engine.candles.items.length
  same : ¬m.Refreshes t → m'.vol_engine.candles.items = m.vol_engine.candles.items

omit [LinearOrder K] [MathFunctions K] in
theorem collects_observe (m : Market K M) (t : PriceTick) : Collects m t (m.observe t) := by
  unfold Market.observe Market.fetch_candles
  split
  · rename_i hdue
    split
    · rename_i candles hcandles
      refine ⟨rfl, ?_, fun h => absurd ⟨hdue, by rw [hcandles]; rfl⟩ h⟩
      have hbound := m.vol_engine.candles.bound
      show _ ≤ (m.vol_engine.candles.pushAll candles).items.length
      rw [BoundedQueue.items_pushAll, List.length_drop, List.length_append]
      omega
    · exact ⟨rfl, le_rfl, fun _ => rfl⟩
  · exact ⟨rfl, le_rfl, fun _ => rfl⟩

/-- A tick: the candles it leaves, and whether it observes them. -/
theorem tick_spec (hmmlearn : Option (Hmmlearn K M)) (m : Market K M) (t : PriceTick) :
    SameCandles (m.observe t).vol_engine (m.tick_prices hmmlearn t).2.vol_engine ∧
      (m.tick_prices hmmlearn t).2.hmm_detector.isSome = m.hmm_detector.isSome ∧
      (m.tick_prices hmmlearn t).2.obs_count =
        m.obs_count + if (m.observe t).Observes then 1 else 0 := by
  obtain ⟨hcandles, hsome, hcount⟩ := detect_spec hmmlearn
    { m.observe t with vol_engine := (m.observe t).vol_engine.zhang_zhang_vol.2 }
  have hdetector := (collects_observe m t).detector
  have hzz := sameCandles_zhang_zhang_vol (m.observe t).vol_engine
  have hobserves : Market.Observes
      { m.observe t with vol_engine := (m.observe t).vol_engine.zhang_zhang_vol.2 } ↔
        (m.observe t).Observes := by
    unfold Market.Observes
    rw [hzz.candles]
  refine ⟨⟨hcandles.candles.trans hzz.candles⟩, hsome.trans (congrArg _ hdetector), ?_⟩
  rw [if_congr hobserves rfl rfl] at hcount
  have hsame : Market.obs_count
      { m.observe t with vol_engine := (m.observe t).vol_engine.zhang_zhang_vol.2 } = m.obs_count := by
    unfold Market.obs_count
    rw [hdetector]
  exact hcount.trans (congrArg (· + _) hsame)

/-! ## A run -/

/-- What holds after every run: the refreshes observed are refreshes that succeeded, one for each
observation that the detector counts. -/
structure Traced.Sound (enabled : Bool) (s : Traced K M) : Prop where
  detector : s.market.hmm_detector.isSome = enabled
  length : s.observed.length = s.market.obs_count
  le : ∀ r ∈ s.observed, r ≤ s.refreshes
  /-- where there are three candles, the last refresh has been observed -/
  last : s.market.Observes → s.refreshes ∈ s.observed

theorem observed_tick (hmmlearn : Option (Hmmlearn K M)) (s : Traced K M) (t : PriceTick) :
    (s.tick hmmlearn (some t)).observed =
      if (s.market.observe t).Observes then (s.tick hmmlearn (some t)).refreshes :: s.observed
      else s.observed := by
  have hcount := (tick_spec hmmlearn s.market t).2.2
  have hone : (s.market.tick_prices hmmlearn t).2.obs_count - s.market.obs_count =
      if (s.market.observe t).Observes then 1 else 0 := by
    rw [hcount, Nat.add_sub_cancel_left]
  unfold Traced.tick
  simp only
  rw [hone]
  split <;> rfl

theorem observes_tick_iff (hmmlearn : Option (Hmmlearn K M)) (m : Market K M) (t : PriceTick) :
    (m.tick_prices hmmlearn t).2.Observes ↔ (m.observe t).Observes := by
  obtain ⟨hcandles, hsome, -⟩ := tick_spec hmmlearn m t
  unfold Market.Observes
  rw [hsome, hcandles.candles, (collects_observe m t).detector]

variable (hmmlearn) in
theorem refreshes_le_tick (s : Traced K M) (t : PriceTick) :
    s.refreshes ≤ (s.tick hmmlearn (some t)).refreshes := by
  show _ ≤ if s.market.Refreshes t then s.refreshes + 1 else s.refreshes
  split
  · exact Nat.le_succ _
  · exact le_rfl

theorem Traced.Sound.tick {enabled : Bool} (h : s.Sound enabled) (t : Option PriceTick) :
    (s.tick hmmlearn t).Sound enabled := by
  rcases t with _ | t
  · exact h
  obtain ⟨-, hsome, hcount⟩ := tick_spec hmmlearn s.market t
  have hgrow := refreshes_le_tick hmmlearn s t
  have hobserved := observed_tick hmmlearn s t
  refine ⟨hsome.trans h.detector, ?_, fun r hr => ?_, fun hlast => ?_⟩
  · rw [hobserved]
    refine Eq.trans ?_ hcount.symm
    split
    · rw [List.length_cons, h.length]
    · exact h.length
  · rw [hobserved] at hr
    split at hr
    · rcases List.mem_cons.mp hr with rfl | hr
      · exact le_rfl
      · exact (h.le r hr).trans hgrow
    · exact (h.le r hr).trans hgrow
  · rw [hobserved, if_pos ((observes_tick_iff hmmlearn s.market t).mp hlast)]
    exact List.mem_cons_self

/-- One more tick of a run in which no refresh has been observed twice. -/
theorem Traced.Sound.nodup_tick_iff {enabled : Bool} (h : s.Sound enabled) (hnodup : s.observed.Nodup)
    (t : PriceTick) :
    (s.tick hmmlearn (some t)).observed.Nodup ↔ (s.market.Observes → s.market.Refreshes t) := by
  have hcollects := collects_observe s.market t
  have hrefreshes : (s.tick hmmlearn (some t)).refreshes =
      if s.market.Refreshes t then s.refreshes + 1 else s.refreshes := rfl
  rw [observed_tick]
  by_cases hobserves : (s.market.observe t).Observes
  · rw [if_pos hobserves, List.nodup_cons, and_iff_left hnodup, hrefreshes]
    by_cases hrefresh : s.market.Refreshes t
    · rw [if_pos hrefresh]
      exact iff_of_true (fun hmem => absurd (h.le _ hmem) (Nat.not_succ_le_self _)) fun _ => hrefresh
    · -- Nothing new: what is observed now has been observed before.
      have hbefore : s.market.Observes := by
        obtain ⟨hsome, hthree⟩ := hobserves
        exact ⟨hcollects.detector ▸ hsome, hcollects.same hrefresh ▸ hthree⟩
      rw [if_neg hrefresh]
      exact iff_of_false (not_not.mpr (h.last hbefore)) fun himp => hrefresh (himp hbefore)
  · rw [if_neg hobserves]
    refine iff_of_true hnodup fun hbefore => absurd ?_ hobserves
    exact ⟨hcollects.detector.symm ▸ hbefore.1, hbefore.2.trans hcollects.grow⟩

variable (hmmlearn) (cfg : VolatilityConfig)

theorem run_append (earlier : List (Option PriceTick)) (t : Option PriceTick) :
    run hmmlearn cfg (earlier ++ [t]) = (run hmmlearn cfg earlier).tick hmmlearn t :=
  List.foldl_append

theorem sound_run (ticks : List (Option PriceTick)) :
    (run hmmlearn cfg ticks).Sound cfg.hmm.enabled := by
  induction ticks using List.reverseRecOn with
  | nil =>
    have hdetector : (run hmmlearn cfg []).market.hmm_detector =
        if cfg.hmm.enabled then some (.new hmmlearn cfg.hmm) else none := rfl
    refine ⟨?_, ?_, fun r hr => absurd hr List.not_mem_nil, fun h => ?_⟩
    · rw [hdetector]
      cases cfg.hmm.enabled <;> rfl
    · rw [Market.obs_count, hdetector]
      cases cfg.hmm.enabled <;> rfl
    · exact absurd (show 3 ≤ 0 from h.2) (by decide)
  | append_singleton ticks t ih =>
    rw [run_append]
    exact ih.tick t

theorem nodup_of_tick {t : PriceTick} (h : (s.tick hmmlearn (some t)).observed.Nodup) :
    s.observed.Nodup := by
  rw [observed_tick] at h
  split at h
  · exact (List.nodup_cons.mp h).2
  · exact h

/-- No refresh is observed twice exactly when every tick with at least three candles before it
refreshes them. -/
theorem nodup_observed_iff (ticks : List (Option PriceTick)) :
    (run hmmlearn cfg ticks).observed.Nodup ↔
      ∀ earlier t, earlier ++ [some t] <+: ticks →
        (run hmmlearn cfg earlier).market.Observes → (run hmmlearn cfg earlier).market.Refreshes t := by
  induction ticks using List.reverseRecOn with
  | nil =>
    refine iff_of_true List.nodup_nil fun earlier t hprefix => ?_
    exact absurd (List.prefix_nil.mp hprefix) (List.append_ne_nil_of_right_ne_nil _ (by simp))
  | append_singleton ticks t ih =>
    rw [run_append]
    rcases t with _ | t
    · refine ih.trans (forall₂_congr fun earlier t => ?_)
      have hother : earlier ++ [some t] ≠ ticks ++ [none] := fun h => by
        cases (List.append_inj' h rfl).2
      rw [List.prefix_concat_iff, or_iff_right hother]
    · have hsound := sound_run hmmlearn cfg ticks
      constructor
      · intro h earlier t' hprefix
        have hnodup := nodup_of_tick hmmlearn h
        rcases List.prefix_concat_iff.mp hprefix with heq | hprefix
        · obtain ⟨rfl, ht⟩ := List.append_inj' heq rfl
          obtain rfl := Option.some.inj (List.singleton_inj.mp ht)
          exact (hsound.nodup_tick_iff hnodup t').mp h
        · exact ih.mp hnodup earlier t' hprefix
      · intro h
        have hnodup := ih.mpr fun earlier t' hprefix =>
          h earlier t' (List.prefix_concat_iff.mpr (.inr hprefix))
        exact (hsound.nodup_tick_iff hnodup t).mpr (h ticks t List.prefix_rfl)

/-- **One observation for a refresh**: in every run each observation of the detector is of a refresh that
has succeeded, and no two are of the same one exactly when every tick with at least three candles
before it refreshes them. -/
theorem one_per_refresh_iff (ticks : List (Option PriceTick)) :
    ((run hmmlearn cfg ticks).observed.length = (run hmmlearn cfg ticks).market.obs_count ∧
      ∀ r ∈ (run hmmlearn cfg ticks).observed, r ≤ (run hmmlearn cfg ticks).refreshes) ∧
    ((run hmmlearn cfg ticks).observed.Nodup ↔
      ∀ earlier t, earlier ++ [some t] <+: ticks →
        (run hmmlearn cfg earlier).market.Observes →
        (run hmmlearn cfg earlier).market.Refreshes t) :=
  ⟨⟨(sound_run hmmlearn cfg ticks).length, (sound_run hmmlearn cfg ticks).le⟩,
    nodup_observed_iff hmmlearn cfg ticks⟩

/-! ## Two ticks -/

/-- A tick at this time. -/
def tick_at (now : ℚ) : PriceTick where
  global_mid := 1
  positive := one_pos
  now := now
  candles := some (quarter 0)

/-- **Half a second later** the same candles are observed once more: two observations after one
refresh. -/
theorem observed_twice :
    (run none default [some (tick_at 60), some (tick_at (121 / 2))] : Traced ℝ Unit).refreshes = 1 ∧
    (run none default [some (tick_at 60), some (tick_at (121 / 2))] : Traced ℝ Unit).observed = [1, 1] ∧
    ¬(run none default [some (tick_at 60), some (tick_at (121 / 2))] :
      Traced ℝ Unit).observed.Nodup := by
  have hobserved : (run none default [some (tick_at 60), some (tick_at (121 / 2))] :
      Traced ℝ Unit).observed = [1, 1] := by
    decide +kernel
  refine ⟨by decide +kernel, hobserved, ?_⟩
  rw [hobserved]
  decide

end Meridian.Reload
