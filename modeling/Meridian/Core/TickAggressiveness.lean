import Meridian.Quant.Aggressiveness
import Meridian.Utils.RealFunctions

/-!
# The aggressiveness of a tick

Step 5 of `_tick` (`exchange_bot.py:189-205`): the aggressiveness of both sides for the volatility and
the two regimes, scaled by `base_aggressiveness`. In a crash the HMM regime keeps the buys at
`crash_buy_agg_floor` or above, and the sells at `crash_sell_agg_ceiling` or below; the scaling comes
after that.

Results:
* `aggressiveness_mem`, `aggressiveness_antitone`: both stay in `[0, 1]`, and go down where the
  volatility goes up;
* `crash_floor_iff`: when the floor is still there after the scaling.

Out of scope: the rounding of doubles (an aggressiveness is an exact real).
-/

namespace Meridian.TickAggressiveness

section Model

variable {K : Type*} [Field K] [LinearOrder K] [MathFunctions K]

/-- `buy_agg` and `sell_agg` of `_tick`. -/
def aggressiveness (agg_model : AggressivenessModel) (volatility : K) (zz_regime hmm_regime : String)
    (hmm_regime_confidence : K) : K × K :=
  let raw :=
    if hmm_regime ≠ "" ∧ hmm_regime ≠ "NORMAL" then
      agg_model.compute_with_hmm_regime volatility zz_regime hmm_regime hmm_regime_confidence
    else agg_model.compute_with_regime volatility zz_regime
  let base : K := ((agg_model.cfg.base_aggressiveness.1 : ℚ) : K)
  (raw.1 * base, raw.2 * base)

end Model

variable {m : AggressivenessModel} {vol vol' conf t : ℝ} {zz_regime hmm_regime : String}

/-! ## The range and the order -/

/-- `base_aggressiveness` -/
noncomputable def base (m : AggressivenessModel) : ℝ := (m.cfg.base_aggressiveness.1 : ℚ)

theorem base_mem (m : AggressivenessModel) : 0 ≤ base m ∧ base m ≤ 1 := by
  unfold base
  exact_mod_cast m.cfg.base_aggressiveness.2

theorem aggressiveness_mem (m : AggressivenessModel) (vol : ℝ) (zz_regime hmm_regime : String)
    (conf : ℝ) : 0 ≤ aggressiveness m vol zz_regime hmm_regime conf ∧
      aggressiveness m vol zz_regime hmm_regime conf ≤ 1 := by
  have hzz := m.compute_with_regime_mem vol zz_regime
  obtain ⟨h0, h1⟩ := base_mem m
  have hscale : ∀ p : ℝ × ℝ, 0 ≤ p ∧ p ≤ 1 →
      0 ≤ (p.1 * base m, p.2 * base m) ∧ (p.1 * base m, p.2 * base m) ≤ 1 :=
    fun p hp => ⟨⟨mul_nonneg hp.1.1 h0, mul_nonneg hp.1.2 h0⟩,
      ⟨mul_le_one₀ hp.2.1 h0 h1, mul_le_one₀ hp.2.2 h0 h1⟩⟩
  refine hscale _ ?_
  split
  · exact AggressivenessModel.hmm_overlay_mem m.cfg.hmm hmm_regime conf hzz
  · exact hzz

theorem compute_antitone (m : AggressivenessModel) : Antitone fun vol : ℝ => m.compute vol := by
  intro v w hvw
  simp only
  rcases le_or_gt v ((m.cfg.low_threshold.1 : ℚ) : ℝ) with hv | hv
  · rw [AggressivenessModel.compute_of_le hv]
    exact (m.compute_mem w).2
  · have hw := hv.trans_le hvw
    rcases le_or_gt ((m.cfg.high_threshold.1 : ℚ) : ℝ) w with hhi | hhi
    · rw [AggressivenessModel.compute_of_ge hw hhi]
      exact (m.compute_mem v).1
    · have hpower : (0 : ℝ) ≤ ((m.cfg.power.1 : ℚ) : ℝ) := by
        exact_mod_cast zero_le_one.trans m.cfg.power.2.1
      rw [AggressivenessModel.compute_between hw hhi,
        AggressivenessModel.compute_between hv (hvw.trans_lt hhi)]
      refine clip_mono (sub_le_sub_left (Real.rpow_le_rpow ?_ ?_ hpower) 1)
      · exact div_nonneg (by linarith) (by linarith)
      · exact div_le_div_of_nonneg_right (by linarith) (by linarith)

/-- **More volatility, less aggressiveness**, on both sides and in every regime. -/
theorem aggressiveness_antitone (m : AggressivenessModel) (zz_regime hmm_regime : String)
    (hconf : 0 ≤ conf) :
    Antitone fun vol : ℝ => aggressiveness m vol zz_regime hmm_regime conf := by
  intro v w hvw
  have hzz := AggressivenessModel.compute_with_regime_mono (compute_antitone m hvw) zz_regime
  have hbase := (base_mem m).1
  have hscale : ∀ p q : ℝ × ℝ, p ≤ q → (p.1 * base m, p.2 * base m) ≤ (q.1 * base m, q.2 * base m) :=
    fun p q h => ⟨mul_le_mul_of_nonneg_right h.1 hbase, mul_le_mul_of_nonneg_right h.2 hbase⟩
  refine hscale _ _ ?_
  split
  · exact AggressivenessModel.hmm_overlay_mono m.cfg.hmm hmm_regime hconf hzz
  · exact hzz

/-! ## The crash floor -/

/-- `crash_buy_agg_floor` -/
noncomputable def crash_floor (m : AggressivenessModel) : ℝ := (m.cfg.hmm.crash_buy_agg_floor.1 : ℚ)

/-- `crash_sell_agg_ceiling` -/
noncomputable def crash_ceiling (m : AggressivenessModel) : ℝ :=
  (m.cfg.hmm.crash_sell_agg_ceiling.1 : ℚ)

/-- What the ZZ regime scales the buys by. -/
noncomputable def zz_buy_factor (zz_regime : String) : ℝ :=
  if zz_regime = "trending_up" then (4 / 5 : ℚ)
  else if zz_regime = "trending_down" then (11 / 10 : ℚ) else (1 : ℚ)

/-- The volatility up to which `compute` is at least `t`. -/
noncomputable def volatility_at (m : AggressivenessModel) (t : ℝ) : ℝ :=
  (m.cfg.low_threshold.1 : ℚ) +
    max 0 (((m.cfg.high_threshold.1 : ℚ) : ℝ) - (m.cfg.low_threshold.1 : ℚ)) *
      (1 - t) ^ ((m.cfg.power.1 : ℚ) : ℝ)⁻¹

/-- The buys are at the floor without its help: the scaled values can reach it, and the volatility is
low enough for them to. -/
structure Calm (m : AggressivenessModel) (vol : ℝ) (zz_regime : String) : Prop where
  floor_le_base : crash_floor m ≤ base m
  floor_le_scaled : crash_floor m ≤ base m * zz_buy_factor zz_regime
  volatility : vol ≤ volatility_at m (crash_floor m / (base m * zz_buy_factor zz_regime))

theorem le_clip_iff {v : ℝ} (ht : 0 < t) (ht1 : t ≤ 1) : t ≤ clip v 0 1 ↔ t ≤ v := by
  rw [clip, le_max_iff, or_iff_right (not_le.mpr ht), le_min_iff, and_iff_right ht1]

/-- The window of the thresholds, and where a volatility inside it lies. -/
theorem window_ratio {m : AggressivenessModel} {vol : ℝ} (hlo : ((m.cfg.low_threshold.1 : ℚ) : ℝ) < vol)
    (hhi : vol < ((m.cfg.high_threshold.1 : ℚ) : ℝ)) :
    0 < ((m.cfg.high_threshold.1 : ℚ) : ℝ) - (m.cfg.low_threshold.1 : ℚ) ∧
      0 ≤ (vol - (m.cfg.low_threshold.1 : ℚ)) /
        (((m.cfg.high_threshold.1 : ℚ) : ℝ) - (m.cfg.low_threshold.1 : ℚ)) := by
  have hwidth : 0 < ((m.cfg.high_threshold.1 : ℚ) : ℝ) - (m.cfg.low_threshold.1 : ℚ) :=
    sub_pos.mpr (hlo.trans hhi)
  exact ⟨hwidth, div_nonneg (sub_pos.mpr hlo).le hwidth.le⟩

theorem power_pos (m : AggressivenessModel) : (0 : ℝ) < ((m.cfg.power.1 : ℚ) : ℝ) := by
  exact_mod_cast zero_lt_one.trans_le m.cfg.power.2.1

theorem le_compute_iff (m : AggressivenessModel) (vol : ℝ) (ht : 0 < t) (ht1 : t ≤ 1) :
    t ≤ m.compute vol ↔ vol ≤ volatility_at m t := by
  have hpower := power_pos m
  have hpow0 : 0 ≤ (1 - t) ^ ((m.cfg.power.1 : ℚ) : ℝ)⁻¹ := Real.rpow_nonneg (by linarith) _
  have hpow1 : (1 - t) ^ ((m.cfg.power.1 : ℚ) : ℝ)⁻¹ < 1 :=
    Real.rpow_lt_one (by linarith) (by linarith) (inv_pos.mpr hpower)
  unfold volatility_at
  rcases le_or_gt vol ((m.cfg.low_threshold.1 : ℚ) : ℝ) with hlo | hlo
  · rw [AggressivenessModel.compute_of_le hlo]
    exact iff_of_true ht1 (hlo.trans (le_add_of_nonneg_right (mul_nonneg (le_max_left _ _) hpow0)))
  rcases le_or_gt ((m.cfg.high_threshold.1 : ℚ) : ℝ) vol with hhi | hhi
  · rw [AggressivenessModel.compute_of_ge hlo hhi]
    refine iff_of_false (not_le.mpr ht) (not_le.mpr ?_)
    rcases le_or_gt ((m.cfg.high_threshold.1 : ℚ) : ℝ) ((m.cfg.low_threshold.1 : ℚ) : ℝ)
      with hempty | hwindow
    · -- The thresholds are the wrong way round: there is no window between them.
      rwa [max_eq_left (sub_nonpos.mpr hempty), zero_mul, add_zero]
    · have hwidth : 0 < ((m.cfg.high_threshold.1 : ℚ) : ℝ) - (m.cfg.low_threshold.1 : ℚ) :=
        sub_pos.mpr hwindow
      have hinside := mul_lt_of_lt_one_right hwidth hpow1
      rw [max_eq_right hwidth.le]
      linarith
  · obtain ⟨hwidth, hratio⟩ := window_ratio hlo hhi
    rw [AggressivenessModel.compute_between hlo hhi, le_clip_iff ht ht1, le_sub_comm,
      max_eq_right hwidth.le, ← sub_le_iff_le_add', mul_comm, ← div_le_iff₀ hwidth]
    exact (Real.le_rpow_inv_iff_of_pos hratio (by linarith) hpower).symm

/-- A scaled value is only clipped at 1. -/
theorem clip_compute_mul (m : AggressivenessModel) (vol : ℝ) {c : ℚ} (hc : 0 ≤ c) :
    clip (m.compute vol * (c : ℝ)) 0 1 = min 1 (m.compute vol * c) :=
  max_eq_right (le_min zero_le_one (mul_nonneg (m.compute_mem vol).1 (Rat.cast_nonneg.mpr hc)))

theorem compute_with_regime_buy (m : AggressivenessModel) (vol : ℝ) (zz_regime : String) :
    (m.compute_with_regime vol zz_regime).1 = min 1 (m.compute vol * zz_buy_factor zz_regime) := by
  unfold AggressivenessModel.compute_with_regime zz_buy_factor
  simp only
  split
  · exact clip_compute_mul m vol (by norm_num)
  · split
    · exact clip_compute_mul m vol (by norm_num)
    · rw [Rat.cast_one, mul_one, min_eq_right (m.compute_mem vol).2]

/-- Both sides in a crash, with enough confidence in it. -/
theorem crash_aggressiveness (m : AggressivenessModel) (vol : ℝ) (zz_regime : String)
    (hconf : 1 / 2 ≤ conf) :
    aggressiveness m vol zz_regime "HIGH_VOL_CRASH" conf =
      (max (m.compute_with_regime vol zz_regime).1 (crash_floor m) * base m,
        min (m.compute_with_regime vol zz_regime).2 (crash_ceiling m) * base m) := by
  have hzz := m.compute_with_regime_mem vol zz_regime
  have hfloor : crash_floor m ≤ 1 := by
    unfold crash_floor
    exact_mod_cast m.cfg.hmm.crash_buy_agg_floor.2.2
  have hceiling : 0 ≤ crash_ceiling m := by
    unfold crash_ceiling
    exact_mod_cast m.cfg.hmm.crash_sell_agg_ceiling.2.1
  have hblend : ∀ zz agg : ℝ, 0 ≤ agg → agg ≤ 1 → AggressivenessModel.blend conf zz agg = agg := by
    intro zz agg h0 h1
    have hhigh : ¬conf < ((1 / 2 : ℚ) : ℝ) := by
      push_cast
      exact not_lt.mpr hconf
    rw [AggressivenessModel.blend, if_neg hhigh, clip_eq h0 h1]
  have hoverlay : AggressivenessModel.hmm_overlay m.cfg.hmm "HIGH_VOL_CRASH" conf
      (m.compute_with_regime vol zz_regime) =
        (max (m.compute_with_regime vol zz_regime).1 (crash_floor m),
          min (m.compute_with_regime vol zz_regime).2 (crash_ceiling m)) := by
    unfold AggressivenessModel.hmm_overlay
    rw [if_neg (by decide), if_neg (by decide), if_pos rfl]
    exact Prod.ext (hblend _ _ (le_max_of_le_left hzz.1.1) (max_le hzz.2.1 hfloor))
      (hblend _ _ (le_min hzz.1.2 hceiling) (min_le_of_left_le hzz.2.2))
  unfold aggressiveness AggressivenessModel.compute_with_hmm_regime
  rw [if_pos ⟨by decide, by decide⟩, hoverlay]
  rfl

theorem crash_floor_pos (m : AggressivenessModel) : 0 < crash_floor m := by
  unfold crash_floor
  have hfloor : (0 : ℚ) < m.cfg.hmm.crash_buy_agg_floor.1 :=
    lt_of_lt_of_le (by norm_num) m.cfg.hmm.crash_buy_agg_floor.2.1
  exact_mod_cast hfloor

theorem zz_buy_factor_pos (zz_regime : String) : 0 < zz_buy_factor zz_regime := by
  unfold zz_buy_factor
  split
  · norm_num
  · split <;> norm_num

/-- The scaled buys of the ZZ regime at the floor. -/
theorem floor_le_scaled_iff (m : AggressivenessModel) (vol : ℝ) (zz_regime : String) :
    crash_floor m ≤ (m.compute_with_regime vol zz_regime).1 * base m ↔ Calm m vol zz_regime := by
  have hfloor := crash_floor_pos m
  have hfactor := zz_buy_factor_pos zz_regime
  have hmin : (m.compute_with_regime vol zz_regime).1 * base m =
      min (base m) (m.compute vol * (base m * zz_buy_factor zz_regime)) := by
    rw [compute_with_regime_buy, min_mul_of_nonneg _ _ (base_mem m).1, one_mul, mul_assoc,
      mul_comm (zz_buy_factor zz_regime)]
  rw [hmin, le_min_iff]
  constructor
  · rintro ⟨hbase, hscaled⟩
    have hpos : 0 < base m * zz_buy_factor zz_regime := mul_pos (hfloor.trans_le hbase) hfactor
    have hle : crash_floor m ≤ base m * zz_buy_factor zz_regime :=
      hscaled.trans (mul_le_of_le_one_left hpos.le (m.compute_mem vol).2)
    have hratio : crash_floor m / (base m * zz_buy_factor zz_regime) ≤ 1 := (div_le_one hpos).mpr hle
    exact ⟨hbase, hle, (le_compute_iff m vol (div_pos hfloor hpos) hratio).mp
      ((div_le_iff₀ hpos).mpr hscaled)⟩
  · intro h
    have hpos : 0 < base m * zz_buy_factor zz_regime := hfloor.trans_le h.floor_le_scaled
    have hratio : crash_floor m / (base m * zz_buy_factor zz_regime) ≤ 1 :=
      (div_le_one hpos).mpr h.floor_le_scaled
    exact ⟨h.floor_le_base, (div_le_iff₀ hpos).mp
      ((le_compute_iff m vol (div_pos hfloor hpos) hratio).mpr h.volatility)⟩

/-- **The crash floor.** With enough confidence in a crash the sells are at the ceiling or below, and
the buys at the floor or above exactly when nothing is scaled, or they are there without its help. -/
theorem crash_floor_iff (m : AggressivenessModel) (volatility : ℝ) (zz_regime : String)
    (hmm_regime_confidence : ℝ) (hconf : 1 / 2 ≤ hmm_regime_confidence) :
    (crash_floor m ≤
        (aggressiveness m volatility zz_regime "HIGH_VOL_CRASH" hmm_regime_confidence).1 ∧
      (aggressiveness m volatility zz_regime "HIGH_VOL_CRASH" hmm_regime_confidence).2 ≤
        crash_ceiling m) ↔
      base m = 1 ∨ Calm m volatility zz_regime := by
  obtain ⟨hbase0, hbase1⟩ := base_mem m
  have hsell : min (m.compute_with_regime volatility zz_regime).2 (crash_ceiling m) * base m ≤
      crash_ceiling m := by
    have hnonneg : 0 ≤ min (m.compute_with_regime volatility zz_regime).2 (crash_ceiling m) := by
      refine le_min (m.compute_with_regime_mem volatility zz_regime).1.2 ?_
      unfold crash_ceiling
      exact_mod_cast m.cfg.hmm.crash_sell_agg_ceiling.2.1
    exact (mul_le_of_le_one_right hnonneg hbase1).trans (min_le_right _ _)
  have hone : crash_floor m ≤ crash_floor m * base m ↔ base m = 1 := by
    rw [le_mul_iff_one_le_right (crash_floor_pos m)]
    exact ⟨fun h => le_antisymm hbase1 h, fun h => h.ge⟩
  rw [crash_aggressiveness m volatility zz_regime hconf, and_iff_left hsell,
    max_mul_of_nonneg _ _ hbase0, le_max_iff, hone, floor_le_scaled_iff, or_comm]

/-- The default configuration in a fast market. -/
theorem crash_floor_default :
    3 / 5 ≤ (aggressiveness ⟨default⟩ (1 : ℝ) "choppy" "HIGH_VOL_CRASH" 1).1 := by
  have hbase : base ⟨default⟩ = 1 := Rat.cast_one
  have hfloor : crash_floor ⟨default⟩ = 3 / 5 := by
    show (((6 / 10 : ℚ)) : ℝ) = _
    norm_num
  have hle := ((crash_floor_iff ⟨default⟩ 1 "choppy" 1 (by norm_num)).mpr (.inl hbase)).1
  rwa [hfloor] at hle

/-- The default configuration, scaled to 80%. -/
def scaled_model : AggressivenessModel :=
  ⟨{ (default : VolatilityConfig) with base_aggressiveness := ⟨4 / 5, by norm_num⟩ }⟩

/-- **The floor is scaled too**: 0.48 in a fast market, where 0.6 is the minimum. -/
theorem crash_floor_scaled : crash_floor scaled_model = 3 / 5 ∧
    (aggressiveness scaled_model (1 : ℝ) "choppy" "HIGH_VOL_CRASH" 1).1 = 12 / 25 ∧
    ¬crash_floor scaled_model ≤
      (aggressiveness scaled_model (1 : ℝ) "choppy" "HIGH_VOL_CRASH" 1).1 := by
  have hfloor : crash_floor scaled_model = 3 / 5 := by
    show (((6 / 10 : ℚ)) : ℝ) = _
    norm_num
  have hbase : base scaled_model = 4 / 5 := by
    show (((4 / 5 : ℚ)) : ℝ) = _
    norm_num
  have hcompute : scaled_model.compute (1 : ℝ) = 0 := by
    refine AggressivenessModel.compute_of_ge ?_ ?_
    · show (((1 / 1000 : ℚ)) : ℝ) < 1
      norm_num
    · show (((3 / 1000 : ℚ)) : ℝ) ≤ 1
      norm_num
  have hbuy : (aggressiveness scaled_model (1 : ℝ) "choppy" "HIGH_VOL_CRASH" 1).1 = 12 / 25 := by
    rw [crash_aggressiveness scaled_model 1 "choppy" (by norm_num), compute_with_regime_buy, hcompute,
      hfloor, hbase, zero_mul]
    norm_num
  refine ⟨hfloor, hbuy, ?_⟩
  rw [hfloor, hbuy]
  norm_num

end Meridian.TickAggressiveness
