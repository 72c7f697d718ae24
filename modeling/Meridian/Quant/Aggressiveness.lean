import Meridian.Config.Schema
import Meridian.Utils.MathUtils

/-!
# From volatility to aggressiveness

Model of `quant/aggressiveness.py`: 1 up to the low threshold, 0 from the high one on, and a power
curve in between; each side scaled by the ZZ regime, and then adjusted for the HMM regime, less so
where the confidence in it is low.

* `hmm_overlay_mono`, `hmm_overlay_mem`: the adjustment keeps the order and the range.

Out of scope: the rounding of doubles.
-/

namespace Meridian

/-- `AggressivenessModel` (`aggressiveness.py:20-30`). -/
structure AggressivenessModel where
  cfg : VolatilityConfig
  deriving DecidableEq

namespace AggressivenessModel

variable {K : Type*} [Field K] [LinearOrder K]

/-- One side after the adjustment `agg`, back towards `zz` where the confidence is low. -/
def blend (hmm_confidence zz agg : K) : K :=
  clip (if hmm_confidence < ((1 / 2 : ℚ) : K) then
    zz + hmm_confidence / ((1 / 2 : ℚ) : K) * (agg - zz) else agg) 0 1

/-- The adjustment of both sides. -/
def hmm_overlay (hmm_cfg : HMMConfig) (hmm_regime : String) (hmm_confidence : K) (zz : K × K) :
    K × K :=
  let blended (buy_agg sell_agg : K) : K × K :=
    (blend hmm_confidence zz.1 buy_agg, blend hmm_confidence zz.2 sell_agg)
  if hmm_regime = "LOW_VOL" then
    blended (zz.1 * ((11 / 10 : ℚ) : K)) (zz.2 * ((11 / 10 : ℚ) : K))
  else if hmm_regime = "HIGH_VOL" then
    blended (zz.1 * ((7 / 10 : ℚ) : K)) (zz.2 * ((6 / 10 : ℚ) : K))
  else if hmm_regime = "HIGH_VOL_CRASH" then
    blended (max zz.1 ((hmm_cfg.crash_buy_agg_floor.1 : ℚ) : K))
      (min zz.2 ((hmm_cfg.crash_sell_agg_ceiling.1 : ℚ) : K))
  else if hmm_regime = "RECOVERY" then
    blended (zz.1 * ((hmm_cfg.recovery_buy_agg_boost.1 : ℚ) : K))
      (zz.2 * ((hmm_cfg.recovery_sell_agg_dampen.1 : ℚ) : K))
  else zz

section Compute

variable [MathFunctions K]

/-- `compute` (`aggressiveness.py:32-55`). -/
def compute (m : AggressivenessModel) (vol : K) : K :=
  let lo : K := ((m.cfg.low_threshold.1 : ℚ) : K)
  let hi : K := ((m.cfg.high_threshold.1 : ℚ) : K)
  if vol ≤ lo then 1
  else if hi ≤ vol then 0
  else clip (1 - MathFunctions.pow ((vol - lo) / (hi - lo)) ((m.cfg.power.1 : ℚ) : K)) 0 1

/-- `compute_with_regime` (`aggressiveness.py:57-82`): buys and sells. -/
def compute_with_regime (m : AggressivenessModel) (vol : K) (regime : String) : K × K :=
  let base_agg := m.compute vol
  if regime = "trending_up" then
    (clip (base_agg * ((4 / 5 : ℚ) : K)) 0 1, clip (base_agg * ((11 / 10 : ℚ) : K)) 0 1)
  else if regime = "trending_down" then
    (clip (base_agg * ((11 / 10 : ℚ) : K)) 0 1, clip (base_agg * ((4 / 5 : ℚ) : K)) 0 1)
  else (base_agg, base_agg)

/-- `compute_with_hmm_regime` (`aggressiveness.py:84-134`). -/
def compute_with_hmm_regime (m : AggressivenessModel) (vol : K) (zz_regime hmm_regime : String)
    (hmm_confidence : K) : K × K :=
  hmm_overlay m.cfg.hmm hmm_regime hmm_confidence (m.compute_with_regime vol zz_regime)

variable {m : AggressivenessModel} {vol : K}

theorem compute_of_le (h : vol ≤ ((m.cfg.low_threshold.1 : ℚ) : K)) : m.compute vol = 1 :=
  if_pos h

theorem compute_of_ge (hlo : ((m.cfg.low_threshold.1 : ℚ) : K) < vol)
    (hhi : ((m.cfg.high_threshold.1 : ℚ) : K) ≤ vol) : m.compute vol = 0 := by
  rw [compute, if_neg (not_le.mpr hlo), if_pos hhi]

theorem compute_between (hlo : ((m.cfg.low_threshold.1 : ℚ) : K) < vol)
    (hhi : vol < ((m.cfg.high_threshold.1 : ℚ) : K)) :
    m.compute vol = clip (1 - MathFunctions.pow
      ((vol - ((m.cfg.low_threshold.1 : ℚ) : K)) /
        (((m.cfg.high_threshold.1 : ℚ) : K) - ((m.cfg.low_threshold.1 : ℚ) : K)))
      ((m.cfg.power.1 : ℚ) : K)) 0 1 := by
  rw [compute, if_neg (not_le.mpr hlo), if_neg (not_le.mpr hhi)]

/-! ## The ZZ regime keeps the order -/

variable [IsStrictOrderedRing K]

theorem compute_mem (m : AggressivenessModel) (vol : K) : 0 ≤ m.compute vol ∧ m.compute vol ≤ 1 := by
  unfold compute
  simp only
  split
  · exact ⟨zero_le_one, le_rfl⟩
  · split
    · exact ⟨le_rfl, zero_le_one⟩
    · exact clip_mem zero_le_one _

theorem compute_with_regime_mem (m : AggressivenessModel) (vol : K) (regime : String) :
    0 ≤ m.compute_with_regime vol regime ∧ m.compute_with_regime vol regime ≤ 1 := by
  have hclip : ∀ v : K, 0 ≤ clip v 0 1 ∧ clip v 0 1 ≤ 1 := clip_mem zero_le_one
  have hcompute := compute_mem m vol
  unfold compute_with_regime
  simp only
  split
  · exact ⟨⟨(hclip _).1, (hclip _).1⟩, ⟨(hclip _).2, (hclip _).2⟩⟩
  · split
    · exact ⟨⟨(hclip _).1, (hclip _).1⟩, ⟨(hclip _).2, (hclip _).2⟩⟩
    · exact ⟨⟨hcompute.1, hcompute.1⟩, ⟨hcompute.2, hcompute.2⟩⟩

/-- A higher base makes both sides more aggressive. -/
theorem compute_with_regime_mono {vol vol' : K} (h : m.compute vol ≤ m.compute vol')
    (regime : String) : m.compute_with_regime vol regime ≤ m.compute_with_regime vol' regime := by
  have hscale : ∀ c : ℚ, 0 ≤ c → clip (m.compute vol * (c : K)) 0 1 ≤
      clip (m.compute vol' * (c : K)) 0 1 :=
    fun c hc => clip_mono (mul_le_mul_of_nonneg_right h (Rat.cast_nonneg.mpr hc))
  unfold compute_with_regime
  simp only
  split
  · exact ⟨hscale _ (by norm_num), hscale _ (by norm_num)⟩
  · split
    · exact ⟨hscale _ (by norm_num), hscale _ (by norm_num)⟩
    · exact ⟨h, h⟩

end Compute

/-! ## The HMM regime keeps the order -/

section Overlay

variable [IsStrictOrderedRing K] {zz zz' agg agg' hmm_confidence : K} {p q : K × K}

theorem blend_mem (hmm_confidence zz agg : K) :
    0 ≤ blend hmm_confidence zz agg ∧ blend hmm_confidence zz agg ≤ 1 :=
  clip_mem zero_le_one _

theorem blend_mono (hconf : 0 ≤ hmm_confidence) (hzz : zz ≤ zz') (hagg : agg ≤ agg') :
    blend hmm_confidence zz agg ≤ blend hmm_confidence zz' agg' := by
  refine clip_mono ?_
  split
  · rename_i hlow
    -- A mean of both, with weights that do not depend on them.
    have hweight : hmm_confidence / ((1 / 2 : ℚ) : K) ≤ 1 := by
      rw [div_le_one (by norm_num)]
      exact hlow.le
    have hnonneg : 0 ≤ hmm_confidence / ((1 / 2 : ℚ) : K) := div_nonneg hconf (by norm_num)
    have hzz' := mul_le_mul_of_nonneg_left hzz (sub_nonneg.mpr hweight)
    have hagg' := mul_le_mul_of_nonneg_left hagg hnonneg
    linarith
  · exact hagg

/-- The adjustment, whatever the regime: none, or a blend with values that follow those of the ZZ
regime. -/
theorem hmm_overlay_cases (hmm_cfg : HMMConfig) (hmm_regime : String) (hmm_confidence : K) :
    (∀ p, hmm_overlay hmm_cfg hmm_regime hmm_confidence p = p) ∨
    ∃ buy sell : K → K, Monotone buy ∧ Monotone sell ∧
      ∀ p, hmm_overlay hmm_cfg hmm_regime hmm_confidence p =
        (blend hmm_confidence p.1 (buy p.1), blend hmm_confidence p.2 (sell p.2)) := by
  have hscale : ∀ c : ℚ, 0 ≤ c → Monotone fun x : K => x * (c : K) :=
    fun c hc _ _ h => mul_le_mul_of_nonneg_right h (Rat.cast_nonneg.mpr hc)
  by_cases hlow : hmm_regime = "LOW_VOL"
  · exact .inr ⟨_, _, hscale (11 / 10) (by norm_num), hscale (11 / 10) (by norm_num),
      fun p => if_pos hlow⟩
  by_cases hhigh : hmm_regime = "HIGH_VOL"
  · exact .inr ⟨_, _, hscale (7 / 10) (by norm_num), hscale (6 / 10) (by norm_num),
      fun p => (if_neg hlow).trans (if_pos hhigh)⟩
  by_cases hcrash : hmm_regime = "HIGH_VOL_CRASH"
  · exact .inr ⟨fun x => max x ((hmm_cfg.crash_buy_agg_floor.1 : ℚ) : K),
      fun x => min x ((hmm_cfg.crash_sell_agg_ceiling.1 : ℚ) : K),
      fun _ _ h => max_le_max h le_rfl, fun _ _ h => min_le_min h le_rfl,
      fun p => (if_neg hlow).trans ((if_neg hhigh).trans (if_pos hcrash))⟩
  by_cases hrecovery : hmm_regime = "RECOVERY"
  · exact .inr ⟨_, _, hscale _ (zero_le_one.trans hmm_cfg.recovery_buy_agg_boost.2.1),
      hscale _ (le_trans (by norm_num) hmm_cfg.recovery_sell_agg_dampen.2.1),
      fun p => (if_neg hlow).trans ((if_neg hhigh).trans ((if_neg hcrash).trans
        (if_pos hrecovery)))⟩
  · exact .inl fun p => (if_neg hlow).trans ((if_neg hhigh).trans ((if_neg hcrash).trans
      (if_neg hrecovery)))

theorem hmm_overlay_mem (hmm_cfg : HMMConfig) (hmm_regime : String) (hmm_confidence : K)
    (hp : 0 ≤ p ∧ p ≤ 1) : 0 ≤ hmm_overlay hmm_cfg hmm_regime hmm_confidence p ∧
      hmm_overlay hmm_cfg hmm_regime hmm_confidence p ≤ 1 := by
  rcases hmm_overlay_cases hmm_cfg hmm_regime hmm_confidence with hsame | ⟨buy, sell, -, -, heq⟩
  · rw [hsame]
    exact hp
  · rw [heq]
    have hbuy := blend_mem hmm_confidence p.1 (buy p.1)
    have hsell := blend_mem hmm_confidence p.2 (sell p.2)
    exact ⟨⟨hbuy.1, hsell.1⟩, ⟨hbuy.2, hsell.2⟩⟩

theorem hmm_overlay_mono (hmm_cfg : HMMConfig) (hmm_regime : String) (hconf : 0 ≤ hmm_confidence)
    (h : p ≤ q) : hmm_overlay hmm_cfg hmm_regime hmm_confidence p ≤
      hmm_overlay hmm_cfg hmm_regime hmm_confidence q := by
  rcases hmm_overlay_cases hmm_cfg hmm_regime hmm_confidence with
    hsame | ⟨buy, sell, hbuy, hsell, heq⟩
  · rw [hsame, hsame]
    exact h
  · rw [heq, heq]
    exact ⟨blend_mono hconf h.1 (hbuy h.1), blend_mono hconf h.2 (hsell h.2)⟩

end Overlay

end AggressivenessModel

end Meridian
