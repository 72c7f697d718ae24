import Meridian.Core.TickGrid

/-!
# The aggressiveness of the regime

The parameters of the regime in effect come with an `aggressiveness`, "override for aggressiveness model
output" (`regime_detector.py:387-397`), which `_tick` never reads: it scales the spreads and the depth
and shifts the skew, and takes the aggressiveness from the volatility and the two other regimes alone
(`exchange_bot.py:194-208`). So a tick honours it exactly where these happen to be no more aggressive.

What a side may be at most is taken back through `_tick`, step by step: through `base_aggressiveness`,
the HMM regime (`buy_limit`, `sell_limit`), the ZZ regime and the curve, to the volatility
(`Subdued`).

Results:
* `honoured_iff`: when a tick honours the aggressiveness of its regime.

Out of scope: the rounding of doubles.
-/

namespace Meridian.TickGrid

open TickAggressiveness

variable {m : AggressivenessModel} {vol c l p w s F C zz : ℝ}

theorem clip_le_iff {v : ℝ} (hp : 0 ≤ p) : clip v 0 1 ≤ p ↔ 1 ≤ p ∨ v ≤ p := by
  rw [clip, max_le_iff, and_iff_right hp, min_le_iff]

/-! ## The curve and the ZZ regime -/

theorem compute_le_iff (m : AggressivenessModel) (vol : ℝ) (hp : 0 ≤ p) (hp1 : p < 1) :
    m.compute vol ≤ p ↔ ((m.cfg.low_threshold.1 : ℚ) : ℝ) < vol ∧ volatility_at m p ≤ vol := by
  have hpower := power_pos m
  have hpow1 : (1 - p) ^ ((m.cfg.power.1 : ℚ) : ℝ)⁻¹ ≤ 1 :=
    Real.rpow_le_one (by linarith) (by linarith) (inv_nonneg.mpr hpower.le)
  unfold volatility_at
  rcases le_or_gt vol ((m.cfg.low_threshold.1 : ℚ) : ℝ) with hlo | hlo
  · rw [AggressivenessModel.compute_of_le hlo]
    exact iff_of_false hp1.not_ge fun h => hlo.not_gt h.1
  rw [and_iff_right hlo]
  rcases le_or_gt ((m.cfg.high_threshold.1 : ℚ) : ℝ) vol with hhi | hhi
  · rw [AggressivenessModel.compute_of_ge hlo hhi]
    refine iff_of_true hp ?_
    rcases le_or_gt ((m.cfg.high_threshold.1 : ℚ) : ℝ) (m.cfg.low_threshold.1 : ℚ) with hempty | hwindow
    · rw [max_eq_left (sub_nonpos.mpr hempty), zero_mul, add_zero]
      exact hlo.le
    · have hinside := mul_le_of_le_one_right (sub_pos.mpr hwindow).le hpow1
      rw [max_eq_right (sub_pos.mpr hwindow).le]
      linarith
  · obtain ⟨hwidth, hratio⟩ := window_ratio hlo hhi
    rw [AggressivenessModel.compute_between hlo hhi, clip_le_iff hp, or_iff_right hp1.not_ge,
      sub_le_comm, max_eq_right hwidth.le, ← le_sub_iff_add_le', mul_comm, ← le_div_iff₀ hwidth]
    exact (Real.rpow_inv_le_iff_of_pos (by linarith) hratio hpower).symm

/-- A side that the ZZ regime scales by `c` is at most `l`: so it is at any volatility, or the
volatility is high enough. -/
def Subdued (m : AggressivenessModel) (vol c l : ℝ) : Prop :=
  min 1 c ≤ l ∨ 0 ≤ l ∧ ((m.cfg.low_threshold.1 : ℚ) : ℝ) < vol ∧ volatility_at m (l / c) ≤ vol

theorem zz_le_iff (hc : 0 < c) : min 1 (m.compute vol * c) ≤ l ↔ Subdued m vol c l := by
  obtain ⟨h0, h1⟩ := m.compute_mem vol
  rw [Subdued, min_le_iff, min_le_iff]
  rcases le_or_gt 1 l with hl | hl
  · exact iff_of_true (.inl hl) (.inl (.inl hl))
  rw [or_iff_right hl.not_ge, or_iff_right hl.not_ge]
  rcases le_or_gt c l with hcl | hcl
  · exact iff_of_true ((mul_le_of_le_one_left hc.le h1).trans hcl) (.inl hcl)
  rw [or_iff_right hcl.not_ge]
  rcases le_or_gt 0 l with hl0 | hl0
  · rw [and_iff_right hl0, ← le_div_iff₀ hc]
    exact compute_le_iff m vol (div_nonneg hl0 hc.le) ((div_lt_one hc).mpr hcl)
  · exact iff_of_false (hl0.trans_le (mul_nonneg h0 hc.le)).not_ge fun h => hl0.not_ge h.1

/-- What the ZZ regime scales the sells by. -/
noncomputable def zz_sell_factor (zz_regime : String) : ℝ :=
  if zz_regime = "trending_up" then (11 / 10 : ℚ)
  else if zz_regime = "trending_down" then (4 / 5 : ℚ) else (1 : ℚ)

theorem zz_sell_factor_pos (zz_regime : String) : 0 < zz_sell_factor zz_regime := by
  unfold zz_sell_factor
  split
  · norm_num
  · split <;> norm_num

theorem compute_with_regime_sell (m : AggressivenessModel) (vol : ℝ) (zz_regime : String) :
    (m.compute_with_regime vol zz_regime).2 = min 1 (m.compute vol * zz_sell_factor zz_regime) := by
  unfold AggressivenessModel.compute_with_regime zz_sell_factor
  simp only
  split
  · exact clip_compute_mul m vol (by norm_num)
  · split
    · exact clip_compute_mul m vol (by norm_num)
    · rw [Rat.cast_one, mul_one, min_eq_right (m.compute_mem vol).2]

/-! ## The HMM regime -/

/-- How much the HMM regime counts. -/
noncomputable def weight (hmm_confidence : ℝ) : ℝ := min 1 (((2 : ℚ) : ℝ) * hmm_confidence)

theorem weight_mem (h : 0 ≤ p) : 0 ≤ weight p ∧ weight p ≤ 1 :=
  ⟨le_min zero_le_one (mul_nonneg (Rat.cast_nonneg.mpr zero_le_two) h), min_le_left _ _⟩

theorem blend_eq (hmm_confidence zz agg : ℝ) : AggressivenessModel.blend hmm_confidence zz agg =
    clip (zz + weight hmm_confidence * (agg - zz)) 0 1 := by
  have hhalf : ((1 / 2 : ℚ) : ℝ) = 1 / 2 := by norm_num
  unfold AggressivenessModel.blend weight
  rw [hhalf, Rat.cast_ofNat]
  split
  · rename_i hlow
    rw [min_eq_right (by linarith)]
    congr 1
    ring
  · rename_i hhigh
    rw [min_eq_left (by linarith), one_mul, add_sub_cancel]

/-- What the ZZ value may be at most for the side to be at most `p`, where it is scaled by `s`. -/
noncomputable def scale_limit (w s p : ℝ) : ℝ := if 1 ≤ p then 1 else p / (1 + w * (s - 1))

/-- The same where it is raised to `F`. -/
noncomputable def floor_limit (w F p : ℝ) : ℝ :=
  if w = 1 then if F ≤ p then p else -1 else min p ((p - w * F) / (1 - w))

/-- The same where it is lowered to `C`. -/
noncomputable def ceiling_limit (w C p : ℝ) : ℝ :=
  if w = 1 then if C ≤ p then 1 else p else max p ((p - w * C) / (1 - w))

theorem scaled_le_iff (hw : 0 ≤ w ∧ w ≤ 1) (h1 : zz ≤ 1) (hp : 0 ≤ p) (hs : 0 < s) :
    clip (zz + w * (zz * s - zz)) 0 1 ≤ p ↔ zz ≤ scale_limit w s p := by
  rw [clip_le_iff hp, scale_limit]
  split
  · rename_i hone
    exact iff_of_true (.inl hone) h1
  · rename_i hone
    have hfactor : 0 < 1 + w * (s - 1) := by
      rcases hw.2.eq_or_lt with rfl | hlt
      · linarith
      · have hws := mul_nonneg hw.1 hs.le
        linarith
    rw [or_iff_right hone, le_div_iff₀ hfactor]
    exact iff_of_eq (by congr 1; ring)

/-- A mean of the ZZ value and a greater one. -/
theorem raised_eq (hw : 0 ≤ w) :
    zz + w * (max zz F - zz) = max zz ((1 - w) * zz + w * F) := by
  rcases le_total zz F with h | h
  · have hgap := mul_nonneg hw (sub_nonneg.mpr h)
    rw [max_eq_right h, max_eq_right (by linarith)]
    ring
  · have hgap := mul_nonneg hw (sub_nonneg.mpr h)
    rw [max_eq_left h, max_eq_left (by linarith), sub_self, mul_zero, add_zero]

/-- A mean of the ZZ value and a smaller one. -/
theorem capped_eq (hw : 0 ≤ w) :
    zz + w * (min zz C - zz) = min zz ((1 - w) * zz + w * C) := by
  rcases le_total zz C with h | h
  · have hgap := mul_nonneg hw (sub_nonneg.mpr h)
    rw [min_eq_left h, min_eq_left (by linarith), sub_self, mul_zero, add_zero]
  · have hgap := mul_nonneg hw (sub_nonneg.mpr h)
    rw [min_eq_right h, min_eq_right (by linarith)]
    ring

/-- The mean of two values in range is in range. -/
theorem mean_mem {x : ℝ} (hw : 0 ≤ w ∧ w ≤ 1) (hzz : 0 ≤ zz ∧ zz ≤ 1) (hx : 0 ≤ x ∧ x ≤ 1) :
    0 ≤ zz + w * (x - zz) ∧ zz + w * (x - zz) ≤ 1 := by
  have hmean : zz + w * (x - zz) = (1 - w) * zz + w * x := by ring
  have hrest := sub_nonneg.mpr hw.2
  have hlo := add_nonneg (mul_nonneg hrest hzz.1) (mul_nonneg hw.1 hx.1)
  have hhi := add_le_add (mul_le_of_le_one_right hrest hzz.2) (mul_le_of_le_one_right hw.1 hx.2)
  exact ⟨hmean ▸ hlo, by linarith⟩

theorem raised_le_iff (hw : 0 ≤ w ∧ w ≤ 1) (hzz : 0 ≤ zz ∧ zz ≤ 1) (hF : F ≤ 1) :
    clip (zz + w * (max zz F - zz)) 0 1 ≤ p ↔ zz ≤ floor_limit w F p := by
  obtain ⟨hlo, hhi⟩ := mean_mem hw hzz ⟨le_max_of_le_left hzz.1, max_le hzz.2 hF⟩
  rw [clip_eq hlo hhi, raised_eq hw.1, max_le_iff, floor_limit]
  split
  · rename_i hone
    rw [hone, sub_self, zero_mul, zero_add, one_mul]
    split
    · rename_i hle
      exact and_iff_left hle
    · rename_i hlt
      exact iff_of_false (fun h => hlt h.2) fun h => by linarith [hzz.1]
  · rename_i hone
    have hrest : 0 < 1 - w := sub_pos.mpr (lt_of_le_of_ne hw.2 hone)
    rw [le_min_iff, le_div_iff₀ hrest, le_sub_iff_add_le, mul_comm zz]

theorem capped_le_iff (hw : 0 ≤ w ∧ w ≤ 1) (hzz : 0 ≤ zz ∧ zz ≤ 1) (hC : 0 ≤ C) :
    clip (zz + w * (min zz C - zz)) 0 1 ≤ p ↔ zz ≤ ceiling_limit w C p := by
  obtain ⟨hlo, hhi⟩ := mean_mem hw hzz ⟨le_min hzz.1 hC, min_le_of_left_le hzz.2⟩
  rw [clip_eq hlo hhi, capped_eq hw.1, min_le_iff, ceiling_limit]
  split
  · rename_i hone
    rw [hone, sub_self, zero_mul, zero_add, one_mul]
    split
    · rename_i hle
      exact iff_of_true (.inr hle) hzz.2
    · rename_i hlt
      exact or_iff_left hlt
  · rename_i hone
    have hrest : 0 < 1 - w := sub_pos.mpr (lt_of_le_of_ne hw.2 hone)
    rw [le_max_iff, le_div_iff₀ hrest, le_sub_iff_add_le, mul_comm zz]

/-- What the ZZ value of the buys may be at most for them to be at most `p`. -/
noncomputable def buy_limit (hmm_cfg : HMMConfig) (hmm_regime : String) (w p : ℝ) : ℝ :=
  if hmm_regime = "LOW_VOL" then scale_limit w (11 / 10 : ℚ) p
  else if hmm_regime = "HIGH_VOL" then scale_limit w (7 / 10 : ℚ) p
  else if hmm_regime = "HIGH_VOL_CRASH" then floor_limit w (hmm_cfg.crash_buy_agg_floor.1 : ℚ) p
  else if hmm_regime = "RECOVERY" then scale_limit w (hmm_cfg.recovery_buy_agg_boost.1 : ℚ) p
  else p

/-- What the ZZ value of the sells may be at most for them to be at most `p`. -/
noncomputable def sell_limit (hmm_cfg : HMMConfig) (hmm_regime : String) (w p : ℝ) : ℝ :=
  if hmm_regime = "LOW_VOL" then scale_limit w (11 / 10 : ℚ) p
  else if hmm_regime = "HIGH_VOL" then scale_limit w (6 / 10 : ℚ) p
  else if hmm_regime = "HIGH_VOL_CRASH" then
    ceiling_limit w (hmm_cfg.crash_sell_agg_ceiling.1 : ℚ) p
  else if hmm_regime = "RECOVERY" then scale_limit w (hmm_cfg.recovery_sell_agg_dampen.1 : ℚ) p
  else p

theorem hmm_overlay_le_iff (hmm_cfg : HMMConfig) (hmm_regime : String) {hmm_confidence : ℝ}
    (hconf : 0 ≤ hmm_confidence) {z : ℝ × ℝ} (hz : 0 ≤ z ∧ z ≤ 1) (hp : 0 ≤ p) :
    ((AggressivenessModel.hmm_overlay hmm_cfg hmm_regime hmm_confidence z).1 ≤ p ↔
      z.1 ≤ buy_limit hmm_cfg hmm_regime (weight hmm_confidence) p) ∧
    ((AggressivenessModel.hmm_overlay hmm_cfg hmm_regime hmm_confidence z).2 ≤ p ↔
      z.2 ≤ sell_limit hmm_cfg hmm_regime (weight hmm_confidence) p) := by
  have hw := weight_mem hconf
  have hscale : ∀ s : ℚ, 0 < s →
      (AggressivenessModel.blend hmm_confidence z.1 (z.1 * (s : ℝ)) ≤ p ↔
        z.1 ≤ scale_limit (weight hmm_confidence) s p) ∧
      (AggressivenessModel.blend hmm_confidence z.2 (z.2 * (s : ℝ)) ≤ p ↔
        z.2 ≤ scale_limit (weight hmm_confidence) s p) := by
    intro s hs
    rw [blend_eq, blend_eq]
    exact ⟨scaled_le_iff hw hz.2.1 hp (Rat.cast_pos.mpr hs),
      scaled_le_iff hw hz.2.2 hp (Rat.cast_pos.mpr hs)⟩
  unfold AggressivenessModel.hmm_overlay buy_limit sell_limit
  simp only
  split
  · exact hscale _ (by norm_num)
  split
  · exact ⟨(hscale _ (by norm_num)).1, (hscale _ (by norm_num)).2⟩
  split
  · rw [blend_eq, blend_eq]
    have hfloor : ((hmm_cfg.crash_buy_agg_floor.1 : ℚ) : ℝ) ≤ 1 := by
      exact_mod_cast hmm_cfg.crash_buy_agg_floor.2.2
    exact ⟨raised_le_iff hw ⟨hz.1.1, hz.2.1⟩ hfloor,
      capped_le_iff hw ⟨hz.1.2, hz.2.2⟩ (Rat.cast_nonneg.mpr hmm_cfg.crash_sell_agg_ceiling.2.1)⟩
  split
  · exact ⟨(hscale _ (zero_lt_one.trans_le hmm_cfg.recovery_buy_agg_boost.2.1)).1,
      (hscale _ (lt_of_lt_of_le (by norm_num) hmm_cfg.recovery_sell_agg_dampen.2.1)).2⟩
  · exact ⟨Iff.rfl, Iff.rfl⟩

/-- With nothing to adjust, the ZZ values are passed on. -/
theorem hmm_overlay_of_normal (hmm_cfg : HMMConfig) {hmm_regime : String} (hmm_confidence : ℝ)
    (z : ℝ × ℝ) (h : hmm_regime = "" ∨ hmm_regime = "NORMAL") :
    AggressivenessModel.hmm_overlay hmm_cfg hmm_regime hmm_confidence z = z := by
  unfold AggressivenessModel.hmm_overlay
  rcases h with rfl | rfl
  · rw [if_neg (by decide), if_neg (by decide), if_neg (by decide), if_neg (by decide)]
  · rw [if_neg (by decide), if_neg (by decide), if_neg (by decide), if_neg (by decide)]

/-! ## A tick -/

/-- The aggressiveness of both sides before the scaling: the HMM regime's, which is the ZZ regime's where
there is nothing to adjust. -/
theorem tick_aggressiveness_eq (m : AggressivenessModel) (state : GlobalState ℝ) :
    tick_aggressiveness m state =
      ((AggressivenessModel.hmm_overlay m.cfg.hmm state.hmm_regime state.hmm_regime_confidence
          (m.compute_with_regime state.volatility state.zz_regime)).1 * base m,
        (AggressivenessModel.hmm_overlay m.cfg.hmm state.hmm_regime state.hmm_regime_confidence
          (m.compute_with_regime state.volatility state.zz_regime)).2 * base m) := by
  have hraw : (if state.hmm_regime ≠ "" ∧ state.hmm_regime ≠ "NORMAL" then
      m.compute_with_hmm_regime state.volatility state.zz_regime state.hmm_regime
        state.hmm_regime_confidence
      else m.compute_with_regime state.volatility state.zz_regime) =
      AggressivenessModel.hmm_overlay m.cfg.hmm state.hmm_regime state.hmm_regime_confidence
        (m.compute_with_regime state.volatility state.zz_regime) := by
    split
    · rfl
    · rename_i hnone
      rw [not_and_or, not_not, not_not] at hnone
      exact (hmm_overlay_of_normal m.cfg.hmm _ _ hnone).symm
  unfold tick_aggressiveness aggressiveness
  simp only
  rw [hraw]
  rfl

/-- What the regimes and the volatility have to be for a tick to honour an aggressiveness of `r`. -/
structure Honoured (m : AggressivenessModel) (state : GlobalState ℝ) (r : ℝ) : Prop where
  nonneg : 0 ≤ r
  buy : base m = 0 ∨ Subdued m state.volatility (zz_buy_factor state.zz_regime)
    (buy_limit m.cfg.hmm state.hmm_regime (weight state.hmm_regime_confidence) (r / base m))
  sell : base m = 0 ∨ Subdued m state.volatility (zz_sell_factor state.zz_regime)
    (sell_limit m.cfg.hmm state.hmm_regime (weight state.hmm_regime_confidence) (r / base m))

theorem scaled_le_base_iff {x r : ℝ} (hr : 0 ≤ r) :
    x * base m ≤ r ↔ base m = 0 ∨ x ≤ r / base m := by
  rcases (base_mem m).1.eq_or_lt with h0 | hpos
  · rw [← h0, mul_zero]
    exact iff_of_true hr (.inl rfl)
  · rw [or_iff_right hpos.ne', le_div_iff₀ hpos]

theorem tick_le_iff (m : AggressivenessModel) (state : GlobalState ℝ)
    (hconf : 0 ≤ state.hmm_regime_confidence) (r : ℝ) :
    (tick_aggressiveness m state).1 ≤ r ∧ (tick_aggressiveness m state).2 ≤ r ↔
      Honoured m state r := by
  have hmem : 0 ≤ tick_aggressiveness m state :=
    (aggressiveness_mem m state.volatility state.zz_regime state.hmm_regime _).1
  rcases lt_or_ge r 0 with hneg | hr
  · exact iff_of_false (fun h => hneg.not_ge (hmem.1.trans h.1)) fun h => hneg.not_ge h.nonneg
  have hz := m.compute_with_regime_mem state.volatility state.zz_regime
  obtain ⟨hbuy, hsell⟩ := hmm_overlay_le_iff m.cfg.hmm state.hmm_regime hconf hz
    (div_nonneg hr (base_mem m).1)
  rw [tick_aggressiveness_eq, scaled_le_base_iff hr, scaled_le_base_iff hr, hbuy, hsell,
    compute_with_regime_buy, compute_with_regime_sell, zz_le_iff (zz_buy_factor_pos _),
    zz_le_iff (zz_sell_factor_pos _)]
  exact ⟨fun h => ⟨hr, h.1, h.2⟩, fun h => ⟨h.buy, h.sell⟩⟩

/-- **The aggressiveness of the regime is honoured**, and the grid fully passive where it is 0, exactly
when the volatility and the two other regimes leave both sides no more aggressive than that. -/
theorem honoured_iff (config : ExchangeBotConfig) (agg_model : AggressivenessModel)
    (bot : Feeds.Bot) (inventory : InventoryTracker) (state : GlobalState ℝ)
    (hconf : 0 ≤ state.hmm_regime_confidence) :
    let mm_params := bot.resolve_mm_params state.regime_state
    let r : ℝ := (mm_params.aggressiveness : ℝ)
    let agg := tick_aggressiveness agg_model state
    (agg.1 ≤ r ∧ agg.2 ≤ r ∧ (r = 0 → grid config agg_model bot inventory state =
      grid_at config agg_model mm_params (skew inventory mm_params : ℝ) state (0, 0))) ↔
    Honoured agg_model state r := by
  intro mm_params r agg
  have hmem : 0 ≤ agg :=
    (aggressiveness_mem agg_model state.volatility state.zz_regime state.hmm_regime _).1
  rw [← tick_le_iff agg_model state hconf r]
  refine ⟨fun h => ⟨h.1, h.2.1⟩, fun h => ⟨h.1, h.2, fun hr => ?_⟩⟩
  have hpassive : agg = (0, 0) :=
    Prod.ext (le_antisymm (h.1.trans_eq hr) hmem.1) (le_antisymm (h.2.trans_eq hr) hmem.2)
  exact congrArg (grid_at config agg_model mm_params (skew inventory mm_params : ℝ) state) hpassive

/-- `MM_PARAMETERS["THIN_BOOK"]`. -/
def THIN_BOOK : Feeds.MmParams :=
  { spread_mult := 2, depth_mult := 1 / 2, aggressiveness := 0, inventory_skew := 0 }

/-- A thin book, which calls for a fully passive grid. -/
def thin_book : Feeds.RegimeState where
  regime := "THIN_BOOK"
  confidence := 1
  zz_regime := "choppy"
  agreement := true
  mm_params := THIN_BOOK
  timestamp := 0

/-- A market with a thin book, at this volatility. -/
noncomputable def thin_market (volatility : ℝ) : GlobalState ℝ where
  global_mid := 1
  volatility := volatility
  zz_regime := "choppy"
  hmm_regime := "NORMAL"
  hmm_regime_confidence := 1
  regime_state := some thin_book

/-- In a fast market the grid is fully passive anyway. -/
theorem honoured_fast :
    grid default_bot ⟨default⟩ {} {} (thin_market 1) =
      grid_at default_bot ⟨default⟩ THIN_BOOK (skew {} THIN_BOOK : ℝ) (thin_market 1) (0, 0) := by
  have hlow : (((default : VolatilityConfig).low_threshold.1 : ℚ) : ℝ) = 1 / 1000 := by
    show (((1 / 1000 : ℚ)) : ℝ) = _
    norm_num
  have hhigh : (((default : VolatilityConfig).high_threshold.1 : ℚ) : ℝ) = 3 / 1000 := by
    show (((3 / 1000 : ℚ)) : ℝ) = _
    norm_num
  have hside : Subdued ⟨default⟩ 1 1 (0 / base ⟨default⟩) := by
    refine .inr ⟨by rw [zero_div], by rw [hlow]; norm_num, ?_⟩
    rw [volatility_at, hlow, hhigh, zero_div, zero_div, sub_zero, Real.one_rpow]
    norm_num
  have hr : ((THIN_BOOK.aggressiveness : ℚ) : ℝ) = 0 := Rat.cast_zero
  have hfactors : zz_buy_factor "choppy" = 1 ∧ zz_sell_factor "choppy" = 1 := by
    unfold zz_buy_factor zz_sell_factor
    rw [if_neg (by decide), if_neg (by decide), if_neg (by decide), if_neg (by decide), Rat.cast_one]
    exact ⟨rfl, rfl⟩
  have hhonoured : Honoured ⟨default⟩ (thin_market 1) ((THIN_BOOK.aggressiveness : ℚ) : ℝ) := by
    rw [hr]
    refine ⟨le_rfl, .inr ?_, .inr ?_⟩
    · show Subdued _ 1 (zz_buy_factor "choppy") (0 / base ⟨default⟩)
      rwa [hfactors.1]
    · show Subdued _ 1 (zz_sell_factor "choppy") (0 / base ⟨default⟩)
      rwa [hfactors.2]
  exact ((honoured_iff default_bot ⟨default⟩ {} {} (thin_market 1) zero_le_one).mpr hhonoured).2.2 hr

/-- **A thin book in a calm market**: its parameters call for no aggressiveness at all, and both sides
are fully aggressive. -/
theorem thin_book_ignored :
    (({} : Feeds.Bot).resolve_mm_params (thin_market 0).regime_state).aggressiveness = 0 ∧
      tick_aggressiveness ⟨default⟩ (thin_market 0) = (1, 1) ∧
      ¬(tick_aggressiveness ⟨default⟩ (thin_market 0)).1 ≤
        (({} : Feeds.Bot).resolve_mm_params (thin_market 0).regime_state).aggressiveness := by
  have hlow : (0 : ℝ) ≤ (((default : VolatilityConfig).low_threshold.1 : ℚ) : ℝ) :=
    Rat.cast_nonneg.mpr (default : VolatilityConfig).low_threshold.2.le
  have hbase : base ⟨default⟩ = 1 := Rat.cast_one
  have hcompute : AggressivenessModel.compute ⟨default⟩ (0 : ℝ) = 1 :=
    AggressivenessModel.compute_of_le hlow
  have hzz : AggressivenessModel.compute_with_regime ⟨default⟩ (0 : ℝ) "choppy" = (1, 1) := by
    unfold AggressivenessModel.compute_with_regime
    simp only
    rw [if_neg (by decide), if_neg (by decide), hcompute]
  have hagg : tick_aggressiveness ⟨default⟩ (thin_market 0) = (1, 1) := by
    have hnormal : (thin_market 0).hmm_regime = "NORMAL" := rfl
    rw [tick_aggressiveness_eq, hmm_overlay_of_normal _ _ _ (.inr hnormal), hbase, mul_one, mul_one]
    exact hzz
  have hr : (({} : Feeds.Bot).resolve_mm_params (thin_market 0).regime_state).aggressiveness = 0 := rfl
  refine ⟨hr, hagg, ?_⟩
  rw [hagg, hr, Rat.cast_zero]
  exact not_le.mpr zero_lt_one

end Meridian.TickGrid
