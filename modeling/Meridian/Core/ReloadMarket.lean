import Meridian.Core.Reload
import Meridian.Utils.RealFunctions

/-!
# Does a reload keep the market state?

`trigger_config_reload` builds new volatility, aggressiveness and regime models even where the
volatility section is the same, and with them goes what they had observed. Over the real numbers:

* `reload_forgets`: a run of two price ticks after which a reload changes the aggressiveness of the
  third;
* `reload_keeps_market_iff`: in every state reached, a reload with the same volatility section keeps
  the two volatilities, the regime and the aggressiveness of the next tick exactly if at most one
  price has been observed since the models were built and the candles say what none would say.
-/

namespace Meridian

/-! ## A jump of the price -/

theorem returns_append (l : List ℚ) (a b : ℚ) :
    returns (l ++ [a, b]) = returns (l ++ [a]) ++ [(b - a) / a] := by
  induction l with
  | nil => rfl
  | cons c l ih =>
    cases l with
    | nil => rfl
    | cons d l => exact congrArg (List.cons ((d - c) / c)) ih

theorem length_returns (l : List ℚ) : (returns l).length = l.length - 1 := by
  induction l with
  | nil => rfl
  | cons a l ih =>
    cases l with
    | nil => rfl
    | cons b l =>
      simp only [returns, List.length_cons] at ih ⊢
      omega

/-- Two values far apart have a large variance among any others. -/
theorem le_variance_append (l : List ℚ) (x y : ℚ) :
    (x - y) ^ 2 / (2 * (l.length + 2)) ≤ variance (l ++ [x, y]) := by
  generalize hμ : mean (l ++ [x, y]) = μ
  have hlen : ((l ++ [x, y]).length : ℚ) = l.length + 2 := by
    rw [List.length_append]
    push_cast
    rfl
  have hsum : 0 ≤ (l.map fun z => (z - μ) ^ 2).sum := by
    refine List.sum_nonneg fun z hz => ?_
    obtain ⟨w, -, rfl⟩ := List.mem_map.mp hz
    exact sq_nonneg _
  have hpair : (x - y) ^ 2 / 2 ≤ (x - μ) ^ 2 + (y - μ) ^ 2 := by
    have hsq := sq_nonneg ((x - μ) + (y - μ))
    linarith [show (x - y) ^ 2 = 2 * ((x - μ) ^ 2 + (y - μ) ^ 2) - ((x - μ) + (y - μ)) ^ 2 by ring]
  have hpos : (0 : ℚ) < l.length + 2 := by positivity
  rw [variance, hμ, mean, List.length_map, hlen, List.map_append, List.sum_append, ← div_div]
  refine div_le_div_of_nonneg_right ?_ hpos.le
  have hmap : ([x, y].map fun z => (z - μ) ^ 2).sum = (x - μ) ^ 2 + (y - μ) ^ 2 := by
    simp only [List.map_cons, List.map_nil, List.sum_cons, List.sum_nil, add_zero]
  rw [hmap]
  linarith

namespace VolatilityEngine

variable {e : VolatilityEngine ℝ}

theorem rolling_vol_of_lt (h : e.closes.items.length < 3) : e.rolling_vol = 0 := if_pos h

theorem max_samples_ge (cfg : VolatilityConfig) : 70 ≤ cfg.max_samples := by
  have hw := cfg.window_minutes.2.1
  unfold VolatilityConfig.max_samples
  omega

/-- The last two of the returns after the next price, of which there are at least two. -/
theorem returns_update_price {l : List ℚ} {a b : ℚ} (hitems : e.closes.items = l ++ [a, b])
    (price : ℚ) : ∃ r : List ℚ,
      returns (e.update_price price).closes.items = r ++ [(b - a) / a, (price - b) / b] ∧
      r.length + 2 ≤ e.cfg.max_samples ∧ ¬(e.update_price price).closes.items.length < 3 := by
  have h70 := max_samples_ge e.cfg
  obtain ⟨l', hpush⟩ := e.closes.items_push_append (a := price)
    (by simp only [List.length_cons, List.length_nil]; omega) hitems
  have hitems' : (e.update_price price).closes.items = l' ++ [a] ++ [b, price] := by
    rw [List.append_assoc]
    exact hpush
  have hlast : returns (l' ++ [a] ++ [b]) = returns (l' ++ [a]) ++ [(b - a) / a] := by
    rw [List.append_assoc]
    exact returns_append l' a b
  have hbound := (e.update_price price).closes.bound
  rw [hitems', List.length_append, List.length_append] at hbound
  refine ⟨returns (l' ++ [a]), ?_, ?_, ?_⟩
  · rw [hitems', returns_append, hlast, List.append_assoc, List.singleton_append]
  · rw [length_returns, List.length_append]
    simp only [List.length_cons, List.length_nil] at hbound ⊢
    exact le_trans (by omega) hbound
  · rw [hitems', List.length_append, List.length_append]
    simp only [List.length_cons, List.length_nil]
    omega

/-- A difference of `2 * n * B` between two of at most `n` values makes their deviation at least
`B`. -/
theorem sq_le_variance_append {r : List ℚ} {n : ℕ} (hlen : r.length + 2 ≤ n) {x y B : ℚ}
    (h : x - y = -(2 * n * B)) : B ^ 2 ≤ variance (r ++ [x, y]) := by
  have hn : (r.length : ℚ) + 2 ≤ n := by exact_mod_cast hlen
  have hone : (1 : ℚ) ≤ n := by exact_mod_cast (by omega : 1 ≤ n)
  calc B ^ 2 ≤ (x - y) ^ 2 / (2 * (r.length + 2)) := by
        rw [le_div_iff₀ (by positivity), h, neg_sq]
        nlinarith [mul_le_mul hn hone zero_le_one (by positivity), sq_nonneg B]
    _ ≤ variance (r ++ [x, y]) := le_variance_append r x y

/-- After two prices, the next one can be such that the volatility is as large as one likes. -/
theorem exists_large_vol {l : List ℚ} {a b : ℚ} (hitems : e.closes.items = l ++ [a, b])
    (ha : 0 < a) (hb : 0 < b) (v : ℝ) :
    ∃ price, 0 < price ∧ v ≤ (e.update_price price).rolling_vol := by
  obtain ⟨B, hB⟩ := exists_rat_gt (max v 0)
  have hB0 : (0 : ℚ) < B := by
    have h0 : (0 : ℝ) < B := lt_of_le_of_lt (le_max_right v 0) hB
    exact_mod_cast h0
  -- the next return exceeds the last one by `2 * max_samples * B`
  obtain ⟨price, hprice⟩ : ∃ price, price = b * (b / a + 2 * e.cfg.max_samples * B) := ⟨_, rfl⟩
  have hpositive : 0 < price := by
    rw [hprice]
    positivity
  obtain ⟨r, hreturns, hlen, hthree⟩ := returns_update_price hitems price
  have hdiff : (b - a) / a - (price - b) / b = -(2 * e.cfg.max_samples * B) := by
    rw [hprice]
    field_simp
    ring
  have hvar : B ^ 2 ≤ variance (returns (e.update_price price).closes.items) := by
    rw [hreturns]
    exact sq_le_variance_append hlen hdiff
  refine ⟨price, hpositive, ?_⟩
  rw [rolling_vol, if_neg hthree, sqrt_eq]
  calc v ≤ B := (le_max_left v 0).trans hB.le
    _ ≤ √((variance (returns (e.update_price price).closes.items) : ℚ) : ℝ) :=
        Real.le_sqrt_of_sq_le (by exact_mod_cast hvar)

/-! ## Candles that say nothing -/

theorem zz_regime_eq_choppy (cfg : VolatilityConfig) (net : ℝ) :
    zz_regime cfg net = "choppy" ↔ |net| ≤ ((cfg.trending_threshold.1 : ℚ) : ℝ) := by
  unfold zz_regime
  rw [abs_le]
  split
  · rename_i hup
    exact iff_of_false (by decide) fun h => absurd h.2 (not_le.mpr hup)
  · rename_i hup
    split
    · rename_i hdown
      exact iff_of_false (by decide) fun h => absurd h.1 (not_le.mpr hdown)
    · rename_i hdown
      exact iff_of_true (ite_self _) ⟨not_lt.mp hdown, not_lt.mp hup⟩

/-- The estimator has fewer than three candles or none that counts, or they leave it no positive
variance and a direction within the threshold. -/
def Uninformative (e : VolatilityEngine ℝ) : Prop :=
  let valid := e.candles.items.filter Candle.valid
  e.candles.items.length < 3 ∨ valid = [] ∨
    (mean (valid.map fun c => (c.hl_term - c.co_term : ℝ)) ≤ 0 ∧
      |mean (valid.map fun c => (c.co_val : ℝ))| ≤ ((e.cfg.trending_threshold.1 : ℚ) : ℝ))

/-- Such candles are estimated as no candles are, and no others. -/
theorem zhang_zhang_vol_eq_iff : e.zhang_zhang_vol.1 = (0, "choppy") ↔ e.Uninformative := by
  unfold zhang_zhang_vol Uninformative
  by_cases hlen : e.candles.items.length < 3
  · rw [if_pos hlen]
    exact iff_of_true rfl (Or.inl hlen)
  · rw [if_neg hlen]
    dsimp only
    split
    · rename_i hnil
      exact iff_of_true rfl (Or.inr (Or.inl hnil))
    · rename_i hne
      rw [or_iff_right hlen, or_iff_right hne, Prod.mk.injEq, zz_regime_eq_choppy, sqrt_eq,
        Real.sqrt_eq_zero (le_max_right _ _), max_eq_right_iff]

end VolatilityEngine

namespace Reload

open Run

variable {M : Type*} {hmmlearn : Option (Hmmlearn ℝ M)} {today : ℤ} {config : BotConfig}
  {o : Orchestrator ℝ M} {m : Market ℝ M} {cfg : VolatilityConfig}

/-! ## The property -/

/-- A reload keeps what the models report, now and on the next tick. -/
def KeepsMarket (hmmlearn : Option (Hmmlearn ℝ M)) (o : Orchestrator ℝ M) (new_config : BotConfig) :
    Prop :=
  let m := o.market
  let m' := (trigger_config_reload hmmlearn o new_config).market
  m'.vol_engine.rolling_vol = m.vol_engine.rolling_vol ∧
  m'.vol_engine.zhang_zhang_vol.1 = m.vol_engine.zhang_zhang_vol.1 ∧
  ∀ t, (m'.tick_prices hmmlearn t).1.hmm_regime = (m.tick_prices hmmlearn t).1.hmm_regime ∧
    (m'.tick_prices hmmlearn t).1.aggressiveness = (m.tick_prices hmmlearn t).1.aggressiveness

/-! ## The state of the models -/

/-- While the prices are few, the detector has seen no more observations and is in the regime it
starts with. -/
def Detecting (prices : ℕ) (d : HMMRegimeDetector ℝ M) : Prop :=
  prices ≤ 1 → d.current_regime = "NORMAL" ∧ d.observations.items.length ≤ prices

/-- The models are those of this volatility section, and the prices are positive. -/
structure Sound (cfg : VolatilityConfig) (m : Market ℝ M) : Prop where
  vol_cfg : m.vol_engine.cfg = cfg
  agg_cfg : m.agg_model.cfg = cfg
  positive : ∀ p ∈ m.vol_engine.closes.items, 0 < p
  detecting : ∀ d ∈ m.hmm_detector, Detecting m.vol_engine.closes.items.length d

theorem sound_build (hmmlearn : Option (Hmmlearn ℝ M)) (cfg : VolatilityConfig) (at_ : ℚ) :
    Sound cfg (Market.build hmmlearn cfg at_) where
  vol_cfg := rfl
  agg_cfg := rfl
  positive _ hp := absurd hp List.not_mem_nil
  detecting d hd := by
    unfold Market.build at hd
    dsimp only at hd
    split at hd
    · obtain rfl := Option.some.inj hd
      exact fun _ => ⟨rfl, Nat.le_refl 0⟩
    · cases hd

/-- Below three observations the detector keeps its regime. -/
theorem update_of_few {d : HMMRegimeDetector ℝ M} (h : d.observations.items.length ≤ 1)
    (obs : Features ℝ) :
    d.update hmmlearn obs =
      { d with observations := d.observations.push obs, obs_count := d.obs_count + 1 } := by
  have hready : ¬d.cfg.hmm_min_observations.1 ≤ (d.observations.push obs).items.length := by
    have hmin := d.cfg.hmm_min_observations.2.1
    rw [BoundedQueue.length_push]
    omega
  have hnot : HMMRegimeDetector.is_ready
      { d with observations := d.observations.push obs, obs_count := d.obs_count + 1 } = false :=
    decide_eq_false hready
  unfold HMMRegimeDetector.update
  simp only [hnot, Bool.false_eq_true, if_false]

/-! ## One tick -/

/-- The engine has the section and the prices of another one. -/
structure SamePrices (e e' : VolatilityEngine ℝ) : Prop where
  cfg : e'.cfg = e.cfg
  closes : e'.closes.items = e.closes.items

theorem SamePrices.trans {e e' e'' : VolatilityEngine ℝ} (h : SamePrices e e')
    (h' : SamePrices e' e'') : SamePrices e e'' :=
  ⟨h'.cfg.trans h.cfg, h'.closes.trans h.closes⟩

theorem SamePrices.rolling_vol {e e' : VolatilityEngine ℝ} (h : SamePrices e e') :
    e'.rolling_vol = e.rolling_vol := by
  rw [VolatilityEngine.rolling_vol, VolatilityEngine.rolling_vol, h.closes]

theorem samePrices_zhang_zhang_vol (e : VolatilityEngine ℝ) : SamePrices e e.zhang_zhang_vol.2 := by
  unfold VolatilityEngine.zhang_zhang_vol
  split
  · exact ⟨rfl, rfl⟩
  · split <;> exact ⟨rfl, rfl⟩

theorem samePrices_hmm_features (e : VolatilityEngine ℝ) : SamePrices e e.hmm_features.2 := by
  unfold VolatilityEngine.hmm_features
  split
  · exact ⟨rfl, rfl⟩
  · exact samePrices_zhang_zhang_vol e

theorem fetch_candles_eq (m : Market ℝ M) (t : PriceTick) :
    SamePrices m.vol_engine (m.fetch_candles t).vol_engine ∧
      (m.fetch_candles t).agg_model = m.agg_model ∧
      (m.fetch_candles t).hmm_detector = m.hmm_detector := by
  unfold Market.fetch_candles
  split
  · split <;> exact ⟨⟨rfl, rfl⟩, rfl, rfl⟩
  · exact ⟨⟨rfl, rfl⟩, rfl, rfl⟩

/-- What a tick observes before the regime is detected. -/
theorem observe_eq (m : Market ℝ M) (t : PriceTick) :
    SamePrices (m.vol_engine.update_price t.global_mid) (m.observe t).vol_engine ∧
      (m.observe t).agg_model = m.agg_model ∧ (m.observe t).hmm_detector = m.hmm_detector :=
  fetch_candles_eq { m with vol_engine := m.vol_engine.update_price t.global_mid } t

/-- The aggressiveness of a tick is that of the prices up to its own. -/
theorem tick_aggressiveness (m : Market ℝ M) (t : PriceTick) :
    (m.tick_prices hmmlearn t).1.aggressiveness =
      m.agg_model.compute (m.vol_engine.update_price t.global_mid).rolling_vol := by
  obtain ⟨hsame, hagg, -⟩ := observe_eq m t
  rw [← hagg, ← hsame.rolling_vol]
  rfl

variable (hmmlearn) in
/-- What a detection leaves: the prices, the aggressiveness model, and the detector as it was or
with one more observation. -/
theorem detect_eq (m : Market ℝ M) :
    SamePrices m.vol_engine (m.detect hmmlearn).2.vol_engine ∧
      (m.detect hmmlearn).2.agg_model = m.agg_model ∧
      ∀ d' ∈ (m.detect hmmlearn).2.hmm_detector, d' ∈ m.hmm_detector ∨
        ∃ d ∈ m.hmm_detector, ∃ obs, d' = d.update hmmlearn obs := by
  have hfeat := samePrices_hmm_features m.vol_engine
  unfold Market.detect
  split
  · rename_i d hd
    split
    · rename_i features vol_engine he
      rw [he] at hfeat
      refine ⟨hfeat, rfl, fun d' hd' => Or.inr ⟨d, hd, features, ?_⟩⟩
      exact (Option.some.inj hd').symm
    · rename_i vol_engine he
      rw [he] at hfeat
      exact ⟨hfeat, rfl, fun d' hd' => Or.inl hd'⟩
  · exact ⟨⟨rfl, rfl⟩, rfl, fun d' hd' => Or.inl hd'⟩

/-- While the detector has seen at most one observation, the regime is the one it starts with. -/
theorem detect_few (h : ∀ d ∈ m.hmm_detector,
    d.current_regime = "NORMAL" ∧ d.observations.items.length ≤ 1) :
    (m.detect hmmlearn).1.1 = "NORMAL" := by
  unfold Market.detect
  split
  · rename_i d hd
    obtain ⟨hregime, hfew⟩ := h d hd
    split
    · show (d.update hmmlearn _).current_regime = _
      rw [update_of_few hfew]
      exact hregime
    · rfl
  · rfl

/-- A tick adds its price. -/
theorem samePrices_tick (m : Market ℝ M) (hmmlearn : Option (Hmmlearn ℝ M)) (t : PriceTick) :
    SamePrices (m.vol_engine.update_price t.global_mid) (m.tick_prices hmmlearn t).2.vol_engine :=
  ((observe_eq m t).1.trans (samePrices_zhang_zhang_vol _)).trans (detect_eq hmmlearn
    { m.observe t with vol_engine := (m.observe t).vol_engine.zhang_zhang_vol.2 }).1

theorem Sound.tick (h : Sound cfg m) (t : PriceTick) : Sound cfg (m.tick_prices hmmlearn t).2 := by
  obtain ⟨-, hagg₁, hdet₁⟩ := observe_eq m t
  obtain ⟨-, hagg₂, hdet₂⟩ := detect_eq hmmlearn
    { m.observe t with vol_engine := (m.observe t).vol_engine.zhang_zhang_vol.2 }
  have hprices := samePrices_tick m hmmlearn t
  have hlen : (m.tick_prices hmmlearn t).2.vol_engine.closes.items.length =
      min (m.vol_engine.closes.items.length + 1) m.vol_engine.cfg.max_samples :=
    (congrArg List.length hprices.closes).trans (BoundedQueue.length_push ..)
  have h70 := VolatilityEngine.max_samples_ge m.vol_engine.cfg
  refine ⟨hprices.cfg.trans h.vol_cfg, ?_, ?_, ?_⟩
  · exact (congrArg AggressivenessModel.cfg (hagg₂.trans hagg₁)).trans h.agg_cfg
  · intro p hp
    have hp := List.mem_of_mem_drop (hprices.closes ▸ hp)
    rcases List.mem_append.mp hp with hp | hp
    · exact h.positive p hp
    · rw [List.mem_singleton.mp hp]
      exact t.positive
  · intro d' hd'
    rw [hlen]
    rcases hdet₂ d' hd' with hd | ⟨d, hd, obs, rfl⟩
    · rw [hdet₁] at hd
      intro hle
      obtain ⟨hregime, hobs⟩ := h.detecting d' hd (by omega)
      exact ⟨hregime, by omega⟩
    · rw [hdet₁] at hd
      intro hle
      obtain ⟨hregime, hobs⟩ := h.detecting d hd (by omega)
      rw [update_of_few (by omega)]
      refine ⟨hregime, ?_⟩
      show (d.observations.push obs).items.length ≤ _
      rw [BoundedQueue.length_push]
      omega

theorem sound (h : Reaches (Fires (next hmmlearn)) (fun _ _ => True)
    (start hmmlearn today config) o) : Sound o.config.volatility o.market := by
  refine h.inv (I := fun o => Sound o.config.volatility o.market) (sound_build ..) ?_
  intro o a o' hI _ hs
  cases a with
  | tick_prices t =>
    obtain rfl := Option.some.inj hs
    exact hI.tick t
  | bot n a =>
    simp only [Fires, next] at hs
    split at hs
    · obtain ⟨b', -, rfl⟩ := Option.map_eq_some_iff.mp hs
      exact hI
    · cases hs
  | reload new_config =>
    obtain rfl := Option.some.inj hs
    exact sound_build ..

/-! ## When a reload keeps the market state -/

variable (hmmlearn) in
/-- With at most one price so far, a tick reports what the first one does. -/
theorem tick_of_few (h : Sound cfg m) (hlen : m.vol_engine.closes.items.length ≤ 1)
    (t : PriceTick) :
    (m.tick_prices hmmlearn t).1.hmm_regime = "NORMAL" ∧
      (m.tick_prices hmmlearn t).1.aggressiveness = 1 := by
  constructor
  · refine detect_few fun d hd => ?_
    obtain ⟨-, -, hdet⟩ := observe_eq m t
    obtain ⟨hregime, hobs⟩ := h.detecting d (hdet ▸ hd) hlen
    exact ⟨hregime, hobs.trans hlen⟩
  · have hvol : (m.vol_engine.update_price t.global_mid).rolling_vol = 0 := by
      refine VolatilityEngine.rolling_vol_of_lt ?_
      show (m.vol_engine.closes.push t.global_mid).items.length < 3
      rw [BoundedQueue.length_push]
      omega
    rw [tick_aggressiveness, hvol]
    refine AggressivenessModel.compute_of_le ?_
    exact_mod_cast m.agg_model.cfg.low_threshold.2.le

variable (hmmlearn) in
/-- After two prices, the next one can be such that the bots turn fully passive. -/
theorem exists_passive_tick (h : Sound cfg m) (hlen : 2 ≤ m.vol_engine.closes.items.length) :
    ∃ t, (m.tick_prices hmmlearn t).1.aggressiveness = 0 := by
  obtain ⟨l, a, b, hitems⟩ : ∃ l a b, m.vol_engine.closes.items = l ++ [a, b] := by
    refine ⟨m.vol_engine.closes.items.dropLast.dropLast, ?_⟩
    generalize m.vol_engine.closes.items = items at hlen
    induction items using List.reverseRecOn with
    | nil => exact absurd hlen (by simp)
    | append_singleton l b _ =>
      cases l using List.reverseRecOn with
      | nil => exact absurd hlen (by simp)
      | append_singleton l a => exact ⟨a, b, by simp⟩
  have ha : 0 < a := h.positive a (by rw [hitems]; simp)
  have hb : 0 < b := h.positive b (by rw [hitems]; simp)
  let lo : ℝ := ((m.agg_model.cfg.low_threshold.1 : ℚ) : ℝ)
  let hi : ℝ := ((m.agg_model.cfg.high_threshold.1 : ℚ) : ℝ)
  obtain ⟨price, hprice, hvol⟩ := VolatilityEngine.exists_large_vol hitems ha hb (max (lo + 1) hi)
  refine ⟨⟨price, hprice, 0, none⟩, ?_⟩
  rw [tick_aggressiveness]
  refine AggressivenessModel.compute_of_ge ?_ ?_
  · exact lt_of_lt_of_le (lt_add_one lo) ((le_max_left _ _).trans hvol)
  · exact (le_max_right _ _).trans hvol

/-- **When a reload keeps the market state**, after any run and with the volatility settings
unchanged: exactly if the models know no more than new ones. The reload builds them anew, so all
that the deviation and the estimator have learned of the prices and candles so far is lost. -/
theorem reload_keeps_market_iff
    (h : Reaches (Fires (next hmmlearn)) (fun _ _ => True) (start hmmlearn today config) o)
    {new_config : BotConfig} (hvol : new_config.volatility = o.config.volatility) :
    KeepsMarket hmmlearn o new_config ↔
      o.market.vol_engine.closes.items.length ≤ 1 ∧ o.market.vol_engine.Uninformative := by
  have hs := sound h
  have hs' : Sound o.config.volatility (trigger_config_reload hmmlearn o new_config).market := by
    rw [← hvol]
    exact sound_build ..
  have hcloses' : (trigger_config_reload hmmlearn o new_config).market.vol_engine.closes.items = [] :=
    rfl
  have hlen' := (congrArg List.length hcloses').trans_le (Nat.zero_le 1)
  have hroll' : (trigger_config_reload hmmlearn o new_config).market.vol_engine.rolling_vol = 0 :=
    VolatilityEngine.rolling_vol_of_lt (Nat.zero_lt_succ 2)
  have hzz' : (trigger_config_reload hmmlearn o new_config).market.vol_engine.zhang_zhang_vol.1 =
      (0, "choppy") := rfl
  unfold KeepsMarket
  dsimp only
  rw [hroll', hzz', ← VolatilityEngine.zhang_zhang_vol_eq_iff]
  constructor
  · rintro ⟨-, hzz, hnext⟩
    refine ⟨?_, hzz.symm⟩
    by_contra hlen
    obtain ⟨t, ht⟩ := exists_passive_tick hmmlearn hs (by omega)
    have hsame := (hnext t).2
    rw [(tick_of_few hmmlearn hs' hlen' t).2, ht] at hsame
    exact one_ne_zero hsame
  · rintro ⟨hlen, hzz⟩
    refine ⟨?_, hzz.symm, fun t => ?_⟩
    · exact (VolatilityEngine.rolling_vol_of_lt (by omega)).symm
    · obtain ⟨hregime, hagg⟩ := tick_of_few hmmlearn hs hlen t
      obtain ⟨hregime', hagg'⟩ := tick_of_few hmmlearn hs' hlen' t
      exact ⟨hregime'.trans hregime.symm, hagg'.trans hagg.symm⟩

/-- The configuration that is saved again. -/
def saved : BotConfig := { exchanges := [{ exchange := .kucoin, symbol := "ALKIMI/USDT" }] }

/-- Before the second price there is nothing to lose. -/
theorem reload_keeps_market_at_start :
    ∃ o : Orchestrator ℝ Unit,
      Reaches (Fires (next none)) (fun _ _ => True) (start none 0 saved) o ∧
      o.market.vol_engine.closes.items = [1] ∧ KeepsMarket none o saved := by
  have hr : Reaches (Fires (next none)) (fun _ _ => True)
      (start none 0 saved : Orchestrator ℝ Unit) _ :=
    Reaches.refl.tail (a := .tick_prices ⟨1, one_pos, 0, none⟩) trivial rfl
  have hcloses := samePrices_tick (start none 0 saved : Orchestrator ℝ Unit).market none
    ⟨1, one_pos, 0, none⟩
  refine ⟨_, hr, hcloses.closes, (reload_keeps_market_iff hr rfl).mpr ⟨?_, Or.inl ?_⟩⟩
  · exact (congrArg List.length hcloses.closes).le
  · dsimp only [start, saved, Market.build, Market.tick_prices, Market.observe,
      Market.fetch_candles]
    rw [ite_self]
    exact Nat.zero_lt_succ 2

/-- A price is kept while the prices are few. -/
theorem closes_update_price {e : VolatilityEngine ℝ} {l : List ℚ} {price : ℚ}
    (h : e.closes.items = l) (hlen : l.length < 70) :
    (e.update_price price).closes.items = l ++ [price] := by
  subst h
  exact BoundedQueue.items_push_of_lt (hlen.trans_le (VolatilityEngine.max_samples_ge e.cfg))

/-- The volatility of the prices 1, 2 and 1. -/
theorem rolling_vol_jump {e : VolatilityEngine ℝ} (h : e.closes.items = [1, 2]) :
    (e.update_price 1).rolling_vol = 3 / 4 := by
  have hitems : (e.update_price 1).closes.items = [1, 2, 1] :=
    closes_update_price h (by decide)
  have hthree : ¬([1, 2, 1] : List ℚ).length < 3 := lt_irrefl 3
  have hvariance : variance (returns [1, 2, 1]) = (3 / 4) ^ 2 := by
    norm_num [variance, mean, returns]
  rw [VolatilityEngine.rolling_vol, hitems, if_neg hthree, sqrt_eq, hvariance, Rat.cast_pow,
    Real.sqrt_sq (by norm_num)]
  norm_num

/-- The prices 1, 2 and 1 make the bots fully passive, and a reload before the third makes them
fully aggressive. -/
theorem reload_forgets :
    ∃ (o : Orchestrator ℝ Unit) (t : PriceTick),
      Reaches (Fires (next none)) (fun _ _ => True) (start none 0 saved) o ∧
      o.config = saved ∧ o.market.vol_engine.closes.items = [1, 2] ∧ t.global_mid = 1 ∧
      (o.market.tick_prices none t).1.aggressiveness = 0 ∧
      ((trigger_config_reload none o saved).market.tick_prices none t).1.aggressiveness = 1 ∧
      ¬KeepsMarket none o saved := by
  have hr : Reaches (Fires (next none)) (fun _ _ => True)
      (start none 0 saved : Orchestrator ℝ Unit) _ :=
    (Reaches.refl.tail (a := .tick_prices ⟨1, one_pos, 0, none⟩) trivial rfl).tail
      (a := .tick_prices ⟨2, two_pos, 1, none⟩) trivial rfl
  generalize ho : (⟨_, _, _⟩ : Orchestrator ℝ Unit) = o at hr
  have hconfig : o.config = saved := by
    rw [← ho]
    rfl
  have hcloses : o.market.vol_engine.closes.items = [1, 2] := by
    have hfirst := samePrices_tick (start none 0 saved : Orchestrator ℝ Unit).market none
      ⟨1, one_pos, 0, none⟩
    have hsecond := samePrices_tick
      ((start none 0 saved : Orchestrator ℝ Unit).market.tick_prices none ⟨1, one_pos, 0, none⟩).2
      none ⟨2, two_pos, 1, none⟩
    rw [← ho]
    exact hsecond.closes.trans
      (closes_update_price (hfirst.closes.trans (closes_update_price rfl (by decide))) (by decide))
  have hbefore : (o.market.tick_prices none ⟨1, one_pos, 2, none⟩).1.aggressiveness = 0 := by
    have hcfg : o.market.agg_model.cfg = {} := (sound hr).agg_cfg.trans (hconfig ▸ rfl)
    rw [tick_aggressiveness, rolling_vol_jump hcloses]
    refine AggressivenessModel.compute_of_ge ?_ ?_
    · rw [hcfg]
      norm_num
    · rw [hcfg]
      norm_num
  have hafter : ((trigger_config_reload none o saved).market.tick_prices none
      ⟨1, one_pos, 2, none⟩).1.aggressiveness = 1 := by
    have hnew := sound_build (M := Unit) none saved.volatility o.market.last_candle_fetch_at
    exact (tick_of_few none hnew (Nat.zero_le 1) _).2
  refine ⟨o, ⟨1, one_pos, 2, none⟩, hr, hconfig, hcloses, rfl, hbefore, hafter, fun hkeeps => ?_⟩
  have hsame := (hkeeps.2.2 ⟨1, one_pos, 2, none⟩).2
  rw [hbefore, hafter] at hsame
  exact one_ne_zero hsame

end Reload

end Meridian
