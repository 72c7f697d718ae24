import Mathlib.Data.Finset.Lattice.Fold
import Meridian.Lib.HiddenFilter
import Meridian.Quant.ProperModel

/-!
# What the regime detector makes of the market

Model of the feature bins (`regime_detector.py:151-211`), of `update_from_floats` and of what is
read off the belief (`regime_detector.py:361-383`). Over exact numbers an observation is one step of
a hidden Markov filter (`HiddenFilter.filtered`), so the filter's laws hold of the detector.

Results:
* `Untrained.forgets`: what two detectors have seen before fades by a tenth with every observation
  both see;
* `Untrained.argmax_of_calm`, `Untrained.argmax_of_violent`: bins that decide the regime alone;
* `Level.argmax_ne_trending`: while the price rises by no more than 1% between two observations, the
  regime is never TRENDING.

Out of scope: the rounding of doubles. With a difference that fades below their precision the detectors
are equal in the code and merely close here.
-/

namespace Meridian

open Matrix HiddenFilter

/-! ## The features -/

/-- `discretise_price_vol` -/
def discretise_price_vol (vol : ℚ) : ℕ :=
  if vol < 2 / 100 then 0 else if vol < 5 / 100 then 1 else 2

/-- `discretise_bid_ask_spread` -/
def discretise_bid_ask_spread (spread_pct : ℚ) : ℕ :=
  if spread_pct < 1 / 10 then 0 else if spread_pct < 5 / 10 then 1 else 2

/-- `discretise_ob_imbalance` -/
def discretise_ob_imbalance (imbalance : ℚ) : ℕ :=
  if imbalance < -(2 / 10) then 0 else if 2 / 10 < imbalance then 2 else 1

/-- `discretise_funding_rate` -/
def discretise_funding_rate (rate : ℚ) : ℕ :=
  if rate < -(1 / 10000) then 0 else if 1 / 10000 < rate then 2 else 1

/-- `discretise_price_change_rate` -/
def discretise_price_change_rate (pct_change : ℚ) : ℕ :=
  if pct_change < -(1 / 100) then 0
  else if pct_change < 0 then 1
  else if pct_change ≤ 1 / 100 then 2
  else 3

/-- `observation_from_floats` -/
def observation_from_floats
    (price_vol bid_ask_spread_pct ob_imbalance funding_rate price_change_rate : ℚ) : ℕ :=
  encode_observation (discretise_price_vol price_vol)
    (discretise_bid_ask_spread bid_ask_spread_pct) (discretise_ob_imbalance ob_imbalance)
    (discretise_funding_rate funding_rate) (discretise_price_change_rate price_change_rate)

theorem discretise_price_vol_lt (vol : ℚ) : discretise_price_vol vol < PV_SIZE := by
  unfold discretise_price_vol
  split_ifs <;> decide

theorem discretise_bid_ask_spread_lt (spread_pct : ℚ) :
    discretise_bid_ask_spread spread_pct < BAS_SIZE := by
  unfold discretise_bid_ask_spread
  split_ifs <;> decide

theorem discretise_ob_imbalance_lt (imbalance : ℚ) :
    discretise_ob_imbalance imbalance < OBI_SIZE := by
  unfold discretise_ob_imbalance
  split_ifs <;> decide

theorem discretise_funding_rate_lt (rate : ℚ) : discretise_funding_rate rate < FR_SIZE := by
  unfold discretise_funding_rate
  split_ifs <;> decide

theorem discretise_price_change_rate_lt (pct_change : ℚ) :
    discretise_price_change_rate pct_change < PCR_SIZE := by
  unfold discretise_price_change_rate
  split_ifs <;> decide

/-- A balanced book. -/
theorem discretise_ob_imbalance_zero :
    discretise_ob_imbalance 0 = 1 := by
  rw [discretise_ob_imbalance, if_neg (by norm_num), if_neg (by norm_num)]

/-- A neutral funding rate. -/
theorem discretise_funding_rate_zero :
    discretise_funding_rate 0 = 1 := by
  rw [discretise_funding_rate, if_neg (by norm_num), if_neg (by norm_num)]

theorem encode_observation_lt {pv bas obi fr pcr : ℕ} (hpv : pv < PV_SIZE) (hbas : bas < BAS_SIZE)
    (hobi : obi < OBI_SIZE) (hfr : fr < FR_SIZE) (hpcr : pcr < PCR_SIZE) :
    encode_observation pv bas obi fr pcr < N_OBS := by
  simp only [encode_observation, N_OBS, PV_SIZE, BAS_SIZE, OBI_SIZE, FR_SIZE, PCR_SIZE] at *
  omega

/-- No features are out of range. -/
theorem observation_from_floats_lt
    (price_vol bid_ask_spread_pct ob_imbalance funding_rate price_change_rate : ℚ) :
    observation_from_floats price_vol bid_ask_spread_pct ob_imbalance funding_rate
      price_change_rate < N_OBS :=
  encode_observation_lt (discretise_price_vol_lt _) (discretise_bid_ask_spread_lt _)
    (discretise_ob_imbalance_lt _) (discretise_funding_rate_lt _)
    (discretise_price_change_rate_lt _)

/-! ## The most likely state -/

/-- `REGIME_NAMES` -/
def REGIME_NAMES : Fin N_STATES → String := ![ "RANGING", "TRENDING", "HIGH_VOL", "THIN_BOOK" ]

section Argmax

variable {V : Type*} [LinearOrder V]

/-- `np.argmax`: the first state of the greatest value. -/
def argmax (v : Fin N_STATES → V) : Fin N_STATES :=
  (List.finRange N_STATES).foldl (fun best i => if v best < v i then i else best) ⟨0, by decide⟩

/-- `np.max` -/
def maximum (v : Fin N_STATES → V) : V :=
  Finset.univ.sup' ⟨⟨0, by decide⟩, Finset.mem_univ _⟩ v

theorem le_foldl_argmax (v : Fin N_STATES → V) (l : List (Fin N_STATES)) (best : Fin N_STATES) :
    v best ≤ v (l.foldl (fun best i => if v best < v i then i else best) best) ∧
      ∀ i ∈ l, v i ≤ v (l.foldl (fun best i => if v best < v i then i else best) best) := by
  induction l generalizing best with
  | nil => exact ⟨le_rfl, fun _ h => absurd h List.not_mem_nil⟩
  | cons j l ih =>
    rw [List.foldl_cons]
    by_cases hj : v best < v j
    · rw [if_pos hj]
      obtain ⟨hbest, hl⟩ := ih j
      exact ⟨hj.le.trans hbest, List.forall_mem_cons.mpr ⟨hbest, hl⟩⟩
    · rw [if_neg hj]
      obtain ⟨hbest, hl⟩ := ih best
      exact ⟨hbest, List.forall_mem_cons.mpr ⟨(not_lt.mp hj).trans hbest, hl⟩⟩

theorem le_argmax (v : Fin N_STATES → V) (i : Fin N_STATES) : v i ≤ v (argmax v) :=
  (le_foldl_argmax v (List.finRange N_STATES) _).2 i (List.mem_finRange i)

theorem maximum_eq (v : Fin N_STATES → V) : maximum v = v (argmax v) :=
  le_antisymm (Finset.sup'_le _ _ fun i _ => le_argmax v i)
    (Finset.le_sup' v (Finset.mem_univ (argmax v)))

/-- A state that beats all others is the most likely one. -/
theorem argmax_eq {v : Fin N_STATES → V} {j : Fin N_STATES} (h : ∀ k, k ≠ j → v k < v j) :
    argmax v = j := by
  by_contra hne
  exact absurd (le_argmax v j) (not_le.mpr (h _ hne))

/-- A state that another one beats is not. -/
theorem argmax_ne {v : Fin N_STATES → V} {j k : Fin N_STATES} (h : v k < v j) : argmax v ≠ k := by
  intro heq
  exact absurd (le_argmax v j) (not_le.mpr (heq ▸ h))

end Argmax

variable {K : Type*} [Field K] [LinearOrder K]

/-- Beliefs that are close agree about the value of the most likely state. -/
theorem abs_maximum_sub_le [IsStrictOrderedRing K] {u v : Fin N_STATES → K} {c : K}
    (h : ∀ i, |u i - v i| ≤ c) : |maximum u - maximum v| ≤ c := by
  have hone : ∀ {u v : Fin N_STATES → K}, (∀ i, |u i - v i| ≤ c) → maximum u ≤ maximum v + c := by
    intro u v h
    rw [maximum_eq u]
    calc u (argmax u) ≤ v (argmax u) + c := by linarith [(abs_le.mp (h (argmax u))).2]
      _ ≤ maximum v + c := by
        rw [maximum_eq v]
        linarith [le_argmax v (argmax u)]
  rw [abs_le]
  constructor
  · have hvu := hone (u := v) (v := u) fun i => by rw [abs_sub_comm]; exact h i
    linarith
  · linarith [hone h]

theorem Distribution.mem_stdSimplex {v : Fin N_STATES → K} (h : Distribution v) :
    v ∈ stdSimplex K (Fin N_STATES) := ⟨h.nonneg, h.sum⟩

/-- The most likely of four states has at least a quarter. -/
theorem Distribution.maximum_mem [IsStrictOrderedRing K] {v : Fin N_STATES → K}
    (h : Distribution v) : 1 / 4 ≤ maximum v ∧ maximum v ≤ 1 := by
  rw [maximum_eq]
  refine ⟨?_, (mem_Icc_of_mem_stdSimplex h.mem_stdSimplex _).2⟩
  have hle : ∑ i, v i ≤ ∑ _i : Fin N_STATES, v (argmax v) :=
    Finset.sum_le_sum fun i _ => le_argmax v i
  rw [h.sum, Finset.sum_const, Finset.card_univ, Fintype.card_fin, nsmul_eq_mul] at hle
  norm_num [N_STATES] at hle
  linarith

/-! ## Updates are steps of a filter -/

namespace RegimeDetector

/-- `update_from_floats` -/
def update_from_floats (d : RegimeDetector ℚ)
    (price_vol bid_ask_spread_pct ob_imbalance funding_rate price_change_rate : ℚ) :
    RegimeDetector ℚ :=
  d.update (observation_from_floats price_vol bid_ask_spread_pct ob_imbalance funding_rate
    price_change_rate : ℕ)

/-- `get_regime` -/
def get_regime (d : RegimeDetector K) : String := REGIME_NAMES (argmax d.belief)

/-- `get_regime_confidence` -/
def get_regime_confidence (d : RegimeDetector K) : K := maximum d.belief

theorem update_from_floats_eq (d : RegimeDetector ℚ)
    (price_vol bid_ask_spread_pct ob_imbalance funding_rate price_change_rate : ℚ) :
    d.update_from_floats price_vol bid_ask_spread_pct ob_imbalance funding_rate
      price_change_rate = d.observe ⟨_, observation_from_floats_lt price_vol bid_ask_spread_pct
        ob_imbalance funding_rate price_change_rate⟩ := by
  have hlt := observation_from_floats_lt price_vol bid_ask_spread_pct ob_imbalance funding_rate
    price_change_rate
  rw [update_from_floats, update, dif_pos ⟨Int.natCast_nonneg _, Int.ofNat_lt.mpr hlt⟩]
  rfl

variable {d d' : RegimeDetector K}

theorem Sound.stochastic (h : d.Sound) : Stochastic d.A := fun i =>
  (h.model.proper.A i).mem_stdSimplex

variable [IsStrictOrderedRing K]

/-- **An observation is a step of the filter**, the prior never restored. -/
theorem Sound.observe_eq (h : d.Sound) (o : Fin N_OBS) :
    (d.observe o).toHmm = d.toHmm ∧
      (d.observe o).belief = filtered d.A d.belief fun j => d.B j o := by
  rw [RegimeDetector.observe, if_neg (h.sum_updated_pos o).1]
  exact ⟨rfl, rfl⟩

theorem Sound.foldl_observe (h : d.Sound) (os : List (Fin N_OBS)) :
    (os.foldl RegimeDetector.observe d).Sound ∧
      (os.foldl RegimeDetector.observe d).toHmm = d.toHmm ∧
      (os.foldl RegimeDetector.observe d).belief =
        (os.map fun o j => d.B j o).foldl (filtered d.A) d.belief := by
  induction os generalizing d with
  | nil => exact ⟨h, rfl, rfl⟩
  | cons o os ih =>
    obtain ⟨hmodel, hbelief⟩ := h.observe_eq o
    obtain ⟨hsound, hmodel', hbelief'⟩ := ih (h.observe o)
    refine ⟨hsound, hmodel'.trans hmodel, ?_⟩
    rw [List.foldl_cons, hbelief', hbelief, hmodel]
    rfl

/-- **Two detectors of one model forget what they have seen before**, as fast as the model mixes. -/
theorem Sound.forgets (h : d.Sound) (h' : d'.Sound) (hsame : d'.toHmm = d.toHmm) {ε : K}
    (hmix : Mixing ε d.A) (hε : 0 < ε) (hε1 : ε ≤ 1) {os : List (Fin N_OBS)} (hne : os ≠ [])
    (i : Fin N_STATES) :
    |(os.foldl RegimeDetector.observe d).belief i - (os.foldl RegimeDetector.observe d').belief i| ≤
      (1 - ε) ^ (os.length - 1) * (1 / ε ^ 2 - 1) := by
  rw [(h.foldl_observe os).2.2, (h'.foldl_observe os).2.2, hsame]
  have hpos : ∀ w ∈ os.map fun o j => d.B j o, ∀ j, 0 < w j := by
    intro w hw j
    obtain ⟨o, _, rfl⟩ := List.mem_map.mp hw
    exact h.model.proper.B_pos j o
  have hle := abs_foldl_sub_le h.stochastic hmix hε hε1 hpos (mt List.map_eq_nil_iff.mp hne)
    h.belief.mem_stdSimplex h'.belief.mem_stdSimplex i
  rwa [List.length_map] at hle

end RegimeDetector

/-! ## The default model -/

theorem sum_transition_probs : ∀ i, ∑ j, transition_probs i j = 1 := by decide +kernel

theorem sum_joint_probs : ∀ s, ∑ o, joint_probs s o = 1 := by decide +kernel

/-- The tables are normalised as they stand. -/
theorem new_A : (RegimeDetector.new : RegimeDetector ℚ).A = transition_probs := by
  funext i j
  simp only [RegimeDetector.new, default_A, sum_transition_probs, div_one, Rat.cast_id]

theorem new_B : (RegimeDetector.new : RegimeDetector ℚ).B = joint_probs := by
  funext s o
  simp only [RegimeDetector.new, default_B, sum_joint_probs, div_one, Rat.cast_id]

theorem mixing_transition_probs : Mixing (1 / 10) transition_probs := by decide +kernel

/-- The states by their names. -/
def ranging : Fin N_STATES := ⟨0, by decide⟩

def trending : Fin N_STATES := ⟨1, by decide⟩

def high_vol : Fin N_STATES := ⟨2, by decide⟩

def thin_book : Fin N_STATES := ⟨3, by decide⟩

theorem sum_states (f : Fin N_STATES → ℚ) :
    ∑ i, f i = f ranging + f trending + f high_vol + f thin_book := Fin.sum_univ_four f

/-- An observation of a balanced book and a neutral funding rate. -/
def balanced (pv : Fin PV_SIZE) (bas : Fin BAS_SIZE) (pcr : Fin PCR_SIZE) : Fin N_OBS :=
  ⟨encode_observation pv bas 1 1 pcr,
    encode_observation_lt pv.isLt bas.isLt (by decide) (by decide) pcr.isLt⟩

/-- Volatility and spread are low; or one of them is medium and the price does not jump. -/
def Calm (pv : Fin PV_SIZE) (bas : Fin BAS_SIZE) (pcr : Fin PCR_SIZE) : Prop :=
  (pv : ℕ) + bas = 0 ∨ (pv : ℕ) + bas = 1 ∧ (pcr : ℕ) < 3

instance (pv : Fin PV_SIZE) (bas : Fin BAS_SIZE) (pcr : Fin PCR_SIZE) :
    Decidable (Calm pv bas pcr) := inferInstanceAs (Decidable (_ ∨ _))

theorem ranging_dominates : ∀ pv bas pcr, Calm pv bas pcr → ∀ k, k ≠ ranging →
    Dominates transition_probs (fun j => joint_probs j (balanced pv bas pcr)) ranging k := by
  decide +kernel

/-- Where volatility and spread are both high. -/
theorem high_vol_dominates : ∀ (pv : Fin PV_SIZE) (bas : Fin BAS_SIZE) pcr, (pv : ℕ) = 2 →
    (bas : ℕ) = 2 → Dominates transition_probs (fun j => joint_probs j (balanced pv bas pcr))
      high_vol ranging := by
  decide +kernel

/-- The score of a belief is negative where it holds TRENDING to be the most likely. -/
def level : Fin N_STATES → ℚ := ![52 / 100, -1, 23 / 100, 24 / 100]

/-- How much of the score an observation is sure to keep. -/
def kept (o : Fin N_OBS) : ℚ := max 0 (-∑ j, transition_probs trending j * (joint_probs j o * level j))

theorem keeps_level : ∀ pv bas (pcr : Fin PCR_SIZE), (pcr : ℕ) < 3 →
    Keeps transition_probs level (fun j => joint_probs j (balanced pv bas pcr))
      (kept (balanced pv bas pcr)) := by
  decide +kernel

namespace RegimeDetector

/-- A detector with the default model, whatever it has seen. -/
structure Untrained (d : RegimeDetector ℚ) : Prop where
  sound : d.Sound
  model : d.toHmm = (new : RegimeDetector ℚ).toHmm

theorem untrained_new : (new : RegimeDetector ℚ).Untrained := ⟨sound_new, rfl⟩

variable {d d' : RegimeDetector ℚ}

theorem Untrained.A_eq (h : d.Untrained) : d.A = transition_probs := by
  rw [h.model]
  exact new_A

theorem Untrained.B_eq (h : d.Untrained) : d.B = joint_probs := by
  rw [h.model]
  exact new_B

theorem Untrained.observe (h : d.Untrained) (o : Fin N_OBS) : (d.observe o).Untrained :=
  ⟨h.sound.observe o, (h.sound.observe_eq o).1.trans h.model⟩

theorem Untrained.foldl_observe (h : d.Untrained) (os : List (Fin N_OBS)) :
    (os.foldl RegimeDetector.observe d).Untrained :=
  ⟨(h.sound.foldl_observe os).1, (h.sound.foldl_observe os).2.1.trans h.model⟩

theorem Untrained.belief_observe (h : d.Untrained) (o : Fin N_OBS) :
    (d.observe o).belief = filtered transition_probs d.belief fun j => joint_probs j o := by
  rw [(h.sound.observe_eq o).2, h.A_eq, h.B_eq]

theorem Untrained.stochastic (h : d.Untrained) : Stochastic transition_probs :=
  h.A_eq ▸ h.sound.stochastic

/-- **What was seen before fades**: by a tenth with every observation that both see. -/
theorem Untrained.forgets (h : d.Untrained) (h' : d'.Untrained) (os : List (Fin N_OBS))
    (i : Fin N_STATES) :
    |(os.foldl RegimeDetector.observe d).belief i - (os.foldl RegimeDetector.observe d').belief i| ≤
      99 * (9 / 10) ^ (os.length - 1) := by
  cases os with
  | nil =>
    have hd := mem_Icc_of_mem_stdSimplex h.sound.belief.mem_stdSimplex i
    have hd' := mem_Icc_of_mem_stdSimplex h'.sound.belief.mem_stdSimplex i
    rw [List.length_nil, Nat.zero_sub, pow_zero, mul_one]
    exact (abs_sub_le_of_le_of_le hd.1 hd.2 hd'.1 hd'.2).trans (by norm_num)
  | cons o os =>
    have hmix : Mixing (1 / 10) d.A := by rw [h.A_eq]; exact mixing_transition_probs
    have hle := h.sound.forgets h'.sound (h'.model.trans h.model.symm) hmix (by norm_num)
      (by norm_num) (List.cons_ne_nil o os) i
    rw [mul_comm] at hle
    norm_num at hle ⊢
    exact hle

theorem Untrained.observe_lt (h : d.Untrained) {o : Fin N_OBS} {j k : Fin N_STATES}
    (hdom : Dominates transition_probs (fun j => joint_probs j o) j k) :
    (d.observe o).belief k < (d.observe o).belief j := by
  rw [h.belief_observe]
  exact filtered_lt_of_dominates h.stochastic (fun i => joint_probs_pos i o)
    h.sound.belief.mem_stdSimplex hdom

/-- **A calm market is RANGING**, whatever was before: under its bins RANGING dominates each other
regime. -/
theorem Untrained.argmax_of_calm (h : d.Untrained) {pv : Fin PV_SIZE} {bas : Fin BAS_SIZE}
    {pcr : Fin PCR_SIZE} (hcalm : Calm pv bas pcr) :
    argmax (d.observe (balanced pv bas pcr)).belief = ranging :=
  argmax_eq fun k hk => h.observe_lt (ranging_dominates pv bas pcr hcalm k hk)

/-- **A violent market is not RANGING**, whatever was before: under its bins another regime
dominates it. -/
theorem Untrained.argmax_of_violent (h : d.Untrained) {pv : Fin PV_SIZE} {bas : Fin BAS_SIZE}
    (pcr : Fin PCR_SIZE) (hpv : (pv : ℕ) = 2) (hbas : (bas : ℕ) = 2) :
    argmax (d.observe (balanced pv bas pcr)).belief ≠ ranging :=
  argmax_ne (h.observe_lt (high_vol_dominates pv bas pcr hpv hbas))

/-- The score is not negative. -/
def Level (d : RegimeDetector ℚ) : Prop := 0 ≤ ∑ i, d.belief i * level i

theorem level_new : (new : RegimeDetector ℚ).Level := by
  unfold Level
  decide +kernel

/-- An observation without a jump of the price keeps the score. -/
theorem Untrained.level_observe (h : d.Untrained) (hd : d.Level) (pv : Fin PV_SIZE)
    (bas : Fin BAS_SIZE) {pcr : Fin PCR_SIZE} (hpcr : (pcr : ℕ) < 3) :
    (d.observe (balanced pv bas pcr)).Level := by
  rw [Level, h.belief_observe]
  exact score_filtered_nonneg h.stochastic (fun i => joint_probs_pos i _)
    h.sound.belief.mem_stdSimplex (le_max_left _ _) (keeps_level pv bas pcr hpcr) hd

/-- **Without a jump of the price the market is never TRENDING.** -/
theorem Level.argmax_ne_trending (hd : d.Level) (h : d.Untrained) :
    argmax d.belief ≠ trending := by
  intro heq
  have hle : ∀ i, d.belief i ≤ d.belief trending := fun i => heq ▸ le_argmax d.belief i
  have hbelief := h.sound.belief
  have hone := hbelief.sum
  rw [sum_states] at hone
  rw [Level, sum_states, show level ranging = 52 / 100 from rfl, show level trending = -1 from rfl,
    show level high_vol = 23 / 100 from rfl, show level thin_book = 24 / 100 from rfl] at hd
  linarith [hle ranging, hle high_vol, hle thin_book, hbelief.nonneg trending]

end RegimeDetector

end Meridian
