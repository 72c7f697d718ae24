import Meridian.Lib.HalfEven
import Meridian.Quant.InwardLevels

/-!
# The prices of a grid

Step 5 of `_tick` (`exchange_bot.py:207-238`): the spreads of both sides, each turned into a price
and rounded to the nearest tick. `docs/CONFIG.md:268-273` has the configuration validated so that
the sell bounds are positive; `SpreadConfig` (`schema.py:32-45`) only checks that the buy bounds are
negative. Which of the two buy bounds is the nearer one is left to the configuration: the comments of
`spread_engine.py` take it to be `buy_max_pct`, `docs/CONFIG.md:115-126` takes it to be `buy_min_pct`.

Results:
* `grid_crosses`: a configuration that validates and sells below the mid;
* `grid_uncrossed_iff`: the condition, on the mid and the nearest spread of each side in ticks, for
  every configuration; exact unless the sells have both a step and a bound that is not positive;
* `crossed_of_coarse_tick`: on a coarse tick every grid collapses.

Out of scope: rounding of doubles. Prices are real numbers, so nothing is lost but by `round`.
-/

namespace Meridian.PriceGrid

section Model

variable {K : Type*} [Field K] [LinearOrder K] [FloorRing K]

/-- `round(global_mid * (1.0 + s / 100.0) / tick) * tick`. -/
def tick_price (global_mid tick s : K) : K :=
  (round_half_even (global_mid * (1 + s / ((100 : ℚ) : K)) / tick) : K) * tick

variable [MathFunctions K] [ExpFunction K]

/-- The spreads, each side with its own settings or else the shared ones, for these level counts. -/
def spreads_of (spread : SpreadConfig) (buy_n sell_n : ℕ) (buy_agg sell_agg spread_mult : K) :
    List K × List K :=
  let buy_cs := (spread.buy_curve_strength.getD spread.curve_strength).1
  let sell_cs := (spread.sell_curve_strength.getD spread.curve_strength).1
  SpreadEngine.compute_levels_huy ⟨spread⟩ buy_agg sell_agg buy_n sell_n (buy_cs : K) (sell_cs : K)
    ((spread.buy_min_step.1 : ℚ) : K) ((spread.sell_min_step.1 : ℚ) : K) spread_mult

/-- The prices of both sides for these level counts. -/
def prices_of (spread : SpreadConfig) (buy_n sell_n : ℕ)
    (buy_agg sell_agg spread_mult global_mid : K) : List K × List K :=
  let tick : K := ((spread.tick_size.1 : ℚ) : K)
  let (buy_spreads, sell_spreads) := spreads_of spread buy_n sell_n buy_agg sell_agg spread_mult
  (buy_spreads.map (tick_price global_mid tick), sell_spreads.map (tick_price global_mid tick))

/-- The spreads for the configured counts, or else the shared one. -/
def spreads (spread : SpreadConfig) (depth : DepthConfig) (buy_agg sell_agg spread_mult : K) :
    List K × List K :=
  spreads_of spread (spread.buy_levels.getD depth.levels).1 (spread.sell_levels.getD depth.levels).1
    buy_agg sell_agg spread_mult

/-- The prices for the configured counts. -/
def prices (spread : SpreadConfig) (depth : DepthConfig) (buy_agg sell_agg spread_mult global_mid : K) :
    List K × List K :=
  prices_of spread (spread.buy_levels.getD depth.levels).1 (spread.sell_levels.getD depth.levels).1
    buy_agg sell_agg spread_mult global_mid

end Model

/-! ## The property -/

/-- A grid that crosses neither itself nor the mid: buys below all sells, and no side beyond the
mid. -/
structure Uncrossed (grid : List ℝ × List ℝ) (mid : ℝ) : Prop where
  buy_lt_sell : ∀ b ∈ grid.1, ∀ s ∈ grid.2, b < s
  buy_le_mid : ∀ b ∈ grid.1, b ≤ mid
  mid_le_sell : ∀ s ∈ grid.2, mid ≤ s

/-- The steps of the sells go outward: none is set, or both bounds are above the mid. -/
def SellsOutward (spread : SpreadConfig) : Prop :=
  spread.sell_min_step.1 = 0 ∨ 0 < spread.sell_min_pct ∧ 0 < spread.sell_max_pct

instance (spread : SpreadConfig) : Decidable (SellsOutward spread) := by
  unfold SellsOutward
  infer_instance

/-- The condition on the mid `x`, a buy `y` and a sell `z`, all in ticks: the buy is no more than half
a tick above the last tick up to the mid, the sell no more than half a tick below the first tick
from the mid on, and where the mid is a tick itself one of them is half a tick away from it. A tie
counts on the side that the even tick is on. -/
structure Fits (x y z : ℝ) : Prop where
  buy : y < ⌊x⌋ + 1 / 2 ∨ y = ⌊x⌋ + 1 / 2 ∧ Even ⌊x⌋
  sell : ⌈x⌉ - 1 / 2 < z ∨ z = ⌈x⌉ - 1 / 2 ∧ Even ⌈x⌉
  apart : x = ⌊x⌋ → (y < ⌊x⌋ - 1 / 2 ∨ y = ⌊x⌋ - 1 / 2 ∧ Odd ⌊x⌋) ∨
    (⌊x⌋ + 1 / 2 < z ∨ z = ⌊x⌋ + 1 / 2 ∧ Odd ⌊x⌋)

variable (spread : SpreadConfig) (spread_mult global_mid : ℝ)

/-- The tick size. -/
noncomputable def tick : ℝ := (spread.tick_size.1 : ℚ)

/-- A percentage of the mid above it, in ticks. -/
noncomputable def in_ticks (pct : ℝ) : ℝ := global_mid * (1 + pct / (100 : ℚ)) / tick spread

/-- The nearer of the two sell bounds. -/
noncomputable def nearest_sell : ℝ :=
  min ((spread.sell_min_pct : ℚ) * SpreadEngine.regime_mult spread_mult)
    ((spread.sell_max_pct : ℚ) * SpreadEngine.regime_mult spread_mult)

variable (depth : DepthConfig) (buy_agg sell_agg : ℝ)

/-- **The nearest buy spread**: the nearer bound, or the level before it on the curve, where a step
pushes the level at that bound out. -/
noncomputable def highest_buy : ℝ :=
  SpreadEngine.nearest_below ⟨spread⟩
    ((spread.buy_max_pct.1 : ℚ) * SpreadEngine.regime_mult spread_mult)
    ((spread.buy_min_pct.1 : ℚ) * SpreadEngine.regime_mult spread_mult) (clip buy_agg 0 1)
    (spread.buy_levels.getD depth.levels).1
    ((spread.buy_curve_strength.getD spread.curve_strength).1 : ℚ) (spread.buy_min_step.1 : ℚ)

/-- **The nearest sell spread**, likewise; where steps may go down, what all of them can take off the
nearer bound. -/
noncomputable def lowest_sell : ℝ :=
  if SellsOutward spread then
    SpreadEngine.nearest_above ⟨spread⟩
      ((spread.sell_min_pct : ℚ) * SpreadEngine.regime_mult spread_mult)
      ((spread.sell_max_pct : ℚ) * SpreadEngine.regime_mult spread_mult) (clip sell_agg 0 1)
      (spread.sell_levels.getD depth.levels).1
      ((spread.sell_curve_strength.getD spread.curve_strength).1 : ℚ) (spread.sell_min_step.1 : ℚ)
  else
    nearest_sell spread spread_mult -
      ((spread.sell_levels.getD depth.levels).1 - 1 : ℕ) * (spread.sell_min_step.1 : ℚ)

/-! ## In ticks -/

variable {spread : SpreadConfig} {spread_mult global_mid s : ℝ} {x y z : ℝ}

theorem tick_pos : 0 < tick spread := by
  unfold tick
  exact_mod_cast spread.tick_size.2

theorem tick_price_eq : tick_price global_mid (tick spread) s =
    (round_half_even (in_ticks spread global_mid s) : ℝ) * tick spread := rfl

theorem tick_price_mono (hmid : 0 < global_mid) {s s' : ℝ} (h : s ≤ s') :
    tick_price global_mid (tick spread) s ≤ tick_price global_mid (tick spread) s' := by
  have hticks : in_ticks spread global_mid s ≤ in_ticks spread global_mid s' := by
    unfold in_ticks
    have htick : 0 < tick spread := tick_pos
    gcongr
  rw [tick_price_eq, tick_price_eq]
  have hround : (round_half_even (in_ticks spread global_mid s) : ℝ) ≤
      round_half_even (in_ticks spread global_mid s') := by
    exact_mod_cast round_half_even_mono hticks
  exact mul_le_mul_of_nonneg_right hround tick_pos.le

/-- A price is positive from above half a tick on. -/
theorem tick_price_pos_iff :
    0 < tick_price global_mid (tick spread) s ↔ 1 / 2 < in_ticks spread global_mid s := by
  rw [tick_price_eq, mul_pos_iff_of_pos_right tick_pos, Int.cast_pos, lt_round_half_even_iff,
    Int.cast_zero, zero_add]
  exact or_iff_left fun h => absurd h.2 (by decide)

/-- The condition says how the two are rounded. -/
theorem fits_iff : Fits x y z ↔
    (round_half_even y : ℝ) < round_half_even z ∧ (round_half_even y : ℝ) ≤ x ∧
      x ≤ round_half_even z := by
  rw [← Int.le_floor, ← Int.ceil_le, Int.cast_lt]
  have hbuy : round_half_even y ≤ ⌊x⌋ ↔ _ := round_half_even_le_iff
  have hsell : ⌈x⌉ ≤ round_half_even z ↔ _ := le_round_half_even_iff
  have hfirst : round_half_even y < ⌊x⌋ ↔ _ := round_half_even_lt_iff
  have hsecond : ⌊x⌋ < round_half_even z ↔ _ := lt_round_half_even_iff
  constructor
  · rintro ⟨h1, h2, h3⟩
    rw [← hbuy] at h1
    rw [← hsell] at h2
    rw [← hfirst, ← hsecond] at h3
    refine ⟨?_, h1, h2⟩
    by_cases hx : x = ⌊x⌋
    · have hceil : ⌈x⌉ = ⌊x⌋ := by
        conv_lhs => rw [hx, Int.ceil_intCast]
      rcases h3 hx with h | h <;> omega
    · have hlt : ⌊x⌋ < ⌈x⌉ := by
        rw [Int.lt_ceil]
        exact lt_of_le_of_ne (Int.floor_le x) (Ne.symm hx)
      omega
  · rintro ⟨h1, h2, h3⟩
    refine ⟨hbuy.mp h2, hsell.mp h3, fun _ => ?_⟩
    rw [← hfirst, ← hsecond]
    omega

/-! ## The nearest prices -/

theorem isGreatest_map {f : ℝ → ℝ} (hf : Monotone f) {l : List ℝ} {a : ℝ}
    (h : IsGreatest {x | x ∈ l} a) : IsGreatest {x | x ∈ l.map f} (f a) := by
  refine ⟨List.mem_map_of_mem h.1, fun y hy => ?_⟩
  obtain ⟨x, hx, rfl⟩ := List.mem_map.mp hy
  exact hf (h.2 hx)

theorem isLeast_map {f : ℝ → ℝ} (hf : Monotone f) {l : List ℝ} {a : ℝ}
    (h : IsLeast {x | x ∈ l} a) : IsLeast {x | x ∈ l.map f} (f a) := by
  refine ⟨List.mem_map_of_mem h.1, fun y hy => ?_⟩
  obtain ⟨x, hx, rfl⟩ := List.mem_map.mp hy
  exact hf (h.2 hx)

/-- Prices up to `b` and from `s` on do not cross if these two do not. -/
theorem uncrossed_of_bounds {grid : List ℝ × List ℝ} {b s mid : ℝ}
    (hb : b ∈ upperBounds {x | x ∈ grid.1}) (hs : s ∈ lowerBounds {x | x ∈ grid.2})
    (h : b < s ∧ b ≤ mid ∧ mid ≤ s) : Uncrossed grid mid where
  buy_lt_sell _ hx _ hy := ((hb hx).trans_lt h.1).trans_le (hs hy)
  buy_le_mid _ hx := (hb hx).trans h.2.1
  mid_le_sell _ hy := h.2.2.trans (hs hy)

/-- Only the nearest prices matter. -/
theorem Uncrossed.nearest {grid : List ℝ × List ℝ} {b s mid : ℝ} (h : Uncrossed grid mid)
    (hb : b ∈ grid.1) (hs : s ∈ grid.2) : b < s ∧ b ≤ mid ∧ mid ≤ s :=
  ⟨h.buy_lt_sell b hb s hs, h.buy_le_mid b hb, h.mid_le_sell s hs⟩

theorem isGreatest_buy_spreads :
    IsGreatest {s | s ∈ (spreads spread depth buy_agg sell_agg spread_mult).1}
      (highest_buy spread spread_mult depth buy_agg) := by
  have hmult := SpreadEngine.regime_mult_pos spread_mult
  have hmax : ((spread.buy_max_pct.1 : ℚ) : ℝ) < 0 := by exact_mod_cast spread.buy_max_pct.2
  have hmin : ((spread.buy_min_pct.1 : ℚ) : ℝ) < 0 := by exact_mod_cast spread.buy_min_pct.2
  exact SpreadEngine.isGreatest_below
    (le_trans (by decide) (spread.buy_levels.getD depth.levels).2.1)
    (mul_neg_of_neg_of_pos hmax hmult) (mul_neg_of_neg_of_pos hmin hmult)

theorem isLeast_sell_spreads (h : SellsOutward spread) :
    IsLeast {s | s ∈ (spreads spread depth buy_agg sell_agg spread_mult).2}
      (lowest_sell spread spread_mult depth sell_agg) := by
  have hmult := SpreadEngine.regime_mult_pos spread_mult
  rw [lowest_sell, if_pos h]
  refine SpreadEngine.isLeast_above
    (le_trans (by decide) (spread.sell_levels.getD depth.levels).2.1) ?_
  refine h.imp (fun h => ?_) fun ⟨hmin, hmax⟩ => ⟨?_, ?_⟩
  · rw [h, Rat.cast_zero]
  · exact mul_pos (by exact_mod_cast hmin) hmult
  · exact mul_pos (by exact_mod_cast hmax) hmult

/-- No sell is nearer than the nearer bound where that one is above the mid. -/
theorem nearest_sell_le (h : 0 < nearest_sell spread spread_mult) :
    nearest_sell spread spread_mult ∈
      lowerBounds {s | s ∈ (spreads spread depth buy_agg sell_agg spread_mult).2} :=
  fun s hs => SpreadEngine.le_side h s hs

/-- However the sells are configured. -/
theorem lowest_sell_le :
    lowest_sell spread spread_mult depth sell_agg ∈
      lowerBounds {s | s ∈ (spreads spread depth buy_agg sell_agg spread_mult).2} := by
  by_cases h : SellsOutward spread
  · exact (isLeast_sell_spreads depth buy_agg sell_agg h).2
  · have hstep : (0 : ℝ) ≤ (spread.sell_min_step.1 : ℚ) := by exact_mod_cast spread.sell_min_step.2
    rw [lowest_sell, if_neg h]
    exact fun s hs => SpreadEngine.sub_le_side hstep s hs

/-- **When the grid does not cross**: when the nearest spreads fit the ticks around the mid. Unless the
sells have a step and a bound that is not above the mid, exactly then. -/
theorem grid_uncrossed_iff (spread : SpreadConfig) (depth : DepthConfig)
    (buy_agg sell_agg spread_mult global_mid : ℝ) (hmid : 0 < global_mid) :
    let grid := prices spread depth buy_agg sell_agg spread_mult global_mid
    let fits := Fits (global_mid / tick spread)
      (in_ticks spread global_mid (highest_buy spread spread_mult depth buy_agg))
      (in_ticks spread global_mid (lowest_sell spread spread_mult depth sell_agg))
    (fits → Uncrossed grid global_mid) ∧
      (SellsOutward spread → (Uncrossed grid global_mid ↔ fits)) := by
  intro grid fits
  have hmono : Monotone (tick_price global_mid (tick spread)) := fun _ _ => tick_price_mono hmid
  have hbuy : IsGreatest {x | x ∈ grid.1}
      (tick_price global_mid (tick spread) (highest_buy spread spread_mult depth buy_agg)) :=
    isGreatest_map hmono (isGreatest_buy_spreads depth buy_agg sell_agg)
  have hsell : tick_price global_mid (tick spread) (lowest_sell spread spread_mult depth sell_agg) ∈
      lowerBounds {x | x ∈ grid.2} := by
    intro x hx
    obtain ⟨s, hs, rfl⟩ := List.mem_map.mp hx
    exact hmono (lowest_sell_le depth buy_agg sell_agg hs)
  have hfits : fits ↔ _ := fits_iff
  have htick : 0 < tick spread := tick_pos
  rw [← mul_lt_mul_iff_left₀ htick, le_div_iff₀ htick, div_le_iff₀ htick, ← tick_price_eq,
    ← tick_price_eq] at hfits
  have henough : fits → Uncrossed grid global_mid := fun h =>
    uncrossed_of_bounds hbuy.2 hsell (hfits.mp h)
  refine ⟨henough, fun houtward => ⟨fun h => hfits.mpr ?_, henough⟩⟩
  have hleast : IsLeast {x | x ∈ grid.2} _ :=
    isLeast_map hmono (isLeast_sell_spreads depth buy_agg sell_agg houtward)
  exact h.nearest hbuy.1 hleast.1

theorem hundredth_nonneg : (0 : ℚ) ≤ 1 / 100 := by norm_num

theorem three_levels : 3 ≤ 3 ∧ 3 ≤ 30 := by decide

/-- The default bounds with those of the buys as `docs/CONFIG.md` has them, and a step. -/
def documented : SpreadConfig :=
  { (default : SpreadConfig) with
    buy_min_pct := (default : SpreadConfig).buy_max_pct
    buy_max_pct := (default : SpreadConfig).buy_min_pct
    buy_levels := some ⟨3, three_levels⟩
    buy_min_step := ⟨1 / 100, hundredth_nonneg⟩ }

/-- Its buys at even distances. -/
theorem documented_levels : SpreadEngine.compute_side_levels ⟨documented⟩ (-5 : ℝ) (-(1 / 10)) (1 / 2) 3
    (some ((4 : ℚ) : ℝ)) = [-5, -(51 / 20), -(1 / 10)] := by
  have hgamma : ExpFunction.exp (((4 : ℚ) : ℝ) * (((2 : ℚ) : ℝ) * (1 / 2) - 1)) = 1 := by
    show Real.exp _ = 1
    norm_num
  have hpow (t : ℝ) : MathFunctions.pow t (1 : ℝ) = t := Real.rpow_one t
  simp only [SpreadEngine.compute_side_levels, Option.getD_some, hgamma, hpow, linspace,
    List.range_succ, List.range_zero, List.nil_append, List.cons_append, List.map_cons, List.map_nil]
  norm_num

theorem documented_highest_buy : highest_buy documented 1 default (1 / 2) = -(1 / 10) := by
  have hmult : SpreadEngine.regime_mult (1 : ℝ) = 1 := max_eq_right (by norm_num)
  have hclip : clip (1 / 2 : ℝ) 0 1 = 1 / 2 := clip_eq (by norm_num) (by norm_num)
  have htight : ((documented.buy_max_pct.1 : ℚ) : ℝ) = -5 := by
    show ((-5 : ℚ) : ℝ) = _
    norm_num
  have hwide : ((documented.buy_min_pct.1 : ℚ) : ℝ) = -(1 / 10) := by
    show ((-1 / 10 : ℚ) : ℝ) = _
    norm_num
  have hstep : ((documented.buy_min_step.1 : ℚ) : ℝ) = 1 / 100 := by
    show ((1 / 100 : ℚ) : ℝ) = _
    norm_num
  have hlevels : SpreadEngine.compute_side_levels ⟨documented⟩ (-5 : ℝ) (-(1 / 10)) (1 / 2)
      (documented.buy_levels.getD (default : DepthConfig).levels).1
      (some (((documented.buy_curve_strength.getD documented.curve_strength).1 : ℚ) : ℝ)) = _ :=
    documented_levels
  rw [highest_buy, hmult, hclip, htight, hwide, hstep, mul_one, mul_one, SpreadEngine.nearest_below,
    if_pos (by norm_num), SpreadEngine.nearest_level, hlevels]
  norm_num [SpreadEngine.distances, SpreadEngine.nearest, SpreadEngine.short_gaps]

/-- At a mid of 2500 ticks the grid does not cross. -/
theorem grid_uncrossed_documented :
    Uncrossed (prices documented default (1 / 2) 1 1 (1 / 4)) (1 / 4) := by
  have htick : tick documented = 1 / 10000 := by
    show (((1 / 10000 : ℚ)) : ℝ) = _
    norm_num
  have hsell : lowest_sell documented 1 default 1 = 3 / 10 := by
    have hmult : SpreadEngine.regime_mult (1 : ℝ) = 1 := max_eq_right (by norm_num)
    have hstep : ¬(0 < ((documented.sell_min_step.1 : ℚ) : ℝ) ∧
        ((documented.sell_max_pct : ℚ) : ℝ) * 1 < (documented.sell_min_pct : ℚ) * 1) := by
      rintro ⟨-, hlt⟩
      replace hlt : ((7 : ℚ) : ℝ) * 1 < ((3 / 10 : ℚ) : ℝ) * 1 := hlt
      norm_num at hlt
    rw [lowest_sell, if_pos (.inl rfl), hmult, SpreadEngine.nearest_above, if_neg hstep]
    show min (((3 / 10 : ℚ) : ℝ) * 1) (((7 : ℚ) : ℝ) * 1) = _
    rw [min_eq_left] <;> norm_num
  have hmid : (1 / 4 : ℝ) / tick documented = (2500 : ℤ) := by
    rw [htick]
    norm_num
  refine (grid_uncrossed_iff documented default (1 / 2) 1 1 (1 / 4) (by norm_num)).1 ?_
  rw [documented_highest_buy, hsell, hmid, in_ticks, in_ticks, htick]
  refine ⟨.inl ?_, .inl ?_, fun _ => .inl (.inl ?_)⟩ <;> norm_num

/-! ## Grids that cross -/

variable {depth : DepthConfig} {buy_agg sell_agg : ℝ}

theorem tightest_buy_mem : tick_price global_mid (tick spread)
    ((spread.buy_max_pct.1 : ℚ) * SpreadEngine.regime_mult spread_mult) ∈
      (prices spread depth buy_agg sell_agg spread_mult global_mid).1 :=
  List.mem_map_of_mem (SpreadEngine.tightest_mem_side
    (lt_of_lt_of_le (by decide) (spread.buy_levels.getD depth.levels).2.1))

theorem tightest_sell_mem : tick_price global_mid (tick spread)
    ((spread.sell_min_pct : ℚ) * SpreadEngine.regime_mult spread_mult) ∈
      (prices spread depth buy_agg sell_agg spread_mult global_mid).2 :=
  List.mem_map_of_mem (SpreadEngine.tightest_mem_side
    (lt_of_lt_of_le (by decide) (spread.sell_levels.getD depth.levels).2.1))

/-- **The sells are below the mid**, with a sell bound that nothing rejects. -/
theorem grid_crosses :
    ¬∀ (spread : SpreadConfig) (depth : DepthConfig) (buy_agg sell_agg spread_mult global_mid : ℝ),
      0 < global_mid →
        Uncrossed (prices spread depth buy_agg sell_agg spread_mult global_mid) global_mid := by
  intro h
  have hsell := (h { sell_min_pct := -1 } {} 1 1 1 1 one_pos).mid_le_sell _ tightest_sell_mem
  have hmult : SpreadEngine.regime_mult (1 : ℝ) = 1 := max_eq_right (by norm_num)
  have hticks : (1 : ℝ) * (1 + (-1 : ℚ) * 1 / (100 : ℚ)) / (1 / 10000 : ℚ) = (9900 : ℤ) := by
    norm_num
  rw [hmult] at hsell
  simp only [tick_price, tick] at hsell
  rw [hticks, round_half_even_intCast] at hsell
  norm_num at hsell

/-- **Every grid collapses** on a tick so coarse that level 0 of both sides is rounded to nothing. -/
theorem crossed_of_coarse_tick
    (hbuy : |in_ticks spread global_mid
      ((spread.buy_max_pct.1 : ℚ) * SpreadEngine.regime_mult spread_mult)| < 1 / 2)
    (hsell : |in_ticks spread global_mid
      ((spread.sell_min_pct : ℚ) * SpreadEngine.regime_mult spread_mult)| < 1 / 2) :
    ¬Uncrossed (prices spread depth buy_agg sell_agg spread_mult global_mid) global_mid := by
  intro h
  have hlt := h.buy_lt_sell _ tightest_buy_mem _ tightest_sell_mem
  rw [tick_price_eq, tick_price_eq, round_half_even_eq_zero hbuy, round_half_even_eq_zero hsell]
    at hlt
  exact lt_irrefl _ hlt

end Meridian.PriceGrid
