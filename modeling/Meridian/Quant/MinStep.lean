import Mathlib.Data.List.Chain
import Meridian.Quant.SpreadEngine

/-!
# The minimal step

What `enforce_min_step` (`spread_engine.py:178-197`) does to levels that go outward. A level is pushed
where it is less than a step away from the one before it, as that one was pushed: a level that this
one has overtaken by a step or more stays where it is, on the inside.

Results:
* `spaced_iff`: the levels are spaced exactly when they have room for the steps before;
* `min_step_spaces_iff`: the same for both sides of `compute_levels_huy`, whose room is that of a power
  curve.

Out of scope: the rounding of doubles (levels and steps are exact reals).
-/

namespace Meridian.SpreadEngine

section Levels

variable {K : Type*} [Field K] [LinearOrder K]

/-- Levels that go outward on one side of the mid. -/
def Outward (levels : List K) : Prop :=
  ((∀ l ∈ levels, 0 < l) ∧ levels.Pairwise (· ≤ ·)) ∨
    ((∀ l ∈ levels, l < 0) ∧ levels.Pairwise (· ≥ ·))

/-- How far out the levels are. -/
def distances (levels : List K) : List K := levels.map (|·|)

/-- Each distance is more than the one before, by `gap` at least. -/
def Spaced (gap : K) (dists : List K) : Prop := dists.IsChain fun a b => a + gap ≤ b

/-- Of any two distances, the one that comes `k` levels later is larger by more than `k - 2` steps. -/
def Room (step : K) (dists : List K) : Prop :=
  ∀ (j i : ℕ) (a b : K), j < i → dists[j]? = some a → dists[i]? = some b →
    ((i : K) - j - ((2 : ℚ) : K)) * step < b - a

/-- All levels are on one side. -/
def OneSide (levels : List K) : Prop := (∀ l ∈ levels, 0 < l) ∨ ∀ l ∈ levels, l < 0

/-- A level after the one before it, as that one was pushed. -/
def pushed (step prev level : K) : K :=
  if |level - prev| < step then (if prev > 0 then prev + step else prev - step) else level

variable {step gap prev level a : K} {levels dists : List K}

theorem step_outward_cons : step_outward step prev (level :: levels) =
    pushed step prev level :: step_outward step (pushed step prev level) levels := rfl

theorem enforce_min_step_nil : enforce_min_step [] step = ([] : List K) :=
  if_pos (.inr Nat.zero_lt_two)

theorem enforce_min_step_cons (hstep : 0 < step) :
    enforce_min_step (level :: levels) step = level :: step_outward step level levels := by
  unfold enforce_min_step
  split
  · rename_i h
    obtain rfl : levels = [] := by
      have hlength := h.resolve_left (not_le.mpr hstep)
      rw [List.length_cons] at hlength
      exact List.eq_nil_of_length_eq_zero (by omega)
    rfl
  · rfl

/-! ## From levels to distances -/

variable [IsStrictOrderedRing K]

theorem OneSide.pushed (hstep : 0 < step) (h : OneSide (prev :: level :: levels)) :
    OneSide (pushed step prev level :: levels) := by
  simp only [OneSide, List.forall_mem_cons] at h ⊢
  unfold SpreadEngine.pushed
  refine h.imp (fun ⟨hprev, hlevel, hrest⟩ => ⟨?_, hrest⟩) fun ⟨hprev, hlevel, hrest⟩ => ⟨?_, hrest⟩
  · rw [if_pos hprev]
    split
    · exact add_pos hprev hstep
    · exact hlevel
  · rw [if_neg (not_lt.mpr hprev.le)]
    split
    · linarith
    · exact hlevel

theorem OneSide.step_outward (hstep : 0 < step) (h : OneSide (prev :: levels)) :
    OneSide (prev :: step_outward step prev levels) := by
  simp only [OneSide, List.forall_mem_cons] at h ⊢
  refine h.imp (fun ⟨hprev, hrest⟩ => ⟨hprev, step_outward_keeps (fun prev hprev => ?_) hprev hrest⟩)
    fun ⟨hprev, hrest⟩ => ⟨hprev, step_outward_keeps (p := (· < 0)) (fun prev hprev => ?_) hprev hrest⟩
  · rw [if_pos hprev]
    exact add_pos hprev hstep
  · rw [if_neg (not_lt.mpr hprev.le)]
    linarith

/-- A push sees both sides alike. -/
theorem abs_pushed (hstep : 0 < step) (h : OneSide (prev :: level :: levels)) :
    |pushed step prev level| = pushed step |prev| |level| := by
  simp only [OneSide, List.forall_mem_cons] at h
  unfold pushed
  rcases h with ⟨hprev, hlevel, -⟩ | ⟨hprev, hlevel, -⟩
  · rw [if_pos hprev, abs_of_pos hprev, if_pos hprev, abs_of_pos hlevel, apply_ite abs,
      abs_of_pos hlevel, abs_of_pos (add_pos hprev hstep)]
  · have hdist : |-level - -prev| = |level - prev| := by
      rw [neg_sub_neg, abs_sub_comm]
    have hpush : |prev - step| = -prev + step := by
      rw [abs_of_neg (by linarith), neg_sub, sub_eq_neg_add]
    rw [if_neg (not_lt.mpr hprev.le), abs_of_neg hprev, if_pos (neg_pos.mpr hprev),
      abs_of_neg hlevel, hdist, apply_ite abs, abs_of_neg hlevel, hpush]

theorem distances_step_outward (hstep : 0 < step) (h : OneSide (prev :: levels)) :
    distances (step_outward step prev levels) = step_outward step |prev| (distances levels) := by
  induction levels generalizing prev with
  | nil => rfl
  | cons level levels ih =>
    have hrest := ih (h.pushed hstep)
    rw [abs_pushed hstep h] at hrest
    simp only [distances, List.map_cons, step_outward_cons] at hrest ⊢
    rw [hrest, abs_pushed hstep h]

/-! ## When the distances are spaced -/

theorem room_cons : Room step (a :: dists) ↔
    (∀ (i : ℕ) (b : K), dists[i]? = some b → ((i : K) - 1) * step < b - a) ∧ Room step dists := by
  constructor
  · refine fun h => ⟨fun i b hb => ?_, fun j i a b hji ha hb => ?_⟩
    · have hlt := h 0 (i + 1) a b (Nat.succ_pos i) rfl hb
      push_cast at hlt
      linarith
    · have hlt := h (j + 1) (i + 1) a b (Nat.succ_lt_succ hji) ha hb
      push_cast at hlt ⊢
      linarith
  · rintro ⟨hfirst, hrest⟩ j i c b hji hc hb
    obtain ⟨i, rfl⟩ := Nat.exists_eq_succ_of_ne_zero (Nat.ne_of_gt (Nat.zero_lt_of_lt hji))
    cases j with
    | zero =>
      obtain rfl := Option.some.inj hc
      have hlt := hfirst i b hb
      push_cast
      linarith
    | succ j =>
      have hlt := hrest j i c b (Nat.lt_of_succ_lt_succ hji) hc hb
      push_cast at hlt ⊢
      linarith

/-- A level that has been overtaken by a step stays where it is. -/
theorem pushed_eq_self (hover : level ≤ prev - step) : pushed step prev level = level := by
  refine if_neg (not_lt.mpr ?_)
  rw [abs_sub_comm]
  exact (by linarith : step ≤ prev - level).trans (le_abs_self _)

theorem pushed_eq_max (hprev : 0 < prev) (hunder : prev - step < level) :
    pushed step prev level = max level (prev + step) := by
  unfold pushed
  rw [if_pos hprev]
  by_cases hnear : level - prev < step
  · rw [if_pos (abs_sub_lt_iff.mpr ⟨hnear, by linarith⟩), max_eq_right (by linarith)]
  · rw [if_neg fun h => hnear (abs_sub_lt_iff.mp h).1, max_eq_left (by linarith)]

/-- What comes after a pushed level has room if it has room after both that level and the one
before. -/
theorem room_pushed (hprev : 0 < prev) (hunder : prev - step < level) :
    Room step (pushed step prev level :: dists) ↔ Room step (prev :: level :: dists) := by
  rw [room_cons, room_cons, room_cons, ← and_assoc]
  refine and_congr_left fun _ => ?_
  rw [pushed_eq_max hprev hunder]
  constructor
  · intro h
    refine ⟨fun i b hb => ?_, fun i b hb => ?_⟩
    · cases i with
      | zero =>
        obtain rfl := Option.some.inj hb
        push_cast
        linarith
      | succ i =>
        have hlt := h i b hb
        have hmax := le_max_right level (prev + step)
        push_cast
        linarith
    · exact (h i b hb).trans_le (sub_le_sub_left (le_max_left _ _) b)
  · rintro ⟨hbefore, hlevel⟩ i b hb
    have h1 := hbefore (i + 1) b hb
    have h2 := hlevel i b hb
    push_cast at h1
    rcases max_cases level (prev + step) with ⟨hmax, -⟩ | ⟨hmax, -⟩
    · rw [hmax]
      exact h2
    · rw [hmax]
      linarith

/-- **The levels are spaced** exactly when they have room, whatever the gap that is asked for, from
more than a step back to a step. -/
theorem spaced_iff (hstep : 0 < step) (hback : -step < gap) (hgap : gap ≤ step) (hprev : 0 < prev)
    (h : ∀ d ∈ dists, 0 < d) :
    Spaced gap (prev :: step_outward step prev dists) ↔ Room step (prev :: dists) := by
  induction dists generalizing prev with
  | nil =>
    refine iff_of_true (List.isChain_singleton prev) (room_cons.mpr ⟨fun i b hb => ?_, ?_⟩)
    · cases hb
    · exact fun j i a b _ ha => by cases ha
  | cons d dists ih =>
    rw [step_outward_cons, Spaced, List.isChain_cons_cons]
    rcases le_or_gt d (prev - step) with hover | hunder
    · refine iff_of_false (fun hspaced => ?_) fun hroom => ?_
      · have hle := hspaced.1
        rw [pushed_eq_self hover] at hle
        linarith
      · have hlt := (room_cons.mp hroom).1 0 d rfl
        push_cast at hlt
        linarith
    · have hmax := pushed_eq_max hprev hunder
      have hfar : prev + step ≤ pushed step prev d := hmax ▸ le_max_right _ _
      have hrest : Spaced gap (pushed step prev d :: step_outward step (pushed step prev d) dists) ↔
          Room step (pushed step prev d :: dists) :=
        ih (by linarith) fun d hd => h d (List.mem_cons_of_mem _ hd)
      rw [← room_pushed hprev hunder, ← hrest]
      exact and_iff_right (by linarith)

/-! ## The levels of a side -/

omit [IsStrictOrderedRing K] in
theorem spaced_zero_iff : Spaced 0 dists ↔ dists.Pairwise (· ≤ ·) := by
  rw [← List.isChain_iff_pairwise]
  exact List.IsChain.iff fun a b => by rw [add_zero]

/-- Outward is: on one side, and no less far out than the level before. -/
theorem outward_iff : Outward levels ↔ OneSide levels ∧ Spaced 0 (distances levels) := by
  rw [spaced_zero_iff, distances, List.pairwise_map, OneSide, or_and_right]
  refine or_congr (and_congr_right fun h => ?_) (and_congr_right fun h => ?_)
  · refine List.Pairwise.iff_of_mem fun ha hb => ?_
    rw [abs_of_pos (h _ ha), abs_of_pos (h _ hb)]
  · refine List.Pairwise.iff_of_mem fun ha hb => ?_
    rw [abs_of_neg (h _ ha), abs_of_neg (h _ hb), neg_le_neg_iff]

theorem distances_pos (h : OneSide levels) : ∀ d ∈ distances levels, 0 < d := by
  intro d hd
  obtain ⟨l, hl, rfl⟩ := List.mem_map.mp hd
  exact abs_pos.mpr (h.elim (fun h => (h l hl).ne') fun h => (h l hl).ne)

/-- No level is nearer to the mid than it was. -/
theorem le_step_outward (hprev : 0 < prev) (h : ∀ d ∈ dists, 0 < d) :
    List.Forall₂ (· ≤ ·) dists (step_outward step prev dists) := by
  induction dists generalizing prev with
  | nil => exact .nil
  | cons d dists ih =>
    have hle : d ≤ pushed step prev d := by
      rcases le_or_gt d (prev - step) with hover | hunder
      · rw [pushed_eq_self hover]
      · exact (le_max_left _ _).trans_eq (pushed_eq_max hprev hunder).symm
    have hd : 0 < d := h d List.mem_cons_self
    exact .cons hle (ih (hd.trans_le hle) fun d hd => h d (List.mem_cons_of_mem _ hd))

theorem enforce_min_step_spaced_iff (hstep : 0 < step) (hback : -step < gap) (hgap : gap ≤ step)
    (h : OneSide levels) :
    Spaced gap (distances (enforce_min_step levels step)) ↔ Room step (distances levels) := by
  cases levels with
  | nil =>
    rw [enforce_min_step_nil]
    exact iff_of_true List.isChain_nil fun j i a b _ ha => by cases ha
  | cons level levels =>
    have hpos := distances_pos h
    rw [distances, List.map_cons, List.forall_mem_cons] at hpos
    rw [enforce_min_step_cons hstep, distances, List.map_cons]
    change Spaced gap (|level| :: distances (SpreadEngine.step_outward step level levels)) ↔ _
    rw [distances_step_outward hstep h]
    exact spaced_iff hstep hback hgap hpos.1 hpos.2

theorem OneSide.enforce_min_step (hstep : 0 < step) (h : OneSide levels) :
    OneSide (enforce_min_step levels step) := by
  cases levels with
  | nil => rwa [enforce_min_step_nil]
  | cons level levels =>
    rw [enforce_min_step_cons hstep]
    exact h.step_outward hstep

theorem enforce_min_step_farther (hstep : 0 < step) (h : OneSide levels) :
    List.Forall₂ (|·| ≤ |·|) levels (SpreadEngine.enforce_min_step levels step) := by
  cases levels with
  | nil =>
    rw [enforce_min_step_nil]
    exact .nil
  | cons level levels =>
    have hpos := distances_pos h
    rw [distances, List.map_cons, List.forall_mem_cons] at hpos
    have hfarther : List.Forall₂ (· ≤ ·) (distances levels)
        (step_outward step |level| (distances levels)) := le_step_outward hpos.1 hpos.2
    rw [← distances_step_outward hstep h, distances, distances, List.forall₂_map_left_iff,
      List.forall₂_map_right_iff] at hfarther
    rw [enforce_min_step_cons hstep]
    exact .cons le_rfl hfarther

/-- The levels go outward exactly when they have room. -/
theorem enforce_min_step_outward_iff (hstep : 0 < step) (h : OneSide levels) :
    Outward (enforce_min_step levels step) ↔ Room step (distances levels) := by
  rw [outward_iff, and_iff_right (h.enforce_min_step hstep)]
  exact enforce_min_step_spaced_iff hstep (neg_lt_zero.mpr hstep) hstep.le h

end Levels

/-! ## The levels of a curve -/

/-- The exponent of a side's curve. -/
noncomputable def gamma (cs agg : ℝ) : ℝ := ExpFunction.exp (cs * (((2 : ℚ) : ℝ) * agg - 1))

/-- The room for steps of a curve of `n` levels: between any two, the curve rises by more than the
steps between them less two. -/
def CurveRoom (step width gamma : ℝ) (n : ℕ) : Prop :=
  ∀ j i : ℕ, j < i → i < n →
    ((i : ℝ) - j - ((2 : ℚ) : ℝ)) * step <
      width * (((i : ℝ) / ((n : ℝ) - 1)) ^ gamma - ((j : ℝ) / ((n : ℝ) - 1)) ^ gamma)

/-- The bounds of a side, from the inside out. -/
structure Bounds (tightest widest : ℝ) : Prop where
  side : 0 < tightest ∧ tightest ≤ widest ∨ tightest < 0 ∧ widest ≤ tightest

variable {e : SpreadEngine} {tightest widest agg step cs : ℝ} {n : ℕ}

theorem getElem?_side_levels (i : ℕ) (b : ℝ) :
    (e.compute_side_levels tightest widest agg n (some cs))[i]? = some b ↔
      i < n ∧ tightest + (widest - tightest) * ((i : ℝ) / ((n : ℝ) - 1)) ^ gamma cs agg = b := by
  rw [compute_side_levels, linspace, List.map_map, List.getElem?_map, Option.map_eq_some_iff]
  constructor
  · rintro ⟨k, hk, rfl⟩
    obtain ⟨hi, rfl⟩ := List.getElem?_eq_some_iff.mp hk
    rw [List.length_range] at hi
    rw [List.getElem_range]
    exact ⟨hi, rfl⟩
  · rintro ⟨hi, rfl⟩
    exact ⟨i, List.getElem?_range hi, rfl⟩

theorem mem_linspace_of_lt {i : ℕ} (hi : i < n) : (i : ℝ) / ((n : ℝ) - 1) ∈ linspace n :=
  List.mem_map_of_mem (List.mem_range.mpr hi)

/-- How far along the curve a level is. -/
theorem curve_range {i : ℕ} (hi : i < n) (cs agg : ℝ) :
    0 ≤ ((i : ℝ) / ((n : ℝ) - 1)) ^ gamma cs agg ∧ ((i : ℝ) / ((n : ℝ) - 1)) ^ gamma cs agg ≤ 1 := by
  obtain ⟨h0, h1⟩ := mem_linspace (mem_linspace_of_lt hi)
  exact ⟨Real.rpow_nonneg h0 _, Real.rpow_le_one h0 h1 (Real.exp_pos _).le⟩

theorem curve_mono {j i : ℕ} (hji : j ≤ i) (hi : i < n) (cs agg : ℝ) :
    ((j : ℝ) / ((n : ℝ) - 1)) ^ gamma cs agg ≤ ((i : ℝ) / ((n : ℝ) - 1)) ^ gamma cs agg := by
  obtain ⟨h0, -⟩ := mem_linspace (mem_linspace_of_lt (hji.trans_lt hi))
  have hn : (1 : ℝ) ≤ n := by exact_mod_cast (Nat.zero_le i).trans_lt hi
  refine Real.rpow_le_rpow h0 ?_ (Real.exp_pos _).le
  exact div_le_div_of_nonneg_right (Nat.cast_le.mpr hji) (by linarith)

/-- A level of a side, and how far out it is. -/
theorem Bounds.level (h : Bounds tightest widest) {p : ℝ} (h0 : 0 ≤ p) :
    (0 < tightest ∧ 0 < tightest + (widest - tightest) * p ∨
      tightest < 0 ∧ tightest + (widest - tightest) * p < 0) ∧
    |tightest + (widest - tightest) * p| = |tightest| + |widest - tightest| * p := by
  rcases h.side with ⟨ht, hle⟩ | ⟨ht, hle⟩
  · have hpos : 0 ≤ (widest - tightest) * p := mul_nonneg (by linarith) h0
    refine ⟨.inl ⟨ht, by linarith⟩, ?_⟩
    rw [abs_of_pos (by linarith), abs_of_pos ht, abs_of_nonneg (by linarith : 0 ≤ widest - tightest)]
  · have hneg : (widest - tightest) * p ≤ 0 := mul_nonpos_of_nonpos_of_nonneg (by linarith) h0
    refine ⟨.inr ⟨ht, by linarith⟩, ?_⟩
    rw [abs_of_neg (by linarith), abs_of_neg ht,
      abs_of_nonpos (by linarith : widest - tightest ≤ 0)]
    ring

theorem getElem?_distances (h : Bounds tightest widest) (i : ℕ) (b : ℝ) :
    (distances (e.compute_side_levels tightest widest agg n (some cs)))[i]? = some b ↔
      i < n ∧ |tightest| + |widest - tightest| * ((i : ℝ) / ((n : ℝ) - 1)) ^ gamma cs agg = b := by
  rw [distances, List.getElem?_map, Option.map_eq_some_iff]
  constructor
  · rintro ⟨l, hl, rfl⟩
    obtain ⟨hi, rfl⟩ := (getElem?_side_levels i l).mp hl
    obtain ⟨h0, -⟩ := curve_range hi cs agg
    exact ⟨hi, (h.level h0).2.symm⟩
  · rintro ⟨hi, rfl⟩
    obtain ⟨h0, -⟩ := curve_range hi cs agg
    exact ⟨_, (getElem?_side_levels i _).mpr ⟨hi, rfl⟩, (h.level h0).2⟩

/-- The curve goes outward. -/
theorem side_levels_outward (h : Bounds tightest widest) :
    Outward (e.compute_side_levels tightest widest agg n (some cs)) := by
  rw [outward_iff, spaced_zero_iff, List.pairwise_iff_getElem]
  constructor
  · refine h.side.imp (fun ⟨ht, _⟩ l hl => ?_) fun ⟨ht, _⟩ l hl => ?_
    all_goals
      obtain ⟨i, hi⟩ := List.mem_iff_getElem?.mp hl
      obtain ⟨hin, rfl⟩ := (getElem?_side_levels i l).mp hi
      obtain ⟨h0, -⟩ := curve_range hin cs agg
    · exact ((h.level h0).1.resolve_right fun hneg => absurd hneg.1 (not_lt.mpr ht.le)).2
    · exact ((h.level h0).1.resolve_left fun hpos => absurd hpos.1 (not_lt.mpr ht.le)).2
  · intro j i hj hi hji
    obtain ⟨hjn, hjd⟩ := (getElem?_distances h j _).mp (List.getElem?_eq_getElem hj)
    obtain ⟨hin, hid⟩ := (getElem?_distances h i _).mp (List.getElem?_eq_getElem hi)
    rw [← hjd, ← hid]
    have hmono := curve_mono hji.le hin cs agg
    gcongr

/-- The room of a curve is that of its levels. -/
theorem room_side_levels (h : Bounds tightest widest) :
    Room step (distances (e.compute_side_levels tightest widest agg n (some cs))) ↔
      CurveRoom step |widest - tightest| (gamma cs agg) n := by
  constructor
  · intro hroom j i hji hi
    have hlt := hroom j i _ _ hji ((getElem?_distances h j _).mpr ⟨hji.trans hi, rfl⟩)
      ((getElem?_distances h i _).mpr ⟨hi, rfl⟩)
    linarith
  · intro hroom j i a b hji ha hb
    obtain ⟨-, rfl⟩ := (getElem?_distances h j a).mp ha
    obtain ⟨hi, rfl⟩ := (getElem?_distances h i b).mp hb
    have hlt := hroom j i hji hi
    linarith

/-- **When a side goes outward**: no step is set, or its curve has room for it. -/
theorem side_outward_iff (h : Bounds tightest widest) :
    Outward (e.side tightest widest agg n (some cs) step) ↔
      step ≤ 0 ∨ CurveRoom step |widest - tightest| (gamma cs agg) n := by
  have hraw : Outward (e.compute_side_levels tightest widest agg n (some cs)) :=
    side_levels_outward h
  unfold side
  rcases le_or_gt step 0 with hzero | hstep
  · rw [if_neg (not_lt.mpr hzero)]
    exact iff_of_true hraw (.inl hzero)
  · rw [if_pos hstep, or_iff_right (not_le.mpr hstep), ← room_side_levels h]
    exact enforce_min_step_outward_iff hstep (outward_iff.mp hraw).1

/-! ## Both sides -/

/-- The order that `compute_levels` takes the bounds to be in (`spread_engine.py:67-70`): the tightest
buy is at `buy_max_pct` and the tightest sell at `sell_min_pct`, above the mid. -/
structure Ordered (cfg : SpreadConfig) : Prop where
  buy : cfg.buy_min_pct.1 ≤ cfg.buy_max_pct.1
  sell_pos : 0 < cfg.sell_min_pct
  sell : cfg.sell_min_pct ≤ cfg.sell_max_pct

/-- The width of the buys. -/
noncomputable def buy_width (cfg : SpreadConfig) (spread_mult : ℝ) : ℝ :=
  ((cfg.buy_max_pct.1 - cfg.buy_min_pct.1 : ℚ) : ℝ) * regime_mult spread_mult

/-- The width of the sells. -/
noncomputable def sell_width (cfg : SpreadConfig) (spread_mult : ℝ) : ℝ :=
  ((cfg.sell_max_pct - cfg.sell_min_pct : ℚ) : ℝ) * regime_mult spread_mult

variable {cfg : SpreadConfig}

theorem Ordered.buy_order (h : Ordered cfg) (spread_mult : ℝ) :
    ((cfg.buy_max_pct.1 : ℚ) : ℝ) * regime_mult spread_mult < 0 ∧
      ((cfg.buy_min_pct.1 : ℚ) : ℝ) * regime_mult spread_mult ≤
        (cfg.buy_max_pct.1 : ℚ) * regime_mult spread_mult := by
  have hmult := regime_mult_pos spread_mult
  exact ⟨mul_neg_of_neg_of_pos (by exact_mod_cast cfg.buy_max_pct.2) hmult,
    mul_le_mul_of_nonneg_right (by exact_mod_cast h.buy) hmult.le⟩

theorem Ordered.sell_order (h : Ordered cfg) (spread_mult : ℝ) :
    0 < ((cfg.sell_min_pct : ℚ) : ℝ) * regime_mult spread_mult ∧
      ((cfg.sell_min_pct : ℚ) : ℝ) * regime_mult spread_mult ≤
        (cfg.sell_max_pct : ℚ) * regime_mult spread_mult := by
  have hmult := regime_mult_pos spread_mult
  exact ⟨mul_pos (by exact_mod_cast h.sell_pos) hmult,
    mul_le_mul_of_nonneg_right (by exact_mod_cast h.sell) hmult.le⟩

theorem Ordered.buy_bounds (h : Ordered cfg) (spread_mult : ℝ) :
    Bounds ((cfg.buy_max_pct.1 : ℚ) * regime_mult spread_mult)
        ((cfg.buy_min_pct.1 : ℚ) * regime_mult spread_mult) ∧
      |(cfg.buy_min_pct.1 : ℚ) * regime_mult spread_mult -
        (cfg.buy_max_pct.1 : ℚ) * regime_mult spread_mult| = buy_width cfg spread_mult := by
  have horder := h.buy_order spread_mult
  refine ⟨⟨.inr horder⟩, ?_⟩
  rw [abs_of_nonpos (sub_nonpos.mpr horder.2), buy_width]
  push_cast
  ring

theorem Ordered.sell_bounds (h : Ordered cfg) (spread_mult : ℝ) :
    Bounds ((cfg.sell_min_pct : ℚ) * regime_mult spread_mult)
        ((cfg.sell_max_pct : ℚ) * regime_mult spread_mult) ∧
      |(cfg.sell_max_pct : ℚ) * regime_mult spread_mult -
        (cfg.sell_min_pct : ℚ) * regime_mult spread_mult| = sell_width cfg spread_mult := by
  have horder := h.sell_order spread_mult
  refine ⟨⟨.inl horder⟩, ?_⟩
  rw [abs_of_nonneg (sub_nonneg.mpr horder.2), sell_width]
  push_cast
  ring

theorem huy_outward_iff (e : SpreadEngine) (h : Ordered e.cfg) (buy_agg sell_agg : ℝ)
    (buy_levels sell_levels : ℕ)
    (buy_curve_strength sell_curve_strength buy_min_step sell_min_step spread_mult : ℝ) :
    (Outward (e.compute_levels_huy buy_agg sell_agg buy_levels sell_levels buy_curve_strength
        sell_curve_strength buy_min_step sell_min_step spread_mult).1 ↔
      buy_min_step ≤ 0 ∨ CurveRoom buy_min_step (buy_width e.cfg spread_mult)
        (gamma buy_curve_strength (clip buy_agg 0 1)) buy_levels) ∧
    (Outward (e.compute_levels_huy buy_agg sell_agg buy_levels sell_levels buy_curve_strength
        sell_curve_strength buy_min_step sell_min_step spread_mult).2 ↔
      sell_min_step ≤ 0 ∨ CurveRoom sell_min_step (sell_width e.cfg spread_mult)
        (gamma sell_curve_strength (clip sell_agg 0 1)) sell_levels) := by
  obtain ⟨hbuy, hbuy_width⟩ := h.buy_bounds spread_mult
  obtain ⟨hsell, hsell_width⟩ := h.sell_bounds spread_mult
  rw [← hbuy_width, ← hsell_width]
  exact ⟨side_outward_iff hbuy, side_outward_iff hsell⟩

/-- **What the steps leave in order**: levels that go outward keep level 0, get no nearer to the mid
and are spaced by the step, exactly when they have room for the steps; and for bounds in the order
that the code takes them to be in, the levels of both sides go outward exactly when each side has no
step or a curve with room for it. -/
theorem min_step_spaces_iff (levels : List ℝ) (min_step : ℝ) (hstep : 0 < min_step)
    (hlevels : Outward levels) (e : SpreadEngine) (h : Ordered e.cfg) (buy_agg sell_agg : ℝ)
    (buy_levels sell_levels : ℕ)
    (buy_curve_strength sell_curve_strength buy_min_step sell_min_step spread_mult : ℝ) :
    ((enforce_min_step levels min_step).head? = levels.head? ∧
        Outward (enforce_min_step levels min_step) ∧
        Spaced min_step (distances (enforce_min_step levels min_step)) ∧
        List.Forall₂ (|·| ≤ |·|) levels (enforce_min_step levels min_step) ↔
      Room min_step (distances levels)) ∧
    (Outward (e.compute_levels_huy buy_agg sell_agg buy_levels sell_levels buy_curve_strength
          sell_curve_strength buy_min_step sell_min_step spread_mult).1 ∧
        Outward (e.compute_levels_huy buy_agg sell_agg buy_levels sell_levels buy_curve_strength
          sell_curve_strength buy_min_step sell_min_step spread_mult).2 ↔
      (buy_min_step ≤ 0 ∨ CurveRoom buy_min_step (buy_width e.cfg spread_mult)
        (gamma buy_curve_strength (clip buy_agg 0 1)) buy_levels) ∧
      (sell_min_step ≤ 0 ∨ CurveRoom sell_min_step (sell_width e.cfg spread_mult)
        (gamma sell_curve_strength (clip sell_agg 0 1)) sell_levels)) := by
  have hside : OneSide levels := (outward_iff.mp hlevels).1
  obtain ⟨hbuy, hsell⟩ := huy_outward_iff e h buy_agg sell_agg buy_levels sell_levels
    buy_curve_strength sell_curve_strength buy_min_step sell_min_step spread_mult
  refine ⟨⟨fun hall => (enforce_min_step_outward_iff hstep hside).mp hall.2.1, fun hroom => ?_⟩,
    and_congr hbuy hsell⟩
  have hback : -min_step < min_step := (neg_lt_zero.mpr hstep).trans hstep
  exact ⟨head?_enforce_min_step levels min_step,
    (enforce_min_step_outward_iff hstep hside).mpr hroom,
    (enforce_min_step_spaced_iff hstep hback le_rfl hside).mpr hroom,
    enforce_min_step_farther hstep hside⟩

theorem ordered_default : Ordered default := ⟨by decide +kernel, by decide +kernel, by decide +kernel⟩

/-- A curve of three levels has room for any step. -/
theorem curveRoom_three {width : ℝ} (hstep : 0 < step) (hwidth : 0 < width) :
    CurveRoom step width (gamma cs agg) 3 := by
  intro j i hji hi
  obtain ⟨rfl, rfl⟩ | hnext : (j = 0 ∧ i = 2) ∨ i = j + 1 := by omega
  · have hfirst : (0 : ℝ) ^ gamma cs agg = 0 := Real.zero_rpow (Real.exp_pos _).ne'
    have hlast : (2 / (3 - 1) : ℝ) ^ gamma cs agg = 1 := by
      rw [show (2 / (3 - 1) : ℝ) = 1 by norm_num, Real.one_rpow]
    push_cast
    rw [zero_div, hfirst, hlast]
    linarith
  · have hmono := mul_nonneg hwidth.le (sub_nonneg.mpr (curve_mono hji.le hi cs agg))
    subst hnext
    push_cast at hmono ⊢
    linarith

/-- Of three levels the second is pushed to a step from the first and the third is far enough out;
three levels of the default bounds have room for a step of 2. -/
theorem min_step_spaces_three :
    Outward (enforce_min_step [-1, -3 / 2, -5] (1 : ℝ)) ∧
    Outward (compute_levels_huy ⟨default⟩ (1 / 2 : ℝ) (1 / 2) 3 3 4 4 2 2 1).1 ∧
    Outward (compute_levels_huy ⟨default⟩ (1 / 2 : ℝ) (1 / 2) 3 3 4 4 2 2 1).2 := by
  have hlevels : Outward [(-1 : ℝ), -3 / 2, -5] := .inr (by norm_num)
  have hroom : Room (1 : ℝ) (distances [-1, -3 / 2, -5]) := by
    intro j i a b hji ha hb
    have hi : i < 3 := (List.getElem?_eq_some_iff.mp hb).1
    obtain ⟨rfl, rfl⟩ | ⟨rfl, rfl⟩ | ⟨rfl, rfl⟩ :
      (j = 0 ∧ i = 1) ∨ (j = 0 ∧ i = 2) ∨ (j = 1 ∧ i = 2) := by omega
    all_goals
      obtain rfl := Option.some.inj ha
      obtain rfl := Option.some.inj hb
      norm_num [abs_of_neg]
  have hbuy : 0 < buy_width default 1 := by
    rw [buy_width]
    exact mul_pos (by norm_num [default]) (regime_mult_pos 1)
  have hsell : 0 < sell_width default 1 := by
    rw [sell_width]
    exact mul_pos (by norm_num [default]) (regime_mult_pos 1)
  obtain ⟨hspaced, hhuy⟩ := min_step_spaces_iff [-1, -3 / 2, -5] 1 one_pos hlevels ⟨default⟩
    ordered_default (1 / 2) (1 / 2) 3 3 4 4 2 2 1
  exact ⟨(hspaced.mpr hroom).2.1, hhuy.mpr
    ⟨.inr (curveRoom_three two_pos hbuy), .inr (curveRoom_three two_pos hsell)⟩⟩

/-- Sells that are all at one percentage, with a step of as much. -/
def flat_sells : SpreadConfig :=
  { (default : SpreadConfig) with
    sell_min_pct := 1, sell_max_pct := 1, sell_min_step := ⟨1, by norm_num⟩ }

/-- **A third level that coincides** with the first two is overtaken by a step, and stays on the
inside; so it is where both bounds of a side coincide. -/
theorem min_step_overtakes :
    (Outward [(1 : ℝ), 1, 1] ∧ enforce_min_step [(1 : ℝ), 1, 1] 1 = [1, 2, 1] ∧
      ¬Outward [(1 : ℝ), 2, 1]) ∧
    Ordered flat_sells ∧
    ¬Outward (compute_levels_huy ⟨flat_sells⟩ 1 1 3 3 4 4 0 ((flat_sells.sell_min_step.1 : ℚ) : ℝ)
      1).2 := by
  have hordered : Ordered flat_sells :=
    ⟨by decide +kernel, by decide +kernel, by decide +kernel⟩
  refine ⟨⟨.inl (by norm_num), ?_, ?_⟩, hordered, fun h => ?_⟩
  · norm_num [enforce_min_step, step_outward]
  · rintro (⟨-, h⟩ | ⟨h, -⟩)
    · norm_num at h
    · norm_num at h
  · have hroom := (huy_outward_iff ⟨flat_sells⟩ hordered 1 1 3 3 4 4 0 _ 1).2.mp h
    have hwidth : sell_width flat_sells 1 = 0 := by
      rw [sell_width]
      norm_num [flat_sells]
    have hstep : ((flat_sells.sell_min_step.1 : ℚ) : ℝ) = 1 := by norm_num [flat_sells]
    rw [hwidth, hstep] at hroom
    have hlt := hroom.resolve_left (by norm_num) 0 2 (by norm_num) (by norm_num)
    norm_num at hlt

end Meridian.SpreadEngine
