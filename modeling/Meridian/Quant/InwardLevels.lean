import Meridian.Quant.MinStep

/-!
# Levels that go inward

What `enforce_min_step` (`spread_engine.py:178-197`) does to a side whose first bound is the wider one,
as `docs/CONFIG.md:115-126` has the buys. Each level is nearer to the mid than the one before. One that
is less than a step nearer is pushed out, a step past the one before; the next one is then more than a
step away from it and stays. So where levels are less than a step apart, every other one is pushed.

Results:
* `isLeast_inward`: how near the levels still come, which is the last one, or the one before it where
  the last is pushed;
* `isGreatest_below`, `isLeast_above`: the level nearest to the mid of a side, whichever of its bounds is
  the wider one.

Out of scope: rounding of doubles.
-/

namespace Meridian.SpreadEngine

section Least

variable {α : Type*} [Preorder α] {l : List α} {a b : α}

theorem isLeast_concat (h : IsLeast {x | x ∈ l} a) (hb : a ≤ b) : IsLeast {x | x ∈ l ++ [b]} a := by
  refine ⟨List.mem_append_left _ h.1, fun x hx => ?_⟩
  rcases List.mem_append.mp hx with hx | hx
  · exact h.2 hx
  · exact hb.trans_eq (List.mem_singleton.mp hx).symm

theorem isLeast_concat_new (h : IsLeast {x | x ∈ l} a) (hb : b ≤ a) : IsLeast {x | x ∈ l ++ [b]} b := by
  refine ⟨List.mem_append_right _ (List.mem_singleton_self b), fun x hx => ?_⟩
  rcases List.mem_append.mp hx with hx | hx
  · exact hb.trans (h.2 hx)
  · exact (List.mem_singleton.mp hx).ge

end Least

section Inward

variable {K : Type*} [Field K] [LinearOrder K]

/-- How many gaps in a row, from the nearest one on, are less than a step. The distances begin with the
nearest. -/
def short_gaps (step : K) : List K → ℕ
  | d :: d' :: dists => if d' - d < step then short_gaps step (d' :: dists) + 1 else 0
  | _ => 0

/-- The nearest of these distances after the pass, the nearest being given first: it is pushed out if it
ends an odd number of short gaps. -/
def nearest (step : K) : List K → K
  | d :: d' :: dists => if short_gaps step (d :: d' :: dists) % 2 = 1 then d' else d
  | [d] => d
  | [] => 0

variable {step prev d : K} {dists rest : List K}

theorem nearest_of_even (h : short_gaps step (d :: rest) % 2 = 0) : nearest step (d :: rest) = d := by
  cases rest with
  | nil => rfl
  | cons d' rest => exact if_neg (by omega)

theorem step_outward_concat (step prev d : K) (dists : List K) :
    step_outward step prev (dists ++ [d]) = step_outward step prev dists ++
      [pushed step ((prev :: step_outward step prev dists).getLast (List.cons_ne_nil _ _)) d] := by
  induction dists generalizing prev with
  | nil => rfl
  | cons level dists ih =>
    rw [List.cons_append, step_outward_cons, step_outward_cons, ih, List.cons_append]
    rfl

/-- The last level is the last one to be pushed. -/
theorem enforce_min_step_concat (hstep : 0 < step) {last : K}
    (hlast : (enforce_min_step dists step).getLast? = some last) (d : K) :
    enforce_min_step (dists ++ [d]) step = enforce_min_step dists step ++ [pushed step last d] := by
  cases dists with
  | nil =>
    rw [enforce_min_step_nil] at hlast
    cases hlast
  | cons level dists =>
    rw [enforce_min_step_cons hstep, List.getLast?_eq_some_getLast (List.cons_ne_nil _ _)] at hlast
    rw [List.cons_append, enforce_min_step_cons hstep, enforce_min_step_cons hstep,
      step_outward_concat, Option.some.inj hlast, List.cons_append]

/-- What the pass has made of levels that go inward: the last one stays, or is a step past the one
before. -/
structure Pass (step : K) (d : K) (rest : List K) : Prop where
  last : (enforce_min_step (d :: rest).reverse step).getLast? = some d ∧
      short_gaps step (d :: rest) % 2 = 0 ∨
    ∃ d' tail, rest = d' :: tail ∧
      (enforce_min_step (d :: rest).reverse step).getLast? = some (d' + step) ∧
      short_gaps step (d :: rest) % 2 = 1
  least : IsLeast {x | x ∈ enforce_min_step (d :: rest).reverse step} (nearest step (d :: rest))

variable [IsStrictOrderedRing K]

/-- A level after one that stays. -/
theorem Pass.cons_of_even (hstep : 0 < step) {d' : K} (h : Pass step d' rest) (hd : d ≤ d')
    (hpos : 0 < d')
    (hlast : (enforce_min_step (d' :: rest).reverse step).getLast? = some d')
    (heven : short_gaps step (d' :: rest) % 2 = 0) : Pass step d (d' :: rest) := by
  have hleast := h.least
  rw [nearest_of_even heven] at hleast
  have hpass := enforce_min_step_concat hstep hlast d
  have habs : |d - d'| = d' - d := by rw [abs_sub_comm, abs_of_nonneg (sub_nonneg.mpr hd)]
  rw [← List.reverse_cons, pushed, habs, if_pos hpos] at hpass
  by_cases hshort : d' - d < step
  · have hodd : short_gaps step (d :: d' :: rest) % 2 = 1 := by
      rw [short_gaps, if_pos hshort]
      omega
    rw [if_pos hshort] at hpass
    refine ⟨.inr ⟨d', rest, rfl, ?_, hodd⟩, ?_⟩
    · rw [hpass, List.getLast?_concat]
    · rw [hpass, nearest, if_pos hodd]
      exact isLeast_concat hleast (le_add_of_nonneg_right hstep.le)
  · have hzero : short_gaps step (d :: d' :: rest) % 2 = 0 := by
      rw [short_gaps, if_neg hshort]
    rw [if_neg hshort] at hpass
    refine ⟨.inl ⟨?_, hzero⟩, ?_⟩
    · rw [hpass, List.getLast?_concat]
    · rw [hpass, nearest_of_even hzero]
      exact isLeast_concat_new hleast hd

/-- A level after one that is pushed. -/
theorem Pass.cons_of_odd (hstep : 0 < step) {d' d'' : K} (h : Pass step d' (d'' :: rest))
    (hd : d ≤ d'')
    (hlast : (enforce_min_step (d' :: d'' :: rest).reverse step).getLast? = some (d'' + step))
    (hodd : short_gaps step (d' :: d'' :: rest) % 2 = 1) : Pass step d (d' :: d'' :: rest) := by
  have hleast := h.least
  rw [nearest, if_pos hodd] at hleast
  have hpass := enforce_min_step_concat hstep hlast d
  rw [← List.reverse_cons, pushed_eq_self (by linarith)] at hpass
  have heven : short_gaps step (d :: d' :: d'' :: rest) % 2 = 0 := by
    rw [short_gaps]
    split
    · omega
    · rfl
  refine ⟨.inl ⟨?_, heven⟩, ?_⟩
  · rw [hpass, List.getLast?_concat]
  · rw [hpass, nearest_of_even heven]
    exact isLeast_concat_new hleast hd

/-- The pass over levels that go inward, by induction from the widest in. -/
theorem pass (hstep : 0 < step) : ∀ {rest : List K} {d : K}, (d :: rest).Pairwise (· ≤ ·) →
    (∀ x ∈ d :: rest, 0 < x) → Pass step d rest
  | [], d, _, _ => by
    have hone : enforce_min_step [d] step = [d] := enforce_min_step_cons hstep
    refine ⟨.inl ⟨?_, rfl⟩, ?_⟩
    · rw [List.reverse_singleton, hone, List.getLast?_singleton]
    · rw [List.reverse_singleton, hone]
      exact ⟨List.mem_singleton_self d, fun x hx => (List.mem_singleton.mp hx).ge⟩
  | d' :: rest, d, hinward, hpos => by
    obtain ⟨hle, hrest⟩ := List.pairwise_cons.mp hinward
    have hpass : Pass step d' rest := pass hstep hrest fun x hx => hpos x (List.mem_cons_of_mem _ hx)
    rcases hpass.last with ⟨hlast, heven⟩ | ⟨d'', tail, rfl, hlast, hodd⟩
    · exact hpass.cons_of_even hstep (hle d' List.mem_cons_self)
        (hpos d' (List.mem_cons_of_mem _ List.mem_cons_self)) hlast heven
    · exact hpass.cons_of_odd hstep (hle d'' (List.mem_cons_of_mem _ List.mem_cons_self)) hlast hodd

/-- **How near the levels come** after the pass: `nearest`, a function of the levels before it, is
attained and no level is nearer. -/
theorem isLeast_inward (hstep : 0 < step) (hne : dists ≠ []) (hinward : dists.Pairwise (· ≥ ·))
    (hpos : ∀ x ∈ dists, 0 < x) :
    IsLeast {x | x ∈ enforce_min_step dists step} (nearest step dists.reverse) := by
  obtain ⟨d, rest, hrev⟩ := List.exists_cons_of_ne_nil fun h => hne (List.reverse_eq_nil_iff.mp h)
  have hdists : dists = (d :: rest).reverse := by rw [← hrev, List.reverse_reverse]
  rw [hrev, hdists]
  refine (pass hstep ?_ fun x hx => hpos x ?_).least
  · rw [hdists, List.pairwise_reverse] at hinward
    exact hinward
  · rwa [hdists, List.mem_reverse]

/-- A pass sees the distances. -/
theorem distances_enforce_min_step (hstep : 0 < step) {levels : List K} (h : OneSide levels) :
    distances (enforce_min_step levels step) = enforce_min_step (distances levels) step := by
  cases levels with
  | nil => rw [enforce_min_step_nil, distances, List.map_nil, enforce_min_step_nil]
  | cons level levels =>
    rw [enforce_min_step_cons hstep, distances, List.map_cons, distances, List.map_cons,
      enforce_min_step_cons hstep]
    exact congrArg (_ :: ·) (distances_step_outward hstep h)

end Inward

/-! ## A side of the grid -/

variable {e : SpreadEngine} {tightest widest agg step cs : ℝ} {n : ℕ}

/-- A side whose second bound is the nearer one. -/
def InwardBounds (tightest widest : ℝ) : Prop :=
  0 < widest ∧ widest ≤ tightest ∨ widest < 0 ∧ tightest ≤ widest

/-- A level of such a side, and how far out it is. -/
theorem InwardBounds.level (h : InwardBounds tightest widest) {p : ℝ} (h0 : 0 ≤ p) (h1 : p ≤ 1) :
    (0 < widest ∧ 0 < tightest + (widest - tightest) * p ∨
      widest < 0 ∧ tightest + (widest - tightest) * p < 0) ∧
    |tightest + (widest - tightest) * p| = |tightest| - |widest - tightest| * p := by
  obtain ⟨hmin, hmax⟩ : min tightest widest ≤ tightest + (widest - tightest) * p ∧
      tightest + (widest - tightest) * p ≤ max tightest widest := between_bounds h0 h1
  rcases h with ⟨hw, hle⟩ | ⟨hw, hle⟩
  · rw [min_eq_right hle] at hmin
    have hlevel : 0 < tightest + (widest - tightest) * p := hw.trans_le hmin
    refine ⟨.inl ⟨hw, hlevel⟩, ?_⟩
    rw [abs_of_pos hlevel, abs_of_pos (hw.trans_le hle), abs_of_nonpos (sub_nonpos.mpr hle)]
    ring
  · rw [max_eq_right hle] at hmax
    have hlevel : tightest + (widest - tightest) * p < 0 := hmax.trans_lt hw
    refine ⟨.inr ⟨hw, hlevel⟩, ?_⟩
    rw [abs_of_neg hlevel, abs_of_neg (hle.trans_lt hw), abs_of_nonneg (sub_nonneg.mpr hle)]
    ring

/-- The curve goes inward. -/
theorem side_levels_inward (h : InwardBounds tightest widest) :
    OneSide (e.compute_side_levels tightest widest agg n (some cs)) ∧
      (distances (e.compute_side_levels tightest widest agg n (some cs))).Pairwise (· ≥ ·) := by
  have hside : ∀ l ∈ e.compute_side_levels tightest widest agg n (some cs),
      0 < widest ∧ 0 < l ∨ widest < 0 ∧ l < 0 := by
    intro l hl
    obtain ⟨i, hi⟩ := List.mem_iff_getElem?.mp hl
    obtain ⟨hin, rfl⟩ := (getElem?_side_levels i l).mp hi
    obtain ⟨h0, h1⟩ := curve_range hin cs agg
    exact (h.level h0 h1).1
  constructor
  · rcases h with ⟨hw, -⟩ | ⟨hw, -⟩
    · exact .inl fun l hl => ((hside l hl).resolve_right fun hneg => hw.not_gt hneg.1).2
    · exact .inr fun l hl => ((hside l hl).resolve_left fun hpos => hw.not_gt hpos.1).2
  · rw [distances, List.pairwise_map, List.pairwise_iff_getElem]
    intro j i hj hi hji
    obtain ⟨hjn, hjd⟩ := (getElem?_side_levels j _).mp (List.getElem?_eq_getElem hj)
    obtain ⟨hin, hid⟩ := (getElem?_side_levels i _).mp (List.getElem?_eq_getElem hi)
    obtain ⟨hj0, hj1⟩ := curve_range hjn cs agg
    obtain ⟨hi0, hi1⟩ := curve_range hin cs agg
    rw [← hjd, ← hid, (h.level hj0 hj1).2, (h.level hi0 hi1).2]
    have hmono := curve_mono hji.le hin cs agg
    gcongr

/-- How near a side comes to the mid where its second bound is the nearer one and a step is set. -/
noncomputable def nearest_level (e : SpreadEngine) (tightest widest agg : ℝ) (n : ℕ) (cs step : ℝ) : ℝ :=
  nearest step (distances (e.compute_side_levels tightest widest agg n (some cs))).reverse

theorem isLeast_distances_side (hn : 0 < n) (hstep : 0 < step) (h : InwardBounds tightest widest) :
    IsLeast {x | x ∈ distances (e.side tightest widest agg n (some cs) step)}
      (nearest_level e tightest widest agg n cs step) := by
  obtain ⟨hside, hinward⟩ :
      OneSide (e.compute_side_levels tightest widest agg n (some cs)) ∧
        (distances (e.compute_side_levels tightest widest agg n (some cs))).Pairwise (· ≥ ·) :=
    side_levels_inward h
  have hne : distances (e.compute_side_levels tightest widest agg n (some cs)) ≠ [] := by
    intro hnil
    have hhead : (e.compute_side_levels tightest widest agg n (some cs)).head? = some tightest :=
      head?_side_levels hn
    rw [List.map_eq_nil_iff.mp hnil] at hhead
    cases hhead
  rw [side, if_pos hstep, distances_enforce_min_step hstep hside]
  exact isLeast_inward hstep hne hinward (distances_pos hside)

/-- The level of a side below the mid that is nearest to it. -/
noncomputable def nearest_below (e : SpreadEngine) (tightest widest agg : ℝ) (n : ℕ)
    (cs step : ℝ) : ℝ :=
  if 0 < step ∧ tightest < widest then -nearest_level e tightest widest agg n cs step
  else max tightest widest

/-- The level of a side above the mid that is nearest to it. -/
noncomputable def nearest_above (e : SpreadEngine) (tightest widest agg : ℝ) (n : ℕ)
    (cs step : ℝ) : ℝ :=
  if 0 < step ∧ widest < tightest then nearest_level e tightest widest agg n cs step
  else min tightest widest

/-- **The nearest level below the mid**, whichever bound is the nearer one. -/
theorem isGreatest_below (hn : 2 ≤ n) (ht : tightest < 0) (hw : widest < 0) :
    IsGreatest {s | s ∈ e.side tightest widest agg n (some cs) step}
      (nearest_below e tightest widest agg n cs step) := by
  unfold nearest_below
  split
  · rename_i h
    obtain ⟨hmem, hleast⟩ : IsLeast {x | x ∈ distances (e.side tightest widest agg n (some cs) step)}
        (nearest_level e tightest widest agg n cs step) :=
      isLeast_distances_side (Nat.lt_of_lt_of_le Nat.zero_lt_two hn) h.1 (.inr ⟨hw, h.2.le⟩)
    have hneg : ∀ s ∈ e.side tightest widest agg n (some cs) step, s = -|s| := fun s hs => by
      rw [abs_of_neg ((side_le (max_lt ht hw).le s hs).trans_lt (max_lt ht hw)), neg_neg]
    obtain ⟨s, hs, heq⟩ := List.mem_map.mp hmem
    refine ⟨?_, fun s' hs' => ?_⟩
    · rw [← heq, ← hneg s hs]
      exact hs
    · rw [hneg s' hs']
      exact neg_le_neg (hleast (List.mem_map_of_mem hs'))
  · rename_i h
    refine isGreatest_side hn ht.le ?_
    rcases le_or_gt step 0 with hstep | hstep
    · exact .inl hstep
    · exact .inr (not_lt.mp fun hlt => h ⟨hstep, hlt⟩)

/-- **The nearest level above the mid**, whichever bound is the nearer one. -/
theorem isLeast_above (hn : 2 ≤ n) (h : step ≤ 0 ∨ 0 < tightest ∧ 0 < widest) :
    IsLeast {s | s ∈ e.side tightest widest agg n (some cs) step}
      (nearest_above e tightest widest agg n cs step) := by
  unfold nearest_above
  split
  · rename_i hin
    obtain ⟨ht, hw⟩ := h.resolve_left (not_le.mpr hin.1)
    obtain ⟨hmem, hleast⟩ : IsLeast {x | x ∈ distances (e.side tightest widest agg n (some cs) step)}
        (nearest_level e tightest widest agg n cs step) :=
      isLeast_distances_side (Nat.lt_of_lt_of_le Nat.zero_lt_two hn) hin.1 (.inl ⟨hw, hin.2.le⟩)
    have hpos : ∀ s ∈ e.side tightest widest agg n (some cs) step, |s| = s := fun s hs =>
      abs_of_pos ((lt_min ht hw).trans_le (le_side (lt_min ht hw) s hs))
    obtain ⟨s, hs, heq⟩ := List.mem_map.mp hmem
    refine ⟨?_, fun s' hs' => ?_⟩
    · rw [← heq, hpos s hs]
      exact hs
    · rw [← hpos s' hs']
      exact hleast (List.mem_map_of_mem hs')
  · rename_i hin
    refine isLeast_side hn ?_
    rcases le_or_gt step 0 with hstep | hstep
    · exact .inl hstep
    · exact .inr ⟨(h.resolve_left (not_le.mpr hstep)).1, not_lt.mp fun hlt => hin ⟨hstep, hlt⟩⟩

end Meridian.SpreadEngine
