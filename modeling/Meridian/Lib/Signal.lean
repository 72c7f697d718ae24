import Mathlib.MeasureTheory.Measure.Lebesgue.Basic

/-!
# A signal that is switched on and off

A signal with a level from the start and switches at times that do not decrease. How long it was on is
the sum over its stretches (`timeOn`), and that is the measure of the times at which it was on
(`volume_on`). Nothing is asked of a switch that changes nothing.
-/

namespace Meridian.Signal

section Def

variable {K : Type*} [AddCommGroup K] [LinearOrder K]

/-- The level at a time: what the last switch up to it says, or `b` before the first. -/
def level (b : Bool) : List (K × Bool) → K → Bool
  | [], _ => b
  | e :: es, s => if s < e.1 then b else level e.2 es s

/-- The time on from `a` to `t`. -/
def timeOn (b : Bool) (a : K) : List (K × Bool) → K → K
  | [], t => if b then t - a else 0
  | e :: es, t => (if b then e.1 - a else 0) + timeOn e.2 e.1 es t

/-- The switches are in order, between `a` and `t`. -/
def Chronological (a : K) : List (K × Bool) → K → Prop
  | [], t => a ≤ t
  | e :: es, t => a ≤ e.1 ∧ Chronological e.1 es t

/-- When the signal went off, if it is: a switch to the level it has keeps that time. -/
def offSince (off : Option K) : List (K × Bool) → Option K
  | [] => off
  | e :: es => offSince (if e.2 then none else off.or (some e.1)) es

/-- How long the signal is off by now. -/
def pending (off : Option K) (t : K) : K := (off.map fun u => t - u).getD 0

end Def

variable {K : Type*} [AddCommGroup K] [LinearOrder K]

omit [AddCommGroup K] in
theorem Chronological.le {a t : K} : ∀ {es : List (K × Bool)}, Chronological a es t → a ≤ t := by
  intro es
  induction es generalizing a with
  | nil => exact id
  | cons e es ih => exact fun h => h.1.trans (ih h.2)

section Ordered

variable [IsOrderedAddMonoid K]

theorem timeOn_nonneg {t : K} : ∀ {es : List (K × Bool)} {a : K} (b : Bool), Chronological a es t →
    0 ≤ timeOn b a es t := by
  intro es
  induction es with
  | nil =>
    intro a b h
    unfold timeOn
    split
    · exact sub_nonneg.mpr h
    · exact le_rfl
  | cons e es ih =>
    intro a b h
    refine add_nonneg ?_ (ih e.2 h.2)
    split
    · exact sub_nonneg.mpr h.1
    · exact le_rfl

end Ordered

/-! ## As a measure -/

open MeasureTheory

/-- The times from `a` to `t` at which the signal is on. -/
def onTimes (b : Bool) (a : ℝ) (es : List (ℝ × Bool)) (t : ℝ) : Set ℝ :=
  {s | s ∈ Set.Icc a t ∧ level b es s = true}

/-- The stretch before a switch, and the times from it on. -/
theorem onTimes_cons {b : Bool} {a t : ℝ} {e : ℝ × Bool} {es : List (ℝ × Bool)} (ha : a ≤ e.1)
    (ht : e.1 ≤ t) :
    onTimes b a (e :: es) t = (if b then Set.Ico a e.1 else ∅) ∪ onTimes e.2 e.1 es t := by
  ext s
  simp only [onTimes, level, Set.mem_union, Set.mem_ofPred_eq, Set.mem_Icc]
  rcases lt_or_ge s e.1 with hs | hs
  · have hnot : ¬e.1 ≤ s := not_le.mpr hs
    cases b with
    | false => simp [hs, hnot]
    | true => simp [hs, hnot, (hs.trans_le ht).le]
  · have hnot : ¬s < e.1 := not_lt.mpr hs
    cases b with
    | false => simp [hnot, hs, ha.trans hs]
    | true => simp [hnot, hs, ha.trans hs]

/-- **The time on is the measure** of the times at which the signal is on. -/
theorem volume_on {t : ℝ} : ∀ {es : List (ℝ × Bool)} {a : ℝ} (b : Bool), Chronological a es t →
    volume (onTimes b a es t) = ENNReal.ofReal (timeOn b a es t) := by
  intro es
  induction es with
  | nil =>
    intro a b h
    cases b with
    | false => simp [onTimes, level, timeOn]
    | true =>
      have hall : onTimes true a [] t = Set.Icc a t := by
        ext s
        simp [onTimes, level]
      rw [hall, Real.volume_Icc]
      rfl
  | cons e es ih =>
    intro a b h
    have hfirst : volume (if b then Set.Ico a e.1 else ∅) =
        ENNReal.ofReal (if b then e.1 - a else 0) := by
      cases b with
      | false => simp
      | true => simp
    have hmeas : MeasurableSet (if b then Set.Ico a e.1 else ∅) := by
      cases b with
      | false => exact MeasurableSet.empty
      | true => exact measurableSet_Ico
    have hdisj : Disjoint (if b then Set.Ico a e.1 else ∅) (onTimes e.2 e.1 es t) := by
      refine Set.disjoint_left.mpr fun s hs hs' => ?_
      cases b with
      | false => exact hs
      | true => exact absurd hs'.1.1 (not_le.mpr hs.2)
    have hnonneg : (0 : ℝ) ≤ if b then e.1 - a else 0 := by
      split
      · exact sub_nonneg.mpr h.1
      · exact le_rfl
    rw [onTimes_cons h.1 h.2.le, measure_union' hdisj hmeas, hfirst, ih e.2 h.2, timeOn,
      ENNReal.ofReal_add hnonneg (timeOn_nonneg e.2 h.2)]

end Meridian.Signal
