import Mathlib.Algebra.Order.Floor.Ring
import Mathlib.Algebra.Order.Field.Basic
import Mathlib.Algebra.Order.Group.Abs
import Mathlib.Algebra.Ring.Int.Parity
import Mathlib.Tactic.Linarith
import Mathlib.Tactic.Ring

/-!
# Rounding half to even

The nearest integer, and of two equally near the even one. It is at most `k` exactly up to `k + 1/2`,
a tie counting where `k` is even (`round_half_even_le_iff`), and it grows with its argument.
-/

namespace Meridian

variable {K : Type*} [Field K] [LinearOrder K] [IsStrictOrderedRing K] [FloorRing K]

/-- The nearer of the two integers around `x`, and of two equally near the even one. -/
def round_half_even (x : K) : ℤ :=
  if x - ⌊x⌋ < ⌊x⌋ + 1 - x then ⌊x⌋
  else if ⌊x⌋ + 1 - x < x - ⌊x⌋ then ⌊x⌋ + 1
  else if Even ⌊x⌋ then ⌊x⌋
  else ⌊x⌋ + 1

variable {x y : K} {k : ℤ}

omit [IsStrictOrderedRing K] in
theorem floor_le_round_half_even (x : K) : ⌊x⌋ ≤ round_half_even x := by
  unfold round_half_even
  split_ifs <;> omega

omit [IsStrictOrderedRing K] in
theorem round_half_even_le_floor_add_one (x : K) : round_half_even x ≤ ⌊x⌋ + 1 := by
  unfold round_half_even
  split_ifs <;> omega

/-- When the nearest integer is the one below. -/
theorem round_half_even_le_floor_iff :
    round_half_even x ≤ ⌊x⌋ ↔ x < ⌊x⌋ + 1 / 2 ∨ x = ⌊x⌋ + 1 / 2 ∧ Even ⌊x⌋ := by
  unfold round_half_even
  split_ifs with hdown hup heven
  · exact iff_of_true le_rfl (Or.inl (by linarith))
  · refine iff_of_false (by omega) fun h => ?_
    rcases h with h | ⟨h, -⟩ <;> linarith
  · exact iff_of_true le_rfl (Or.inr ⟨by linarith, heven⟩)
  · refine iff_of_false (by omega) fun h => ?_
    rcases h with h | ⟨-, h⟩
    · linarith
    · exact heven h

theorem round_half_even_le_iff :
    round_half_even x ≤ k ↔ x < k + 1 / 2 ∨ x = k + 1 / 2 ∧ Even k := by
  have hle := Int.floor_le x
  have hlt := Int.lt_floor_add_one x
  rcases lt_trichotomy k ⌊x⌋ with hk | rfl | hk
  · have hcast : (k : K) + 1 ≤ ⌊x⌋ := by exact_mod_cast hk
    refine iff_of_false (not_le.mpr (hk.trans_le (floor_le_round_half_even x))) fun h => ?_
    rcases h with h | ⟨h, -⟩ <;> linarith
  · exact round_half_even_le_floor_iff
  · have hcast : (⌊x⌋ : K) + 1 ≤ k := by exact_mod_cast hk
    exact iff_of_true ((round_half_even_le_floor_add_one x).trans hk) (Or.inl (by linarith))

theorem lt_round_half_even_iff :
    k < round_half_even x ↔ k + 1 / 2 < x ∨ x = k + 1 / 2 ∧ Odd k := by
  rw [← not_le, round_half_even_le_iff, not_or, not_lt, not_and, Int.not_even_iff_odd.symm]
  constructor
  · rintro ⟨h, hodd⟩
    exact h.lt_or_eq.imp_right fun h => ⟨h.symm, hodd h.symm⟩
  · rintro (h | ⟨h, hodd⟩)
    · exact ⟨h.le, fun h' => absurd h' h.ne'⟩
    · exact ⟨h.ge, fun _ => hodd⟩

theorem le_round_half_even_iff :
    k ≤ round_half_even x ↔ k - 1 / 2 < x ∨ x = k - 1 / 2 ∧ Even k := by
  have hcast : ((k - 1 : ℤ) : K) + 1 / 2 = k - 1 / 2 := by
    push_cast
    ring
  rw [← Int.sub_one_lt_iff, lt_round_half_even_iff, hcast, ← Int.not_even_iff_odd, Int.even_sub_one,
    not_not]

theorem round_half_even_lt_iff :
    round_half_even x < k ↔ x < k - 1 / 2 ∨ x = k - 1 / 2 ∧ Odd k := by
  have hcast : ((k - 1 : ℤ) : K) + 1 / 2 = k - 1 / 2 := by
    push_cast
    ring
  rw [← Int.le_sub_one_iff, round_half_even_le_iff, hcast, Int.even_sub_one, Int.not_even_iff_odd]

theorem round_half_even_mono (h : x ≤ y) : round_half_even x ≤ round_half_even y := by
  rw [round_half_even_le_iff]
  have hy := round_half_even_le_iff.mp (le_refl (round_half_even y))
  rcases hy with hy | ⟨hy, heven⟩
  · exact Or.inl (h.trans_lt hy)
  · exact (hy ▸ h).lt_or_eq.imp_right fun hx => ⟨hx, heven⟩

theorem sub_half_le_round_half_even (x : K) : x - 1 / 2 ≤ round_half_even x := by
  rcases round_half_even_le_iff.mp (le_refl (round_half_even x)) with h | ⟨h, -⟩ <;> linarith

theorem round_half_even_le_add_half (x : K) : round_half_even x ≤ x + 1 / 2 := by
  rcases le_round_half_even_iff.mp (le_refl (round_half_even x)) with h | ⟨h, -⟩ <;> linarith

@[simp] theorem round_half_even_intCast (k : ℤ) : round_half_even (k : K) = k :=
  le_antisymm (round_half_even_le_iff.mpr (Or.inl (by linarith)))
    (le_round_half_even_iff.mpr (Or.inl (by linarith)))

theorem round_half_even_eq_zero (h : |x| < 1 / 2) : round_half_even x = 0 := by
  obtain ⟨hlo, hhi⟩ := abs_lt.mp h
  refine le_antisymm (round_half_even_le_iff.mpr (Or.inl ?_)) (le_round_half_even_iff.mpr (Or.inl ?_))
  · rwa [Int.cast_zero, zero_add]
  · rwa [Int.cast_zero, zero_sub]

end Meridian
