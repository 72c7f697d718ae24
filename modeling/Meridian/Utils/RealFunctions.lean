import Mathlib.Analysis.SpecialFunctions.Pow.Real
import Meridian.Utils.MathUtils

/-!
# Exact arithmetic

The quant models over the real numbers, and over rational ones with the real functions rounded.
-/

namespace Meridian

noncomputable instance : MathFunctions ℝ where
  sqrt := Real.sqrt
  log := Real.log
  pow := fun x y => x ^ y

noncomputable instance : ExpFunction ℝ where
  exp := Real.exp

theorem sqrt_eq (x : ℝ) : MathFunctions.sqrt x = √x := rfl

/-! ## Rounded -/

/-- A number cut off after 53 binary places. -/
noncomputable def rounded (x : ℝ) : ℚ := (⌊x * ((2 ^ 53 : ℚ) : ℝ)⌋ : ℤ) / 2 ^ 53

noncomputable abbrev roundedMath : MathFunctions ℚ where
  sqrt x := rounded √(x : ℝ)
  log x := rounded (Real.log x)
  pow x y := rounded ((x : ℝ) ^ (y : ℝ))

noncomputable abbrev roundedExp : ExpFunction ℚ where
  exp x := rounded (Real.exp x)

theorem rounded_nonneg {x : ℝ} (h : 0 ≤ x) : 0 ≤ rounded x :=
  div_nonneg (Int.cast_nonneg (Int.floor_nonneg.mpr (by positivity))) (by positivity)

theorem rounded_le_one {x : ℝ} (h : x ≤ 1) : rounded x ≤ 1 := by
  have hfloor : ⌊x * ((2 ^ 53 : ℚ) : ℝ)⌋ ≤ 2 ^ 53 := by
    refine Int.floor_le_iff.mpr ?_
    push_cast
    linarith
  rw [rounded, div_le_one (by positivity)]
  exact_mod_cast hfloor

end Meridian
