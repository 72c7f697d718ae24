import Mathlib.Algebra.Order.Field.Basic
import Mathlib.Data.Nat.Cast.Order.Ring
import Mathlib.Data.Rat.Cast.Defs
import Mathlib.Order.Lattice
import Mathlib.Tactic.Linarith

/-!
# Numbers

What `utils/math_utils.py`, `math` and `numpy` give the quant models. Prices, balances and settings
are rational; where a square root, a logarithm or a real power enters, the numbers are those of a
field `K` that has them.
-/

namespace Meridian

/-- `math.sqrt`, `math.log` and `**`. -/
class MathFunctions (K : Type*) where
  sqrt : K → K
  log : K → K
  pow : K → K → K

/-- `np.exp`. -/
class ExpFunction (K : Type*) where
  exp : K → K

/-- `clip` (`math_utils.py:53-55`). -/
def clip {K : Type*} [LinearOrder K] (value lo hi : K) : K := max lo (min hi value)

theorem clip_mono {K : Type*} [LinearOrder K] {v w lo hi : K} (h : v ≤ w) :
    clip v lo hi ≤ clip w lo hi :=
  max_le_max le_rfl (min_le_min le_rfl h)

theorem clip_mem {K : Type*} [LinearOrder K] {lo hi : K} (h : lo ≤ hi) (v : K) :
    lo ≤ clip v lo hi ∧ clip v lo hi ≤ hi :=
  ⟨le_max_left _ _, max_le h (min_le_left _ _)⟩

/-- A value that is in range. -/
theorem clip_eq {K : Type*} [LinearOrder K] {v lo hi : K} (hlo : lo ≤ v) (hhi : v ≤ hi) :
    clip v lo hi = v := by
  rw [clip, min_eq_right hhi, max_eq_right hlo]

/-- `np.linspace(0.0, 1.0, n)` -/
def linspace {K : Type*} [DivisionRing K] (n : ℕ) : List K :=
  (List.range n).map fun i : ℕ => (i : K) / ((n : K) - 1)

section

variable {K : Type*} [Field K] [LinearOrder K] [IsStrictOrderedRing K] {n : ℕ} {t : K}

theorem mem_linspace (h : t ∈ linspace n) : 0 ≤ t ∧ t ≤ 1 := by
  obtain ⟨i, hi, rfl⟩ := List.mem_map.mp h
  have hi0 : (0 : K) ≤ i := Nat.cast_nonneg i
  have hin : (i : K) + 1 ≤ n := by exact_mod_cast List.mem_range.mp hi
  exact ⟨div_nonneg hi0 (by linarith), div_le_one_of_le₀ (by linarith) (by linarith)⟩

omit [LinearOrder K] [IsStrictOrderedRing K] in
theorem head?_linspace (h : 0 < n) : (linspace n : List K).head? = some 0 := by
  obtain ⟨m, rfl⟩ := Nat.exists_eq_add_of_lt h
  rw [linspace, List.head?_map, List.head?_range, if_neg (by omega), Option.map_some, Nat.cast_zero,
    zero_div]

theorem one_mem_linspace (h : 2 ≤ n) : (1 : K) ∈ linspace n := by
  refine List.mem_map.mpr ⟨n - 1, List.mem_range.mpr (by omega), ?_⟩
  have hn : (2 : K) ≤ n := by exact_mod_cast h
  rw [Nat.cast_sub (by omega), Nat.cast_one]
  exact div_self (by linarith)

end

/-- `geometric_decay` (`math_utils.py:44-50`) -/
def geometric_decay {K : Type*} [DivisionRing K] (n : ℕ) (decay : K) : List K :=
  let weights := (List.range n).map fun i : ℕ => decay ^ i
  weights.map fun w => w / weights.sum

/-- `np.mean` -/
def mean {K : Type*} [DivisionRing K] (l : List K) : K := l.sum / l.length

/-- The square of `np.std`. -/
def variance {K : Type*} [DivisionRing K] (l : List K) : K :=
  mean (l.map fun x => (x - mean l) ^ 2)

end Meridian
