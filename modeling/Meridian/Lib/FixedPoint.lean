import Mathlib.Data.List.TakeWhile
import Mathlib.Data.Rat.Floor
import Meridian.Lib.HalfEven

/-!
# Numbers with a fixed count of decimals

The text of a number with `places` decimals, the last one rounded half to even (`fixed`), and the number
that such a text denotes (`read`): reading what was written gives the nearest number of that many
decimals (`read_fixed`).
-/

namespace Meridian.FixedPoint

/-- The digits of `n`, at least one in front of the last `places`. -/
def digits (places n : ℕ) : List Char := (Nat.toDigits 10 n).leftpad (places + 1) '0'

/-- Digits with the decimal point in front of the last `places`. -/
def pointed (places : ℕ) (l : List Char) : List Char :=
  if places = 0 then l else l.take (l.length - places) ++ '.' :: l.drop (l.length - places)

/-- `std::fixed` with this precision. -/
def fixed (places : ℕ) (x : ℚ) : String :=
  let text := pointed places (digits places (round_half_even (x * 10 ^ places)).natAbs)
  String.ofList (if x < 0 then '-' :: text else text)

/-- The number that digits with at most one decimal point denote. -/
def readUnsigned (l : List Char) : ℚ :=
  Nat.ofDigitChars 10 (l.filter (· ≠ '.')) 0 / 10 ^ (l.dropWhile (· ≠ '.')).tail.length

/-- The number that a text denotes. -/
def read (s : String) : ℚ :=
  if s.toList.head? = some '-' then -readUnsigned s.toList.tail else readUnsigned s.toList

variable {places n : ℕ} {l : List Char}

theorem ofDigitChars_digits (places n : ℕ) : Nat.ofDigitChars 10 (digits places n) 0 = n := by
  rw [digits, List.leftpad, Nat.ofDigitChars_append, Nat.ofDigitChars_replicate_zero, mul_zero,
    Nat.ofDigitChars_ten_toDigits]

theorem isDigit_of_mem_digits {c : Char} (h : c ∈ digits places n) : c.isDigit = true := by
  rw [digits, List.leftpad, List.mem_append] at h
  rcases h with h | h
  · rw [List.eq_of_mem_replicate h]
    rfl
  · exact Nat.isDigit_of_mem_toDigits (by decide) le_rfl h

theorem lt_length_digits (places n : ℕ) : places < (digits places n).length := by
  rw [digits, List.length_leftpad]
  exact lt_of_lt_of_le (Nat.lt_succ_self places) (le_max_left _ _)

/-- The point is not read, but counts the decimals. -/
theorem readUnsigned_pointed (hdigits : ∀ c ∈ l, c.isDigit = true) (hlen : places ≤ l.length) :
    readUnsigned (pointed places l) = Nat.ofDigitChars 10 l 0 / 10 ^ places := by
  have hpoint : ∀ c ∈ l, decide (c ≠ '.') = true := by
    rintro c hc
    refine decide_eq_true fun he => ?_
    have hdigit := hdigits c hc
    rw [he] at hdigit
    cases hdigit
  unfold readUnsigned pointed
  split
  · rename_i hzero
    rw [List.filter_eq_self.mpr hpoint, List.dropWhile_eq_nil_iff.mpr hpoint, hzero]
    rfl
  · have htake := fun c hc => hpoint c (List.mem_of_mem_take (i := l.length - places) hc)
    have hdrop := fun c hc => hpoint c (List.mem_of_mem_drop (i := l.length - places) hc)
    rw [List.filter_append, List.filter_eq_self.mpr htake, List.dropWhile_append_of_pos htake,
      List.filter_cons_of_neg (by decide), List.filter_eq_self.mpr hdrop, List.take_append_drop,
      List.dropWhile_cons_of_neg (by decide), List.tail_cons, List.length_drop, Nat.sub_sub_self hlen]

theorem readUnsigned_digits (places n : ℕ) :
    readUnsigned (pointed places (digits places n)) = n / 10 ^ places := by
  rw [readUnsigned_pointed (fun c hc => isDigit_of_mem_digits hc) (lt_length_digits places n).le,
    ofDigitChars_digits]

/-- The first character is a digit. -/
theorem head_pointed_digits (places n : ℕ) :
    (pointed places (digits places n)).head? ≠ some '-' := by
  have hlen := lt_length_digits places n
  obtain ⟨c, rest, hcons⟩ := List.exists_cons_of_length_pos (Nat.zero_lt_of_lt hlen)
  have hc : c.isDigit = true := isDigit_of_mem_digits (hcons ▸ List.mem_cons_self)
  have hhead : (pointed places (digits places n)).head? = some c := by
    unfold pointed
    split
    · rw [hcons, List.head?_cons]
    · have hpos : (digits places n).length - places ≠ 0 := Nat.sub_ne_zero_of_lt hlen
      rw [List.head?_append, List.head?_take, if_neg hpos, hcons, List.head?_cons, Option.some_or]
  rw [hhead]
  rintro he
  rw [Option.some.inj he] at hc
  cases hc

/-- **Reading what was written** gives the nearest number with that many decimals. -/
theorem read_fixed (places : ℕ) (x : ℚ) :
    read (fixed places x) = round_half_even (x * 10 ^ places) / 10 ^ places := by
  have hscale : (0 : ℚ) < 10 ^ places := by positivity
  unfold read fixed
  simp only [String.toList_ofList]
  by_cases hx : x < 0
  · have hround : round_half_even (x * 10 ^ places) ≤ 0 := by
      rw [← round_half_even_intCast (K := ℚ) 0, Int.cast_zero]
      exact round_half_even_mono (mul_neg_of_neg_of_pos hx hscale).le
    have habs : ((round_half_even (x * 10 ^ places)).natAbs : ℚ) =
        -round_half_even (x * 10 ^ places) := by
      rw [Nat.cast_natAbs, abs_of_nonpos hround, Int.cast_neg]
    rw [if_pos hx, List.head?_cons, if_pos rfl, List.tail_cons, readUnsigned_digits, habs, neg_div,
      neg_neg]
  · have hround : 0 ≤ round_half_even (x * 10 ^ places) := by
      rw [← round_half_even_intCast (K := ℚ) 0, Int.cast_zero]
      exact round_half_even_mono (mul_nonneg (not_lt.mp hx) hscale.le)
    have habs : ((round_half_even (x * 10 ^ places)).natAbs : ℚ) =
        round_half_even (x * 10 ^ places) := by
      rw [Nat.cast_natAbs, abs_of_nonneg hround]
    rw [if_neg hx, if_neg (head_pointed_digits places _), readUnsigned_digits, habs]

/-- A number that has no more decimals is written as it is. -/
theorem read_fixed_of_units {x : ℚ} {m : ℤ} (h : x * 10 ^ places = m) : read (fixed places x) = x := by
  have hscale : (10 : ℚ) ^ places ≠ 0 := by positivity
  rw [read_fixed, h, round_half_even_intCast, ← h, mul_div_cancel_right₀ x hscale]

end Meridian.FixedPoint
