import Mathlib.Algebra.Group.Nat.Defs
import Mathlib.Data.List.Basic
import Mathlib.Data.List.Induction
import Mathlib.Data.Nat.Notation
import Mathlib.Order.Nat
import Mathlib.Tactic.Common

/-!
# Reading a number off a text

`strtol` and `strtoul` of the C library, before their range checks: white space, a sign, `0x` for base
16, and then as many digits as there are. `strto_digits`: digits that no further digit follows are read
as their value, in any spelling.
-/

namespace Meridian.Numeral

/-- `isspace` -/
def isspace (c : UInt8) : Bool := c = 32 || (9 ≤ c && c ≤ 13)

/-- The value of a digit. -/
def digit (c : UInt8) : Option ℕ :=
  if 48 ≤ c ∧ c ≤ 57 then some (c.toNat - 48)
  else if 65 ≤ c ∧ c ≤ 90 then some (c.toNat - 55)
  else if 97 ≤ c ∧ c ≤ 122 then some (c.toNat - 87)
  else none

/-- `c` is a digit of the base. -/
def isDigit (base : ℕ) (c : UInt8) : Bool := (digit c).any (· < base)

/-- The value of a row of digits. -/
def value (base : ℕ) (l : List UInt8) : ℕ := l.foldl (fun n c => n * base + (digit c).getD 0) 0

/-- A sign, and what follows it. -/
def sign : List UInt8 → Bool × List UInt8
  | [] => (false, [])
  | c :: l => if c = 45 then (true, l) else if c = 43 then (false, l) else (false, c :: l)

/-- `0x` before a digit, which only base 16 knows. -/
def skip0x (base : ℕ) : List UInt8 → List UInt8
  | z :: x :: c :: l =>
    if base = 16 ∧ z = 48 ∧ (x = 120 ∨ x = 88) ∧ isDigit 16 c then c :: l else z :: x :: c :: l
  | l => l

/-- The sign of a number and its absolute value; `none` where there are no digits. -/
def strto (base : ℕ) (s : List UInt8) : Option (Bool × ℕ) :=
  let signed := sign (s.dropWhile isspace)
  let digits := (skip0x base signed.2).takeWhile (isDigit base)
  if digits = [] then none else some (signed.1, value base digits)

theorem value_concat (base : ℕ) (l : List UInt8) (c : UInt8) :
    value base (l ++ [c]) = value base l * base + (digit c).getD 0 := List.foldl_concat _ _ _ _

theorem value_lt {base : ℕ} {l : List UInt8} (hl : ∀ c ∈ l, isDigit base c = true) :
    value base l < base ^ l.length := by
  induction l using List.reverseRecOn with
  | nil => exact Nat.one_pos
  | append_singleton l c ih =>
    have ih := ih fun c hc => hl c (List.mem_append_left _ hc)
    have hc := hl c (List.mem_append_right _ (List.mem_singleton_self c))
    obtain ⟨d, hd, hlt⟩ := (Option.any_eq_true _ _).mp hc
    have hlt : d < base := of_decide_eq_true hlt
    rw [value_concat, hd, Option.getD_some, List.length_append, List.length_singleton, Nat.pow_succ]
    calc value base l * base + d < value base l * base + base := Nat.add_lt_add_left hlt _
      _ = (value base l + 1) * base := (Nat.succ_mul _ _).symm
      _ ≤ base ^ l.length * base := Nat.mul_le_mul_right _ ih

/-- What is no digit of base 16, as far as texts are made of it. -/
theorem isDigit_sixteen {c : UInt8} (h : isDigit 16 c = true) :
    isspace c = false ∧ c ≠ 45 ∧ c ≠ 43 ∧ c ≠ 120 ∧ c ≠ 88 ∧ c ≠ 10 ∧ c ≠ 13 := by
  have hall : ∀ n < 256, isDigit 16 (UInt8.ofNat n) = true →
      isspace (UInt8.ofNat n) = false ∧ UInt8.ofNat n ≠ 45 ∧ UInt8.ofNat n ≠ 43 ∧
        UInt8.ofNat n ≠ 120 ∧ UInt8.ofNat n ≠ 88 ∧ UInt8.ofNat n ≠ 10 ∧ UInt8.ofNat n ≠ 13 := by
    decide +kernel
  have hc := hall c.toNat c.toNat_lt
  rw [UInt8.ofNat_toNat] at hc
  exact hc h

theorem isDigit_mono {base base' : ℕ} (hle : base ≤ base') {c : UInt8}
    (h : isDigit base c = true) : isDigit base' c = true := by
  unfold isDigit at h ⊢
  rw [Option.any_eq_true] at h ⊢
  obtain ⟨d, hd, hlt⟩ := h
  exact ⟨d, hd, decide_eq_true ((of_decide_eq_true hlt).trans_le hle)⟩

/-- A text that begins with a digit has neither white space nor a sign there. -/
theorem sign_dropWhile {base : ℕ} (hbase : base ≤ 16) {c : UInt8} (hc : isDigit base c = true)
    (l : List UInt8) : sign ((c :: l).dropWhile isspace) = (false, c :: l) := by
  obtain ⟨hspace, h45, h43, -⟩ := isDigit_sixteen (isDigit_mono hbase hc)
  rw [List.dropWhile_cons_of_neg (by rw [hspace]; decide), sign, if_neg h45, if_neg h43]

/-- What follows the digits: nothing, or neither a digit nor an `x`. -/
def Ends (base : ℕ) (rest : List UInt8) : Prop :=
  ∀ c ∈ rest.head?, isDigit base c = false ∧ c ≠ 120 ∧ c ≠ 88

theorem skip0x_digits {base : ℕ} (hbase : base ≤ 16) {l rest : List UInt8}
    (hl : ∀ c ∈ l, isDigit base c = true) (hne : l ≠ []) (hrest : Ends base rest) :
    skip0x base (l ++ rest) = l ++ rest := by
  have hnox : ∀ z x c l', l ++ rest = z :: x :: c :: l' → ¬(x = 120 ∨ x = 88) := by
    intro z x c l' heq hx
    match l, hne with
    | [_], _ =>
      have hrest' : rest = x :: c :: l' := (List.cons.inj heq).2
      obtain ⟨-, h120, h88⟩ := hrest x (by rw [hrest']; rfl)
      exact hx.elim h120 h88
    | _ :: d :: _, _ =>
      obtain ⟨-, htail⟩ := List.cons.inj heq
      obtain ⟨rfl, -⟩ := List.cons.inj htail
      have hd := hl d (List.mem_cons_of_mem _ (List.mem_cons_self ..))
      obtain ⟨-, -, -, h120, h88, -⟩ := isDigit_sixteen (isDigit_mono hbase hd)
      exact hx.elim h120 h88
  match h : l ++ rest with
  | [] | [_] | [_, _] => rfl
  | z :: x :: c :: l' => exact if_neg fun hx => hnox z x c l' h hx.2.2.1

theorem takeWhile_digits {base : ℕ} {l rest : List UInt8} (hl : ∀ c ∈ l, isDigit base c = true)
    (hrest : Ends base rest) : (l ++ rest).takeWhile (isDigit base) = l := by
  rw [List.takeWhile_append_of_pos hl]
  cases rest with
  | nil => exact List.append_nil l
  | cons c rest =>
    have hc := (hrest c rfl).1
    rw [List.takeWhile_cons_of_neg (by rw [hc]; decide), List.append_nil]

/-- **Digits are read as their value**, whatever their spelling. -/
theorem strto_digits {base : ℕ} (hbase : base ≤ 16) {l rest : List UInt8}
    (hl : ∀ c ∈ l, isDigit base c = true) (hne : l ≠ []) (hrest : Ends base rest) :
    strto base (l ++ rest) = some (false, value base l) := by
  have hsign : sign ((l ++ rest).dropWhile isspace) = (false, l ++ rest) := by
    cases l with
    | nil => exact absurd rfl hne
    | cons c l => exact sign_dropWhile hbase (hl c (List.mem_cons_self ..)) _
  unfold strto
  simp only [hsign, skip0x_digits hbase hl hne hrest, takeWhile_digits hl hrest, if_neg hne]

end Meridian.Numeral
