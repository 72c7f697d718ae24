import Mathlib.Data.List.Basic
import Mathlib.Data.List.TakeWhile
import Mathlib.Data.Nat.Notation

/-!
# A request on the wire

An HTTP/1.1 request as bytes, one on its connection, and how a server reads it.

* `utf8`: a text as bytes; `utf8_append`, `utf8_inj`, `length_utf8`;
* `write`, `read`: a request as it is sent, and what is read of it;
* `read_write`: a clean request is read as it was written.
-/

namespace Meridian.Http

abbrev Bytes := List UInt8

/-! ## Texts -/

/-- The bytes of a text. -/
def utf8 (s : String) : Bytes := s.toList.flatMap String.utf8EncodeChar

theorem utf8_append (s t : String) : utf8 (s ++ t) = utf8 s ++ utf8 t := by
  unfold utf8
  rw [String.toList_append, List.flatMap_append]

theorem toByteArray_utf8 (s : String) : (utf8 s).toByteArray = s.toByteArray :=
  String.utf8Encode_toList

theorem utf8_inj {s t : String} (h : utf8 s = utf8 t) : s = t := by
  rw [← String.toByteArray_inj, ← toByteArray_utf8, h, toByteArray_utf8]

theorem length_utf8 (s : String) : (utf8 s).length = s.utf8ByteSize := by
  rw [← String.size_toByteArray, ← toByteArray_utf8, List.size_toByteArray]

/-- A number in digits. -/
def decimal (n : ℕ) : Bytes := utf8 (toString n)

theorem isDigit_toString (n : ℕ) : ∀ c ∈ (toString n).toList, c.isDigit = true := by
  intro c hc
  have h : (toString n).toList = Nat.toDigits 10 n := Nat.toList_repr
  rw [h] at hc
  exact Nat.isDigit_of_mem_toDigits (by decide) (by decide) hc

theorem utf8EncodeChar_ascii {c : Char} (h : c.toNat < 128) :
    String.utf8EncodeChar c = [UInt8.ofNat c.toNat] := by
  have hle : c.val ≤ 0x7f := Nat.le_of_lt_succ h
  have hsize : c.utf8Size = 1 := by
    rw [Char.utf8Size]
    exact if_pos hle
  rw [String.utf8EncodeChar_eq_singleton hsize]
  rfl

theorem mem_utf8_ascii {s : String} (h : ∀ c ∈ s.toList, c.toNat < 128) {b : UInt8}
    (hb : b ∈ utf8 s) : ∃ c ∈ s.toList, b.toNat = c.toNat := by
  obtain ⟨c, hc, hb⟩ := List.mem_flatMap.mp hb
  rw [utf8EncodeChar_ascii (h c hc), List.mem_singleton] at hb
  exact ⟨c, hc, by rw [hb, UInt8.toNat_ofNat_of_lt' ((h c hc).trans (by decide))]⟩

/-- The bytes of a number are digits. -/
theorem mem_decimal {n : ℕ} {b : UInt8} (hb : b ∈ decimal n) : 48 ≤ b.toNat ∧ b.toNat ≤ 57 := by
  have hdigit : ∀ c ∈ (toString n).toList, 48 ≤ c.toNat ∧ c.toNat ≤ 57 := fun c hc =>
    Char.isDigit_iff_toNat.mp (isDigit_toString n c hc)
  obtain ⟨c, hc, hnat⟩ := mem_utf8_ascii (fun c hc => (hdigit c hc).2.trans_lt (by decide)) hb
  rw [hnat]
  exact hdigit c hc

/-! ## Requests -/

structure Request where
  method : Bytes
  target : Bytes
  headers : List (Bytes × Bytes)
  body : Bytes
  deriving DecidableEq

/-- `HTTP/1.1` -/
def version : Bytes := utf8 "HTTP/1.1"

/-- A letter in lower case. -/
def lower (b : UInt8) : UInt8 := if 65 ≤ b ∧ b ≤ 90 then b + 32 else b

/-- The first header of a name, in any case. -/
def lookup (name : Bytes) : List (Bytes × Bytes) → Option Bytes
  | [] => none
  | h :: headers => if h.1.map lower = name.map lower then some h.2 else lookup name headers

theorem lookup_cons_of_eq {name n value : Bytes} {headers : List (Bytes × Bytes)}
    (h : n.map lower = name.map lower) : lookup name ((n, value) :: headers) = some value := if_pos h

theorem lookup_cons_of_ne {name n value : Bytes} {headers : List (Bytes × Bytes)}
    (h : n.map lower ≠ name.map lower) :
    lookup name ((n, value) :: headers) = lookup name headers := if_neg h

theorem lookup_eq_none {name : Bytes} {headers : List (Bytes × Bytes)}
    (h : ∀ x ∈ headers, x.1.map lower ≠ name.map lower) : lookup name headers = none := by
  induction headers with
  | nil => rfl
  | cons x headers ih =>
    rw [lookup_cons_of_ne (h x List.mem_cons_self)]
    exact ih fun y hy => h y (List.mem_cons_of_mem x hy)

/-- A header of a request. -/
def Request.header (r : Request) (name : Bytes) : Option Bytes := lookup name r.headers

/-- The headers say how long the body is. -/
def Request.framed (r : Request) : Bool :=
  match r.header (utf8 "content-length") with
  | none => r.body.isEmpty
  | some n => decide (n = decimal r.body.length)

def writeField (h : Bytes × Bytes) : Bytes := h.1 ++ [58, 32] ++ h.2 ++ [13, 10]

/-- A request as it is sent. -/
def write (r : Request) : Bytes :=
  r.method ++ 32 :: (r.target ++ 32 :: (version ++ [13, 10])) ++ r.headers.flatMap writeField ++
    [13, 10] ++ r.body

/-! ## Reading -/

/-- A line, and what follows its end. -/
def readLine : Bytes → Option (Bytes × Bytes)
  | [] => none
  | b :: bytes =>
    if b = 13 ∧ bytes.head? = some 10 then some ([], bytes.tail)
    else (readLine bytes).map fun x => (b :: x.1, x.2)

/-- What comes before a byte, and what comes after it. -/
def cut (b : UInt8) (bytes : Bytes) : Bytes × Bytes :=
  (bytes.takeWhile (· ≠ b), (bytes.dropWhile (· ≠ b)).tail)

/-- Without the blanks at both ends. -/
def trim (bytes : Bytes) : Bytes :=
  ((bytes.dropWhile (· = 32)).reverse.dropWhile (· = 32)).reverse

/-- A header line. -/
def readField (line : Bytes) : Option (Bytes × Bytes) :=
  if 58 ∈ line then some ((cut 58 line).1, trim (cut 58 line).2) else none

/-- The header lines up to the empty one, at most `n` of them. -/
def readFields : ℕ → Bytes → Option (List (Bytes × Bytes) × Bytes)
  | 0, _ => none
  | n + 1, bytes => do
    let (line, rest) ← readLine bytes
    if line = [] then some ([], rest)
    else
      let field ← readField line
      let (fields, body) ← readFields n rest
      some (field :: fields, body)

/-- The method and the target of a request line. -/
def readRequestLine (line : Bytes) : Option (Bytes × Bytes) :=
  let (method, rest) := cut 32 line
  let (target, protocol) := cut 32 rest
  if protocol = version then some (method, target) else none

/-- A request, if that is what is on the connection. -/
def read (bytes : Bytes) : Option Request := do
  let (line, rest) ← readLine bytes
  let (method, target) ← readRequestLine line
  let (headers, body) ← readFields rest.length rest
  let r : Request := ⟨method, target, headers, body⟩
  if r.framed then some r else none

/-! ## What is written is read -/

/-- No blank and no end of a line. -/
def Word (bytes : Bytes) : Prop := ∀ b ∈ bytes, b ≠ 32 ∧ b ≠ 13 ∧ b ≠ 10

instance (bytes : Bytes) : Decidable (Word bytes) := List.decidableBAll _ bytes

/-- A request that its writer may send. -/
structure Clean (r : Request) : Prop where
  method : Word r.method
  target : Word r.target
  headers : ∀ h ∈ r.headers, Word h.1 ∧ 58 ∉ h.1 ∧ Word h.2
  framed : r.framed = true

variable {l rest : Bytes} {b : UInt8}

theorem Word.not_mem (h : Word l) : 32 ∉ l ∧ 13 ∉ l :=
  ⟨fun hm => (h 32 hm).1 rfl, fun hm => (h 13 hm).2.1 rfl⟩

theorem word_append {l l' : Bytes} (h : Word l) (h' : Word l') : Word (l ++ l') := fun b hb =>
  (List.mem_append.mp hb).elim (h b) (h' b)

/-- A text of visible ASCII characters. -/
theorem word_utf8 {s : String} (h : ∀ c ∈ s.toList, 32 < c.toNat ∧ c.toNat < 128) :
    Word (utf8 s) := by
  intro b hb
  obtain ⟨c, hc, hnat⟩ := mem_utf8_ascii (fun c hc => (h c hc).2) hb
  have hlo := (h c hc).1
  refine ⟨?_, ?_, ?_⟩ <;> rintro rfl <;> simp at hnat <;> omega

theorem word_decimal (n : ℕ) : Word (decimal n) := by
  intro b hb
  have h := mem_decimal hb
  refine ⟨?_, ?_, ?_⟩ <;> rintro rfl <;> simp at h

theorem readLine_append (h : 13 ∉ l) : readLine (l ++ 13 :: 10 :: rest) = some (l, rest) := by
  induction l with
  | nil => rfl
  | cons b l ih =>
    rw [List.mem_cons, not_or] at h
    obtain ⟨hb, hl⟩ := h
    rw [List.cons_append, readLine, if_neg fun hend => hb hend.1.symm, ih hl]
    rfl

theorem cut_append (h : b ∉ l) : cut b (l ++ b :: rest) = (l, rest) := by
  have hall : ∀ c ∈ l, decide (c ≠ b) = true := fun c hc =>
    decide_eq_true fun he => h (he ▸ hc)
  unfold cut
  rw [List.takeWhile_append_of_pos hall, List.dropWhile_append_of_pos hall]
  simp

theorem cut_of_not_mem (h : b ∉ l) : cut b l = (l, []) := by
  have hall : ∀ c ∈ l, decide (c ≠ b) = true := fun c hc =>
    decide_eq_true fun he => h (he ▸ hc)
  unfold cut
  rw [List.takeWhile_eq_self_iff.mpr hall, List.dropWhile_eq_nil_iff.mpr hall]
  rfl

theorem trim_word (h : Word l) : trim (32 :: l) = l := by
  have hdrop : ∀ l : Bytes, Word l → l.dropWhile (· = 32) = l := fun l hl => by
    cases l with
    | nil => rfl
    | cons b l => simp [(hl b List.mem_cons_self).1]
  have hrev : Word l.reverse := fun b hb => h b (List.mem_reverse.mp hb)
  rw [trim, List.dropWhile_cons_of_pos (by decide), hdrop l h, hdrop _ hrev, List.reverse_reverse]

theorem readRequestLine_write {method target : Bytes} (hm : Word method) (ht : Word target) :
    readRequestLine (method ++ 32 :: (target ++ 32 :: version)) = some (method, target) := by
  unfold readRequestLine
  simp only [cut_append hm.not_mem.1, cut_append ht.not_mem.1, if_true]

theorem readField_write {name value : Bytes} (hname : 58 ∉ name) (hvalue : Word value) :
    readField (name ++ 58 :: 32 :: value) = some (name, value) := by
  unfold readField
  rw [if_pos (by simp), cut_append hname, trim_word hvalue]

/-- The headers are read up to the empty line, and the rest is the body. -/
theorem readFields_write {body : Bytes} : ∀ {headers : List (Bytes × Bytes)} {n : ℕ},
    (∀ h ∈ headers, Word h.1 ∧ 58 ∉ h.1 ∧ Word h.2) → headers.length < n →
    readFields n (headers.flatMap writeField ++ 13 :: 10 :: body) = some (headers, body)
  | [], n + 1, _, _ => by
    rw [readFields, List.flatMap_nil, readLine_append (l := []) List.not_mem_nil]
    rfl
  | h :: headers, n + 1, hclean, hn => by
    obtain ⟨hword, hname, hvalue⟩ := hclean h List.mem_cons_self
    have hline : 13 ∉ h.1 ++ 58 :: 32 :: h.2 := by
      simp [hword.not_mem.2, hvalue.not_mem.2]
    have hsplit : (h :: headers).flatMap writeField ++ 13 :: 10 :: body =
        (h.1 ++ 58 :: 32 :: h.2) ++ 13 :: 10 :: (headers.flatMap writeField ++ 13 :: 10 :: body) := by
      simp [writeField]
    have hrest : readFields n (headers.flatMap writeField ++ 13 :: 10 :: body) =
        some (headers, body) :=
      readFields_write (fun g hg => hclean g (List.mem_cons_of_mem h hg)) (Nat.lt_of_succ_lt_succ hn)
    rw [hsplit, readFields, readLine_append hline]
    simp [readField_write hname hvalue, hrest]

theorem length_le_fields (headers : List (Bytes × Bytes)) :
    headers.length ≤ (headers.flatMap writeField).length := by
  induction headers with
  | nil => exact le_rfl
  | cons h headers ih =>
    simp only [List.flatMap_cons, List.length_append, List.length_cons, writeField]
    omega

/-- **A clean request** is read as it was written, whatever bytes its body has: the server counts
them by the `Content-Length`. -/
theorem read_write {r : Request} (h : Clean r) : read (write r) = some r := by
  obtain ⟨method, target, headers, body⟩ := r
  have hline : 13 ∉ method ++ 32 :: (target ++ 32 :: version) := by
    have hversion : 13 ∉ version := by decide
    simp [h.method.not_mem.2, h.target.not_mem.2, hversion]
  have hsplit : write ⟨method, target, headers, body⟩ =
      (method ++ 32 :: (target ++ 32 :: version)) ++
        13 :: 10 :: (headers.flatMap writeField ++ 13 :: 10 :: body) := by
    simp [write]
  have hfuel : headers.length < (headers.flatMap writeField ++ 13 :: 10 :: body).length := by
    have hle := length_le_fields headers
    simp only [List.length_append, List.length_cons]
    omega
  rw [hsplit, read, readLine_append hline]
  simp only [Option.bind_eq_bind, Option.bind_some, readRequestLine_write h.method h.target,
    readFields_write h.headers hfuel, h.framed, if_true]

end Meridian.Http
