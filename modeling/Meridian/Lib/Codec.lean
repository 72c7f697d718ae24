import Mathlib.Data.Rat.Defs
import Mathlib.Logic.Equiv.Defs
import Mathlib.Tactic.Common

/-!
# Validated documents and partial updates

A document is a tree of JSON values. A `Codec A` writes a value of `A` as a document (`dump`) and
reads one back, or rejects it (`validate`); a class of named fields with defaults is a codec built
from those of its fields (`Fields`, `Codec.model`). What is read may leave fields out, so a codec
also says what a **partial update** of a value is (`Updated`): the document's value at every field
it names, at any depth, and the old value at every other. Lists are keyed (`Codec.keyed`): an item
updates the entry of its key, and entries without an item stay. Reading a partial document is no such
update, since what it leaves out gets its default (`Codec.updated_iff`), nor is replacing the named
fields of a dumped value before it is read (`Fields.updated_iff_of_update`).
-/

namespace Meridian

/-! ## Documents -/

/-- A document. -/
inductive Json where
  | null
  | bool (b : Bool)
  | num (q : ℚ)
  | str (s : String)
  | arr (items : List Json)
  | obj (members : List (String × Json))

/-- The members of an object, where a later one replaces an earlier one of its name. -/
abbrev Dict := List (String × Json)

namespace Json

/-- The null value. -/
def isNull : Json → Bool
  | .null => true
  | _ => false

/-- A truth value. -/
def bool? : Json → Option Bool
  | .bool b => some b
  | _ => none

/-- A number. -/
def num? : Json → Option ℚ
  | .num q => some q
  | _ => none

/-- A text. -/
def str? : Json → Option String
  | .str s => some s
  | _ => none

/-- A list. -/
def arr? : Json → Option (List Json)
  | .arr items => some items
  | _ => none

/-- An object. -/
def obj? : Json → Option Dict
  | .obj members => some members
  | _ => none

/-- A number that is natural. -/
def nat? (j : Json) : Option ℕ :=
  j.num?.bind fun q => if (q.num.toNat : ℚ) = q then some q.num.toNat else none

theorem nat?_num (n : ℕ) : (Json.num n).nat? = some n := by
  rw [nat?, num?, Option.bind_some, Rat.num_natCast, Int.toNat_natCast, if_pos rfl]

end Json

namespace Dict

/-- The member of this name. -/
def get : Dict → String → Option Json
  | [], _ => none
  | (k, v) :: d, q => (get d q).or (if k = q then some v else none)

/-- `dict.update`: replace the members that `e` has and add what is new. -/
def update (d e : Dict) : Dict := d ++ e

theorem get_update (d e : Dict) (q : String) :
    (update d e).get q = (e.get q).or (d.get q) := by
  induction d with
  | nil => exact (Option.or_none).symm
  | cons m d ih =>
    obtain ⟨k, v⟩ := m
    show ((update d e).get q).or (if k = q then some v else none) = _
    rw [ih, Option.or_assoc]
    rfl

theorem get_cons_self {k : String} {v : Json} {d : Dict} (h : d.get k = none) :
    Dict.get ((k, v) :: d) k = some v := by
  rw [get, h, if_pos rfl, Option.none_or]

theorem get_cons_of_ne {k q : String} {v : Json} {d : Dict} (h : k ≠ q) :
    Dict.get ((k, v) :: d) q = d.get q := by
  rw [get, if_neg h, Option.or_none]

end Dict

namespace Json

/-- The value at the end of a path of names. -/
def path : Json → List String → Option Json
  | j, [] => some j
  | j, k :: p => (j.obj?.bind fun d => d.get k).bind fun j => j.path p

/-- The document says what is at `p`: it has a value there, or one that is no object above it. -/
def Names (j : Json) (p : List String) : Prop :=
  ∃ q r, p = q ++ r ∧ ∃ x, j.path q = some x ∧ (x.obj? = none ∨ r = [])

theorem eq_obj {j : Json} {d : Dict} (h : j.obj? = some d) : j = .obj d := by
  cases j with
  | obj members => exact congrArg Json.obj (Option.some.inj h)
  | null => cases h
  | bool b => cases h
  | num q => cases h
  | str s => cases h
  | arr items => cases h

end Json

/-! ## Codecs -/

/-- How a type is written as a document, read back and partly updated. `AtDefaults a j`: whatever
`j` does not name has its default in `a`. -/
structure Codec (A : Type*) where
  dump : A → Json
  validate : Json → Option A
  Updated : A → Json → A → Prop
  AtDefaults : A → Json → Prop
  /-- What a dump is read as, if it is accepted. -/
  reread {a b : A} : validate (dump a) = some b → b = a
  /-- **Reading a partial document updates `a`** exactly if what it leaves out is at its default. -/
  updated_iff {a b : A} {j : Json} : validate j = some b → (Updated a j b ↔ AtDefaults a j)

namespace Codec

variable {A : Type*}

/-- A value that is read as a whole. -/
def leaf (dump : A → Json) (validate : Json → Option A)
    (reread : ∀ {a b : A}, validate (dump a) = some b → b = a) : Codec A where
  dump := dump
  validate := validate
  Updated _ j b := validate j = some b
  AtDefaults _ _ := True
  reread := reread
  updated_iff h := iff_of_true h trivial

/-- A number. -/
def rational : Codec ℚ := leaf Json.num Json.num? fun h => (Option.some.inj h).symm

/-- Keep a value that meets the constraint. -/
def check (p : A → Prop) [DecidablePred p] (a : A) : Option {a : A // p a} :=
  if h : p a then some ⟨a, h⟩ else none

theorem check_val {p : A → Prop} [DecidablePred p] (a : {a : A // p a}) : check p a.1 = some a :=
  dif_pos a.2

/-- A number with a constraint. -/
def number (p : ℚ → Prop) [DecidablePred p] : Codec {q : ℚ // p q} :=
  leaf (fun a => .num a.1) (fun j => j.num?.bind (check p)) fun h =>
    (Option.some.inj ((check_val _).symm.trans h)).symm

/-- A natural number with a constraint. -/
def natural (p : ℕ → Prop) [DecidablePred p] : Codec {n : ℕ // p n} :=
  leaf (fun a => .num a.1) (fun j => j.nat?.bind (check p)) fun h => by
    rw [Json.nat?_num, Option.bind_some, check_val] at h
    exact (Option.some.inj h).symm

/-- A truth value. -/
def boolean : Codec Bool := leaf Json.bool Json.bool? fun h => (Option.some.inj h).symm

/-- A text. -/
def string : Codec String := leaf Json.str Json.str? fun h => (Option.some.inj h).symm

/-- One of the values listed, each under its own text. -/
def literal (values : List A) (text : A → String) (inj : Function.Injective text) : Codec A :=
  leaf (fun a => .str (text a)) (fun j => j.str?.bind fun s => values.find? fun a => text a = s)
    fun {a b} h => by
      rw [Json.str?, Option.bind_some] at h
      have hb := List.find?_some h
      exact inj (of_decide_eq_true hb)

/-- A value that may be null. -/
def nullable (c : Codec A) (hc : ∀ a, (c.dump a).isNull = false) : Codec (Option A) :=
  leaf (fun a => a.elim .null c.dump)
    (fun j => if j.isNull then some none else (c.validate j).map some)
    fun {a b} h => by
      cases a with
      | none => exact (Option.some.inj h).symm
      | some a =>
        rw [Option.elim_some, hc, if_neg Bool.false_ne_true] at h
        obtain ⟨a', ha', rfl⟩ := Option.map_eq_some_iff.mp h
        rw [c.reread ha']

/-- Read every document of a list. -/
def validateAll (c : Codec A) : List Json → Option (List A)
  | [] => some []
  | j :: js =>
    match c.validate j, c.validateAll js with
    | some a, some as => some (a :: as)
    | _, _ => none

theorem validateAll_cons {c : Codec A} {j : Json} {js : List Json} {l : List A}
    (h : c.validateAll (j :: js) = some l) :
    ∃ a as, c.validate j = some a ∧ c.validateAll js = some as ∧ l = a :: as := by
  rw [validateAll] at h
  split at h
  · rename_i a as ha has
    exact ⟨a, as, ha, has, (Option.some.inj h).symm⟩
  · cases h

theorem validateAll_map_dump (c : Codec A) {l l' : List A}
    (h : c.validateAll (l.map c.dump) = some l') : l' = l := by
  induction l generalizing l' with
  | nil => exact (Option.some.inj h).symm
  | cons a l ih =>
    obtain ⟨b, bs, hb, hbs, rfl⟩ := validateAll_cons h
    rw [c.reread hb, ih hbs]

/-- Among dumped values, one document. -/
theorem validateAll_insert {c : Codec A} {l₁ l₂ l : List A} {j : Json}
    (h : c.validateAll (l₁.map c.dump ++ j :: l₂.map c.dump) = some l) :
    ∃ a, c.validate j = some a ∧ l = l₁ ++ a :: l₂ := by
  induction l₁ generalizing l with
  | nil =>
    obtain ⟨a, as, ha, has, rfl⟩ := validateAll_cons h
    exact ⟨a, ha, by rw [c.validateAll_map_dump has]; rfl⟩
  | cons x l₁ ih =>
    obtain ⟨y, as, hy, has, rfl⟩ := validateAll_cons h
    obtain ⟨a, ha, rfl⟩ := ih has
    exact ⟨a, ha, by rw [c.reread hy]; rfl⟩

/-- The items of one key. -/
theorem validateAll_filter {K : Type*} [DecidableEq K] {c : Codec A} {key : A → K}
    {name : Json → Option K} (hname : ∀ {j a}, c.validate j = some a → name j = some (key a))
    {js : List Json} {l : List A} (h : c.validateAll js = some l) (k : K) :
    c.validateAll (js.filter fun j => name j = some k) = some (l.filter fun a => key a = k) := by
  induction js generalizing l with
  | nil =>
    obtain rfl := Option.some.inj h
    rfl
  | cons j js ih =>
    obtain ⟨a, as, ha, has, rfl⟩ := validateAll_cons h
    by_cases hk : key a = k
    · rw [List.filter_cons_of_pos (by simpa [hname ha] using hk),
        List.filter_cons_of_pos (by simpa using hk), validateAll, ha, ih has]
    · rw [List.filter_cons_of_neg (by simpa [hname ha] using hk),
        List.filter_cons_of_neg (by simpa using hk), ih has]

/-- The entries of one key after an update. Each item updates the next entry; entries without an
item stay, and items without an entry are read as new ones. -/
def ItemsUpdated (c : Codec A) : List A → List Json → List A → Prop
  | as, [], bs => bs = as
  | [], j :: js, bs => c.validateAll (j :: js) = some bs
  | a :: as, j :: js, bs => ∃ b bs', bs = b :: bs' ∧ c.Updated a j b ∧ ItemsUpdated c as js bs'

/-- Each entry of one key has an item, and what the item leaves out is at its default. -/
def ItemsAtDefaults (c : Codec A) : List A → List Json → Prop
  | as, [] => as = []
  | [], _ :: _ => True
  | a :: as, j :: js => c.AtDefaults a j ∧ ItemsAtDefaults c as js

theorem itemsUpdated_iff {c : Codec A} {as bs : List A} {js : List Json}
    (h : c.validateAll js = some bs) : c.ItemsUpdated as js bs ↔ c.ItemsAtDefaults as js := by
  induction js generalizing as bs with
  | nil =>
    obtain rfl := Option.some.inj h
    rw [ItemsUpdated, ItemsAtDefaults]
    exact eq_comm
  | cons j js ih =>
    cases as with
    | nil => exact iff_of_true h trivial
    | cons a as =>
      obtain ⟨b, bs, hb, hbs, rfl⟩ := validateAll_cons h
      rw [ItemsUpdated, ItemsAtDefaults, ← c.updated_iff hb, ← ih hbs]
      constructor
      · rintro ⟨b', bs', heq, hup⟩
        obtain ⟨rfl, rfl⟩ := List.cons.inj heq
        exact hup
      · exact fun hup => ⟨b, bs, rfl, hup⟩

/-- A list with a constraint whose entries are told apart by a key, which `name` reads from their
documents. -/
def keyed {K : Type*} [DecidableEq K] (c : Codec A) (key : A → K) (name : Json → Option K)
    (hname : ∀ {j a}, c.validate j = some a → name j = some (key a)) (p : List A → Bool) :
    Codec (List A) where
  dump l := .arr (l.map c.dump)
  validate j := (j.arr?.bind c.validateAll).filter p
  Updated a j b := ∃ js, j.arr? = some js ∧ ∀ k,
    c.ItemsUpdated (a.filter fun x => key x = k) (js.filter fun x => name x = some k)
      (b.filter fun x => key x = k)
  AtDefaults a j := ∃ js, j.arr? = some js ∧ ∀ k,
    c.ItemsAtDefaults (a.filter fun x => key x = k) (js.filter fun x => name x = some k)
  reread h := c.validateAll_map_dump (Option.filter_eq_some_iff.mp h).1
  updated_iff {a b j} h := by
    obtain ⟨js, hjs, hb⟩ := Option.bind_eq_some_iff.mp (Option.filter_eq_some_iff.mp h).1
    refine exists_congr fun js' => and_congr_right fun hjs' => forall_congr' fun k => ?_
    obtain rfl := Option.some.inj (hjs.symm.trans hjs')
    exact itemsUpdated_iff (validateAll_filter hname hb k)

end Codec

/-! ## Classes of fields -/

/-- The fields of a class, whose values together are a `P`. `AtDefaults` is about all fields,
`NamedAtDefaults` only about what lies below a field that the document names. -/
structure Fields (P : Type*) where
  names : List String
  dump : P → Dict
  read : Dict → Option P
  Updated : P → Dict → P → Prop
  AtDefaults : P → Dict → Prop
  NamedAtDefaults : P → Dict → Prop
  get_dump {p : P} {k : String} : k ∉ names → (dump p).get k = none
  read_congr {d e : Dict} : (∀ k ∈ names, d.get k = e.get k) → read d = read e
  reread {p q : P} : read (dump p) = some q → q = p
  updated_iff {p q : P} {d : Dict} : read d = some q → (Updated p d q ↔ AtDefaults p d)
  updated_iff_of_update {p q : P} {d : Dict} :
    read ((dump p).update d) = some q → (Updated p d q ↔ NamedAtDefaults p d)

/-- One field: its name, how its value is written, and its default if it may be left out. -/
structure FieldInfo (A : Type*) where
  name : String
  codec : Codec A
  default : Option A

namespace FieldInfo

variable {A : Type*} (f : FieldInfo A)

/-- The field's value in an object. -/
def read (d : Dict) : Option A :=
  match d.get f.name with
  | some j => f.codec.validate j
  | none => f.default

/-- The document's value where it names the field, the old value otherwise. -/
def Updated (a : A) (d : Dict) (b : A) : Prop :=
  match d.get f.name with
  | some j => f.codec.Updated a j b
  | none => b = a

/-- What the document does not name of the field is at its default. -/
def AtDefaults (a : A) (d : Dict) : Prop :=
  match d.get f.name with
  | some j => f.codec.AtDefaults a j
  | none => f.default = some a

/-- The same, if the document names the field. -/
def NamedAtDefaults (a : A) (d : Dict) : Prop :=
  match d.get f.name with
  | some j => f.codec.AtDefaults a j
  | none => True

variable {f} {a b : A} {d : Dict}

theorem updated_iff (h : f.read d = some b) : f.Updated a d b ↔ f.AtDefaults a d := by
  unfold read at h
  unfold Updated AtDefaults
  cases hd : d.get f.name with
  | some j =>
    rw [hd] at h
    exact f.codec.updated_iff h
  | none =>
    rw [hd] at h
    show b = a ↔ f.default = some a
    rw [show f.default = some b from h]
    exact ⟨fun hb => hb ▸ rfl, Option.some.inj⟩

/-- An update that does not name the field keeps the dumped value. -/
theorem kept {e : Dict} (he : e.get f.name = some (f.codec.dump a)) (hd : d.get f.name = none)
    (h : f.read (e.update d) = some b) : b = a := by
  unfold read at h
  rw [Dict.get_update, he, hd] at h
  exact f.codec.reread h

/-- An update of an object that holds the dumped value. -/
theorem updated_iff_of_update {e : Dict} (he : e.get f.name = some (f.codec.dump a))
    (h : f.read (e.update d) = some b) : f.Updated a d b ↔ f.NamedAtDefaults a d := by
  unfold read at h
  unfold Updated NamedAtDefaults
  rw [Dict.get_update, he] at h
  cases hd : d.get f.name with
  | some j =>
    rw [hd] at h
    exact f.codec.updated_iff h
  | none =>
    rw [hd] at h
    exact iff_of_true (f.codec.reread h) trivial

end FieldInfo

namespace Fields

variable {A P : Type*}

/-- The values of the fields. -/
abbrev Values (_ : Fields P) : Type _ := P

/-- No fields. -/
def nil : Fields Unit where
  names := []
  dump _ := []
  read _ := some ()
  Updated _ _ _ := True
  AtDefaults _ _ := True
  NamedAtDefaults _ _ := True
  get_dump _ := rfl
  read_congr _ := rfl
  reread _ := rfl
  updated_iff _ := Iff.rfl
  updated_iff_of_update _ := Iff.rfl

/-- Both are there. -/
def pair (a : Option A) (p : Option P) : Option (A × P) := a.bind fun a => p.map fun p => (a, p)

theorem pair_eq_some {a : Option A} {p : Option P} {x : A × P} (h : pair a p = some x) :
    a = some x.1 ∧ p = some x.2 := by
  obtain ⟨a', ha, hp⟩ := Option.bind_eq_some_iff.mp h
  obtain ⟨p', hp', rfl⟩ := Option.map_eq_some_iff.mp hp
  exact ⟨ha, hp'⟩

/-- One more field in front. -/
def cons (f : FieldInfo A) (fs : Fields P) (hf : f.name ∉ fs.names := by decide) :
    Fields (A × P) where
  names := f.name :: fs.names
  dump x := (f.name, f.codec.dump x.1) :: fs.dump x.2
  read d := pair (f.read d) (fs.read d)
  Updated x d y := f.Updated x.1 d y.1 ∧ fs.Updated x.2 d y.2
  AtDefaults x d := f.AtDefaults x.1 d ∧ fs.AtDefaults x.2 d
  NamedAtDefaults x d := f.NamedAtDefaults x.1 d ∧ fs.NamedAtDefaults x.2 d
  get_dump {x k} hk := by
    have hne : f.name ≠ k := fun h => hk (h ▸ List.mem_cons_self)
    rw [Dict.get_cons_of_ne hne]
    exact fs.get_dump fun h => hk (List.mem_cons_of_mem _ h)
  read_congr h := by
    have hread : fs.read _ = fs.read _ := fs.read_congr fun k hk => h k (List.mem_cons_of_mem _ hk)
    rw [hread, FieldInfo.read, FieldInfo.read, h f.name List.mem_cons_self]
  reread {x y} h := by
    obtain ⟨hf', hfs⟩ := pair_eq_some h
    rw [FieldInfo.read, Dict.get_cons_self (fs.get_dump hf)] at hf'
    have hrest : fs.read ((f.name, f.codec.dump x.1) :: fs.dump x.2) = fs.read (fs.dump x.2) :=
      fs.read_congr fun k hk => Dict.get_cons_of_ne fun h => hf (h ▸ hk)
    rw [hrest] at hfs
    exact Prod.ext (f.codec.reread hf') (fs.reread hfs)
  updated_iff h := by
    obtain ⟨hf', hfs⟩ := pair_eq_some h
    exact and_congr (FieldInfo.updated_iff hf') (fs.updated_iff hfs)
  updated_iff_of_update {x y d} h := by
    obtain ⟨hf', hfs⟩ := pair_eq_some h
    have hrest : fs.read (Dict.update ((f.name, f.codec.dump x.1) :: fs.dump x.2) d) =
        fs.read (Dict.update (fs.dump x.2) d) := fs.read_congr fun k hk => by
      have hne : f.name ≠ k := fun h => hf (h ▸ hk)
      rw [Dict.get_update, Dict.get_update, Dict.get_cons_of_ne hne]
    rw [hrest] at hfs
    refine and_congr (FieldInfo.updated_iff_of_update ?_ hf') (fs.updated_iff_of_update hfs)
    exact Dict.get_cons_self (fs.get_dump hf)

theorem read_cons {f : FieldInfo A} {fs : Fields P} {hf : f.name ∉ fs.names} {d : Dict} {x : A × P}
    (h : (cons f fs hf).read d = some x) : f.read d = some x.1 ∧ fs.read d = some x.2 :=
  pair_eq_some h

end Fields

namespace Codec

variable {A P K : Type*}

/-- The members of a dictionary, in the order of its keys. -/
def dumpEntries (keys : List K) (text : K → String) (c : Codec A) (a : K → Option A) : Dict :=
  keys.filterMap fun k => (a k).map fun x => (text k, c.dump x)

theorem get_dumpEntries_of_not_mem {keys : List K} {text : K → String} (c : Codec A)
    (a : K → Option A) (inj : Function.Injective text) {k : K} (hk : k ∉ keys) :
    (dumpEntries keys text c a).get (text k) = none := by
  induction keys with
  | nil => rfl
  | cons k' keys ih =>
    have hne : k' ≠ k := fun h => hk (h ▸ List.mem_cons_self)
    have hrest := ih fun h => hk (List.mem_cons_of_mem _ h)
    cases hak : a k' with
    | none =>
      rw [dumpEntries, List.filterMap_cons_none (by rw [hak]; rfl)]
      exact hrest
    | some x =>
      rw [dumpEntries, List.filterMap_cons_some (by rw [hak]; rfl),
        Dict.get_cons_of_ne fun h => hne (inj h)]
      exact hrest

theorem get_dumpEntries {keys : List K} (text : K → String) (c : Codec A) (a : K → Option A)
    (inj : Function.Injective text) {k : K} (hk : k ∈ keys) :
    (dumpEntries keys text c a).get (text k) = (a k).map c.dump := by
  induction keys with
  | nil => exact absurd hk List.not_mem_nil
  | cons k' keys ih =>
    by_cases hrest : k ∈ keys
    · -- the later member decides
      cases hak : a k' with
      | none =>
        rw [dumpEntries, List.filterMap_cons_none (by rw [hak]; rfl)]
        exact ih hrest
      | some x =>
        rw [dumpEntries, List.filterMap_cons_some (by rw [hak]; rfl), Dict.get]
        refine (congrArg (fun o => Option.or o _) (ih hrest)).trans ?_
        by_cases hkk : k' = k
        · subst hkk
          rw [hak, if_pos rfl]
          rfl
        · rw [if_neg fun h => hkk (inj h), Option.or_none]
    · obtain rfl : k = k' := (List.mem_cons.mp hk).resolve_right hrest
      have hnone := get_dumpEntries_of_not_mem c a inj hrest
      cases hak : a k with
      | none =>
        rw [dumpEntries, List.filterMap_cons_none (by rw [hak]; rfl)]
        exact hnone
      | some x =>
        rw [dumpEntries, List.filterMap_cons_some (by rw [hak]; rfl)]
        exact Dict.get_cons_self hnone

/-- All members have known keys and acceptable values. -/
def acceptsEntries (keys : List K) (text : K → String) (c : Codec A) (d : Dict) : Bool :=
  (d.all fun m => keys.any fun k => text k = m.1) &&
    keys.all fun k => ((d.get (text k)).map fun j => (c.validate j).isSome).getD true

/-- An entry after an update: a new one is read as a whole. -/
def EntryUpdated (c : Codec A) (a : Option A) (j : Option Json) (b : Option A) : Prop :=
  match j, a with
  | none, a => b = a
  | some j, none => b = c.validate j
  | some j, some x => ∃ y, b = some y ∧ c.Updated x j y

/-- An entry that the document does not name is absent; of another the rest is at its default. -/
def EntryAtDefaults (c : Codec A) (a : Option A) (j : Option Json) : Prop :=
  match j, a with
  | none, a => a = none
  | some _, none => True
  | some j, some x => c.AtDefaults x j

theorem entryUpdated_iff {c : Codec A} {a : Option A} {j : Option Json}
    (h : (j.map fun j => (c.validate j).isSome).getD true = true) :
    EntryUpdated c a j (j.bind c.validate) ↔ EntryAtDefaults c a j := by
  cases j with
  | none => exact eq_comm
  | some j =>
    cases a with
    | none => exact iff_of_true rfl trivial
    | some x =>
      obtain ⟨y, hy⟩ := Option.isSome_iff_exists.mp h
      show (∃ y', c.validate j = some y' ∧ c.Updated x j y') ↔ c.AtDefaults x j
      rw [← c.updated_iff hy, hy]
      constructor
      · rintro ⟨y', hy', hup⟩
        obtain rfl := Option.some.inj hy'
        exact hup
      · exact fun hup => ⟨y, rfl, hup⟩

/-- A dictionary with these keys, each under its own text, and values of one class. -/
def entries (keys : List K) (text : K → String) (c : Codec A) (all : ∀ k, k ∈ keys)
    (inj : Function.Injective text) : Codec (K → Option A) where
  dump a := .obj (dumpEntries keys text c a)
  validate j := (j.obj?.filter fun d => acceptsEntries keys text c d).map fun d k =>
    (d.get (text k)).bind c.validate
  Updated a j b := ∃ d, j.obj? = some d ∧ ∀ k, EntryUpdated c (a k) (d.get (text k)) (b k)
  AtDefaults a j := ∃ d, j.obj? = some d ∧ ∀ k, EntryAtDefaults c (a k) (d.get (text k))
  reread {a b} h := by
    obtain ⟨d, hd, rfl⟩ := Option.map_eq_some_iff.mp h
    obtain ⟨hobj, hacc⟩ := Option.filter_eq_some_iff.mp hd
    obtain rfl := Option.some.inj hobj
    funext k
    have hget := get_dumpEntries text c a inj (all k)
    have hk := List.all_eq_true.mp (Bool.and_eq_true_iff.mp hacc).2 k (all k)
    rw [hget] at hk ⊢
    cases hak : a k with
    | none => rfl
    | some x =>
      rw [hak] at hk
      obtain ⟨y, hy⟩ := Option.isSome_iff_exists.mp hk
      rw [Option.map_some, Option.bind_some, hy, c.reread hy]
  updated_iff {a b j} h := by
    obtain ⟨d, hd, rfl⟩ := Option.map_eq_some_iff.mp h
    obtain ⟨hobj, hacc⟩ := Option.filter_eq_some_iff.mp hd
    refine exists_congr fun d' => and_congr_right fun hd' => forall_congr' fun k => ?_
    obtain rfl := Option.some.inj (hobj.symm.trans hd')
    have hk := List.all_eq_true.mp (Bool.and_eq_true_iff.mp hacc).2 k (all k)
    exact entryUpdated_iff hk

/-- A dictionary of any documents. -/
def dictionary : Codec Dict where
  dump := .obj
  validate := Json.obj?
  Updated a j b :=
    (∀ p x, j.path p = some x → x.obj? = none → (Json.obj b).path p = some x) ∧
    ∀ p x, (Json.obj a).path p = some x → x.obj? = none → ¬j.Names p → (Json.obj b).path p = some x
  AtDefaults a j := ∀ p x, (Json.obj a).path p = some x → x.obj? = none → j.Names p
  reread h := (Option.some.inj h).symm
  updated_iff {a b j} h := by
    obtain rfl := Json.eq_obj h
    constructor
    · rintro ⟨-, hold⟩ p x hx hleaf
      by_contra hn
      exact hn ⟨p, [], (List.append_nil p).symm, x, hold p x hx hleaf hn, Or.inr rfl⟩
    · intro hall
      exact ⟨fun p x hx _ => hx, fun p x hx hleaf hn => absurd (hall p x hx hleaf) hn⟩

/-- A class with these fields; `p` checks the fields that a document names against others. -/
def model (fs : Fields P) (e : A ≃ P) (p : Dict → A → Bool) : Codec A where
  dump a := .obj (fs.dump (e a))
  validate j := j.obj?.bind fun d => ((fs.read d).map e.symm).filter (p d)
  Updated a j b := ∃ d, j.obj? = some d ∧ fs.Updated (e a) d (e b)
  AtDefaults a j := ∃ d, j.obj? = some d ∧ fs.AtDefaults (e a) d
  reread {a b} h := by
    obtain ⟨x, hx, rfl⟩ := Option.map_eq_some_iff.mp (Option.filter_eq_some_iff.mp h).1
    rw [fs.reread hx, e.symm_apply_apply]
  updated_iff {a b j} h := by
    obtain ⟨d, hd, hb⟩ := Option.bind_eq_some_iff.mp h
    obtain ⟨x, hx, rfl⟩ := Option.map_eq_some_iff.mp (Option.filter_eq_some_iff.mp hb).1
    rw [e.apply_symm_apply]
    exact exists_congr fun d' => and_congr_right fun hd' => by
      obtain rfl := Option.some.inj (hd.symm.trans hd')
      exact fs.updated_iff hx

end Codec

end Meridian
