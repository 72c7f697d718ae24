import Mathlib.Data.List.Nodup
import Mathlib.Tactic.Tauto

/-!
# Dictionaries keyed by their values

A dictionary whose entries are stored under a key that the value itself carries (`d[a.id] = a`):
a list of values with distinct keys, in insertion order. `set` writes in place when the key is
there and appends otherwise, `erase` drops a key, and the distinctness of the keys is a field, so
no lookup ever meets two entries.
-/

namespace Meridian

variable {α κ : Type*} {key : α → κ}

/-- Values with distinct keys, in insertion order. -/
structure Keyed (key : α → κ) where
  toList : List α
  nodup : (toList.map key).Nodup

namespace Keyed

/-- The empty dictionary. -/
def empty : Keyed key := ⟨[], List.nodup_nil⟩

/-- The keys, in insertion order. -/
def keys (d : Keyed key) : List κ := d.toList.map key

variable {d : Keyed key} {a x y : α} {k : κ}

instance : Inhabited (Keyed key) := ⟨empty⟩

instance : Membership α (Keyed key) := ⟨fun d a => a ∈ d.toList⟩

theorem mem_def : a ∈ d ↔ a ∈ d.toList := Iff.rfl

@[simp] theorem toList_empty : (empty : Keyed key).toList = [] := rfl

@[simp] theorem not_mem_empty : a ∉ (empty : Keyed key) := List.not_mem_nil

theorem mem_keys : k ∈ d.keys ↔ ∃ a ∈ d, key a = k := List.mem_map

theorem key_mem (h : a ∈ d) : key a ∈ d.keys := List.mem_map_of_mem h

/-- Two values of one dictionary with one key are the same value. -/
theorem eq_of_key (hx : x ∈ d) (hy : y ∈ d) (h : key x = key y) : x = y :=
  List.inj_on_of_nodup_map d.nodup hx hy h

theorem toList_injective {d d' : Keyed key} (h : d.toList = d'.toList) : d = d' := by
  cases d
  cases d'
  exact (mk.injEq ..).mpr h

variable [DecidableEq κ]

/-- A value is there when it is the only one under its key. -/
theorem filter_key_eq : (d.toList.filter fun x => decide (key x = key a)) = [a] ↔ a ∈ d := by
  have hmem : ∀ x, (x ∈ d.toList.filter fun x => decide (key x = key a)) ↔ x ∈ d ∧ key x = key a :=
    fun x => by rw [List.mem_filter, decide_eq_true_eq]; rfl
  constructor
  · intro h
    exact ((hmem a).mp (h ▸ List.mem_singleton_self a)).1
  · intro ha
    rw [← List.perm_singleton, List.perm_ext_iff_of_nodup
      ((List.Nodup.of_map _ d.nodup).filter _) (List.nodup_singleton a)]
    intro x
    rw [hmem, List.mem_singleton]
    constructor
    · rintro ⟨hx, hk⟩
      exact eq_of_key hx ha hk
    · rintro rfl
      exact ⟨ha, rfl⟩

/-- The keys of a list after `a` is written into it under its key. -/
theorem map_key_write (l : List α) (a : α) :
    (l.map fun x => if key x = key a then a else x).map key = l.map key := by
  rw [List.map_map]
  refine List.map_congr_left fun x _ => ?_
  simp only [Function.comp]
  split
  · rename_i h
    exact h.symm
  · rfl

/-- The value stored under `k`. -/
def find? (d : Keyed key) (k : κ) : Option α := d.toList.find? fun x => decide (key x = k)

/-- `d[key a] = a`. -/
def set (d : Keyed key) (a : α) : Keyed key :=
  if h : key a ∈ d.keys then
    ⟨d.toList.map fun x => if key x = key a then a else x, by rw [map_key_write]; exact d.nodup⟩
  else
    ⟨d.toList ++ [a], by
      rw [List.map_append, List.map_singleton]
      exact d.nodup.append (List.nodup_singleton _) (by simpa [keys] using h)⟩

/-- `d.pop(k, None)`. -/
def erase (d : Keyed key) (k : κ) : Keyed key :=
  ⟨d.toList.filter fun x => decide (key x ≠ k), d.nodup.sublist ((List.filter_sublist).map key)⟩

/-- `{key a: a for a in l}`: a later value replaces an earlier one of its key. -/
def ofList (l : List α) : Keyed key := l.foldl set empty

theorem find?_eq_some : d.find? k = some a ↔ a ∈ d ∧ key a = k := by
  unfold find?
  constructor
  · intro h
    exact ⟨List.mem_of_find?_eq_some h, by simpa using List.find?_some h⟩
  · rintro ⟨hm, rfl⟩
    cases h : d.toList.find? fun x => decide (key x = key a) with
    | none => exact absurd (List.find?_eq_none.mp h a hm) (by simp)
    | some b =>
      have hb : key b = key a := by simpa using List.find?_some h
      rw [eq_of_key (d := d) (List.mem_of_find?_eq_some h) hm hb]

theorem find?_eq_none : d.find? k = none ↔ k ∉ d.keys := by
  unfold find?
  rw [List.find?_eq_none, mem_keys]
  simp [mem_def]

theorem toList_set_of_not_mem (h : key a ∉ d.keys) : (d.set a).toList = d.toList ++ [a] := by
  rw [set, dif_neg h]

theorem mem_set : x ∈ d.set a ↔ x = a ∨ x ∈ d ∧ key x ≠ key a := by
  by_cases h : key a ∈ d.keys
  · obtain ⟨b, hb, hab⟩ := mem_keys.mp h
    rw [mem_def, set, dif_pos h]
    simp only [List.mem_map]
    constructor
    · rintro ⟨y, hy, rfl⟩
      split
      · exact Or.inl rfl
      · rename_i hne
        exact Or.inr ⟨hy, hne⟩
    · rintro (rfl | ⟨hx, hne⟩)
      · exact ⟨b, hb, if_pos hab⟩
      · exact ⟨x, hx, if_neg hne⟩
  · rw [mem_def, toList_set_of_not_mem h, List.mem_append, List.mem_singleton]
    constructor
    · rintro (hx | rfl)
      · exact Or.inr ⟨hx, fun he => h (he ▸ key_mem hx)⟩
      · exact Or.inl rfl
    · rintro (rfl | ⟨hx, -⟩)
      · exact Or.inr rfl
      · exact Or.inl hx

theorem mem_keys_set : k ∈ (d.set a).keys ↔ k = key a ∨ k ∈ d.keys := by
  simp only [mem_keys, mem_set]
  constructor
  · rintro ⟨x, rfl | ⟨hx, -⟩, rfl⟩
    · exact Or.inl rfl
    · exact Or.inr ⟨x, hx, rfl⟩
  · rintro (rfl | ⟨x, hx, rfl⟩)
    · exact ⟨a, Or.inl rfl, rfl⟩
    · by_cases h : key x = key a
      · exact ⟨a, Or.inl rfl, h.symm⟩
      · exact ⟨x, Or.inr ⟨hx, h⟩, rfl⟩

@[simp] theorem toList_erase :
    (d.erase k).toList = d.toList.filter fun x => decide (key x ≠ k) := rfl

theorem mem_erase : x ∈ d.erase k ↔ x ∈ d ∧ key x ≠ k := by
  rw [mem_def, toList_erase, List.mem_filter, decide_eq_true_eq]
  rfl

theorem erase_of_not_mem (h : k ∉ d.keys) : d.erase k = d := by
  obtain ⟨l, hl⟩ := d
  simp only [erase, mk.injEq]
  exact List.filter_eq_self.mpr fun x hx => decide_eq_true fun he => h (he ▸ List.mem_map_of_mem hx)

theorem mem_keys_erase {k' : κ} : k ∈ (d.erase k').keys ↔ k ∈ d.keys ∧ k ≠ k' := by
  simp only [mem_keys, mem_erase]
  constructor
  · rintro ⟨x, ⟨hx, hne⟩, rfl⟩
    exact ⟨⟨x, hx, rfl⟩, hne⟩
  · rintro ⟨⟨x, hx, rfl⟩, hne⟩
    exact ⟨x, ⟨hx, hne⟩, rfl⟩

theorem find?_set : (d.set a).find? k = if k = key a then some a else d.find? k := by
  split
  · rename_i h
    exact find?_eq_some.mpr ⟨mem_set.mpr (Or.inl rfl), h.symm⟩
  · rename_i h
    apply Option.ext
    intro b
    rw [find?_eq_some, find?_eq_some, mem_set]
    constructor
    · rintro ⟨rfl | ⟨hb, -⟩, hk⟩
      · exact absurd hk.symm h
      · exact ⟨hb, hk⟩
    · rintro ⟨hb, hk⟩
      exact ⟨Or.inr ⟨hb, fun he => h (hk ▸ he)⟩, hk⟩

theorem find?_erase {k' : κ} : (d.erase k').find? k = if k = k' then none else d.find? k := by
  apply Option.ext
  intro b
  split
  · rename_i h
    subst h
    rw [find?_eq_some, mem_erase]
    simp only [reduceCtorEq, iff_false]
    rintro ⟨⟨-, hne⟩, hk⟩
    exact hne hk
  · rename_i h
    rw [find?_eq_some, find?_eq_some, mem_erase]
    constructor
    · rintro ⟨⟨hb, -⟩, hk⟩
      exact ⟨hb, hk⟩
    · rintro ⟨hb, hk⟩
      exact ⟨⟨hb, fun he => h (hk ▸ he)⟩, hk⟩

/-! ## Building one from a list -/

theorem toList_foldl_set : ∀ {l : List α} {d : Keyed key}, ((d.toList ++ l).map key).Nodup →
    (l.foldl set d).toList = d.toList ++ l
  | [], d, _ => by simp
  | a :: l, d, h => by
    have ha : key a ∉ d.keys := by
      rw [List.map_append, List.map_cons] at h
      exact fun hm => (List.nodup_append.mp h).2.2 _ hm _ List.mem_cons_self rfl
    rw [List.foldl_cons, toList_foldl_set, toList_set_of_not_mem ha]
    · simp
    · rw [toList_set_of_not_mem ha]
      simpa using h

/-- A list with distinct keys is the dictionary of its values. -/
theorem toList_ofList {l : List α} (h : (l.map key).Nodup) : (ofList l : Keyed key).toList = l := by
  rw [ofList, toList_foldl_set (by simpa using h)]
  rfl

/-- Dropping a list of keys, one after the other. -/
theorem toList_foldl_erase : ∀ {l : List κ} {d : Keyed key},
    (l.foldl erase d).toList = d.toList.filter fun x => decide (key x ∉ l)
  | [], d => by simp
  | k :: l, d => by
    rw [List.foldl_cons, toList_foldl_erase, toList_erase, List.filter_filter]
    refine List.filter_congr fun x _ => ?_
    rw [← Bool.decide_and, decide_eq_decide, List.mem_cons]
    tauto

/-- Writing a value unless its key is there. -/
def add (d : Keyed key) (a : α) : Keyed key := if key a ∈ d.keys then d else d.set a

/-- Adding values with distinct keys appends those whose keys are missing. -/
theorem toList_foldl_add : ∀ {l : List α} {d : Keyed key}, (l.map key).Nodup →
    (l.foldl add d).toList = d.toList ++ l.filter fun x => decide (key x ∉ d.keys)
  | [], d, _ => by simp
  | a :: l, d, h => by
    obtain ⟨ha, hl⟩ := List.nodup_cons.mp h
    rw [List.foldl_cons, toList_foldl_add hl]
    by_cases hk : key a ∈ d.keys
    · rw [List.filter_cons_of_neg (by simpa using hk), add, if_pos hk]
    · rw [List.filter_cons_of_pos (by simpa using hk), add, if_neg hk, toList_set_of_not_mem hk,
        List.append_assoc, List.singleton_append]
      congr 2
      refine List.filter_congr fun x hx => ?_
      have hne : key x ≠ key a := fun he => ha (he ▸ List.mem_map_of_mem hx)
      rw [decide_eq_decide, mem_keys_set]
      tauto

theorem mem_keys_add : k ∈ (d.add a).keys ↔ k ∈ d.keys ∨ k = key a := by
  unfold add
  split
  · rename_i h
    exact ⟨Or.inl, fun hk => hk.elim id fun he => he ▸ h⟩
  · rw [mem_keys_set, or_comm]

theorem mem_keys_foldl_add : ∀ {l : List α} {d : Keyed key},
    k ∈ (l.foldl add d).keys ↔ k ∈ d.keys ∨ k ∈ l.map key
  | [], d => by simp
  | a :: l, d => by
    rw [List.foldl_cons, mem_keys_foldl_add, mem_keys_add, List.map_cons, List.mem_cons, or_assoc]

/-- What is there stays, and what is added is there unless its key was. -/
theorem mem_foldl_add {l : List α} (h : (l.map key).Nodup) :
    x ∈ l.foldl add d ↔ x ∈ d ∨ x ∈ l ∧ key x ∉ d.keys := by
  rw [mem_def, toList_foldl_add h, List.mem_append, List.mem_filter, decide_eq_true_eq]
  rfl

/-! ## Agreement

Two dictionaries agree when every key looks up the same value in both; their values are then the
same up to the order of insertion. -/

/-- Every key looks up the same value. -/
def Agree (d d' : Keyed key) : Prop := ∀ k, d.find? k = d'.find? k

variable {d' : Keyed key}

theorem Agree.refl (d : Keyed key) : Agree d d := fun _ => rfl

theorem Agree.set (h : Agree d d') (a : α) : Agree (d.set a) (d'.set a) := fun k => by
  rw [find?_set, find?_set, h k]

theorem Agree.erase (h : Agree d d') (k' : κ) : Agree (d.erase k') (d'.erase k') := fun k => by
  rw [find?_erase, find?_erase, h k]

theorem Agree.mem (h : Agree d d') : a ∈ d ↔ a ∈ d' := by
  have hk := h (key a)
  constructor
  · intro ha
    rw [find?_eq_some.mpr ⟨ha, rfl⟩] at hk
    exact (find?_eq_some.mp hk.symm).1
  · intro ha
    rw [find?_eq_some.mpr ⟨ha, rfl⟩] at hk
    exact (find?_eq_some.mp hk).1

theorem Agree.perm (h : Agree d d') : d.toList.Perm d'.toList :=
  (List.perm_ext_iff_of_nodup (List.Nodup.of_map _ d.nodup) (List.Nodup.of_map _ d'.nodup)).mpr
    fun _ => h.mem

theorem find?_foldl_set_of_not_mem : ∀ {l : List α} {d : Keyed key}, k ∉ l.map key →
    (l.foldl Keyed.set d).find? k = d.find? k
  | [], _, _ => rfl
  | a :: l, d, h => by
    rw [List.map_cons, List.mem_cons, not_or] at h
    rw [List.foldl_cons, find?_foldl_set_of_not_mem h.2, find?_set, if_neg h.1]

theorem find?_foldl_set_of_mem : ∀ {l : List α} {d d' : Keyed key}, k ∈ l.map key →
    (l.foldl Keyed.set d).find? k = (l.foldl Keyed.set d').find? k
  | a :: l, d, d', h => by
    rw [List.foldl_cons, List.foldl_cons]
    by_cases hl : k ∈ l.map key
    · exact find?_foldl_set_of_mem hl
    · have hk : k = key a := by
        rcases List.mem_cons.mp h with hk | hk
        · exact hk
        · exact absurd hk hl
      rw [find?_foldl_set_of_not_mem hl, find?_foldl_set_of_not_mem hl, find?_set, find?_set,
        if_pos hk, if_pos hk]

/-- Writing a list over a dictionary whose keys the list covers leaves the list's values only. -/
theorem agree_ofList {l : List α} (h : ∀ x ∈ d, key x ∈ l.map key) :
    Agree (l.foldl Keyed.set d) (ofList l) := fun k => by
  by_cases hk : k ∈ l.map key
  · exact find?_foldl_set_of_mem hk
  · have hd : d.find? k = none := find?_eq_none.mpr fun hm => by
      obtain ⟨x, hx, rfl⟩ := mem_keys.mp hm
      exact hk (h x hx)
    rw [ofList, find?_foldl_set_of_not_mem hk, find?_foldl_set_of_not_mem hk, hd]
    rfl

end Keyed

end Meridian
