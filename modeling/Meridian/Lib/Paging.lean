import Mathlib.Algebra.Order.Group.Int
import Mathlib.Data.List.Basic
import Meridian.Lib.Keyed
import Meridian.Lib.Run

/-!
# Reading a sorted stream page by page

A source publishes its items one by one, in the order of their keys, and answers a poll with the
first `limit` items it has published from a lower bound on. A reader stores what it gets under the
items' names and asks next from a bound that grows with the last item it has seen (`after`), be it
the key after that item's, or that key again; until it has seen any it asks for those in a window,
which each poll gives and which only moves on.

A bound past the last item's key forgets an item that shares it and is not on that page, whether the
page was full or the item not published yet. One that is that key again gets stuck where a whole
page shares it.

Results:
* `complete_of_whole`: after as many polls as the source has items, all of them published, the reader
  has every item from its first window on if every poll was `Whole`;
* `whole_of_complete`: and only if, where no bound is before the key of its item.
-/

namespace Meridian.Paging

open Meridian.Run

variable {α κ : Type*} {name : α → κ}

/-- What a source publishes, how much of it fits a page, and where a reader asks next. -/
structure Source (name : α → κ) where
  key : α → ℤ
  after : α → ℤ
  stream : List α
  limit : ℕ
  sorted : stream.Pairwise fun a b => key a ≤ key b
  nodup : (stream.map name).Nodup
  limit_pos : 0 < limit
  after_mono : ∀ a ∈ stream, ∀ b ∈ stream, key a ≤ key b → after a ≤ after b

/-- The first items from `low` on, of those published. -/
def Source.page (src : Source name) (visible : ℕ) (low : ℤ) : List α :=
  ((src.stream.take visible).filter fun a => decide (low ≤ src.key a)).take src.limit

@[ext]
structure State (name : α → κ) where
  /-- how many items are published -/
  visible : ℕ
  /-- the first window, and the newest -/
  start : Option ℤ
  window : Option ℤ
  /-- the bound after the items seen -/
  low : Option ℤ
  got : Keyed name

/-- Nothing is published; the reader may have items of its own. -/
def init (got : Keyed name) : State name :=
  { visible := 0, start := none, window := none, low := none, got := got }

inductive Act where
  | publish
  | poll (window : ℤ)

/-- The greater bound. -/
def raise (low : Option ℤ) (n : ℤ) : ℤ := low.elim n fun l => max l n

section
variable [DecidableEq κ] (src : Source name)

/-- One poll. -/
def State.poll (s : State name) (w : ℤ) : State name :=
  let p := src.page s.visible (s.low.getD w)
  { s with
    start := some (s.start.getD w)
    window := some w
    low := (p.getLast?.map fun a => raise s.low (src.after a)).or s.low
    got := p.foldl Keyed.add s.got }

def next (s : State name) : Act → Option (State name)
  | .publish =>
    if s.visible < src.stream.length then some { s with visible := s.visible + 1 } else none
  | .poll w => if ∀ v ∈ s.window, v ≤ w then some (s.poll src w) else none

/-- The items from the first window on. -/
def Young (s : State name) (a : α) : Prop := ∀ w ∈ s.start, w ≤ src.key a

/-- The reader has all of them. -/
def Complete (s : State name) : Prop := ∀ a ∈ src.stream, Young src s a → a ∈ s.got

/-- The page or the reader has every item between the key of the page's last one and the bound after
it; the first window has not moved past an item while there was none to see; and the page is not full
of items that the reader has while there are others from its bound on. -/
def Whole (s : State name) : Act → Prop
  | .publish => True
  | .poll w =>
    (∀ a ∈ (src.page s.visible (s.low.getD w)).getLast?, ∀ b ∈ src.stream,
      src.key a ≤ src.key b → src.key b < src.after a →
        b ∈ src.page s.visible (s.low.getD w) ∨ name b ∈ s.got.keys) ∧
    (s.low = none → ∀ b ∈ src.stream, s.start.getD w ≤ src.key b → w ≤ src.key b) ∧
    ((src.page s.visible (s.low.getD w)).length = src.limit →
      (∀ a ∈ src.page s.visible (s.low.getD w), name a ∈ s.got.keys) →
        ∀ b ∈ src.stream, s.low.getD w ≤ src.key b → name b ∈ s.got.keys)

instance [DecidableEq α] (s : State name) (a : Act) : Decidable (Whole src s a) := by
  unfold Whole
  split
  · infer_instance
  · exact @instDecidableAnd _ _ inferInstance (@instDecidableAnd _ _ inferInstance inferInstance)

end

/-! ## One page -/

variable {src : Source name} {a b : α} {n : ℕ} {low : ℤ}

theorem mem_page (h : a ∈ src.page n low) : a ∈ src.stream.take n ∧ low ≤ src.key a := by
  have hf := List.mem_of_mem_take h
  rw [List.mem_filter, decide_eq_true_eq] at hf
  exact hf

theorem page_sublist : (src.page n low).Sublist src.stream :=
  (List.take_sublist ..).trans (List.filter_sublist.trans (List.take_sublist ..))

theorem mem_stream_of_page (h : a ∈ src.page n low) : a ∈ src.stream := page_sublist.subset h

theorem nodup_page : ((src.page n low).map name).Nodup := src.nodup.sublist (page_sublist.map name)

/-- Two items of one name are one item. -/
theorem eq_of_name (ha : a ∈ src.stream) (hb : b ∈ src.stream) (h : name a = name b) : a = b :=
  List.inj_on_of_nodup_map src.nodup ha hb h

/-- Of a sorted list, what comes before one of the first items is one of them. -/
theorem mem_take_of_lt {key : α → ℤ} {l : List α} (hl : l.Pairwise fun a b => key a ≤ key b)
    (ha : a ∈ l.take n) (hb : b ∈ l) (hlt : key b < key a) : b ∈ l.take n := by
  rw [← List.take_append_drop n l] at hl hb
  rcases List.mem_append.mp hb with hb | hb
  · exact hb
  · have hle := (List.pairwise_append.mp hl).2.2 a ha b hb
    exact absurd hle (Int.not_le.mpr hlt)

/-- What comes before an item of the page is on it too. -/
theorem mem_page_of_lt (ha : a ∈ src.page n low) (hb : b ∈ src.stream) (hlow : low ≤ src.key b)
    (hlt : src.key b < src.key a) : b ∈ src.page n low := by
  have hvis := mem_take_of_lt src.sorted (mem_page ha).1 hb hlt
  refine mem_take_of_lt ?_ ha (List.mem_filter.mpr ⟨hvis, decide_eq_true hlow⟩) hlt
  exact src.sorted.sublist (List.filter_sublist.trans (List.take_sublist n src.stream))

/-- The last item of a page has its largest key. -/
theorem le_getLast (ha : a ∈ src.page n low) (hb : b ∈ (src.page n low).getLast?) :
    src.key a ≤ src.key b := by
  have hsorted := src.sorted.sublist (page_sublist : (src.page n low).Sublist src.stream)
  obtain ⟨l, hl⟩ := List.getLast?_eq_some_iff.mp hb
  rw [hl, List.pairwise_append] at hsorted
  rw [hl] at ha
  rcases List.mem_append.mp ha with ha | ha
  · exact hsorted.2.2 a ha b (List.mem_singleton_self b)
  · obtain rfl := List.mem_singleton.mp ha
    exact Int.le_refl _

/-- A page that is not full has every published item from its bound on. -/
theorem mem_page_of_lt_limit (h : (src.page n low).length < src.limit) (ha : a ∈ src.stream.take n)
    (hlow : low ≤ src.key a) : a ∈ src.page n low := by
  unfold Source.page at h ⊢
  rw [List.length_take, min_lt_iff] at h
  have h := h.resolve_left (lt_irrefl _)
  rw [List.take_of_length_le h.le]
  exact List.mem_filter.mpr ⟨ha, decide_eq_true hlow⟩

/-- A full page stays as it is. -/
theorem page_succ (h : (src.page n low).length = src.limit) :
    src.page (n + 1) low = src.page n low := by
  unfold Source.page at h ⊢
  rw [List.length_take, min_eq_left_iff] at h
  rw [List.take_add_one, List.filter_append, List.take_append_of_le_length h]

/-! ## What every run keeps -/

variable [DecidableEq κ] {s s' : State name} {w : ℤ}

/-- The reader's bound is after every item it has, and of an item it has the name of it has the
item. -/
structure Inv (src : Source name) (s : State name) : Prop where
  before : ∀ a ∈ src.stream, name a ∈ s.got.keys → ∃ l ∈ s.low, src.after a ≤ l
  whole : ∀ a ∈ src.stream, name a ∈ s.got.keys → a ∈ s.got

omit [DecidableEq κ] in
theorem inv_init {got : Keyed name} (hgot : ∀ a ∈ src.stream, name a ∉ got.keys) :
    Inv src (init got) where
  before a ha h := absurd h (hgot a ha)
  whole a ha h := absurd h (hgot a ha)

/-- Neither the bound nor the window is before the first window. -/
structure Opened (s : State name) : Prop where
  start_low : ∀ l ∈ s.low, ∃ v ∈ s.start, v ≤ l
  start_window : ∀ v ∈ s.start, ∃ w ∈ s.window, v ≤ w

omit [DecidableEq κ] in
theorem opened_init (got : Keyed name) : Opened (init got) :=
  ⟨fun _ h => (nomatch h), fun _ h => (nomatch h)⟩

omit [DecidableEq κ] in
/-- The first window is before the bound of the next poll. -/
theorem Opened.start_le (h : Opened s) (hw : ∀ v ∈ s.window, v ≤ w) :
    s.start.getD w ≤ s.low.getD w := by
  cases hl : s.low with
  | none =>
    cases hv : s.start with
    | none => exact Int.le_refl w
    | some v =>
      obtain ⟨u, hu, hvu⟩ := h.start_window v hv
      exact Int.le_trans hvu (hw u hu)
  | some l =>
    obtain ⟨v, hv, hvl⟩ := h.start_low l hl
    rw [Option.mem_def.mp hv]
    exact hvl

theorem le_raise (low : Option ℤ) (n : ℤ) : n ≤ raise low n := by
  cases low with
  | none => exact Int.le_refl n
  | some l => exact le_max_right l n

theorem le_raise_of_mem {low : Option ℤ} {l : ℤ} (hl : l ∈ low) (n : ℤ) : l ≤ raise low n := by
  obtain rfl := Option.mem_def.mp hl
  exact le_max_left l n

theorem raise_cases (low : Option ℤ) (n : ℤ) : raise low n = n ∨ raise low n ∈ low := by
  cases low with
  | none => exact Or.inl rfl
  | some l => exact (max_choice l n).symm.imp_right fun h => congrArg some h.symm

/-- What a poll does to the bound: it is raised to the one after the last item of the page, where
there is one. -/
theorem low_poll (src : Source name) (s : State name) (w : ℤ) :
    (src.page s.visible (s.low.getD w) = [] ∧ (s.poll src w).low = s.low) ∨
      ∃ z ∈ (src.page s.visible (s.low.getD w)).getLast?,
        (s.poll src w).low = some (raise s.low (src.after z)) := by
  simp only [State.poll]
  cases hz : (src.page s.visible (s.low.getD w)).getLast? with
  | none => exact Or.inl ⟨List.getLast?_eq_none_iff.mp hz, rfl⟩
  | some z => exact Or.inr ⟨z, rfl, rfl⟩

/-- The bound does not move back. -/
theorem low_le_poll (src : Source name) {l : ℤ} (hl : l ∈ s.low) :
    ∃ l' ∈ (s.poll src w).low, l ≤ l' := by
  rcases low_poll src s w with ⟨-, hlow⟩ | ⟨z, hz, hlow⟩
  · exact ⟨l, hlow.trans hl, Int.le_refl l⟩
  · exact ⟨_, hlow, le_raise_of_mem hl _⟩

/-- An item whose name the reader has after a poll was there before, or is on the page. -/
theorem mem_page_of_new (ha : a ∈ src.stream) (h : name a ∈ (s.poll src w).got.keys) :
    name a ∈ s.got.keys ∨ a ∈ src.page s.visible (s.low.getD w) := by
  rcases Keyed.mem_keys_foldl_add.mp h with h | h
  · exact Or.inl h
  · obtain ⟨b, hb, hab⟩ := List.mem_map.mp h
    rw [eq_of_name ha (mem_stream_of_page hb) hab.symm]
    exact Or.inr hb

theorem Inv.poll (h : Inv src s) : Inv src (s.poll src w) where
  before a ha hg := by
    rcases mem_page_of_new ha hg with hg | hp
    · obtain ⟨l, hl, hle⟩ := h.before a ha hg
      obtain ⟨l', hl', hle'⟩ := low_le_poll (w := w) src hl
      exact ⟨l', hl', Int.le_trans hle hle'⟩
    · rcases low_poll src s w with ⟨hnil, -⟩ | ⟨z, hz, hlow⟩
      · rw [hnil] at hp
        cases hp
      · have hafter := src.after_mono a ha z (mem_stream_of_page (List.mem_of_getLast? hz))
          (le_getLast hp hz)
        exact ⟨_, hlow, Int.le_trans hafter (le_raise s.low _)⟩
  whole a ha hg := by
    refine (Keyed.mem_foldl_add nodup_page).mpr ?_
    by_cases hold : name a ∈ s.got.keys
    · exact Or.inl (h.whole a ha hold)
    · exact Or.inr ⟨(mem_page_of_new ha hg).resolve_left hold, hold⟩

/-- **One step** keeps the invariant: publishing leaves the reader alone, and a page moves the bound
past its items. -/
theorem Inv.step {act : Act} (h : Inv src s) (hs : next src s act = some s') : Inv src s' := by
  cases act with
  | publish =>
    obtain ⟨-, ⟨⟩⟩ := Option.ite_none_right_eq_some.mp hs
    exact ⟨h.before, h.whole⟩
  | poll w =>
    obtain ⟨-, ⟨⟩⟩ := Option.ite_none_right_eq_some.mp hs
    exact h.poll

/-- No bound is before the key of its item. -/
def Forward (src : Source name) : Prop := ∀ a ∈ src.stream, src.key a ≤ src.after a

omit [DecidableEq κ] in
/-- On a page, the bound after the last item is no earlier than the page's. -/
theorem Forward.le_after (hf : Forward src) (ha : a ∈ (src.page n low).getLast?) :
    low ≤ src.after a := by
  have hpage := List.mem_of_getLast? ha
  exact Int.le_trans (mem_page hpage).2 (hf a (mem_stream_of_page hpage))

theorem Opened.poll (h : Opened s) (hf : Forward src) (hw : ∀ v ∈ s.window, v ≤ w) :
    Opened (s.poll src w) where
  start_low l hl := by
    refine ⟨_, rfl, Int.le_trans (h.start_le hw) ?_⟩
    rcases low_poll src s w with ⟨-, hlow⟩ | ⟨z, hz, hlow⟩
    · rw [hlow] at hl
      rw [Option.mem_def.mp hl]
      exact Int.le_refl l
    · obtain rfl := Option.some.inj (hlow.symm.trans hl)
      exact Int.le_trans (hf.le_after hz) (le_raise s.low _)
  start_window v hv := by
    obtain rfl := Option.some.inj hv
    refine ⟨w, rfl, ?_⟩
    cases hs : s.start with
    | none => exact Int.le_refl w
    | some v =>
      obtain ⟨u, hu, hvu⟩ := h.start_window v hs
      exact Int.le_trans hvu (hw u hu)

theorem Opened.step {act : Act} (h : Opened s) (hf : Forward src) (hs : next src s act = some s') :
    Opened s' := by
  cases act with
  | publish =>
    obtain ⟨-, ⟨⟩⟩ := Option.ite_none_right_eq_some.mp hs
    exact ⟨h.start_low, h.start_window⟩
  | poll w =>
    obtain ⟨hw, ⟨⟩⟩ := Option.ite_none_right_eq_some.mp hs
    exact h.poll hf hw

/-! ## Items that are lost -/

/-- The page from `l` on is full of what the reader has. -/
def Jammed (src : Source name) (s : State name) (l : ℤ) : Prop :=
  (src.page s.visible l).length = src.limit ∧ ∀ a ∈ src.page s.visible l, name a ∈ s.got.keys

/-- The reader should have an item and has not, and its bound has passed the item or is stuck. -/
structure Lost (src : Source name) (s : State name) (a : α) : Prop where
  mem : a ∈ src.stream
  opened : s.start ≠ none
  young : Young src s a
  missing : name a ∉ s.got.keys
  passed : (∃ l ∈ s.low, src.key a < l ∨ Jammed src s l) ∨
    s.low = none ∧ ∃ v ∈ s.window, src.key a < v

omit [DecidableEq κ] in
theorem Lost.not_complete (h : Lost src s a) : ¬Complete src s := fun hc =>
  h.missing (Keyed.key_mem (hc a h.mem h.young))

omit [DecidableEq κ] in
/-- A lost item is not on the next page, or the page brings nothing. -/
theorem Lost.cases (h : Lost src s a) (hw : ∀ v ∈ s.window, v ≤ w) :
    src.key a < s.low.getD w ∨ ∃ l, s.low = some l ∧ Jammed src s l := by
  rcases h.passed with ⟨l, hl, hlt | hjam⟩ | ⟨hl, v, hv, hlt⟩
  · rw [Option.mem_def.mp hl]
    exact Or.inl hlt
  · exact Or.inr ⟨l, hl, hjam⟩
  · rw [hl]
    exact Or.inl (Int.lt_of_lt_of_le hlt (hw v hv))

/-- An item below the bound of a poll is passed after it. -/
theorem passed_poll (hf : Forward src) (h : src.key a < s.low.getD w) :
    (∃ l ∈ (s.poll src w).low, src.key a < l ∨ Jammed src (s.poll src w) l) ∨
      (s.poll src w).low = none ∧ ∃ v ∈ (s.poll src w).window, src.key a < v := by
  rcases low_poll src s w with ⟨-, hlow⟩ | ⟨z, hz, hlow⟩
  · cases hl : s.low with
    | none =>
      rw [hl] at h
      exact Or.inr ⟨hlow.trans hl, w, rfl, h⟩
    | some l =>
      rw [hl] at h
      exact Or.inl ⟨l, hlow.trans hl, Or.inl h⟩
  · have hle := Int.le_trans (hf.le_after hz) (le_raise s.low _)
    exact Or.inl ⟨_, hlow, Or.inl (Int.lt_of_lt_of_le h hle)⟩

/-- A jammed reader stays so, and gets nothing. -/
theorem Jammed.poll {l : ℤ} (h : Jammed src s l) (hi : Inv src s) (hl : s.low = some l) :
    (s.poll src w).low = some l ∧ Jammed src (s.poll src w) l := by
  have hkeys : ∀ k ∈ s.got.keys, k ∈ (s.poll src w).got.keys := fun k hk =>
    Keyed.mem_keys_foldl_add.mpr (Or.inl hk)
  refine ⟨?_, h.1, fun a ha => hkeys _ (h.2 a ha)⟩
  rcases low_poll src s w with ⟨-, hlow⟩ | ⟨z, hz, hlow⟩
  · exact hlow.trans hl
  · rw [hl, Option.getD_some] at hz
    -- The reader has the last item of the page, so its bound is after that one already.
    have hpage := List.mem_of_getLast? hz
    obtain ⟨l', hl', hle⟩ := hi.before z (mem_stream_of_page hpage) (h.2 z hpage)
    obtain rfl := Option.some.inj (hl.symm.trans hl')
    rw [hlow, hl]
    exact congrArg some (max_eq_left hle)

/-- **A lost item stays lost**: a bound that has passed its key does not come back, and one that is
stuck before a full page of items that the reader has stays there. -/
theorem Lost.step {act : Act} (h : Lost src s a) (hi : Inv src s) (hf : Forward src)
    (hs : next src s act = some s') : Lost src s' a := by
  cases act with
  | publish =>
    obtain ⟨-, ⟨⟩⟩ := Option.ite_none_right_eq_some.mp hs
    refine ⟨h.mem, h.opened, h.young, h.missing, h.passed.imp_left fun hl => ?_⟩
    obtain ⟨l, hl, hlt | hjam⟩ := hl
    · exact ⟨l, hl, Or.inl hlt⟩
    · have hpage := page_succ hjam.1
      exact ⟨l, hl, Or.inr ⟨by rw [hpage]; exact hjam.1, by rw [hpage]; exact hjam.2⟩⟩
  | poll w =>
    obtain ⟨hw, ⟨⟩⟩ := Option.ite_none_right_eq_some.mp hs
    have hyoung : Young src (s.poll src w) a := fun v hv => by
      obtain ⟨u, hu⟩ := Option.ne_none_iff_exists'.mp h.opened
      obtain rfl := Option.some.inj hv
      rw [hu]
      exact h.young u hu
    rcases h.cases hw with hlt | ⟨l, hl, hjam⟩
    · refine ⟨h.mem, nofun, hyoung, fun hg => ?_, passed_poll hf hlt⟩
      have hp := (mem_page_of_new h.mem hg).resolve_left h.missing
      have hle := (mem_page hp).2
      omega
    · obtain ⟨hlow, hjam'⟩ := hjam.poll (w := w) hi hl
      refine ⟨h.mem, nofun, hyoung, fun hg => ?_, Or.inl ⟨l, hlow, Or.inr hjam'⟩⟩
      have hp := (mem_page_of_new h.mem hg).resolve_left h.missing
      rw [hl, Option.getD_some] at hp
      exact h.missing (hjam.2 a hp)

/-- A poll that is not `Whole` loses an item. -/
theorem lost_of_not_whole (h : Inv src s) (ho : Opened s) (hf : Forward src)
    (hw : ∀ v ∈ s.window, v ≤ w) (hc : ¬Whole src s (.poll w)) :
    ∃ a, Lost src (s.poll src w) a := by
  rw [Whole, not_and_or, not_and_or] at hc
  rcases hc with hc | hc | hc
  · -- an item between the last one and the bound after it is not on the page
    push Not at hc
    obtain ⟨z, hz, a, ha, hkey, hlt, hpage, hmissing⟩ := hc
    have hle := (mem_page (List.mem_of_getLast? hz)).2
    refine ⟨a, ha, nofun, fun v hv => ?_, fun hg => ?_, Or.inl ?_⟩
    · obtain rfl := Option.some.inj hv
      have := ho.start_le hw
      omega
    · rcases mem_page_of_new ha hg with hold | hnew
      · exact hmissing hold
      · exact hpage hnew
    · rcases low_poll src s w with ⟨hnil, -⟩ | ⟨z', hz', hlow⟩
      · rw [hnil] at hz
        cases hz
      · obtain rfl := Option.some.inj (hz.symm.trans hz')
        exact ⟨_, hlow, Or.inl (Int.lt_of_lt_of_le hlt (le_raise s.low _))⟩
  · -- the window has moved past an item
    push Not at hc
    obtain ⟨hl, a, ha, hyoung, hlt⟩ := hc
    have hbound : src.key a < s.low.getD w := by
      rw [hl, Option.getD_none]
      omega
    refine ⟨a, ha, nofun, fun v hv => ?_, fun hg => ?_, passed_poll hf hbound⟩
    · obtain rfl := Option.some.inj hv
      exact hyoung
    · rcases mem_page_of_new ha hg with hold | hnew
      · obtain ⟨l, hmem, -⟩ := h.before a ha hold
        cases hl.symm.trans hmem
      · have hle := (mem_page hnew).2
        omega
  · -- the reader is jammed
    push Not at hc
    obtain ⟨hfull, hold, a, ha, hle, hmissing⟩ := hc
    have hne : src.page s.visible (s.low.getD w) ≠ [] := by
      intro hnil
      rw [hnil] at hfull
      exact absurd hfull (Nat.ne_of_lt src.limit_pos)
    obtain ⟨z, hz⟩ := List.exists_mem_of_ne_nil _ hne
    obtain ⟨l, hl, -⟩ := h.before z (mem_stream_of_page hz) (hold z hz)
    obtain ⟨v, hv, hvl⟩ := ho.start_low l hl
    rw [Option.mem_def.mp hl, Option.getD_some] at hfull hold hle
    have hlost : Lost src s a :=
      { mem := ha
        opened := by
          rw [Option.mem_def.mp hv]
          nofun
        young := fun u hu => by
          obtain rfl := Option.some.inj (hv.symm.trans hu)
          exact Int.le_trans hvl hle
        missing := hmissing
        passed := Or.inl ⟨l, hl, Or.inr ⟨hfull, hold⟩⟩ }
    have hstep : next src s (.poll w) = some (s.poll src w) := if_pos hw
    exact ⟨a, hlost.step h hf hstep⟩

/-! ## Items that are there -/

/-- The reader has what its bound has passed. -/
def Done (src : Source name) (s : State name) : Prop :=
  ∀ l ∈ s.low, ∀ a ∈ src.stream, Young src s a → src.key a < l → a ∈ s.got

/-- An item from the first window on is so already before the poll that opens it. -/
theorem young_of_poll (h : Young src (s.poll src w) a) : Young src s a := fun v hv => by
  have := h _ rfl
  rwa [Option.mem_def.mp hv] at this

theorem mem_poll_of_mem (h : a ∈ s.got) : a ∈ (s.poll src w).got :=
  (Keyed.mem_foldl_add nodup_page).mpr (Or.inl h)

theorem Inv.mem_poll_of_page (h : Inv src s) (ha : a ∈ src.page s.visible (s.low.getD w)) :
    a ∈ (s.poll src w).got := by
  by_cases hold : name a ∈ s.got.keys
  · exact mem_poll_of_mem (h.whole a (mem_stream_of_page ha) hold)
  · exact (Keyed.mem_foldl_add nodup_page).mpr (Or.inr ⟨ha, hold⟩)

/-- What is below the bound of a `Whole` poll, from the first window on, is there. -/
theorem Done.mem_of_lt (hd : Done src s) (hc : Whole src s (.poll w)) (ha : a ∈ src.stream)
    (hy : Young src (s.poll src w) a) (hlt : src.key a < s.low.getD w) : a ∈ s.got := by
  cases hl : s.low with
  | none =>
    rw [hl] at hlt
    exact absurd (hc.2.1 hl a ha (hy _ rfl)) (Int.not_le.mpr hlt)
  | some l =>
    rw [hl] at hlt
    exact hd l hl a ha (young_of_poll hy) hlt

/-- **A whole page** leaves nothing behind: what its end passes is on it or was read before. -/
theorem Done.poll (hd : Done src s) (h : Inv src s) (hc : Whole src s (.poll w)) :
    Done src (s.poll src w) := by
  intro l' hl' a ha hy hlt
  rcases low_poll src s w with ⟨-, hsame⟩ | ⟨z, hz, hraised⟩
  · rw [hsame] at hl'
    exact mem_poll_of_mem (hd l' hl' a ha (young_of_poll hy) hlt)
  · obtain rfl := Option.some.inj (hraised.symm.trans hl')
    rcases raise_cases s.low (src.after z) with hafter | hold
    · rw [hafter] at hlt
      rcases Int.lt_or_le (src.key a) (s.low.getD w) with hbelow | habove
      · exact mem_poll_of_mem (hd.mem_of_lt hc ha hy hbelow)
      · rcases Int.lt_or_le (src.key a) (src.key z) with hbefore | hfrom
        · exact h.mem_poll_of_page (mem_page_of_lt (List.mem_of_getLast? hz) ha habove hbefore)
        · rcases hc.1 z hz a ha hfrom hlt with hpage | hold
          · exact h.mem_poll_of_page hpage
          · exact mem_poll_of_mem (h.whole a ha hold)
    · exact mem_poll_of_mem (hd _ hold a ha (young_of_poll hy) hlt)

theorem Done.step {act : Act} (hd : Done src s) (h : Inv src s) (hc : Whole src s act)
    (hs : next src s act = some s') : Done src s' := by
  cases act with
  | publish =>
    obtain ⟨-, ⟨⟩⟩ := Option.ite_none_right_eq_some.mp hs
    exact hd
  | poll w =>
    obtain ⟨-, ⟨⟩⟩ := Option.ite_none_right_eq_some.mp hs
    exact hd.poll h hc

omit [DecidableEq κ] in
theorem done_init (got : Keyed name) : Done src (init got) := fun _ h => nomatch h

/-! ## Enough polls -/

/-- The items that the reader has not. -/
def missing (src : Source name) (s : State name) : List α :=
  src.stream.filter fun a => decide (name a ∉ s.got.keys)

/-- The reader has all. -/
theorem Inv.complete (h : Inv src s) (hm : missing src s = []) : Complete src s := by
  intro a ha _
  by_contra hgot
  have hmissing : a ∈ missing src s :=
    List.mem_filter.mpr ⟨ha, decide_eq_true fun hg => hgot (h.whole a ha hg)⟩
  rw [hm] at hmissing
  cases hmissing

/-- A page with something new on it leaves less missing. -/
theorem missing_poll (ha : a ∈ src.page s.visible (s.low.getD w)) (hnew : name a ∉ s.got.keys) :
    (missing src (s.poll src w)).length < (missing src s).length := by
  have hkeys : ∀ b, name b ∉ (s.poll src w).got.keys → name b ∉ s.got.keys := fun b hb hg =>
    hb (Keyed.mem_keys_foldl_add.mpr (Or.inl hg))
  have hfilter : missing src (s.poll src w) =
      (missing src s).filter fun b => decide (name b ∉ (s.poll src w).got.keys) := by
    unfold missing
    rw [List.filter_filter]
    refine List.filter_congr fun b _ => ?_
    rw [← Bool.decide_and, decide_eq_decide]
    exact ⟨fun h => ⟨h, hkeys b h⟩, And.left⟩
  rw [hfilter, List.length_filter_lt_length_iff_exists]
  refine ⟨a, List.mem_filter.mpr ⟨mem_stream_of_page ha, decide_eq_true hnew⟩, ?_⟩
  have hgot : name a ∈ (s.poll src w).got.keys :=
    Keyed.mem_keys_foldl_add.mpr (Or.inr (List.mem_map_of_mem ha))
  simpa using hgot

/-- **One more poll**, all items being published, reads something new unless nothing is missing. -/
theorem complete_or_missing (h : Inv src s) (hd : Done src s) (hv : s.visible = src.stream.length)
    (hc : Whole src s (.poll w)) :
    Complete src (s.poll src w) ∨
      (missing src (s.poll src w)).length < (missing src s).length := by
  by_cases hnew : ∃ a ∈ src.page s.visible (s.low.getD w), name a ∉ s.got.keys
  · obtain ⟨a, ha, hnew⟩ := hnew
    exact Or.inr (missing_poll ha hnew)
  · -- The reader has the whole page: nothing is left from the bound on.
    have hold : ∀ a ∈ src.page s.visible (s.low.getD w), name a ∈ s.got.keys := fun a ha => by
      by_contra hg
      exact hnew ⟨a, ha, hg⟩
    left
    intro a ha hy
    refine mem_poll_of_mem ?_
    rcases Int.lt_or_le (src.key a) (s.low.getD w) with hbelow | habove
    · exact hd.mem_of_lt hc ha hy hbelow
    · refine h.whole a ha ?_
      rcases Nat.lt_or_ge (src.page s.visible (s.low.getD w)).length src.limit with hlt | hge
      · have hvis : a ∈ src.stream.take s.visible := by rwa [hv, List.take_length]
        exact hold a (mem_page_of_lt_limit hlt hvis habove)
      · have hle : (src.page s.visible (s.low.getD w)).length ≤ src.limit := List.length_take_le ..
        exact hc.2.2 (Nat.le_antisymm hle hge) hold a ha habove

theorem Complete.step {act : Act} (h : Complete src s) (hs : next src s act = some s') :
    Complete src s' := by
  cases act with
  | publish =>
    obtain ⟨-, ⟨⟩⟩ := Option.ite_none_right_eq_some.mp hs
    exact h
  | poll w =>
    obtain ⟨-, ⟨⟩⟩ := Option.ite_none_right_eq_some.mp hs
    exact fun a ha hy => mem_poll_of_mem (h a ha (young_of_poll hy))

variable [DecidableEq α]

/-- Polls that lose nothing, all items being published. -/
theorem complete_or_polls : ∀ {ws : List ℤ} {s : State name}, Inv src s → Done src s →
    s.visible = src.stream.length → play (next src) (Whole src) s (ws.map .poll) = some s' →
    Complete src s' ∨ (missing src s').length + ws.length ≤ (missing src s).length
  | [], s, _, _, _, hplay => by
    obtain rfl := Option.some.inj hplay
    exact Or.inr (Nat.le_refl _)
  | w :: ws, s, hi, hd, hv, hplay => by
    simp only [List.map_cons, play] at hplay
    split at hplay
    · rename_i hc
      split at hplay
      · rename_i s1 hs
        have hi1 := hi.step hs
        have hd1 := hd.step hi hc hs
        obtain ⟨-, ⟨⟩⟩ := Option.ite_none_right_eq_some.mp hs
        rcases complete_or_missing hi hd hv hc with hdone | hlt
        · exact Or.inl (play_inv hplay hdone fun _ _ _ h _ hs => h.step hs)
        · rcases complete_or_polls hi1 hd1 hv hplay with hdone | hle
          · exact Or.inl hdone
          · right
            rw [List.length_cons]
            omega
      · cases hplay
    · cases hplay

/-- **The reader has everything** from its first window on, after enough polls, if every poll was
`Whole`. -/
theorem complete_of_whole {got : Keyed name} (hgot : ∀ a ∈ src.stream, name a ∉ got.keys)
    {acts : List Act} {ws : List ℤ} (hs : play (next src) (fun _ _ => True) (init got) acts = some s)
    (hv : s.visible = src.stream.length) (hn : src.stream.length ≤ ws.length)
    (hw : play (next src) (Whole src) (init got) (acts ++ ws.map .poll) = some s') :
    Complete src s' := by
  rw [play_append] at hw
  obtain ⟨t, ht, hpolls⟩ := Option.bind_eq_some_iff.mp hw
  obtain rfl := Option.some.inj ((play_forget ht).symm.trans hs)
  have hi := play_inv (I := fun s => Inv src s ∧ Done src s) ht ⟨inv_init hgot, done_init got⟩
    fun _ _ _ h hc hs => ⟨h.1.step hs, h.2.step h.1 hc hs⟩
  rcases complete_or_polls hi.1 hi.2 hv hpolls with hdone | hle
  · exact hdone
  · have hi' := play_inv (I := Inv src) hpolls hi.1 fun _ _ _ h _ hs => h.step hs
    have hmissing : (missing src t).length ≤ src.stream.length := List.length_filter_le ..
    exact hi'.complete (List.length_eq_zero_iff.mp (by omega))

/-- **It has lost something** if some poll was not, where no bound is before the key of its item. -/
theorem whole_of_complete {got : Keyed name} (hf : Forward src)
    (hgot : ∀ a ∈ src.stream, name a ∉ got.keys) {acts : List Act}
    (hs : play (next src) (fun _ _ => True) (init got) acts = some s) (hc : Complete src s) :
    play (next src) (Whole src) (init got) acts = some s := by
  by_contra hne
  -- the first poll that is not `Whole` loses an item for good
  obtain ⟨as₁, act, as₂, s₁, -, h₁, hnot, h₂⟩ := (play_meets_or hs).resolve_left hne
  have hi := play_inv (I := fun s => Inv src s ∧ Opened s) h₁ ⟨inv_init hgot, opened_init got⟩
    fun _ _ _ h _ hs => ⟨h.1.step hs, h.2.step hf hs⟩
  obtain ⟨-, s₂, hs₂, hrest⟩ := play_cons.mp h₂
  cases act with
  | publish => exact absurd trivial hnot
  | poll w =>
    have hi₂ := hi.1.step hs₂
    obtain ⟨hw, ⟨⟩⟩ := Option.ite_none_right_eq_some.mp hs₂
    obtain ⟨a, hlost⟩ := lost_of_not_whole hi.1 hi.2 hf hw hnot
    have hend := play_inv (I := fun s => Inv src s ∧ Lost src s a) hrest ⟨hi₂, hlost⟩
      fun _ _ _ h _ hs => ⟨h.1.step hs, h.2.step h.1 hf hs⟩
    exact hend.2.not_complete hc

end Meridian.Paging
