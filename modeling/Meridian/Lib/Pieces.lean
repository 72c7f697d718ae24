import Mathlib.Data.List.Basic
import Mathlib.Data.Nat.Notation
import Mathlib.Order.Nat
import Mathlib.Tactic.Common

/-!
# Reading a stream that comes in pieces

A stream is handed over in pieces, cut anywhere. A reader takes items off it and returns or throws.
`Reads r l a` says that `r` takes exactly the items `l` off every stream that begins with them, however
it is cut, and returns `a`.

* `reads_bind`: what two readers in a row take is what the one takes and then the other;
* `forever`: the loop `while (true)`, each round of which takes an item; `forever_eq` unrolls it and
  `reads_forever` is its rule: one fact for each round;
* `next_of_flatten`: one read takes a part of what is there, and only at the end nothing.
-/

namespace Meridian.Pieces

variable {β ε α γ : Type}

/-- A reader of a stream of `β`. -/
abbrev Reader (β ε α : Type) : Type := StateT (List (List β)) (Except ε) α

/-- `r` takes the items `l` and returns `a`. -/
def Reads (r : Reader β ε α) (l : List β) (a : α) : Prop :=
  ∀ s rest, s.flatten = l ++ rest → ∃ s', r s = .ok (a, s') ∧ s'.flatten = rest

/-- `r` throws `e` on every stream that begins with `l`. -/
def Throws (r : Reader β ε α) (l : List β) (e : ε) : Prop :=
  ∀ s rest, s.flatten = l ++ rest → r s = .error e

theorem reads_pure (a : α) : Reads (pure a : Reader β ε α) [] a := fun s _ hs => ⟨s, rfl, hs⟩

/-- Two readers in a row, on a stream. -/
theorem bind_apply (r : Reader β ε α) (f : α → Reader β ε γ) (s : List (List β)) :
    (r >>= f) s = r s >>= fun x => f x.1 x.2 := rfl

theorem reads_bind {r : Reader β ε α} {f : α → Reader β ε γ} {l l' : List β} {a : α} {c : γ}
    (h : Reads r l a) (hf : Reads (f a) l' c) : Reads (r >>= f) (l ++ l') c := by
  intro s rest hs
  rw [List.append_assoc] at hs
  obtain ⟨s1, h1, hs1⟩ := h s _ hs
  obtain ⟨s2, h2, hs2⟩ := hf s1 rest hs1
  refine ⟨s2, ?_, hs2⟩
  rw [bind_apply, h1]
  exact h2

theorem throws_bind {r : Reader β ε α} {f : α → Reader β ε γ} {l l' : List β} {a : α} {e : ε}
    (h : Reads r l a) (hf : Throws (f a) l' e) : Throws (r >>= f) (l ++ l') e := by
  intro s rest hs
  rw [List.append_assoc] at hs
  obtain ⟨s1, h1, hs1⟩ := h s _ hs
  rw [bind_apply, h1]
  exact hf s1 rest hs1

theorem Throws.bind {r : Reader β ε α} {l : List β} {e : ε} (h : Throws r l e)
    (f : α → Reader β ε γ) : Throws (r >>= f) l e := by
  intro s rest hs
  rw [bind_apply, h s rest hs]
  rfl

/-- A computation that reads nothing. -/
theorem reads_lift {x : Except ε α} {a : α} (h : x = .ok a) :
    Reads (liftM x : Reader β ε α) [] a := by
  subst h
  exact reads_pure a

theorem throws_lift {x : Except ε α} {e : ε} (h : x = .error e) :
    Throws (liftM x : Reader β ε α) [] e := by
  subst h
  exact fun _ _ _ => rfl

/-! ## What is left -/

/-- `r` leaves no more items than there were. -/
def Shrinks (r : Reader β ε α) : Prop :=
  ∀ s a s', r s = .ok (a, s') → s'.flatten.length ≤ s.flatten.length

/-- `r` leaves fewer items than there were. -/
def Takes (r : Reader β ε α) : Prop :=
  ∀ s a s', r s = .ok (a, s') → s'.flatten.length < s.flatten.length

theorem Takes.shrinks {r : Reader β ε α} (h : Takes r) : Shrinks r :=
  fun s a s' hr => (h s a s' hr).le

theorem shrinks_pure (a : α) : Shrinks (pure a : Reader β ε α) := by
  intro s a' s' hr
  obtain ⟨-, rfl⟩ := Prod.mk.inj (Except.ok.inj hr)
  exact le_rfl

theorem shrinks_throw (e : ε) : Shrinks (throw e : Reader β ε α) := by
  intro s a s' hr
  cases hr

theorem shrinks_lift (x : Except ε α) : Shrinks (liftM x : Reader β ε α) := by
  cases x with
  | error e => exact shrinks_throw e
  | ok a => exact shrinks_pure a

/-- What a reader made of two comes from. -/
theorem bind_ok {r : Reader β ε α} {f : α → Reader β ε γ} {s s' : List (List β)} {c : γ}
    (h : (r >>= f) s = .ok (c, s')) : ∃ a s1, r s = .ok (a, s1) ∧ f a s1 = .ok (c, s') := by
  rw [bind_apply] at h
  rcases hr : r s with e | ⟨a, s1⟩
  · rw [hr] at h
    cases h
  · rw [hr] at h
    exact ⟨a, s1, rfl, h⟩

theorem Shrinks.bind {r : Reader β ε α} {f : α → Reader β ε γ} (h : Shrinks r)
    (hf : ∀ a, Shrinks (f a)) : Shrinks (r >>= f) := by
  intro s c s' hr
  obtain ⟨a, s1, h1, h2⟩ := bind_ok hr
  exact (hf a s1 c s' h2).trans (h s a s1 h1)

theorem Takes.bind {r : Reader β ε α} {f : α → Reader β ε γ} (h : Takes r)
    (hf : ∀ a, Shrinks (f a)) : Takes (r >>= f) := by
  intro s c s' hr
  obtain ⟨a, s1, h1, h2⟩ := bind_ok hr
  exact (hf a s1 c s' h2).trans_lt (h s a s1 h1)

/-! ## One read -/

/-- A piece that is not read to its end is left for the next read. -/
def restore : List β → List (List β) → List (List β)
  | [], pieces => pieces
  | rest, pieces => rest :: pieces

/-- One read of at most `num` items, none of them beyond the end of the piece. -/
def next (num : ℕ) : List (List β) → Option (List β × List (List β))
  | [] => none
  | [] :: pieces => next num pieces
  | piece :: pieces => some (piece.take num, restore (piece.drop num) pieces)

theorem flatten_restore (rest : List β) (pieces : List (List β)) :
    (restore rest pieces).flatten = rest ++ pieces.flatten := by
  cases rest with
  | nil => rfl
  | cons b rest => rfl

/-- What one read comes to. -/
theorem next_of_flatten {num : ℕ} (hnum : 0 < num) (s : List (List β)) :
    (s.flatten = [] ∧ next num s = none) ∨
    ∃ l s', next num s = some (l, s') ∧ l ≠ [] ∧ l.length ≤ num ∧ s.flatten = l ++ s'.flatten := by
  induction s with
  | nil => exact Or.inl ⟨rfl, rfl⟩
  | cons piece pieces ih =>
    cases piece with
    | nil => exact ih
    | cons b piece =>
      refine Or.inr ⟨_, _, rfl, ?_, List.length_take_le _ _, ?_⟩
      · obtain ⟨n, rfl⟩ := Nat.exists_eq_add_one.mpr hnum
        exact List.cons_ne_nil _ _
      · rw [flatten_restore, ← List.append_assoc, List.take_append_drop, List.flatten_cons]

/-- What is left of pieces with something in them are pieces with something in them. -/
theorem next_ne_nil {num : ℕ} {s s' : List (List β)} {l : List β} (hs : ∀ piece ∈ s, piece ≠ [])
    (h : next num s = some (l, s')) : ∀ piece ∈ s', piece ≠ [] := by
  match s, hs, h with
  | [] :: pieces, hs, _ => exact absurd rfl (hs [] List.mem_cons_self)
  | (b :: bs) :: pieces, hs, h =>
    obtain ⟨-, rfl⟩ := Prod.mk.inj (Option.some.inj h)
    have hpieces : ∀ piece ∈ pieces, piece ≠ [] := fun piece hm => hs piece (List.mem_cons_of_mem _ hm)
    cases hdrop : (b :: bs).drop num with
    | nil => exact hpieces
    | cons c rest => exact List.forall_mem_cons.mpr ⟨List.cons_ne_nil _ _, hpieces⟩

/-! ## Loops -/

/-- `fuel` rounds of a loop, each of which goes on with a new state or ends it. -/
def rounds (exhausted : ε) (step : α → Reader β ε (α ⊕ γ)) : ℕ → α → Reader β ε γ
  | 0, _ => throw exhausted
  | fuel + 1, a => do
    match ← step a with
    | .inl a' => rounds exhausted step fuel a'
    | .inr c => return c

/-- `while (true)` around a step that reads: there are no more rounds than items, but for the last. -/
def forever (exhausted : ε) (step : α → Reader β ε (α ⊕ γ)) (a : α) : Reader β ε γ :=
  fun s => rounds exhausted step (s.flatten.length + 1) a s

/-- Each round that is not the last takes an item. -/
def Progress (step : α → Reader β ε (α ⊕ γ)) : Prop :=
  ∀ a s a' s', step a s = .ok (.inl a', s') → s'.flatten.length < s.flatten.length

variable {exhausted : ε} {step : α → Reader β ε (α ⊕ γ)}

theorem progress_of_takes (h : ∀ a, Takes (step a)) : Progress step :=
  fun a s a' s' hr => h a s (.inl a') s' hr

/-- One round on what is left. -/
theorem rounds_succ (fuel : ℕ) (a : α) (s : List (List β)) :
    rounds exhausted step (fuel + 1) a s =
      match step a s with
      | .ok (.inl a', s') => rounds exhausted step fuel a' s'
      | .ok (.inr c, s') => .ok (c, s')
      | .error e => .error e := by
  rw [rounds, bind_apply]
  rcases step a s with e | ⟨a' | c, s'⟩
  · rfl
  · rfl
  · rfl

/-- More rounds than items change nothing. -/
theorem rounds_eq (hstep : Progress step) :
    ∀ {fuel fuel' : ℕ} {a : α} {s : List (List β)}, s.flatten.length < fuel →
      s.flatten.length < fuel' →
      rounds exhausted step fuel a s = rounds exhausted step fuel' a s := by
  intro fuel
  induction fuel with
  | zero => exact fun h => absurd h (Nat.not_lt_zero _)
  | succ fuel ih =>
    intro fuel' a s h h'
    obtain ⟨fuel', rfl⟩ := Nat.exists_eq_add_one.mpr (Nat.zero_lt_of_lt h')
    rw [rounds_succ, rounds_succ]
    rcases hx : step a s with e | ⟨a' | c, s'⟩
    · rfl
    · have hlt : s'.flatten.length < s.flatten.length := hstep _ _ _ _ hx
      exact ih (by omega) (by omega)
    · rfl

/-- **A loop unrolls**: its bound on the rounds is none. -/
theorem forever_eq (hstep : Progress step) (a : α) (s : List (List β)) :
    forever exhausted step a s =
      match step a s with
      | .ok (.inl a', s') => forever exhausted step a' s'
      | .ok (.inr c, s') => .ok (c, s')
      | .error e => .error e := by
  rw [forever, rounds_succ]
  rcases hx : step a s with e | ⟨a' | c, s'⟩
  · rfl
  · have hlt : s'.flatten.length < s.flatten.length := hstep _ _ _ _ hx
    exact rounds_eq hstep hlt (Nat.lt_succ_self _)
  · rfl

theorem takes_forever (h : ∀ a, Takes (step a)) (a : α) : Takes (forever exhausted step a) := by
  have hrounds : ∀ fuel a, Takes (rounds exhausted step fuel a) := by
    intro fuel
    induction fuel with
    | zero => exact fun a s c s' hr => nomatch hr
    | succ fuel ih =>
      intro a
      refine (h a).bind fun x => ?_
      cases x with
      | inl a' => exact (ih a').shrinks
      | inr c => exact shrinks_pure c
  exact fun s => hrounds _ a s

/-- The rounds of a loop, and the items they take. -/
inductive Rounds (step : α → Reader β ε (α ⊕ γ)) : α → List β → γ → Prop
  | last {a : α} {l : List β} {c : γ} (h : Reads (step a) l (.inr c)) : Rounds step a l c
  | next {a a' : α} {l l' : List β} {c : γ} (h : Reads (step a) l (.inl a'))
      (hrest : Rounds step a' l' c) : Rounds step a (l ++ l') c

theorem reads_forever (hstep : Progress step) {a : α} {l : List β} {c : γ}
    (h : Rounds step a l c) : Reads (forever exhausted step a) l c := by
  induction h with
  | last h =>
    intro s rest hs
    obtain ⟨s', hx, hs'⟩ := h s rest hs
    refine ⟨s', ?_, hs'⟩
    rw [forever_eq hstep, hx]
  | next h _ ih =>
    intro s rest hs
    rw [List.append_assoc] at hs
    obtain ⟨s1, h1, hs1⟩ := h s _ hs
    obtain ⟨s2, h2, hs2⟩ := ih s1 rest hs1
    refine ⟨s2, ?_, hs2⟩
    rw [forever_eq hstep, h1]
    exact h2

/-- A loop that throws in a later round throws. -/
theorem throws_forever_next (hstep : Progress step) {a a' : α} {l l' : List β} {e : ε}
    (h : Reads (step a) l (.inl a')) (hrest : Throws (forever exhausted step a') l' e) :
    Throws (forever exhausted step a) (l ++ l') e := by
  intro s rest hs
  rw [List.append_assoc] at hs
  obtain ⟨s1, h1, hs1⟩ := h s _ hs
  rw [forever_eq hstep, h1]
  exact hrest s1 rest hs1

theorem throws_forever (hstep : Progress step) {a : α} {l : List β} {e : ε}
    (h : Throws (step a) l e) : Throws (forever exhausted step a) l e := by
  intro s rest hs
  rw [forever_eq hstep, h s rest hs]

end Meridian.Pieces
