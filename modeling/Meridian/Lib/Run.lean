import Mathlib.Data.List.Induction
import Mathlib.Logic.Relation

/-!
# Runs of labelled steps

A system is a relation `step : S → A → S → Prop`. `Reaches step cond s s'` says that some run of
steps that all meet `cond` (a condition on the state before the step and the step's label) leads
from `s` to `s'`. Every whole-run theorem of this development is an invariant of `Reaches`
(`Reaches.inv`), and every concrete run is played by an executable step function
(`reaches_of_play`).
-/

namespace Meridian.Run

variable {S A : Type*}

/-- One step that meets `cond`, whatever its label. -/
def Guarded (step : S → A → S → Prop) (cond : S → A → Prop) (s s' : S) : Prop :=
  ∃ a, cond s a ∧ step s a s'

/-- `s'` is reached from `s` by steps that all meet `cond`. -/
def Reaches (step : S → A → S → Prop) (cond : S → A → Prop) : S → S → Prop :=
  Relation.ReflTransGen (Guarded step cond)

variable {step : S → A → S → Prop} {cond cond' : S → A → Prop} {s s' s'' : S}

theorem Reaches.refl : Reaches step cond s s := Relation.ReflTransGen.refl

theorem Reaches.tail {a : A} (h : Reaches step cond s s') (hc : cond s' a)
    (hs : step s' a s'') : Reaches step cond s s'' :=
  Relation.ReflTransGen.tail h ⟨a, hc, hs⟩

theorem Reaches.trans (h : Reaches step cond s s') (h' : Reaches step cond s' s'') :
    Reaches step cond s s'' :=
  Relation.ReflTransGen.trans h h'

/-- A condition that holds at the start and that every allowed step keeps holds of every state
reached. -/
theorem Reaches.inv {I : S → Prop} (h : Reaches step cond s s') (h0 : I s)
    (hstep : ∀ s a s', I s → cond s a → step s a s' → I s') : I s' := by
  induction h with
  | refl => exact h0
  | tail _ hs ih =>
    obtain ⟨a, hc, hs⟩ := hs
    exact hstep _ a _ ih hc hs

/-- Fewer conditions allow more runs. -/
theorem Reaches.mono (h : Reaches step cond s s') (hc : ∀ s a, cond s a → cond' s a) :
    Reaches step cond' s s' :=
  Relation.ReflTransGen.mono (fun _ _ ⟨a, h, hs⟩ => ⟨a, hc _ a h, hs⟩) _ _ h

/-! ## Executable steps -/

/-- The step relation of a step function. -/
def Fires (next : S → A → Option S) (s : S) (a : A) (s' : S) : Prop := next s a = some s'

/-- Play a list of labels, one after the other, while each meets `cond`. -/
def play (next : S → A → Option S) (cond : S → A → Prop) [∀ s a, Decidable (cond s a)] :
    S → List A → Option S
  | s, [] => some s
  | s, a :: as =>
    if cond s a then
      match next s a with
      | some s' => play next cond s' as
      | none => none
    else none

theorem reaches_of_play {next : S → A → Option S} [∀ s a, Decidable (cond s a)] :
    ∀ {as : List A} {s s' : S}, play next cond s as = some s' → Reaches (Fires next) cond s s'
  | [], s, s', h => by
    obtain rfl := Option.some.inj h
    exact Reaches.refl
  | a :: as, s, s', h => by
    simp only [play] at h
    split at h
    · rename_i hc
      split at h
      · rename_i s1 hs
        exact Relation.ReflTransGen.head ⟨a, hc, hs⟩ (reaches_of_play h)
      · exact absurd h (by simp)
    · exact absurd h (by simp)

/-- A condition that holds at the start and that every played step keeps holds at the end. -/
theorem play_inv {next : S → A → Option S} [∀ s a, Decidable (cond s a)] {I : S → Prop}
    {as : List A} (h : play next cond s as = some s') (h0 : I s)
    (hstep : ∀ s a s', I s → cond s a → next s a = some s' → I s') : I s' :=
  (reaches_of_play h).inv h0 hstep

theorem play_append {next : S → A → Option S} [∀ s a, Decidable (cond s a)] :
    ∀ (as bs : List A) (s : S),
      play next cond s (as ++ bs) = (play next cond s as).bind fun s' => play next cond s' bs
  | [], _, _ => rfl
  | a :: as, bs, s => by
    simp only [List.cons_append, play]
    split
    · cases next s a with
      | none => rfl
      | some s1 => exact play_append as bs s1
    · rfl

theorem play_cons {next : S → A → Option S} [∀ s a, Decidable (cond s a)] {a : A} {as : List A} :
    play next cond s (a :: as) = some s' ↔
      cond s a ∧ ∃ s₁, next s a = some s₁ ∧ play next cond s₁ as = some s' := by
  simp only [play]
  split
  · rename_i hc
    cases next s a with
    | none => simp
    | some s₁ => simp [hc]
  · rename_i hc
    simp [hc]

/-- The condition of a play can be forgotten. -/
theorem play_forget {next : S → A → Option S} [∀ s a, Decidable (cond s a)] :
    ∀ {as : List A} {s s' : S}, play next cond s as = some s' →
      play next (fun _ _ => True) s as = some s'
  | [], _, _, h => h
  | _ :: _, _, _, h => by
    obtain ⟨-, s₁, hs, hplay⟩ := play_cons.mp h
    exact play_cons.mpr ⟨trivial, s₁, hs, play_forget hplay⟩

/-- A play meets a further condition throughout, or there is a first step that does not. -/
theorem play_meets_or {next : S → A → Option S} [∀ s a, Decidable (cond s a)] :
    ∀ {as : List A} {s s' : S}, play next (fun _ _ => True) s as = some s' →
      play next cond s as = some s' ∨ ∃ as₁ a as₂ s₁, as = as₁ ++ a :: as₂ ∧
        play next cond s as₁ = some s₁ ∧ ¬cond s₁ a ∧
        play next (fun _ _ => True) s₁ (a :: as₂) = some s'
  | [], _, _, h => Or.inl h
  | a :: as, s, s', h => by
    by_cases hc : cond s a
    · obtain ⟨-, s1, hn, hplay⟩ := play_cons.mp h
      rcases play_meets_or hplay with hm | ⟨as₁, b, as₂, s₂, rfl, h₁, hb, h₂⟩
      · exact Or.inl (play_cons.mpr ⟨hc, s1, hn, hm⟩)
      · exact Or.inr ⟨a :: as₁, b, as₂, s₂, rfl, play_cons.mpr ⟨hc, s1, hn, h₁⟩, hb, h₂⟩
    · exact Or.inr ⟨[], a, as, s, rfl, rfl, hc, h⟩

/-- A play seen through a view that every step respects meets a condition when its image does. -/
theorem play_view {S' A' : Type*} {next : S → A → Option S} {next' : S' → A' → Option S'}
    {cond' : S' → A' → Prop} [∀ s a, Decidable (cond s a)] [∀ s a, Decidable (cond' s a)]
    {view : S → S'} {label : A → A'} {I : S → Prop}
    (hsim : ∀ s a s', I s → next s a = some s' →
      I s' ∧ next' (view s) (label a) = some (view s'))
    (hcond : ∀ s a, I s → (cond s a ↔ cond' (view s) (label a))) :
    ∀ {as : List A} {s s' : S}, I s → play next (fun _ _ => True) s as = some s' →
      (play next cond s as = some s' ↔ play next' cond' (view s) (as.map label) = some (view s'))
  | [], s, s', _, h => by
    obtain rfl := Option.some.inj h
    exact iff_of_true rfl rfl
  | a :: as, s, s', hI, h => by
    obtain ⟨-, s₁, hs, hplay⟩ := play_cons.mp h
    obtain ⟨hI₁, hs'⟩ := hsim s a s₁ hI hs
    have ih := play_view hsim hcond hI₁ hplay
    rw [List.map_cons, play_cons, play_cons, hcond s a hI]
    refine and_congr_right fun _ => ?_
    simp only [hs, hs', Option.some.injEq, exists_eq_left']
    exact ih

/-! ## Invariants about what has happened -/

theorem foldlM_concat_eq_some {next : S → A → Option S} {as : List A} {a : A} :
    (as ++ [a]).foldlM next s = some s'' ↔ ∃ s', as.foldlM next s = some s' ∧ next s' a = some s'' := by
  rw [List.foldlM_append, ← Option.bind_eq_some_iff]
  cases as.foldlM next s with
  | none => exact Iff.rfl
  | some s' => exact Eq.congr_left (bind_pure (next s' a))

/-- A relation between the steps taken and the state they lead to that every further step keeps. -/
theorem foldlM_inv {next : S → A → Option S} {I : List A → S → Prop} {as : List A}
    (h : as.foldlM next s = some s') (h0 : I [] s)
    (hstep : ∀ as a s s', I as s → next s a = some s' → I (as ++ [a]) s') : I as s' := by
  induction as using List.reverseRecOn generalizing s' with
  | nil => exact Option.some.inj h ▸ h0
  | append_singleton as a ih =>
    obtain ⟨s₁, hs₁, hnext⟩ := foldlM_concat_eq_some.mp h
    exact hstep as a s₁ s' (ih hs₁) hnext

end Meridian.Run
