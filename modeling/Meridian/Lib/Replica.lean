import Mathlib.Data.List.Forall2
import Mathlib.Data.List.Induction
import Mathlib.Data.List.Infix
import Meridian.Lib.Keyed

/-!
# Replicas that follow a log

A log of updates to a dictionary, in which a key that was dropped is not used again, and a dictionary
elsewhere that follows it: it is filled from the state after some part of the log and then takes over
the updates one by one, each as it is shown to it.

`Follows shows log n extra m` says that `m` has got as far as the first `n` updates, and beside what the
log has by then still has the keys `extra`. More updates taken over (`Follows.updates`) and another filling
(`Follows.snapshot`) keep it. A filling from nothing that is overlooked leaves behind all that was there
(`Follows.overlooked`), and that is never updated again.
-/

namespace Meridian.Replica

variable {α β κ : Type*} {key : α → κ} {key' : β → κ} [DecidableEq κ]

/-- A value is written under its key, or a key is dropped. -/
inductive Update (α κ : Type*) where
  | put (a : α)
  | drop (k : κ)

/-- The key that an update is about. -/
def Update.about (key : α → κ) : Update α κ → κ
  | .put a => key a
  | .drop k => k

/-- A dictionary after an update. -/
def apply (d : Keyed key) : Update α κ → Keyed key
  | .put a => d.set a
  | .drop k => d.erase k

/-- The dictionary after these updates. -/
def replay (key : α → κ) (log : List (Update α κ)) : Keyed key := log.foldl apply Keyed.empty

/-- The keys that a log has been about. -/
def named (key : α → κ) (log : List (Update α κ)) : List κ := log.map (Update.about key)

/-- What may come next: what is there is written again or dropped, or something new is written. -/
def Enabled (key : α → κ) (log : List (Update α κ)) : Update α κ → Prop
  | .put a => key a ∈ (replay key log).keys ∨ key a ∉ named key log
  | .drop k => k ∈ (replay key log).keys

/-- Each update of the log was enabled when it came. -/
def Logged (key : α → κ) (log : List (Update α κ)) : Prop :=
  ∀ old u, old ++ [u] <+: log → Enabled key old u

section Log

variable {log old new : List (Update α κ)} {u : Update α κ} {k : κ}

theorem logged_nil : Logged key [] := fun _ _ h =>
  absurd (List.prefix_nil.mp h) (List.append_ne_nil_of_right_ne_nil _ (List.cons_ne_nil _ _))

theorem Logged.concat (h : Logged key log) (hu : Enabled key log u) : Logged key (log ++ [u]) := by
  intro old v hv
  rcases List.prefix_concat_iff.mp hv with heq | hv
  · obtain ⟨rfl, rfl⟩ := List.append_singleton_inj.mp heq
    exact hu
  · exact h old v hv

theorem replay_concat : replay key (log ++ [u]) = apply (replay key log) u := by
  rw [replay, List.foldl_append]
  rfl

theorem replay_append : replay key (old ++ new) = new.foldl apply (replay key old) :=
  List.foldl_append

omit [DecidableEq κ] in
theorem named_append : named key (old ++ new) = named key old ++ named key new := List.map_append

theorem mem_keys_apply {d : Keyed key} (h : k ≠ u.about key) : k ∈ (apply d u).keys ↔ k ∈ d.keys := by
  cases u with
  | put a => exact Keyed.mem_keys_set.trans (or_iff_right h)
  | drop k' => exact Keyed.mem_keys_erase.trans (and_iff_left h)

/-- What is there has been written. -/
theorem mem_named_of_mem_keys (h : k ∈ (replay key log).keys) : k ∈ named key log := by
  induction log using List.reverseRecOn with
  | nil => cases h
  | append_singleton log u ih =>
    rw [named_append, List.mem_append]
    by_cases hk : k = u.about key
    · exact .inr (List.mem_singleton.mpr hk)
    · rw [replay_concat, mem_keys_apply hk] at h
      exact .inl (ih h)

/-- **What is gone stays gone**, and nothing more is said of it. -/
theorem Logged.gone (h : Logged key (old ++ new)) (hold : k ∈ named key old)
    (hgone : k ∉ (replay key old).keys) :
    k ∉ (replay key (old ++ new)).keys ∧ k ∉ named key new := by
  induction new using List.reverseRecOn with
  | nil => exact ⟨by rwa [List.append_nil], List.not_mem_nil⟩
  | append_singleton new u ih =>
    rw [← List.append_assoc] at h ⊢
    obtain ⟨hkeys, hnew⟩ := ih fun old' v hv => h old' v (hv.trans (List.prefix_append _ _))
    have hk : k ≠ u.about key := by
      intro hk
      have hu := h (old ++ new) u List.prefix_rfl
      cases u with
      | put a =>
        obtain rfl : k = key a := hk
        refine hu.elim hkeys fun hfresh => hfresh ?_
        rw [named_append]
        exact List.mem_append_left _ hold
      | drop k' =>
        obtain rfl : k = k' := hk
        exact hkeys hu
    constructor
    · rwa [replay_concat, mem_keys_apply hk]
    · rw [named_append, List.mem_append, not_or]
      exact ⟨hnew, fun hmem => hk (List.mem_singleton.mp hmem)⟩

end Log

/-! ## Mirrors -/

/-- A value and what shows it. -/
def Shown (key : α → κ) (key' : β → κ) (shows : α → β → Prop) (a : α) (b : β) : Prop :=
  key' b = key a ∧ shows a b

/-- An update and what shows it. -/
inductive ShownUpdate (key : α → κ) (key' : β → κ) (shows : α → β → Prop) :
    Update α κ → Update β κ → Prop where
  | put {a : α} {b : β} (h : Shown key key' shows a b) : ShownUpdate key key' shows (.put a) (.put b)
  | drop (k : κ) : ShownUpdate key key' shows (.drop k) (.drop k)

/-- The one dictionary shows the values of the other, and beside them has the keys `extra`. -/
structure Mirrors (shows : α → β → Prop) (extra : List κ) (d : Keyed key) (m : Keyed key') : Prop where
  keys : ∀ k, k ∈ m.keys ↔ k ∈ d.keys ∨ k ∈ extra
  apart : ∀ k ∈ extra, k ∉ d.keys
  shown : ∀ a ∈ d, ∃ b ∈ m, Shown key key' shows a b

section Mirrors

variable {shows : α → β → Prop} {extra : List κ} {d : Keyed key} {m : Keyed key'} {a : α} {b : β} {k : κ}

omit [DecidableEq κ] in
theorem mirrors_empty : Mirrors shows [] (Keyed.empty : Keyed key) (Keyed.empty : Keyed key') where
  keys _ := (or_iff_left List.not_mem_nil).symm
  apart _ h := absurd h List.not_mem_nil
  shown _ h := absurd h Keyed.not_mem_empty

theorem Mirrors.put (h : Mirrors shows extra d m) (hb : Shown key key' shows a b)
    (ha : key a ∉ extra) : Mirrors shows extra (d.set a) (m.set b) where
  keys k := by
    rw [Keyed.mem_keys_set, Keyed.mem_keys_set, h.keys, hb.1, or_assoc]
  apart k hk := by
    rw [Keyed.mem_keys_set, not_or]
    exact ⟨fun hka => ha (hka ▸ hk), h.apart k hk⟩
  shown x hx := by
    rcases Keyed.mem_set.mp hx with rfl | ⟨hx, hne⟩
    · exact ⟨b, Keyed.mem_set.mpr (.inl rfl), hb⟩
    · obtain ⟨y, hy, hshown⟩ := h.shown x hx
      refine ⟨y, Keyed.mem_set.mpr (.inr ⟨hy, ?_⟩), hshown⟩
      rwa [hshown.1, hb.1]

theorem Mirrors.drop (h : Mirrors shows extra d m) (hk : k ∉ extra) :
    Mirrors shows extra (d.erase k) (m.erase k) where
  keys k' := by
    rw [Keyed.mem_keys_erase, Keyed.mem_keys_erase, h.keys, or_and_right]
    exact or_congr_right (and_iff_left_of_imp fun hk' hne => hk (hne ▸ hk'))
  apart k' hk' hmem := h.apart k' hk' (Keyed.mem_keys_erase.mp hmem).1
  shown x hx := by
    obtain ⟨hx, hne⟩ := Keyed.mem_erase.mp hx
    obtain ⟨y, hy, hshown⟩ := h.shown x hx
    exact ⟨y, Keyed.mem_erase.mpr ⟨hy, hshown.1 ▸ hne⟩, hshown⟩

/-- Updates that are shown keep a mirror, if none is about what is too much. -/
theorem Mirrors.foldl {us : List (Update α κ)} {vs : List (Update β κ)}
    (hus : List.Forall₂ (ShownUpdate key key' shows) us vs) :
    ∀ {d : Keyed key} {m : Keyed key'}, Mirrors shows extra d m → (∀ k ∈ extra, k ∉ named key us) →
      Mirrors shows extra (us.foldl apply d) (vs.foldl apply m) := by
  induction hus with
  | nil => exact fun h _ => h
  | @cons u v us vs hu _ ih =>
    intro d m h hextra
    have hrest : ∀ k ∈ extra, k ∉ named key us := fun k hk hmem =>
      hextra k hk (List.mem_cons_of_mem _ hmem)
    have hfirst : u.about key ∉ extra := fun hk => hextra _ hk List.mem_cons_self
    cases hu with
    | put hb => exact ih (h.put hb hfirst) hrest
    | drop k => exact ih (h.drop hfirst) hrest

omit [DecidableEq κ] in
theorem map_eq_of_shown {as : List α} {bs : List β}
    (hshown : List.Forall₂ (Shown key key' shows) as bs) : bs.map key' = as.map key := by
  induction hshown with
  | nil => rfl
  | cons h _ ih => rw [List.map_cons, List.map_cons, h.1, ih]

/-- A dictionary made of what shows the values, in whatever order they come. -/
theorem mirrors_ofList {as : List α} {bs : List β} (hperm : as.Perm d.toList)
    (hshown : List.Forall₂ (Shown key key' shows) as bs) :
    Mirrors shows [] d (Keyed.ofList bs : Keyed key') := by
  have hkeys : bs.map key' = as.map key := map_eq_of_shown hshown
  have hlist : (Keyed.ofList bs : Keyed key').toList = bs :=
    Keyed.toList_ofList (hkeys ▸ (hperm.map key).nodup_iff.mpr d.nodup)
  refine ⟨fun k => ?_, fun k hk => absurd hk List.not_mem_nil, fun a ha => ?_⟩
  · rw [Keyed.keys, hlist, hkeys, (hperm.map key).mem_iff, or_iff_left List.not_mem_nil]
    rfl
  · obtain ⟨i, hi, hget⟩ := List.getElem_of_mem (hperm.mem_iff.mpr ha)
    have hi' : i < bs.length := hshown.length_eq ▸ hi
    have hmem : bs[i] ∈ (Keyed.ofList bs : Keyed key').toList := by
      rw [hlist]
      exact List.getElem_mem hi'
    refine ⟨bs[i], hmem, ?_⟩
    exact hget ▸ hshown.get hi hi'

end Mirrors

/-! ## Following -/

/-- As far as the first `n` updates the log is shown, and beside that the keys `extra` are there, of
which it had told. -/
structure Follows (shows : α → β → Prop) (log : List (Update α κ)) (n : ℕ) (extra : List κ)
    (m : Keyed key') (key : α → κ) : Prop where
  le : n ≤ log.length
  mirrors : Mirrors shows extra (replay key (log.take n)) m
  told : ∀ k ∈ extra, k ∈ named key (log.take n)

section Follows

variable {shows : α → β → Prop} {log : List (Update α κ)} {n p : ℕ} {extra : List κ} {m : Keyed key'}
  {u : Update α κ}

theorem follows_empty : Follows shows ([] : List (Update α κ)) 0 [] (Keyed.empty : Keyed key') key :=
  ⟨le_rfl, mirrors_empty, fun _ h => absurd h List.not_mem_nil⟩

/-- The log goes on. -/
theorem Follows.concat (h : Follows shows log n extra m key) :
    Follows shows (log ++ [u]) n extra m key := by
  have htake : (log ++ [u]).take n = log.take n := List.take_append_of_le_length h.le
  refine ⟨?_, htake ▸ h.mirrors, htake ▸ h.told⟩
  exact h.le.trans (List.length_append ▸ Nat.le_add_right _ _)

/-- **The next updates** are taken over as they are shown: the replica is as far as the log is after
them. -/
theorem Follows.updates (hlog : Logged key log) (h : Follows shows log n extra m key)
    {us : List (Update α κ)} {vs : List (Update β κ)} (hus : us <+: log.drop n)
    (hvs : List.Forall₂ (ShownUpdate key key' shows) us vs) :
    Follows shows log (n + us.length) extra (vs.foldl apply m) key := by
  have hsplit : log.take (n + us.length) = log.take n ++ us := by
    rw [List.take_add, ← List.prefix_iff_eq_take.mp hus]
  have hprefix : log.take n ++ us <+: log := hsplit ▸ List.take_prefix _ _
  have hgone : ∀ k ∈ extra, k ∉ (replay key (log.take n ++ us)).keys ∧ k ∉ named key us := fun k hk =>
    Logged.gone (fun old v hv => hlog old v (hv.trans hprefix)) (h.told k hk) (h.mirrors.apart k hk)
  refine ⟨?_, ?_, fun k hk => ?_⟩
  · have hlength := hus.length_le
    rw [List.length_drop] at hlength
    have hle := h.le
    omega
  · rw [hsplit, replay_append]
    exact h.mirrors.foldl hvs fun k hk => (hgone k hk).2
  · rw [hsplit, named_append]
    exact List.mem_append_left _ (h.told k hk)

/-- **A filling** with what the log has after `p` updates. -/
theorem follows_snapshot (hp : p ≤ log.length) {as : List α} {bs : List β}
    (hperm : as.Perm (replay key (log.take p)).toList)
    (hshown : List.Forall₂ (Shown key key' shows) as bs) :
    Follows shows log p [] (Keyed.ofList bs : Keyed key') key :=
  ⟨hp, mirrors_ofList hperm hshown, fun _ h => absurd h List.not_mem_nil⟩

/-- **A filling from nothing that is overlooked**: all that is there is too much. -/
theorem Follows.overlooked (h : Follows shows log n extra m key) (hnp : n ≤ p) (hp : p ≤ log.length)
    (hempty : (replay key (log.take p)).toList = []) : Follows shows log p m.keys m key := by
  have hkeys : (replay key (log.take p)).keys = [] := by rw [Keyed.keys, hempty, List.map_nil]
  have hshorter : log.take n <+: log.take p := List.take_prefix_take_left hnp
  refine ⟨hp, ⟨fun k => ?_, fun k _ => ?_, fun a ha => ?_⟩, fun k hk => ?_⟩
  · rw [hkeys, or_iff_right List.not_mem_nil]
  · rw [hkeys]
    exact List.not_mem_nil
  · rw [Keyed.mem_def, hempty] at ha
    exact absurd ha List.not_mem_nil
  · have hnamed : k ∈ named key (log.take n) :=
      ((h.mirrors.keys k).mp hk).elim mem_named_of_mem_keys (h.told k)
    exact (hshorter.map _).subset hnamed

/-- **What is too much is not in the log any more**, however far it is read. -/
theorem Follows.gone (hlog : Logged key log) (h : Follows shows log n extra m key) (hnp : n ≤ p) :
    ∀ k ∈ extra, k ∉ (replay key (log.take p)).keys := by
  intro k hk
  obtain ⟨new, hnew⟩ := List.take_prefix_take_left (l := log) hnp
  have hprefix : log.take n ++ new <+: log := hnew ▸ List.take_prefix _ _
  rw [← hnew]
  exact (Logged.gone (fun old v hv => hlog old v (hv.trans hprefix)) (h.told k hk)
    (h.mirrors.apart k hk)).1

end Follows

end Meridian.Replica
