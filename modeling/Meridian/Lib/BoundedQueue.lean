import Mathlib.Data.Nat.Notation
import Mathlib.Tactic.Common

/-!
# Bounded first-in first-out queues

A queue that holds at most `maxsize` elements; the bound is a field, so no longer queue can be
built. `put_nowait` and `get_nowait` do not wait: they fail on a full and on an empty queue. `offer`
drops what does not fit, which is the newest element, `push` makes room by dropping the oldest one,
and `drain` takes all and keeps the last.
-/

namespace Meridian

variable {α : Type*} {maxsize : ℕ}

/-- At most `maxsize` elements, the oldest first. -/
structure BoundedQueue (α : Type*) (maxsize : ℕ) where
  items : List α
  bound : items.length ≤ maxsize

namespace BoundedQueue

/-- The empty queue. -/
def empty : BoundedQueue α maxsize := ⟨[], Nat.zero_le _⟩

instance : Inhabited (BoundedQueue α maxsize) := ⟨empty⟩

/-- No room is left. -/
def full (q : BoundedQueue α maxsize) : Bool := decide (maxsize ≤ q.items.length)

/-- Append `a`, or fail on a full queue. -/
def put_nowait (q : BoundedQueue α maxsize) (a : α) : Option (BoundedQueue α maxsize) :=
  if h : q.items.length < maxsize then
    some ⟨q.items ++ [a], by rw [List.length_append, List.length_singleton]; exact h⟩
  else none

/-- Append `a`, or drop it. -/
def offer (q : BoundedQueue α maxsize) (a : α) : BoundedQueue α maxsize :=
  match q.put_nowait a with
  | some q' => q'
  | none => q

/-- Append `a`, and drop what is too much in front. -/
def push (q : BoundedQueue α maxsize) (a : α) : BoundedQueue α maxsize :=
  ⟨(q.items ++ [a]).drop ((q.items ++ [a]).length - maxsize), by rw [List.length_drop]; omega⟩

/-- Append all, one after the other. -/
def pushAll (q : BoundedQueue α maxsize) (l : List α) : BoundedQueue α maxsize :=
  l.foldl push q

/-- Take the oldest element, or fail on an empty queue. -/
def get_nowait (q : BoundedQueue α maxsize) : Option (α × BoundedQueue α maxsize) :=
  match hq : q.items with
  | [] => none
  | a :: l => some (a, ⟨l, Nat.le_of_succ_le (by simpa [hq] using q.bound)⟩)

/-- Take elements until none is left, each in place of the one before. -/
def latest : List α → Option α → Option α
  | [], a => a
  | b :: l, _ => latest l (some b)

/-- Empty the queue; the element taken last, if there was one. -/
def drain (q : BoundedQueue α maxsize) : Option α × BoundedQueue α maxsize :=
  (latest q.items none, empty)

variable {q : BoundedQueue α maxsize} {a : α}

theorem items_offer_of_not_full (h : q.full = false) : (q.offer a).items = q.items ++ [a] := by
  have hlt : q.items.length < maxsize := Nat.lt_of_not_le (of_decide_eq_false h)
  rw [offer, put_nowait, dif_pos hlt]

theorem offer_of_full (h : q.full = true) : q.offer a = q := by
  have hge : ¬q.items.length < maxsize := Nat.not_lt_of_le (of_decide_eq_true h)
  rw [offer, put_nowait, dif_neg hge]

theorem put_nowait_eq_none : q.put_nowait a = none ↔ q.full = true := by
  rw [put_nowait, full, decide_eq_true_iff]
  split_ifs with h
  · exact iff_of_false not_false (Nat.not_le_of_lt h)
  · exact iff_of_true rfl (Nat.le_of_not_lt h)

/-- An element of the queue after an `offer` is the one offered or was there before. -/
theorem mem_items_offer {b : α} (h : b ∈ (q.offer a).items) : b ∈ q.items ∨ b = a := by
  cases hf : q.full with
  | true =>
    rw [offer_of_full hf] at h
    exact Or.inl h
  | false =>
    rw [items_offer_of_not_full hf] at h
    exact (List.mem_append.mp h).imp_right List.mem_singleton.mp

theorem get_nowait_eq_some {q' : BoundedQueue α maxsize} (h : q.get_nowait = some (a, q')) :
    q.items = a :: q'.items := by
  unfold get_nowait at h
  split at h
  · cases h
  · rename_i b l hq
    obtain ⟨rfl, rfl⟩ := Prod.mk.inj (Option.some.inj h)
    exact hq

theorem exists_get_nowait {l : List α} (h : q.items = a :: l) :
    ∃ q', q.get_nowait = some (a, q') ∧ q'.items = l := by
  unfold get_nowait
  split
  · rename_i hq
    exact absurd (h.symm.trans hq) (by simp)
  · rename_i b l' hq
    cases h.symm.trans hq
    exact ⟨_, rfl, rfl⟩

theorem items_push (q : BoundedQueue α maxsize) (a : α) :
    (q.push a).items = (q.items ++ [a]).drop ((q.items ++ [a]).length - maxsize) := rfl

theorem items_push_of_lt (h : q.items.length < maxsize) : (q.push a).items = q.items ++ [a] := by
  have hzero : (q.items ++ [a]).length - maxsize = 0 := by
    rw [List.length_append, List.length_singleton]
    omega
  rw [items_push, hzero, List.drop_zero]

theorem length_push (q : BoundedQueue α maxsize) (a : α) :
    (q.push a).items.length = min (q.items.length + 1) maxsize := by
  rw [items_push, List.length_drop, List.length_append, List.length_singleton]
  omega

/-- The newest elements that fit. -/
theorem items_pushAll (q : BoundedQueue α maxsize) (l : List α) :
    (q.pushAll l).items = (q.items ++ l).drop ((q.items ++ l).length - maxsize) := by
  induction l generalizing q with
  | nil =>
    have hfits : (q.items ++ []).length - maxsize = 0 := by
      rw [List.append_nil]
      exact Nat.sub_eq_zero_of_le q.bound
    rw [hfits, List.drop_zero, List.append_nil]
    rfl
  | cons a l ih =>
    have hdrop : (q.push a).items ++ l =
        (q.items ++ a :: l).drop ((q.items ++ [a]).length - maxsize) := by
      rw [items_push, ← List.drop_append_of_le_length (Nat.sub_le _ _), List.append_assoc,
        List.singleton_append]
    have hbound := q.bound
    refine (ih (q.push a)).trans ?_
    rw [hdrop, List.drop_drop, List.length_drop]
    congr 1
    simp only [List.length_append, List.length_cons, List.length_nil]
    omega

/-- What stood last stays in front of what is appended. -/
theorem items_push_append {l r : List α} (h : r.length < maxsize) (hq : q.items = l ++ r) :
    ∃ l', (q.push a).items = l' ++ (r ++ [a]) := by
  have hbound := q.bound
  rw [hq, List.length_append] at hbound
  refine ⟨l.drop ((q.items ++ [a]).length - maxsize), ?_⟩
  rw [items_push, hq, List.append_assoc, List.drop_append_of_le_length]
  simp only [List.length_append, List.length_singleton]
  omega

theorem latest_eq (l : List α) (a : Option α) : latest l a = l.getLast?.or a := by
  induction l generalizing a with
  | nil => rfl
  | cons b l ih =>
    rw [latest, ih, List.getLast?_cons]
    cases l.getLast? <;> rfl

theorem drain_eq (q : BoundedQueue α maxsize) : q.drain = (q.items.getLast?, empty) := by
  rw [drain, latest_eq, Option.or_none]

end BoundedQueue

end Meridian
