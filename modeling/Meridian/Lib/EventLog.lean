import Mathlib.Data.List.Infix
import Mathlib.Order.Lattice

/-!
# Logs of events

A log holds the times of events, the newest first. How many of them lie in a window is how many lie
from its start on in the part of the log that ends with its newest one (`count_eq_newest`), so a
bound for windows that end with an event is one for all windows.
-/

namespace Meridian.EventLog

variable {τ : Type*} [LinearOrder τ]

/-- How many events lie in a set of times. -/
def count (p : τ → Prop) [DecidablePred p] (log : List τ) : ℕ := log.countP fun t => decide (p t)

/-- The newest is first. -/
def Newest (log : List τ) : Prop := log.Pairwise (· ≥ ·)

variable {p q : τ → Prop} [DecidablePred p] [DecidablePred q] {log : List τ} {a c t : τ}

omit [LinearOrder τ] in
@[simp] theorem count_nil : count p [] = 0 := rfl

omit [LinearOrder τ] in
theorem count_cons_of_pos (h : p c) : count p (c :: log) = count p log + 1 :=
  List.countP_cons_of_pos (p := fun t => decide (p t)) (decide_eq_true h)

omit [LinearOrder τ] in
theorem count_cons_of_neg (h : ¬p c) : count p (c :: log) = count p log :=
  List.countP_cons_of_neg (p := fun t => decide (p t)) (by simpa using h)

omit [LinearOrder τ] in
theorem count_congr (h : ∀ t ∈ log, p t ↔ q t) : count p log = count q log :=
  List.countP_congr fun t ht => by simpa using h t ht

omit [LinearOrder τ] in
theorem count_mono (h : ∀ t ∈ log, p t → q t) : count p log ≤ count q log :=
  List.countP_mono_left fun t ht => by simpa using h t ht

omit [LinearOrder τ] in
theorem count_eq_zero (h : ∀ t ∈ log, ¬p t) : count p log = 0 :=
  List.countP_eq_zero.mpr fun t ht => by simpa using h t ht

/-- The events before the end of a window are those in it and those before it. -/
theorem count_lt_add {b : τ} (hab : a ≤ b) :
    count (fun t => t < b) log =
      count (fun t => a ≤ t ∧ t < b) log + count (fun t => t < a) log := by
  induction log with
  | nil => rfl
  | cons c log ih =>
    rcases lt_or_ge c a with hca | hac
    · rw [count_cons_of_pos (p := fun t => t < b) (hca.trans_le hab),
        count_cons_of_neg (p := fun t => a ≤ t ∧ t < b) fun h => not_lt.mpr h.1 hca,
        count_cons_of_pos (p := fun t => t < a) hca, ih, Nat.add_assoc]
    · rw [count_cons_of_neg (p := fun t => t < a) (not_lt.mpr hac)]
      rcases lt_or_ge c b with hcb | hbc
      · rw [count_cons_of_pos (p := fun t => t < b) hcb,
          count_cons_of_pos (p := fun t => a ≤ t ∧ t < b) ⟨hac, hcb⟩, ih, Nat.add_right_comm]
      · rw [count_cons_of_neg (p := fun t => t < b) (not_lt.mpr hbc),
          count_cons_of_neg (p := fun t => a ≤ t ∧ t < b) fun h => not_lt.mpr hbc h.2, ih]

theorem Newest.cons (h : Newest log) (hc : ∀ t ∈ log, t ≤ c) : Newest (c :: log) :=
  List.pairwise_cons.mpr ⟨hc, h⟩

/-- **The newest event of a window** counts all of it: a window holds no event, or as many as were
there at its newest one. -/
theorem count_eq_newest (hlog : Newest log) (hq : ∀ s t, s ≤ t → q t → q s)
    [DecidablePred fun t => a ≤ t ∧ q t] [DecidablePred fun t => a ≤ t] :
    count (fun t => a ≤ t ∧ q t) log = 0 ∨ ∃ c older, c :: older <:+ log ∧ a ≤ c ∧ q c ∧
      count (fun t => a ≤ t ∧ q t) log = count (fun t => a ≤ t) (c :: older) := by
  induction log with
  | nil => exact Or.inl count_nil
  | cons c log ih =>
    obtain ⟨hc, hlog'⟩ := List.pairwise_cons.mp hlog
    by_cases hqc : q c
    · -- The whole log lies before the end of the window.
      have hall : ∀ t ∈ c :: log, a ≤ t ∧ q t ↔ a ≤ t := by
        intro t ht
        have htc : t ≤ c := by
          rcases List.mem_cons.mp ht with rfl | ht
          · exact le_rfl
          · exact hc t ht
        exact and_iff_left (hq t c htc hqc)
      by_cases hac : a ≤ c
      · exact Or.inr ⟨c, log, List.suffix_rfl, hac, hqc, count_congr hall⟩
      · refine Or.inl (count_eq_zero fun t ht h => ?_)
        rcases List.mem_cons.mp ht with rfl | ht
        · exact hac h.1
        · exact hac (h.1.trans (hc t ht))
    · rw [count_cons_of_neg fun h => hqc h.2]
      refine (ih hlog').imp_right fun h => ?_
      obtain ⟨b, older, hsuffix, hrest⟩ := h
      exact ⟨b, older, hsuffix.trans (List.suffix_cons c log), hrest⟩

end Meridian.EventLog
