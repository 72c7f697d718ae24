import Mathlib.Algebra.Order.Group.Int
import Mathlib.Data.List.Pairwise
import Mathlib.Tactic.IntervalCases

/-!
# The delay before the next connection attempt

The outer loop of `io_thread_main` of `gate_connector.cpp` (338-564), `kucoin_connector.cpp`
(223-319) and `mexc_connector.cpp` (254-356), as far as it decides how long the thread sleeps:
`std::min(2 << retry_count, 60)` seconds, with a count that a received message sets back. An `int`
has 32 bits: a left shift is taken modulo `2^32`, and by 32 or more, or by a negative count, it is
undefined, which is `none` here. One turn of the loop is what happens until the thread is about to
connect again, so `running_` holds after each turn.

Results:
* `ladder_fine_iff`: the delays of a streak are in order for up to 30;
* `delays_fine_iff`: when the delays after any turns and `n` further failed attempts are.
-/

namespace Meridian.RetryDelay

/-- The connectors whose io thread sleeps so. -/
inductive Connector where
  | gate
  | kucoin
  | mexc
  deriving DecidableEq

/-- `x << n` for an `int` -/
def shift_left (x n : ℤ) : Option ℤ :=
  if 0 ≤ n ∧ n < 32 then some ((x * 2 ^ n.toNat).bmod 4294967296) else none

/-- `std::min(2 << retry_count, 60)` -/
def delay_s (retry_count : ℤ) : Option ℤ := (shift_left 2 retry_count).map fun d => min d 60

/-- One turn of the outer loop. -/
structure Turn where
  /-- a message arrived, which sets the count back once -/
  received : Bool
  /-- the turn ended with an exception -/
  thrown : Bool
  deriving DecidableEq

/-- Where the delay stands: behind the `try` of Gate, in the `catch` of the others. -/
def Connector.sleeps : Connector → Turn → Bool
  | .gate, _ => true
  | .kucoin, t => t.thrown
  | .mexc, t => t.thrown

structure State where
  retry_count : ℤ
  /-- history: the delays since the count was last 0, the newest first -/
  streak : List ℤ
  deriving DecidableEq

/-- The thread starts. -/
def start : State := ⟨0, []⟩

/-- The sleep and the count after it. -/
def sleep (s : State) : Option State :=
  (delay_s s.retry_count).map fun d => ⟨s.retry_count + 1, d :: s.streak⟩

def turn (C : Connector) (s : State) (t : Turn) : Option State :=
  let s := if t.received then start else s
  if C.sleeps t then sleep s else some s

/-- Turns, one after the other. -/
def run (C : Connector) : List Turn → State → Option State
  | [], s => some s
  | t :: ts, s => (turn C s t).bind (run C ts)

/-- An attempt that fails. -/
def failed : Turn := ⟨false, true⟩

/-- The delays are 2 to 60 seconds long and never decrease. -/
structure Fine (streak : List ℤ) : Prop where
  range : ∀ d ∈ streak, 2 ≤ d ∧ d ≤ 60
  newest : streak.Pairwise (· ≥ ·)

instance (streak : List ℤ) : Decidable (Fine streak) :=
  decidable_of_iff ((∀ d ∈ streak, 2 ≤ d ∧ d ≤ 60) ∧ streak.Pairwise (· ≥ ·))
    ⟨fun h => ⟨h.1, h.2⟩, fun h => ⟨h.1, h.2⟩⟩

/-! ## A streak of delays -/

/-- The delays of a streak of `n`, as long as they are defined. -/
def ladder : ℕ → Option (List ℤ)
  | 0 => some []
  | n + 1 => (ladder n).bind fun l => (delay_s n).map (· :: l)

/-- A longer streak begins with the shorter one. -/
theorem ladder_suffix {n k : ℕ} {l : List ℤ} (h : ladder (n + k) = some l) :
    ∃ older, ladder n = some older ∧ older <:+ l := by
  induction k generalizing l with
  | zero => exact ⟨l, h, List.suffix_rfl⟩
  | succ k ih =>
    obtain ⟨longer, hlonger, hrest⟩ := Option.bind_eq_some_iff.mp h
    obtain ⟨d, -, rfl⟩ := Option.map_eq_some_iff.mp hrest
    obtain ⟨older, holder, hsuffix⟩ := ih hlonger
    exact ⟨older, holder, hsuffix.trans (List.suffix_cons d longer)⟩

/-- Up to 30 delays are defined and in order. -/
theorem ladder_fine {n : ℕ} (hn : n ≤ 30) : ∃ l, ladder n = some l ∧ Fine l := by
  have hall : ∀ n < 31, (ladder n).any fun l => decide (Fine l) := by decide +kernel
  have hfine := hall n (by omega)
  cases hl : ladder n with
  | none =>
    rw [hl] at hfine
    cases hfine
  | some l =>
    rw [hl] at hfine
    exact ⟨l, rfl, of_decide_eq_true hfine⟩

/-- The 31st is negative. -/
theorem ladder_31 : (ladder 31).map List.head? = some (some (-2147483648)) := by decide +kernel

/-- **A streak** is in order if and only if it is no longer than 30. -/
theorem ladder_fine_iff {n : ℕ} : (∃ l, ladder n = some l ∧ Fine l) ↔ n ≤ 30 := by
  refine ⟨fun h => ?_, ladder_fine⟩
  obtain ⟨l, hl, hfine⟩ := h
  by_contra hn
  obtain ⟨k, rfl⟩ : ∃ k, n = 31 + k := ⟨n - 31, by omega⟩
  obtain ⟨older, holder, hsuffix⟩ := ladder_suffix hl
  have hhead := ladder_31
  rw [holder, Option.map_some, Option.some_inj] at hhead
  have hmem : (-2147483648 : ℤ) ∈ l := hsuffix.subset (List.mem_of_head? hhead)
  exact absurd (hfine.range _ hmem).1 (by decide)

/-! ## Runs -/

variable {C : Connector} {s s' : State} {t : Turn}

/-- The count is the length of the streak, and the streak is the delays that counts from 0 on give.
-/
structure Inv (s : State) : Prop where
  count : s.retry_count = s.streak.length
  streak : ladder s.streak.length = some s.streak

theorem inv_start : Inv start := ⟨rfl, rfl⟩

theorem Inv.sleep (h : Inv s) (hs : sleep s = some s') : Inv s' := by
  obtain ⟨d, hd, rfl⟩ := Option.map_eq_some_iff.mp hs
  rw [h.count] at hd
  refine ⟨?_, ?_⟩
  · rw [h.count]
    simp
  · rw [List.length_cons, ladder, h.streak, Option.bind_some, hd, Option.map_some]

theorem Inv.turn (h : Inv s) (hs : turn C s t = some s') : Inv s' := by
  have hbegin : Inv (if t.received then start else s) := by
    split
    · exact inv_start
    · exact h
  unfold RetryDelay.turn at hs
  simp only at hs
  split at hs
  · exact hbegin.sleep hs
  · obtain rfl := Option.some.inj hs
    exact hbegin

theorem Inv.run {ts : List Turn} (h : Inv s) (hs : run C ts s = some s') : Inv s' := by
  induction ts generalizing s with
  | nil =>
    obtain rfl := Option.some.inj hs
    exact h
  | cons t ts ih =>
    obtain ⟨s1, hs1, hrest⟩ := Option.bind_eq_some_iff.mp hs
    exact ih (h.turn hs1) hrest

/-- A failed attempt is one more delay, on every connector. -/
theorem turn_failed (C : Connector) (s : State) : turn C s failed = sleep s := by
  cases C <;> rfl

/-- Further failed attempts go on with the ladder. -/
theorem Inv.run_failed (h : Inv s) (C : Connector) (n : ℕ) :
    (RetryDelay.run C (List.replicate n failed) s).map State.streak =
      ladder (s.streak.length + n) := by
  induction n generalizing s with
  | zero =>
    rw [List.replicate_zero, RetryDelay.run, Option.map_some, add_zero, h.streak]
  | succ n ih =>
    rw [List.replicate_succ, RetryDelay.run, turn_failed]
    have hnext : ladder (s.streak.length + 1) = (delay_s s.retry_count).map (· :: s.streak) := by
      rw [ladder, h.streak, Option.bind_some, h.count]
    cases hd : delay_s s.retry_count with
    | none =>
      have hsleep : RetryDelay.sleep s = none := by rw [RetryDelay.sleep, hd, Option.map_none]
      rw [hsleep, Option.bind_none, Option.map_none]
      cases hl : ladder (s.streak.length + (n + 1)) with
      | none => rfl
      | some l =>
        rw [show s.streak.length + (n + 1) = s.streak.length + 1 + n by omega] at hl
        obtain ⟨older, holder, -⟩ := ladder_suffix hl
        rw [hnext, hd, Option.map_none] at holder
        cases holder
    | some d =>
      have hsleep : RetryDelay.sleep s = some ⟨s.retry_count + 1, d :: s.streak⟩ := by
        rw [RetryDelay.sleep, hd, Option.map_some]
      rw [hsleep, Option.bind_some, ih (h.sleep hsleep), List.length_cons]
      congr 1
      omega

/-- **The delays of an outage**: after any turns of any io thread and `n` failed attempts after them,
no shift was undefined and all delays since the count was last 0 are 2 to 60 seconds long and never
decrease, if and only if these are no more than 30. -/
theorem delays_fine_iff (C : Connector) (turns : List Turn) (s : State)
    (h : run C turns start = some s) (n : ℕ) :
    (∃ s', run C (List.replicate n failed) s = some s' ∧ Fine s'.streak) ↔
      s.streak.length + n ≤ 30 := by
  rw [← ladder_fine_iff, ← (inv_start.run h).run_failed C n]
  constructor
  · rintro ⟨s', hs', hfine⟩
    exact ⟨s'.streak, by rw [hs', Option.map_some], hfine⟩
  · rintro ⟨l, hl, hfine⟩
    obtain ⟨s', hs', rfl⟩ := Option.map_eq_some_iff.mp hl
    exact ⟨s', hs', hfine⟩

/-- A lost connection of MEXC and 29 failed attempts. -/
theorem delays_fine_lost : ∃ s', run .mexc (List.replicate 29 failed) ⟨1, [2]⟩ = some s' ∧
    Fine s'.streak :=
  (delays_fine_iff .mexc [failed, ⟨true, true⟩] ⟨1, [2]⟩ (by decide +kernel) 29).mpr (by simp)

/-- **Half an hour of outage** of Gate: the 31st delay is `-2^31` seconds, the 32nd 0, and the count of
the 33rd shift is undefined. -/
theorem delays_wrap :
    (run .gate (List.replicate 32 failed) start).map (fun s => s.streak.take 2) =
      some [0, -2147483648] ∧
    run .gate (List.replicate 33 failed) start = none :=
  ⟨by decide +kernel, by decide +kernel⟩

end Meridian.RetryDelay
