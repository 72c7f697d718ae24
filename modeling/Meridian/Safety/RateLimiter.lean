import Mathlib.Algebra.Order.Field.Basic
import Mathlib.Data.Nat.Cast.Order.Ring
import Mathlib.Tactic.FieldSimp
import Mathlib.Tactic.Linarith
import Mathlib.Tactic.Ring
import Meridian.Lib.EventLog
import Meridian.Lib.Run

/-!
# The rate limiter

Model of `safety/rate_limiter.py`: a bucket of `max_per_second` tokens that fills at that rate. An
`acquire` runs under an `asyncio.Lock`, so at most one sleeps while the others wait for the lock;
which of them gets it next is left open, and any call may be cancelled where it waits or sleeps. The
event loop runs from one suspension to the next in no time: a call completes at the time of its last
refill. Between its steps time passes by any amounts, and a sleep lasts at least as long as asked
for.

Results:
* `Budget.take`: what an interval has seen and what is left is never more than its budget;
* `rate_limited`: the tokens stay in range, and no interval of length `T` sees more than
  `max_per_second * (1 + T)` completions, in every run.

Out of scope: the rounding of doubles.
-/

namespace Meridian

open EventLog Run

/-- `RateLimiter` (`rate_limiter.py:26-31`). -/
structure RateLimiter (K : Type*) where
  max : ℕ
  tokens : K
  last_refill : K
  deriving DecidableEq

namespace RateLimiter

variable {K : Type*} [Field K] [LinearOrder K]

/-- A new limiter. -/
def new (max_per_second : ℕ) (now : K) : RateLimiter K := ⟨max_per_second, max_per_second, now⟩

/-- `_refill` (`rate_limiter.py:44-48`) at the time `now`. -/
def refill (l : RateLimiter K) (now : K) : RateLimiter K :=
  { l with
    tokens := min (l.max : K) (l.tokens + (now - l.last_refill) * l.max)
    last_refill := now }

/-- `self._tokens -= 1.0` -/
def take (l : RateLimiter K) : RateLimiter K := { l with tokens := l.tokens - 1 }

/-- How long a call sleeps for the next token. -/
def wait (l : RateLimiter K) : K := (1 - l.tokens) / l.max

/-- `acquire` (`rate_limiter.py:33-42`) up to the sleep, or to the end where there is a token: the
limiter, and the time to sleep. -/
def enter (l : RateLimiter K) (now : K) : RateLimiter K × Option K :=
  let l := l.refill now
  if l.tokens < 1 then (l, some l.wait) else (l.take, none)

/-- `acquire` after the sleep. -/
def resume (l : RateLimiter K) (now : K) : RateLimiter K := (l.refill now).take

/-! ## Concurrent calls -/

structure State (K : Type*) where
  limiter : RateLimiter K
  clock : K
  /-- the lock: when its holder's sleep is over, or free -/
  asleep : Option K
  /-- how many calls wait for the lock -/
  waiting : ℕ
  /-- when calls completed, the newest first -/
  completed : List K
  deriving DecidableEq

inductive Act (K : Type*) where
  | elapse (d : K)
  | call
  | enter
  | wake
  | cancel_waiting
  | cancel_asleep

/-- A limiter that is made at the time `now`. -/
def init (max_per_second : ℕ) (now : K) : State K := ⟨new max_per_second now, now, none, 0, []⟩

/-- A call has the lock: it takes a token or goes to sleep. -/
def State.locked (s : State K) : State K :=
  match s.limiter.enter s.clock with
  | (l, some wait) => { s with limiter := l, asleep := some (s.clock + wait), waiting := s.waiting - 1 }
  | (l, none) =>
    { s with limiter := l, waiting := s.waiting - 1, completed := s.clock :: s.completed }

def next (s : State K) : Act K → Option (State K)
  | .elapse d => if 0 ≤ d then some { s with clock := s.clock + d } else none
  | .call => some { s with waiting := s.waiting + 1 }
  | .enter => if s.asleep = none ∧ 0 < s.waiting then some s.locked else none
  | .wake =>
    match s.asleep with
    | some due =>
      if due ≤ s.clock then
        some { s with
          limiter := s.limiter.resume s.clock, asleep := none, completed := s.clock :: s.completed }
      else none
    | none => none
  | .cancel_waiting => if 0 < s.waiting then some { s with waiting := s.waiting - 1 } else none
  | .cancel_asleep => if s.asleep.isSome then some { s with asleep := none } else none

/-! ## The budget of an interval -/

section Budget

variable {l : RateLimiter K} {log : List K} {now : K}

@[simp] theorem refill_max (l : RateLimiter K) (now : K) : (l.refill now).max = l.max := rfl

@[simp] theorem refill_last_refill (l : RateLimiter K) (now : K) :
    (l.refill now).last_refill = now := rfl

omit [LinearOrder K] in
@[simp] theorem take_max (l : RateLimiter K) : l.take.max = l.max := rfl

/-- The tokens are in range. -/
structure InRange (l : RateLimiter K) : Prop where
  nonneg : 0 ≤ l.tokens
  le_max : l.tokens ≤ l.max

/-- The tokens of a limiter and the completions of the calls so far: an interval that reaches up to
the last refill has a budget of `max * (1 + T)`, and what is left of it covers the tokens. -/
structure Budget (l : RateLimiter K) (log : List K) : Prop where
  range : l.InRange
  before : ∀ c ∈ log, c ≤ l.last_refill
  newest : Newest log
  covers : ∀ a ≤ l.last_refill,
    (count (a ≤ ·) log : K) + l.tokens ≤ l.max * (1 + (l.last_refill - a))
  spent : ∀ c older, c :: older <:+ log → ∀ a ≤ c,
    (count (a ≤ ·) (c :: older) : K) ≤ l.max * (1 + (c - a))

variable [IsStrictOrderedRing K]

theorem InRange.refill (h : l.InRange) (hnow : l.last_refill ≤ now) : (l.refill now).InRange where
  nonneg := by
    have hadd : 0 ≤ (now - l.last_refill) * l.max :=
      mul_nonneg (sub_nonneg.mpr hnow) (Nat.cast_nonneg _)
    exact le_min (Nat.cast_nonneg _) (add_nonneg h.nonneg hadd)
  le_max := min_le_left _ _

/-- A refill adds no more than the time that passed. -/
theorem Budget.refill (h : Budget l log) (hnow : l.last_refill ≤ now) :
    Budget (l.refill now) log where
  range := h.range.refill hnow
  before c hc := (h.before c hc).trans hnow
  newest := h.newest
  covers a ha := by
    simp only [refill_max, refill_last_refill] at ha ⊢
    rcases le_or_gt a l.last_refill with hle | hlt
    · have hadded : (l.refill now).tokens ≤ l.tokens + (now - l.last_refill) * l.max :=
        min_le_right _ _
      have hcovers := h.covers a hle
      linarith
    · -- No call has completed since `a`.
      have hzero : count (a ≤ ·) log = 0 :=
        count_eq_zero fun c hc hac => absurd (hac.trans (h.before c hc)) (not_le.mpr hlt)
      have hmax : (l.refill now).tokens ≤ l.max := min_le_left _ _
      have hmore : 0 ≤ (l.max : K) * (now - a) :=
        mul_nonneg (Nat.cast_nonneg _) (sub_nonneg.mpr ha)
      rw [hzero, Nat.cast_zero]
      linarith
  spent := h.spent

/-- **A token is taken** for a call that completes at the last refill. -/
theorem Budget.take (h : Budget l log) (htoken : 1 ≤ l.tokens) :
    Budget l.take (l.last_refill :: log) := by
  have hcons : ∀ a ≤ l.last_refill,
      (count (a ≤ ·) (l.last_refill :: log) : K) + (l.tokens - 1) ≤
        l.max * (1 + (l.last_refill - a)) := by
    intro a ha
    have hcovers := h.covers a ha
    rw [count_cons_of_pos ha]
    push_cast
    linarith
  refine ⟨⟨?_, ?_⟩, fun c hc => ?_, h.newest.cons h.before, hcons, fun c older hsuffix a ha => ?_⟩
  · exact sub_nonneg.mpr htoken
  · exact (sub_le_self _ zero_le_one).trans h.range.le_max
  · rcases List.mem_cons.mp hc with rfl | hc
    · exact le_rfl
    · exact h.before c hc
  · rcases List.suffix_cons_iff.mp hsuffix with heq | hsuffix
    · obtain ⟨rfl, rfl⟩ := List.cons.inj heq
      have hle := hcons a ha
      simp only [take_max]
      linarith
    · exact h.spent c older hsuffix a ha

/-- **All intervals**: also one that ends before the last refill, or between two completions. -/
theorem Budget.interval (h : Budget l log) (a T : K) (hT : 0 ≤ T) :
    (count (fun t => a ≤ t ∧ t ≤ a + T) log : K) ≤ l.max * (1 + T) := by
  have hmax : (0 : K) ≤ l.max := Nat.cast_nonneg _
  have hcases := count_eq_newest (q := (· ≤ a + T)) (a := a) h.newest fun s t hst ht => hst.trans ht
  rcases hcases with hzero | ⟨c, older, hsuffix, hac, hc, heq⟩
  · rw [hzero, Nat.cast_zero]
    exact mul_nonneg hmax (by linarith)
  · rw [heq]
    refine (h.spent c older hsuffix a hac).trans ?_
    exact mul_le_mul_of_nonneg_left (by linarith) hmax

end Budget

/-! ## Runs -/

section Runs

variable {s s' : State K} {max_per_second : ℕ} {t0 : K}

/-- What every run keeps: what an interval has seen and what is left is within its budget, and a
call that sleeps finds its token after it. -/
structure Inv (max_per_second : ℕ) (s : State K) : Prop where
  max : s.limiter.max = max_per_second
  budget : Budget s.limiter s.completed
  clock : s.limiter.last_refill ≤ s.clock
  /-- after its sleep a call finds a token -/
  asleep : ∀ due ∈ s.asleep, 1 ≤ s.limiter.tokens + (due - s.limiter.last_refill) * s.limiter.max

variable [IsStrictOrderedRing K]

theorem inv_init (max_per_second : ℕ) (t0 : K) : Inv max_per_second (init max_per_second t0) where
  max := rfl
  budget :=
    { range := ⟨Nat.cast_nonneg _, le_rfl⟩
      before := fun c hc => absurd hc List.not_mem_nil
      newest := List.Pairwise.nil
      covers := fun a ha => by
        have hmore : 0 ≤ (max_per_second : K) * (t0 - a) :=
          mul_nonneg (Nat.cast_nonneg _) (sub_nonneg.mpr ha)
        simp only [init, new, count_nil, Nat.cast_zero]
        linarith
      spent := fun c older h => by cases List.suffix_nil.mp h }
  clock := le_rfl
  asleep due h := by cases h

/-- The call that has the lock. -/
theorem Inv.locked (h : Inv max_per_second s) (hmax : 1 ≤ max_per_second)
    (hfree : s.asleep = none) : Inv max_per_second s.locked := by
  have hrefill : Budget (s.limiter.refill s.clock) s.completed := h.budget.refill h.clock
  have hpos : (0 : K) < s.limiter.max := by
    rw [h.max]
    exact_mod_cast hmax
  unfold State.locked
  rw [enter]
  by_cases htoken : (s.limiter.refill s.clock).tokens < 1
  · rw [if_pos htoken]
    refine ⟨h.max, hrefill, le_rfl, fun due hdue => ?_⟩
    obtain rfl := Option.some.inj hdue
    simp only [refill_max, refill_last_refill, wait, add_sub_cancel_left]
    rw [div_mul_cancel₀ _ hpos.ne']
    linarith
  · rw [if_neg htoken]
    refine ⟨h.max, hrefill.take (not_lt.mp htoken), le_rfl, fun due hdue => ?_⟩
    simp only [hfree] at hdue
    cases hdue

/-- The call whose sleep is over. -/
theorem Inv.wake (h : Inv max_per_second s) (hmax : 1 ≤ max_per_second) {due : K}
    (hdue : s.asleep = some due) (hover : due ≤ s.clock) :
    Inv max_per_second { s with
      limiter := s.limiter.resume s.clock, asleep := none, completed := s.clock :: s.completed } := by
  have hrefill : Budget (s.limiter.refill s.clock) s.completed := h.budget.refill h.clock
  have htoken : 1 ≤ (s.limiter.refill s.clock).tokens := by
    refine le_min ?_ ?_
    · rw [h.max]
      exact_mod_cast hmax
    · have hslept := h.asleep due hdue
      have hlonger : (due - s.limiter.last_refill) * s.limiter.max ≤
          (s.clock - s.limiter.last_refill) * s.limiter.max :=
        mul_le_mul_of_nonneg_right (by linarith) (Nat.cast_nonneg _)
      linarith
  exact ⟨h.max, hrefill.take htoken, le_rfl, fun _ h => by cases h⟩

/-- **Step**: a refill stays within the budget of every interval, and a call takes a token only
where one is there. -/
theorem inv_step {a : Act K} (hmax : 1 ≤ max_per_second) (h : Inv max_per_second s)
    (hs : next s a = some s') : Inv max_per_second s' := by
  cases a with
  | elapse d =>
    simp only [next] at hs
    split at hs
    · rename_i hd
      obtain rfl := Option.some.inj hs
      exact ⟨h.max, h.budget, h.clock.trans (le_add_of_nonneg_right hd), h.asleep⟩
    · cases hs
  | call =>
    obtain rfl := Option.some.inj hs
    exact ⟨h.max, h.budget, h.clock, h.asleep⟩
  | enter =>
    simp only [next] at hs
    split at hs
    · rename_i hlock
      obtain rfl := Option.some.inj hs
      exact h.locked hmax hlock.1
    · cases hs
  | wake =>
    simp only [next] at hs
    split at hs
    · rename_i due hdue
      split at hs
      · rename_i hover
        obtain rfl := Option.some.inj hs
        exact h.wake hmax hdue hover
      · cases hs
    · cases hs
  | cancel_waiting =>
    simp only [next] at hs
    split at hs
    · obtain rfl := Option.some.inj hs
      exact ⟨h.max, h.budget, h.clock, h.asleep⟩
    · cases hs
  | cancel_asleep =>
    simp only [next] at hs
    split at hs
    · obtain rfl := Option.some.inj hs
      exact ⟨h.max, h.budget, h.clock, fun due h => by cases h⟩
    · cases hs

/-- **The limit**: in every run of concurrent calls the tokens lie in `[0, max]`, also between a
refill and the token that is taken after it, and every interval of length `T` sees at most
`max * (1 + T)` completions. -/
theorem rate_limited (max_per_second : ℕ) (hmax : 1 ≤ max_per_second) (t0 : K) (s : State K)
    (h : Reaches (Fires next) (fun _ _ => True) (init max_per_second t0) s) :
    s.limiter.InRange ∧ (s.limiter.refill s.clock).InRange ∧ s.limiter.max = max_per_second ∧
    ∀ a T : K, 0 ≤ T →
      (count (fun t => a ≤ t ∧ t ≤ a + T) s.completed : K) ≤ max_per_second * (1 + T) := by
  have hinv : Inv max_per_second s :=
    h.inv (inv_init max_per_second t0) fun _ _ _ hi _ hs => inv_step hmax hi hs
  refine ⟨hinv.budget.range, hinv.budget.range.refill hinv.clock, hinv.max, fun a T hT => ?_⟩
  rw [← hinv.max]
  exact hinv.budget.interval a T hT

/-- Two calls at once, of which the second has to sleep for a second. -/
theorem rate_limited_two : ∃ s : State ℚ, s.completed = [1, 0] ∧
    (count (fun t => (0 : ℚ) ≤ t ∧ t ≤ 0 + 1) s.completed : ℚ) ≤ (1 : ℕ) * (1 + 1) := by
  have hplay : play next (fun _ _ => True) (init 1 (0 : ℚ))
      [.call, .enter, .call, .enter, .elapse 1, .wake] = some ⟨⟨1, 0, 1⟩, 1, none, 0, [1, 0]⟩ := by
    decide +kernel
  have hlimited := rate_limited 1 (by decide) 0 _ (reaches_of_play hplay)
  exact ⟨_, rfl, hlimited.2.2.2 0 1 zero_le_one⟩

end Runs

end RateLimiter

end Meridian
