import Mathlib.Algebra.Order.Group.Int
import Mathlib.Tactic.Linarith
import Meridian.Lib.EventLog
import Meridian.Lib.Run

/-!
# The rate limiter of the orders

Model of `exchange/cpp/include/rate_limiter.h`, the `order_rate_limiter_` of `GateConnector`: a
bucket of tokens that are refilled in whole numbers, and a backoff that starts with a rate-limit hit.
Times are those of `steady_clock` in nanoseconds. An `int` is an integer here: the cast of the number
of new tokens wraps around, and where their sum with those in the bucket overflows, which is
undefined, there is no step.

The methods hold `mu_`, so each is one step at the time its clock reading gives, a round of the loop
of `acquire` too. Calls come from any number of threads at any times; one that finds no token sleeps
for at least 10 ms and tries again.

Results:
* `step_cases`: what one step does;
* `Inv.step`: the bounds that every run keeps.
-/

namespace Meridian

open EventLog Run

/-- `RateLimiter` (`rate_limiter.h:85-91`). -/
structure OrderRateLimiter where
  tokens : ℤ
  max_tokens : ℤ
  refill_ns : ℤ
  last_refill : ℤ
  backoff_until : ℤ
  backoff_ms : ℤ
  deriving DecidableEq

namespace OrderRateLimiter

/-- `kInitBackoffMs` -/
def kInitBackoffMs : ℤ := 1000

/-- `kMaxBackoffMs` -/
def kMaxBackoffMs : ℤ := 32000

/-- `time_point::min()` -/
def time_point_min : ℤ := -9223372036854775808

/-- The largest `int`. -/
def int_max : ℤ := 2147483647

/-- One second. -/
def second : ℤ := 1000000000

/-- `milliseconds(ms)` -/
def milliseconds (ms : ℤ) : ℤ := 1000000 * ms

/-- `static_cast<int>` -/
def to_int (x : ℤ) : ℤ := x.bmod 4294967296

/-- The constructor (`rate_limiter.h:25-31`), at the time `now`. -/
def new (max_per_second now : ℤ) : OrderRateLimiter where
  tokens := max_per_second
  max_tokens := max_per_second
  refill_ns := second / max_per_second
  last_refill := now
  backoff_until := time_point_min
  backoff_ms := kInitBackoffMs

/-- `new_toks`, the tokens that accrued since the last refill. -/
def new_toks (l : OrderRateLimiter) (now : ℤ) : ℤ := to_int ((now - l.last_refill) / l.refill_ns)

/-- `refill_locked` (`rate_limiter.h:72-83`). -/
def refill_locked (l : OrderRateLimiter) (now : ℤ) : Option OrderRateLimiter :=
  if now < l.backoff_until then some { l with tokens := 0 }
  else if 0 < l.new_toks now then
    if l.tokens + l.new_toks now ≤ int_max then
      some { l with tokens := min (l.tokens + l.new_toks now) l.max_tokens, last_refill := now }
    else none
  else some l

/-- `if (tokens_ >= 1) { --tokens_; return; }`, and whether it returns. -/
def take (l : OrderRateLimiter) : OrderRateLimiter × Bool :=
  if 1 ≤ l.tokens then ({ l with tokens := l.tokens - 1 }, true) else (l, false)

/-- One round of the loop of `acquire` (`rate_limiter.h:36-45`). -/
def round (l : OrderRateLimiter) (now : ℤ) : Option (OrderRateLimiter × Bool) :=
  (l.refill_locked now).map take

/-- `on_rate_limit_hit` (`rate_limiter.h:49-55`). -/
def on_rate_limit_hit (l : OrderRateLimiter) (now : ℤ) : OrderRateLimiter :=
  let backoff_ms := min (l.backoff_ms * 2) kMaxBackoffMs
  { l with
    backoff_ms := backoff_ms
    backoff_until := now + milliseconds backoff_ms
    tokens := 0 }

/-- `on_success` (`rate_limiter.h:59-62`). -/
def on_success (l : OrderRateLimiter) : OrderRateLimiter := { l with backoff_ms := kInitBackoffMs }

/-! ## Calls from any threads -/

structure State where
  limiter : OrderRateLimiter
  clock : ℤ
  /-- for each call of `acquire` that sleeps, when it may try again -/
  asleep : List ℤ
  /-- history: when calls of `acquire` started, the newest first -/
  called : List ℤ
  /-- history: when calls of `acquire` returned, the newest first -/
  returned : List ℤ
  /-- history: the hits since the last success -/
  hits : ℕ
  deriving DecidableEq

inductive Act where
  | elapse (ns : ℕ)
  /-- a call of `acquire` starts -/
  | acquire
  /-- a call that slept tries again -/
  | again (i : ℕ)
  | on_rate_limit_hit
  | on_success

def init (max_per_second now : ℤ) : State := ⟨new max_per_second now, now, [], [], [], 0⟩

/-- A round of a call: it returns, or it sleeps among `others`. -/
def State.try_round (s : State) (others : List ℤ) : Option State :=
  match s.limiter.round s.clock with
  | none => none
  | some (l, true) =>
    some { s with limiter := l, asleep := others, returned := s.clock :: s.returned }
  | some (l, false) =>
    some { s with limiter := l, asleep := (s.clock + milliseconds 10) :: others }

def next (s : State) : Act → Option State
  | .elapse ns => some { s with clock := s.clock + ns }
  | .acquire => { s with called := s.clock :: s.called }.try_round s.asleep
  | .again i =>
    match s.asleep[i]? with
    | some due => if due ≤ s.clock then s.try_round (s.asleep.eraseIdx i) else none
    | none => none
  | .on_rate_limit_hit =>
    some { s with limiter := s.limiter.on_rate_limit_hit s.clock, hits := s.hits + 1 }
  | .on_success => some { s with limiter := s.limiter.on_success, hits := 0 }

/-- A limiter made at a time of the clock, and any calls. -/
def Reachable (max_per_second : ℤ) (s : State) : Prop :=
  ∃ now, time_point_min ≤ now ∧ Reaches (Fires next) (fun _ _ => True) (init max_per_second now) s

/-! ## What one step does -/

section Step

variable {l l' : OrderRateLimiter} {now : ℤ} {s s' : State} {a : Act} {b : Bool}

theorem refill_cases (h : l.refill_locked now = some l') :
    (now < l.backoff_until ∧ l' = { l with tokens := 0 }) ∨
    (l.backoff_until ≤ now ∧ 0 < l.new_toks now ∧
      l' = { l with
        tokens := min (l.tokens + l.new_toks now) l.max_tokens, last_refill := now }) ∨
    (l.backoff_until ≤ now ∧ l.new_toks now ≤ 0 ∧ l' = l) := by
  unfold refill_locked at h
  split at h
  · rename_i hbackoff
    exact Or.inl ⟨hbackoff, (Option.some.inj h).symm⟩
  · rename_i hbackoff
    have hover := not_lt.mp hbackoff
    split at h
    · rename_i hnew
      split at h
      · exact Or.inr (Or.inl ⟨hover, hnew, (Option.some.inj h).symm⟩)
      · cases h
    · rename_i hnew
      exact Or.inr (Or.inr ⟨hover, not_lt.mp hnew, (Option.some.inj h).symm⟩)

/-- A refill during a backoff leaves no token. -/
theorem refill_over (h : l.refill_locked now = some l') (htoken : 1 ≤ l'.tokens) :
    l.backoff_until ≤ now := by
  rcases refill_cases h with ⟨-, rfl⟩ | ⟨hover, -⟩ | ⟨hover, -⟩
  · exact absurd htoken (by norm_num)
  · exact hover
  · exact hover

theorem refill_backoff (h : l.refill_locked now = some l') :
    l'.backoff_until = l.backoff_until := by
  rcases refill_cases h with ⟨-, rfl⟩ | ⟨-, -, rfl⟩ | ⟨-, -, rfl⟩ <;> rfl

theorem round_cases (h : l.round now = some (l', b)) : ∃ r, l.refill_locked now = some r ∧
    (1 ≤ r.tokens ∧ b = true ∧ l' = { r with tokens := r.tokens - 1 } ∨
      r.tokens < 1 ∧ b = false ∧ l' = r) := by
  unfold round at h
  obtain ⟨r, hr, htake⟩ := Option.map_eq_some_iff.mp h
  refine ⟨r, hr, ?_⟩
  unfold take at htake
  split at htake
  · rename_i htoken
    obtain ⟨rfl, rfl⟩ := Prod.mk.inj htake
    exact Or.inl ⟨htoken, rfl, rfl⟩
  · rename_i htoken
    obtain ⟨rfl, rfl⟩ := Prod.mk.inj htake
    exact Or.inr ⟨not_le.mp htoken, rfl, rfl⟩

/-- A round returns with a token, or sleeps without one. -/
theorem try_round_cases {others : List ℤ} (h : s.try_round others = some s') :
    ∃ r, s.limiter.refill_locked s.clock = some r ∧
    (1 ≤ r.tokens ∧ s' = { s with
        limiter := { r with tokens := r.tokens - 1 }, asleep := others
        returned := s.clock :: s.returned } ∨
      r.tokens < 1 ∧ s' = { s with
        limiter := r, asleep := (s.clock + milliseconds 10) :: others }) := by
  unfold State.try_round at h
  split at h
  · cases h
  · rename_i l hl
    obtain rfl := Option.some.inj h
    obtain ⟨r, hr, hcase⟩ := round_cases hl
    rcases hcase with ⟨htoken, -, rfl⟩ | ⟨-, hb, -⟩
    · exact ⟨r, hr, Or.inl ⟨htoken, rfl⟩⟩
    · cases hb
  · rename_i l hl
    obtain rfl := Option.some.inj h
    obtain ⟨r, hr, hcase⟩ := round_cases hl
    rcases hcase with ⟨-, hb, -⟩ | ⟨htoken, -, rfl⟩
    · cases hb
    · exact ⟨_, hr, Or.inr ⟨htoken, rfl⟩⟩

/-- One call tries, which comes now or slept, and `done` of it returned. -/
structure Tries (s : State) (called asleep : List ℤ) (done : ℕ) : Prop where
  comes : called = s.called ∨ called = s.clock :: s.called
  balance : called.length + s.asleep.length = s.called.length + asleep.length + done

/-- **One step**: time passes, a call returns with a token or sleeps without one, a hit, or a
success. -/
theorem step_cases (h : next s a = some s') :
    (∃ ns : ℕ, s' = { s with clock := s.clock + ns }) ∨
    (∃ r called asleep, s.limiter.refill_locked s.clock = some r ∧ 1 ≤ r.tokens ∧
      Tries s called asleep 1 ∧ s' = { s with
        limiter := { r with tokens := r.tokens - 1 }, called := called, asleep := asleep
        returned := s.clock :: s.returned }) ∨
    (∃ r called asleep, s.limiter.refill_locked s.clock = some r ∧ r.tokens < 1 ∧
      Tries s called asleep 0 ∧
      s' = { s with limiter := r, called := called, asleep := asleep }) ∨
    (a = .on_rate_limit_hit ∧ s' = { s with
      limiter := s.limiter.on_rate_limit_hit s.clock, hits := s.hits + 1 }) ∨
    (a = .on_success ∧ s' = { s with limiter := s.limiter.on_success, hits := 0 }) := by
  cases a with
  | elapse ns => exact Or.inl ⟨ns, (Option.some.inj h).symm⟩
  | acquire =>
    obtain ⟨r, hr, ⟨htoken, hs'⟩ | ⟨htoken, hs'⟩⟩ := try_round_cases h
    · have htries : Tries s (s.clock :: s.called) s.asleep 1 :=
        ⟨Or.inr rfl, by rw [List.length_cons]; omega⟩
      exact Or.inr (Or.inl ⟨r, _, _, hr, htoken, htries, hs'⟩)
    · have htries : Tries s (s.clock :: s.called) ((s.clock + milliseconds 10) :: s.asleep) 0 :=
        ⟨Or.inr rfl, by rw [List.length_cons, List.length_cons]; omega⟩
      exact Or.inr (Or.inr (Or.inl ⟨r, _, _, hr, htoken, htries, hs'⟩))
  | again i =>
    simp only [next] at h
    split at h
    · rename_i due hdue
      have hlength : (s.asleep.eraseIdx i).length + 1 = s.asleep.length := by
        obtain ⟨hi, -⟩ := List.getElem?_eq_some_iff.mp hdue
        rw [List.length_eraseIdx_of_lt hi]
        omega
      split at h
      · obtain ⟨r, hr, ⟨htoken, hs'⟩ | ⟨htoken, hs'⟩⟩ := try_round_cases h
        · have htries : Tries s s.called (s.asleep.eraseIdx i) 1 := ⟨Or.inl rfl, by omega⟩
          exact Or.inr (Or.inl ⟨r, _, _, hr, htoken, htries, hs'⟩)
        · have htries : Tries s s.called ((s.clock + milliseconds 10) :: s.asleep.eraseIdx i) 0 :=
            ⟨Or.inl rfl, by rw [List.length_cons]; omega⟩
          exact Or.inr (Or.inr (Or.inl ⟨r, _, _, hr, htoken, htries, hs'⟩))
      · cases h
    · cases h
  | on_rate_limit_hit =>
    exact Or.inr (Or.inr (Or.inr (Or.inl ⟨rfl, (Option.some.inj h).symm⟩)))
  | on_success => exact Or.inr (Or.inr (Or.inr (Or.inr ⟨rfl, (Option.some.inj h).symm⟩)))

/-- A call of `acquire` after a refill that leaves a token. -/
theorem acquire_returns {r : OrderRateLimiter}
    (hr : s.limiter.refill_locked s.clock = some r) (htoken : 1 ≤ r.tokens) :
    next s .acquire = some { s with
      limiter := { r with tokens := r.tokens - 1 }, called := s.clock :: s.called
      returned := s.clock :: s.returned } := by
  have hround : s.limiter.round s.clock = some ({ r with tokens := r.tokens - 1 }, true) := by
    rw [round, hr, Option.map_some, take, if_pos htoken]
  simp only [next, State.try_round, hround]

theorem to_int_le (x : ℤ) : to_int x ≤ int_max := by
  have hlt : x.bmod 4294967296 < ((4294967296 : ℕ) + 1) / 2 := Int.bmod_lt (by decide)
  simp only [to_int, int_max]
  omega

end Step

/-! ## What every run keeps -/

structure Inv (max_per_second : ℤ) (s : State) : Prop where
  max_tokens : s.limiter.max_tokens = max_per_second
  refill_ns : s.limiter.refill_ns = second / max_per_second
  nonneg : 0 ≤ s.limiter.tokens
  le_max : s.limiter.tokens ≤ max_per_second
  last_refill : s.limiter.last_refill ≤ s.clock
  returned : ∀ t ∈ s.returned, t ≤ s.clock
  /-- the ladder that the next hit goes on from -/
  backoff_ms : s.limiter.backoff_ms = min (kInitBackoffMs * 2 ^ s.hits) kMaxBackoffMs

section Inv

variable {max_per_second : ℤ} {s s' : State} {l r : OrderRateLimiter} {now : ℤ} {a : Act}

theorem inv_init (hmax : 1 ≤ max_per_second) (now : ℤ) :
    Inv max_per_second (init max_per_second now) where
  max_tokens := rfl
  refill_ns := rfl
  nonneg := by
    simp only [init, new]
    omega
  le_max := le_rfl
  last_refill := le_rfl
  returned t ht := absurd ht List.not_mem_nil
  backoff_ms := by
    simp only [init, new, kInitBackoffMs, kMaxBackoffMs, pow_zero, mul_one]
    omega

/-- A refill leaves the settings, and the tokens in range. -/
theorem Inv.refill (h : Inv max_per_second s) (hr : s.limiter.refill_locked s.clock = some r) :
    Inv max_per_second { s with limiter := r } := by
  rcases refill_cases hr with ⟨-, rfl⟩ | ⟨-, hnew, rfl⟩ | ⟨-, -, rfl⟩
  · exact { h with nonneg := le_rfl, le_max := h.nonneg.trans h.le_max }
  · have hsum : 0 ≤ s.limiter.tokens + s.limiter.new_toks s.clock := add_nonneg h.nonneg hnew.le
    have hmax : 0 ≤ s.limiter.max_tokens := (h.nonneg.trans h.le_max).trans_eq h.max_tokens.symm
    exact { h with
      nonneg := le_min hsum hmax
      le_max := (min_le_right _ _).trans_eq h.max_tokens
      last_refill := le_rfl }
  · exact h

/-- One more doubling. -/
theorem doubled (k : ℕ) : min (min (kInitBackoffMs * 2 ^ k) kMaxBackoffMs * 2) kMaxBackoffMs =
    min (kInitBackoffMs * 2 ^ (k + 1)) kMaxBackoffMs := by
  simp only [kInitBackoffMs, kMaxBackoffMs, pow_succ]
  omega

theorem Inv.step (h : Inv max_per_second s) (hs : next s a = some s') : Inv max_per_second s' := by
  rcases step_cases hs with ⟨ns, rfl⟩ | ⟨r, called, asleep, hr, htoken, -, rfl⟩ |
    ⟨r, called, asleep, hr, -, -, rfl⟩ | ⟨-, rfl⟩ | ⟨-, rfl⟩
  · have hns : s.clock ≤ s.clock + ns := by omega
    exact { h with
      last_refill := h.last_refill.trans hns, returned := fun t ht => (h.returned t ht).trans hns }
  · have hrefill := h.refill hr
    have hle : r.tokens - 1 ≤ max_per_second := (sub_le_self _ zero_le_one).trans hrefill.le_max
    refine { hrefill with nonneg := sub_nonneg.mpr htoken, le_max := hle, returned := fun t ht => ?_ }
    rcases List.mem_cons.mp ht with rfl | ht
    · exact le_rfl
    · exact h.returned t ht
  · exact { h.refill hr with }
  · refine ⟨h.max_tokens, h.refill_ns, le_rfl, h.nonneg.trans h.le_max, h.last_refill, h.returned, ?_⟩
    simp only [on_rate_limit_hit]
    rw [h.backoff_ms, doubled]
  · refine ⟨h.max_tokens, h.refill_ns, h.nonneg, h.le_max, h.last_refill, h.returned, ?_⟩
    simp only [on_success, kInitBackoffMs, kMaxBackoffMs, pow_zero, mul_one]
    omega

theorem Inv.run (h : Inv max_per_second s) {cond : State → Act → Prop}
    (hs : Reaches (Fires next) cond s s') : Inv max_per_second s' :=
  hs.inv h fun _ _ _ hi _ hs => hi.step hs

theorem Reachable.inv (h : Reachable max_per_second s) (hmax : 1 ≤ max_per_second) :
    Inv max_per_second s := by
  obtain ⟨now, -, hs⟩ := h
  exact (inv_init hmax now).run hs

/-- The backoff that a hit starts. -/
theorem Inv.hit_backoff (h : Inv max_per_second s) (now : ℤ) :
    (s.limiter.on_rate_limit_hit now).backoff_until =
      now + milliseconds (min (kInitBackoffMs * 2 ^ (s.hits + 1)) kMaxBackoffMs) := by
  simp only [on_rate_limit_hit]
  rw [h.backoff_ms, doubled]

/-- It takes two seconds at least. -/
theorem Inv.le_hit_backoff (h : Inv max_per_second s) (now : ℤ) :
    now + 2 * second ≤ (s.limiter.on_rate_limit_hit now).backoff_until := by
  have hpow : (1 : ℤ) ≤ 2 ^ s.hits := one_le_pow₀ (by norm_num)
  rw [h.hit_backoff]
  simp only [kInitBackoffMs, kMaxBackoffMs, milliseconds, second, pow_succ]
  omega

end Inv

end OrderRateLimiter

end Meridian
