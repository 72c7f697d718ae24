import Mathlib.Algebra.Order.Ring.Int
import Meridian.Cpp.OrderRateLimiter

/-!
# How many orders the rate limiter lets through in a second

The bucket is full at first and after each pause, and it fills while it is emptied, so a second can
see the tokens that are in it and those that accrue. What a second sees is bounded by the calls that
are due in it (`due`), and by what the bucket holds at its first return (`Fits`).

Results:
* `burst`: tokens that are there are all taken at once, where calls come for them;
* `Calls.in_second_le`: no more calls return in a second than are due in it;
* `limit_kept_iff`: a second with no more calls than `max_per_second`, or one whose first return is
  into a bucket that fits, keeps the limit; any other can be exceeded by one call more;
* `fits_iff`: a bucket that was just refilled fits with one token that accrued in this instant;
* `burst_of_nineteen`: a new limiter of 10 lets 19 orders through in its first second.
-/

namespace Meridian.OrderRateLimiter

open EventLog Run

/-- How many calls returned in the second from `now` on. -/
def in_second (now : ℤ) (log : List ℤ) : ℕ := count (fun t => now ≤ t ∧ t < now + second) log

/-- The tokens in the bucket, and those that the last refill of the second can add to an empty one,
are no more than the limit. -/
def Fits (l : OrderRateLimiter) (now : ℤ) : Prop :=
  l.tokens + max 0 (l.new_toks (now + second - 1)) ≤ l.max_tokens

/-- A call of `acquire` returns, the first one in this instant; the refill before it leaves `r`. -/
structure Begins (s : State) (a : Act) (r : OrderRateLimiter) : Prop where
  refill : s.limiter.refill_locked s.clock = some r
  token : 1 ≤ r.tokens
  returns : ∃ s', next s a = some s' ∧ s'.returned = s.clock :: s.returned
  first : ∀ t ∈ s.returned, t < s.clock

/-! ## Whole tokens -/

section Cast

variable {x j : ℤ}

theorem to_int_of_range (h0 : -2147483648 ≤ x) (h1 : x ≤ int_max) : to_int x = x := by
  refine Int.bmod_eq_of_le ?_ ?_
  · exact h0
  · simp only [int_max] at h1
    omega

/-- From where the cast is not positive, it counts on. -/
theorem to_int_add (h : to_int x ≤ 0) (h0 : 0 ≤ j) (h1 : j ≤ int_max) :
    to_int (x + j) = to_int x + j := by
  simp only [to_int, int_max, Int.bmod] at h h1 ⊢
  split at h <;> split <;> omega

end Cast

/-- The tokens of a limiter of `max_per_second` accrue one by one. -/
structure Rate (max_per_second : ℤ) (l : OrderRateLimiter) : Prop where
  max_tokens : l.max_tokens = max_per_second
  mul : max_per_second * l.refill_ns = second
  pos : 0 < l.refill_ns
  le : max_per_second ≤ second

variable {max_per_second : ℤ} {l r : OrderRateLimiter} {now u v : ℤ}

theorem Inv.rate {s : State} (h : Inv max_per_second s) (hmax : 1 ≤ max_per_second)
    (hdvd : max_per_second ∣ second) : Rate max_per_second s.limiter := by
  have hmul : max_per_second * s.limiter.refill_ns = second := by
    rw [h.refill_ns]
    exact Int.mul_ediv_cancel' hdvd
  refine ⟨h.max_tokens, hmul, ?_, Int.le_of_dvd (by decide) hdvd⟩
  rw [h.refill_ns]
  exact Int.ediv_pos_of_pos_of_dvd (by decide) (by omega) hdvd

/-- In less than a second no more than `max_per_second` accrue. -/
theorem Rate.ediv_le (h : Rate max_per_second l) {x y : ℤ} (hxy : y < x + second) :
    y / l.refill_ns ≤ x / l.refill_ns + max_per_second := by
  have hadd : (x + second) / l.refill_ns = x / l.refill_ns + max_per_second := by
    rw [← h.mul]
    exact Int.add_mul_ediv_right _ _ h.pos.ne'
  rw [← hadd]
  exact Int.ediv_le_ediv h.pos hxy.le

/-- In less than a second the cast loses nothing. -/
theorem Rate.to_int_ediv (h : Rate max_per_second l) {x : ℤ} (h0 : 0 ≤ x) (hx : x < second) :
    to_int (x / l.refill_ns) = x / l.refill_ns := by
  have hle : x / l.refill_ns ≤ 0 / l.refill_ns + max_per_second := h.ediv_le (by omega)
  rw [Int.zero_ediv, zero_add] at hle
  have hnonneg : 0 ≤ x / l.refill_ns := Int.ediv_nonneg h0 h.pos.le
  have hmax := h.le
  simp only [second] at hmax
  exact to_int_of_range (by omega) (by simp only [int_max]; omega)

/-- A refill keeps the rate. -/
theorem Rate.refilled (h : Rate max_per_second l) (tokens last_refill : ℤ) :
    Rate max_per_second { l with tokens := tokens, last_refill := last_refill } :=
  ⟨h.max_tokens, h.mul, h.pos, h.le⟩

/-- From `now` on and for a second, new tokens are those of the elapsed time but for `c`, which were
there by `now`: none, or what the cast of a long pause hides. -/
def Calm (l : OrderRateLimiter) (now : ℤ) : Prop :=
  ∃ c, (max now l.last_refill - l.last_refill) / l.refill_ns ≤ c ∧
    ∀ u, now ≤ u → l.last_refill ≤ u → u < now + second →
      l.new_toks u = (u - l.last_refill) / l.refill_ns - c

/-- Right after a refill. -/
theorem Rate.calm_of_refilled (h : Rate max_per_second l) (hnow : now ≤ l.last_refill) :
    Calm l now := by
  refine ⟨0, ?_, fun u _ hu hlt => ?_⟩
  · rw [max_eq_right hnow, sub_self, Int.zero_ediv]
  · rw [new_toks, sub_zero]
    exact h.to_int_ediv (by omega) (by omega)

/-- Where a refill adds nothing. -/
theorem Rate.calm_of_no_new (h : Rate max_per_second l) (hlast : l.last_refill ≤ now)
    (hnew : l.new_toks now ≤ 0) : Calm l now := by
  have h0 : 0 ≤ (now - l.last_refill) / l.refill_ns := Int.ediv_nonneg (by omega) h.pos.le
  refine ⟨(now - l.last_refill) / l.refill_ns - l.new_toks now, ?_, fun u hu _ hlt => ?_⟩
  · rw [max_eq_left hlast]
    omega
  · have hle : (u - l.last_refill) / l.refill_ns ≤
        (now - l.last_refill) / l.refill_ns + max_per_second := h.ediv_le (by omega)
    have hge : (now - l.last_refill) / l.refill_ns ≤ (u - l.last_refill) / l.refill_ns :=
      Int.ediv_le_ediv h.pos (by omega)
    have hmax := h.le
    simp only [second] at hmax
    have hadd := to_int_add (x := (now - l.last_refill) / l.refill_ns)
      (j := (u - l.last_refill) / l.refill_ns - (now - l.last_refill) / l.refill_ns) hnew (by omega)
      (by simp only [int_max]; omega)
    rw [add_sub_cancel] at hadd
    rw [new_toks, hadd, new_toks]
    omega

/-- A refill out of a backoff leaves a calm limiter. -/
theorem Rate.calm_of_refill (h : Rate max_per_second l) (hr : l.refill_locked now = some r)
    (hlast : l.last_refill ≤ now) (htoken : 1 ≤ r.tokens) : Rate max_per_second r ∧ Calm r now := by
  rcases refill_cases hr with ⟨-, rfl⟩ | ⟨-, -, rfl⟩ | ⟨-, hnew, rfl⟩
  · exact absurd htoken (by norm_num)
  · have hrate := h.refilled (min (l.tokens + l.new_toks now) l.max_tokens) now
    exact ⟨hrate, hrate.calm_of_refilled le_rfl⟩
  · exact ⟨h, h.calm_of_no_new hlast hnew⟩

/-- No more than the limit accrue in the second. -/
theorem Rate.new_toks_le (h : Rate max_per_second l) (hcalm : Calm l now)
    (hlast : l.last_refill ≤ now) : l.new_toks (now + second - 1) ≤ max_per_second := by
  obtain ⟨c, hc, hnew⟩ := hcalm
  rw [max_eq_left hlast] at hc
  have hsecond : 0 < second := by decide
  rw [hnew _ (by omega) (by omega) (by omega)]
  have hle : (now + second - 1 - l.last_refill) / l.refill_ns ≤
      (now - l.last_refill) / l.refill_ns + max_per_second := h.ediv_le (by omega)
  omega

/-! ## No more than the bucket and what accrues -/

/-- What is left of the budget `B` for the second from `now` on covers the tokens in the bucket and
those to come, until a hit ends it. -/
structure Covered (max_per_second B now : ℤ) (s : State) : Prop where
  clock : now ≤ s.clock
  bound : (in_second now s.returned : ℤ) ≤ B
  budget : s.clock < now + second → now + second ≤ s.limiter.backoff_until ∨
    in_second now s.returned + s.limiter.tokens +
      max 0 (s.limiter.new_toks (now + second - 1)) ≤ B ∧ Calm s.limiter now

variable {s s' : State} {a : Act} {B : ℤ}

/-- A refill keeps to the budget. -/
theorem Rate.refill_budget (h : Rate max_per_second l) (hr : l.refill_locked u = some r)
    (hcalm : Calm l now) (hnow : now ≤ u) (hu : u < now + second) (hlast : l.last_refill ≤ u)
    (hl : 0 ≤ l.tokens) :
    r.tokens + max 0 (r.new_toks (now + second - 1)) ≤
      l.tokens + max 0 (l.new_toks (now + second - 1)) ∧ Calm r now := by
  rcases refill_cases hr with ⟨-, rfl⟩ | ⟨-, hnew, rfl⟩ | ⟨-, -, rfl⟩
  · exact ⟨add_le_add hl le_rfl, hcalm⟩
  · have hrate := h.refilled (min (l.tokens + l.new_toks u) l.max_tokens) u
    have hcalm' := hrate.calm_of_refilled hnow
    refine ⟨?_, hcalm'⟩
    obtain ⟨c, -, hc⟩ := hcalm
    have hsplit : (u - l.last_refill) / l.refill_ns + (now + second - 1 - u) / l.refill_ns ≤
        (now + second - 1 - l.last_refill) / l.refill_ns := by
      have hsum := Int.ediv_add_ediv_le_add_ediv (x := u - l.last_refill) (y := now + second - 1 - u)
        h.pos
      rwa [show u - l.last_refill + (now + second - 1 - u) = now + second - 1 - l.last_refill by
        omega] at hsum
    have hrest : 0 ≤ (now + second - 1 - u) / l.refill_ns := Int.ediv_nonneg (by omega) h.pos.le
    have hlater : to_int ((now + second - 1 - u) / l.refill_ns) =
        (now + second - 1 - u) / l.refill_ns := h.to_int_ediv (by omega) (by omega)
    have hthen := hc u hnow hlast hu
    have hend := hc (now + second - 1) (by omega) (by omega) (by omega)
    have hmin := min_le_left (l.tokens + l.new_toks u) l.max_tokens
    rw [hend]
    simp only [new_toks] at hthen hmin ⊢
    rw [hlater]
    omega
  · exact ⟨le_rfl, hcalm⟩

/-- What else happens after a step cannot be before its time. -/
theorem in_second_cons_of_ge {t : ℤ} {log : List ℤ} (h : now + second ≤ t) :
    in_second now (t :: log) = in_second now log :=
  count_cons_of_neg fun ht => absurd ht.2 (not_lt.mpr h)

theorem in_second_cons {t : ℤ} {log : List ℤ} (h0 : now ≤ t) (h1 : t < now + second) :
    in_second now (t :: log) = in_second now log + 1 :=
  count_cons_of_pos ⟨h0, h1⟩

/-- A call that returns is paid for. -/
theorem Covered.returns (h : Covered max_per_second B now s) (hinv : Inv max_per_second s)
    (hrate : Rate max_per_second s.limiter) (hr : s.limiter.refill_locked s.clock = some r)
    (htoken : 1 ≤ r.tokens) (called asleep : List ℤ) :
    Covered max_per_second B now { s with
      limiter := { r with tokens := r.tokens - 1 }, called := called, asleep := asleep
      returned := s.clock :: s.returned } := by
  by_cases hlt : s.clock < now + second
  · have hover : s.limiter.backoff_until ≤ s.clock := refill_over hr htoken
    obtain ⟨hbudget, hcalm⟩ := (h.budget hlt).resolve_left fun hb => by omega
    obtain ⟨hle, hcalm'⟩ :=
      hrate.refill_budget hr hcalm h.clock hlt hinv.last_refill hinv.nonneg
    have hcons : in_second now (s.clock :: s.returned) = in_second now s.returned + 1 :=
      in_second_cons h.clock hlt
    have hsame : { r with tokens := r.tokens - 1 }.new_toks (now + second - 1) =
        r.new_toks (now + second - 1) := rfl
    refine ⟨h.clock, ?_, fun _ => Or.inr ⟨?_, hcalm'⟩⟩
    · simp only [hcons]
      push_cast
      omega
    · simp only [hcons, hsame]
      push_cast
      omega
  · refine ⟨h.clock, ?_, fun hlt' => absurd hlt' hlt⟩
    simp only [in_second_cons_of_ge (not_lt.mp hlt)]
    exact h.bound

/-- **Step**: the budget covers what comes; a return takes one token off it, a refill moves tokens
to come into the bucket, and a hit stops them until the second is over. -/
theorem Covered.step (h : Covered max_per_second B now s) (hinv : Inv max_per_second s)
    (hrate : Rate max_per_second s.limiter) (hs : next s a = some s') :
    Covered max_per_second B now s' := by
  rcases step_cases hs with ⟨ns, rfl⟩ | ⟨r, called, asleep, hr, htoken, -, rfl⟩ |
    ⟨r, called, asleep, hr, -, -, rfl⟩ | ⟨-, rfl⟩ | ⟨-, rfl⟩
  · have hle : s.clock ≤ s.clock + ns := by omega
    exact ⟨h.clock.trans hle, h.bound, fun hlt => h.budget (lt_of_le_of_lt hle hlt)⟩
  · exact h.returns hinv hrate hr htoken called asleep
  · refine ⟨h.clock, h.bound, fun hlt => ?_⟩
    rcases h.budget hlt with hb | ⟨hbudget, hcalm⟩
    · exact Or.inl (hb.trans_eq (refill_backoff hr).symm)
    · obtain ⟨hle, hcalm'⟩ :=
        hrate.refill_budget hr hcalm h.clock hlt hinv.last_refill hinv.nonneg
      exact Or.inr ⟨by simp only; omega, hcalm'⟩
  · -- The backoff outlasts the second.
    have hlong := hinv.le_hit_backoff s.clock
    have hclock := h.clock
    refine ⟨hclock, h.bound, fun _ => Or.inl ?_⟩
    simp only [second] at hlong ⊢
    omega
  · exact ⟨h.clock, h.bound, h.budget⟩

/-- **Run**: from a state whose budget covers the second, no run sees more returns in it than the
budget. -/
theorem Covered.run (h : Covered max_per_second B now s) (hinv : Inv max_per_second s)
    (hmax : 1 ≤ max_per_second) (hdvd : max_per_second ∣ second) {cond : State → Act → Prop}
    (hs : Reaches (Fires next) cond s s') : Covered max_per_second B now s' := by
  have hboth : Inv max_per_second s' ∧ Covered max_per_second B now s' := by
    refine Reaches.inv (I := fun s => Inv max_per_second s ∧ Covered max_per_second B now s) hs
      ⟨hinv, h⟩ fun s a s' hi _ hs => ?_
    exact ⟨hi.1.step hs, hi.2.step hi.1 (hi.1.rate hmax hdvd) hs⟩
  exact hboth.2

/-- The state after the return that the second begins with. -/
theorem Begins.after (h : Begins s a r) (hs : next s a = some s') :
    ∃ called asleep, Tries s called asleep 1 ∧ s' = { s with
      limiter := { r with tokens := r.tokens - 1 }, called := called, asleep := asleep
      returned := s.clock :: s.returned } := by
  obtain ⟨s1, hs1, hreturned⟩ := h.returns
  obtain rfl := Option.some.inj (hs1.symm.trans hs)
  have hne : s.returned ≠ s.clock :: s.returned := fun h => by
    have := congrArg List.length h
    simp at this
  rcases step_cases hs with ⟨ns, rfl⟩ | ⟨r', called, asleep, hr', -, htries, rfl⟩ |
    ⟨r', called, asleep, -, -, -, rfl⟩ | ⟨-, rfl⟩ | ⟨-, rfl⟩
  · exact absurd hreturned hne
  · obtain rfl := Option.some.inj (h.refill.symm.trans hr')
    exact ⟨called, asleep, htries, rfl⟩
  · exact absurd hreturned hne
  · exact absurd hreturned hne
  · exact absurd hreturned hne

/-- A second that begins so is covered by the tokens and those to come. -/
theorem Begins.covered (h : Begins s a r) (hs : next s a = some s') (hinv : Inv max_per_second s)
    (hrate : Rate max_per_second s.limiter) :
    Covered max_per_second (r.tokens + max 0 (r.new_toks (s.clock + second - 1))) s.clock s' := by
  obtain ⟨called, asleep, -, rfl⟩ := h.after hs
  obtain ⟨-, hcalm⟩ := hrate.calm_of_refill h.refill hinv.last_refill h.token
  have hone : in_second s.clock (s.clock :: s.returned) = 1 := by
    have hzero : in_second s.clock s.returned = 0 :=
      count_eq_zero fun t ht hle => absurd (h.first t ht) (not_lt.mpr hle.1)
    rw [in_second_cons le_rfl (lt_add_of_pos_right _ (by decide)), hzero]
  have htoken := h.token
  have hsame : { r with tokens := r.tokens - 1 }.new_toks (s.clock + second - 1) =
      r.new_toks (s.clock + second - 1) := rfl
  refine ⟨le_rfl, ?_, fun _ => Or.inr ⟨?_, hcalm⟩⟩
  · simp only [hone]
    push_cast
    omega
  · simp only [hone, hsame]
    push_cast
    omega

/-! ## A run that takes them all -/

/-- No backoff is in effect and no time for a token has passed, so a call neither waits for the one
nor adds the other. -/
structure Settled (s : State) : Prop where
  backoff : s.limiter.backoff_until ≤ s.clock
  new_toks : s.limiter.new_toks s.clock ≤ 0

theorem Settled.refill (h : Settled s) : s.limiter.refill_locked s.clock = some s.limiter := by
  rw [refill_locked, if_neg (not_lt.mpr h.backoff), if_neg (not_lt.mpr h.new_toks)]

/-- `n` calls come, and return at once. -/
structure Bursts (n : ℕ) (s s' : State) : Prop where
  reaches : Reaches (Fires next) (fun _ _ => True) s s'
  clock : s'.clock = s.clock
  called : s'.called = List.replicate n s.clock ++ s.called
  returned : s'.returned = List.replicate n s.clock ++ s.returned

/-- One call that returns, and then the others. -/
theorem Bursts.cons {n : ℕ} (hr : s.limiter.refill_locked s.clock = some r) (htoken : 1 ≤ r.tokens)
    (h : Bursts n { s with
      limiter := { r with tokens := r.tokens - 1 }, called := s.clock :: s.called
      returned := s.clock :: s.returned } s') : Bursts (n + 1) s s' where
  reaches := Relation.ReflTransGen.head ⟨_, trivial, acquire_returns hr htoken⟩ h.reaches
  clock := h.clock
  called := by rw [h.called, List.replicate_succ', List.append_assoc]; rfl
  returned := by rw [h.returned, List.replicate_succ', List.append_assoc]; rfl

/-- **A burst**: tokens that are there are taken at once, where calls come for them. -/
theorem burst {n : ℕ} (h : Settled s) (hn : (n : ℤ) ≤ s.limiter.tokens) :
    ∃ s', Bursts n s s' ∧
      s'.limiter = { s.limiter with tokens := s.limiter.tokens - n } := by
  induction n generalizing s with
  | zero =>
    refine ⟨s, ⟨Reaches.refl, rfl, rfl, rfl⟩, ?_⟩
    rw [Nat.cast_zero, sub_zero]
  | succ n ih =>
    have htoken : 1 ≤ s.limiter.tokens := by omega
    obtain ⟨s', hs', hlimiter⟩ := ih (s := { s with
      limiter := { s.limiter with tokens := s.limiter.tokens - 1 }
      called := s.clock :: s.called, returned := s.clock :: s.returned })
      ⟨h.backoff, h.new_toks⟩ (by simp only; omega)
    refine ⟨s', hs'.cons h.refill htoken, ?_⟩
    rw [hlimiter, Nat.cast_succ, sub_sub, add_comm (1 : ℤ)]

theorem in_second_burst {n : ℕ} {log : List ℤ} {t : ℤ} (h0 : now ≤ t) (h1 : t < now + second) :
    in_second now (List.replicate n t ++ log) = n + in_second now log := by
  induction n with
  | zero => rw [List.replicate_zero, List.nil_append, zero_add]
  | succ n ih =>
    rw [List.replicate_succ, List.cons_append, in_second_cons h0 h1, ih]
    omega

/-- Nothing is refilled twice. -/
theorem settled_of_refill (hr : s.limiter.refill_locked s.clock = some r) (htoken : 1 ≤ r.tokens) :
    r.backoff_until ≤ s.clock ∧ r.new_toks s.clock ≤ 0 := by
  rcases refill_cases hr with ⟨-, rfl⟩ | ⟨hover, -, rfl⟩ | ⟨hover, hnew, rfl⟩
  · exact absurd htoken (by norm_num)
  · refine ⟨hover, ?_⟩
    simp only [new_toks, sub_self, Int.zero_ediv]
    exact le_of_eq (to_int_of_range (by decide) (by decide))
  · exact ⟨hover, hnew⟩

/-- A refill and a burst. -/
theorem refill_burst {n : ℕ} (hr : s.limiter.refill_locked s.clock = some r)
    (hn : (n + 1 : ℕ) ≤ r.tokens) : ∃ s', Bursts (n + 1) s s' := by
  have htoken : 1 ≤ r.tokens := by omega
  obtain ⟨hover, hnew⟩ := settled_of_refill hr htoken
  obtain ⟨s', hs', -⟩ := burst (n := n) (s := { s with
    limiter := { r with tokens := r.tokens - 1 }, called := s.clock :: s.called
    returned := s.clock :: s.returned }) ⟨hover, hnew⟩ (by simp only; omega)
  exact ⟨s', hs'.cons hr htoken⟩

/-- The second from a return on, when calls come for the tokens in the bucket at once, and for `n` of
the new ones in the last nanosecond. -/
theorem Begins.exhausted {n : ℕ} (h : Begins s a r) (hs : next s a = some s')
    (hinv : Inv max_per_second s) (hrate : Rate max_per_second s.limiter)
    (hn : (n + 1 : ℕ) ≤ r.new_toks (s.clock + second - 1)) :
    ∃ s'', Reaches (Fires next) (fun _ _ => True) s' s'' ∧
      (in_second s.clock s''.returned : ℤ) = r.tokens + (n + 1 : ℕ) ∧
      (s''.called.length : ℤ) = s'.called.length + (r.tokens + n) ∧
      s.returned <:+ s''.returned := by
  obtain ⟨called, asleep, -, rfl⟩ := h.after hs
  obtain ⟨hover, hsettled⟩ := settled_of_refill h.refill h.token
  have hlast : r.last_refill ≤ s.clock := (hinv.refill h.refill).last_refill
  obtain ⟨hrate', hcalm⟩ := hrate.calm_of_refill h.refill hinv.last_refill h.token
  have htoken := h.token
  have hle : r.new_toks (s.clock + second - 1) ≤ max_per_second := hrate'.new_toks_le hcalm hlast
  have hmax := hrate.le
  have hnew : 0 < r.new_toks (s.clock + second - 1) := by omega
  -- The tokens in the bucket, at once.
  obtain ⟨k, hk⟩ : ∃ k : ℕ, r.tokens - 1 = k := ⟨(r.tokens - 1).toNat, by omega⟩
  obtain ⟨s2, hs2, hlimiter⟩ := burst (n := k) (s := { s with
    limiter := { r with tokens := r.tokens - 1 }, called := called, asleep := asleep
    returned := s.clock :: s.returned }) ⟨hover, hsettled⟩ hk.ge
  replace hlimiter : s2.limiter = { r with tokens := 0 } := by
    rw [hlimiter]
    simp only [hk, sub_self]
  -- The last nanosecond, and those that accrued by then.
  have helapse : next s2 (.elapse 999999999) = some { s2 with clock := s2.clock + 999999999 } := rfl
  have hend : s2.clock + 999999999 = s.clock + second - 1 := by
    rw [hs2.clock]
    simp only [second]
    omega
  have hrefill : s2.limiter.refill_locked (s2.clock + 999999999) = some { r with
      tokens := r.new_toks (s.clock + second - 1), last_refill := s.clock + second - 1 } := by
    have hnew' : s2.limiter.new_toks (s.clock + second - 1) =
        r.new_toks (s.clock + second - 1) := by
      rw [hlimiter]
      rfl
    have htokens : s2.limiter.tokens = 0 := by rw [hlimiter]
    have hlimit : s2.limiter.max_tokens = r.max_tokens := by rw [hlimiter]
    have hbackoff : s2.limiter.backoff_until ≤ s.clock + second - 1 := by
      rw [hlimiter]
      exact hover.trans (by simp only [second]; omega)
    simp only [second] at hmax
    rw [hend, refill_locked, if_neg (not_lt.mpr hbackoff), hnew', if_pos hnew, htokens, hlimit,
      zero_add, if_pos (by simp only [int_max]; omega),
      min_eq_left (hle.trans_eq hrate'.max_tokens.symm), hlimiter]
  obtain ⟨s3, hs3⟩ := refill_burst (n := n) (s := { s2 with clock := s2.clock + 999999999 })
    hrefill hn
  refine ⟨s3, hs2.reaches.trans (Relation.ReflTransGen.head ⟨_, trivial, helapse⟩ hs3.reaches),
    ?_, ?_, ?_⟩
  · have hzero : in_second s.clock s.returned = 0 :=
      count_eq_zero fun t ht hle => absurd (h.first t ht) (not_lt.mpr hle.1)
    have hsecond : 0 < second := by decide
    have hlater : s.clock ≤ s2.clock + 999999999 ∧ s2.clock + 999999999 < s.clock + second := by
      rw [hend]
      omega
    rw [hs3.returned, in_second_burst hlater.1 hlater.2, hs2.returned,
      in_second_burst le_rfl (by omega), in_second_cons le_rfl (by omega), hzero]
    push_cast
    omega
  · rw [hs3.called, hs2.called, List.length_append, List.length_append, List.length_replicate,
      List.length_replicate]
    push_cast
    omega
  · rw [hs3.returned, hs2.returned]
    exact ((List.suffix_cons _ _).trans (List.suffix_append _ _)).trans (List.suffix_append _ _)

/-! ## The calls -/

/-- How many calls are due in the second from `w` on: those that wait as it begins, and those that
come in it. -/
def due (w : ℤ) (s : State) : ℕ :=
  count (fun t => t < w + second) s.called - count (fun t => t < w) s.returned

/-- Each call that started sleeps or returned, and none returned before it started. -/
structure Calls (s : State) : Prop where
  balance : s.called.length = s.asleep.length + s.returned.length
  past : ∀ t ∈ s.called, t ≤ s.clock
  ahead : ∀ w, count (fun t => t < w) s.returned ≤ count (fun t => t < w) s.called

theorem calls_init (now : ℤ) : Calls (init max_per_second now) :=
  ⟨rfl, fun _ ht => absurd ht List.not_mem_nil, fun _ => le_rfl⟩

/-- A call that tries leaves the calls in order. -/
theorem Calls.tries {called asleep : List ℤ} {k : ℕ} (h : Calls s)
    (htries : Tries s called asleep k) :
    called.length = asleep.length + s.returned.length + k ∧ (∀ t ∈ called, t ≤ s.clock) ∧
      ∀ w, count (fun t => t < w) s.called ≤ count (fun t => t < w) called := by
  have hbalance := h.balance
  have htried := htries.balance
  refine ⟨by omega, fun t ht => ?_, fun w => ?_⟩
  · rcases htries.comes with rfl | rfl
    · exact h.past t ht
    · rcases List.mem_cons.mp ht with rfl | ht
      · exact le_rfl
      · exact h.past t ht
  · rcases htries.comes with rfl | rfl
    · exact le_rfl
    · exact (List.sublist_cons_self _ _).countP_le

/-- **Step**: a call that starts is counted before it sleeps or returns, and a call that tries again
was one that sleeps. -/
theorem Calls.step (h : Calls s) (hs : next s a = some s') : Calls s' := by
  rcases step_cases hs with ⟨ns, rfl⟩ | ⟨r, called, asleep, -, -, htries, rfl⟩ |
    ⟨r, called, asleep, -, -, htries, rfl⟩ | ⟨-, rfl⟩ | ⟨-, rfl⟩
  · have hle : s.clock ≤ s.clock + ns := by omega
    exact { h with past := fun t ht => (h.past t ht).trans hle }
  · obtain ⟨hlength, hpast, hgrows⟩ := h.tries htries
    refine ⟨by simp only [List.length_cons]; omega, hpast, fun w => ?_⟩
    by_cases hw : s.clock < w
    · -- All calls that started did so by now, those that returned among them.
      have hall : count (fun t => t < w) called = called.length :=
        List.countP_eq_length.mpr fun t ht => decide_eq_true ((hpast t ht).trans_lt hw)
      have hle : count (fun t => t < w) (s.clock :: s.returned) ≤ (s.clock :: s.returned).length :=
        List.countP_le_length
      rw [List.length_cons] at hle
      simp only [hall]
      omega
    · rw [count_cons_of_neg (p := fun t => t < w) hw]
      exact (h.ahead w).trans (hgrows w)
  · obtain ⟨hlength, hpast, hgrows⟩ := h.tries htries
    exact ⟨hlength, hpast, fun w => (h.ahead w).trans (hgrows w)⟩
  · exact { h with }
  · exact { h with }

theorem Calls.run {cond : State → Act → Prop} (h : Calls s)
    (hs : Reaches (Fires next) cond s s') : Calls s' :=
  hs.inv h fun _ _ _ hi _ hs => hi.step hs

theorem Reachable.calls (h : Reachable max_per_second s) : Calls s := by
  obtain ⟨now, -, hs⟩ := h
  exact (calls_init now).run hs

/-- **Calls**: no more return in a second than are due in it. -/
theorem Calls.in_second_le (h : Calls s) (w : ℤ) : in_second w s.returned ≤ due w s := by
  have hsum : count (fun t => t < w + second) s.returned =
      in_second w s.returned + count (fun t => t < w) s.returned :=
    count_lt_add (by simp only [second]; omega)
  have hahead := h.ahead (w + second)
  unfold due
  omega

/-! ## The limit -/

/-- A second that begins with a return into a bucket that fits is safe, whatever calls come. -/
theorem Begins.safe (h : Begins s a r) (hs : next s a = some s') (hinv : Inv max_per_second s)
    (hmax : 1 ≤ max_per_second) (hdvd : max_per_second ∣ second) (hfits : Fits r s.clock)
    {s'' : State} (hs'' : Reaches (Fires next) (fun _ _ => True) s' s'') :
    (in_second s.clock s''.returned : ℤ) ≤ max_per_second := by
  have hlimit : r.max_tokens = max_per_second := (hinv.refill h.refill).max_tokens
  rw [Fits, hlimit] at hfits
  exact ((h.covered hs hinv (hinv.rate hmax hdvd)).run (hinv.step hs) hmax hdvd hs'').bound.trans
    hfits

/-- Into one that does not fit, one call more than the limit is too many. -/
theorem Begins.exceeded (h : Begins s a r) (hs : next s a = some s') (hinv : Inv max_per_second s)
    (hmax : 1 ≤ max_per_second) (hdvd : max_per_second ∣ second) (hfits : ¬Fits r s.clock) :
    ∃ s'', Reaches (Fires next) (fun _ _ => True) s' s'' ∧
      (in_second s.clock s''.returned : ℤ) = max_per_second + 1 ∧
      (s''.called.length : ℤ) = s'.called.length + max_per_second ∧
      s.returned <:+ s''.returned := by
  have hrefill := hinv.refill h.refill
  rw [Fits, hrefill.max_tokens] at hfits
  have hle : r.tokens ≤ max_per_second := hrefill.le_max
  -- The calls beyond the tokens in the bucket.
  obtain ⟨n, hn⟩ : ∃ n : ℕ, max_per_second - r.tokens = n :=
    ⟨(max_per_second - r.tokens).toNat, by omega⟩
  have hnew : (n + 1 : ℕ) ≤ r.new_toks (s.clock + second - 1) := by omega
  obtain ⟨s'', hs'', hcount, hcalled, hsuffix⟩ :=
    h.exhausted hs hinv (hinv.rate hmax hdvd) hnew
  exact ⟨s'', hs'', by rw [hcount]; push_cast; omega, by rw [hcalled]; omega, hsuffix⟩

/-- The calls that are due in a second that begins with a return, where none sleeps after it: that
one, and those that start later. -/
theorem Begins.due_le (h : Begins s a r) (hs : next s a = some s') (hcalls : Calls s')
    (hasleep : s'.asleep = []) {s'' : State} {n : ℕ}
    (hcalled : (s''.called.length : ℤ) = s'.called.length + n)
    (hsuffix : s.returned <:+ s''.returned) : due s.clock s'' ≤ n + 1 := by
  obtain ⟨called, asleep, -, rfl⟩ := h.after hs
  have hbalance := hcalls.balance
  simp only at hasleep
  simp only [hasleep, List.length_nil, List.length_cons] at hbalance
  have hall : count (fun t => t < s.clock) s.returned = s.returned.length :=
    List.countP_eq_length.mpr fun t ht => decide_eq_true (h.first t ht)
  have hmono : count (fun t => t < s.clock) s.returned ≤
      count (fun t => t < s.clock) s''.returned := hsuffix.sublist.countP_le
  have hle : count (fun t => t < s.clock + second) s''.called ≤ s''.called.length :=
    List.countP_le_length
  simp only at hcalled
  unfold due
  omega

/-- What is returned later is returned at a later time. -/
theorem returned_later {cond : State → Act → Prop} (hs : Reaches (Fires next) cond s s') :
    s.clock ≤ s'.clock ∧ ∀ t ∈ s'.returned, t ∈ s.returned ∨ s.clock ≤ t := by
  refine Reaches.inv
    (I := fun s' => s.clock ≤ s'.clock ∧ ∀ t ∈ s'.returned, t ∈ s.returned ∨ s.clock ≤ t) hs
    ⟨le_rfl, fun t ht => Or.inl ht⟩ fun s1 a s2 hi _ hs => ?_
  obtain ⟨hclock, hlater⟩ := hi
  rcases step_cases hs with ⟨ns, rfl⟩ | ⟨r, called, asleep, -, -, -, rfl⟩ |
    ⟨r, called, asleep, -, -, -, rfl⟩ | ⟨-, rfl⟩ | ⟨-, rfl⟩
  · have hle : s1.clock ≤ s1.clock + ns := by omega
    exact ⟨hclock.trans hle, hlater⟩
  · refine ⟨hclock, fun t ht => ?_⟩
    rcases List.mem_cons.mp ht with rfl | ht
    · exact Or.inr hclock
    · exact hlater t ht
  · exact ⟨hclock, hlater⟩
  · exact ⟨hclock, hlater⟩
  · exact ⟨hclock, hlater⟩

/-- The second from `w` on has its first return into a bucket that fits. -/
def Tracked (max_per_second w : ℤ) (s' : State) : Prop :=
  ∃ s a r s1, Reachable max_per_second s ∧ Begins s a r ∧ Fits r s.clock ∧ next s a = some s1 ∧
    w ≤ s.clock ∧ (∀ t ∈ s.returned, t < w) ∧ Reaches (Fires next) (fun _ _ => True) s1 s'

/-- A tracked second keeps the limit. -/
theorem Tracked.limit {w : ℤ} (h : Tracked max_per_second w s) (hmax : 1 ≤ max_per_second)
    (hdvd : max_per_second ∣ second) : (in_second w s.returned : ℤ) ≤ max_per_second := by
  obtain ⟨s0, a, r, s1, hreachable, hbegins, hfits, hs, hclock, hfirst, hreach⟩ := h
  have hsafe := hbegins.safe hs (hreachable.inv hmax) hmax hdvd hfits hreach
  obtain ⟨called, asleep, -, rfl⟩ := hbegins.after hs
  have hle : in_second w s.returned ≤ in_second s0.clock s.returned := by
    refine count_mono fun t ht hwt => ⟨?_, by omega⟩
    rcases (returned_later hreach).2 t ht with hold | hlater
    · rcases List.mem_cons.mp hold with rfl | hold
      · exact le_rfl
      · exact absurd (hfirst t hold) (not_lt.mpr hwt.1)
    · exact hlater
  omega

/-- **The limit of a second**: a second sees at most `max_per_second` returns of `acquire` if no more
calls wait as it begins or come in it, or if its first return leaves tokens which, with those that
accrue in the second, are no more. For a second that begins with a return, the latter is exact when
any calls may come, and both are when any `n` may and none waits. -/
theorem limit_kept_iff (max_per_second : ℤ) (hmax : 1 ≤ max_per_second)
    (hdvd : max_per_second ∣ second) :
    (∀ s, Reachable max_per_second s → ∀ w,
      Tracked max_per_second w s ∨ (due w s : ℤ) ≤ max_per_second →
      (in_second w s.returned : ℤ) ≤ max_per_second) ∧
    ∀ s a r s', Reachable max_per_second s → Begins s a r → next s a = some s' →
      ((∀ s'', Reaches (Fires next) (fun _ _ => True) s' s'' →
        (in_second s.clock s''.returned : ℤ) ≤ max_per_second) ↔ Fits r s.clock) ∧
      (s'.asleep = [] → ∀ n : ℕ,
        ((∀ s'', Reaches (Fires next) (fun _ _ => True) s' s'' → due s.clock s'' ≤ n →
          (in_second s.clock s''.returned : ℤ) ≤ max_per_second) ↔
          Fits r s.clock ∨ (n : ℤ) ≤ max_per_second)) := by
  refine ⟨fun s hs w h => ?_, fun s a r s' hs hbegins hstep => ⟨⟨fun hsafe => ?_, ?_⟩, ?_⟩⟩
  · rcases h with h | h
    · exact h.limit hmax hdvd
    · have hdue := hs.calls.in_second_le w
      omega
  · by_contra hfits
    obtain ⟨s'', hs'', hcount, -⟩ := hbegins.exceeded hstep (hs.inv hmax) hmax hdvd hfits
    have hle := hsafe s'' hs''
    omega
  · exact fun hfits s'' hs'' => hbegins.safe hstep (hs.inv hmax) hmax hdvd hfits hs''
  · have hcalls : Calls s' := hs.calls.step hstep
    refine fun hasleep n => ⟨fun hsafe => ?_, fun h s'' hs'' hdue => ?_⟩
    · by_contra hneither
      obtain ⟨hfits, hn⟩ := not_or.mp hneither
      obtain ⟨s'', hs'', hcount, hcalled, hsuffix⟩ :=
        hbegins.exceeded hstep (hs.inv hmax) hmax hdvd hfits
      obtain ⟨k, rfl⟩ : ∃ k : ℕ, max_per_second = k := ⟨max_per_second.toNat, by omega⟩
      have hdue := hbegins.due_le hstep hcalls hasleep hcalled hsuffix
      have hle := hsafe s'' hs'' (hdue.trans (by omega))
      omega
    · rcases h with hfits | hn
      · exact hbegins.safe hstep (hs.inv hmax) hmax hdvd hfits hs''
      · have hcalls'' : Calls s'' := hcalls.run hs''
        have hle := hcalls''.in_second_le s.clock
        omega

/-- Ten orders at once, and two a second and a half later. -/
theorem limit_kept_twelve : ∃ s, Reachable 10 s ∧ s.returned.length = 12 ∧
    (in_second 0 s.returned : ℤ) ≤ 10 := by
  have hplay : (play next (fun _ _ => True) (init 10 0) (List.replicate 10 .acquire ++
      [.elapse 1500000000, .acquire, .acquire])).map
        (fun s => (s.returned.length, due 0 s)) = some (12, 10) := by
    decide +kernel
  obtain ⟨s, hs, hrun⟩ := Option.map_eq_some_iff.mp hplay
  obtain ⟨hlength, hdue⟩ := Prod.mk.inj hrun
  have hreachable : Reachable 10 s := ⟨0, by decide, reaches_of_play hs⟩
  exact ⟨s, hreachable, hlength, (limit_kept_iff 10 (by decide) (by decide)).1 s hreachable 0
    (Or.inr (by rw [hdue]; rfl))⟩

/-- A bucket that was refilled less than a token's time ago fits with one token, which accrued in
this instant. -/
theorem fits_iff (h : Rate max_per_second l) (htoken : 1 ≤ l.tokens) (hlast : l.last_refill ≤ now)
    (hfresh : now < l.last_refill + l.refill_ns) :
    Fits l now ↔ l.tokens = 1 ∧ l.last_refill = now := by
  have hmax := h.le
  have hmul := h.mul
  have hpos := h.pos
  have h0 : 0 ≤ (now + second - 1 - l.last_refill) / l.refill_ns :=
    Int.ediv_nonneg (by simp only [second]; omega) hpos.le
  have hle : (now + second - 1 - l.last_refill) / l.refill_ns ≤ max_per_second := by
    refine Int.le_of_lt_add_one (Int.ediv_lt_of_lt_mul hpos ?_)
    rw [add_mul, one_mul]
    omega
  have hnew : l.new_toks (now + second - 1) =
      (now + second - 1 - l.last_refill) / l.refill_ns := by
    simp only [second] at hmax
    exact to_int_of_range (by omega) (by simp only [int_max]; omega)
  rw [Fits, h.max_tokens, hnew, max_eq_right h0]
  rcases hlast.lt_or_eq with hlt | heq
  · -- Part of the next token has accrued: the second sees all of `max_per_second`.
    have hge : max_per_second ≤ (now + second - 1 - l.last_refill) / l.refill_ns :=
      (Int.le_ediv_iff_mul_le hpos).mpr (by omega)
    omega
  · have hge : max_per_second - 1 ≤ (now + second - 1 - l.last_refill) / l.refill_ns := by
      refine (Int.le_ediv_iff_mul_le hpos).mpr ?_
      rw [sub_mul, one_mul]
      omega
    have hlt : (now + second - 1 - l.last_refill) / l.refill_ns < max_per_second :=
      Int.ediv_lt_of_lt_mul hpos (by omega)
    omega

/-- Ten orders at once, and one more each time a token has accrued. -/
theorem burst_of_nineteen : ∃ s, Reachable 10 s ∧ in_second 0 s.returned = 19 := by
  have hplay : (play next (fun _ _ => True) (init 10 0) (List.replicate 10 .acquire ++
      (List.replicate 9 [.elapse 100000000, .acquire]).flatten)).map
        (fun s => in_second 0 s.returned) = some 19 := by
    decide +kernel
  obtain ⟨s, hs, hcount⟩ := Option.map_eq_some_iff.mp hplay
  exact ⟨s, ⟨0, by decide, reaches_of_play hs⟩, hcount⟩

end Meridian.OrderRateLimiter
