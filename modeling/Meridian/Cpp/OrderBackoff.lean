import Meridian.Cpp.OrderRateLimiter

/-!
# The backoff of the orders

`on_rate_limit_hit` doubles the backoff before it uses it, so the first hit since the construction
or the last success starts one of 2 s, where the class and its caller say 1 s. Each hit also replaces
the end of the backoff that runs: a hit after a success ends it sooner.

Results:
* `Gated.run`: no call returns before the end of a backoff that no hit opens;
* `backoff_iff`: which hits are on the documented ladder, and which keep the backoff that runs.
-/

namespace Meridian.OrderRateLimiter

open EventLog Run

/-- A hit before `end_ns` starts a backoff after which no token accrues before `end_ns`: one that
ends no sooner, or that ends sooner with none to be had in between. -/
def Prolongs (end_ns : ℤ) (s : State) (a : Act) : Prop :=
  a = .on_rate_limit_hit → s.clock < end_ns →
    let l := s.limiter.on_rate_limit_hit s.clock
    ∀ t, l.backoff_until ≤ t → t < end_ns → l.new_toks t ≤ 0

/-- No call that returned since `s` did so before `end_ns`. -/
def NoneBefore (end_ns : ℤ) (s s' : State) : Prop :=
  ∃ later, s'.returned = later ++ s.returned ∧ ∀ t ∈ later, end_ns ≤ t

/-- The bucket is empty and stays so until `end_ns`: no refill before that adds a token. -/
def Gated (end_ns : ℤ) (s : State) : Prop :=
  s.clock < end_ns → s.limiter.tokens ≤ 0 ∧
    ∀ t, s.limiter.backoff_until ≤ t → t < end_ns → s.limiter.new_toks t ≤ 0

variable {max_per_second end_ns : ℤ} {s s' : State} {a : Act} {r : OrderRateLimiter}

theorem NoneBefore.refl : NoneBefore end_ns s s := ⟨[], rfl, fun _ ht => absurd ht List.not_mem_nil⟩

theorem NoneBefore.trans {s'' : State} (h : NoneBefore end_ns s s') (h' : NoneBefore end_ns s' s'') :
    NoneBefore end_ns s s'' := by
  obtain ⟨later, hlater, hall⟩ := h
  obtain ⟨later', hlater', hall'⟩ := h'
  refine ⟨later' ++ later, by rw [hlater', hlater, List.append_assoc], fun t ht => ?_⟩
  rcases List.mem_append.mp ht with ht | ht
  · exact hall' t ht
  · exact hall t ht

/-- A refill behind the gate leaves it closed. -/
theorem Gated.refill (h : Gated end_ns s) (hr : s.limiter.refill_locked s.clock = some r) :
    Gated end_ns { s with limiter := r } := by
  intro hlt
  obtain ⟨hempty, hnone⟩ := h hlt
  rcases refill_cases hr with ⟨-, rfl⟩ | ⟨hover, hnew, -⟩ | ⟨-, -, rfl⟩
  · exact ⟨le_rfl, hnone⟩
  · exact absurd (hnone s.clock hover hlt) (not_le.mpr hnew)
  · exact ⟨hempty, hnone⟩

/-- A hit closes the gate until the end of the backoff that it starts. -/
theorem gated_of_hit :
    Gated (s.limiter.on_rate_limit_hit s.clock).backoff_until
      { s with limiter := s.limiter.on_rate_limit_hit s.clock, hits := s.hits + 1 } :=
  fun _ => ⟨le_rfl, fun _ hle hlt => absurd hle (not_le.mpr hlt)⟩

/-- **Step**: behind the gate nothing returns, and it stays closed. -/
theorem Gated.step (h : Gated end_ns s) (hc : Prolongs end_ns s a) (hs : next s a = some s') :
    Gated end_ns s' ∧ NoneBefore end_ns s s' := by
  rcases step_cases hs with ⟨ns, rfl⟩ | ⟨r, called, asleep, hr, htoken, -, rfl⟩ |
    ⟨r, called, asleep, hr, -, -, rfl⟩ | ⟨ha, rfl⟩ | ⟨-, rfl⟩
  · have hle : s.clock ≤ s.clock + ns := by omega
    exact ⟨fun hlt => h (lt_of_le_of_lt hle hlt), .refl⟩
  · -- A token is left by the refill: the gate is open.
    have hopen : end_ns ≤ s.clock := by
      by_contra hlt
      have hempty : r.tokens ≤ 0 := (h.refill hr (not_le.mp hlt)).1
      omega
    refine ⟨fun hlt => absurd hopen (not_le.mpr hlt), [s.clock], rfl, fun t ht => ?_⟩
    obtain rfl := List.mem_singleton.mp ht
    exact hopen
  · exact ⟨h.refill hr, .refl⟩
  · exact ⟨fun hlt => ⟨le_rfl, hc ha hlt⟩, .refl⟩
  · exact ⟨h, .refl⟩

/-- **The gate**: as long as no hit opens it, nothing returns before `end_ns`. -/
theorem Gated.run (h : Gated end_ns s) (hs : Reaches (Fires next) (Prolongs end_ns) s s') :
    NoneBefore end_ns s s' := by
  have hboth : Gated end_ns s' ∧ NoneBefore end_ns s s' := by
    refine Reaches.inv (I := fun x => Gated end_ns x ∧ NoneBefore end_ns s x) hs ⟨h, .refl⟩
      fun x a x' hi hc hs => ?_
    obtain ⟨hgated, hnone⟩ := hi.1.step hc hs
    exact ⟨hgated, hi.2.trans hnone⟩
  exact hboth.2

/-- At a time after the backoff at which a token has accrued, a call that comes returns. -/
theorem returns_at {t : ℤ} (hclock : s.clock ≤ t) (hover : s.limiter.backoff_until ≤ t)
    (hnew : 0 < s.limiter.new_toks t) (htokens : s.limiter.tokens = 0)
    (hmax : 1 ≤ s.limiter.max_tokens) :
    ∃ s', Reaches (Fires next) (Prolongs end_ns) s s' ∧ s'.returned = t :: s.returned := by
  obtain ⟨ns, rfl⟩ : ∃ ns : ℕ, t = s.clock + ns := ⟨(t - s.clock).toNat, by omega⟩
  have helapse : next s (.elapse ns) = some { s with clock := s.clock + ns } := rfl
  have hsum : s.limiter.tokens + s.limiter.new_toks (s.clock + ns) ≤ int_max := by
    rw [htokens, zero_add]
    exact to_int_le _
  have hrefill : s.limiter.refill_locked (s.clock + ns) = some { s.limiter with
      tokens := min (s.limiter.tokens + s.limiter.new_toks (s.clock + ns)) s.limiter.max_tokens
      last_refill := s.clock + ns } := by
    rw [refill_locked, if_neg (not_lt.mpr hover), if_pos hnew, if_pos hsum]
  have hacquire := acquire_returns (s := { s with clock := s.clock + ns }) hrefill
    (le_min (by omega) hmax)
  refine ⟨_, (Reaches.refl.tail ?_ helapse).tail ?_ hacquire, rfl⟩
  · exact fun h => by cases h
  · exact fun h => by cases h

/-- **The ladder and the gate**: the `k`-th hit since the construction or the last success starts a
backoff of `min(2^k, 32)` seconds, which is the documented `min(2^(k-1), 32)` from the sixth on
only. No call returns before it ends as long as no token accrues between the end of the backoff that
a later hit starts and this one's; and a hit after which one does lets a call return sooner. -/
theorem backoff_iff (max_per_second : ℤ) (hmax : 1 ≤ max_per_second) (s : State)
    (h : Reachable max_per_second s) (s1 : State) (hs : next s .on_rate_limit_hit = some s1) :
    s1.limiter.backoff_until = s.clock + min (2 ^ (s.hits + 1)) 32 * second ∧
    (s1.limiter.backoff_until = s.clock + min (2 ^ s.hits) 32 * second ↔ 6 ≤ s.hits + 1) ∧
    (∀ s', Reaches (Fires next) (Prolongs s1.limiter.backoff_until) s1 s' →
      NoneBefore s1.limiter.backoff_until s1 s') ∧
    (∀ end_ns, (∀ s', Reaches (Fires next) (Prolongs end_ns) s1 s' → NoneBefore end_ns s1 s') ↔
      Prolongs end_ns s .on_rate_limit_hit) := by
  have hinv := h.inv hmax
  obtain rfl := Option.some.inj hs
  have hend := hinv.hit_backoff s.clock
  simp only [kInitBackoffMs, kMaxBackoffMs, milliseconds] at hend
  have hladder : s.clock + 1000000 * min (1000 * 2 ^ (s.hits + 1)) 32000 =
      s.clock + min (2 ^ (s.hits + 1)) 32 * second := by
    simp only [second]
    omega
  have hsixth : (32 : ℤ) ≤ 2 ^ s.hits ↔ 5 ≤ s.hits := by
    rw [show (32 : ℤ) = 2 ^ 5 by norm_num]
    exact pow_le_pow_iff_right₀ (by norm_num)
  refine ⟨hend.trans hladder, ?_, fun s' hs' => gated_of_hit.run hs', fun e => ?_⟩
  · have hpos : (1 : ℤ) ≤ 2 ^ s.hits := one_le_pow₀ (by norm_num)
    simp only [hend, second, pow_succ]
    generalize (2 : ℤ) ^ s.hits = p at hsixth hpos ⊢
    omega
  · refine ⟨fun hnone _ _ => ?_, fun hlong s' hs' => ?_⟩
    · intro l t hover hlt
      by_contra hnew
      have hle : s.clock + 2 * second ≤ l.backoff_until := hinv.le_hit_backoff s.clock
      simp only [second] at hle
      have hreturn : ∃ s', Reaches (Fires next) (Prolongs e)
          { s with limiter := l, hits := s.hits + 1 } s' ∧ s'.returned = t :: s.returned :=
        returns_at (by simp only; omega) hover (not_le.mp hnew) rfl
          (hmax.trans_eq hinv.max_tokens.symm)
      obtain ⟨s', hs', hreturned⟩ := hreturn
      obtain ⟨later, hlater, hall⟩ := hnone s' hs'
      rw [hreturned] at hlater
      have hsingle : later = [t] := (List.append_left_inj s.returned).mp hlater.symm
      exact absurd (hall t (hsingle ▸ List.mem_singleton_self t)) (not_le.mpr hlt)
    · have hgated : Gated e
          { s with limiter := s.limiter.on_rate_limit_hit s.clock, hits := s.hits + 1 } :=
        fun hlt => ⟨le_rfl, hlong rfl hlt⟩
      exact hgated.run hs'

/-- The sixth hit in a row of a new limiter. -/
theorem backoff_iff_sixth : ∃ s1,
    next { init 10 0 with
      limiter := { new 10 0 with backoff_ms := 32000, backoff_until := 32 * second, tokens := 0 }
      hits := 5 } .on_rate_limit_hit = some s1 ∧
      s1.limiter.backoff_until = 0 + min (2 ^ 5) 32 * second := by
  have hplay : play next (fun _ _ => True) (init 10 0) (List.replicate 5 .on_rate_limit_hit) =
      some { init 10 0 with
        limiter := { new 10 0 with backoff_ms := 32000, backoff_until := 32 * second, tokens := 0 }
        hits := 5 } := by
    decide +kernel
  exact ⟨_, rfl, (backoff_iff 10 (by decide) _ ⟨0, by decide, reaches_of_play hplay⟩ _ rfl).2.1.mpr
    (by decide)⟩

/-- **Off the ladder and past the gate**: the first hit of a new limiter starts a backoff of 2 s, not
1 s. After a second one, of 4 s, a success and a third hit, a call returns after 2 s. -/
theorem first_hit_doubles :
    ((new 10 0).on_rate_limit_hit 0).backoff_until ≠ 0 + min (2 ^ 0) 32 * second ∧
    ∃ s1 s', Reachable 10 s1 ∧ s1.limiter.backoff_until = 4 * second ∧
      Reaches (Fires next) (fun _ _ => True) s1 s' ∧ ¬NoneBefore (4 * second) s1 s' := by
  refine ⟨by decide, ?_⟩
  have hfirst : play next (fun _ _ => True) (init 10 0) [.on_rate_limit_hit, .on_rate_limit_hit] =
      some { init 10 0 with
        limiter := { new 10 0 with backoff_ms := 4000, backoff_until := 4 * second, tokens := 0 }
        hits := 2 } := by
    decide +kernel
  have hlater : (play next (fun _ _ => True) { init 10 0 with
        limiter := { new 10 0 with backoff_ms := 4000, backoff_until := 4 * second, tokens := 0 }
        hits := 2 } [.on_success, .on_rate_limit_hit, .elapse 2000000000, .acquire]).map
      State.returned = some [2 * second] := by
    decide +kernel
  obtain ⟨s', hs', hreturned⟩ := Option.map_eq_some_iff.mp hlater
  refine ⟨_, s', ⟨0, by decide, reaches_of_play hfirst⟩, rfl, reaches_of_play hs', ?_⟩
  rintro ⟨later, heq, hall⟩
  rw [hreturned] at heq
  have hmem : 2 * second ∈ later := by
    rw [← List.append_nil later]
    exact heq ▸ List.mem_singleton_self _
  exact absurd (hall _ hmem) (by decide)

end Meridian.OrderRateLimiter
