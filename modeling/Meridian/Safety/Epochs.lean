import Mathlib.Data.List.Induction
import Mathlib.Order.Bounds.Basic
import Meridian.Safety.CircuitBreaker

/-!
# When the circuit breaker trips

The calls of `CircuitBreaker` (`circuit_breaker.py:40-99`) over whole traces, against what the
breaker is for. An **epoch** starts at construction, at each `reset` and at each sample of another
day than the sample before it. A sample breaches when it lies a limit below the epoch's first
sample or below the epoch's peak so far. The days are arbitrary.

## Results

* `tripped_iff_breached`: after any calls the breaker is tripped iff a sample of the current epoch
  has breached, it stays tripped until an epoch starts, and no call divides by zero.

Out of scope: the rounding of doubles (equities and the percentages of a loss are exact).
-/

namespace Meridian

namespace CircuitBreaker

/-- A call of the monitor: `record_equity` at a time, or `reset`. -/
inductive Call where
  | record_equity (now usd token mid_price : ℚ)
  | reset

/-- What a call leaves. -/
def Call.apply (c : CircuitBreaker) : Call → CircuitBreaker
  | record_equity now usd token mid_price => c.record_equity now usd token mid_price
  | reset => c.reset

/-- `__init__` (`circuit_breaker.py:32-39`) at a time. -/
def new (max_daily_loss_pct max_drawdown_pct now : ℚ) : CircuitBreaker where
  max_daily_loss_pct := max_daily_loss_pct
  max_drawdown_pct := max_drawdown_pct
  day_start := current_day now

/-- The breaker after a trace of calls. -/
def run (c : CircuitBreaker) (calls : List Call) : CircuitBreaker := calls.foldl Call.apply c

@[simp] theorem run_snoc (c : CircuitBreaker) (calls : List Call) (call : Call) :
    c.run (calls ++ [call]) = call.apply (c.run calls) := by
  rw [run, List.foldl_append]
  rfl

/-! ## Epochs -/

/-- The current epoch: the day of the last sample, or of construction, and the samples since the
epoch started. -/
structure Epoch where
  day : ℤ
  samples : List ℚ

namespace Epoch

/-- The epoch after a call. -/
def next (ep : Epoch) : Call → Epoch
  | .record_equity now usd token mid_price =>
    let e := usd + token * mid_price
    if current_day now ≠ ep.day then ⟨current_day now, [e]⟩ else ⟨ep.day, ep.samples ++ [e]⟩
  | .reset => ⟨ep.day, []⟩

/-- The call is a sample of the epoch's day: it starts no epoch. -/
def Continues (ep : Epoch) : Call → Prop
  | .record_equity now _ _ _ => current_day now = ep.day
  | .reset => False

/-- The epoch of a breaker made at `now`, after a trace of calls. -/
def after (now : ℚ) (calls : List Call) : Epoch := calls.foldl next ⟨current_day now, []⟩

@[simp] theorem after_nil (now : ℚ) : after now [] = ⟨current_day now, []⟩ := rfl

@[simp] theorem after_snoc (now : ℚ) (calls : List Call) (call : Call) :
    after now (calls ++ [call]) = (after now calls).next call := by
  rw [after, List.foldl_append]
  rfl

end Epoch

/-! ## Breaches -/

/-- An equity at or past a limit, from the start and the peak of its epoch. -/
def Exceeds (loss drawdown start peak e : ℚ) : Prop :=
  (0 < start ∧ loss ≤ (start - e) / start * 100) ∨
  (0 < peak ∧ drawdown ≤ (peak - e) / peak * 100)

/-- Sample `n` breaches: `start` is the first sample, `peak` the maximum of those up to it. -/
def BreachAt (loss drawdown : ℚ) (samples : List ℚ) (n : ℕ) : Prop :=
  ∃ start peak e, samples.head? = some start ∧ IsGreatest {x | x ∈ samples.take (n + 1)} peak ∧
    samples[n]? = some e ∧ Exceeds loss drawdown start peak e

/-- Some sample breaches. -/
def Breached (loss drawdown : ℚ) (samples : List ℚ) : Prop := ∃ n, BreachAt loss drawdown samples n

variable {loss drawdown start peak e : ℚ} {samples : List ℚ}

theorem not_breached_nil : ¬ Breached loss drawdown [] := by
  rintro ⟨n, start, -, -, hstart, -⟩
  exact Option.some_ne_none start hstart.symm

/-- A breach lies where the epoch has a sample. -/
theorem BreachAt.lt {n : ℕ} (h : BreachAt loss drawdown samples n) : n < samples.length := by
  obtain ⟨-, -, e, -, -, he, -⟩ := h
  exact (List.getElem?_eq_some_iff.mp he).1

/-- What has been breached stays so as the epoch goes on. -/
theorem breachAt_append {n : ℕ} (more : List ℚ) (hn : n < samples.length) :
    BreachAt loss drawdown (samples ++ more) n ↔ BreachAt loss drawdown samples n := by
  have hhead : (samples ++ more).head? = samples.head? := by
    cases samples with
    | nil => exact absurd hn (Nat.not_lt_zero n)
    | cons s rest => rfl
  rw [BreachAt, BreachAt, hhead, List.take_append_of_le_length (by omega),
    List.getElem?_append_left hn]

/-- The sample at the end breaches iff it exceeds a limit. -/
theorem breachAt_last (hstart : (samples ++ [e]).head? = some start)
    (hpeak : IsGreatest {x | x ∈ samples ++ [e]} peak) :
    BreachAt loss drawdown (samples ++ [e]) samples.length ↔
      Exceeds loss drawdown start peak e := by
  rw [BreachAt, List.take_of_length_le (by simp), List.getElem?_concat_length]
  constructor
  · rintro ⟨start', peak', e', hstart', hpeak', he', hexceeds⟩
    rw [← Option.some.inj (hstart'.symm.trans hstart), hpeak.unique hpeak', Option.some.inj he']
    exact hexceeds
  · exact fun hexceeds => ⟨start, peak, e, hstart, hpeak, rfl, hexceeds⟩

theorem breached_snoc (hstart : (samples ++ [e]).head? = some start)
    (hpeak : IsGreatest {x | x ∈ samples ++ [e]} peak) :
    Breached loss drawdown (samples ++ [e]) ↔
      Breached loss drawdown samples ∨ Exceeds loss drawdown start peak e := by
  constructor
  · rintro ⟨n, hn⟩
    have hlt := hn.lt
    rw [List.length_append, List.length_singleton] at hlt
    rcases Nat.lt_succ_iff_lt_or_eq.mp hlt with hlt | rfl
    · exact .inl ⟨n, (breachAt_append [e] hlt).mp hn⟩
    · exact .inr ((breachAt_last hstart hpeak).mp hn)
  · rintro (⟨n, hn⟩ | hexceeds)
    · exact ⟨n, (breachAt_append [e] hn.lt).mpr hn⟩
    · exact ⟨samples.length, (breachAt_last hstart hpeak).mpr hexceeds⟩

/-- The first sample of an epoch never breaches. -/
theorem not_exceeds_first (hloss : 0 < loss) (hdrawdown : 0 < drawdown) :
    ¬ Exceeds loss drawdown e e e := by
  rw [Exceeds, sub_self, zero_div, zero_mul]
  rintro (⟨-, h⟩ | ⟨-, h⟩)
  · exact not_lt.mpr h hloss
  · exact not_lt.mpr h hdrawdown

theorem not_breached_first (hloss : 0 < loss) (hdrawdown : 0 < drawdown) :
    ¬ Breached loss drawdown [e] := by
  have hpeak : IsGreatest {x | x ∈ [] ++ [e]} e := by simp
  rw [← List.nil_append [e], breached_snoc rfl hpeak]
  exact not_or.mpr ⟨not_breached_nil, not_exceeds_first hloss hdrawdown⟩

/-! ## The checks -/

@[simp] theorem tripped_trip (c : CircuitBreaker) (reason : TripReason) :
    (c.trip reason).tripped = true := by
  unfold trip
  split
  · assumption
  · rfl

theorem tripped_check_drawdown {c : CircuitBreaker} (hpeak : c.peak_equity = some peak) :
    (c.check_drawdown e).tripped = true ↔ c.tripped = true ∨
      (0 < peak ∧ c.max_drawdown_pct ≤ (peak - e) / peak * 100) := by
  simp only [check_drawdown, hpeak]
  split_ifs with hpos hlimit
  · simp only [tripped_trip, true_iff]
    exact .inr ⟨hpos, hlimit⟩
  · exact (or_iff_left fun h => hlimit h.2).symm
  · exact (or_iff_left fun h => hpos h.1).symm

/-- The early return of the daily loss leaves out a check that could only trip again. -/
theorem tripped_check_limits {c : CircuitBreaker} (hpeak : c.peak_equity = some peak) :
    (c.check_limits start e).tripped = true ↔ c.tripped = true ∨
      Exceeds c.max_daily_loss_pct c.max_drawdown_pct start peak e := by
  simp only [check_limits, Exceeds]
  split_ifs with hpos hlimit
  · simp only [tripped_trip, true_iff]
    exact .inr (.inl ⟨hpos, hlimit⟩)
  · rw [tripped_check_drawdown hpeak, or_iff_right (a := 0 < start ∧ _) fun h => hlimit h.2]
  · rw [tripped_check_drawdown hpeak, or_iff_right (a := 0 < start ∧ _) fun h => hpos h.1]

/-- The checks only set the mark. -/
theorem check_limits_eq (c : CircuitBreaker) (start e : ℚ) :
    ∃ tripped reason,
      c.check_limits start e = { c with tripped := tripped, trip_reason := reason } := by
  have htrip (reason : TripReason) :
      ∃ t r, c.trip reason = { c with tripped := t, trip_reason := r } := by
    unfold trip
    split
    · exact ⟨c.tripped, c.trip_reason, rfl⟩
    · exact ⟨true, some reason, rfl⟩
  have hsame : ∃ t r, c = { c with tripped := t, trip_reason := r } :=
    ⟨c.tripped, c.trip_reason, rfl⟩
  have hdrawdown : ∃ t r, c.check_drawdown e = { c with tripped := t, trip_reason := r } := by
    unfold check_drawdown
    dsimp only
    split
    · split_ifs
      · exact htrip _
      · exact hsame
      · exact hsame
    · exact hsame
  unfold check_limits
  dsimp only
  split_ifs
  · exact htrip _
  · exact hdrawdown
  · exact hdrawdown

/-! ## The breaker follows its epoch -/

/-- The peak of the samples; there is none before the first. -/
def IsPeak (samples : List ℚ) : Option ℚ → Prop
  | none => samples = []
  | some peak => IsGreatest {x | x ∈ samples} peak

/-- What the breaker's fields are of its epoch: the first sample, the peak, and whether one
breached. -/
structure Tracks (loss drawdown : ℚ) (ep : Epoch) (c : CircuitBreaker) : Prop where
  limits : c.limits = (loss, drawdown)
  day : c.day_start = ep.day
  start : c.start_equity = ep.samples.head?
  peak : IsPeak ep.samples c.peak_equity
  tripped : c.tripped = true ↔ Breached loss drawdown ep.samples

/-- The peak moves when the sample is above it. -/
theorem IsPeak.snoc {old : Option ℚ} : IsPeak samples old →
    IsGreatest {x | x ∈ samples ++ [e]}
      (match old with
        | some peak => if e > peak then e else peak
        | none => e) := by
  cases old with
  | none =>
    rintro rfl
    simp
  | some peak =>
    rintro ⟨hmem, hle⟩
    dsimp only
    split_ifs with hgt
    · refine ⟨List.mem_append_right _ (List.mem_singleton_self e), fun x hx => ?_⟩
      rcases List.mem_append.mp hx with hx | hx
      · exact (hle hx).trans (le_of_lt hgt)
      · exact (List.mem_singleton.mp hx).le
    · refine ⟨List.mem_append_left _ hmem, fun x hx => ?_⟩
      rcases List.mem_append.mp hx with hx | hx
      · exact hle hx
      · exact (List.mem_singleton.mp hx).le.trans (not_lt.mp hgt)

theorem tracks_new (loss drawdown now : ℚ) :
    Tracks loss drawdown (Epoch.after now []) (new loss drawdown now) where
  limits := rfl
  day := rfl
  start := rfl
  peak := rfl
  tripped := (iff_of_false Bool.false_ne_true not_breached_nil)

theorem Tracks.reset {ep : Epoch} {c : CircuitBreaker} (h : Tracks loss drawdown ep c) :
    Tracks loss drawdown (ep.next .reset) c.reset where
  limits := h.limits
  day := h.day
  start := rfl
  peak := rfl
  tripped := (iff_of_false Bool.false_ne_true not_breached_nil)

/-- A sample of another day is the first of its epoch and is not checked; none would trip. -/
theorem Tracks.record_other_day {ep : Epoch} {c : CircuitBreaker} {now usd token mid_price : ℚ}
    (hloss : 0 < loss) (hdrawdown : 0 < drawdown) (h : Tracks loss drawdown ep c)
    (hday : current_day now ≠ ep.day) :
    Tracks loss drawdown (ep.next (.record_equity now usd token mid_price))
      (c.record_equity now usd token mid_price) := by
  simp only [Epoch.next, if_pos hday, record_equity, h.day]
  exact
    { limits := h.limits
      day := rfl
      start := rfl
      peak := by simp [IsPeak]
      tripped := iff_of_false Bool.false_ne_true (not_breached_first hloss hdrawdown) }

/-- The checks of a sample, once the baselines have taken it in. -/
theorem Tracks.check {c : CircuitBreaker} {day : ℤ} (hlimits : c.limits = (loss, drawdown))
    (hday : c.day_start = day) (hstart : c.start_equity = some start)
    (hpeak : c.peak_equity = some peak)
    (htripped : c.tripped = true ↔ Breached loss drawdown samples)
    (hfirst : (samples ++ [e]).head? = some start)
    (hgreatest : IsGreatest {x | x ∈ samples ++ [e]} peak) :
    Tracks loss drawdown ⟨day, samples ++ [e]⟩ (c.check_limits start e) := by
  obtain ⟨rfl, rfl⟩ := Prod.mk.inj hlimits
  have hbreached : (c.check_limits start e).tripped = true ↔ _ :=
    (tripped_check_limits hpeak).trans (or_congr_left htripped)
  obtain ⟨tripped, reason, heq⟩ := check_limits_eq c start e
  rw [heq] at hbreached ⊢
  exact
    { limits := rfl
      day := hday
      start := hstart.trans hfirst.symm
      peak := by
        rw [hpeak]
        exact hgreatest
      tripped := hbreached.trans (breached_snoc hfirst hgreatest).symm }

theorem Tracks.record_same_day {ep : Epoch} {c : CircuitBreaker} {now usd token mid_price : ℚ}
    (h : Tracks loss drawdown ep c) (hday : current_day now = ep.day) :
    Tracks loss drawdown (ep.next (.record_equity now usd token mid_price))
      (c.record_equity now usd token mid_price) := by
  have hsame : ¬ current_day now ≠ ep.day := not_not.mpr hday
  simp only [Epoch.next, if_neg hsame, record_equity, h.day]
  refine Tracks.check h.limits rfl rfl rfl h.tripped ?_ h.peak.snoc
  rw [h.start]
  cases ep.samples <;> rfl

/-- One call keeps the breaker on its epoch. -/
theorem Tracks.apply {ep : Epoch} {c : CircuitBreaker} (hloss : 0 < loss)
    (hdrawdown : 0 < drawdown) (h : Tracks loss drawdown ep c) (call : Call) :
    Tracks loss drawdown (ep.next call) (call.apply c) := by
  cases call with
  | record_equity now usd token mid_price =>
    by_cases hday : current_day now = ep.day
    · exact h.record_same_day hday
    · exact h.record_other_day hloss hdrawdown hday
  | reset => exact h.reset

/-- And so does a trace of calls. -/
theorem tracks_run (hloss : 0 < loss) (hdrawdown : 0 < drawdown) (now : ℚ) (calls : List Call) :
    Tracks loss drawdown (Epoch.after now calls) ((new loss drawdown now).run calls) := by
  induction calls using List.reverseRecOn with
  | nil => exact tracks_new loss drawdown now
  | append_singleton calls call ih =>
    rw [run_snoc, Epoch.after_snoc]
    exact ih.apply hloss hdrawdown call

/-- What has breached stays breached while the epoch goes on. -/
theorem breached_next {ep : Epoch} {call : Call} (h : ep.Continues call)
    (hbreached : Breached loss drawdown ep.samples) :
    Breached loss drawdown (ep.next call).samples := by
  cases call with
  | record_equity now usd token mid_price =>
    have hday : ¬ current_day now ≠ ep.day := not_not.mpr h
    simp only [Epoch.next, if_neg hday]
    obtain ⟨n, hn⟩ := hbreached
    exact ⟨n, (breachAt_append _ hn.lt).mpr hn⟩
  | reset => exact h.elim

/-! ## Checked division -/

/-- `x / y`; none where it raises `ZeroDivisionError`. -/
def div_checked (x y : ℚ) : Option ℚ := if y = 0 then none else some (x / y)

theorem div_checked_eq {x y : ℚ} (h : 0 < y) : div_checked x y = some (x / y) := if_neg h.ne'

/-- `check_drawdown` with its division checked. -/
def check_drawdown_checked (c : CircuitBreaker) (equity : ℚ) : Option CircuitBreaker :=
  match c.peak_equity with
  | some peak =>
    if peak > 0 then do
      let drawdown_pct := (← div_checked (peak - equity) peak) * 100
      if drawdown_pct ≥ c.max_drawdown_pct then
        some (c.trip (.drawdown drawdown_pct c.max_drawdown_pct))
      else some c
    else some c
  | none => some c

/-- `check_limits` with its divisions checked. -/
def check_limits_checked (c : CircuitBreaker) (start equity : ℚ) : Option CircuitBreaker :=
  if start > 0 then do
    let daily_loss_pct := (← div_checked (start - equity) start) * 100
    if daily_loss_pct ≥ c.max_daily_loss_pct then
      some (c.trip (.daily_loss daily_loss_pct c.max_daily_loss_pct))
    else c.check_drawdown_checked equity
  else c.check_drawdown_checked equity

/-- `record_equity` with its divisions checked. -/
def record_equity_checked (c : CircuitBreaker) (now usd token mid_price : ℚ) :
    Option CircuitBreaker :=
  let equity := usd + token * mid_price
  let today := current_day now
  if today ≠ c.day_start then
    some { c with
      start_equity := some equity, peak_equity := some equity, day_start := today
      tripped := false, trip_reason := none }
  else
    let start := c.start_equity.getD equity
    let peak :=
      match c.peak_equity with
      | some peak => if equity > peak then equity else peak
      | none => equity
    { c with start_equity := some start, peak_equity := some peak }.check_limits_checked start
      equity

/-- A call with its divisions checked. -/
def Call.apply_checked (c : CircuitBreaker) : Call → Option CircuitBreaker
  | record_equity now usd token mid_price => c.record_equity_checked now usd token mid_price
  | reset => some c.reset

/-- The breaker after a trace of checked calls; none once one has raised. -/
def run_checked (c : CircuitBreaker) (calls : List Call) : Option CircuitBreaker :=
  calls.foldlM Call.apply_checked c

theorem check_drawdown_checked_eq (c : CircuitBreaker) (equity : ℚ) :
    c.check_drawdown_checked equity = some (c.check_drawdown equity) := by
  simp only [check_drawdown_checked, check_drawdown]
  cases c.peak_equity with
  | none => rfl
  | some peak =>
    dsimp only
    split_ifs with hpos hlimit
    · rw [div_checked_eq hpos]
      exact if_pos hlimit
    · rw [div_checked_eq hpos]
      exact if_neg hlimit
    · rfl

theorem check_limits_checked_eq (c : CircuitBreaker) (start equity : ℚ) :
    c.check_limits_checked start equity = some (c.check_limits start equity) := by
  simp only [check_limits_checked, check_limits]
  split_ifs with hpos hlimit
  · rw [div_checked_eq hpos]
    exact if_pos hlimit
  · rw [div_checked_eq hpos]
    exact (if_neg hlimit).trans (check_drawdown_checked_eq c equity)
  · exact check_drawdown_checked_eq c equity

/-- No call divides by zero. -/
theorem Call.apply_checked_eq (c : CircuitBreaker) (call : Call) :
    call.apply_checked c = some (call.apply c) := by
  cases call with
  | record_equity now usd token mid_price =>
    simp only [apply_checked, apply, record_equity_checked, CircuitBreaker.record_equity]
    split_ifs
    · rfl
    · exact check_limits_checked_eq ..
  | reset => rfl

theorem run_checked_eq (c : CircuitBreaker) (calls : List Call) :
    c.run_checked calls = some (c.run calls) := by
  induction calls generalizing c with
  | nil => rfl
  | cons call calls ih =>
    rw [run_checked, List.foldlM_cons, Call.apply_checked_eq, Option.bind_eq_bind, Option.bind_some]
    exact ih _

/-! ## The monitor -/

/-- **The breaker trips exactly when it should.** It is tripped iff a sample of its epoch has
breached a limit, it stays so until an epoch starts, and no call divides by zero. -/
theorem tripped_iff_breached (loss drawdown now : ℚ) (hloss : 0 < loss) (hdrawdown : 0 < drawdown)
    (calls : List Call) :
    (((new loss drawdown now).run calls).tripped = true ↔
      Breached loss drawdown (Epoch.after now calls).samples) ∧
    (∀ call, (Epoch.after now calls).Continues call →
      ((new loss drawdown now).run calls).tripped = true →
        ((new loss drawdown now).run (calls ++ [call])).tripped = true) ∧
    (new loss drawdown now).run_checked calls = some ((new loss drawdown now).run calls) := by
  have htracks := tracks_run hloss hdrawdown now
  refine ⟨(htracks calls).tripped, fun call hcall htripped => ?_, run_checked_eq _ _⟩
  rw [(htracks (calls ++ [call])).tripped, Epoch.after_snoc]
  exact breached_next hcall ((htracks calls).tripped.mp htripped)

/-- A day that opens at 100 and falls to 89 has breached a limit of ten per cent. -/
theorem tripped_iff_breached_fall :
    0 < (10 : ℚ) ∧ 0 < (15 : ℚ) ∧
    Breached 10 15 (Epoch.after 0 [.record_equity 0 100 0 0, .record_equity 60 89 0 0]).samples :=
  have hloss : 0 < (10 : ℚ) := by decide
  have hdrawdown : 0 < (15 : ℚ) := by decide
  ⟨hloss, hdrawdown, (tripped_iff_breached 10 15 0 hloss hdrawdown _).1.mp (by decide +kernel)⟩

end CircuitBreaker

end Meridian
