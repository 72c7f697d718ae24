import Mathlib.Algebra.Order.Field.Basic
import Mathlib.Data.Nat.Cast.Order.Ring
import Mathlib.Tactic.Linarith
import Mathlib.Tactic.Ring
import Meridian.Lib.Run

/-!
# The heartbeat

Model of `safety/heartbeat.py`: a monitor that looks every `I = heartbeat_interval_s` seconds whether
the last beat is more than `1.5 * I` old, and calls `on_failure` once `M = max_missed_heartbeats`
checks in a row have found it so. Between the steps time passes by any amounts, but never beyond the
check that is due: the monitor's sleep lasts exactly `I`. `stop` ends the monitor,
and so does a failure; `start` begins a new one, which takes over the count of missed beats as the
last one left it. One monitor runs at a time.

Results:
* `Inv`: the stored time is that of the last call of `beat`, and how old it is for the count of missed
  beats, from below and from above;
* `fires_on_silence`: when `on_failure` is invoked, and that it is invoked once.

Out of scope: the rounding of doubles, and an event loop that wakes the monitor late.
-/

namespace Meridian

open Run

/-- `Heartbeat` (`heartbeat.py:31-36`): what `beat` and the monitor share. -/
structure Heartbeat (K : Type*) where
  last_beat : K
  missed : ℕ
  deriving DecidableEq

namespace Heartbeat

variable {K : Type*} [Field K] [LinearOrder K]

/-- A new heartbeat. -/
def new (now : K) : Heartbeat K := ⟨now, 0⟩

/-- `beat` (`heartbeat.py:38-41`) -/
def beat (_ : Heartbeat K) (now : K) : Heartbeat K := ⟨now, 0⟩

/-- One check of `_monitor` (`heartbeat.py:68-86`): the heartbeat, and whether it has failed. -/
def check (I : K) (M : ℕ) (b : Heartbeat K) (now : K) : Heartbeat K × Bool :=
  let elapsed := now - b.last_beat
  if I * ((3 / 2 : ℚ) : K) < elapsed then
    ({ b with missed := b.missed + 1 }, decide (M ≤ b.missed + 1))
  else ({ b with missed := 0 }, false)

/-! ## Beats against checks -/

structure State (K : Type*) where
  heartbeat : Heartbeat K
  clock : K
  /-- while a monitor runs: when its sleep is over -/
  monitor : Option K
  /-- when `start` was called, until `stop` is -/
  started : Option K
  /-- how often `on_failure` was invoked since then -/
  invoked : ℕ
  /-- when `beat` was last called, or the heartbeat was made; neither `beat` nor the monitor reads
  this -/
  beaten : K
  deriving DecidableEq

inductive Act (K : Type*) where
  | elapse (d : K)
  | beat
  | start
  | check
  | stop

/-- A heartbeat that is made at the time `now`. -/
def init (now : K) : State K := ⟨new now, now, none, none, 0, now⟩

/-- The monitor's sleep is over: it looks, and sleeps again unless the heartbeat has failed. -/
def State.checked (I : K) (M : ℕ) (s : State K) : State K :=
  match s.heartbeat.check I M s.clock with
  | (b, true) => { s with heartbeat := b, monitor := none, invoked := s.invoked + 1 }
  | (b, false) => { s with heartbeat := b, monitor := some (s.clock + I) }

def next (I : K) (M : ℕ) (s : State K) : Act K → Option (State K)
  | .elapse d =>
    if 0 ≤ d ∧ ∀ due ∈ s.monitor, s.clock + d ≤ due then
      some { s with clock := s.clock + d }
    else none
  | .beat => some { s with heartbeat := s.heartbeat.beat s.clock, beaten := s.clock }
  | .start =>
    if s.monitor = none then
      some { s with monitor := some (s.clock + I), started := some s.clock, invoked := 0 }
    else none
  | .check => if s.monitor = some s.clock then some (s.checked I M) else none
  | .stop => some { s with monitor := none, started := none }

/-! ## The count of missed beats -/

section Checks

variable {I : K} {M : ℕ} {s s' : State K} {a : Act K}

/-- What a step can do. -/
theorem step_cases (hs : next I M s a = some s') :
    (∃ d, a = .elapse d ∧ 0 ≤ d ∧ (∀ due ∈ s.monitor, s.clock + d ≤ due) ∧
      s' = { s with clock := s.clock + d }) ∨
    (a = .beat ∧ s' = { s with heartbeat := s.heartbeat.beat s.clock, beaten := s.clock }) ∨
    (a = .start ∧ s.monitor = none ∧
      s' = { s with monitor := some (s.clock + I), started := some s.clock, invoked := 0 }) ∨
    (a = .check ∧ s.monitor = some s.clock ∧ s' = s.checked I M) ∨
    (a = .stop ∧ s' = { s with monitor := none, started := none }) := by
  cases a with
  | elapse d =>
    obtain ⟨⟨hd, hdue⟩, heq⟩ := Option.ite_none_right_eq_some.mp hs
    exact .inl ⟨d, rfl, hd, hdue, (Option.some.inj heq).symm⟩
  | beat => exact .inr (.inl ⟨rfl, (Option.some.inj hs).symm⟩)
  | start =>
    obtain ⟨hnone, heq⟩ := Option.ite_none_right_eq_some.mp hs
    exact .inr (.inr (.inl ⟨rfl, hnone, (Option.some.inj heq).symm⟩))
  | check =>
    obtain ⟨hdue, heq⟩ := Option.ite_none_right_eq_some.mp hs
    exact .inr (.inr (.inr (.inl ⟨rfl, hdue, (Option.some.inj heq).symm⟩)))
  | stop => exact .inr (.inr (.inr (.inr ⟨rfl, (Option.some.inj hs).symm⟩)))

/-- The last beat is old: `missed` checks in a row have found it so, and the next check comes no
sooner than `I` after the last of them. -/
structure Old (I : K) (s : State K) : Prop where
  now : s.heartbeat.missed = 0 ∨
    (s.heartbeat.missed + 1 / 2) * I < s.clock - s.heartbeat.last_beat
  due : s.heartbeat.missed = 0 ∨
    ∀ due ∈ s.monitor, (s.heartbeat.missed + 3 / 2) * I < due - s.heartbeat.last_beat

/-- A monitor that was started at `began` and whose next check is at `due`. The check before it, or
the start, was at `due - I`. -/
structure Running (I : K) (M : ℕ) (s : State K) (began due : K) : Prop where
  slept : due - I ≤ s.clock
  clock : s.clock ≤ due
  grid : ∃ k : ℕ, due = began + (k + 1) * I
  /-- a start leaves the count as it is, a check leaves it below `M` -/
  missed_lt : began < due - I → s.heartbeat.missed < M
  /-- the checks of the last `n` intervals have been counted -/
  counted : ∀ n : ℕ, (n + 3 / 2) * I ≤ due - I - s.heartbeat.last_beat →
    n * I ≤ due - I - began → n ≤ s.heartbeat.missed

/-- What every run keeps: the stored time is that of the last beat, and while a monitor runs its
count bounds the age of that beat, from below and from above. -/
structure Inv (I : K) (M : ℕ) (s : State K) : Prop where
  /-- the stored time is that of the last call -/
  beaten : s.heartbeat.last_beat = s.beaten
  last_beat : s.heartbeat.last_beat ≤ s.clock
  old : Old I s
  running : ∀ due ∈ s.monitor, ∃ began ∈ s.started, Running I M s began due ∧ s.invoked = 0
  ended : s.monitor = none → s.started ≠ none → s.invoked = 1
  invoked_le : s.invoked ≤ 1

variable {began due : K}

theorem inv_init (I : K) (M : ℕ) (t0 : K) : Inv I M (init t0) where
  beaten := rfl
  last_beat := le_rfl
  old := ⟨.inl rfl, .inl rfl⟩
  running due h := by cases h
  ended _ h := absurd rfl h
  invoked_le := Nat.zero_le 1

variable [IsStrictOrderedRing K]

/-- What a check finds and does. -/
theorem checked_cases (I : K) (M : ℕ) (s : State K) :
    (I * (3 / 2) < s.clock - s.heartbeat.last_beat ∧ M ≤ s.heartbeat.missed + 1 ∧
      s.checked I M = { s with
        heartbeat := { s.heartbeat with missed := s.heartbeat.missed + 1 }
        monitor := none
        invoked := s.invoked + 1 }) ∨
    (I * (3 / 2) < s.clock - s.heartbeat.last_beat ∧ s.heartbeat.missed + 1 < M ∧
      s.checked I M = { s with
        heartbeat := { s.heartbeat with missed := s.heartbeat.missed + 1 }
        monitor := some (s.clock + I) }) ∨
    (s.clock - s.heartbeat.last_beat ≤ I * (3 / 2) ∧
      s.checked I M = { s with
        heartbeat := { s.heartbeat with missed := 0 }
        monitor := some (s.clock + I) }) := by
  have hhalf : ((3 / 2 : ℚ) : K) = 3 / 2 := by norm_num
  unfold State.checked check
  rw [hhalf]
  rcases lt_or_ge (I * (3 / 2)) (s.clock - s.heartbeat.last_beat) with hlong | hshort
  · rcases le_or_gt M (s.heartbeat.missed + 1) with hmany | hfew
    · exact .inl ⟨hlong, hmany, by simp [hlong, hmany]⟩
    · exact .inr (.inl ⟨hlong, hfew, by simp [hlong, not_le.mpr hfew]⟩)
  · exact .inr (.inr ⟨hshort, by simp [not_lt.mpr hshort]⟩)

/-- The last beat is old enough for one missed beat more, at a check that misses it. -/
theorem Old.missed (h : Old I s) (hdue : s.monitor = some s.clock)
    (hlong : I * (3 / 2) < s.clock - s.heartbeat.last_beat) :
    (((s.heartbeat.missed + 1 : ℕ) : K) + 1 / 2) * I < s.clock - s.heartbeat.last_beat := by
  rcases h.due with hzero | hold
  · rw [hzero]
    push_cast
    linarith
  · have hclock := hold s.clock hdue
    push_cast
    linarith

/-- The monitor has been started and has not failed: it would have, had both the last beat and the
start been `(M + 3/2) * I` ago at its last check. -/
theorem Running.recent (h : Running I M s began due) (hI : 0 < I) (hM : 1 ≤ M)
    (hbeat : (M + 3 / 2) * I ≤ due - I - s.heartbeat.last_beat)
    (hbegan : (M + 3 / 2) * I ≤ due - I - began) : False := by
  have hM' : (1 : K) ≤ M := by exact_mod_cast hM
  have hpos : 0 < (M : K) * I := mul_pos (by linarith) hI
  have hcounted : M ≤ s.heartbeat.missed := h.counted M hbeat (by linarith)
  have hlt : s.heartbeat.missed < M := h.missed_lt (by linarith)
  exact absurd hcounted (not_le.mpr hlt)

theorem Inv.elapse (h : Inv I M s) {d : K} (hd : 0 ≤ d) (hdue : ∀ due ∈ s.monitor, s.clock + d ≤ due) :
    Inv I M { s with clock := s.clock + d } where
  beaten := h.beaten
  last_beat := h.last_beat.trans (le_add_of_nonneg_right hd)
  old := ⟨h.old.now.imp_right fun hold => by simp only; linarith, h.old.due⟩
  running due hmem := by
    obtain ⟨began, hbegan, hrun, hnone⟩ := h.running due hmem
    have hslept : due - I ≤ s.clock + d := hrun.slept.trans (le_add_of_nonneg_right hd)
    exact ⟨began, hbegan, ⟨hslept, hdue due hmem, hrun.grid, hrun.missed_lt, hrun.counted⟩, hnone⟩
  ended := h.ended
  invoked_le := h.invoked_le

/-- **A beat** keeps the invariant: the stored time is its own, and after it no check has been
counted. -/
theorem Inv.beat (h : Inv I M s) (hI : 0 < I) (hM : 1 ≤ M) :
    Inv I M { s with heartbeat := s.heartbeat.beat s.clock, beaten := s.clock } where
  beaten := rfl
  last_beat := le_rfl
  old := ⟨.inl rfl, .inl rfl⟩
  running due hmem := by
    obtain ⟨began, hbegan, hrun, hnone⟩ := h.running due hmem
    have hslept := hrun.slept
    refine ⟨began, hbegan, ⟨hslept, hrun.clock, hrun.grid, fun _ => hM, fun n hn _ => ?_⟩,
      hnone⟩
    have hpos : 0 ≤ (n : K) * I := mul_nonneg (Nat.cast_nonneg n) hI.le
    simp only [Heartbeat.beat] at hn
    linarith
  ended := h.ended
  invoked_le := h.invoked_le

/-- A new monitor takes over the count. -/
theorem Inv.start (h : Inv I M s) (hI : 0 < I) :
    Inv I M { s with monitor := some (s.clock + I), started := some s.clock, invoked := 0 } where
  beaten := h.beaten
  last_beat := h.last_beat
  old := by
    refine ⟨h.old.now, h.old.now.imp_right fun hold due hmem => ?_⟩
    obtain rfl := Option.some.inj hmem
    simp only
    linarith
  running due hmem := by
    obtain rfl := Option.some.inj hmem
    refine ⟨s.clock, rfl, ⟨by simp, by simp [hI.le], ⟨0, by simp⟩, fun hlt => ?_, fun n _ hn => ?_⟩,
      rfl⟩
    · simp at hlt
    · rw [add_sub_cancel_right, sub_self] at hn
      have hzero : (n : K) ≤ 0 := nonpos_of_mul_nonpos_left hn hI
      exact (Nat.cast_nonpos.mp hzero).trans_le (Nat.zero_le _)
  ended h := by cases h
  invoked_le := Nat.zero_le 1

/-- The monitor that checks now sleeps again, with `missed` beats missed. -/
theorem Running.checked (h : Running I M s began s.clock) (hI : 0 < I) {missed : ℕ}
    (hlt : missed < M)
    (hmissed : I * (3 / 2) < s.clock - s.heartbeat.last_beat → s.heartbeat.missed + 1 ≤ missed) :
    Running I M { s with
      heartbeat := { s.heartbeat with missed := missed }, monitor := some (s.clock + I) }
      began (s.clock + I) where
  slept := by simp
  clock := by simp [hI.le]
  grid := by
    obtain ⟨k, hk⟩ := h.grid
    exact ⟨k + 1, by push_cast; linarith⟩
  missed_lt _ := hlt
  counted n hold hbegan := by
    rw [add_sub_cancel_right] at hold hbegan
    cases n with
    | zero => exact Nat.zero_le _
    | succ n =>
      push_cast at hold hbegan
      have hpos : 0 ≤ (n : K) * I := mul_nonneg (Nat.cast_nonneg n) hI.le
      have hcounted : n ≤ s.heartbeat.missed := h.counted n (by linarith) (by linarith)
      exact (Nat.succ_le_succ hcounted).trans (hmissed (by linarith))

/-- **A check** keeps the invariant: one that finds the beat old counts it or fails, and any other
begins anew. -/
theorem Inv.checked (h : Inv I M s) (hI : 0 < I) (hM : 1 ≤ M) (hdue : s.monitor = some s.clock) :
    Inv I M (s.checked I M) := by
  obtain ⟨began, hbegan, hrun, hnone⟩ := h.running s.clock hdue
  rcases checked_cases I M s with ⟨hlong, -, heq⟩ | ⟨hlong, hfew, heq⟩ | ⟨hshort, heq⟩
  · rw [heq]
    exact ⟨h.beaten, h.last_beat, ⟨.inr (h.old.missed hdue hlong), .inr fun due h => by cases h⟩,
      fun due h => (by cases h), fun _ _ => congrArg (· + 1) hnone, (congrArg (· + 1) hnone).le⟩
  · rw [heq]
    refine ⟨h.beaten, h.last_beat, ⟨.inr (h.old.missed hdue hlong), .inr fun due hmem => ?_⟩, fun due hmem => ?_,
      fun h => (by cases h), h.invoked_le⟩
    · obtain rfl := Option.some.inj hmem
      have hmissed := h.old.missed hdue hlong
      simp only
      linarith
    · obtain rfl := Option.some.inj hmem
      exact ⟨began, hbegan, hrun.checked hI hfew fun _ => le_rfl, hnone⟩
  · rw [heq]
    refine ⟨h.beaten, h.last_beat, ⟨.inl rfl, .inl rfl⟩, fun due hmem => ?_, fun h => (by cases h),
      h.invoked_le⟩
    obtain rfl := Option.some.inj hmem
    exact ⟨began, hbegan, hrun.checked hI hM fun hlong => absurd hshort (not_le.mpr hlong), hnone⟩

/-- **Step**: a beat and a check by the two lemmas before, and time, a start and a stop leave the
count as it is. -/
theorem inv_step (hI : 0 < I) (hM : 1 ≤ M) (h : Inv I M s) (hs : next I M s a = some s') :
    Inv I M s' := by
  rcases step_cases hs with ⟨d, -, hd, hdue, rfl⟩ | ⟨-, rfl⟩ | ⟨-, -, rfl⟩ | ⟨-, hdue, rfl⟩ | ⟨-, rfl⟩
  · exact h.elapse hd hdue
  · exact h.beat hI hM
  · exact h.start hI
  · exact h.checked hI hM hdue
  · exact ⟨h.beaten, h.last_beat, ⟨h.old.now, .inr fun due h => (by cases h)⟩, fun due h => (by cases h),
      fun _ h => absurd rfl h, h.invoked_le⟩

/-! ## When the heartbeat fails -/

omit [IsStrictOrderedRing K] in
/-- Only a check invokes `on_failure`. -/
theorem check_of_invoked (hs : next I M s a = some s') (hmore : s.invoked < s'.invoked) :
    a = .check ∧ s.monitor = some s.clock ∧ s' = s.checked I M := by
  rcases step_cases hs with ⟨d, -, -, -, rfl⟩ | ⟨-, rfl⟩ | ⟨-, -, rfl⟩ | hcheck | ⟨-, rfl⟩
  · exact absurd hmore (lt_irrefl _)
  · exact absurd hmore (lt_irrefl _)
  · exact absurd hmore (Nat.not_lt_zero _)
  · exact hcheck
  · exact absurd hmore (lt_irrefl _)

/-- A check that invokes `on_failure`. -/
theorem Inv.silent (h : Inv I M s) (hI : 0 < I) (hdue : s.monitor = some s.clock)
    (hmore : s.invoked < (s.checked I M).invoked) :
    (M + 1 / 2) * I < s.clock - s.heartbeat.last_beat := by
  rcases checked_cases I M s with ⟨hlong, hmany, -⟩ | ⟨-, -, heq⟩ | ⟨-, heq⟩
  · have hM : (M : K) ≤ ((s.heartbeat.missed + 1 : ℕ) : K) := by exact_mod_cast hmany
    have hle : (M + 1 / 2) * I ≤ (((s.heartbeat.missed + 1 : ℕ) : K) + 1 / 2) * I :=
      mul_le_mul_of_nonneg_right (by linarith) hI.le
    exact hle.trans_lt (h.old.missed hdue hlong)
  · rw [heq] at hmore
    exact absurd hmore (lt_irrefl _)
  · rw [heq] at hmore
    exact absurd hmore (lt_irrefl _)

/-- A check at which the last beat and the start are long ago. -/
theorem Inv.fires (h : Inv I M s) (hI : 0 < I) (hM : 1 ≤ M) (hdue : s.monitor = some s.clock)
    (hbegan : s.started = some began) (hbeat : (M + 3 / 2) * I ≤ s.clock - s.heartbeat.last_beat)
    (hstart : (M + 3 / 2) * I ≤ s.clock - began) : (s.checked I M).invoked = 1 := by
  have hchecked : Inv I M (s.checked I M) := h.checked hI hM hdue
  have hsleeps : (s.checked I M).monitor = some (s.clock + I) →
      (s.checked I M).started = s.started →
      (s.checked I M).heartbeat.last_beat = s.heartbeat.last_beat → False := by
    intro hmonitor hstarted hlast
    obtain ⟨began', hbegan', hrun, -⟩ := hchecked.running _ hmonitor
    rw [hstarted, hbegan] at hbegan'
    obtain rfl := Option.some.inj hbegan'
    refine hrun.recent hI hM ?_ ?_
    · rwa [hlast, add_sub_cancel_right]
    · rwa [add_sub_cancel_right]
  rcases checked_cases I M s with ⟨-, -, heq⟩ | ⟨-, -, heq⟩ | ⟨-, heq⟩
  · exact hchecked.ended (by rw [heq]) (by rw [heq, hbegan]; exact Option.some_ne_none began)
  · exact (hsleeps (by rw [heq]) (by rw [heq]) (by rw [heq])).elim
  · exact (hsleeps (by rw [heq]) (by rw [heq]) (by rw [heq])).elim

/-- A check that has passed. -/
theorem Inv.fired (h : Inv I M s) (hI : 0 < I) (hM : 1 ≤ M) (hbegan : s.started = some began) (k : ℕ)
    (hpassed : began + k * I < s.clock)
    (hbeat : (M + 3 / 2) * I ≤ began + k * I - s.heartbeat.last_beat)
    (hstart : (M + 3 / 2) * I ≤ k * I) : s.invoked = 1 := by
  cases hmonitor : s.monitor with
  | none => exact h.ended hmonitor (by rw [hbegan]; exact Option.some_ne_none began)
  | some due =>
    obtain ⟨began', hbegan', hrun, -⟩ := h.running due hmonitor
    rw [hbegan] at hbegan'
    obtain rfl := Option.some.inj hbegan'
    obtain ⟨j, hj⟩ := hrun.grid
    have hclock := hrun.clock
    have hlt : (k : K) * I < (j + 1) * I := by linarith
    have hkj : k ≤ j := Nat.lt_succ_iff.mp (by exact_mod_cast lt_of_mul_lt_mul_right hlt hI.le)
    have hlast : (k : K) * I ≤ j * I :=
      mul_le_mul_of_nonneg_right (Nat.cast_le.mpr hkj) hI.le
    exact (hrun.recent hI hM (by linarith) (by linarith)).elim

/-- **The heartbeat**: in every run of beats, starts and stops against the checks of the monitor,
`on_failure` is invoked only by a check that comes more than `(M + 1/2) * I` after the last call of
`beat`; it is invoked by a check that comes `(M + 3/2) * I` or more after both the last call of `beat`
and the start, and has been once the time of such a check has passed; and it is invoked at most once
for a start. A heartbeat on which `beat` was not called yet counts as beaten when it was made. -/
theorem fires_on_silence (I : K) (hI : 0 < I) (M : ℕ) (hM : 1 ≤ M) (t0 : K) (s : State K)
    (h : Reaches (Fires (next I M)) (fun _ _ => True) (init t0) s) :
    (∀ a s', next I M s a = some s' → s.invoked < s'.invoked →
      a = .check ∧ (M + 1 / 2) * I < s.clock - s.beaten) ∧
    (∀ s', next I M s .check = some s' → ∀ began, s.started = some began →
      (M + 3 / 2) * I ≤ s.clock - s.beaten → (M + 3 / 2) * I ≤ s.clock - began →
      s'.invoked = 1) ∧
    (∀ began, s.started = some began → ∀ k : ℕ, began + k * I < s.clock →
      (M + 3 / 2) * I ≤ began + k * I - s.beaten → (M + 3 / 2) * I ≤ k * I →
      s.invoked = 1) ∧
    s.invoked ≤ 1 := by
  have hinv : Inv I M s := h.inv (inv_init I M t0) fun _ _ _ hi _ hs => inv_step hI hM hi hs
  rw [← hinv.beaten]
  refine ⟨fun a s' hs hmore => ?_, fun s' hs began hbegan hbeat hstart => ?_,
    fun began hbegan k => hinv.fired hI hM hbegan k, hinv.invoked_le⟩
  · obtain ⟨ha, hdue, rfl⟩ := check_of_invoked hs hmore
    exact ⟨ha, hinv.silent hI hdue hmore⟩
  · obtain ⟨hdue, heq⟩ := Option.ite_none_right_eq_some.mp hs
    obtain rfl := Option.some.inj heq
    exact hinv.fires hI hM hdue hbegan hbeat hstart

/-- A beat right after a check, and silence from then on: with `M = 1` the second check after it
fails, two seconds later. -/
theorem fires_on_silence_two : ∃ s s' : State ℚ, next 1 1 s .check = some s' ∧ s'.invoked = 1 ∧
    (((1 : ℕ) : ℚ) + 1 / 2) * 1 < s.clock - s.beaten := by
  have hplay : play (next 1 1) (fun _ _ => True) (init (0 : ℚ))
      [.start, .elapse 1, .check, .beat, .elapse 1, .check, .elapse 1] =
        some ⟨⟨1, 0⟩, 3, some 3, some 0, 0, 1⟩ := by
    decide +kernel
  have hchecked : next 1 1 (⟨⟨1, 0⟩, 3, some 3, some 0, 0, 1⟩ : State ℚ) .check =
      some ⟨⟨1, 1⟩, 3, none, some 0, 1, 1⟩ := by
    decide +kernel
  have hfires := fires_on_silence 1 one_pos 1 le_rfl 0 _ (reaches_of_play hplay)
  exact ⟨_, _, hchecked, rfl, (hfires.1 _ _ hchecked Nat.zero_lt_one).2⟩

end Checks

end Heartbeat

end Meridian
