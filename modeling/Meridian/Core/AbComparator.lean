import Mathlib.Data.Rat.Cast.Order
import Mathlib.Tactic.FieldSimp
import Mathlib.Tactic.Linarith
import Mathlib.Tactic.Ring
import Meridian.Lib.Signal

/-!
# `ABComparator`: the uptime of a connector

Model of the connection health and the ticker counts of `ConnectorMetrics`, of
`ABComparator._fetch_ticker_safe` and of `ABComparator.verdict` of `core/ab_comparator.py` (88-198,
421-443, 532-541). Times are exact rationals, and what reads the clock is given its reading. The grid,
the fills and the reports are left out, but for the counts that the verdict compares.

Results:
* `timeOn_recorded`: the downtime that is counted leaves out exactly the outage in progress;
* `uptime_pct_iff`: the uptime is the connected share of the run exactly if no outage is in progress, or
  it begins just then; with both connectors so, the verdict ranks them by it;
* `fetches_uptime`: the fetches of a run record what they find.

Out of scope: the rounding of doubles.
-/

namespace Meridian.AbComparator

open Signal

/-- `ConnectorMetrics` (`ab_comparator.py:88-119`). -/
structure ConnectorMetrics where
  name : String
  started_at : ℚ := 0
  reconnection_count : ℕ := 0
  total_downtime_s : ℚ := 0
  last_disconnect_at : ℚ := 0
  is_connected : Bool := true
  ticker_attempts : ℕ := 0
  ticker_successes : ℕ := 0
  ticker_latencies_ms : List ℚ := []
  ticks_attempted : ℕ := 0
  orders_placed : ℕ := 0
  fill_count : ℕ := 0

namespace ConnectorMetrics

/-- `ConnectorMetrics.record_connect` -/
def record_connect (m : ConnectorMetrics) (now : ℚ) : ConnectorMetrics :=
  if m.is_connected then m
  else
    { m with
      total_downtime_s :=
        if 0 < m.last_disconnect_at then m.total_downtime_s + (now - m.last_disconnect_at)
        else m.total_downtime_s
      is_connected := true }

/-- `ConnectorMetrics.record_disconnect` -/
def record_disconnect (m : ConnectorMetrics) (now : ℚ) : ConnectorMetrics :=
  if m.is_connected then
    { m with
      reconnection_count := m.reconnection_count + 1
      last_disconnect_at := now
      is_connected := false }
  else m

/-- `ConnectorMetrics.record_ticker` -/
def record_ticker (m : ConnectorMetrics) (elapsed_ms : ℚ) (success : Bool) : ConnectorMetrics :=
  { m with
    ticker_attempts := m.ticker_attempts + 1
    ticker_successes := if success then m.ticker_successes + 1 else m.ticker_successes
    ticker_latencies_ms :=
      if success then m.ticker_latencies_ms ++ [elapsed_ms] else m.ticker_latencies_ms }

/-- `ConnectorMetrics.elapsed_s` -/
def elapsed_s (m : ConnectorMetrics) (now : ℚ) : ℚ :=
  if 0 < m.started_at then now - m.started_at else 0

/-- `ConnectorMetrics.uptime_pct` -/
def uptime_pct (m : ConnectorMetrics) (now : ℚ) : ℚ :=
  let e := m.elapsed_s now
  if e ≤ 0 then 100 else max 0 ((e - m.total_downtime_s) / e * 100)

/-- `ConnectorMetrics.ticker_success_rate_pct` -/
def ticker_success_rate_pct (m : ConnectorMetrics) : ℚ :=
  if m.ticker_attempts ≠ 0 then m.ticker_successes / m.ticker_attempts * 100 else 100

/-- `ConnectorMetrics.fill_rate_pct` -/
def fill_rate_pct (m : ConnectorMetrics) : ℚ :=
  if m.orders_placed ≠ 0 then m.fill_count / m.orders_placed * 100 else 0

end ConnectorMetrics

open ConnectorMetrics

/-- `ABComparator._fetch_ticker_safe`: the metrics after a fetch that took `elapsed_ms` and raised if
there is no mid. -/
def fetch_ticker_safe (m : ConnectorMetrics) (mid : Option ℚ) (elapsed_ms now : ℚ) :
    ConnectorMetrics × Option ℚ :=
  let m := { m with ticks_attempted := m.ticks_attempted + 1 }
  match mid with
  | some mid =>
    let m := m.record_ticker elapsed_ms true
    (if m.is_connected then m else m.record_connect now, some mid)
  | none => ((m.record_ticker elapsed_ms false).record_disconnect now, none)

/-- What `ABComparator.verdict` returns. -/
structure Verdict where
  cpp_fill_rate_gte_ccxt : Bool
  cpp_reconnects_lte_ccxt : Bool
  cpp_uptime_gte_ccxt : Bool
  cpp_ticker_success_gte_ccxt : Bool
  deriving DecidableEq

/-- `ABComparator.verdict`, which reads the clock once for each uptime. -/
def verdict (c p : ConnectorMetrics) (now_p now_c : ℚ) : Verdict where
  cpp_fill_rate_gte_ccxt := p.fill_rate_pct ≥ c.fill_rate_pct
  cpp_reconnects_lte_ccxt := p.reconnection_count ≤ c.reconnection_count
  cpp_uptime_gte_ccxt := p.uptime_pct now_p ≥ c.uptime_pct now_c
  cpp_ticker_success_gte_ccxt := p.ticker_success_rate_pct ≥ c.ticker_success_rate_pct

/-! ## What is recorded -/

/-- A call at a time: `record_connect` if it says so, and else `record_disconnect`. -/
def record (m : ConnectorMetrics) (e : ℚ × Bool) : ConnectorMetrics :=
  if e.2 then m.record_connect e.1 else m.record_disconnect e.1

/-- The metrics after these calls. -/
def recorded (m : ConnectorMetrics) (es : List (ℚ × Bool)) : ConnectorMetrics := es.foldl record m

/-- Since when a connector is disconnected, as its metrics have it. -/
def downSince (m : ConnectorMetrics) : Option ℚ :=
  if m.is_connected then none else some m.last_disconnect_at

variable {m : ConnectorMetrics} {e : ℚ × Bool} {es : List (ℚ × Bool)} {a t : ℚ}

@[simp]
theorem record_started (m : ConnectorMetrics) (e : ℚ × Bool) :
    (record m e).started_at = m.started_at := by
  unfold record record_connect record_disconnect
  split_ifs <;> rfl

/-- A call leaves the connector as it says, and disconnected since it first was. -/
theorem downSince_record (m : ConnectorMetrics) (e : ℚ × Bool) :
    (record m e).is_connected = e.2 ∧
      downSince (record m e) = if e.2 then none else (downSince m).or (some e.1) := by
  unfold record record_connect record_disconnect downSince
  cases e.2 <;> cases hm : m.is_connected <;> simp [hm]

/-- **One call** counts what was down before it and is not down any longer. -/
theorem downtime_record (hpos : ∀ u ∈ downSince m, 0 < u) (e : ℚ × Bool) :
    (if m.is_connected then e.1 - a else 0) =
      e.1 - a - ((record m e).total_downtime_s - m.total_downtime_s) -
        pending (downSince (record m e)) e.1 + pending (downSince m) a := by
  obtain ⟨now, connect⟩ := e
  cases hm : m.is_connected with
  | true =>
    cases connect with
    | true => simp [record, record_connect, downSince, pending, hm]
    | false => simp [record, record_disconnect, downSince, pending, hm]
  | false =>
    have hlast : 0 < m.last_disconnect_at := hpos _ (by rw [downSince, hm]; rfl)
    cases connect with
    | true =>
      simp [record, record_connect, downSince, pending, hm, hlast]
    | false =>
      simp [record, record_disconnect, downSince, pending, hm]

theorem downSince_pos (hpos : ∀ u ∈ downSince m, 0 < u) (he : 0 < e.1) :
    ∀ u ∈ downSince (record m e), 0 < u := by
  intro u hu
  rw [(downSince_record m e).2] at hu
  split at hu
  · exact nomatch hu
  · rcases Option.or_eq_some_iff.mp hu with hu | ⟨-, hu⟩
    · exact hpos u hu
    · obtain rfl := Option.some.inj hu
      exact he

/-- **A run** counts what was down in it, but for the outage in progress. -/
theorem timeOn_recorded : ∀ {es : List (ℚ × Bool)} {m : ConnectorMetrics} {a : ℚ}, 0 < a →
    Chronological a es t → (∀ u ∈ downSince m, 0 < u) →
    timeOn m.is_connected a es t =
      t - a - ((recorded m es).total_downtime_s - m.total_downtime_s) -
        pending (downSince (recorded m es)) t + pending (downSince m) a := by
  intro es
  induction es with
  | nil =>
    intro m a ha _ hpos
    cases hm : m.is_connected with
    | true => simp [timeOn, recorded, downSince, pending, hm]
    | false => simp [timeOn, recorded, downSince, pending, hm]
  | cons e es ih =>
    intro m a ha hes hpos
    have he : 0 < e.1 := ha.trans_le hes.1
    have hrest := ih he hes.2 (downSince_pos hpos he)
    have hstep := downtime_record (a := a) hpos e
    rw [(downSince_record m e).1] at hrest
    rw [timeOn, hrest, hstep]
    have hrun : recorded m (e :: es) = recorded (record m e) es := rfl
    rw [hrun]
    ring

theorem downSince_recorded : ∀ {es : List (ℚ × Bool)} {m : ConnectorMetrics},
    downSince (recorded m es) = offSince (downSince m) es := by
  intro es
  induction es with
  | nil => exact rfl
  | cons e es ih =>
    intro m
    have hrun : recorded m (e :: es) = recorded (record m e) es := rfl
    rw [hrun, ih, (downSince_record m e).2, offSince]

theorem started_recorded : ∀ {es : List (ℚ × Bool)} {m : ConnectorMetrics},
    (recorded m es).started_at = m.started_at := by
  intro es
  induction es with
  | nil => exact rfl
  | cons e es ih =>
    intro m
    exact ih.trans (record_started m e)

/-! ## What the fetches record -/

/-- What the calls change, and what the uptime is made of. -/
def health (m : ConnectorMetrics) : ℚ × ℕ × ℚ × ℚ × Bool :=
  (m.started_at, m.reconnection_count, m.total_downtime_s, m.last_disconnect_at, m.is_connected)

theorem health_record {m m' : ConnectorMetrics} (h : health m = health m') (e : ℚ × Bool) :
    health (record m e) = health (record m' e) := by
  simp only [health, Prod.mk.injEq] at h
  obtain ⟨hstarted, hcount, hdown, hlast, hconnected⟩ := h
  unfold record record_connect record_disconnect health
  cases e.2 <;> cases hm : m'.is_connected <;> simp_all

/-- A fetch records that the connector is there, or that it is not. -/
theorem health_fetch (m : ConnectorMetrics) (mid : Option ℚ) (elapsed_ms now : ℚ) :
    health (fetch_ticker_safe m mid elapsed_ms now).1 = health (record m (now, mid.isSome)) := by
  unfold fetch_ticker_safe record record_connect record_disconnect record_ticker health
  cases mid with
  | none => cases hm : m.is_connected <;> simp [hm]
  | some mid => cases hm : m.is_connected <;> simp [hm]

/-- A fetch: its mid if it did not raise, how long it took and when it ended. -/
structure Fetch where
  mid : Option ℚ
  elapsed_ms : ℚ
  now : ℚ

/-- The metrics after these fetches. -/
def fetched (m : ConnectorMetrics) (fs : List Fetch) : ConnectorMetrics :=
  fs.foldl (fun m f => (fetch_ticker_safe m f.mid f.elapsed_ms f.now).1) m

theorem health_fetched : ∀ {fs : List Fetch} {m m' : ConnectorMetrics}, health m = health m' →
    health (fetched m fs) = health (recorded m' (fs.map fun f => (f.now, f.mid.isSome))) := by
  intro fs
  induction fs with
  | nil => exact id
  | cons f fs ih =>
    intro m m' h
    exact ih ((health_fetch m f.mid f.elapsed_ms f.now).trans (health_record h _))

/-- **The fetches of a run** come to the uptime of the calls they make. -/
theorem fetches_uptime (m : ConnectorMetrics) (fs : List Fetch) (now : ℚ) :
    (fetched m fs).uptime_pct now =
      (recorded m (fs.map fun f => (f.now, f.mid.isSome))).uptime_pct now := by
  have h := @health_fetched fs m m rfl
  simp only [health, Prod.mk.injEq] at h
  unfold uptime_pct elapsed_s
  rw [h.1, h.2.2.1]

/-! ## The uptime -/

/-- Metrics at the start of a run, as `ABComparator.start` leaves them. -/
structure Fresh (m : ConnectorMetrics) : Prop where
  started : 0 < m.started_at
  connected : m.is_connected = true
  downtime : m.total_downtime_s = 0

theorem Fresh.downSince_eq (hm : Fresh m) : downSince m = none := by
  rw [downSince, hm.connected, if_pos rfl]

theorem pending_nonneg {off : Option ℚ} (hoff : ∀ u ∈ off, u ≤ t) : 0 ≤ pending off t := by
  cases off with
  | none => exact le_rfl
  | some u => exact sub_nonneg.mpr (hoff u rfl)

/-- An outage began at one of the switches. -/
theorem offSince_le : ∀ {es : List (ℚ × Bool)} {a : ℚ} {off : Option ℚ}, Chronological a es t →
    (∀ u ∈ off, u ≤ a) → ∀ u ∈ offSince off es, u ≤ t := by
  intro es
  induction es with
  | nil => exact fun hes hoff u hu => (hoff u hu).trans hes
  | cons e es ih =>
    intro a off hes hoff
    refine ih hes.2 fun u hu => ?_
    split at hu
    · exact nomatch hu
    · rcases Option.or_eq_some_iff.mp hu with hu | ⟨-, hu⟩
      · exact (hoff u hu).trans hes.1
      · exact (Option.some.inj hu).ge

/-- What the uptime comes to: the connected time, and the outage in progress. -/
theorem uptime_pct_recorded (hm : Fresh m) (hes : Chronological m.started_at es t)
    (ht : m.started_at < t) :
    (recorded m es).uptime_pct t =
      (timeOn true m.started_at es t + pending (offSince none es) t) / (t - m.started_at) * 100 := by
  have hrun := timeOn_recorded hm.started hes (by rw [hm.downSince_eq]; exact fun u hu => nomatch hu)
  rw [downSince_recorded, hm.downSince_eq, hm.connected, hm.downtime] at hrun
  have hnone : pending none m.started_at = 0 := rfl
  have hleft : t - m.started_at - (recorded m es).total_downtime_s =
      timeOn true m.started_at es t + pending (offSince none es) t := by
    linarith
  have hon : 0 ≤ timeOn true m.started_at es t := timeOn_nonneg true hes
  have hpend : 0 ≤ pending (offSince none es) t :=
    pending_nonneg (offSince_le hes fun u hu => nomatch hu)
  have helapsed : (recorded m es).elapsed_s t = t - m.started_at := by
    rw [elapsed_s, started_recorded, if_pos hm.started]
  have hpos : 0 < t - m.started_at := sub_pos.mpr ht
  unfold uptime_pct
  simp only [helapsed, if_neg (not_le.mpr hpos), hleft]
  exact max_eq_right (mul_nonneg (div_nonneg (add_nonneg hon hpend) hpos.le) (by norm_num))

/-! ## The connected share -/

/-- The switches, at real times. -/
def atReal (es : List (ℚ × Bool)) : List (ℝ × Bool) := es.map fun e => ((e.1 : ℝ), e.2)

/-- The share of the time from `a` to `t` in which a connector is connected that is so at the start. -/
noncomputable def connectedShare (a : ℚ) (es : List (ℚ × Bool)) (t : ℚ) : ℝ :=
  (MeasureTheory.volume (onTimes true (a : ℝ) (atReal es) (t : ℝ))).toReal / ((t : ℝ) - (a : ℝ))

theorem chronological_atReal : ∀ {es : List (ℚ × Bool)} {a : ℚ}, Chronological a es t →
    Chronological (a : ℝ) (atReal es) (t : ℝ) := by
  intro es
  induction es with
  | nil => exact fun h => Rat.cast_le.mpr h
  | cons e es ih => exact fun h => ⟨Rat.cast_le.mpr h.1, ih h.2⟩

theorem timeOn_atReal : ∀ {es : List (ℚ × Bool)} (b : Bool) (a : ℚ),
    timeOn b (a : ℝ) (atReal es) (t : ℝ) = ((timeOn b a es t : ℚ) : ℝ) := by
  intro es
  induction es with
  | nil =>
    intro b a
    cases b with
    | false => simp [timeOn, atReal]
    | true => simp [timeOn, atReal]
  | cons e es ih =>
    intro b a
    have hrest := ih e.2 e.1
    unfold atReal at hrest ⊢
    rw [List.map_cons, timeOn, timeOn, hrest]
    cases b with
    | false => simp
    | true => simp

theorem connectedShare_eq (hes : Chronological a es t) :
    connectedShare a es t = ((timeOn true a es t / (t - a) : ℚ) : ℝ) := by
  have hnonneg : (0 : ℝ) ≤ ((timeOn true a es t : ℚ) : ℝ) :=
    Rat.cast_nonneg.mpr (timeOn_nonneg true hes)
  rw [connectedShare, volume_on true (chronological_atReal hes), timeOn_atReal,
    ENNReal.toReal_ofReal hnonneg]
  push_cast
  rfl

theorem pending_eq_zero_iff {off : Option ℚ} : pending off t = 0 ↔ off = none ∨ off = some t := by
  cases off with
  | none => simp [pending]
  | some u => simp [pending, sub_eq_zero, eq_comm]

theorem share_iff (hm : Fresh m) (hes : Chronological m.started_at es t) (ht : m.started_at < t) :
    ((((recorded m es).uptime_pct t : ℚ) : ℝ) =
        ((100 : ℚ) : ℝ) * connectedShare m.started_at es t) ↔
      offSince none es = none ∨ offSince none es = some t := by
  have hpos : t - m.started_at ≠ 0 := (sub_pos.mpr ht).ne'
  rw [connectedShare_eq hes, ← Rat.cast_mul, Rat.cast_inj, uptime_pct_recorded hm hes ht,
    ← pending_eq_zero_iff]
  constructor
  · intro h
    field_simp at h
    linarith
  · intro h
    rw [h, add_zero, mul_comm]

/-- **The uptime is the connected share** of the run exactly if no outage is in progress, or it begins
just then. Where that is so of both connectors, the verdict ranks them by their connected share. -/
theorem uptime_pct_iff {c p : ConnectorMetrics} {esC esP : List (ℚ × Bool)} {now_p now_c : ℚ}
    (hc : Fresh c) (hp : Fresh p) (hesC : Chronological c.started_at esC now_c)
    (hesP : Chronological p.started_at esP now_p) (hnow_c : c.started_at < now_c)
    (hnow_p : p.started_at < now_p) :
    ((((recorded c esC).uptime_pct now_c : ℚ) : ℝ) =
        ((100 : ℚ) : ℝ) * connectedShare c.started_at esC now_c ↔
      offSince none esC = none ∨ offSince none esC = some now_c) ∧
    ((((recorded p esP).uptime_pct now_p : ℚ) : ℝ) =
        ((100 : ℚ) : ℝ) * connectedShare p.started_at esP now_p ↔
      offSince none esP = none ∨ offSince none esP = some now_p) ∧
    ((offSince none esC = none ∨ offSince none esC = some now_c) →
      (offSince none esP = none ∨ offSince none esP = some now_p) →
      ((verdict (recorded c esC) (recorded p esP) now_p now_c).cpp_uptime_gte_ccxt = true ↔
        connectedShare c.started_at esC now_c ≤ connectedShare p.started_at esP now_p)) := by
  have huptimeC := share_iff hc hesC hnow_c
  have huptimeP := share_iff hp hesP hnow_p
  refine ⟨huptimeC, huptimeP, fun hoffC hoffP => ?_⟩
  have hpos : (0 : ℝ) < ((100 : ℚ) : ℝ) := by norm_num
  simp only [verdict, decide_eq_true_eq, ge_iff_le]
  rw [← Rat.cast_le (K := ℝ), huptimeC.mpr hoffC, huptimeP.mpr hoffP, mul_le_mul_iff_right₀ hpos]

/-- The metrics of `ABComparator`, started at 1000. -/
def ccxtStarted : ConnectorMetrics := { name := "CCXT", started_at := 1000 }

def cppStarted : ConnectorMetrics := { name := "C++", started_at := 1000 }

/-- A run with an outage from 1050 to 1060. -/
def tenDown : List (ℚ × Bool) := [(1050, false), (1060, true)]

/-- A run with an outage that begins at 1001 and does not end; the second call changes nothing. -/
def stillDown : List (ℚ × Bool) := [(1001, false), (1031, false)]

theorem fresh_ccxt : Fresh ccxtStarted := ⟨by decide +kernel, rfl, rfl⟩

theorem fresh_cpp : Fresh cppStarted := ⟨by decide +kernel, rfl, rfl⟩

theorem chronological_tenDown : Chronological 1000 tenDown 1101 :=
  ⟨by decide +kernel, by decide +kernel, (by decide +kernel : (1060 : ℚ) ≤ 1101)⟩

theorem chronological_stillDown : Chronological 1000 stillDown 1101 :=
  ⟨by decide +kernel, by decide +kernel, (by decide +kernel : (1031 : ℚ) ≤ 1101)⟩

theorem uptime_pct_tenDown :
    ((((recorded ccxtStarted tenDown).uptime_pct 1101 : ℚ) : ℝ) =
        ((100 : ℚ) : ℝ) * connectedShare 1000 tenDown 1101 ↔
      offSince none tenDown = none ∨ offSince none tenDown = some 1101) ∧
    ((((recorded cppStarted stillDown).uptime_pct 1101 : ℚ) : ℝ) =
        ((100 : ℚ) : ℝ) * connectedShare 1000 stillDown 1101 ↔
      offSince none stillDown = none ∨ offSince none stillDown = some 1101) ∧
    offSince none tenDown = none ∧ offSince none stillDown = some 1001 := by
  have hlt : (1000 : ℚ) < 1101 := by decide +kernel
  obtain ⟨hC, hP, -⟩ := uptime_pct_iff fresh_ccxt fresh_cpp chronological_tenDown
    chronological_stillDown hlt hlt
  exact ⟨hC, hP, rfl, rfl⟩

/-- **An outage in progress is not counted**: with 1 of 101 seconds connected the uptime is 100, and the
verdict puts the connector before one with 91. -/
theorem uptime_pct_stillDown :
    (recorded cppStarted stillDown).uptime_pct 1101 = 100 ∧
      connectedShare 1000 stillDown 1101 = ((1 / 101 : ℚ) : ℝ) ∧
      (((recorded cppStarted stillDown).uptime_pct 1101 : ℚ) : ℝ) ≠
        ((100 : ℚ) : ℝ) * connectedShare 1000 stillDown 1101 ∧
      (verdict (recorded ccxtStarted tenDown) (recorded cppStarted stillDown)
        1101 1101).cpp_uptime_gte_ccxt = true ∧
      connectedShare 1000 stillDown 1101 < connectedShare 1000 tenDown 1101 := by
  have huptime : (recorded cppStarted stillDown).uptime_pct 1101 = 100 := by decide +kernel
  have hone : timeOn true 1000 stillDown 1101 / (1101 - 1000 : ℚ) = 1 / 101 := by decide +kernel
  have hmany : timeOn true 1000 tenDown 1101 / (1101 - 1000 : ℚ) = 91 / 101 := by decide +kernel
  have hshare : connectedShare 1000 stillDown 1101 = ((1 / 101 : ℚ) : ℝ) := by
    rw [connectedShare_eq chronological_stillDown, hone]
  have hshare' : connectedShare 1000 tenDown 1101 = ((91 / 101 : ℚ) : ℝ) := by
    rw [connectedShare_eq chronological_tenDown, hmany]
  refine ⟨huptime, hshare, ?_, by decide +kernel, ?_⟩
  · rw [huptime, hshare, ← Rat.cast_mul, Ne, Rat.cast_inj]
    decide +kernel
  · rw [hshare, hshare', Rat.cast_lt]
    decide +kernel

end Meridian.AbComparator
