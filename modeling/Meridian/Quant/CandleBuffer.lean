import Mathlib.Data.List.Induction
import Meridian.Quant.Volatility

/-!
# The candle buffer

`update_candles` (`volatility.py:56-59`) appends what a refresh delivers, and the buffer keeps the last
`window_minutes + 5` candles. A refresh every minute delivers the last 15, 14 of which were delivered
before: with a window of up to 10 minutes they push all older ones out, with a longer one they are in the
buffer twice.

Results:
* `time_series_iff`: when the buffer is in order after every refresh of a run.
-/

namespace Meridian

/-- Timestamps that go up. -/
def Ascending (candles : List Candle) : Prop :=
  candles.Pairwise fun a b => a.timestamp < b.timestamp

instance (candles : List Candle) : Decidable (Ascending candles) :=
  inferInstanceAs (Decidable (candles.Pairwise _))

variable {candles : List Candle}

/-! ## One refresh -/

theorem Ascending.drop (h : Ascending candles) (n : ℕ) : Ascending (candles.drop n) :=
  h.sublist (List.drop_sublist n candles)

/-- The newest candle is the last one. -/
theorem Ascending.le_last {c last : Candle} (h : Ascending candles) (hc : c ∈ candles)
    (hlast : candles.getLast? = some last) : c.timestamp ≤ last.timestamp := by
  obtain ⟨l, rfl⟩ := List.getLast?_eq_some_iff.mp hlast
  rcases List.mem_append.mp hc with hc | hc
  · exact ((List.pairwise_append.mp h).2.2 c hc last (List.mem_singleton_self last)).le
  · rw [List.mem_singleton.mp hc]

/-- The oldest candle is the first one. -/
theorem Ascending.head_le {c first : Candle} (h : Ascending candles) (hc : c ∈ candles)
    (hfirst : candles.head? = some first) : first.timestamp ≤ c.timestamp := by
  obtain ⟨l, rfl⟩ := List.head?_eq_some_iff.mp hfirst
  rcases List.mem_cons.mp hc with rfl | hc
  · exact le_rfl
  · exact ((List.pairwise_cons.mp h).1 c hc).le

/-- A buffer of `n` candles in order, and what a refresh makes of it. -/
theorem ascending_drop_append_iff {buffer : List Candle} {n : ℕ} (hbuffer : Ascending buffer)
    (hcandles : Ascending candles) :
    Ascending ((buffer ++ candles).drop ((buffer ++ candles).length - n)) ↔
      candles = [] ∨ n ≤ candles.length ∨
        ∀ c ∈ buffer.getLast?, ∀ c' ∈ candles.head?, c.timestamp < c'.timestamp := by
  have hkept : (buffer ++ candles).length - n - buffer.length = candles.length - n := by
    rw [List.length_append]
    omega
  rw [List.drop_append, hkept]
  rcases candles with _ | ⟨first, rest⟩
  · rw [List.drop_nil, List.append_nil]
    exact iff_of_true (hbuffer.drop _) (.inl rfl)
  rw [or_iff_right (List.cons_ne_nil _ _)]
  rcases le_or_gt n (first :: rest).length with hn | hn
  · have hnone : buffer.length ≤ (buffer ++ first :: rest).length - n := by
      rw [List.length_append]
      omega
    rw [List.drop_eq_nil_of_le hnone, List.nil_append]
    exact iff_of_true (hcandles.drop _) (.inl hn)
  rw [or_iff_right hn.not_ge, Nat.sub_eq_zero_of_le hn.le, List.drop_zero]
  -- All of what is delivered is behind what is kept, of which the newest is the newest there was.
  have hlast : buffer ≠ [] →
      (buffer.drop ((buffer ++ first :: rest).length - n)).getLast? = buffer.getLast? := by
    intro hne
    have hpos := List.length_pos_iff.mpr hne
    rw [List.getLast?_drop, if_neg]
    rw [List.length_append]
    omega
  constructor
  · rintro h c hc c' hc'
    rw [Option.mem_def] at hc hc'
    have hne : buffer ≠ [] := by
      rintro rfl
      cases hc
    refine (List.pairwise_append.mp h).2.2 c ?_ c' (List.mem_of_head? hc')
    exact List.mem_of_getLast? ((hlast hne).trans hc)
  · intro h
    refine List.pairwise_append.mpr ⟨hbuffer.drop _, hcandles, fun c hc c' hc' => ?_⟩
    have hc := List.mem_of_mem_drop hc
    obtain ⟨last, hlast⟩ := Option.isSome_iff_exists.mp
      (List.getLast?_isSome.mpr (List.ne_nil_of_mem hc))
    calc c.timestamp ≤ last.timestamp := hbuffer.le_last hc hlast
      _ < first.timestamp := h last hlast first rfl
      _ ≤ c'.timestamp := hcandles.head_le hc' rfl

namespace VolatilityEngine

variable {K : Type*} [Field K]

/-- A new engine after these refreshes. -/
def refreshed (cfg : VolatilityConfig) (deliveries : List (List Candle)) : VolatilityEngine K :=
  deliveries.foldl update_candles { cfg := cfg }

/-- What a refresh of a buffer of `maxlen` candles may deliver after those before it: nothing, as many as
the buffer holds, or only candles newer than the newest so far. -/
def Newer (maxlen : ℕ) (earlier : List (List Candle)) (candles : List Candle) : Prop :=
  candles = [] ∨ maxlen ≤ candles.length ∨
    ∀ c ∈ earlier.flatten.getLast?, ∀ c' ∈ candles.head?, c.timestamp < c'.timestamp

variable {cfg : VolatilityConfig} {earlier : List (List Candle)}

/-! ## What is in the buffer -/

theorem update_candles_append (e : VolatilityEngine K) (candles candles' : List Candle) :
    e.update_candles (candles ++ candles') = (e.update_candles candles).update_candles candles' := by
  unfold update_candles BoundedQueue.pushAll
  rw [List.foldl_append]

/-- Refreshes one after the other are one refresh with all that they deliver. -/
theorem refreshed_eq (cfg : VolatilityConfig) (deliveries : List (List Candle)) :
    (refreshed cfg deliveries : VolatilityEngine K) =
      update_candles { cfg := cfg } deliveries.flatten := by
  induction deliveries using List.reverseRecOn with
  | nil => rfl
  | append_singleton deliveries candles ih =>
    rw [refreshed, List.foldl_append, List.flatten_append, update_candles_append, ← ih,
      List.flatten_singleton]
    rfl

theorem items_refreshed (cfg : VolatilityConfig) (deliveries : List (List Candle)) :
    (refreshed cfg deliveries : VolatilityEngine K).candles.items =
      deliveries.flatten.drop (deliveries.flatten.length - cfg.max_candles) := by
  rw [refreshed_eq]
  exact BoundedQueue.items_pushAll _ _

theorem max_candles_pos (cfg : VolatilityConfig) : 0 < cfg.max_candles := Nat.succ_pos _

/-! ## A run of refreshes -/

theorem cfg_refreshed (cfg : VolatilityConfig) (deliveries : List (List Candle)) :
    (refreshed cfg deliveries : VolatilityEngine K).cfg = cfg := by
  rw [refreshed_eq]
  rfl

theorem items_refreshed_append (cfg : VolatilityConfig) (earlier : List (List Candle))
    (candles : List Candle) :
    (refreshed cfg (earlier ++ [candles]) : VolatilityEngine K).candles.items =
      ((refreshed cfg earlier : VolatilityEngine K).candles.items ++ candles).drop
        (((refreshed cfg earlier : VolatilityEngine K).candles.items ++ candles).length -
          cfg.max_candles) := by
  have hrefresh : (refreshed cfg (earlier ++ [candles]) : VolatilityEngine K) =
      (refreshed cfg earlier).update_candles candles := List.foldl_append
  rw [hrefresh]
  exact (BoundedQueue.items_pushAll _ _).trans
    (congrArg (fun n => List.drop (_ - n) _) (congrArg _ (cfg_refreshed cfg earlier)))

/-- The newest candle of the buffer is the last one delivered. -/
theorem getLast?_refreshed (cfg : VolatilityConfig) (earlier : List (List Candle)) :
    (refreshed cfg earlier : VolatilityEngine K).candles.items.getLast? =
      earlier.flatten.getLast? := by
  have hpos := max_candles_pos cfg
  rw [items_refreshed, List.getLast?_drop]
  split
  · rename_i hle
    have hzero : earlier.flatten = [] := List.eq_nil_of_length_eq_zero (by omega)
    rw [hzero]
    rfl
  · rfl

/-- One more refresh of a buffer in order. -/
theorem ascending_append_iff
    (hbuffer : Ascending (refreshed cfg earlier : VolatilityEngine K).candles.items)
    (hcandles : Ascending candles) :
    Ascending (refreshed cfg (earlier ++ [candles]) : VolatilityEngine K).candles.items ↔
      Newer cfg.max_candles earlier candles := by
  rw [items_refreshed_append, ascending_drop_append_iff hbuffer hcandles, getLast?_refreshed]
  rfl

/-- **The buffer is a time series** after every refresh of a run exactly when each refresh delivers as
many candles as the buffer holds, or only candles newer than all before. -/
theorem time_series_iff (cfg : VolatilityConfig) (deliveries : List (List Candle))
    (hascending : ∀ candles ∈ deliveries, Ascending candles) :
    (∀ earlier, earlier <+: deliveries →
        Ascending (refreshed cfg earlier : VolatilityEngine K).candles.items) ↔
      ∀ earlier candles, earlier ++ [candles] <+: deliveries →
        Newer cfg.max_candles earlier candles := by
  have hmem : ∀ {earlier candles}, earlier ++ [candles] <+: deliveries → Ascending candles :=
    fun h => hascending _ (h.subset (List.mem_append_right _ (List.mem_singleton_self _)))
  constructor
  · intro h earlier candles hprefix
    have hbuffer := h earlier ((List.prefix_append earlier [candles]).trans hprefix)
    exact (ascending_append_iff hbuffer (hmem hprefix)).mp (h _ hprefix)
  · intro h earlier hprefix
    induction earlier using List.reverseRecOn with
    | nil => exact List.Pairwise.nil
    | append_singleton earlier candles ih =>
      have hbuffer := ih ((List.prefix_append earlier [candles]).trans hprefix)
      exact (ascending_append_iff hbuffer (hmem hprefix)).mpr (h _ _ hprefix)

/-! ## Two refreshes -/

/-- The candles of 15 minutes from this one on. -/
def quarter (minute : ℕ) : List Candle :=
  (List.range' minute 15).map fun i : ℕ => ⟨60 * i, 1, 1, 1, 1, 1⟩

theorem ascending_quarter (minute : ℕ) : Ascending (quarter minute) := by
  refine List.pairwise_map.mpr ((List.pairwise_lt_range' ..).imp fun {i j} hij => ?_)
  show (60 : ℚ) * i < 60 * j
  exact mul_lt_mul_of_pos_left (by exact_mod_cast hij) (by norm_num)

/-- Two minutes of the default configuration, whose buffer holds 15 candles. -/
theorem time_series_default :
    Ascending (refreshed default [quarter 0, quarter 1] : VolatilityEngine ℚ).candles.items := by
  have hmem : ∀ candles ∈ [quarter 0, quarter 1], Ascending candles ∧ candles.length = 15 := by
    intro candles h
    rcases List.mem_cons.mp h with rfl | h
    · exact ⟨ascending_quarter 0, rfl⟩
    · rw [List.mem_singleton.mp h]
      exact ⟨ascending_quarter 1, rfl⟩
  refine (time_series_iff default [quarter 0, quarter 1] fun c hc => (hmem c hc).1).mpr
    (fun earlier candles hprefix => ?_) _ List.prefix_rfl
  have hdelivered := hprefix.subset (List.mem_append_right _ (List.mem_singleton_self _))
  exact .inr (.inl (hmem _ hdelivered).2.ge)

/-- A window of 11 minutes. -/
def eleven_minutes : VolatilityConfig :=
  { (default : VolatilityConfig) with window_minutes := ⟨11, by decide⟩ }

/-- **A candle twice**: with a window of 11 minutes the buffer has room for the oldest candle that the
next refresh delivers once more. -/
theorem candle_twice : Ascending (quarter 0) ∧ Ascending (quarter 1) ∧
    ((refreshed eleven_minutes [quarter 0, quarter 1] : VolatilityEngine ℚ).candles.items.map
      Candle.timestamp).take 2 = [840, 60] ∧
    ¬Ascending (refreshed eleven_minutes [quarter 0, quarter 1] : VolatilityEngine ℚ).candles.items := by
  refine ⟨ascending_quarter 0, ascending_quarter 1, by decide +kernel, ?_⟩
  decide +kernel

end VolatilityEngine

end Meridian
