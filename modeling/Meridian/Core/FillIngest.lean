import Meridian.Core.ExchangeBot
import Meridian.Lib.Paging

/-!
# Ingesting the fills of an exchange

`ExchangeBot._ingest_fills` (`exchange_bot.py:412-426`) against an exchange that makes a stream of
fills visible one by one and answers `fetch_fills` with the first 100 visible ones from the
millisecond of `since_ts` on (`ccxt_connector.py:178-185`), and the `fills` table
(`queries.py:76-89`). A poll awaits the exchange once, so what becomes visible while it runs comes
before or after its fetch; the clock is read before it.

The exchange counts milliseconds and the bot seconds in doubles, so the bound of the next fetch, a
millisecond after the newest fill, is rounded on its way there and back: `next_ms` is the fill's own
millisecond or the one after it (`next_ms_bounds`).

The stream by its milliseconds is a `Paging.Source` and the bot its reader (`sim`).

Results:
* `fills_lost`: two fills of one millisecond with a poll between them, and the second is never
  ingested;
* `fills_ingested_iff`: after as many polls as there are fills, all of them visible, every fill from
  the first window on is in the table exactly once if every poll met the condition `Meets`, and only
  if, for timestamps of which doubles tell the milliseconds apart.
-/

namespace Meridian.FillIngest

open Binary64 Coop Run

/-- The timestamp that `_parse_fill` makes of milliseconds (`ccxt_connector.py:232`). -/
def parse_timestamp (ms : ℕ) : ℚ := fl (fl ms / 1000)

/-- The fills of an exchange, in the order in which they become visible. -/
structure FillStream where
  fills : List Fill
  /-- the exchange's time of a fill in milliseconds; where it were 0, `_parse_fill` would take the
  bot's -/
  ms : Fill → ℕ
  pos : ∀ f ∈ fills, 0 < ms f
  timestamp : ∀ f ∈ fills, f.timestamp = parse_timestamp (ms f)
  sorted : fills.Pairwise fun f g => ms f ≤ ms g
  nodup : (fills.map Fill.id).Nodup

/-- The exchange and the database. -/
structure Env where
  stream : FillStream
  /-- how many of its fills are visible -/
  visible : ℕ := 0
  /-- the `fills` table -/
  table : Keyed Fill.id := .empty
  /-- History: `since_ts` of the first fetch, where the start window begins -/
  start : Option ℚ := none

/-- `int(t * 1000)`. -/
def to_ms (t : ℚ) : ℤ := trunc (fl (t * 1000))

/-- `limit: int = 100`. -/
def FETCH_LIMIT : ℕ := 100

/-- What the exchange returns for `since_ts`. -/
def fetch_fills (e : Env) (since_ts : ℚ) : List Fill :=
  ((e.stream.fills.take e.visible).filter fun f =>
    decide (to_ms since_ts ≤ e.stream.ms f)).take FETCH_LIMIT

/-- How the calls of `_ingest_fills` are served; it makes no others. -/
def answer : Answer (Sys Env) Rep Exn
  | .acquire, s => (.ok (), s)
  | .fetch_fills since_ts, s =>
    (.ok (fetch_fills s.env since_ts),
      { s with env := { s.env with start := some (s.env.start.getD since_ts) } })
  -- `ON CONFLICT (id) DO NOTHING`
  | .insert_fill fill, s => (.ok (), { s with env := { s.env with table := s.env.table.add fill } })
  | _, s => (.error .connector, s)

inductive Act where
  | publish
  | poll (now : ℚ)

/-- The bot polls at the time `now`. -/
def poll (s : Sys Env) (now : ℚ) : Sys Env :=
  (ExchangeBot.ingest_fills.run answer { s with clock := now }).2

/-- The next fill becomes visible, or the bot polls; its clock does not go back. -/
def next (s : Sys Env) : Act → Option (Sys Env)
  | .publish =>
    if s.env.visible < s.env.stream.fills.length then
      some { s with env := { s.env with visible := s.env.visible + 1 } }
    else none
  | .poll now => if s.clock ≤ now then some (poll s now) else none

/-- Where a poll begins when `ts` is the newest timestamp seen. -/
def since_after (ts : ℚ) : ℚ := fl (ts + fl (1 / 1000))

/-- Where the poll at `now` begins while no fill has been seen. -/
def window (now : ℚ) : ℚ := fl (now - 3600)

/-- Where the poll at `now` begins. -/
def since (s : Sys Env) (now : ℚ) : ℚ :=
  match s.bot.last_fill_ts with
  | some ts => since_after ts
  | none => window now

/-- The millisecond from which the bot asks when `f` is the newest fill. -/
def next_ms (f : Fill) : ℤ := to_ms (since_after f.timestamp)

/-- Every fill from the start window on is in the table exactly once. -/
def Ingested (s : Sys Env) : Prop :=
  ∀ f ∈ s.env.stream.fills, (∀ t ∈ s.env.start, to_ms t ≤ s.env.stream.ms f) →
    s.env.table.toList.filter (fun g => decide (g.id = f.id)) = [f]

instance (s : Sys Env) : Decidable (Ingested s) := by
  unfold Ingested
  infer_instance

/-- At a poll every fill of the last one's millisecond is on the page or in the table, if the next
poll asks from after it; while no fill has been seen, none is between the beginning of the start
window and this poll's; and the page is not full of fills of the table while others from its bound on
are missing. -/
def Meets (s : Sys Env) : Act → Prop
  | .publish => True
  | .poll now =>
    (∀ f ∈ (fetch_fills s.env (since s now)).getLast?, ∀ g ∈ s.env.stream.fills,
      (s.env.stream.ms f : ℤ) ≤ s.env.stream.ms g → s.env.stream.ms g < next_ms f →
        g ∈ fetch_fills s.env (since s now) ∨ g.id ∈ s.env.table.keys) ∧
    (s.bot.last_fill_ts = none → ∀ g ∈ s.env.stream.fills,
      to_ms (s.env.start.getD (window now)) ≤ s.env.stream.ms g →
        to_ms (window now) ≤ s.env.stream.ms g) ∧
    ((fetch_fills s.env (since s now)).length = FETCH_LIMIT →
      (∀ f ∈ fetch_fills s.env (since s now), f.id ∈ s.env.table.keys) →
        ∀ g ∈ s.env.stream.fills, to_ms (since s now) ≤ s.env.stream.ms g →
          g.id ∈ s.env.table.keys)

instance (s : Sys Env) (a : Act) : Decidable (Meets s a) := by
  unfold Meets
  split
  · infer_instance
  · exact @instDecidableAnd _ _ inferInstance (@instDecidableAnd _ _ inferInstance inferInstance)

/-! ## From milliseconds to seconds and back -/

theorem to_ms_mono {t u : ℚ} (h : t ≤ u) : to_ms t ≤ to_ms u :=
  trunc_mono (fl_mono (mul_le_mul_of_nonneg_right h (by norm_num)))

theorem since_after_mono {t u : ℚ} (h : t ≤ u) : since_after t ≤ since_after u :=
  fl_mono (add_le_add_left h _)

theorem window_mono {t u : ℚ} (h : t ≤ u) : window t ≤ window u :=
  fl_mono (sub_le_sub_right h _)

theorem parse_timestamp_mono {m n : ℕ} (h : m ≤ n) : parse_timestamp m ≤ parse_timestamp n :=
  fl_mono (div_le_div_of_nonneg_right (fl_mono (by exact_mod_cast h)) (by norm_num))

/-- **The next poll** asks from the newest fill's millisecond, or from the one after it. -/
theorem next_ms_bounds {m : ℕ} (hpos : 0 < m) (hm : m < 2 ^ 50) :
    (m : ℤ) ≤ to_ms (since_after (parse_timestamp m)) ∧
      to_ms (since_after (parse_timestamp m)) ≤ m + 1 := by
  have hm1 : (1 : ℚ) ≤ m := by exact_mod_cast hpos
  have hm2 : (m : ℚ) ≤ 2 ^ 50 - 1 := by
    rw [le_sub_iff_add_le]
    exact_mod_cast hm
  -- Each of the five roundings errs by at most one part in 2^53.
  have hfl : ∀ {x lo hi : ℚ}, 0 < lo → lo ≤ x → x ≤ hi →
      lo - lo / 2 ^ 53 ≤ fl x ∧ fl x ≤ hi + hi / 2 ^ 53 := fun hlo hx hx' =>
    ⟨(le_fl hlo).trans (fl_mono hx), (fl_mono hx').trans (fl_le (hlo.trans_le (hx.trans hx')))⟩
  obtain ⟨hfloat, hfloat'⟩ := hfl (x := m) (by linarith) le_rfl le_rfl
  have hseconds : (m - m / 2 ^ 53 : ℚ) / 1000 ≤ fl m / 1000 := by linarith
  have hseconds' : fl m / 1000 ≤ (m + m / 2 ^ 53 : ℚ) / 1000 := by linarith
  obtain ⟨hts, hts'⟩ := hfl (by linarith) hseconds hseconds'
  obtain ⟨hstep, hstep'⟩ := hfl (x := 1 / 1000) (by norm_num) le_rfl le_rfl
  obtain ⟨hsum, hsum'⟩ := hfl (by linarith) (add_le_add hts hstep) (add_le_add hts' hstep')
  have hthousand : (0 : ℚ) ≤ 1000 := by norm_num
  obtain ⟨hend, hend'⟩ := hfl (by linarith) (mul_le_mul_of_nonneg_right hsum hthousand)
    (mul_le_mul_of_nonneg_right hsum' hthousand)
  have hlow : ((m : ℤ) : ℚ) ≤ fl (since_after (parse_timestamp m) * 1000) := by
    push_cast
    refine le_trans ?_ hend
    linarith
  have hhigh : fl (since_after (parse_timestamp m) * 1000) < ((m + 1 : ℤ) : ℚ) + 1 := by
    push_cast
    refine hend'.trans_lt ?_
    linarith
  have hnonneg : 0 ≤ fl (since_after (parse_timestamp m) * 1000) := by
    refine le_trans ?_ hlow
    positivity
  rw [to_ms, trunc_of_nonneg hnonneg]
  exact ⟨Int.le_floor.mpr hlow, Int.floor_le_iff.mpr hhigh⟩

theorem FillStream.timestamp_le (σ : FillStream) {f g : Fill} (hf : f ∈ σ.fills) (hg : g ∈ σ.fills)
    (h : σ.ms f ≤ σ.ms g) : f.timestamp ≤ g.timestamp := by
  rw [σ.timestamp f hf, σ.timestamp g hg]
  exact parse_timestamp_mono h

/-! ## One poll -/

variable {s s' : Sys Env}

/-- One fill is stored and seen. -/
def ingest (s : Sys Env) (f : Fill) : Sys Env :=
  { s with env := { s.env with table := s.env.table.add f } }.mapBot (ExchangeBot.see_fill f)

theorem run_forEach : ∀ (l : List Fill) (s : Sys Env),
    ((Prog.forEach l fun fill => do
      ask (.insert_fill fill)
      Prog.modify (Sys.mapBot (ExchangeBot.see_fill fill))).run answer s) =
      (.ok (), l.foldl ingest s)
  | [], _ => rfl
  | f :: l, s => run_forEach l (ingest s f)

/-- The state in which the fetched fills arrive. -/
def fetched (s : Sys Env) : Sys Env :=
  { s with env := { s.env with start := some (s.env.start.getD (since s s.clock)) } }

theorem run_fetch_new_fills (s : Sys Env) : ExchangeBot.fetch_new_fills.run answer s =
    (.ok (fetch_fills s.env (since s s.clock)), fetched s) := rfl

/-- **What a poll does**: it fetches from `since` on and ingests what it gets, one by one. -/
theorem run_ingest_fills (s : Sys Env) : (ExchangeBot.ingest_fills.run answer s).2 =
    (fetch_fills s.env (since s s.clock)).foldl ingest (fetched s) := by
  unfold ExchangeBot.ingest_fills
  rw [bind_eq, run_bind, run_fetch_new_fills]
  dsimp only
  rw [run_forEach]

/-- The newer of the newest fill seen and another. -/
def newest (last : Option ℚ) (t : ℚ) : ℚ := last.elim t fun u => max u t

theorem last_fill_ts_ingest (s : Sys Env) (f : Fill) :
    (ingest s f).bot.last_fill_ts = some (newest s.bot.last_fill_ts f.timestamp) := by
  unfold ingest Sys.mapBot ExchangeBot.see_fill newest
  dsimp only
  split
  · rename_i t ht
    rw [ht, Option.elim_some]
    split
    · rename_i hlt
      exact congrArg some (max_eq_right hlt.le).symm
    · rename_i hle
      exact ht.trans (congrArg some (max_eq_left (not_lt.mp hle)).symm)
  · rename_i ht
    rw [ht]
    rfl

theorem newest_newest (last : Option ℚ) {t u : ℚ} (h : t ≤ u) :
    newest (some (newest last t)) u = newest last u := by
  cases last with
  | none => exact max_eq_right h
  | some v =>
    show max (max v t) u = max v u
    rw [max_assoc, max_eq_right h]

/-- What the ingested fills leave: the table with them, and the newest of them and of those seen. -/
theorem foldl_ingest : ∀ (l : List Fill) (s : Sys Env),
    l.Pairwise (fun f g => f.timestamp ≤ g.timestamp) →
    (l.foldl ingest s).clock = s.clock ∧
    (l.foldl ingest s).env = { s.env with table := l.foldl Keyed.add s.env.table } ∧
    (l.foldl ingest s).bot.last_fill_ts =
      (l.getLast?.map fun f => newest s.bot.last_fill_ts f.timestamp).or s.bot.last_fill_ts
  | [], s, _ => ⟨rfl, rfl, rfl⟩
  | f :: l, s, hl => by
    obtain ⟨hfl, hl⟩ := List.pairwise_cons.mp hl
    obtain ⟨hclock, henv, hlast⟩ := foldl_ingest l (ingest s f) hl
    refine ⟨hclock, henv, hlast.trans ?_⟩
    rw [last_fill_ts_ingest]
    cases l with
    | nil => rfl
    | cons g l =>
      rw [List.getLast?_cons_cons]
      obtain ⟨z, hz⟩ := Option.ne_none_iff_exists'.mp
        (mt List.getLast?_eq_none_iff.mp (List.cons_ne_nil g l))
      rw [hz]
      exact congrArg some (newest_newest _ (hfl z (List.mem_of_getLast? hz)))

/-! ## The bot as a reader -/

/-- The stream by its milliseconds. -/
def FillStream.source (σ : FillStream) : Paging.Source Fill.id where
  key f := σ.ms f
  after := next_ms
  stream := σ.fills
  limit := FETCH_LIMIT
  sorted := σ.sorted.imp fun h => Int.ofNat_le.mpr h
  nodup := σ.nodup
  limit_pos := by decide
  after_mono f hf g hg h :=
    to_ms_mono (since_after_mono (σ.timestamp_le hf hg (Int.ofNat_le.mp h)))

/-- What the bot remembers of what it has read. -/
def view (s : Sys Env) : Paging.State Fill.id where
  visible := s.env.visible
  start := s.env.start.map to_ms
  window := s.env.start.map fun _ => to_ms (window s.clock)
  low := s.bot.last_fill_ts.map fun t => to_ms (since_after t)
  got := s.env.table

/-- A step by its milliseconds. -/
def label : Act → Paging.Act
  | .publish => .publish
  | .poll now => .poll (to_ms (window now))

theorem to_ms_since (s : Sys Env) (now : ℚ) :
    to_ms (since s now) = (view s).low.getD (to_ms (window now)) := by
  unfold since view
  cases s.bot.last_fill_ts <;> rfl

theorem fetch_fills_eq (e : Env) (t : ℚ) :
    fetch_fills e t = e.stream.source.page e.visible (to_ms t) := rfl

/-- The bound after the newest fill is the greatest. -/
theorem to_ms_newest (last : Option ℚ) (t : ℚ) : to_ms (since_after (newest last t)) =
    Paging.raise (last.map fun u => to_ms (since_after u)) (to_ms (since_after t)) := by
  cases last with
  | none => rfl
  | some u =>
    have hmono : Monotone fun t => to_ms (since_after t) := fun _ _ h =>
      to_ms_mono (since_after_mono h)
    exact hmono.map_max

/-- **What a poll leaves**: the clock, the table with the fills of the page, and the newest of them
and of those seen. -/
theorem poll_spec (s : Sys Env) (now : ℚ) :
    (poll s now).clock = now ∧
    (poll s now).env = { s.env with
      table := (fetch_fills s.env (since s now)).foldl Keyed.add s.env.table
      start := some (s.env.start.getD (since s now)) } ∧
    (poll s now).bot.last_fill_ts = ((fetch_fills s.env (since s now)).getLast?.map fun f =>
      newest s.bot.last_fill_ts f.timestamp).or s.bot.last_fill_ts := by
  have hsorted : (fetch_fills s.env (since s now)).Pairwise fun f g =>
      f.timestamp ≤ g.timestamp := by
    have hfills : s.env.stream.fills.Pairwise fun f g => f.timestamp ≤ g.timestamp :=
      s.env.stream.sorted.imp_of_mem fun hf hg h => s.env.stream.timestamp_le hf hg h
    have hpage : (s.env.stream.source.page s.env.visible (to_ms (since s now))).Sublist
        s.env.stream.source.stream := Paging.page_sublist
    exact hfills.sublist hpage
  unfold poll
  rw [run_ingest_fills]
  exact foldl_ingest _ (fetched { s with clock := now }) hsorted

/-- The stream is `σ`, and nothing is seen before the first fetch. -/
structure Reads (σ : FillStream) (s : Sys Env) : Prop where
  stream : s.env.stream = σ
  unseen : s.env.start = none → s.bot.last_fill_ts = none

variable {σ : FillStream} {now : ℚ} {a : Act}

/-- The first window is the first fetch's. -/
theorem Reads.start (h : Reads σ s) :
    to_ms (s.env.start.getD (since s now)) = (view s).start.getD (to_ms (window now)) := by
  unfold view
  cases hs : s.env.start with
  | none =>
    rw [since, h.unseen hs]
    rfl
  | some t => rfl

/-- The bot's page is the reader's. -/
theorem Reads.page (h : Reads σ s) : fetch_fills s.env (since s now) =
    σ.source.page (view s).visible ((view s).low.getD (to_ms (window now))) := by
  rw [fetch_fills_eq, to_ms_since, h.stream]
  rfl

/-- A poll by the clock is a poll of the reader. -/
theorem Reads.view_poll (h : Reads σ s) (now : ℚ) :
    view (poll s now) = (view s).poll σ.source (to_ms (window now)) := by
  obtain ⟨hclock, henv, hlast⟩ := poll_spec s now
  have hstart : (poll s now).env.start = some (s.env.start.getD (since s now)) :=
    congrArg Env.start henv
  ext1
  · simp only [view, henv]
    rfl
  · simp only [view, hstart, Option.map_some]
    exact congrArg some h.start
  · simp only [view, hstart, hclock, Option.map_some]
    rfl
  · simp only [view, hlast, Option.map_or, Option.map_map, Function.comp_def, to_ms_newest]
    rw [h.page]
    rfl
  · refine (congrArg Env.table henv).trans ?_
    dsimp only
    rw [h.page]
    rfl

/-- **One step** of the bot is a step of the reader: a published fill is a published item, and a
poll from `since` a poll from its millisecond. -/
theorem sim {s s' : Sys Env} (h : Reads σ s) (hs : next s a = some s') :
    Reads σ s' ∧ Paging.next σ.source (view s) (label a) = some (view s') := by
  cases a with
  | publish =>
    obtain ⟨hlt, ⟨⟩⟩ := Option.ite_none_right_eq_some.mp hs
    refine ⟨⟨h.stream, h.unseen⟩, ?_⟩
    rw [h.stream] at hlt
    exact if_pos hlt
  | poll now =>
    obtain ⟨hle, ⟨⟩⟩ := Option.ite_none_right_eq_some.mp hs
    obtain ⟨-, henv, -⟩ := poll_spec s now
    have hw : ∀ v ∈ (view s).window, v ≤ to_ms (window now) := by
      intro v hv
      obtain ⟨-, -, rfl⟩ := Option.map_eq_some_iff.mp hv
      exact to_ms_mono (window_mono hle)
    rw [h.view_poll]
    refine ⟨⟨?_, fun hn => ?_⟩, if_pos hw⟩
    · rw [henv]
      exact h.stream
    · rw [henv] at hn
      cases hn

theorem meets_iff (h : Reads σ s) : Meets s a ↔ Paging.Whole σ.source (view s) (label a) := by
  cases a with
  | publish => exact Iff.rfl
  | poll now =>
    have hstart : to_ms (s.env.start.getD (window now)) =
        (view s).start.getD (to_ms (window now)) := by
      unfold view
      cases s.env.start <;> rfl
    have hlow : (view s).low = none ↔ s.bot.last_fill_ts = none := Option.map_eq_none_iff
    unfold Meets Paging.Whole label
    dsimp only
    rw [hstart, hlow, to_ms_since, h.page, h.stream]
    rfl

theorem ingested_iff (h : Reads σ s) : Ingested s ↔ Paging.Complete σ.source (view s) := by
  unfold Ingested Paging.Complete Paging.Young
  rw [h.stream]
  refine forall₂_congr fun f _ => imp_congr ?_ Keyed.filter_key_eq
  simp only [view, Option.mem_map, forall_exists_index, and_imp, forall_apply_eq_imp_iff₂]
  rfl

/-! ## Every run -/

/-- A bot that has seen no fill, and a table without the fills of the stream. -/
structure Starts (s : Sys Env) : Prop where
  unseen : s.bot.last_fill_ts = none
  start : s.env.start = none
  visible : s.env.visible = 0
  table : ∀ f ∈ s.env.stream.fills, f.id ∉ s.env.table.keys

/-- **Every fill of the start window is ingested exactly once**, after enough polls, if every poll met
the condition, and only if, for timestamps of which doubles tell the milliseconds apart. -/
theorem fills_ingested_iff {s₀ s s' : Sys Env} (h₀ : Starts s₀) {acts : List Act} {nows : List ℚ}
    (hs : play next (fun _ _ => True) s₀ acts = some s)
    (hv : s.env.visible = s.env.stream.fills.length)
    (hn : s.env.stream.fills.length ≤ nows.length)
    (hs' : play next (fun _ _ => True) s (nows.map .poll) = some s') :
    (play next Meets s₀ (acts ++ nows.map .poll) = some s' → Ingested s') ∧
    ((∀ f ∈ s₀.env.stream.fills, s₀.env.stream.ms f < 2 ^ 50) → Ingested s' →
      play next Meets s₀ (acts ++ nows.map .poll) = some s') := by
  have hall : play next (fun _ _ => True) s₀ (acts ++ nows.map .poll) = some s' := by
    rw [play_append, hs]
    exact hs'
  have hr₀ : Reads s₀.env.stream s₀ := ⟨rfl, fun _ => h₀.unseen⟩
  have hr := play_inv (I := Reads s₀.env.stream) hs hr₀ fun _ _ _ h _ hs => (sim h hs).1
  have hr' := play_inv (I := Reads s₀.env.stream) hs' hr fun _ _ _ h _ hs => (sim h hs).1
  have hinit : view s₀ = Paging.init s₀.env.table := by
    unfold view
    rw [h₀.unseen, h₀.start, h₀.visible]
    rfl
  have hpolls : (nows.map Act.poll).map label =
      (nows.map fun now => to_ms (window now)).map Paging.Act.poll := by
    rw [List.map_map, List.map_map]
    rfl
  -- the run of the bot is one of the reader, and so is its part before the last polls
  have hsim : ∀ s a s', Reads s₀.env.stream s → next s a = some s' → Reads s₀.env.stream s' ∧
      Paging.next s₀.env.stream.source (view s) (label a) = some (view s') :=
    fun _ _ _ h hs => sim h hs
  have hmeets := play_view hsim (fun _ _ h => meets_iff h) hr₀ hall
  rw [hinit] at hmeets
  rw [ingested_iff hr', hmeets]
  refine ⟨fun hwhole => ?_, fun hms hcomplete => ?_⟩
  · have hread : play (Paging.next s₀.env.stream.source) (fun _ _ => True) (view s₀)
        (acts.map label) = some (view s) := (play_view hsim (fun _ _ _ => Iff.rfl) hr₀ hs).mp hs
    rw [hinit] at hread
    rw [List.map_append, hpolls] at hwhole
    refine Paging.complete_of_whole h₀.table hread ?_ ?_ hwhole
    · rw [hr.stream] at hv
      exact hv
    · rw [hr.stream] at hn
      rwa [List.length_map]
  · have hread : play (Paging.next s₀.env.stream.source) (fun _ _ => True) (view s₀)
        ((acts ++ nows.map Act.poll).map label) = some (view s') :=
      (play_view hsim (fun _ _ _ => Iff.rfl) hr₀ hall).mp hall
    rw [hinit] at hread
    refine Paging.whole_of_complete (fun f hf => ?_) h₀.table hread hcomplete
    have hbounds := next_ms_bounds (s₀.env.stream.pos f hf) (hms f hf)
    rw [← s₀.env.stream.timestamp f hf] at hbounds
    exact hbounds.1

/-! ## Two runs -/

/-- A fill of one token at the time `ms`. -/
def fill (id : String) (ms : ℕ) : Fill :=
  { id := id, order_id := "1", exchange := "kucoin", symbol := "ALKIMI/USDT", side := .buy
    filled_price := 1, filled_amount := 1, fee := 0, fee_currency := "USDT"
    timestamp := parse_timestamp ms }

/-- Two fills of the millisecond `ms`, and one a second later. -/
def threeFills (ms : ℕ) (h : 0 < ms) : FillStream where
  fills := [fill "1" ms, fill "2" ms, fill "3" (ms + 1000)]
  ms f := if f.id = "3" then ms + 1000 else ms
  pos := by simp [fill, h]
  timestamp := by simp [fill]
  sorted := by simp [fill]
  nodup := by simp [fill]

/-- A bot that has just started. -/
def started (σ : FillStream) : Sys Env where
  om := { exchange := "kucoin", symbol := "ALKIMI/USDT", dry_run := false }
  bot :=
    { exchange := "kucoin"
      q_switch := { exchange := "kucoin", min_balance_usd := 0, min_balance_token := 0 }
      circuit_breaker := { max_daily_loss_pct := 10, max_drawdown_pct := 10, day_start := 0 }
      has_paper_trader := false
      running := true }
  paper := { exchange := "kucoin", maker_fee_rate := 0 }
  clock := 1700000000
  uuid4 _ := ""
  env := { stream := σ }

theorem starts (σ : FillStream) : Starts (started σ) := ⟨rfl, rfl, rfl, fun _ _ => List.not_mem_nil⟩

/-- Three polls with nothing new. -/
def lastPolls : List ℚ := [1700000010, 1700000015, 1700000020]

/-- The second fill becomes visible after a poll that got the first: where the bound is rounded to
their millisecond, it is ingested. -/
theorem fills_ingested_three : ∃ s, s.env.table.keys = ["1", "2", "3"] ∧ Ingested s := by
  have h : (play next Meets (started (threeFills 1700000000001 (by decide)))
      [.publish, .poll 1700000001, .publish, .publish]).any
      (fun s => decide
        (s.env.visible = s.env.stream.fills.length ∧ s.env.stream.fills.length ≤ 3) &&
        (play next Meets s (lastPolls.map .poll)).any fun s' => decide
          (s'.env.table.keys = ["1", "2", "3"])) = true := by
    decide +kernel
  obtain ⟨s, hs, hp⟩ := (Option.any_eq_true _ _).mp h
  obtain ⟨hvis, hp⟩ := (Bool.and_eq_true _ _).mp hp
  obtain ⟨s', hs', hkeys⟩ := (Option.any_eq_true _ _).mp hp
  obtain ⟨hv, hn⟩ := of_decide_eq_true hvis
  have hall : play next Meets (started (threeFills 1700000000001 (by decide)))
      ([.publish, .poll 1700000001, .publish, .publish] ++ lastPolls.map .poll) = some s' := by
    rw [play_append, hs]
    exact hs'
  exact ⟨s', of_decide_eq_true hkeys, (fills_ingested_iff (starts _) (play_forget hs) hv
    (show _ ≤ lastPolls.length from hn) (play_forget hs')).1 hall⟩

/-- **A fill is lost**: it becomes visible after a poll that got one of its millisecond, and the bound
is rounded to the next one. -/
theorem fills_lost :
    ¬∀ (s₀ s s' : Sys Env) (acts : List Act) (nows : List ℚ), Starts s₀ →
      play next (fun _ _ => True) s₀ acts = some s → s.env.visible = s.env.stream.fills.length →
      s.env.stream.fills.length ≤ nows.length →
      play next (fun _ _ => True) s (nows.map .poll) = some s' → Ingested s' := by
  intro hall
  have h : (play next (fun _ _ => True) (started (threeFills 1700000000000 (by decide)))
      [.publish, .poll 1700000001, .publish, .publish]).any (fun s => decide
        (s.env.visible = s.env.stream.fills.length ∧ s.env.stream.fills.length ≤ 3) &&
        (play next (fun _ _ => True) s (lastPolls.map .poll)).any fun s' => decide
          ¬Ingested s') = true := by
    decide +kernel
  obtain ⟨s, hs, hp⟩ := (Option.any_eq_true _ _).mp h
  obtain ⟨hvis, hp⟩ := (Bool.and_eq_true _ _).mp hp
  obtain ⟨s', hs', hnot⟩ := (Option.any_eq_true _ _).mp hp
  obtain ⟨hv, hn⟩ := of_decide_eq_true hvis
  exact of_decide_eq_true hnot (hall _ s s' _ lastPolls (starts _) hs hv hn hs')

end Meridian.FillIngest
