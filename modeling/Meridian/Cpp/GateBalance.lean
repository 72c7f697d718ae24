import Meridian.Cpp.AtomicDoubleBuffer

/-!
# `GateConnector`: the balance between two threads

Model of `on_balance_msg` and `fetch_balance` of `exchange/cpp/src/gate_connector.cpp` (699-717,
737-746) and of the bootstrap's store (347-361), over the steps of `balance_adb_`. The io thread
answers a message by a `load`, a change of one currency and a `store`; a caller's `fetch_balance` is
a `load` as well, so the buffer that is made for one reader has two.

Results:
* `balance_lost`: two loads that swap slots at the same time, after which the io thread stores a
  balance that lacks an update;
* `balance_kept`: in every run in which a load that has found new data overlaps no other, each
  `fetch_balance` returns the updates processed before it, or more.
-/

namespace Meridian.GateBalance

open Meridian.Run
open AtomicDoubleBuffer (Value LoadPc StorePc)

/-- The threads that call `balance_adb_.load`. -/
inductive Thread where
  | io
  | caller
  deriving DecidableEq

instance : Fintype Thread := ⟨{.io, .caller}, fun t => by cases t <;> decide⟩

variable {K : Type}

/-- `BalanceData`: the words `usd` and `token`. -/
abbrev BalanceData (K : Type) := Value 2 K

/-- `BalanceData{usd, token}`. -/
def pair (usd token : K) : BalanceData K := fun i => if i = 0 then usd else token

/-- What the io thread stores: the REST snapshot, or a message's change of one currency. -/
inductive Update (K : Type) where
  | bootstrap (usd token : K)
  | message (ccy : String) (avail : K)

/-- `quote_currency_` and `base_token_`. -/
structure Currencies where
  quote_currency : String
  base_token : String

/-- `bd` after an update. -/
def Currencies.apply (c : Currencies) (bd : BalanceData K) : Update K → BalanceData K
  | .bootstrap usd token => pair usd token
  | .message ccy avail =>
    let bd := if ccy = c.quote_currency then Function.update bd 0 avail else bd
    if ccy = c.base_token then Function.update bd 1 avail else bd

/-- The balance after these updates, in order. -/
def Currencies.balance (c : Currencies) (bd : BalanceData K) (us : List (Update K)) :
    BalanceData K := us.foldl c.apply bd

/-- What the io thread is at. -/
inductive IoPc (K : Type) where
  | idle
  | loading (u : Update K)
  | storing (u : Update K)

/-- A call of `fetch_balance`: how many updates had been processed when it began and when its load
chose its slot, and what it returned. -/
structure Fetch (K : Type) where
  before : ℕ
  since : ℕ
  out : BalanceData K

/-- The buffer and the two threads. History: the updates processed, that is exchanged in; how many
of them there were when the caller's last call began; and its completed calls. -/
structure State (K : Type) where
  adb : AtomicDoubleBuffer.State 2 K Thread
  io : IoPc K
  processed : List (Update K)
  called : ℕ
  fetches : List (Fetch K)

/-- A new connector. -/
def init (bd : BalanceData K) : State K :=
  { adb := AtomicDoubleBuffer.init bd, io := .idle, processed := [], called := 0, fetches := [] }

/-- The io thread begins a bootstrap store or a message, or goes from its load to its store; the
caller begins `fetch_balance`; or one of them does the next step of the `load` or `store` it is
in. -/
inductive Act (K : Type) where
  | bootstrap (usd token : K)
  | message (ccy : String) (avail : K)
  | change
  | fetch
  | step (a : AtomicDoubleBuffer.Act 2 K Thread)

/-- One step, where the thread it belongs to is at that place. -/
def next (c : Currencies) (s : State K) : Act K → Option (State K)
  | .bootstrap usd token =>
    match s.io with
    | .idle => (AtomicDoubleBuffer.next s.adb (.storeEnter (pair usd token))).map fun adb =>
      { s with adb := adb, io := .storing (.bootstrap usd token) }
    | _ => none
  | .message ccy avail =>
    match s.io with
    | .idle => (AtomicDoubleBuffer.next s.adb (.loadEnter .io)).map fun adb =>
      { s with adb := adb, io := .loading (.message ccy avail) }
    | _ => none
  | .change =>
    match s.io, s.adb.reader .io with
    | .loading u, .returned bd _ =>
      (AtomicDoubleBuffer.next s.adb (.storeEnter (c.apply bd u))).map fun adb =>
        { s with adb := adb, io := .storing u }
    | _, _ => none
  | .fetch => (AtomicDoubleBuffer.next s.adb (.loadEnter .caller)).map fun adb =>
    { s with adb := adb, called := s.processed.length }
  | .step a =>
    match a with
    -- a call begins only in the steps above
    | .storeEnter _ | .loadEnter _ => none
    | .storeExchange =>
      match s.io with
      | .storing u => (AtomicDoubleBuffer.next s.adb .storeExchange).map fun adb =>
        { s with adb := adb, processed := s.processed ++ [u] }
      | _ => none
    | .storeUpdate => (AtomicDoubleBuffer.next s.adb .storeUpdate).map fun adb =>
      { s with adb := adb, io := .idle }
    | .loadReturn .caller =>
      match s.adb.reader .caller with
      | .reading _ _ out since => (AtomicDoubleBuffer.next s.adb (.loadReturn .caller)).map fun adb =>
        { s with adb := adb, fetches := s.fetches ++ [⟨s.called, since, out⟩] }
      | _ => none
    | a => (AtomicDoubleBuffer.next s.adb a).map fun adb => { s with adb := adb }

/-- A load that has found new data overlaps no other one past its peek. -/
def Apart (s : State K) : Act K → Prop
  | .step a => AtomicDoubleBuffer.Apart s.adb a
  | _ => True

instance (s : State K) (a : Act K) : Decidable (Apart s a) := by
  unfold Apart
  split <;> infer_instance

/-- Balances are neither torn nor lost nor rolled back: the caller copies no slot that the io thread
writes, each of its calls returns the balance after the first `since` updates processed, these are
at least those processed before the call, and never fewer than the call before has returned. -/
structure Kept (c : Currencies) (bd : BalanceData K) (s : State K) : Prop where
  untorn : ∀ val i slot j out since, s.adb.writer = .writing val i →
    s.adb.reader .caller = .reading slot j out since → slot ≠ s.adb.writer_slot
  applied : ∀ f ∈ s.fetches, f.since ≤ s.processed.length ∧
    f.out = c.balance bd (s.processed.take f.since)
  current : ∀ f ∈ s.fetches, f.before ≤ f.since
  monotone : (s.fetches.map Fetch.since).Pairwise (· ≤ ·)

/-! ## What a step can be -/

/-- A step inside a `load` or `store` of which the connector's state records nothing. -/
def inner : AtomicDoubleBuffer.Act 2 K Thread → Bool
  | .storeEnter _ | .loadEnter _ | .storeExchange | .storeUpdate | .loadReturn .caller => false
  | _ => true

/-- The steps, each with what it needs and the step of the buffer it is. -/
inductive Step (c : Currencies) (s : State K) : Act K → State K → Prop
  | bootstrap (usd token : K) (adb) (hio : s.io = .idle)
      (h : AtomicDoubleBuffer.Step s.adb (.storeEnter (pair usd token)) adb) :
    Step c s (.bootstrap usd token) { s with adb := adb, io := .storing (.bootstrap usd token) }
  | message (ccy : String) (avail : K) (adb) (hio : s.io = .idle)
      (h : AtomicDoubleBuffer.Step s.adb (.loadEnter .io) adb) :
    Step c s (.message ccy avail) { s with adb := adb, io := .loading (.message ccy avail) }
  | change (u : Update K) (bd : BalanceData K) (since : ℕ) (adb) (hio : s.io = .loading u)
      (hr : s.adb.reader .io = .returned bd since)
      (h : AtomicDoubleBuffer.Step s.adb (.storeEnter (c.apply bd u)) adb) :
    Step c s .change { s with adb := adb, io := .storing u }
  | fetch (adb) (h : AtomicDoubleBuffer.Step s.adb (.loadEnter .caller) adb) :
    Step c s .fetch { s with adb := adb, called := s.processed.length }
  | exchange (u : Update K) (adb) (hio : s.io = .storing u)
      (h : AtomicDoubleBuffer.Step s.adb .storeExchange adb) :
    Step c s (.step .storeExchange) { s with adb := adb, processed := s.processed ++ [u] }
  | update (adb) (h : AtomicDoubleBuffer.Step s.adb .storeUpdate adb) :
    Step c s (.step .storeUpdate) { s with adb := adb, io := .idle }
  | fetched (slot : UInt32) (i : ℕ) (out : BalanceData K) (since : ℕ) (adb)
      (hr : s.adb.reader .caller = .reading slot i out since)
      (h : AtomicDoubleBuffer.Step s.adb (.loadReturn .caller) adb) :
    Step c s (.step (.loadReturn .caller))
      { s with adb := adb, fetches := s.fetches ++ [⟨s.called, since, out⟩] }
  | inner (a : AtomicDoubleBuffer.Act 2 K Thread) (adb) (ha : inner a = true)
      (h : AtomicDoubleBuffer.Step s.adb a adb) : Step c s (.step a) { s with adb := adb }

variable {c : Currencies} {bd : BalanceData K} {s s' : State K} {a : Act K}

/-- A step of the buffer, in a larger state. -/
theorem step_of_map {α : Type} {x : AtomicDoubleBuffer.State 2 K Thread}
    {b : AtomicDoubleBuffer.Act 2 K Thread} {f : AtomicDoubleBuffer.State 2 K Thread → α} {y : α}
    (h : (AtomicDoubleBuffer.next x b).map f = some y) :
    ∃ adb, AtomicDoubleBuffer.Step x b adb ∧ y = f adb := by
  obtain ⟨adb, hadb, rfl⟩ := Option.map_eq_some_iff.mp h
  exact ⟨adb, AtomicDoubleBuffer.step_of_next hadb, rfl⟩

theorem step_of_next (h : next c s a = some s') : Step c s a s' := by
  cases a with
  | bootstrap usd token =>
    simp only [next] at h
    split at h
    · rename_i hio
      obtain ⟨adb, hs, rfl⟩ := step_of_map h
      exact .bootstrap usd token adb hio hs
    · cases h
  | message ccy avail =>
    simp only [next] at h
    split at h
    · rename_i hio
      obtain ⟨adb, hs, rfl⟩ := step_of_map h
      exact .message ccy avail adb hio hs
    · cases h
  | change =>
    simp only [next] at h
    split at h
    · rename_i u bd since hio hr
      obtain ⟨adb, hs, rfl⟩ := step_of_map h
      exact .change u bd since adb hio hr hs
    · cases h
  | fetch =>
    obtain ⟨adb, hs, rfl⟩ := step_of_map h
    exact .fetch adb hs
  | step b =>
    simp only [next] at h
    split at h
    · cases h
    · cases h
    · split at h
      · rename_i u hio
        obtain ⟨adb, hs, rfl⟩ := step_of_map h
        exact .exchange u adb hio hs
      · cases h
    · obtain ⟨adb, hs, rfl⟩ := step_of_map h
      exact .update adb hs
    · split at h
      · rename_i slot i out since hr
        obtain ⟨adb, hs, rfl⟩ := step_of_map h
        exact .fetched slot i out since adb hr hs
      · cases h
    · rename_i h1 h2 h3 h4 h5
      obtain ⟨adb, hs, rfl⟩ := step_of_map h
      refine .inner b adb ?_ hs
      unfold inner
      split
      · exact absurd rfl (h1 _)
      · exact absurd rfl (h2 _)
      · exact absurd rfl h3
      · exact absurd rfl h4
      · exact absurd rfl h5
      · rfl

/-! ## The invariant -/

/-- The values exchanged in are the balances after each number of processed updates. -/
structure Versions (c : Currencies) (bd : BalanceData K) (us : List (Update K))
    (published : List (BalanceData K)) : Prop where
  length : published.length = us.length + 1
  value : ∀ j, j ≤ us.length → published[j]? = some (c.balance bd (us.take j))

/-- What the io thread keeps: its load has seen all updates processed, and its store has one more. -/
def IoOk (c : Currencies) (bd : BalanceData K) (s : State K) : Prop :=
  match s.io with
  | .idle => s.adb.writer = .idle
  | .loading _ => s.adb.writer = .idle ∧
      (∀ since, (s.adb.reader .io).since? = some since → since = s.processed.length) ∧
      ∀ out since, s.adb.reader .io = .returned out since → out = c.balance bd s.processed
  | .storing u => ∀ val i, s.adb.writer = .writing val i →
      val = c.apply (c.balance bd s.processed) u

/-- What holds in every state reached: what the buffer has published are the balances after so many
updates, and no fetch goes behind the one before it. -/
structure Inv (c : Currencies) (bd : BalanceData K) (s : State K) : Prop where
  adb : ∃ w r shared fresh k, AtomicDoubleBuffer.Inv s.adb w r shared fresh k
  versions : Versions c bd s.processed s.adb.published
  io : IoOk c bd s
  called : s.called ≤ s.processed.length
  caller : ∀ since, (s.adb.reader .caller).since? = some since → s.called ≤ since
  fetches : ∀ f ∈ s.fetches, f.before ≤ f.since
  loads : s.fetches.map (fun f => (f.since, f.out)) =
    (s.adb.loads.filter fun l => l.thread = .caller).map fun l => (l.since, l.out)

theorem versions_init (c : Currencies) (bd : BalanceData K) : Versions c bd [] [bd] where
  length := rfl
  value j hj := by
    obtain rfl := Nat.le_zero.mp hj
    rfl

theorem Versions.last {us : List (Update K)} {published : List (BalanceData K)}
    (h : Versions c bd us published) : published.length - 1 = us.length := by
  rw [h.length, Nat.add_sub_cancel]

/-- One more update is processed. -/
theorem Versions.append {us : List (Update K)} {published : List (BalanceData K)}
    (h : Versions c bd us published) (u : Update K) :
    Versions c bd (us ++ [u]) (published ++ [c.apply (c.balance bd us) u]) where
  length := by simp [h.length]
  value j hj := by
    rw [List.length_append, List.length_singleton] at hj
    rcases Nat.le_succ_iff.mp hj with hle | rfl
    · rw [List.getElem?_append_left (by rw [h.length]; omega), h.value j hle,
        List.take_append_of_le_length hle]
    · have hlen : us.length + 1 = published.length := h.length.symm
      have htake : (us ++ [u]).take (us.length + 1) = us ++ [u] :=
        List.take_of_length_le (by simp)
      rw [Nat.succ_eq_add_one, htake, hlen, List.getElem?_concat_length]
      simp [Currencies.balance]

theorem inv_init (c : Currencies) (bd : BalanceData K) : Inv c bd (init bd) where
  adb := ⟨_, _, _, _, _, AtomicDoubleBuffer.inv_init bd⟩
  versions := versions_init c bd
  io := rfl
  called := le_rfl
  caller _ h := by cases h
  fetches _ h := absurd h List.not_mem_nil
  loads := rfl

/-- A step of the connector is a step of its buffer. -/
theorem Step.adb (h : Step c s a s') (hc : Apart s a) :
    ∃ b, AtomicDoubleBuffer.Apart s.adb b ∧ AtomicDoubleBuffer.Step s.adb b s'.adb := by
  cases h with
  | bootstrap usd token adb hio h => exact ⟨.storeEnter (pair usd token), trivial, h⟩
  | message ccy avail adb hio h => exact ⟨.loadEnter .io, trivial, h⟩
  | change u bd since adb hio hr h => exact ⟨.storeEnter (c.apply bd u), trivial, h⟩
  | fetch adb h => exact ⟨.loadEnter .caller, trivial, h⟩
  | exchange u adb hio h => exact ⟨.storeExchange, trivial, h⟩
  | update adb h => exact ⟨.storeUpdate, trivial, h⟩
  | fetched slot i out since adb hr h => exact ⟨.loadReturn .caller, trivial, h⟩
  | inner b adb hb h => exact ⟨b, hc, h⟩

section

variable {b : AtomicDoubleBuffer.Act 2 K Thread} {adb : AtomicDoubleBuffer.State 2 K Thread}

/-- What a load that is going on has seen is processed before it chooses its slot. -/
theorem Inv.caller_step (hI : Inv c bd s) (h : AtomicDoubleBuffer.Step s.adb b adb) (since : ℕ)
    (hs : (adb.reader .caller).since? = some since) : s.called ≤ since := by
  rcases h.since hs with hs | rfl
  · exact hI.caller since hs
  · rw [hI.versions.last]
    exact hI.called

/-- Only the writer's exchange publishes. -/
theorem published_eq (h : AtomicDoubleBuffer.Step s.adb b adb) (hb : b ≠ .storeExchange) :
    adb.published = s.adb.published := by
  cases h with
  | storeExchange val hw => exact absurd rfl hb
  | _ => rfl

/-- An inner step of a `store` is the write of a word. -/
theorem storeWord_of_inner (hb : inner b = true) (hl : b.loader = none) : b = .storeWord := by
  cases b with
  | storeWord => rfl
  | storeEnter | storeExchange | storeUpdate => cases hb
  | _ => cases hl

/-- The argument of the store stays through an inner step. -/
theorem writing_of_inner (h : AtomicDoubleBuffer.Step s.adb b adb) (hb : inner b = true)
    {val : BalanceData K} {i : ℕ} (hw : adb.writer = .writing val i) :
    ∃ j, s.adb.writer = .writing val j := by
  cases hl : b.loader with
  | none =>
    obtain rfl := storeWord_of_inner hb hl
    cases h with
    | storeWord val' j hw' _ =>
      obtain ⟨rfl, -⟩ := AtomicDoubleBuffer.StorePc.writing.inj hw
      exact ⟨j, hw'⟩
  | some t => exact ⟨i, (h.of_load hl).1 ▸ hw⟩

/-- While no `store` is under way, an inner step begins none. -/
theorem idle_of_inner (h : AtomicDoubleBuffer.Step s.adb b adb) (hb : inner b = true)
    (hw : s.adb.writer = .idle) : adb.writer = .idle := by
  cases hl : b.loader with
  | none =>
    obtain rfl := storeWord_of_inner hb hl
    cases h with
    | storeWord val' j hw' _ =>
      rw [hw] at hw'
      cases hw'
  | some t => exact (h.of_load hl).1.trans hw

/-- The io thread's load ends with all updates processed. -/
theorem IoOk.inner (hI : Inv c bd s) (h : AtomicDoubleBuffer.Step s.adb b adb)
    (hb : GateBalance.inner b = true)
    (hadb : ∃ w r shared fresh k, AtomicDoubleBuffer.Inv adb w r shared fresh k) :
    IoOk c bd { s with adb := adb } := by
  have hio := hI.io
  have hpub := published_eq h (fun he => by rw [he] at hb; cases hb)
  unfold IoOk at hio ⊢
  simp only
  split at hio
  · exact idle_of_inner h hb hio
  · obtain ⟨hw, hsince, hret⟩ := hio
    have hsince' : ∀ since, (adb.reader .io).since? = some since → since = s.processed.length := by
      intro since hs
      rcases h.since hs with hs | rfl
      · exact hsince since hs
      · exact hI.versions.last
    refine ⟨idle_of_inner h hb hw, hsince', fun out since hr => ?_⟩
    rcases h.returned hr with hr | hl
    · exact hret out since hr
    · obtain ⟨w, r, shared, fresh, k, hA⟩ := hadb
      have hval := (hA.loads _ hl).1
      rw [hsince' since (by rw [hr]; rfl), hpub, hI.versions.value _ le_rfl, List.take_length] at hval
      exact (Option.some.inj hval).symm
  · exact fun val i hw => let ⟨j, hj⟩ := writing_of_inner h hb hw; hio val j hj

/-- Only the end of the caller's load completes a call of it. -/
theorem loads_kept (h : AtomicDoubleBuffer.Step s.adb b adb) (hb : b ≠ .loadReturn .caller) :
    (adb.loads.filter fun l => l.thread = .caller).map (fun l => (l.since, l.out)) =
      (s.adb.loads.filter fun l => l.thread = .caller).map fun l => (l.since, l.out) := by
  cases h with
  | loadReturn t slot out since ht =>
    cases t with
    | io =>
      have hio : [(⟨.io, since, out⟩ : AtomicDoubleBuffer.Loaded 2 K Thread)].filter
          (fun l => l.thread = .caller) = [] := rfl
      rw [List.filter_append, hio, List.append_nil]
    | caller => exact absurd rfl hb
  | _ => rfl

/-- A step of the caller's load is nothing to the io thread. -/
theorem IoOk.caller (h : IoOk c bd s) (hs : AtomicDoubleBuffer.Step s.adb b adb)
    (hb : b.loader = some .caller) : IoOk c bd { s with adb := adb } := by
  obtain ⟨hw, -, -, hreader⟩ := hs.of_load hb
  unfold IoOk at h ⊢
  simp only [hw, hreader .io (by decide)]
  exact h

/-- The io thread enters `store`. -/
theorem IoOk.storeEnter {val : BalanceData K} {u : Update K}
    (hval : val = c.apply (c.balance bd s.processed) u)
    (hs : AtomicDoubleBuffer.Step s.adb (.storeEnter val) adb) :
    IoOk c bd { s with adb := adb, io := .storing u } := by
  cases hs with
  | storeEnter val hw =>
    intro val' i hw'
    obtain ⟨rfl, -⟩ := AtomicDoubleBuffer.StorePc.writing.inj hw'
    exact hval

/-- The io thread enters `load`. -/
theorem IoOk.loadEnter {u : Update K} (h : IoOk c bd s) (hio : s.io = .idle)
    (hs : AtomicDoubleBuffer.Step s.adb (.loadEnter .io) adb) :
    IoOk c bd { s with adb := adb, io := .loading u } := by
  rw [IoOk, hio] at h
  have hw := (hs.of_load rfl).1.trans h
  cases hs with
  | loadEnter t ht =>
    refine ⟨hw, fun since hs => ?_, fun out since hr => ?_⟩
    · rw [AtomicDoubleBuffer.move_reader_self] at hs
      cases hs
    · rw [AtomicDoubleBuffer.move_reader_self] at hr
      cases hr

/-- A step that processes no update and completes no call. -/
theorem Inv.adb_step (hI : Inv c bd s) (h : AtomicDoubleBuffer.Step s.adb b adb)
    (hadb : ∃ w r shared fresh k, AtomicDoubleBuffer.Inv adb w r shared fresh k)
    (hx : b ≠ .storeExchange) (hl : b ≠ .loadReturn .caller) {io : IoPc K}
    (hio : IoOk c bd { s with adb := adb, io := io }) : Inv c bd { s with adb := adb, io := io } where
  adb := hadb
  versions := by
    rw [published_eq h hx]
    exact hI.versions
  io := hio
  called := hI.called
  caller := hI.caller_step h
  fetches := hI.fetches
  loads := (hI.loads).trans (loads_kept h hl).symm

/-- An update is processed. -/
theorem Inv.exchange (hI : Inv c bd s) {u : Update K} (hu : s.io = .storing u)
    (h : AtomicDoubleBuffer.Step s.adb .storeExchange adb)
    (hadb : ∃ w r shared fresh k, AtomicDoubleBuffer.Inv adb w r shared fresh k) :
    Inv c bd { s with adb := adb, processed := s.processed ++ [u] } := by
  have hval := hI.io
  rw [IoOk, hu] at hval
  have hcaller := hI.caller_step h
  have hloads := loads_kept h nofun
  cases h with
  | storeExchange val hw =>
    refine ⟨hadb, ?_, ?_, ?_, hcaller, hI.fetches, hI.loads.trans hloads.symm⟩
    · simp only
      rw [hval val _ hw]
      exact hI.versions.append u
    · rw [IoOk, hu]
      intro val' i hw'
      cases hw'
    · simp only [List.length_append, List.length_singleton]
      exact Nat.le_succ_of_le hI.called

/-- A call of the caller begins. -/
theorem Inv.fetch (hI : Inv c bd s) (h : AtomicDoubleBuffer.Step s.adb (.loadEnter .caller) adb)
    (hadb : ∃ w r shared fresh k, AtomicDoubleBuffer.Inv adb w r shared fresh k) :
    Inv c bd { s with adb := adb, called := s.processed.length } := by
  obtain ⟨hadb, hversions, hio, -, -, hfetches, hloads⟩ :=
    hI.adb_step h hadb nofun nofun (hI.io.caller h rfl)
  refine ⟨hadb, hversions, hio, le_rfl, fun since hs => ?_, hfetches, hloads⟩
  cases h with
  | loadEnter t ht =>
    rw [AtomicDoubleBuffer.move_reader_self] at hs
    cases hs

/-- A call of the caller ends. -/
theorem Inv.fetched (hI : Inv c bd s) {slot : UInt32} {i since : ℕ} {out : BalanceData K}
    (hr : s.adb.reader .caller = .reading slot i out since)
    (h : AtomicDoubleBuffer.Step s.adb (.loadReturn .caller) adb)
    (hadb : ∃ w r shared fresh k, AtomicDoubleBuffer.Inv adb w r shared fresh k) :
    Inv c bd { s with adb := adb, fetches := s.fetches ++ [⟨s.called, since, out⟩] } := by
  refine ⟨hadb, ?_, hI.io.caller h rfl, hI.called, hI.caller_step h, fun f hf => ?_, ?_⟩
  · rw [published_eq h nofun]
    exact hI.versions
  · rcases List.mem_append.mp hf with hf | hf
    · exact hI.fetches f hf
    · rw [List.mem_singleton.mp hf]
      exact hI.caller since (by rw [hr]; rfl)
  · cases h with
    | loadReturn t slot' out' since' ht =>
      rw [hr] at ht
      cases ht
      simp only [List.map_append, List.filter_append, hI.loads]
      rfl

end

/-- **One step** keeps the invariant, where the loads keep apart: those of the buffer by its own
invariant, those of the io thread by the update that it is in. -/
theorem inv_step (hI : Inv c bd s) (hc : Apart s a) (hs : Step c s a s') : Inv c bd s' := by
  obtain ⟨b, hb, hstep⟩ := hs.adb hc
  have hadb := AtomicDoubleBuffer.inv_step hI.adb hb hstep
  cases hs with
  | bootstrap usd token adb hio h =>
    exact hI.adb_step h hadb nofun nofun (.storeEnter rfl h)
  | message ccy avail adb hio h =>
    exact hI.adb_step h hadb nofun nofun (hI.io.loadEnter hio h)
  | change u out since adb hio hr h =>
    have hload := hI.io
    rw [IoOk, hio] at hload
    refine hI.adb_step h hadb nofun nofun (.storeEnter ?_ h)
    rw [hload.2.2 out since hr]
  | fetch adb h => exact hI.fetch h hadb
  | exchange u adb hio h => exact hI.exchange hio h hadb
  | update adb h =>
    refine hI.adb_step h hadb nofun nofun ?_
    cases h with
    | storeUpdate old hw => rfl
  | fetched slot i out since adb hr h => exact hI.fetched hr h hadb
  | inner b adb hb h =>
    exact hI.adb_step h hadb (fun he => by rw [he] at hb; cases hb)
      (fun he => by rw [he] at hb; cases hb) (IoOk.inner hI h hb hadb)

theorem inv_of_reaches (h : Reaches (Fires (next c)) Apart (init bd) s) : Inv c bd s :=
  h.inv (inv_init c bd) fun _ _ _ hI hc hs => inv_step hI hc (step_of_next hs)

/-- **No balance is lost**, torn or rolled back, in every run in which a load that has found new
data overlaps no other one. The double buffer is made for one reader; the callers of `fetch_balance`
may be many, and two that swap at once hand the writer the slot that one of them reads. -/
theorem balance_kept (c : Currencies) (bd : BalanceData K) {s : State K}
    (h : Reaches (Fires (next c)) Apart (init bd) s) : Kept c bd s := by
  have hI := inv_of_reaches h
  obtain ⟨w, r, shared, fresh, k, hA⟩ := hI.adb
  have hmem : ∀ f ∈ s.fetches, ∃ l ∈ s.adb.loads, l.since = f.since ∧ l.out = f.out := by
    intro f hf
    have hpair := List.mem_map_of_mem (f := fun f : Fetch K => (f.since, f.out)) hf
    rw [hI.loads] at hpair
    obtain ⟨l, hl, he⟩ := List.mem_map.mp hpair
    exact ⟨l, (List.mem_filter.mp hl).1, (Prod.mk.inj he).1, (Prod.mk.inj he).2⟩
  refine ⟨fun val i slot j out since hw hr => ?_, fun f hf => ?_, hI.fetches, ?_⟩
  · have hwriter := hA.writer
    have hreader := hA.readers .caller
    rw [AtomicDoubleBuffer.WriterOk, hw] at hwriter
    rw [hr] at hreader
    rw [hwriter.1, hreader.1]
    exact hA.slots.distinct.1
  · obtain ⟨l, hl, hsince, hout⟩ := hmem f hf
    have hval := (hA.loads l hl).1
    rw [hsince, hout] at hval
    have hle : f.since ≤ s.processed.length := by
      have := (List.getElem?_eq_some_iff.mp hval).1
      rw [hI.versions.length] at this
      omega
    rw [hI.versions.value _ hle] at hval
    exact ⟨hle, (Option.some.inj hval).symm⟩
  · have hmap : s.fetches.map Fetch.since =
        (s.adb.loads.filter fun l => l.thread = .caller).map AtomicDoubleBuffer.Loaded.since := by
      have := congrArg (List.map Prod.fst) hI.loads
      rwa [List.map_map, List.map_map] at this
    rw [hmap]
    exact hA.monotone.sublist ((List.filter_sublist).map _)

/-! ## Two runs -/

/-- A whole `store` of two words. -/
def storeSteps : List (Act K) :=
  [.step .storeWord, .step .storeWord, .step .storeExchange, .step .storeUpdate]

/-- A load's exchange and its update of `reader_slot_`. -/
def swapSteps (t : Thread) : List (Act K) := [.step (.loadExchange t), .step (.loadUpdate t)]

/-- The words of a load, once its slot is chosen. -/
def readSteps (t : Thread) (bd : BalanceData K) : List (Act K) :=
  [.step (.loadIndex t bd), .step (.loadWord t), .step (.loadWord t), .step (.loadReturn t)]

/-- A whole `load` that finds new data, once it is entered. -/
def loadSteps (t : Thread) (bd : BalanceData K) : List (Act K) :=
  [.step (.loadPeek t), .step (.loadOffer t)] ++ swapSteps t ++ readSteps t bd

/-- The currencies of a connector for `ALKIMI/USDT`. -/
def alkimi_usdt : Currencies := ⟨"USDT", "ALKIMI"⟩

/-- A bootstrap of 5 USD and 6 tokens, a fetch, a message of 7 USD, and another fetch. -/
def inTurn : List (Act ℕ) :=
  .bootstrap 5 6 :: storeSteps ++ .fetch :: loadSteps .caller (pair 0 0) ++
    [.message "USDT" 7, .step (.loadPeek .io)] ++ readSteps .io (pair 0 0) ++
    .change :: storeSteps ++ .fetch :: loadSteps .caller (pair 0 0)

/-- With the calls in turn the caller gets both balances. -/
theorem balance_kept_in_turn : ∃ s : State ℕ,
    s.fetches.map Fetch.out = [pair 5 6, pair 7 6] ∧ Kept alkimi_usdt (pair 0 0) s := by
  have hplay : (play (next alkimi_usdt) Apart (init (pair 0 0)) inTurn).any
      (fun s => decide (s.fetches.map Fetch.out = [pair 5 6, pair 7 6])) = true := by
    decide +kernel
  obtain ⟨s, hs, hp⟩ := (Option.any_eq_true _ _).mp hplay
  exact ⟨s, of_decide_eq_true hp, balance_kept alkimi_usdt (pair 0 0) (reaches_of_play hs)⟩

/-- The same bootstrap, which both threads find at the same time: both offer slot 0, and the io
thread, which exchanges second, is left with it. It stores its 7 USD over the initial balance, and
the caller asks again. -/
def overlap : List (Act ℕ) :=
  .bootstrap 5 6 :: storeSteps ++
    [.fetch, .step (.loadPeek .caller), .message "USDT" 7, .step (.loadPeek .io),
      .step (.loadOffer .caller), .step (.loadOffer .io)] ++
    swapSteps .caller ++ readSteps .caller (pair 0 0) ++ swapSteps .io ++ readSteps .io (pair 0 0) ++
    .change :: storeSteps ++ .fetch :: loadSteps .caller (pair 0 0)

/-- **A balance is lost**: after a bootstrap of 5 USD and 6 tokens and a message of 7 USD the caller
gets 7 USD and no token. -/
theorem balance_lost :
    ¬∀ (c : Currencies) (bd : BalanceData ℕ) (s : State ℕ),
      Reaches (Fires (next c)) (fun _ _ => True) (init bd) s → Kept c bd s := by
  intro h
  have hplay : (play (next alkimi_usdt) (fun _ _ => True) (init (pair 0 0)) overlap).any
      (fun s => s.fetches.any fun f => decide
        (f.out ≠ alkimi_usdt.balance (pair 0 0) (s.processed.take f.since))) = true := by
    decide +kernel
  obtain ⟨s, hs, hp⟩ := (Option.any_eq_true _ _).mp hplay
  obtain ⟨f, hf, hne⟩ := List.any_eq_true.mp hp
  exact of_decide_eq_true hne ((h _ _ s (reaches_of_play hs)).applied f hf).2

end Meridian.GateBalance
