import Meridian.Core.Feeds
import Meridian.Quant.RegimeFilter

/-!
# The regime master

Model of `core/regime_master.py`: the price loop pushes its states into a queue of ten, one task
takes them out, updates the detector, reconciles what it says with the ZZ regime and broadcasts the
result to all bots (`Feeds`). `_process_state` does not wait for anything but a lock that nobody
else holds, so it is one step. `stop` and `start_task` may come at any time; the bots are those of
the orchestrator, which adds them all before it starts the task.

Results:
* `params_of_bots`: in any run every bot ticks with parameters that a valid regime state has, within
  fixed bounds;
* `market_decides`: a calm market and a violent one are told from the state alone, whatever the master
  has processed before;
* `never_trending`: a market whose price does not rise by more than 1% from one processed state to
  the next is never TRENDING, and no bot leans its inventory;
* `confidence_forgets`: two masters that process the same states come to the same confidence.
-/

namespace Meridian.RegimeMaster

open Run Feeds
open Meridian.Feeds (RegimeState MmParams RANGING DEFAULT_REGIME_STATE)

/-! ## Reconciling -/

/-- `MM_PARAMETERS["TRENDING"]` -/
def TRENDING : MmParams :=
  { spread_mult := 3 / 2, depth_mult := 7 / 10, aggressiveness := 2 / 5, inventory_skew := 1 / 5 }

/-- `MM_PARAMETERS["HIGH_VOL"]` -/
def HIGH_VOL : MmParams :=
  { spread_mult := 3, depth_mult := 3 / 10, aggressiveness := 1 / 10, inventory_skew := 0 }

/-- `MM_PARAMETERS["THIN_BOOK"]` -/
def THIN_BOOK : MmParams :=
  { spread_mult := 2, depth_mult := 1 / 2, aggressiveness := 0, inventory_skew := 0 }

/-- `_CONSERVATIVE_PARAMS` -/
def CONSERVATIVE_PARAMS : MmParams :=
  { spread_mult := 2, depth_mult := 1 / 2, aggressiveness := 3 / 10, inventory_skew := 0 }

/-- `get_mm_parameters(regime)`: `MM_PARAMETERS.get(name, MM_PARAMETERS['RANGING'])`. -/
def get_mm_parameters (name : String) : MmParams :=
  if name = "TRENDING" then TRENDING
  else if name = "HIGH_VOL" then HIGH_VOL
  else if name = "THIN_BOOK" then THIN_BOOK
  else RANGING

/-- `_zz_to_hmm_regime` -/
def zz_to_hmm_regime (zz_regime : String) : String :=
  if "trending".toList <:+: zz_regime.toList.map Char.toLower then "TRENDING" else "RANGING"

/-- `_regimes_agree` -/
def regimes_agree (hmm_regime zz_regime : String) : Bool :=
  if hmm_regime = "HIGH_VOL" ∨ hmm_regime = "THIN_BOOK" then true
  else hmm_regime == zz_to_hmm_regime zz_regime

/-! ## The master -/

/-- A state of the price loop, with its timestamp. -/
structure Pushed where
  state : GlobalState
  timestamp : ℚ
  deriving DecidableEq

/-- `RegimeMaster` (`regime_master.py:134-148`), and the bots it broadcasts to. History: the states
it has processed, the latest first. -/
structure Sys (ι : Type) where
  detector : RegimeDetector ℚ := .new
  current : RegimeState := DEFAULT_REGIME_STATE
  pending_queue : BoundedQueue Pushed 10 := .empty
  running : Bool := false
  prev_mid : Option ℚ := none
  feeds : Feeds.State ι := {}
  processed : List Pushed := []

/-- `price_change_rate` -/
def price_change_rate (prev_mid : Option ℚ) (global_mid : ℚ) : ℚ :=
  match prev_mid with
  | some prev => if 0 < prev then (global_mid - prev) / prev else 0
  | none => 0

/-- The features of a state. -/
def update_detector (detector : RegimeDetector ℚ) (prev_mid : Option ℚ) (state : GlobalState) :
    RegimeDetector ℚ :=
  detector.update_from_floats state.volatility (state.zz_vol * 100) 0 0
    (price_change_rate prev_mid state.global_mid)

/-- HMM and ZZ reconciled (`regime_master.py:231-252`). -/
def reconcile (detector : RegimeDetector ℚ) (p : Pushed) : RegimeState :=
  let hmm_regime := detector.get_regime
  let zz_regime := if p.state.zz_regime = "" then "choppy" else p.state.zz_regime
  let agreement := regimes_agree hmm_regime zz_regime
  { regime := hmm_regime
    confidence := detector.get_regime_confidence
    zz_regime := zz_regime
    agreement := agreement
    mm_params :=
      if agreement = true ∨ hmm_regime = "HIGH_VOL" ∨ hmm_regime = "THIN_BOOK" then
        get_mm_parameters hmm_regime
      else CONSERVATIVE_PARAMS
    timestamp := p.timestamp }

/-- The end of `_tick_prices`, a round of `_regime_loop` that finds a state, `start_task`, `stop`, and
the steps of the bots. A round that times out changes nothing. -/
inductive Act (ι : Type) where
  | prices (p : Pushed)
  | process
  | start_task
  | stop
  | dequeue (i : ι)
  | start (i : ι)
  | finish (i : ι)

variable {ι : Type}

section Steps

variable [DecidableEq ι]

/-- The bots make a step. -/
def Sys.bots (s : Sys ι) (a : Feeds.Act ι) : Option (Sys ι) :=
  (Feeds.next s.feeds a).map fun feeds => { s with feeds := feeds }

/-- `_process_state`, with the rest of the queue. -/
def Sys.process_state (s : Sys ι) (p : Pushed) (rest : BoundedQueue Pushed 10) : Option (Sys ι) :=
  let detector := update_detector s.detector s.prev_mid p.state
  let new_state := reconcile detector p
  { s with
    detector := detector
    current := new_state
    pending_queue := rest
    prev_mid := some p.state.global_mid
    processed := p :: s.processed }.bots (.broadcast new_state)

/-- One step. -/
def next (s : Sys ι) : Act ι → Option (Sys ι)
  | .prices p => { s with pending_queue := s.pending_queue.offer p }.bots (.publish p.state)
  | .process =>
    if s.running then
      match s.pending_queue.get_nowait with
      | some (p, rest) => s.process_state p rest
      | none => none
    else none
  | .start_task => some { s with running := true }
  | .stop => some { s with running := false }
  | .dequeue i => s.bots (.dequeue i)
  | .start i => s.bots (.start i)
  | .finish i => s.bots (.finish i)

/-! ## What a step does -/

/-- A step in which the master processes a state: the detector observes it, the result is reconciled
with the ZZ regime and broadcast. -/
structure Processed (s : Sys ι) (p : Pushed) (s' : Sys ι) : Prop where
  detector : s'.detector = update_detector s.detector s.prev_mid p.state
  current : s'.current = reconcile s'.detector p
  prev_mid : s'.prev_mid = some p.state.global_mid
  processed : s'.processed = p :: s.processed
  log : s'.feeds.log = s'.current :: s.feeds.log

/-- A step in which no state is processed: all that the master has learned stays as it is. -/
structure Quiet (s s' : Sys ι) : Prop where
  detector : s'.detector = s.detector
  current : s'.current = s.current
  prev_mid : s'.prev_mid = s.prev_mid
  processed : s'.processed = s.processed
  log : s'.feeds.log = s.feeds.log

variable {s s' : Sys ι} {a : Act ι} {cond : Sys ι → Act ι → Prop}

theorem log_of_next {f f' : Feeds.State ι} {b : Feeds.Act ι} (h : Feeds.next f b = some f')
    (hb : ∀ rs, b ≠ .broadcast rs) : f'.log = f.log := by
  cases b with
  | publish state =>
    obtain rfl := Option.some.inj h
    rfl
  | broadcast rs => exact absurd rfl (hb rs)
  | dequeue i =>
    simp only [Feeds.next] at h
    split at h
    · cases h
    · split at h
      · obtain rfl := Option.some.inj h
        rfl
      · cases h
  | start i =>
    simp only [Feeds.next] at h
    split at h
    · obtain rfl := Option.some.inj h
      rfl
    · cases h
  | finish i =>
    simp only [Feeds.next] at h
    split at h
    · obtain rfl := Option.some.inj h
      rfl
    · cases h

theorem quiet_bots {b : Feeds.Act ι} (h : s.bots b = some s') (hb : ∀ rs, b ≠ .broadcast rs) :
    Quiet s s' := by
  obtain ⟨feeds, hf, rfl⟩ := Option.map_eq_some_iff.mp h
  exact ⟨rfl, rfl, rfl, rfl, log_of_next hf hb⟩

theorem processed_process_state {p : Pushed} {rest : BoundedQueue Pushed 10}
    (h : s.process_state p rest = some s') : Processed s p s' := by
  unfold Sys.process_state at h
  obtain ⟨feeds, hf, rfl⟩ := Option.map_eq_some_iff.mp h
  simp only [Feeds.next, Option.some.injEq] at hf
  subst hf
  constructor <;> dsimp only

/-- **One step** processes the oldest pending state or none. -/
theorem next_cases (h : next s a = some s') :
    (∃ p rest, a = .process ∧ s.pending_queue.get_nowait = some (p, rest) ∧ Processed s p s') ∨
      Quiet s s' := by
  cases a with
  | prices p =>
    have hq : Quiet { s with pending_queue := s.pending_queue.offer p } s' :=
      quiet_bots h fun _ => nofun
    exact .inr ⟨hq.detector, hq.current, hq.prev_mid, hq.processed, hq.log⟩
  | process =>
    simp only [next] at h
    split at h
    · split at h
      · rename_i p rest hq
        exact .inl ⟨p, rest, rfl, hq, processed_process_state h⟩
      · cases h
    · cases h
  | start_task =>
    obtain rfl := Option.some.inj h
    exact .inr ⟨rfl, rfl, rfl, rfl, rfl⟩
  | stop =>
    obtain rfl := Option.some.inj h
    exact .inr ⟨rfl, rfl, rfl, rfl, rfl⟩
  | dequeue i => exact .inr (quiet_bots h fun _ => nofun)
  | start i => exact .inr (quiet_bots h fun _ => nofun)
  | finish i => exact .inr (quiet_bots h fun _ => nofun)

/-- The bots make a step of their own or rest. -/
theorem feeds_next (h : next s a = some s') :
    s'.feeds = s.feeds ∨ ∃ b, Feeds.next s.feeds b = some s'.feeds := by
  have hbots : ∀ {x : Sys ι} {b : Feeds.Act ι}, x.feeds = s.feeds → x.bots b = some s' →
      ∃ b, Feeds.next s.feeds b = some s'.feeds := by
    intro x b hx hb
    obtain ⟨feeds, hf, rfl⟩ := Option.map_eq_some_iff.mp hb
    exact ⟨b, hx ▸ hf⟩
  cases a with
  | prices p => exact .inr (hbots (by dsimp only) h)
  | process =>
    simp only [next] at h
    split at h
    · split at h
      · unfold Sys.process_state at h
        exact .inr (hbots (by dsimp only) h)
      · cases h
    · cases h
  | start_task =>
    obtain rfl := Option.some.inj h
    exact .inl rfl
  | stop =>
    obtain rfl := Option.some.inj h
    exact .inl rfl
  | dequeue i => exact .inr (hbots rfl h)
  | start i => exact .inr (hbots rfl h)
  | finish i => exact .inr (hbots rfl h)

/-- The bots' part of a run is a run of the bots. -/
theorem feeds_reaches (h : Reaches (Fires next) cond ({} : Sys ι) s) :
    Reaches (Fires Feeds.next) (fun _ _ => True) ({} : Feeds.State ι) s.feeds :=
  h.inv (I := fun s => Reaches (Fires Feeds.next) (fun _ _ => True) {} s.feeds) Reaches.refl
    fun s a s' hs _ hn => by
      obtain heq | ⟨b, hb⟩ := feeds_next hn
      · rw [heq]
        exact hs
      · exact hs.tail trivial hb

end Steps

/-! ## The detector of the master -/

/-- The observation that a state makes. -/
def observation (prev_mid : Option ℚ) (state : GlobalState) : Fin N_OBS :=
  balanced ⟨_, discretise_price_vol_lt state.volatility⟩
    ⟨_, discretise_bid_ask_spread_lt (state.zz_vol * 100)⟩
    ⟨_, discretise_price_change_rate_lt (price_change_rate prev_mid state.global_mid)⟩

theorem update_detector_eq (detector : RegimeDetector ℚ) (prev_mid : Option ℚ)
    (state : GlobalState) :
    update_detector detector prev_mid state = detector.observe (observation prev_mid state) := by
  rw [update_detector, RegimeDetector.update_from_floats_eq]
  congr 1
  refine Fin.ext ?_
  simp only [observation, balanced, observation_from_floats, discretise_ob_imbalance_zero,
    discretise_funding_rate_zero]

/-- The observations that these states make, the latest first. -/
def observations : List Pushed → List (Fin N_OBS)
  | [] => []
  | p :: older =>
    observation (older.head?.map fun q => q.state.global_mid) p.state :: observations older

/-- A valid regime state: a regime by its name, a confidence that the largest of four can be, and
the agreement and the parameters that follow from them. -/
structure Valid (rs : RegimeState) : Prop where
  regime : ∃ i, rs.regime = REGIME_NAMES i
  confidence : 1 / 4 ≤ rs.confidence ∧ rs.confidence ≤ 1
  agreement : rs.agreement = regimes_agree rs.regime rs.zz_regime
  mm_params : rs.mm_params =
    if rs.agreement = true then get_mm_parameters rs.regime else CONSERVATIVE_PARAMS

/-- The master's detector has seen what the master has processed, and what it has broadcast is
valid. -/
structure Inv (s : Sys ι) : Prop where
  detector : s.detector = (observations s.processed).foldr (fun o d => d.observe o) .new
  prev_mid : s.prev_mid = s.processed.head?.map fun p => p.state.global_mid
  confidence : s.processed ≠ [] → s.current.confidence = s.detector.get_regime_confidence
  current : s.current = currentRegime s.feeds.log
  valid : ∀ rs ∈ s.feeds.log, Valid rs

variable {s s' : Sys ι}

theorem untrained_foldr (os : List (Fin N_OBS)) :
    (os.foldr (fun o d => d.observe o) (.new : RegimeDetector ℚ)).Untrained := by
  rw [← List.foldl_reverse]
  exact RegimeDetector.untrained_new.foldl_observe _

theorem Inv.untrained (h : Inv s) : s.detector.Untrained := by
  rw [h.detector]
  exact untrained_foldr _

theorem valid_default : Valid DEFAULT_REGIME_STATE where
  regime := ⟨ranging, rfl⟩
  confidence := by norm_num [DEFAULT_REGIME_STATE]
  agreement := by decide
  mm_params := by decide +kernel

/-- What the master makes of a belief is valid. -/
theorem valid_reconcile {detector : RegimeDetector ℚ} (h : detector.Untrained) (p : Pushed) :
    Valid (reconcile detector p) where
  regime := ⟨_, rfl⟩
  confidence := h.sound.belief.maximum_mem
  agreement := rfl
  mm_params := by
    unfold reconcile
    dsimp only
    refine if_congr (or_iff_left_of_imp fun h => ?_) rfl rfl
    rw [regimes_agree, if_pos h]

theorem Inv.processed {p : Pushed} (h : Inv s) (hp : Processed s p s') : Inv s' := by
  have hdetector : s'.detector = s.detector.observe (observation s.prev_mid p.state) := by
    rw [hp.detector, update_detector_eq]
  refine ⟨?_, ?_, fun _ => ?_, ?_, ?_⟩
  · rw [hdetector, hp.processed, observations, List.foldr_cons, ← h.detector, ← h.prev_mid]
  · rw [hp.prev_mid, hp.processed]
    rfl
  · rw [hp.current]
    rfl
  · rw [hp.log]
    rfl
  · rw [hp.log, List.forall_mem_cons, hp.current, hdetector]
    exact ⟨valid_reconcile (h.untrained.observe _) p, h.valid⟩

theorem Inv.quiet (h : Inv s) (hq : Quiet s s') : Inv s' := by
  refine ⟨?_, ?_, fun hne => ?_, ?_, ?_⟩
  · rw [hq.detector, hq.processed, h.detector]
  · rw [hq.prev_mid, hq.processed, h.prev_mid]
  · rw [hq.current, hq.detector, h.confidence (hq.processed ▸ hne)]
  · rw [hq.current, hq.log, h.current]
  · rw [hq.log]
    exact h.valid

variable [DecidableEq ι] {a : Act ι} {cond : Sys ι → Act ι → Prop}

/-- **The invariant holds in every run**, by induction on its steps: one that processes a state
broadcasts a valid one, and the others leave what there is. -/
theorem inv (h : Reaches (Fires next) cond ({} : Sys ι) s) : Inv s := by
  refine h.inv (I := Inv) ⟨rfl, rfl, fun hne => absurd rfl hne, rfl,
    fun _ hrs => absurd hrs List.not_mem_nil⟩ fun s a s' hs _ hn => ?_
  obtain ⟨p, rest, -, -, hp⟩ | hq := next_cases hn
  · exact hs.processed hp
  · exact hs.quiet hq

/-! ## What the bots are told -/

/-- What a bot has accepted, now and at each of its drains, is the default or was broadcast. -/
structure Told (log : List RegimeState) (b : Bot) : Prop where
  accepted : b.accepted = DEFAULT_REGIME_STATE ∨ b.accepted ∈ log
  drains : ∀ d ∈ b.drains, d.accepted = DEFAULT_REGIME_STATE ∨ d.accepted ∈ log

theorem Told.step {n n' : ℕ} {log log' : List RegimeState} {b b' : Bot}
    (hs : Feeds.Step n log b n' log' b') (h : Told log b) : Told log' b' := by
  cases hs with
  | publish state => exact ⟨h.accepted, h.drains⟩
  | broadcast rs =>
    refine ⟨?_, fun d hd => (h.drains d hd).imp_right (List.mem_cons_of_mem rs)⟩
    unfold Bot.broadcast
    dsimp only
    split
    · exact h.accepted.imp_right (List.mem_cons_of_mem rs)
    · exact .inr List.mem_cons_self
  | dequeue p queue hq => exact ⟨h.accepted, h.drains⟩
  | start p hp =>
    refine ⟨h.accepted, fun d hd => ?_⟩
    rcases List.mem_cons.mp hd with rfl | hd
    · exact h.accepted
    · exact h.drains d hd
  | finish => exact ⟨h.accepted, h.drains⟩
  | idle => exact h

/-- The parameters of every tick are those of the default or of a broadcast. -/
theorem drained (h : Reaches (Fires next) cond ({} : Sys ι) s) (i : ι) {d : Drained}
    (hd : d ∈ (s.feeds.bot i).drains) : ∃ rs, (rs = DEFAULT_REGIME_STATE ∨ rs ∈ s.feeds.log) ∧
      d.mm_params = rs.mm_params := by
  have hfeeds := feeds_reaches h
  have htold : Told s.feeds.log (s.feeds.bot i) :=
    bot_inv (I := fun _ log b => Told log b) i
      ⟨.inl rfl, fun _ hd => absurd hd List.not_mem_nil⟩ (fun _ _ _ _ _ _ => Told.step) hfeeds
  exact ⟨d.accepted, htold.drains d hd, ((regimes hfeeds i).drained d hd).1⟩

/-- The bounds of the parameters that the table and `CONSERVATIVE_PARAMS` have. -/
structure InRange (p : MmParams) : Prop where
  spread_mult : 1 ≤ p.spread_mult ∧ p.spread_mult ≤ 3
  depth_mult : 3 / 10 ≤ p.depth_mult ∧ p.depth_mult ≤ 1
  aggressiveness : 0 ≤ p.aggressiveness ∧ p.aggressiveness ≤ 4 / 5
  inventory_skew : 0 ≤ p.inventory_skew ∧ p.inventory_skew ≤ 1 / 5

/-- The parameters of a valid state: a regime's own, or the conservative ones. -/
theorem Valid.params_cases {rs : RegimeState} (h : Valid rs) :
    (∃ i, rs.regime = REGIME_NAMES i ∧ rs.mm_params = get_mm_parameters (REGIME_NAMES i)) ∨
      rs.mm_params = CONSERVATIVE_PARAMS := by
  obtain ⟨i, hi⟩ := h.regime
  rw [h.mm_params]
  split
  · exact .inl ⟨i, hi, by rw [hi]⟩
  · exact .inr rfl

theorem forall_states {P : Fin N_STATES → Prop} (h0 : P ranging) (h1 : P trending)
    (h2 : P high_vol) (h3 : P thin_book) : ∀ i, P i := by
  rintro ⟨_ | _ | _ | _ | n, hi⟩
  · exact h0
  · exact h1
  · exact h2
  · exact h3
  · exact absurd hi (by unfold N_STATES; omega)

/-- `MM_PARAMETERS`, all of it. -/
theorem get_mm_parameters_names : get_mm_parameters (REGIME_NAMES ranging) = RANGING ∧
    get_mm_parameters (REGIME_NAMES trending) = TRENDING ∧
    get_mm_parameters (REGIME_NAMES high_vol) = HIGH_VOL ∧
    get_mm_parameters (REGIME_NAMES thin_book) = THIN_BOOK := by decide +kernel

theorem Valid.in_range {rs : RegimeState} (h : Valid rs) : InRange rs.mm_params := by
  obtain ⟨h0, h1, h2, h3⟩ := get_mm_parameters_names
  have hnames : ∀ i, InRange (get_mm_parameters (REGIME_NAMES i)) := by
    refine forall_states ?_ ?_ ?_ ?_
    · rw [h0]
      constructor <;> norm_num [RANGING]
    · rw [h1]
      constructor <;> norm_num [TRENDING]
    · rw [h2]
      constructor <;> norm_num [HIGH_VOL]
    · rw [h3]
      constructor <;> norm_num [THIN_BOOK]
  obtain ⟨i, -, hi⟩ | hcons := h.params_cases
  · rw [hi]
    exact hnames i
  · rw [hcons]
    constructor <;> norm_num [CONSERVATIVE_PARAMS]

/-- **In any run** of price ticks, processing, drains and stops, every state that is broadcast is
valid, and every tick of every bot has the parameters of a valid state, within the bounds, or the
default ones. -/
theorem params_of_bots (h : Reaches (Fires next) (fun _ _ => True) ({} : Sys ι) s) :
    (∀ rs ∈ s.feeds.log, Valid rs) ∧ ∀ i, ∀ d ∈ (s.feeds.bot i).drains,
      (∃ rs, (rs = DEFAULT_REGIME_STATE ∨ rs ∈ s.feeds.log) ∧ Valid rs ∧
        d.mm_params = rs.mm_params) ∧ InRange d.mm_params := by
  have hinv := inv h
  refine ⟨hinv.valid, fun i d hd => ?_⟩
  obtain ⟨rs, hrs, hparams⟩ := drained h i hd
  have hvalid : Valid rs := hrs.elim (fun heq => heq ▸ valid_default) (hinv.valid rs)
  exact ⟨⟨rs, hrs, hvalid, hparams⟩, hparams ▸ hvalid.in_range⟩

/-- A state of a market at this price, with this volatility. -/
def quoted (global_mid volatility : ℚ) : Pushed :=
  { state := { global_mid := global_mid, volatility := volatility, zz_vol := volatility / 10
               zz_regime := "trending_down", hmm_regime := "NORMAL", hmm_regime_confidence := 0 }
    timestamp := 0 }

/-- Two falling prices are processed, then the bot ticks. -/
def falling : List (Act Unit) :=
  [.start_task, .prices (quoted 10 0), .process, .prices (quoted 5 (1 / 10)), .process,
    .dequeue (), .start ()]

theorem params_of_bots_falling : ∃ s : Sys Unit, s.feeds.log.length = 2 ∧
    (∀ rs ∈ s.feeds.log, Valid rs) ∧ ∃ d ∈ (s.feeds.bot ()).drains, InRange d.mm_params := by
  have hplay : (play next (fun _ _ => True) ({} : Sys Unit) falling).any (fun s =>
      decide (s.feeds.log.length = 2) && decide ((s.feeds.bot ()).drains.length = 1)) = true := by
    decide +kernel
  obtain ⟨s, hs, hcheck⟩ := (Option.any_eq_true _ _).mp hplay
  rw [Bool.and_eq_true, decide_eq_true_eq, decide_eq_true_eq] at hcheck
  obtain ⟨hvalid, hparams⟩ := params_of_bots (reaches_of_play hs)
  obtain ⟨d, hd⟩ := List.exists_mem_of_length_pos (hcheck.2 ▸ one_pos)
  exact ⟨s, hcheck.1, hvalid, d, hd, (hparams () d hd).2⟩

/-! ## What the market decides alone -/

/-- Volatility and `zz_vol` are in their lowest bins. -/
def calm (state : GlobalState) : Prop := state.volatility < 1 / 50 ∧ state.zz_vol < 1 / 1000

/-- Volatility and `zz_vol` are in their highest bins. -/
def violent (state : GlobalState) : Prop := 1 / 20 ≤ state.volatility ∧ 1 / 200 ≤ state.zz_vol

omit [DecidableEq ι] in
theorem Inv.regime_of_calm {p : Pushed} (h : Inv s) (hp : Processed s p s') (hcalm : calm p.state) :
    s'.current.regime = "RANGING" := by
  have hpv : discretise_price_vol p.state.volatility = 0 := if_pos (by linarith [hcalm.1])
  have hbas : discretise_bid_ask_spread (p.state.zz_vol * 100) = 0 := if_pos (by linarith [hcalm.2])
  have hargmax : argmax s'.detector.belief = ranging := by
    rw [hp.detector, update_detector_eq]
    refine h.untrained.argmax_of_calm (.inl ?_)
    simp only [hpv, hbas]
  rw [hp.current]
  show REGIME_NAMES (argmax s'.detector.belief) = "RANGING"
  rw [hargmax]
  rfl

omit [DecidableEq ι] in
theorem Inv.regime_of_violent {p : Pushed} (h : Inv s) (hp : Processed s p s')
    (hviolent : violent p.state) : s'.current.regime ≠ "RANGING" := by
  have hpv : discretise_price_vol p.state.volatility = 2 := by
    rw [discretise_price_vol, if_neg (by linarith [hviolent.1]), if_neg (by linarith [hviolent.1])]
  have hbas : discretise_bid_ask_spread (p.state.zz_vol * 100) = 2 := by
    rw [discretise_bid_ask_spread, if_neg (by linarith [hviolent.2]),
      if_neg (by linarith [hviolent.2])]
  have hargmax : argmax s'.detector.belief ≠ ranging := by
    rw [hp.detector, update_detector_eq]
    exact h.untrained.argmax_of_violent _ hpv hbas
  rw [hp.current]
  show REGIME_NAMES (argmax s'.detector.belief) ≠ "RANGING"
  revert hargmax
  generalize argmax s'.detector.belief = i
  revert i
  exact forall_states (fun h => absurd rfl h) (fun _ => by decide) (fun _ => by decide)
    fun _ => by decide

omit [DecidableEq ι] in
theorem Inv.valid_current {p : Pushed} (h : Inv s) (hp : Processed s p s') : Valid s'.current := by
  refine (h.processed hp).valid _ ?_
  rw [hp.log]
  exact List.mem_cons_self

/-- The parameters of a valid state that is not RANGING. -/
theorem Valid.cautious {rs : RegimeState} (h : Valid rs) (hne : rs.regime ≠ "RANGING") :
    3 / 2 ≤ rs.mm_params.spread_mult ∧ rs.mm_params.depth_mult ≤ 7 / 10 ∧
      rs.mm_params.aggressiveness ≤ 2 / 5 := by
  obtain ⟨-, h1, h2, h3⟩ := get_mm_parameters_names
  have hnames : ∀ i, REGIME_NAMES i ≠ "RANGING" →
      3 / 2 ≤ (get_mm_parameters (REGIME_NAMES i)).spread_mult ∧
        (get_mm_parameters (REGIME_NAMES i)).depth_mult ≤ 7 / 10 ∧
        (get_mm_parameters (REGIME_NAMES i)).aggressiveness ≤ 2 / 5 := by
    refine forall_states (fun hne => absurd rfl hne) (fun _ => ?_) (fun _ => ?_) fun _ => ?_
    · rw [h1]
      norm_num [TRENDING]
    · rw [h2]
      norm_num [HIGH_VOL]
    · rw [h3]
      norm_num [THIN_BOOK]
  obtain ⟨i, hregime, hi⟩ | hcons := h.params_cases
  · rw [hi]
    exact hnames i (hregime ▸ hne)
  · rw [hcons]
    norm_num [CONSERVATIVE_PARAMS]

/-- RANGING agrees with what is no trend to ZZ. -/
theorem ranging_agrees_iff (zz_regime : String) :
    regimes_agree "RANGING" zz_regime = true ↔ zz_to_hmm_regime zz_regime ≠ "TRENDING" := by
  have hne : ¬("RANGING" = "HIGH_VOL" ∨ "RANGING" = "THIN_BOOK") := by decide
  have hcases : zz_to_hmm_regime zz_regime = "TRENDING" ∨ zz_to_hmm_regime zz_regime = "RANGING" :=
    ite_eq_or_eq _ _ _
  rw [regimes_agree, if_neg hne]
  rcases hcases with h | h
  · rw [h]
    decide
  · rw [h]
    decide

/-- **A calm market and a violent one are told from the state alone**, whatever the master has
processed before: the one is RANGING, with the parameters of RANGING unless ZZ sees a trend; the other
is not, and every parameter set broadcast then is wider, shallower and less aggressive. -/
theorem market_decides (h : Reaches (Fires next) (fun _ _ => True) ({} : Sys ι) s) {p : Pushed}
    {rest : BoundedQueue Pushed 10} (hp : s.pending_queue.get_nowait = some (p, rest))
    (hs : next s .process = some s') :
    (calm p.state → s'.current.regime = "RANGING" ∧ s'.current.mm_params =
      if zz_to_hmm_regime s'.current.zz_regime = "TRENDING" then CONSERVATIVE_PARAMS else RANGING) ∧
    (violent p.state → s'.current.regime ≠ "RANGING" ∧ 3 / 2 ≤ s'.current.mm_params.spread_mult ∧
      s'.current.mm_params.depth_mult ≤ 7 / 10 ∧ s'.current.mm_params.aggressiveness ≤ 2 / 5) := by
  have hinv := inv h
  have hstep : Processed s p s' := by
    simp only [next, hp] at hs
    split at hs
    · exact processed_process_state hs
    · cases hs
  have hvalid := hinv.valid_current hstep
  refine ⟨fun hcalm => ?_, fun hviolent => ?_⟩
  · have hregime := hinv.regime_of_calm hstep hcalm
    refine ⟨hregime, ?_⟩
    rw [hvalid.mm_params, hvalid.agreement, hregime]
    exact (if_congr (ranging_agrees_iff _) get_mm_parameters_names.1 rfl).trans (ite_not _ _ _)
  · have hregime := hinv.regime_of_violent hstep hviolent
    exact ⟨hregime, hvalid.cautious hregime⟩

instance (state : GlobalState) : Decidable (calm state) :=
  inferInstanceAs (Decidable (_ ∧ _))

/-- A calm state waits for the master. -/
theorem market_decides_quoted : ∃ s s' : Sys Unit, next s .process = some s' ∧
    s'.current.regime = "RANGING" := by
  have hplay : (play next (fun _ _ => True) ({} : Sys Unit) (falling.take 2)).any (fun s =>
      s.pending_queue.get_nowait.any (fun x => decide (calm x.1.state)) &&
        (next s .process).isSome) = true := by decide +kernel
  obtain ⟨s, hs, hcheck⟩ := (Option.any_eq_true _ _).mp hplay
  rw [Bool.and_eq_true] at hcheck
  obtain ⟨x, hx, hcalm⟩ := (Option.any_eq_true _ _).mp hcheck.1
  obtain ⟨s', hs'⟩ := Option.isSome_iff_exists.mp hcheck.2
  exact ⟨s, s', hs', ((market_decides (reaches_of_play hs) hx hs').1 (of_decide_eq_true hcalm)).1⟩

/-! ## A market without jumps -/

/-- The state that is processed next has a mid at most 1% above the one processed last. -/
def NoJump (s : Sys ι) : Act ι → Prop
  | .process => ∀ x ∈ s.pending_queue.get_nowait, ∀ prev ∈ s.prev_mid,
      x.1.state.global_mid ≤ prev * (101 / 100)
  | _ => True

instance (s : Sys ι) : ∀ a, Decidable (NoJump s a)
  | .process => inferInstanceAs (Decidable (∀ x ∈ s.pending_queue.get_nowait, ∀ prev ∈ s.prev_mid,
      x.1.state.global_mid ≤ prev * (101 / 100)))
  | .prices _ | .start_task | .stop | .dequeue _ | .start _ | .finish _ =>
    inferInstanceAs (Decidable True)

theorem discretise_of_no_jump {prev_mid : Option ℚ} {global_mid : ℚ}
    (h : ∀ prev ∈ prev_mid, global_mid ≤ prev * (101 / 100)) :
    discretise_price_change_rate (price_change_rate prev_mid global_mid) < 3 := by
  have hrate : price_change_rate prev_mid global_mid ≤ 1 / 100 := by
    cases prev_mid with
    | none => norm_num [price_change_rate]
    | some prev =>
      have hle := h prev rfl
      simp only [price_change_rate]
      split
      · rename_i hpos
        rw [div_le_iff₀ hpos]
        linarith
      · norm_num
  unfold discretise_price_change_rate
  split_ifs <;> norm_num

/-- The detector has seen no jump, and what was broadcast names no trend. -/
structure Level (s : Sys ι) : Prop where
  inv : Inv s
  detector : s.detector.Level
  regimes : ∀ rs ∈ s.feeds.log, rs.regime ≠ "TRENDING"

omit [DecidableEq ι] in
theorem Level.processed {p : Pushed} (h : Level s) (hp : Processed s p s')
    (hmid : ∀ prev ∈ s.prev_mid, p.state.global_mid ≤ prev * (101 / 100)) : Level s' := by
  have huntrained := h.inv.untrained
  have hdetector : s'.detector = s.detector.observe (observation s.prev_mid p.state) := by
    rw [hp.detector, update_detector_eq]
  have hlevel : s'.detector.Level := by
    rw [hdetector]
    exact huntrained.level_observe h.detector _ _ (discretise_of_no_jump hmid)
  have hargmax := hlevel.argmax_ne_trending (h.inv.processed hp).untrained
  refine ⟨h.inv.processed hp, hlevel, ?_⟩
  rw [hp.log, List.forall_mem_cons, hp.current]
  refine ⟨?_, h.regimes⟩
  show REGIME_NAMES (argmax s'.detector.belief) ≠ "TRENDING"
  revert hargmax
  generalize argmax s'.detector.belief = i
  revert i
  exact forall_states (fun _ => by decide) (fun h => absurd rfl h) (fun _ => by decide)
    fun _ => by decide

omit [DecidableEq ι] in
theorem Level.quiet (h : Level s) (hq : Quiet s s') : Level s' :=
  ⟨h.inv.quiet hq, hq.detector ▸ h.detector, hq.log ▸ h.regimes⟩

/-- Of the valid states only TRENDING leans the inventory. -/
theorem Valid.skew {rs : RegimeState} (h : Valid rs) (hne : rs.regime ≠ "TRENDING") :
    rs.mm_params.inventory_skew = 0 := by
  obtain ⟨h0, -, h2, h3⟩ := get_mm_parameters_names
  have hnames : ∀ i, REGIME_NAMES i ≠ "TRENDING" →
      (get_mm_parameters (REGIME_NAMES i)).inventory_skew = 0 := by
    refine forall_states (fun _ => ?_) (fun hne => absurd rfl hne) (fun _ => ?_) fun _ => ?_
    · rw [h0]
      rfl
    · rw [h2]
      rfl
    · rw [h3]
      rfl
  obtain ⟨i, hregime, hi⟩ | hcons := h.params_cases
  · rw [hi]
    exact hnames i (hregime ▸ hne)
  · rw [hcons]
    rfl

/-- **A market without jumps is never TRENDING**, however far it falls or rises step by step: while no
state processed has a mid more than 1% above the one processed before, TRENDING is never broadcast and
no bot leans its inventory. -/
theorem never_trending (h : Reaches (Fires next) NoJump ({} : Sys ι) s) :
    (∀ rs ∈ s.feeds.log, rs.regime ≠ "TRENDING") ∧
      ∀ i, ∀ d ∈ (s.feeds.bot i).drains, d.mm_params.inventory_skew = 0 := by
  have hrun : Reaches (Fires next) NoJump ({} : Sys ι) {} := Reaches.refl
  have hlevel : Level s := by
    refine h.inv (I := Level) ⟨inv hrun, RegimeDetector.level_new,
      fun _ hrs => absurd hrs List.not_mem_nil⟩ fun s a s' hs hc hn => ?_
    obtain ⟨p, rest, ha, hq, hp⟩ | hq := next_cases hn
    · subst ha
      exact hs.processed hp (hc (p, rest) hq)
    · exact hs.quiet hq
  refine ⟨hlevel.regimes, fun i d hd => ?_⟩
  obtain ⟨rs, rfl | hrs, hparams⟩ := drained h i hd
  · rw [hparams]
    rfl
  · rw [hparams]
    exact (hlevel.inv.valid rs hrs).skew (hlevel.regimes rs hrs)

/-- The price halves. -/
theorem never_trending_falling : ∃ s : Sys Unit, s.feeds.log.length = 2 ∧
    (∀ rs ∈ s.feeds.log, rs.regime ≠ "TRENDING") := by
  have hplay : (play next NoJump ({} : Sys Unit) falling).any (fun s =>
      decide (s.feeds.log.length = 2)) = true := by decide +kernel
  obtain ⟨s, hs, hcheck⟩ := (Option.any_eq_true _ _).mp hplay
  exact ⟨s, of_decide_eq_true hcheck, (never_trending (reaches_of_play hs)).1⟩

/-! ## What was before fades -/

theorem length_observations (l : List Pushed) : (observations l).length = l.length := by
  induction l with
  | nil => rfl
  | cons p l ih => rw [observations, List.length_cons, List.length_cons, ih]

/-- But for the first one, states make the same observations after any others. -/
theorem observations_append {recent : List Pushed} (hne : recent ≠ []) (older : List Pushed) :
    ∃ os, observations (recent ++ older) = (observations recent).dropLast ++ os := by
  induction recent with
  | nil => exact absurd rfl hne
  | cons p recent ih =>
    cases recent with
    | nil => exact ⟨_, rfl⟩
    | cons q recent =>
      obtain ⟨os, hos⟩ := ih (List.cons_ne_nil q recent)
      refine ⟨os, ?_⟩
      rw [List.cons_append, observations, hos]
      rfl

omit [DecidableEq ι] in
theorem Inv.confidence_mem (h : Inv s) :
    1 / 4 ≤ s.current.confidence ∧ s.current.confidence ≤ 1 := by
  rw [h.current]
  cases hlog : s.feeds.log with
  | nil => exact valid_default.confidence
  | cons rs log => exact (h.valid rs (hlog ▸ List.mem_cons_self)).confidence

/-- **What a master has processed before fades**: two masters, each after a run of its own, that have
processed the same states last come to the same confidence up to a tenth less with each of them. -/
theorem confidence_forgets {ι' : Type} [DecidableEq ι'] {s' : Sys ι'}
    (h : Reaches (Fires next) (fun _ _ => True) ({} : Sys ι) s)
    (h' : Reaches (Fires next) (fun _ _ => True) ({} : Sys ι') s') {recent older older' : List Pushed}
    (hs : s.processed = recent ++ older) (hs' : s'.processed = recent ++ older') :
    |s.current.confidence - s'.current.confidence| ≤ 99 * (9 / 10) ^ (recent.length - 2) := by
  have hinv := inv h
  have hinv' := inv h'
  by_cases hne : recent = []
  · subst hne
    have hmem := hinv.confidence_mem
    have hmem' := hinv'.confidence_mem
    rw [List.length_nil, Nat.zero_sub, pow_zero, mul_one, abs_le]
    constructor <;> linarith
  · obtain ⟨os, hos⟩ := observations_append hne older
    obtain ⟨os', hos'⟩ := observations_append hne older'
    have hprocessed : s.processed ≠ [] := hs ▸ List.append_ne_nil_of_left_ne_nil hne _
    have hprocessed' : s'.processed ≠ [] := hs' ▸ List.append_ne_nil_of_left_ne_nil hne _
    rw [hinv.confidence hprocessed, hinv'.confidence hprocessed', hinv.detector, hinv'.detector, hs,
      hs', hos, hos', List.foldr_append, List.foldr_append]
    refine abs_maximum_sub_le fun i => ?_
    have hforgets := (untrained_foldr os).forgets (untrained_foldr os')
      (observations recent).dropLast.reverse i
    rw [List.length_reverse, List.length_dropLast, length_observations, Nat.sub_sub,
      List.foldl_reverse, List.foldl_reverse] at hforgets
    exact hforgets

/-- One of two masters has processed a state more. -/
theorem confidence_forgets_quoted : ∃ s s' : Sys Unit, s.processed ≠ s'.processed ∧
    |s.current.confidence - s'.current.confidence| ≤ 99 * (9 / 10) ^ (3 - 2) := by
  let again : List (Act Unit) :=
    [.prices (quoted 10 0), .process, .prices (quoted 10 0), .process, .prices (quoted 10 0),
      .process]
  have hplay : (play next (fun _ _ => True) ({} : Sys Unit) (falling.take 5 ++ again)).any (fun s =>
      decide (s.processed = List.replicate 3 (quoted 10 0) ++
        [quoted 5 (1 / 10), quoted 10 0])) = true := by decide +kernel
  have hplay' : (play next (fun _ _ => True) ({} : Sys Unit) (.start_task :: again)).any (fun s =>
      decide (s.processed = List.replicate 3 (quoted 10 0) ++ [])) = true := by decide +kernel
  obtain ⟨s, hs, hcheck⟩ := (Option.any_eq_true _ _).mp hplay
  obtain ⟨s', hs', hcheck'⟩ := (Option.any_eq_true _ _).mp hplay'
  have hprocessed := of_decide_eq_true hcheck
  have hprocessed' := of_decide_eq_true hcheck'
  have hforgets := confidence_forgets (reaches_of_play hs) (reaches_of_play hs') hprocessed
    hprocessed'
  rw [List.length_replicate] at hforgets
  refine ⟨s, s', fun heq => ?_, hforgets⟩
  rw [hprocessed, hprocessed'] at heq
  exact absurd (congrArg List.length heq) (by decide)

end Meridian.RegimeMaster
