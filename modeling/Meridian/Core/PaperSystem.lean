import Meridian.Core.Permits
import Meridian.Core.Tasks

/-!
# The dry-run system: orders, listed orders and the batch of fills

In dry-run mode the paper trader's loop fills the orders that the bot's loop listed at the end of its
last whole tick. `Base` holds in every state reached: the orders are sound (`Ledger`), the bot's tasks
leave the fills alone, and the paper trader's loop works off its batch, emitting only fills that satisfy
`K`, as long as nobody else makes `K` false of one of them.

`base_next` is the step lemma: it says what one step of the whole system does to orders and fills
(`Change`). The results about runs are in `Core/PaperFills`.
-/

namespace Meridian.PaperFills

open Coop ExchangeBot

/-! ## The order manager's side -/

/-- The orders of a dry run: every tracked or listed order was placed. -/
structure Ledger (s : Sys Venue) : Prop where
  dry : s.om.dry_run = true
  tracked : ∀ o ∈ s.om.open_orders, o ∈ s.ordered
  listed : ∀ o ∈ s.paper.open_orders_ref, o ∈ s.ordered
  listed_nodup : (s.paper.open_orders_ref.map Order.id).Nodup

/-- What a task other than the paper trader's loop does: it leaves the fills alone and places new orders
of a positive amount. -/
structure Own (s s' : Sys Venue) : Prop where
  batch : s'.paper.batch = s.paper.batch
  emitted : s'.paper.emitted = s.paper.emitted
  ordered : s.ordered <:+ s'.ordered
  new : ∀ o ∈ s'.ordered, o ∉ s.ordered → 0 < o.amount
  ledger : Ledger s → Ledger s'

theorem Own.refl (s : Sys Venue) : Own s s :=
  ⟨rfl, rfl, List.suffix_rfl, fun _ h hn => absurd h hn, id⟩

theorem Own.trans {s s' s'' : Sys Venue} (h : Own s s') (h' : Own s' s'') : Own s s'' where
  batch := h'.batch.trans h.batch
  emitted := h'.emitted.trans h.emitted
  ordered := h.ordered.trans h'.ordered
  new o ho hn := by
    by_cases ho' : o ∈ s'.ordered
    · exact h.new o ho' hn
    · exact h'.new o ho ho'
  ledger hl := h'.ledger (h.ledger hl)

theorem Own.chain {s s' : Sys Venue} (h : Relation.ReflTransGen Own s s') : Own s s' := by
  induction h with
  | refl => exact Own.refl s
  | tail _ h ih => exact ih.trans h

/-- A change that leaves the orders placed and the paper trader alone, and tracks no more. -/
theorem Own.of_tracked {s s' : Sys Venue} (hp : s'.paper = s.paper) (ho : s'.ordered = s.ordered)
    (hdry : s'.om.dry_run = s.om.dry_run) (ht : ∀ o ∈ s'.om.open_orders, o ∈ s.om.open_orders) :
    Own s s' where
  batch := by rw [hp]
  emitted := by rw [hp]
  ordered := ho ▸ List.suffix_rfl
  new o h hn := absurd (ho ▸ h) hn
  ledger hl :=
    ⟨hdry ▸ hl.dry, by rw [ho]; exact fun o h => hl.tracked o (ht o h),
      by rw [hp, ho]; exact hl.listed, by rw [hp]; exact hl.listed_nodup⟩

/-- Placing an order under the next id. -/
theorem own_place {s : Sys Venue} (side : Side) {price amount : ℚ} (hpos : 0 < amount) :
    Own s (OrderManager.tracking (s.om.fake_order ("DRY-" ++ s.drawId.1) s.clock side price amount)
      s.drawId.2) := by
  refine ⟨rfl, rfl, List.suffix_cons _ _, fun o ho hn => ?_, fun hl => ?_⟩
  · obtain rfl := (List.mem_cons.mp ho).resolve_right hn
    exact hpos
  · refine ⟨hl.dry, fun o ho => ?_, fun o ho => List.mem_cons_of_mem _ (hl.listed o ho),
      hl.listed_nodup⟩
    rcases Keyed.mem_set.mp ho with rfl | ⟨ho, -⟩
    · exact List.mem_cons_self
    · exact List.mem_cons_of_mem _ (hl.tracked o ho)

/-- Listing the tracked orders. -/
theorem own_listing (s : Sys Venue) : Own s (set_open_orders s) := by
  unfold set_open_orders
  split
  · exact ⟨rfl, rfl, List.suffix_rfl, fun _ h hn => absurd h hn, fun hl =>
      ⟨hl.dry, hl.tracked, hl.tracked, s.om.open_orders.nodup⟩⟩
  · exact Own.refl s

/-! ## The paper trader's side -/

/-- What the paper trader's loop does once a book is simulated: it moves fills from the batch to the
emitted ones. -/
structure Moves (s s' : Sys Venue) : Prop where
  fills : (s'.paper.emitted ++ s'.paper.batch).Perm (s.paper.emitted ++ s.paper.batch)
  om : s'.om = s.om
  ordered : s'.ordered = s.ordered
  listed : s'.paper.open_orders_ref = s.paper.open_orders_ref

theorem Moves.refl (s : Sys Venue) : Moves s s := ⟨List.Perm.refl _, rfl, rfl, rfl⟩

theorem Moves.trans {s s' s'' : Sys Venue} (h : Moves s s') (h' : Moves s' s'') : Moves s s'' :=
  ⟨h'.fills.trans h.fills, h'.om.trans h.om, h'.ordered.trans h.ordered, h'.listed.trans h.listed⟩

theorem Moves.chain {s s' : Sys Venue} (h : Relation.ReflTransGen Moves s s') : Moves s s' := by
  induction h with
  | refl => exact Moves.refl s
  | tail _ h ih => exact ih.trans h

theorem Moves.ledger {s s' : Sys Venue} (h : Moves s s') (hl : Ledger s) : Ledger s' where
  dry := by rw [h.om]; exact hl.dry
  tracked := by rw [h.om, h.ordered]; exact hl.tracked
  listed := by rw [h.listed, h.ordered]; exact hl.listed
  listed_nodup := by rw [h.listed]; exact hl.listed_nodup

variable {w : World} {K : SimulatedFill → OrderManager → Prop} {s s' : Sys Venue} {r : Req}

theorem moves_answer (w : World) (r : Req) (s : Sys Venue) : Moves s (w.answer r s).2 := by
  obtain ⟨hp, ho, -⟩ := World.answer_same w r s
  exact ⟨by rw [hp], World.answer_om w r s, ho, by rw [hp]⟩

/-- The fills of the current book that are still to be emitted all meet `K` in the order manager of
now. -/
def InBatch (K : SimulatedFill → OrderManager → Prop) (s : Sys Venue) : Prop :=
  ∀ f ∈ s.paper.batch, K f s.om

/-- The rules of the paper trader's loop: it relies on the others leaving the batch alone and keeping
what makes its fills ones that may be emitted, and emits no other. -/
def poller (K : SimulatedFill → OrderManager → Prop) : Rules (Sys Venue) Req where
  rely s s' := s'.paper.batch = s.paper.batch ∧ (InBatch K s → InBatch K s')
  own := Moves
  guar _ _ := True
  may r s := ∀ f, r = .broadcast_fill f → K f s.om

theorem poller_closed : (poller K).Closed fun s => s.paper.batch = [] where
  refl _ := ⟨rfl, id⟩
  trans h h' := ⟨h'.1.trans h.1, fun hb => h'.2 (h.2 hb)⟩
  stable h hb := h.1.trans hb

theorem inBatch_answer (h : InBatch K s) : InBatch K (w.answer r s).2 := by
  obtain ⟨hp, -⟩ := World.answer_same w r s
  unfold InBatch
  rw [hp, World.answer_om]
  exact h

/-- One call of the paper trader's loop. -/
theorem wp_poller_ask {Q : Except Exn (Rep r) → Sys Venue → Prop} (hb : InBatch K s)
    (hmay : ∀ f, r = .broadcast_fill f → K f s.om)
    (hQ : ∀ x s', s'.paper.batch = s.paper.batch → InBatch K s' → Q x s') :
    wp w.answer (poller K) Q (ask r) s := by
  rw [wp_ask r]
  refine ⟨hmay, fun s1 h1 => ⟨trivial, fun s2 h2 => hQ _ s2 ?_ (h2.2 (inBatch_answer (h1.2 hb)))⟩⟩
  rw [h2.1, (World.answer_same w r s1).1, h1.1]

/-- A call whose exception is dropped. -/
theorem wp_poller_try {Q : Except Exn Unit → Sys Venue → Prop} {p : Co Venue Unit}
    (h : wp w.answer (poller K) (fun _ => Q (.ok ())) p s) :
    wp w.answer (poller K) Q (p.tryCatch fun _ => pure ()) s := by
  rw [wp_tryCatch]
  refine wp_mono (fun x s' hx => ?_) h
  cases x <;> exact hx

/-- One fill of the batch is persisted, emitted and counted. -/
theorem wp_book_fill {f : SimulatedFill} {l : List SimulatedFill}
    {Q : Except Exn Unit → Sys Venue → Prop} (hl : s.paper.batch = f :: l) (hb : InBatch K s)
    (hQ : ∀ s', s'.paper.batch = l → InBatch K s' → Q (.ok ()) s') :
    wp w.answer (poller K) Q (PaperTrader.book_fill f) s := by
  simp only [PaperTrader.book_fill, PaperTrader.persist_fill, PaperTrader.emit_fill_event, bind_eq,
    wp_bind, wp_read, thenPost]
  refine wp_poller_try (wp_poller_ask hb (by simp) fun _ s1 h1 hb1 => ?_)
  rw [hl] at h1
  have hmoves : Moves s1 (s1.mapPaper (PaperTrader.emitting f)) := by
    refine ⟨?_, rfl, rfl, rfl⟩
    show ((f :: s1.paper.emitted) ++ s1.paper.batch.tail).Perm (s1.paper.emitted ++ s1.paper.batch)
    rw [h1]
    exact List.perm_middle.symm
  have htail : (s1.mapPaper (PaperTrader.emitting f)).paper.batch = l := congrArg List.tail h1
  have hb2 : InBatch K (s1.mapPaper (PaperTrader.emitting f)) := fun g hg =>
    hb1 g (h1 ▸ List.mem_cons_of_mem _ (htail ▸ hg))
  simp only [thenPost, wp_bind, wp_modify]
  refine ⟨hmoves, wp_poller_try (wp_poller_ask hb2 (fun g hg => ?_) fun _ s3 h3 hb3 => ?_)⟩
  · obtain rfl := Req.broadcast_fill.inj hg
    exact hb1 f (h1 ▸ List.mem_cons_self)
  · exact ⟨⟨List.Perm.refl _, rfl, rfl, rfl⟩, hQ _ (h3.trans htail) hb3⟩

/-- What is left of a round once its book is simulated. -/
def finish (fills : List SimulatedFill) : Co Venue Unit :=
  (Prog.tryCatch (Prog.forEach fills PaperTrader.book_fill) fun _ => pure ()).bind fun _ =>
    ask (.sleep PaperTrader.POLL_INTERVAL_S)

/-- **The rest of the round** empties the batch and emits only fills that may be emitted. -/
theorem wp_finish (hb : InBatch K s) :
    wp w.answer (poller K) (fun _ s' => s'.paper.batch = []) (finish s.paper.batch) s := by
  rw [finish, wp_bind]
  refine wp_poller_try (wp_forEach (fun l s => s.paper.batch = l ∧ InBatch K s) ?_ ?_ ⟨rfl, hb⟩)
  · rintro f l s ⟨hl, hb⟩
    exact wp_book_fill hl hb fun s' hl' hb' => ⟨hl', hb'⟩
  · rintro s ⟨hl, hb⟩
    exact wp_poller_ask hb (by simp) fun _ s' h' _ => h'.trans hl

/-- The state once a book is simulated. -/
def simulated (s : Sys Venue) (book : OrderBook) : Sys Venue :=
  let fills := PaperTrader.fills s book s.paper.open_orders_ref (book.mid.getD 0)
  s.mapPaper fun p => { p with batch := fills }

/-- A round that has received a book simulates it, unless no order is listed. -/
theorem settle_received (s : Sys Venue) (book : OrderBook) :
    settle (PaperTrader.resume_round (.ok (some book))) s =
      if s.paper.open_orders_ref = [] then settle (ask (.sleep PaperTrader.POLL_INTERVAL_S)) s
      else settle (finish (simulated s book).paper.batch) (simulated s book) := by
  by_cases h : s.paper.open_orders_ref = []
  · rw [if_pos h]
    show settle ((Prog.tryCatch (if s.paper.open_orders_ref = [] then pure ()
      else PaperTrader.on_book_update book s.paper.open_orders_ref (book.mid.getD 0))
      fun _ => pure ()).bind fun _ => ask (.sleep PaperTrader.POLL_INTERVAL_S)) s = _
    rw [if_pos h]
    rfl
  · rw [if_neg h]
    show settle ((Prog.tryCatch (if s.paper.open_orders_ref = [] then pure ()
      else PaperTrader.on_book_update book s.paper.open_orders_ref (book.mid.getD 0))
      fun _ => pure ()).bind fun _ => ask (.sleep PaperTrader.POLL_INTERVAL_S)) s = _
    rw [if_neg h]
    rfl

/-- Where the paper trader's loop stands: at rest, asking for a book, about to go on with the reply,
or busy with a batch under its rules. -/
inductive PollerOk (w : World) (K : SimulatedFill → OrderManager → Prop) :
    Thread (Sys Venue) Rep Exn → Sys Venue → Prop
  | asking {s : Sys Venue} (hb : s.paper.batch = []) :
    PollerOk w K (.waiting .watch_order_book PaperTrader.resume_round) s
  | received {s : Sys Venue} (reply : Except Exn (Option OrderBook)) (hb : s.paper.batch = []) :
    PollerOk w K (.ready (PaperTrader.resume_round reply)) s
  | working {t : Thread (Sys Venue) Rep Exn} {s : Sys Venue}
    (h : ThreadOk w.answer (poller K) (fun s => s.paper.batch = []) t s) : PollerOk w K t s

theorem PollerOk.of_rely {t : Thread (Sys Venue) Rep Exn} (h : PollerOk w K t s)
    (hr : (poller K).rely s s') : PollerOk w K t s' := by
  cases h with
  | asking hb => exact .asking (hr.1.trans hb)
  | received reply hb => exact .received reply (hr.1.trans hb)
  | working h => exact .working (h.of_rely poller_closed hr)

/-! ## All tasks -/

/-- The rules of the other tasks. -/
def others : Rules (Sys Venue) Req where
  rely s s' := Ledger s → Ledger s'
  own := Own
  guar _ _ := True
  may r _ := ∀ f, r ≠ .broadcast_fill f

theorem others_closed : others.Closed Ledger := ⟨fun _ => id, fun h h' => h' ∘ h, fun h => h⟩

/-- Serving a call leaves the ledger as it was. -/
theorem others_call {r : Req} (hr : ∀ f, r ≠ .broadcast_fill f) :
    Keeps w.answer others Ledger (ask r) :=
  Keeps.call (fun h => h) (fun _ _ => hr) fun s hl => ⟨trivial, (moves_answer w r s).ledger hl⟩

theorem others_permits : ExchangeBot.Permits w.answer others Ledger fun r =>
    looping r || stopping r where
  call r hr := others_call fun f hf => absurd (hf ▸ hr) (by simp [looping, stopping,
    OrderManager.placing])
  untrack id s hl := by
    have hown : Own s (s.mapOm (OrderManager.untrack id)) :=
      .of_tracked rfl rfl rfl fun o ho => (Keyed.mem_erase.mp ho).1
    exact ⟨hown, hown.ledger hl⟩
  clear s hl := by
    have hown : Own s (s.mapOm OrderManager.clear) :=
      .of_tracked rfl rfl rfl fun o ho => absurd ho Keyed.not_mem_empty
    exact ⟨hown, hown.ledger hl⟩
  last_grid grid s hl := by
    have hown : Own s (s.mapOm fun om => { om with last_grid := some grid }) :=
      .of_tracked rfl rfl rfl fun o ho => ho
    exact ⟨hown, hown.ledger hl⟩
  dry s side price amount hl _ _ hpos := ⟨own_place side hpos, (own_place side hpos).ledger hl⟩
  sync s hl hd := absurd (hd.symm.trans hl.dry) (by simp)
  live s level hl hd := absurd (hd.symm.trans hl.dry) (by simp)
  bot s b hl _ := by
    have hown : Own s { s with bot := b } := .of_tracked rfl rfl rfl fun o ho => ho
    exact ⟨hown, hown.ledger hl⟩
  listing s hl := ⟨own_listing s, (own_listing s).ledger hl⟩
  trigger s b hl _ _ := by
    have hown : Own s (halting { s with bot := b }) := .of_tracked rfl rfl rfl fun o ho => ho
    exact ⟨hown, hown.ledger hl⟩
  returned s hl := by
    have hown : Own s (halted s) := .of_tracked rfl rfl rfl fun o ho => ho
    exact ⟨hown, hown.ledger hl⟩

variable {quote : Quote Venue} {reason : String}

/-- What a task other than the paper trader's loop runs keeps to its rules. -/
theorem body_ok {i : Task} (hi : i ≠ .poller) :
    Keeps w.answer others Ledger (i.body quote reason) := by
  have hl : ∀ r, looping r = true → (looping r || stopping r) = true := fun r hr => by
    rw [hr, Bool.true_or]
  have hs : ∀ r, stopping r = true → (looping r || stopping r) = true := fun r hr => by
    rw [hr, Bool.or_true]
  cases i with
  | loop => exact others_permits.round hl quote
  | heartbeat n => exact others_permits.emergency_stop hs
  | shutdown n => exact others_permits.stop hs
  | api n => exact others_permits.halt_bot hs reason
  | poller => exact absurd rfl hi
  | poller_stop n =>
    refine Keeps.bind (Keeps.modify fun s hl => ?_) fun _ => others_call (by simp)
    have hown : Own s (s.mapPaper fun p => { p with running := false }) :=
      ⟨rfl, rfl, List.suffix_rfl, fun _ h hn => absurd h hn, fun hl =>
        ⟨hl.dry, hl.tracked, hl.listed, hl.listed_nodup⟩⟩
    exact ⟨hown, hown.ledger hl⟩

/-- The rules of all tasks; of the paper trader's loop, which `PollerOk` is about, they ask nothing. -/
def rules : Task → Rules (Sys Venue) Req
  | .poller => free
  | _ => others

/-- What holds while a task is at rest. -/
def resting : Task → Sys Venue → Prop
  | .poller, _ => True
  | _, s => Ledger s

theorem rules_of_ne {i : Task} (hi : i ≠ .poller) : rules i = others := by
  cases i <;> first | rfl | exact absurd rfl hi

theorem resting_of_ne {i : Task} (hi : i ≠ .poller) : resting i = Ledger := by
  cases i <;> first | rfl | exact absurd rfl hi

theorem closed (i : Task) : (rules i).Closed (resting i) := by
  by_cases hi : i = .poller
  · subst hi
    exact ⟨fun _ => trivial, fun _ _ => trivial, fun _ => id⟩
  · rw [rules_of_ne hi, resting_of_ne hi]
    exact others_closed

/-- What holds in every state reached: the ledger of the dry run, the rules that the tasks keep, and
where the paper trader's loop stands in its batch. -/
structure Base (w : World) (K : SimulatedFill → OrderManager → Prop) (x : State) : Prop where
  ledger : Ledger x.shared
  tasks : AllOk w.answer rules resting x
  poller : PollerOk w K (x.thread .poller) x.shared

/-- The step is the one in which the paper trader's loop matches this book against the listed
orders. -/
def Processes (x : State) (a : Act Task Ev) (book : OrderBook) : Prop :=
  a = .resume .poller ∧ x.thread .poller = .ready (PaperTrader.resume_round (.ok (some book)))

/-- What a step does to the orders and to the fills: a task of the bot acts, fills are emitted, or a
book is simulated. -/
inductive Change (x : State) (a : Act Task Ev) (s' : Sys Venue) : Prop
  | own (h : Own x.shared s')
  | moves (h : Moves x.shared s')
  | simulates (book : OrderBook) (hp : Processes x a book) (hb : x.shared.paper.batch = [])
    (h : Moves (simulated x.shared book) s')

theorem Change.ledger {x : State} {a : Act Task Ev} (h : Change x a s') (hl : Ledger x.shared) :
    Ledger s' := by
  cases h with
  | own h => exact h.ledger hl
  | moves h => exact h.ledger hl
  | simulates book _ _ h =>
    exact h.ledger ⟨hl.dry, hl.tracked, hl.listed, hl.listed_nodup⟩

variable {x x' : State} {a : Act Task Ev}

/-- The paper trader's loop runs up to its next await. -/
theorem poller_settles {p : Co Venue Unit}
    (h : wp w.answer (poller K) (fun _ s' => s'.paper.batch = []) p s) :
    PollerOk w K ((x.move .poller (settle p s).1 (settle p s).2).thread .poller) (settle p s).2 ∧
      Moves s (settle p s).2 ∧
      ∀ y ∈ (x.move .poller (settle p s).1 (settle p s).2).sent, y ∈ x.sent ∨
        ∀ f, y.1 = .broadcast_fill f → K f y.2.om := by
  obtain ⟨hown, hok, hmay⟩ := settle_ok h
  refine ⟨?_, Moves.chain hown, fun y hy => ?_⟩
  · rw [Cfg.move_thread_self]
    exact .working hok
  · exact (Cfg.mem_sent_move hy).imp_right fun ⟨hr, hs⟩ => hs ▸ hmay y.1 hr

/-- One step of the paper trader's loop. -/
theorem poller_next (hp : PollerOk w K (x.thread .poller) x.shared)
    (hn : (tasks w quote reason).next x a = some x') (ha : a.thread = some .poller)
    (hsim : ∀ book, Processes x a book → InBatch K (simulated x.shared book)) :
    PollerOk w K (x'.thread .poller) x'.shared ∧ Change x a x'.shared ∧
      ∀ y ∈ x'.sent, y ∈ x.sent ∨ ∀ f, y.1 = .broadcast_fill f → K f y.2.om := by
  have hsleep : x.shared.paper.batch = [] → wp w.answer (poller K)
      (fun _ s' => s'.paper.batch = []) (ask (.sleep PaperTrader.POLL_INTERVAL_S)) x.shared :=
    fun hb => wp_poller_ask (fun f hf => absurd (hb ▸ hf) List.not_mem_nil) (by simp)
      fun _ s' h' _ => h'.trans hb
  cases Threads.next_cases hn with
  | @start i ht hs =>
    obtain rfl : i = .poller := Option.some.inj ha
    rw [ht] at hp
    cases hp with
    | working hb =>
      refine ⟨?_, .moves (Moves.refl _), fun y hy => ?_⟩
      · rw [Cfg.move_thread_self]
        exact .asking hb
      · refine (Cfg.mem_sent_move hy).imp_right fun ⟨hr, _⟩ f hf => ?_
        rw [hf] at hr
        exact absurd (Option.some.inj hr) (by simp)
  | @serve i r k ht =>
    obtain rfl : i = .poller := Option.some.inj ha
    rw [ht] at hp
    refine ⟨?_, .moves (moves_answer w r _), fun y hy => ?_⟩
    · rw [Cfg.move_thread_self]
      cases hp with
      | asking hb =>
        exact .received _ ((congrArg PaperTrader.batch (World.answer_same w _ _).1).trans hb)
      | working h => exact .working (h x.shared (poller_closed.refl _)).2
    · exact (Cfg.mem_sent_move hy).imp_right fun ⟨hr, _⟩ => absurd hr (by simp [Thread.pending])
  | @resume i p ht =>
    obtain rfl : i = .poller := Option.some.inj ha
    rw [ht] at hp
    cases hp with
    | working h =>
      obtain ⟨hok, hm, hsent⟩ := poller_settles (x := x) (h x.shared (poller_closed.refl _))
      exact ⟨hok, .moves hm, hsent⟩
    | received reply hb =>
      rcases reply with e | (_ | book)
      · obtain ⟨hok, hm, hsent⟩ := poller_settles (x := x) (hsleep hb)
        exact ⟨hok, .moves hm, hsent⟩
      · obtain ⟨hok, hm, hsent⟩ := poller_settles (x := x) (hsleep hb)
        exact ⟨hok, .moves hm, hsent⟩
      · rw [settle_received]
        split
        · obtain ⟨hok, hm, hsent⟩ := poller_settles (x := x) (hsleep hb)
          exact ⟨hok, .moves hm, hsent⟩
        · obtain ⟨hok, hm, hsent⟩ := poller_settles (x := x) (wp_finish (hsim book ⟨rfl, ht⟩))
          exact ⟨hok, .simulates book ⟨rfl, ht⟩ hb hm, hsent⟩
  | env he => exact absurd ha (by simp [Act.thread])

theorem own_answer (w : World) (r : Req) (s : Sys Venue) : Own s (w.answer r s).2 := by
  obtain ⟨hp, ho, -⟩ := World.answer_same w r s
  refine .of_tracked hp ho (by rw [World.answer_om]) fun o h => ?_
  rwa [World.answer_om] at h

/-- One step of another task, or of nobody. -/
theorem others_own (hn : (tasks w quote reason).next x a = some x') (ha : a.thread ≠ some .poller)
    (hg : a.Guaranteed rules x.shared x'.shared) : Own x.shared x'.shared := by
  have hne : ∀ {i : Task}, some i ≠ some Task.poller → i ≠ .poller := fun h he => h (he ▸ rfl)
  cases Threads.next_cases hn with
  | @start i =>
    rw [Act.Guaranteed, rules_of_ne (hne ha)] at hg
    exact Own.chain hg
  | @resume i =>
    rw [Act.Guaranteed, rules_of_ne (hne ha)] at hg
    exact Own.chain hg
  | serve ht => exact own_answer w _ _
  | @env e s he =>
    obtain rfl := Option.some.inj he
    cases e <;> exact .of_tracked rfl rfl rfl fun o ho => ho

/-- **One step of the system.** The condition `hsim` is about the books that are simulated, `hkeep`
about what the other tasks do to the fills still to be emitted. -/
theorem base_next (hB : Base w K x) (hn : (tasks w quote reason).next x a = some x')
    (hsim : ∀ book, Processes x a book → InBatch K (simulated x.shared book))
    (hkeep : ∀ f ∈ x.shared.paper.batch, K f x.shared.om → K f x'.shared.om) :
    Base w K x' ∧ Change x a x'.shared ∧
      ∀ y ∈ x'.sent, y ∈ x.sent ∨ ∀ f, y.1 = .broadcast_fill f → K f y.2.om := by
  have hstart : ∀ i, resting i x.shared → (tasks w quote reason).starts i x.shared = true →
      wp w.answer (rules i) (fun _ => resting i) ((tasks w quote reason).body i) x.shared := by
    intro i hr _
    by_cases hi : i = .poller
    · subst hi
      exact wp_free _ _
    · rw [rules_of_ne hi, resting_of_ne hi] at *
      exact body_ok hi _ hr
  have hrely : ∀ j, (Ledger x.shared → Ledger x'.shared) → (rules j).rely x.shared x'.shared := by
    intro j hl
    by_cases hj : j = .poller
    · subst hj
      trivial
    · rw [rules_of_ne hj]
      exact hl
  by_cases ha : a.thread = some .poller
  · obtain ⟨hok, hc, hsent⟩ := poller_next hB.poller hn ha hsim
    obtain ⟨htasks, -⟩ := AllOk.next (T := tasks w quote reason) hB.tasks closed hstart
      (fun _ j _ => hrely j hc.ledger) hn
    exact ⟨⟨hc.ledger hB.ledger, htasks, hok⟩, hc, hsent⟩
  · obtain ⟨htasks, hg, hsent⟩ := AllOk.next (T := tasks w quote reason) hB.tasks closed hstart
      (fun hg j _ => hrely j (others_own hn ha hg).ledger) hn
    have hown := others_own hn ha hg
    have hpoller : x'.thread .poller = x.thread .poller := by
      cases Threads.next_cases hn with
      | @start i => exact Cfg.move_thread_of_ne fun he => ha (he ▸ rfl)
      | @serve i => exact Cfg.move_thread_of_ne fun he => ha (he ▸ rfl)
      | @resume i => exact Cfg.move_thread_of_ne fun he => ha (he ▸ rfl)
      | env => rfl
    refine ⟨⟨hown.ledger hB.ledger, htasks, ?_⟩, .own hown, fun y hy => ?_⟩
    · rw [hpoller]
      refine hB.poller.of_rely ⟨hown.batch, fun hb f hf => ?_⟩
      rw [hown.batch] at hf
      exact hkeep f hf (hb f hf)
    · refine (hsent y hy).imp_right fun ⟨_, i, hi, hmay⟩ f hf => ?_
      rw [rules_of_ne fun he => ha (he ▸ hi)] at hmay
      exact absurd hf (hmay f)

/-- A dry-run system before its first tick. -/
structure Fresh (s : Sys Venue) : Prop where
  dry : s.om.dry_run = true
  ordered : s.ordered = []
  tracked : s.om.open_orders.toList = []
  listed : s.paper.open_orders_ref = []
  batch : s.paper.batch = []
  emitted : s.paper.emitted = []

theorem base_boot (h : Fresh s) : Base w K (boot s) := by
  have hl : Ledger s := by
    refine ⟨h.dry, fun o ho => ?_, ?_, ?_⟩
    · rw [Keyed.mem_def, h.tracked] at ho
      exact absurd ho List.not_mem_nil
    · simp [h.listed]
    · simp [h.listed]
  refine ⟨hl, fun i => ?_, .working h.batch⟩
  by_cases hi : i = .poller
  · subst hi
    trivial
  · rw [rules_of_ne hi, resting_of_ne hi]
    exact hl

end Meridian.PaperFills
