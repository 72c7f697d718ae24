import Mathlib.Algebra.BigOperators.Group.List.Basic
import Meridian.Core.PaperFills

/-!
# The paper trader's statistics

`PaperTrader.stats` (`core/paper_trader.py`, 36-44, 199-225) in any interleaving of one exchange's
tasks, in either mode. A fill is counted after its event; `_poll_loop` values what it sells at the mid
of the very book that bought it.

Results:
* `books_kept`: the running totals are those of the fills emitted, or lag behind by the newest one
  while its event is on its way; the fees are the turnover at the maker's rate; and as long as the feed
  shows books with two sides that do not cross, the realized P&L is at most minus the fees of the sells.
-/

namespace Meridian.PaperBooks

open Coop ExchangeBot

/-! ## What the simulator makes of a book -/

/-- A book with two sides that do not cross, its bids best first. -/
def TwoSided (book : OrderBook) : Prop :=
  (book.bids.map Prod.fst).Pairwise (· ≥ ·) ∧ ∃ bid bids ask asks,
    book.bids.map Prod.fst = bid :: bids ∧ book.asks.map Prod.fst = ask :: asks ∧ bid ≤ ask

/-- The fee of a sell. -/
def sell_fee (f : SimulatedFill) : ℚ := if f.side = .sell then f.fee else 0

/-- What the simulator charges and books for a fill, where the book was two-sided if `fair`. -/
def Valued (fair : Prop) (rate : ℚ) (f : SimulatedFill) : Prop :=
  f.fee = f.amount * f.price * rate ∧ (fair → f.pnl_usd ≤ -sell_fee f)

theorem take_prices (beyond : ℚ → Bool) : ∀ (levels : Levels) (remaining : ℚ),
    ((FillSimulator.take beyond remaining levels).2.map Prod.fst).Sublist (levels.map Prod.fst)
  | [], _ => List.Sublist.refl _
  | (price, qty) :: levels, remaining => by
    rw [FillSimulator.take]
    split_ifs
    · exact List.Sublist.refl _
    · exact List.Sublist.refl _
    · exact (take_prices beyond levels _).cons_cons _
    · simp only
      split
      · exact (take_prices beyond levels _).cons_cons _
      · exact (take_prices beyond levels _).cons _

/-- A fill is at its order's price, which the best level left reaches. -/
theorem try_fill_price {rate now : ℚ} {side : Side} {order : Order} {levels : Levels}
    {book_ts mid : ℚ} {f : SimulatedFill}
    (h : (FillSimulator.try_fill rate now side order levels book_ts mid).1 = some f) :
    (∃ best ∈ levels.map Prod.fst, side.beyond f.price best = false) ∧ f.side = side ∧
      0 < f.amount ∧ f.fee = f.amount * f.price * rate ∧
      f.pnl_usd = FillSimulator.pnl side f.price mid f.amount f.fee := by
  unfold FillSimulator.try_fill at h
  split at h
  · exact absurd h (by simp)
  · rename_i best qty levels
    split at h
    · exact absurd h (by simp)
    · rename_i hbest
      simp only at h
      split at h
      · exact absurd h (by simp)
      · rename_i hpos
        obtain rfl := Option.some.inj h
        exact ⟨⟨best, List.mem_cons_self, Bool.eq_false_iff.mpr hbest⟩, rfl, not_le.mp hpos, rfl, rfl⟩

/-- Every fill of a side is one of an order against some of the book's levels. -/
theorem mem_fill_side {rate now : ℚ} {side : Side} {book_ts mid : ℚ} {f : SimulatedFill} :
    ∀ {orders : List Order} {levels : Levels},
    f ∈ FillSimulator.fill_side (fun o l => FillSimulator.try_fill rate now side o l book_ts mid)
      orders levels →
    ∃ o levels', (levels'.map Prod.fst).Sublist (levels.map Prod.fst) ∧
      (FillSimulator.try_fill rate now side o levels' book_ts mid).1 = some f
  | [], _, h => absurd h List.not_mem_nil
  | order :: orders, levels, h => by
    have hrest := FillSimulator.try_fill_levels rate now side order levels book_ts mid
    have hsub := take_prices (side.beyond order.price) levels order.amount
    rw [FillSimulator.fill_side] at h
    split at h
    · rename_i f' levels' hf
      rcases List.mem_cons.mp h with rfl | h
      · exact ⟨order, levels, List.Sublist.refl _, congrArg Prod.fst hf⟩
      · obtain ⟨o, left, hleft, hfill⟩ := mem_fill_side h
        rw [← hrest, congrArg Prod.snd hf] at hsub
        exact ⟨o, left, hleft.trans hsub, hfill⟩
    · rename_i levels' hf
      obtain ⟨o, left, hleft, hfill⟩ := mem_fill_side h
      rw [← hrest, congrArg Prod.snd hf] at hsub
      exact ⟨o, left, hleft.trans hsub, hfill⟩

/-- A sell is filled at no more than the best bid, so at no more than the mid. -/
theorem sell_price_le_mid {book : OrderBook} {levels : Levels} {price best : ℚ}
    (h : TwoSided book) (hsub : (levels.map Prod.fst).Sublist (book.bids.map Prod.fst))
    (hbest : best ∈ levels.map Prod.fst) (hprice : Side.sell.beyond price best = false) :
    price ≤ book.mid.getD 0 := by
  obtain ⟨hsorted, bid, bids, ask, asks, hbids, hasks, hcross⟩ := h
  have hle : best ≤ bid := by
    have hmem := hsub.subset hbest
    rw [hbids] at hmem hsorted
    rcases List.mem_cons.mp hmem with rfl | hmem
    · exact le_rfl
    · exact (List.pairwise_cons.mp hsorted).1 best hmem
  have hmid : book.mid.getD 0 = (bid + ask) / 2 := by
    unfold OrderBook.mid
    match hb : book.bids, ha : book.asks with
    | (b, q) :: _, (a, q') :: _ =>
      rw [hb] at hbids
      rw [ha] at hasks
      rw [← (List.cons.inj hbids).1, ← (List.cons.inj hasks).1]
      rfl
    | [], _ => exact absurd (hb ▸ hbids) (by simp)
    | _ :: _, [] => exact absurd (ha ▸ hasks) (by simp)
  have hreach : price ≤ best := not_lt.mp (of_decide_eq_false hprice)
  rw [hmid]
  linarith

/-- **Every fill of a book** is valued as the simulator does, and without profit if the book has two
sides that do not cross. -/
theorem valued_simulate {rate now : ℚ} {orders : List Order} {book : OrderBook} {f : SimulatedFill}
    (h : f ∈ FillSimulator.simulate rate now orders book (book.mid.getD 0)) :
    Valued (TwoSided book) rate f := by
  unfold FillSimulator.simulate at h
  split at h
  · exact absurd h List.not_mem_nil
  · rcases List.mem_append.mp h with h | h
    · obtain ⟨o, levels, -, hfill⟩ := mem_fill_side h
      obtain ⟨-, hside, -, hfee, hpnl⟩ := try_fill_price hfill
      refine ⟨hfee, fun _ => ?_⟩
      rw [sell_fee, hside, hpnl]
      exact (neg_zero (G := ℚ)).ge
    · obtain ⟨o, levels, hsub, hfill⟩ := mem_fill_side h
      obtain ⟨⟨best, hbest, hreach⟩, hside, hpos, hfee, hpnl⟩ := try_fill_price hfill
      refine ⟨hfee, fun htwo => ?_⟩
      have hloss : f.price ≤ book.mid.getD 0 := sell_price_le_mid htwo hsub hbest hreach
      have hprod : (f.price - book.mid.getD 0) * f.amount ≤ 0 :=
        mul_nonpos_of_nonpos_of_nonneg (sub_nonpos.mpr hloss) hpos.le
      rw [sell_fee, if_pos hside, hpnl, FillSimulator.pnl]
      linarith

-- a book without asks has no mid, and what it buys is booked as if it had cost nothing
example :
    let order : Order :=
      { id := "1", exchange := "kucoin", symbol := "ALKIMI/USDT", side := .sell, price := 10
        amount := 1, amount_usd := 10, status := "open", timestamp := 0 }
    let book : OrderBook := ⟨"kucoin", [(11, 5)], [], 0⟩
    (FillSimulator.simulate 0 0 [order] book (book.mid.getD 0)).map SimulatedFill.pnl_usd = [10] := by
  decide +kernel

/-! ## The books -/

/-- The running totals of a list of fills. -/
def totals (fills : List SimulatedFill) : PaperTradingStats where
  total_fills := fills.length
  total_qty := (fills.map SimulatedFill.amount).sum
  total_pnl_usd := (fills.map SimulatedFill.pnl_usd).sum
  total_fees := (fills.map SimulatedFill.fee).sum

theorem update_stats_totals {f : SimulatedFill} {p : PaperTrader} {fills : List SimulatedFill}
    (h : p.stats = totals fills) : (PaperTrader.update_stats f p).stats = totals (f :: fills) := by
  rw [PaperTrader.update_stats, h, totals, totals]
  simp only [List.length_cons, List.map_cons, List.sum_cons, add_comm]

variable {w : World} {V : ℚ → SimulatedFill → Prop} {s s' : Sys Venue}

/-- The fills of a batch come from books the feed has shown, where every fill of these is a `V`. -/
def FromFeed (w : World) (V : ℚ → SimulatedFill → Prop) : Prop :=
  ∀ n book, w.book n = some book → ∀ s : Sys Venue,
    ∀ f ∈ PaperTrader.fills s book s.paper.open_orders_ref (book.mid.getD 0),
      V s.paper.maker_fee_rate f

/-- The books between two fills: everything emitted is counted, and the rest of the batch is `fills`. -/
structure Settled (V : ℚ → SimulatedFill → Prop) (fills : List SimulatedFill) (s : Sys Venue) :
    Prop where
  stats : s.paper.stats = totals s.paper.emitted
  batch : s.paper.batch = fills
  emitted : ∀ f ∈ s.paper.emitted, V s.paper.maker_fee_rate f
  pending : ∀ f ∈ fills, V s.paper.maker_fee_rate f

/-- The books at any time: the totals are those of the fills emitted, of which the newest may not be
counted yet. -/
def Booked (V : ℚ → SimulatedFill → Prop) (s : Sys Venue) : Prop :=
  (∀ f ∈ s.paper.emitted, V s.paper.maker_fee_rate f) ∧ ∃ counted, s.paper.stats = totals counted ∧
    (s.paper.emitted = counted ∨ ∃ f, s.paper.emitted = f :: counted)

theorem Settled.booked {fills : List SimulatedFill} (h : Settled V fills s) : Booked V s :=
  ⟨h.emitted, s.paper.emitted, h.stats, .inl rfl⟩

/-- The paper trader's books are left alone, as every task but its own loop leaves them. -/
structure Same (s s' : Sys Venue) : Prop where
  stats : s'.paper.stats = s.paper.stats
  batch : s'.paper.batch = s.paper.batch
  emitted : s'.paper.emitted = s.paper.emitted
  rate : s'.paper.maker_fee_rate = s.paper.maker_fee_rate

theorem Same.refl (s : Sys Venue) : Same s s := ⟨rfl, rfl, rfl, rfl⟩

theorem Same.trans {s s' s'' : Sys Venue} (h : Same s s') (h' : Same s' s'') : Same s s'' :=
  ⟨h'.stats.trans h.stats, h'.batch.trans h.batch, h'.emitted.trans h.emitted,
    h'.rate.trans h.rate⟩

theorem Same.chain (h : Relation.ReflTransGen Same s s') : Same s s' := by
  induction h with
  | refl => exact Same.refl s
  | tail _ h ih => exact ih.trans h

theorem Same.of_paper (h : s'.paper = s.paper) : Same s s' := by
  constructor <;> rw [h]

theorem Same.settled {fills : List SimulatedFill} (h : Same s s') (hs : Settled V fills s) :
    Settled V fills s' := by
  constructor
  · rw [h.stats, h.emitted]
    exact hs.stats
  · rw [h.batch]
    exact hs.batch
  · rw [h.emitted, h.rate]
    exact hs.emitted
  · rw [h.rate]
    exact hs.pending

theorem Same.booked (h : Same s s') (hs : Booked V s) : Booked V s' := by
  unfold Booked
  rw [h.stats, h.emitted, h.rate]
  exact hs

theorem same_answer (w : World) (r : Req) (s : Sys Venue) : Same s (w.answer r s).2 :=
  .of_paper (World.answer_same w r s).1

/-! ## The paper trader's loop -/

/-- Its rules: nobody else writes the books, and whatever it writes is booked. -/
def keeping (V : ℚ → SimulatedFill → Prop) : Rules (Sys Venue) Req where
  rely := Same
  own s s' := s'.paper.maker_fee_rate = s.paper.maker_fee_rate ∧ Booked V s'
  guar := Same
  may _ _ := True

theorem keeping_closed : (keeping V).Closed (Settled V []) :=
  ⟨Same.refl, Same.trans, Same.settled⟩

theorem wp_keeping_ask {r : Req} {Q : Except Exn (Rep r) → Sys Venue → Prop}
    (hQ : ∀ s1 s', Same s s' → Q (w.answer r s1).1 s') : wp w.answer (keeping V) Q (ask r) s := by
  rw [wp_ask r]
  exact ⟨trivial, fun s1 h1 => ⟨same_answer w r s1, fun s2 h2 =>
    hQ s1 s2 ((h1.trans (same_answer w r s1)).trans h2)⟩⟩

/-- What is done whatever the exceptions. -/
theorem wp_keeping_try {Q : Except Exn Unit → Sys Venue → Prop} {p : Co Venue Unit}
    (h : wp w.answer (keeping V) (fun _ => Q (.ok ())) p s) :
    wp w.answer (keeping V) Q (p.tryCatch fun _ => pure ()) s := by
  rw [wp_tryCatch]
  refine wp_mono (fun x s' hx => ?_) h
  cases x <;> exact hx

/-- **One fill** is persisted, emitted and counted, whatever the database and the feed answer, and
the rest of the batch is still to be. -/
theorem wp_book_fill {f : SimulatedFill} {l : List SimulatedFill} (h : Settled V (f :: l) s) :
    wp w.answer (keeping V) (fun x s' => x = .ok () ∧ Settled V l s') (PaperTrader.book_fill f) s := by
  simp only [PaperTrader.book_fill, PaperTrader.persist_fill, PaperTrader.emit_fill_event, bind_eq,
    wp_bind, wp_read, thenPost]
  refine wp_keeping_try (wp_keeping_ask fun _ s1 h1 => ?_)
  have hs := h1.settled h
  have hemit : ∀ g ∈ f :: s1.paper.emitted, V s1.paper.maker_fee_rate g := by
    rintro g hg
    rcases List.mem_cons.mp hg with rfl | hg
    · exact hs.pending g List.mem_cons_self
    · exact hs.emitted g hg
  simp only [thenPost, wp_bind, wp_modify]
  refine ⟨⟨rfl, hemit, s1.paper.emitted, hs.stats, .inr ⟨f, rfl⟩⟩,
    wp_keeping_try (wp_keeping_ask fun _ s2 h2 => ?_)⟩
  have hcount : Settled V l (s2.mapPaper (PaperTrader.update_stats f)) := by
    constructor
    · show (PaperTrader.update_stats f s2.paper).stats = totals s2.paper.emitted
      rw [h2.emitted]
      exact update_stats_totals (h2.stats.trans hs.stats)
    · exact h2.batch.trans (congrArg List.tail hs.batch)
    · show ∀ g ∈ s2.paper.emitted, V s2.paper.maker_fee_rate g
      rw [h2.emitted, h2.rate]
      exact hemit
    · show ∀ g ∈ l, V s2.paper.maker_fee_rate g
      rw [h2.rate]
      exact fun g hg => hs.pending g (List.mem_cons_of_mem f hg)
  exact ⟨⟨rfl, hcount.booked⟩, rfl, hcount⟩

/-- What a round does with the book it receives. -/
theorem wp_on_book (hV : FromFeed w V) {n : ℕ} (hs : Settled V [] s) :
    wp w.answer (keeping V) (fun _ s' => Settled V [] s') (PaperTrader.on_book (w.book n)) s := by
  cases hbook : w.book n with
  | none => exact hs
  | some book =>
    simp only [PaperTrader.on_book, bind_eq, wp_bind, wp_read, thenPost]
    split
    · exact hs
    · simp only [PaperTrader.on_book_update, bind_eq, wp_bind, wp_read, thenPost, wp_modify]
      have hfills := hV n book hbook s
      generalize PaperTrader.fills s book s.paper.open_orders_ref (book.mid.getD 0) = fills at hfills ⊢
      have hbatch : Settled V fills (s.mapPaper fun p => { p with batch := fills }) :=
        ⟨hs.stats, rfl, hs.emitted, hfills⟩
      refine ⟨⟨rfl, hbatch.booked⟩, wp_forEach (Settled V) ?_ (fun _ h => h) hbatch⟩
      intro f l s hs
      refine wp_mono (fun x s' hx => ?_) (wp_book_fill hs)
      rw [hx.1]
      exact hx.2

theorem watch_reply (w : World) (s : Sys Venue) :
    (∃ e, (w.answer .watch_order_book s).1 = .error e) ∨
      ∃ n, (w.answer .watch_order_book s).1 = .ok (w.book n) := by
  unfold World.answer
  split
  · rename_i e _
    exact .inl ⟨e, rfl⟩
  · exact .inr ⟨s.env.calls, rfl⟩

/-- **A round of the loop** keeps the books: it ends with an empty batch and every fill that it
emitted counted. -/
theorem wp_round (hV : FromFeed w V) (hs : Settled V [] s) :
    wp w.answer (keeping V) (fun _ s' => Settled V [] s') PaperTrader.round s := by
  have hsleep : ∀ {s : Sys Venue}, Settled V [] s → wp w.answer (keeping V)
      (fun _ s' => Settled V [] s') (ask (.sleep PaperTrader.POLL_INTERVAL_S) : Co Venue Unit) s :=
    fun hs => wp_keeping_ask fun _ s' h' => h'.settled hs
  simp only [PaperTrader.round, bind_eq, wp_bind]
  refine wp_keeping_try (wp_mono (fun _ _ => hsleep) ?_)
  rw [wp_bind]
  refine wp_keeping_ask fun s1 s' h' => ?_
  rcases watch_reply w s1 with ⟨e, hreply⟩ | ⟨n, hreply⟩
  · rw [hreply]
    exact h'.settled hs
  · rw [hreply]
    exact wp_on_book hV (h'.settled hs)

/-! ## The other tasks -/

/-- The rules of the others: they leave the books alone. -/
def leaving : Rules (Sys Venue) Req where
  rely _ _ := True
  own := Same
  guar := Same
  may _ _ := True

theorem leaving_permits :
    ExchangeBot.Permits w.answer leaving (fun _ => True) fun _ => true where
  toPermits := .of_any
    (fun r _ => Keeps.call (fun _ h => h) (fun _ _ => trivial) fun s _ =>
      ⟨same_answer w r s, trivial⟩)
    (fun _ _ _ => rfl) fun s _ _ _ _ => ⟨.of_paper rfl, trivial⟩
  bot s _ _ _ := ⟨.of_paper rfl, trivial⟩
  listing s _ := by
    unfold set_open_orders
    split
    · exact ⟨⟨rfl, rfl, rfl, rfl⟩, trivial⟩
    · exact ⟨Same.refl s, trivial⟩
  trigger s _ _ _ _ := ⟨.of_paper rfl, trivial⟩
  returned s _ := ⟨.of_paper rfl, trivial⟩

/-- What a task other than the paper trader's loop runs leaves the books alone. -/
theorem body_leaving {i : Task} (hi : i ≠ .poller) (quote : Quote Venue) (reason : String) :
    Keeps w.answer leaving (fun _ => True) (i.body quote reason) := by
  have hok : ∀ (r : Req) (_ : stopping r = true), (fun _ : Req => true) r = true := fun _ _ => rfl
  cases i with
  | loop => exact leaving_permits.round (fun _ _ => rfl) quote
  | heartbeat n => exact leaving_permits.emergency_stop hok
  | shutdown n => exact leaving_permits.stop hok
  | api n => exact leaving_permits.halt_bot hok reason
  | poller => exact absurd rfl hi
  | poller_stop n =>
    refine Keeps.bind (Keeps.modify fun s _ => ?_) fun _ => leaving_permits.call _ rfl
    exact ⟨⟨rfl, rfl, rfl, rfl⟩, trivial⟩

/-- The rules of all tasks: the paper trader's loop keeps the books, the others leave them. -/
def rules (V : ℚ → SimulatedFill → Prop) : Task → Rules (Sys Venue) Req
  | .poller => keeping V
  | _ => leaving

/-- What holds while a task is at rest. -/
def resting (V : ℚ → SimulatedFill → Prop) : Task → Sys Venue → Prop
  | .poller => Settled V []
  | _ => fun _ => True

theorem rules_of_ne {i : Task} (hi : i ≠ .poller) : rules V i = leaving := by
  cases i <;> first | rfl | exact absurd rfl hi

theorem resting_of_ne {i : Task} (hi : i ≠ .poller) : resting V i = fun _ => True := by
  cases i <;> first | rfl | exact absurd rfl hi

theorem closed (i : Task) : (rules V i).Closed (resting V i) := by
  by_cases hi : i = .poller
  · subst hi
    exact keeping_closed
  · rw [rules_of_ne hi, resting_of_ne hi]
    exact ⟨fun _ => trivial, fun _ _ => trivial, fun _ h => h⟩

/-! ## Runs -/

variable {quote : Quote Venue} {reason : String} {x x' : State} {a : Act Task Ev}

/-- What holds in every state reached: the tasks keep to their rules, so the books are in order, and
the fee rate is the one that the run began with. -/
structure Kept (w : World) (V : ℚ → SimulatedFill → Prop) (rate : ℚ) (x : State) : Prop where
  tasks : AllOk w.answer (rules V) (resting V) x
  booked : Booked V x.shared
  rate : x.shared.paper.maker_fee_rate = rate

/-- A step of a task other than the paper trader's loop, or of nobody. -/
theorem same_of_guaranteed (hn : (tasks w quote reason).next x a = some x')
    (ha : a.thread ≠ some .poller) (hg : a.Guaranteed (rules V) x.shared x'.shared) :
    Same x.shared x'.shared := by
  cases Threads.next_cases hn with
  | @start i =>
    rw [Act.Guaranteed, rules_of_ne fun he => ha (he ▸ rfl)] at hg
    exact Same.chain hg
  | @resume i =>
    rw [Act.Guaranteed, rules_of_ne fun he => ha (he ▸ rfl)] at hg
    exact Same.chain hg
  | serve ht => exact same_answer w _ _
  | @env e s he =>
    obtain rfl := Option.some.inj he
    cases e <;> exact .of_paper rfl

/-- Writes of the loop leave the books booked. -/
theorem booked_chain (h : Relation.ReflTransGen (keeping V).own s s') (hs : Booked V s) :
    s'.paper.maker_fee_rate = s.paper.maker_fee_rate ∧ Booked V s' := by
  induction h with
  | refl => exact ⟨rfl, hs⟩
  | tail _ h ih => exact ⟨h.1.trans ih.1, h.2⟩

/-- **One step of the system** keeps the books: a step of the paper trader by its rules, and the
others do not touch them. -/
theorem kept_next {rate : ℚ} (hV : FromFeed w V) (hx : Kept w V rate x)
    (hn : (tasks w quote reason).next x a = some x') : Kept w V rate x' := by
  have hbody : ∀ i, resting V i x.shared → (tasks w quote reason).starts i x.shared = true →
      wp w.answer (rules V i) (fun _ => resting V i) ((tasks w quote reason).body i) x.shared := by
    intro i hi _
    by_cases hp : i = .poller
    · subst hp
      exact wp_round hV hi
    · rw [rules_of_ne hp, resting_of_ne hp]
      exact body_leaving hp quote reason _ trivial
  obtain ⟨hall, hg, -⟩ := AllOk.next (T := tasks w quote reason) hx.tasks closed hbody
    (fun hg j hj => by
      by_cases hp : j = .poller
      · subst hp
        exact same_of_guaranteed hn hj hg
      · rw [rules_of_ne hp]
        trivial) hn
  by_cases ha : a.thread = some .poller
  · have hstep : x'.shared.paper.maker_fee_rate = x.shared.paper.maker_fee_rate ∧
        Booked V x'.shared := by
      cases Threads.next_cases hn with
      | @start i =>
        obtain rfl : i = .poller := Option.some.inj ha
        exact booked_chain hg hx.booked
      | @resume i =>
        obtain rfl : i = .poller := Option.some.inj ha
        exact booked_chain hg hx.booked
      | @serve i r =>
        have hsame := same_answer w r x.shared
        exact ⟨hsame.rate, hsame.booked hx.booked⟩
      | env => exact absurd ha (by simp [Act.thread])
    exact ⟨hall, hstep.2, hstep.1.trans hx.rate⟩
  · have hsame := same_of_guaranteed hn ha hg
    exact ⟨hall, hsame.booked hx.booked, hsame.rate.trans hx.rate⟩

theorem kept_boot (hstats : s.paper.stats = {}) (hemitted : s.paper.emitted = [])
    (hbatch : s.paper.batch = []) : Kept w V s.paper.maker_fee_rate (boot s) := by
  have hnone : ∀ f ∈ s.paper.emitted, V s.paper.maker_fee_rate f := fun f hf =>
    absurd (hemitted ▸ hf) List.not_mem_nil
  have hsettled : Settled V [] s :=
    ⟨by rw [hstats, hemitted]; rfl, hbatch, hnone, fun f hf => absurd hf List.not_mem_nil⟩
  refine ⟨fun i => ?_, hsettled.booked, rfl⟩
  by_cases hi : i = .poller
  · subst hi
    exact hsettled
  · rw [resting_of_ne hi]
    trivial

/-- The feed shows books with two sides that do not cross. -/
def FairFeed (w : World) : Prop := ∀ n book, w.book n = some book → TwoSided book

theorem fromFeed_valued (w : World) : FromFeed w (Valued (FairFeed w)) := by
  intro n book hbook s f hf
  obtain ⟨hfee, hpnl⟩ := valued_simulate hf
  exact ⟨hfee, fun hfair => hpnl (hfair n book hbook)⟩

/-- What is turned over. -/
def turnover (fills : List SimulatedFill) : ℚ := (fills.map fun f => f.amount * f.price).sum

theorem totals_valued {fair : Prop} {rate : ℚ} : ∀ {fills : List SimulatedFill},
    (∀ f ∈ fills, Valued fair rate f) → (totals fills).total_fees = turnover fills * rate ∧
      (fair → (totals fills).total_pnl_usd ≤ -(fills.map sell_fee).sum)
  | [], _ => by simp [totals, turnover]
  | f :: fills, h => by
    obtain ⟨hfee, hpnl⟩ := h f List.mem_cons_self
    obtain ⟨hfees, hpnls⟩ := totals_valued fun g hg => h g (List.mem_cons_of_mem f hg)
    simp only [totals, turnover, List.map_cons, List.sum_cons] at hfees hpnls ⊢
    refine ⟨by rw [hfees, hfee, add_mul], fun hfair => ?_⟩
    have := hpnl hfair
    have := hpnls hfair
    linarith

/-- **The statistics** in any interleaving: the running totals are those of the fills emitted, but for
the newest one while its event is on its way. The fees are the turnover at the maker's rate, and where
the feed's books have two sides that do not cross, the realized P&L never exceeds minus the fees of
the sells. -/
theorem books_kept (w : World) (quote : Quote Venue) (reason : String)
    (hstats : s.paper.stats = {}) (hemitted : s.paper.emitted = []) (hbatch : s.paper.batch = [])
    (h : Run.Reaches (Run.Fires (tasks w quote reason).next) (fun _ _ => True) (boot s) x) :
    ∃ counted, x.shared.paper.stats = totals counted ∧
      (x.shared.paper.emitted = counted ∨
        ∃ f, x.shared.paper.emitted = f :: counted ∧ x.thread .poller ≠ .rest) ∧
      x.shared.paper.stats.total_fees = turnover counted * s.paper.maker_fee_rate ∧
      (FairFeed w → x.shared.paper.stats.total_pnl_usd ≤ -(counted.map sell_fee).sum) := by
  have hkept : Kept w (Valued (FairFeed w)) s.paper.maker_fee_rate x :=
    h.inv (kept_boot hstats hemitted hbatch) fun x a x' hx _ hn =>
      kept_next (fromFeed_valued w) hx hn
  obtain ⟨hvalued, counted, htotals, hcounted⟩ := hkept.booked
  rw [hkept.rate] at hvalued
  by_cases hrest : x.thread .poller = .rest
  · have hsettled := hkept.tasks .poller
    rw [hrest] at hsettled
    have hexact : x.shared.paper.stats = totals x.shared.paper.emitted := hsettled.stats
    obtain ⟨hfees, hpnl⟩ := totals_valued hvalued
    exact ⟨_, hexact, .inl rfl, hexact ▸ hfees, hexact ▸ hpnl⟩
  · have hsub : ∀ f ∈ counted, f ∈ x.shared.paper.emitted := fun f hf => by
      rcases hcounted with hall | ⟨g, hlag⟩
      · exact hall ▸ hf
      · exact hlag ▸ List.mem_cons_of_mem g hf
    obtain ⟨hfees, hpnl⟩ := totals_valued fun f hf => hvalued f (hsub f hf)
    refine ⟨counted, htotals, ?_, htotals ▸ hfees, htotals ▸ hpnl⟩
    exact hcounted.imp_right fun ⟨f, hf⟩ => ⟨f, hf, hrest⟩

/-- Every tick quotes one sell level, for an amount of 1. -/
def one_sell : Quote Venue := fun _ _ _ =>
  { buy_prices := [], buy_amounts := [], sell_prices := [10], sell_amounts := [1], global_mid := 10
    aggressiveness := 0 }

/-- The states keep coming, and so does a book that bids above the quoted price. -/
def bidding : World :=
  { World.quiet with
    state := fun _ => some ⟨10, 0, 0, "", "", 0⟩
    book := fun _ => some ⟨"kucoin", [(11, 5)], [(12, 5)], 0⟩ }

theorem fairFeed_bidding : FairFeed bidding := by
  intro n book hbook
  obtain rfl := Option.some.inj hbook
  exact ⟨by simp, 11, [], 12, [], rfl, rfl, by norm_num⟩

/-- One sell is filled and counted. -/
theorem books_kept_sold : ∃ x : State, x.shared.paper.stats.total_fills = 1 ∧
    x.shared.paper.stats.total_pnl_usd < 0 := by
  have hplay : (Run.play (tasks bidding one_sell "stop").next (fun _ _ => True)
      (boot PaperFills.paper_bot)
      (PaperFills.first_tick ++ .start .poller :: turns .poller 4)).any
      (fun x => decide (x.shared.paper.stats.total_fills = 1 ∧
        x.shared.paper.emitted.all fun f => decide (f.side = .sell ∧ 0 < f.fee))) = true := by
    decide +kernel
  obtain ⟨x, hx, hone⟩ := (Option.any_eq_true _ _).mp hplay
  obtain ⟨hone, hsell⟩ := of_decide_eq_true hone
  obtain ⟨counted, htotals, hemitted, -, hpnl⟩ := books_kept bidding one_sell "stop"
    (s := PaperFills.paper_bot) rfl rfl rfl (Run.reaches_of_play hx)
  have hlength : counted.length = 1 := by
    rw [htotals] at hone
    exact hone
  obtain ⟨f, rfl⟩ := List.length_eq_one_iff.mp hlength
  have hmem : f ∈ x.shared.paper.emitted := by
    rcases hemitted with heq | ⟨g, heq, -⟩ <;> simp [heq]
  obtain ⟨hside, hfee⟩ := of_decide_eq_true (List.all_eq_true.mp hsell f hmem)
  refine ⟨x, hone, lt_of_le_of_lt (hpnl fairFeed_bidding) ?_⟩
  simpa [sell_fee, hside] using hfee

end Meridian.PaperBooks
