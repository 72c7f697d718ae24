import Mathlib.Algebra.Order.BigOperators.Group.List
import Meridian.Core.FillSimulator
import Meridian.Core.PaperSystem

/-!
# Simulated fills and the orders they are of

Nothing tells the paper trader's loop what it has filled before, nor which of the listed orders have
been cancelled since they were listed.

Results:
* `fills_of_open_orders`: every fill is emitted while its order is open, in every run in which each
  book that is processed offers something to open orders only, and no order is taken out of
  `_open_orders` between its fill and its event; `filled_when_closed`: a run of the other kind;
* `never_overfilled`: no order is filled beyond its amount, in every run in which each book offers
  every listed order that was filled before at most the rest and the orders placed have distinct ids;
  `filled_twice`: a run of the other kind.
-/

namespace Meridian.PaperFills

open Coop ExchangeBot

variable {w : World} {s s' : Sys Venue}

/-! ## Fills of open orders -/

/-- The fill's order is open. -/
def OpenAt (f : SimulatedFill) (om : OrderManager) : Prop := f.order_id ∈ om.open_orders.keys

/-- Every fill was emitted while its order was open, as the order manager had it at the event. -/
def OnlyOpen (x : State) : Prop := ∀ y ∈ x.sent, ∀ f, y.1 = .broadcast_fill f → OpenAt f y.2.om

/-- The condition on a step: a book that is processed offers something only to listed orders that are
open, and no order with a fill still to be emitted is taken out of `_open_orders`. -/
def KeepsOpen (w : World) (quote : Quote Venue) (reason : String) (x : State) (a : Act Task Ev) :
    Prop :=
  (∀ book, Processes x a book → ∀ o q,
    (o, q) ∈ FillSimulator.bookOffers x.shared.paper.open_orders_ref book → 0 < q →
    o.id ∈ x.shared.om.open_orders.keys) ∧
  ∀ x', (tasks w quote reason).next x a = some x' → ∀ f ∈ x.shared.paper.batch,
    OpenAt f x.shared.om → OpenAt f x'.shared.om

/-- A book that offers something to open orders only fills open orders only. -/
theorem inBatch_simulated {book : OrderBook}
    (h : ∀ o q, (o, q) ∈ FillSimulator.bookOffers s.paper.open_orders_ref book → 0 < q →
      o.id ∈ s.om.open_orders.keys) : InBatch OpenAt (simulated s book) := by
  intro f hf
  obtain ⟨o, q, hm, -, hid, hpos, -, hq⟩ := FillSimulator.mem_simulate hf
  rw [OpenAt, hid]
  exact h o q hm (lt_of_lt_of_le hpos hq)

/-- **Every fill is of an open order** in every run in which each book that is processed offers
something to open orders only, and no order leaves `_open_orders` between its fill and the event of
that fill: the loop matches the orders that it was given, not those that are still open. -/
theorem fills_of_open_orders (w : World) (quote : Quote Venue) (reason : String) (s : Sys Venue)
    (h0 : Fresh s) {x : State}
    (h : Run.Reaches (Run.Fires (tasks w quote reason).next) (KeepsOpen w quote reason) (boot s) x) :
    OnlyOpen x := by
  have hI : Base w OpenAt x ∧ OnlyOpen x := by
    refine h.inv (I := fun x => Base w OpenAt x ∧ OnlyOpen x)
      ⟨base_boot h0, fun y hy => absurd hy List.not_mem_nil⟩ ?_
    rintro x a x' ⟨hB, hO⟩ ⟨hbook, hkeep⟩ hn
    obtain ⟨hB', -, hsent⟩ := base_next hB hn
      (fun book hp => inBatch_simulated (hbook book hp)) (hkeep x' hn)
    refine ⟨hB', fun y hy => ?_⟩
    rcases hsent y hy with hy | hy
    · exact hO y hy
    · exact hy
  exact hI.2

/-! ## Amounts -/

/-- What the fills of a list add up to for one order. -/
def filled (fills : List SimulatedFill) (id : String) : ℚ :=
  ((fills.filter fun f => decide (f.order_id = id)).map SimulatedFill.amount).sum

/-- No order is filled beyond its amount, the fills that carry its id taken together. -/
def NoOverfill (x : State) : Prop :=
  ∀ o ∈ x.shared.ordered, filled x.shared.paper.emitted o.id ≤ o.amount

/-- The condition on a step: a book that is processed offers each listed order that was filled before
at most the rest of it. -/
def OffersRest (x : State) (a : Act Task Ev) : Prop :=
  ∀ book, Processes x a book → ∀ o q,
    (o, q) ∈ FillSimulator.bookOffers x.shared.paper.open_orders_ref book →
    filled x.shared.paper.emitted o.id = 0 ∨ filled x.shared.paper.emitted o.id + q ≤ o.amount

theorem filled_append (l l' : List SimulatedFill) (id : String) :
    filled (l ++ l') id = filled l id + filled l' id := by
  rw [filled, List.filter_append, List.map_append, List.sum_append]
  rfl

theorem filled_perm {l l' : List SimulatedFill} (h : l.Perm l') (id : String) :
    filled l id = filled l' id :=
  ((h.filter _).map _).sum_eq

theorem filled_eq_zero {l : List SimulatedFill} {id : String} (h : ∀ f ∈ l, f.order_id ≠ id) :
    filled l id = 0 := by
  rw [filled, List.filter_eq_nil_iff.mpr fun f hf => by simpa using h f hf]
  rfl

theorem filled_nonneg {l : List SimulatedFill} (h : ∀ f ∈ l, 0 < f.amount) (id : String) :
    0 ≤ filled l id := by
  refine List.sum_nonneg fun q hq => ?_
  obtain ⟨f, hf, rfl⟩ := List.mem_map.mp hq
  exact (h f (List.mem_filter.mp hf).1).le

/-- Fills of distinct orders. -/
theorem filled_nodup : ∀ {l : List SimulatedFill} {id : String},
    (l.map SimulatedFill.order_id).Nodup →
    filled l id = 0 ∨ ∃ f ∈ l, f.order_id = id ∧ filled l id = f.amount
  | [], _, _ => .inl rfl
  | f :: l, id, h => by
    obtain ⟨hf, hl⟩ := List.nodup_cons.mp h
    by_cases hid : f.order_id = id
    · have hrest : filled l id = 0 := filled_eq_zero fun g hg hgid =>
        hf (hid.trans hgid.symm ▸ List.mem_map_of_mem hg)
      refine .inr ⟨f, List.mem_cons_self, hid, ?_⟩
      rw [← List.singleton_append, filled_append, hrest, add_zero, filled]
      simp [hid]
    · have hsame : filled (f :: l) id = filled l id := by
        rw [filled, List.filter_cons_of_neg (by simpa using hid)]
        rfl
      rw [hsame]
      exact (filled_nodup hl).imp_right fun ⟨g, hg, hrest⟩ => ⟨g, List.mem_cons_of_mem _ hg, hrest⟩

/-- The invariant of the run: the fills emitted and those still to be are of orders that were
placed, and no more than their amounts. -/
structure Within (s : Sys Venue) : Prop where
  bound : ∀ o ∈ s.ordered, filled (s.paper.emitted ++ s.paper.batch) o.id ≤ o.amount
  pos : ∀ f ∈ s.paper.emitted ++ s.paper.batch, 0 < f.amount
  known : ∀ f ∈ s.paper.emitted ++ s.paper.batch, f.order_id ∈ s.ordered.map Order.id

theorem Within.own (h : Within s) (ho : Own s s') (hids : (s'.ordered.map Order.id).Nodup) :
    Within s' := by
  refine ⟨fun o hm => ?_, ?_, fun f hf => ?_⟩
  · rw [ho.emitted, ho.batch]
    by_cases hold : o ∈ s.ordered
    · exact h.bound o hold
    · have hid : o.id ∉ s.ordered.map Order.id := fun hmem => by
        obtain ⟨o', ho', he⟩ := List.mem_map.mp hmem
        exact hold (List.inj_on_of_nodup_map hids (ho.ordered.subset ho') hm he ▸ ho')
      rw [filled_eq_zero fun f hf he => hid (by rw [← he]; exact h.known f hf)]
      exact (ho.new o hm hold).le
  · rw [ho.emitted, ho.batch]
    exact h.pos
  · rw [ho.emitted, ho.batch] at hf
    obtain ⟨o, hm, hid⟩ := List.mem_map.mp (h.known f hf)
    exact List.mem_map.mpr ⟨o, ho.ordered.subset hm, hid⟩

theorem Within.moves (h : Within s) (hm : Moves s s') : Within s' := by
  refine ⟨fun o ho => ?_, fun f hf => h.pos f (hm.fills.mem_iff.mp hf), fun f hf => ?_⟩
  · rw [filled_perm hm.fills]
    exact h.bound o (hm.ordered ▸ ho)
  · rw [hm.ordered]
    exact h.known f (hm.fills.mem_iff.mp hf)

/-- **A book that offers at most the rest** of what was filled before keeps every order within its
amount. -/
theorem Within.simulated {book : OrderBook} (h : Within s) (hl : Ledger s)
    (hdistinct : (s.ordered.map Order.id).Nodup) (hb : s.paper.batch = [])
    (hrest : ∀ o q, (o, q) ∈ FillSimulator.bookOffers s.paper.open_orders_ref book →
      filled s.paper.emitted o.id = 0 ∨ filled s.paper.emitted o.id + q ≤ o.amount) :
    Within (simulated s book) := by
  have hold : ∀ o ∈ s.ordered, filled s.paper.emitted o.id ≤ o.amount := fun o ho => by
    have := h.bound o ho
    rwa [hb, List.append_nil] at this
  have hmem : ∀ f ∈ (PaperFills.simulated s book).paper.batch, ∃ o ∈ s.ordered, ∃ q,
      (o, q) ∈ FillSimulator.bookOffers s.paper.open_orders_ref book ∧ f.order_id = o.id ∧
      0 < f.amount ∧ f.amount ≤ o.amount ∧ f.amount ≤ q := fun f hf => by
    obtain ⟨o, q, hm, ho, hrest⟩ := FillSimulator.mem_simulate hf
    exact ⟨o, hl.listed o ho, q, hm, hrest⟩
  have hids : ((PaperFills.simulated s book).paper.batch.map SimulatedFill.order_id).Nodup :=
    FillSimulator.simulate_ids hl.listed_nodup
  refine ⟨fun o ho => ?_, fun f hf => ?_, fun f hf => ?_⟩
  · rw [filled_append]
    show filled s.paper.emitted o.id + filled (PaperFills.simulated s book).paper.batch o.id ≤ _
    rcases filled_nodup hids with hz | ⟨f, hf, hfid, hfa⟩
    · rw [hz, add_zero]
      exact hold o ho
    · obtain ⟨o', ho', q, hm, hid, -, ha, hq⟩ := hmem f hf
      obtain rfl : o' = o := List.inj_on_of_nodup_map hdistinct ho' ho (hid.symm.trans hfid)
      rw [hfa]
      rcases hrest o' q hm with hz | hz
      · linarith
      · linarith
  · rcases List.mem_append.mp hf with hf | hf
    · exact h.pos f (List.mem_append_left _ hf)
    · obtain ⟨_, _, _, _, _, hpos, _⟩ := hmem f hf
      exact hpos
  · rcases List.mem_append.mp hf with hf | hf
    · exact h.known f (List.mem_append_left _ hf)
    · obtain ⟨o, ho, _, _, hid, _⟩ := hmem f hf
      exact List.mem_map.mpr ⟨o, ho, hid.symm⟩

/-- **No order is overfilled** in every run whose steps meet the condition and whose orders have
distinct ids: the fills carry nothing but the id, and `hex[:8]` may come twice. -/
theorem never_overfilled (w : World) (quote : Quote Venue) (reason : String) (s : Sys Venue)
    (h0 : Fresh s) {x : State}
    (h : Run.Reaches (Run.Fires (tasks w quote reason).next) OffersRest (boot s) x)
    (hids : (x.shared.ordered.map Order.id).Nodup) : NoOverfill x := by
  have hI : Base w (fun _ _ => True) x ∧
      ((x.shared.ordered.map Order.id).Nodup → Within x.shared) := by
    refine h.inv (I := fun x => Base w (fun _ _ => True) x ∧
      ((x.shared.ordered.map Order.id).Nodup → Within x.shared)) ⟨base_boot h0, fun _ => ?_⟩ ?_
    · refine ⟨fun o ho => ?_, ?_, ?_⟩
      · exact absurd (h0.ordered ▸ ho) List.not_mem_nil
      · simp [boot, h0.emitted, h0.batch]
      · simp [boot, h0.emitted, h0.batch]
    · rintro x a x' ⟨hB, hW⟩ hrest hn
      obtain ⟨hB', hc, -⟩ := base_next hB hn (fun _ _ _ _ => trivial) fun _ _ _ => trivial
      refine ⟨hB', fun hids => ?_⟩
      cases hc with
      | own ho => exact (hW ((ho.ordered.sublist.map _).nodup hids)).own ho hids
      | moves hm =>
        rw [hm.ordered] at hids
        exact (hW hids).moves hm
      | simulates book hp hb hm =>
        rw [hm.ordered] at hids
        exact ((hW hids).simulated hB.ledger hids hb (hrest book hp)).moves hm
  intro o ho
  have hW := hI.2 hids
  have hbound := hW.bound o ho
  rw [filled_append] at hbound
  have hbatch := filled_nonneg (fun f hf => hW.pos f (List.mem_append_right _ hf)) o.id
  linarith

/-! ## Runs -/

/-- A dry-run bot with a paper trader, both running. -/
def paper_bot : Sys Venue where
  om := { exchange := "kucoin", symbol := "ALKIMI/USDT", dry_run := true }
  bot :=
    { exchange := "kucoin"
      q_switch := { exchange := "kucoin", min_balance_usd := 0, min_balance_token := 0 }
      circuit_breaker := { max_daily_loss_pct := 10, max_drawdown_pct := 10, day_start := 719163 }
      has_paper_trader := true
      running := true }
  paper := { exchange := "kucoin", maker_fee_rate := 1 / 1000, running := true }
  clock := 0
  uuid4 := World.longer
  env := {}

theorem fresh_paper_bot : Fresh paper_bot := ⟨rfl, rfl, rfl, rfl, rfl, rfl⟩

/-- Every tick quotes one buy level, for an amount of 1. -/
def one_buy : Quote Venue := fun _ _ _ =>
  { buy_prices := [10], buy_amounts := [1], sell_prices := [], sell_amounts := [], global_mid := 10
    aggressiveness := 0 }

/-- The states keep coming, and so does a book that offers 5 below the quoted price. -/
def crossing : World :=
  { World.quiet with
    state := fun _ => some ⟨10, 0, 0, "", "", 0⟩
    book := fun _ => some ⟨"kucoin", [], [(9, 5)], 0⟩ }

/-- A tick that places and lists its order. -/
def first_tick : List (Act Task Ev) := .start .loop :: turns .loop 6

/-- The stop has cleared `_open_orders`; the next book fills the order that was listed. -/
theorem filled_when_closed :
    ¬∀ (w : World) (quote : Quote Venue) (reason : String) (s : Sys Venue) (x : State), Fresh s →
      Run.Reaches (Run.Fires (tasks w quote reason).next) (fun _ _ => True) (boot s) x →
      (x.shared.ordered.map Order.id).Nodup → OnlyOpen x := by
  intro h
  have hplay : (Run.play (tasks crossing one_buy "stop").next (fun _ _ => True) (boot paper_bot)
      (first_tick ++ .start (.heartbeat 0) :: turns (.heartbeat 0) 1 ++
        .start .poller :: turns .poller 2)).any
      (fun x => decide (x.shared.ordered.map Order.id).Nodup && x.sent.any fun y => match y.1 with
        | .broadcast_fill f => decide (f.order_id ∉ y.2.om.open_orders.keys)
        | _ => false) = true := by
    decide +kernel
  obtain ⟨x, hx, hp⟩ := (Option.any_eq_true _ _).mp hplay
  obtain ⟨hids, hsent⟩ := (Bool.and_eq_true _ _).mp hp
  obtain ⟨y, hy, hclosed⟩ := List.any_eq_true.mp hsent
  have honly := h crossing one_buy "stop" paper_bot x fresh_paper_bot (Run.reaches_of_play hx)
    (of_decide_eq_true hids) y hy
  split at hclosed
  · rename_i f hf
    have hopen : f.order_id ∈ y.2.om.open_orders.keys := honly f hf
    exact absurd hopen (of_decide_eq_true hclosed)
  · exact absurd hclosed (by simp)

/-- Two books, each filling the order whole. -/
theorem filled_twice :
    ¬∀ (w : World) (quote : Quote Venue) (reason : String) (s : Sys Venue) (x : State), Fresh s →
      Run.Reaches (Run.Fires (tasks w quote reason).next) (fun _ _ => True) (boot s) x →
      (x.shared.ordered.map Order.id).Nodup → NoOverfill x := by
  intro h
  have hplay : (Run.play (tasks crossing one_buy "stop").next (fun _ _ => True) (boot paper_bot)
      (first_tick ++ .start .poller :: turns .poller 4 ++ .start .poller :: turns .poller 2)).any
      (fun x => decide (x.shared.ordered.map Order.id).Nodup && x.shared.ordered.any fun o =>
        decide (o.amount < filled x.shared.paper.emitted o.id)) = true := by
    decide +kernel
  obtain ⟨x, hx, hp⟩ := (Option.any_eq_true _ _).mp hplay
  obtain ⟨hids, hover⟩ := (Bool.and_eq_true _ _).mp hp
  obtain ⟨o, ho, hlt⟩ := List.any_eq_true.mp hover
  have hle := h crossing one_buy "stop" paper_bot x fresh_paper_bot (Run.reaches_of_play hx)
    (of_decide_eq_true hids) o ho
  exact absurd (of_decide_eq_true hlt) (not_lt.mpr hle)

/-- What the first witness checks at each step: the listed orders are open, and the step takes none out
that has a fill still to be emitted. -/
def keeps_open (x : State) (a : Act Task Ev) : Bool :=
  (x.shared.paper.open_orders_ref.all fun o => decide (o.id ∈ x.shared.om.open_orders.keys)) &&
    match (tasks crossing one_buy "stop").next x a with
    | some x' => x.shared.paper.batch.all fun f =>
      decide (f.order_id ∈ x'.shared.om.open_orders.keys)
    | none => true

/-- One book fills the order while it is open. -/
theorem filled_while_open : ∃ x, x.shared.paper.emitted ≠ [] ∧ OnlyOpen x := by
  have hplay : (Run.play (tasks crossing one_buy "stop").next (fun x a => keeps_open x a = true)
      (boot paper_bot) (first_tick ++ .start .poller :: turns .poller 2)).any
      (fun x => decide (x.shared.paper.emitted ≠ [])) = true := by
    decide +kernel
  obtain ⟨x, hx, hne⟩ := (Option.any_eq_true _ _).mp hplay
  refine ⟨x, of_decide_eq_true hne, fills_of_open_orders crossing one_buy "stop" paper_bot
    fresh_paper_bot ((Run.reaches_of_play hx).mono fun x a ha => ?_)⟩
  rw [keeps_open, Bool.and_eq_true] at ha
  refine ⟨fun book _ o q hm _ => ?_, fun x' hn f hf _ => ?_⟩
  · exact of_decide_eq_true (List.all_eq_true.mp ha.1 o (FillSimulator.bookOffers_mem hm))
  · have hstep := ha.2
    rw [hn] at hstep
    have hopen := List.all_eq_true.mp hstep f hf
    rwa [decide_eq_true_eq] at hopen

/-- One book fills the order, for its whole amount. -/
theorem filled_once : ∃ x, x.shared.paper.emitted ≠ [] ∧ NoOverfill x := by
  have hplay : (Run.play (tasks crossing one_buy "stop").next
      (fun x _ => x.shared.paper.emitted = []) (boot paper_bot)
      (first_tick ++ .start .poller :: turns .poller 2)).any
      (fun x => decide (x.shared.paper.emitted ≠ [] ∧ (x.shared.ordered.map Order.id).Nodup)) =
        true := by
    decide +kernel
  obtain ⟨x, hx, hp⟩ := (Option.any_eq_true _ _).mp hplay
  obtain ⟨hne, hids⟩ := of_decide_eq_true hp
  refine ⟨x, hne, never_overfilled crossing one_buy "stop" paper_bot fresh_paper_bot
    ((Run.reaches_of_play hx).mono fun x a ha book _ o q _ => .inl ?_) hids⟩
  rw [ha]
  rfl

end Meridian.PaperFills
