import Mathlib.Algebra.Order.Ring.Rat
import Mathlib.Data.List.Sort
import Mathlib.Tactic.Linarith
import Mathlib.Tactic.Ring
import Meridian.Exchange.Base

/-!
# `FillSimulator`: one book against the listed orders

Model of `core/fill_simulator.py`. The buy side and the sell side run the same code with the
comparisons turned round: `Side.beyond` says when a book level is past an order's price, and
`_try_fill_buy`, `_try_fill_sell` are `try_fill` at the two sides.

Results:
* `take_eq`: what an order takes is the smaller of its amount and what the book still offers it;
* `mem_fill_side`, `mem_simulate`: every fill is of a listed order to which the book offers
  something at its turn, and takes at most that and at most the order's amount;
* `simulate_ids`: no two fills of one call are of one order.

Out of scope: the rounding of doubles (prices and amounts are exact rationals).
-/

namespace Meridian

/-- `SimulatedFill` (`fill_simulator.py:37-49`). -/
structure SimulatedFill where
  order_id : String
  exchange : String
  side : Side
  price : ℚ
  amount : ℚ
  fee : ℚ
  filled_at : ℚ
  pnl_usd : ℚ
  book_timestamp : ℚ
  deriving DecidableEq

/-- Levels of one side of a book, best first: prices with quantities. -/
abbrev Levels := List (ℚ × ℚ)

/-- A level of the opposite book is past the order's price. -/
def Side.beyond : Side → ℚ → ℚ → Bool
  | .buy, price, level => decide (level > price)
  | .sell, price, level => decide (level < price)

namespace FillSimulator

/-- The loop over the levels: what is filled of `remaining`, and the levels it leaves. -/
def take (beyond : ℚ → Bool) : (remaining : ℚ) → Levels → ℚ × Levels
  | _, [] => (0, [])
  | remaining, (price, qty) :: levels =>
    if remaining ≤ 0 then (0, (price, qty) :: levels)
    else if beyond price then (0, (price, qty) :: levels)
    else if qty ≤ 0 then
      let rest := take beyond remaining levels
      (rest.1, (price, qty) :: rest.2)
    else
      let taken := min remaining qty
      let new_qty := qty - taken
      let rest := take beyond (remaining - taken) levels
      -- a level left with no more than dust is popped
      (taken + rest.1, if new_qty > 1 / 10 ^ 12 then (price, new_qty) :: rest.2 else rest.2)

/-- The realised P&L of a fill: none for a buy, the captured spread less the fee for a sell. -/
def pnl : Side → (fill_price current_mid filled_qty fee : ℚ) → ℚ
  | .buy, _, _, _, _ => 0
  | .sell, fill_price, current_mid, filled_qty, fee => (fill_price - current_mid) * filled_qty - fee

/-- `_try_fill_buy` and `_try_fill_sell`: the fill, if there is one, and the levels left. -/
def try_fill (maker_fee_rate now : ℚ) (side : Side) (order : Order) (levels : Levels)
    (book_ts current_mid : ℚ) : Option SimulatedFill × Levels :=
  match levels with
  | [] => (none, levels)
  | (best, _) :: _ =>
    if side.beyond order.price best then (none, levels)
    else
      let r := take (side.beyond order.price) order.amount levels
      let filled_qty := r.1
      if filled_qty ≤ 0 then (none, r.2)
      else
        let fee := filled_qty * order.price * maker_fee_rate
        (some
          { order_id := order.id
            exchange := order.exchange
            side := side
            price := order.price
            amount := filled_qty
            fee := fee
            filled_at := now
            pnl_usd := pnl side order.price current_mid filled_qty fee
            book_timestamp := book_ts }, r.2)

/-- `_try_fill_buy` (`fill_simulator.py:129-193`). -/
def try_fill_buy (maker_fee_rate now : ℚ) (order : Order) (available_asks : Levels)
    (book_ts current_mid : ℚ) : Option SimulatedFill × Levels :=
  try_fill maker_fee_rate now .buy order available_asks book_ts current_mid

/-- `_try_fill_sell` (`fill_simulator.py:195-259`). -/
def try_fill_sell (maker_fee_rate now : ℚ) (order : Order) (available_bids : Levels)
    (book_ts current_mid : ℚ) : Option SimulatedFill × Levels :=
  try_fill maker_fee_rate now .sell order available_bids book_ts current_mid

/-- One of the two loops of `simulate`: each order in turn against the levels that are left. -/
def fill_side (fill : Order → Levels → Option SimulatedFill × Levels) :
    List Order → Levels → List SimulatedFill
  | [], _ => []
  | order :: orders, levels =>
    match fill order levels with
    | (some f, levels') => f :: fill_side fill orders levels'
    | (none, levels') => fill_side fill orders levels'

/-- The buy orders, best price first. -/
def buy_orders (open_orders : List Order) : List Order :=
  (open_orders.filter fun o => decide (o.side = .buy)).insertionSort fun a b => b.price ≤ a.price

/-- The sell orders, best price first. -/
def sell_orders (open_orders : List Order) : List Order :=
  (open_orders.filter fun o => decide (o.side = .sell)).insertionSort fun a b => a.price ≤ b.price

/-- `simulate` (`fill_simulator.py:66-123`). -/
def simulate (maker_fee_rate now : ℚ) (open_orders : List Order) (book : OrderBook)
    (current_mid : ℚ) : List SimulatedFill :=
  if open_orders = [] ∨ (book.bids = [] ∧ book.asks = []) then []
  else
    fill_side (fun o l => try_fill_buy maker_fee_rate now o l book.timestamp current_mid)
      (buy_orders open_orders) book.asks ++
    fill_side (fun o l => try_fill_sell maker_fee_rate now o l book.timestamp current_mid)
      (sell_orders open_orders) book.bids

/-! ## What the book offers -/

/-- The quantity at levels not past the price, up to the first level that is. -/
def offered (beyond : ℚ → Bool) : Levels → ℚ
  | [] => 0
  | (price, qty) :: levels => if beyond price then 0 else max qty 0 + offered beyond levels

/-- What the book still offers each order at its turn, once the orders ahead of it are served. -/
def offers (side : Side) : List Order → Levels → List (Order × ℚ)
  | [], _ => []
  | order :: orders, levels =>
    (order, offered (side.beyond order.price) levels) ::
      offers side orders (take (side.beyond order.price) order.amount levels).2

/-- What a book offers to the listed orders of both sides. -/
def bookOffers (open_orders : List Order) (book : OrderBook) : List (Order × ℚ) :=
  offers .buy (buy_orders open_orders) book.asks ++ offers .sell (sell_orders open_orders) book.bids

theorem offered_nonneg (beyond : ℚ → Bool) : ∀ levels : Levels, 0 ≤ offered beyond levels
  | [] => le_rfl
  | (price, qty) :: levels => by
    rw [offered]
    split
    · exact le_rfl
    · have := offered_nonneg beyond levels
      have := le_max_right qty 0
      linarith

/-- **What is taken** is the smaller of what is wanted and what is offered. -/
theorem take_eq (beyond : ℚ → Bool) : ∀ (levels : Levels) {remaining : ℚ}, 0 ≤ remaining →
    (take beyond remaining levels).1 = min remaining (offered beyond levels)
  | [], remaining, h => by
    rw [take, offered, min_eq_right h]
  | (price, qty) :: levels, remaining, h => by
    have hnn := offered_nonneg beyond ((price, qty) :: levels)
    rw [take]
    split
    · rename_i h0
      have hr : remaining = 0 := le_antisymm h0 h
      rw [hr, min_eq_left hnn]
    · rename_i h0
      rw [offered]
      split
      · exact (min_eq_right h).symm
      · split
        · rename_i hq
          simp only
          rw [take_eq beyond levels h, max_eq_right hq, zero_add]
        · rename_i hq
          have hq' : 0 < qty := not_le.mp hq
          have hnn' := offered_nonneg beyond levels
          simp only
          rw [max_eq_left hq'.le]
          rcases le_total remaining qty with hle | hle
          · rw [min_eq_left hle, sub_self, take_eq beyond levels le_rfl, min_eq_left hnn', add_zero,
              min_eq_left (by linarith)]
          · rw [min_eq_right hle, take_eq beyond levels (sub_nonneg.mpr hle)]
            rcases le_total (remaining - qty) (offered beyond levels) with h1 | h1
            · rw [min_eq_left h1, min_eq_left (by linarith)]
              ring
            · rw [min_eq_right h1, min_eq_right (by linarith)]

/-- A fill is of its order, for the smaller of the order's amount and what the book offers it. -/
theorem try_fill_eq {maker_fee_rate now : ℚ} {side : Side} {order : Order} {levels : Levels}
    {book_ts current_mid : ℚ} {f : SimulatedFill}
    (h : (try_fill maker_fee_rate now side order levels book_ts current_mid).1 = some f) :
    f.order_id = order.id ∧ 0 < f.amount ∧ f.amount ≤ order.amount ∧
      f.amount ≤ offered (side.beyond order.price) levels := by
  unfold try_fill at h
  split at h
  · exact absurd h (by simp)
  · rename_i best qty levels'
    split at h
    · exact absurd h (by simp)
    · simp only at h
      split at h
      · exact absurd h (by simp)
      · rename_i hpos
        obtain rfl := Option.some.inj h
        have hpos' := not_le.mp hpos
        have hamount : 0 ≤ order.amount := by
          by_contra hneg
          rw [take, if_pos (not_le.mp hneg).le] at hpos'
          exact lt_irrefl _ hpos'
        have heq := take_eq (side.beyond order.price) ((best, qty) :: levels') hamount
        refine ⟨rfl, hpos', ?_, ?_⟩
        · simp only [heq]
          exact min_le_left _ _
        · simp only [heq]
          exact min_le_right _ _

/-- An attempt leaves the levels that the loop leaves. -/
theorem try_fill_levels (maker_fee_rate now : ℚ) (side : Side) (order : Order) (levels : Levels)
    (book_ts current_mid : ℚ) :
    (try_fill maker_fee_rate now side order levels book_ts current_mid).2 =
      (take (side.beyond order.price) order.amount levels).2 := by
  unfold try_fill
  split
  · rfl
  · rename_i best qty levels'
    split
    · rename_i hb
      rw [take]
      split
      · rfl
      · rfl
    · simp only
      split <;> rfl

/-- Every fill of a side is of an order the book offers something at its turn. -/
theorem mem_fill_side {maker_fee_rate now : ℚ} {side : Side} {book_ts current_mid : ℚ}
    {f : SimulatedFill} : ∀ {orders : List Order} {levels : Levels},
    f ∈ fill_side (fun o l => try_fill maker_fee_rate now side o l book_ts current_mid) orders
      levels →
    ∃ o q, (o, q) ∈ offers side orders levels ∧ f.order_id = o.id ∧ 0 < f.amount ∧
      f.amount ≤ o.amount ∧ f.amount ≤ q
  | [], _, h => absurd h List.not_mem_nil
  | order :: orders, levels, h => by
    have hl := try_fill_levels maker_fee_rate now side order levels book_ts current_mid
    rw [fill_side] at h
    rw [offers]
    split at h
    · rename_i f' levels' hf
      rcases List.mem_cons.mp h with rfl | h
      · obtain ⟨h1, h2, h3, h4⟩ := try_fill_eq (congrArg Prod.fst hf)
        exact ⟨order, _, List.mem_cons_self, h1, h2, h3, h4⟩
      · obtain ⟨o, q, hm, hrest⟩ := mem_fill_side h
        rw [← hl, congrArg Prod.snd hf]
        exact ⟨o, q, List.mem_cons_of_mem _ hm, hrest⟩
    · rename_i levels' hf
      obtain ⟨o, q, hm, hrest⟩ := mem_fill_side h
      rw [← hl, congrArg Prod.snd hf]
      exact ⟨o, q, List.mem_cons_of_mem _ hm, hrest⟩

/-- The fills of a side come in the order of its orders, at most one each. -/
theorem fill_side_ids {maker_fee_rate now : ℚ} {side : Side} {book_ts current_mid : ℚ} :
    ∀ (orders : List Order) (levels : Levels), List.Sublist
      ((fill_side (fun o l => try_fill maker_fee_rate now side o l book_ts current_mid) orders
        levels).map SimulatedFill.order_id) (orders.map Order.id)
  | [], _ => List.Sublist.refl _
  | order :: orders, levels => by
    rw [fill_side]
    split
    · rename_i f levels' hf
      rw [List.map_cons, List.map_cons, (try_fill_eq (congrArg Prod.fst hf)).1]
      exact (fill_side_ids orders levels').cons_cons _
    · exact (fill_side_ids orders _).cons _

theorem offers_mem {side : Side} {o : Order} {q : ℚ} : ∀ {orders : List Order} {levels : Levels},
    (o, q) ∈ offers side orders levels → o ∈ orders
  | [], _, h => absurd h List.not_mem_nil
  | order :: orders, levels, h => by
    rw [offers] at h
    rcases List.mem_cons.mp h with h | h
    · rw [(Prod.mk.inj h).1]
      exact List.mem_cons_self
    · exact List.mem_cons_of_mem _ (offers_mem h)

theorem mem_buy_orders {open_orders : List Order} {o : Order} :
    o ∈ buy_orders open_orders ↔ o ∈ open_orders ∧ o.side = .buy := by
  rw [buy_orders, List.mem_insertionSort, List.mem_filter, decide_eq_true_eq]

theorem mem_sell_orders {open_orders : List Order} {o : Order} :
    o ∈ sell_orders open_orders ↔ o ∈ open_orders ∧ o.side = .sell := by
  rw [sell_orders, List.mem_insertionSort, List.mem_filter, decide_eq_true_eq]

theorem bookOffers_mem {open_orders : List Order} {book : OrderBook} {o : Order} {q : ℚ}
    (h : (o, q) ∈ bookOffers open_orders book) : o ∈ open_orders := by
  rcases List.mem_append.mp h with h | h
  · exact (mem_buy_orders.mp (offers_mem h)).1
  · exact (mem_sell_orders.mp (offers_mem h)).1

/-- **Every simulated fill** is of a listed order to which the book offers something at its turn,
for at most that and at most the order's amount. -/
theorem mem_simulate {maker_fee_rate now : ℚ} {open_orders : List Order} {book : OrderBook}
    {current_mid : ℚ} {f : SimulatedFill}
    (h : f ∈ simulate maker_fee_rate now open_orders book current_mid) :
    ∃ o q, (o, q) ∈ bookOffers open_orders book ∧ o ∈ open_orders ∧ f.order_id = o.id ∧
      0 < f.amount ∧ f.amount ≤ o.amount ∧ f.amount ≤ q := by
  unfold simulate at h
  split at h
  · exact absurd h List.not_mem_nil
  · rcases List.mem_append.mp h with h | h
    · obtain ⟨o, q, hm, hrest⟩ := mem_fill_side h
      have hb : (o, q) ∈ bookOffers open_orders book := List.mem_append_left _ hm
      exact ⟨o, q, hb, bookOffers_mem hb, hrest⟩
    · obtain ⟨o, q, hm, hrest⟩ := mem_fill_side h
      have hb : (o, q) ∈ bookOffers open_orders book := List.mem_append_right _ hm
      exact ⟨o, q, hb, bookOffers_mem hb, hrest⟩

/-- The two sides' orders have distinct ids when the listed orders have. -/
theorem sides_nodup {open_orders : List Order} (h : (open_orders.map Order.id).Nodup) :
    ((buy_orders open_orders).map Order.id ++ (sell_orders open_orders).map Order.id).Nodup := by
  rw [List.nodup_append]
  refine ⟨?_, ?_, ?_⟩
  · rw [buy_orders, ((List.perm_insertionSort _ _).map _).nodup_iff]
    exact h.sublist ((List.filter_sublist).map _)
  · rw [sell_orders, ((List.perm_insertionSort _ _).map _).nodup_iff]
    exact h.sublist ((List.filter_sublist).map _)
  · rintro i hi j hj rfl
    obtain ⟨a, ha, rfl⟩ := List.mem_map.mp hi
    obtain ⟨b, hb, hab⟩ := List.mem_map.mp hj
    obtain ⟨ha, hsa⟩ := mem_buy_orders.mp ha
    obtain ⟨hb, hsb⟩ := mem_sell_orders.mp hb
    have : b = a := List.inj_on_of_nodup_map h hb ha hab
    rw [this, hsa] at hsb
    exact absurd hsb (by decide)

/-- **One call fills an order at most once**: each order has one turn, on its own side, and yields
one fill or none. -/
theorem simulate_ids {maker_fee_rate now : ℚ} {open_orders : List Order} {book : OrderBook}
    {current_mid : ℚ} (h : (open_orders.map Order.id).Nodup) :
    ((simulate maker_fee_rate now open_orders book current_mid).map
      SimulatedFill.order_id).Nodup := by
  unfold simulate
  split
  · exact List.nodup_nil
  · rw [List.map_append]
    exact (sides_nodup h).sublist ((fill_side_ids _ _).append (fill_side_ids _ _))

/-! ## A book that no order crosses -/

/-- Orders that the best level is past are not filled, and leave the levels alone. -/
theorem fill_side_eq_nil {maker_fee_rate now : ℚ} {side : Side} {book_ts current_mid : ℚ}
    {levels : Levels} : ∀ {orders : List Order},
    (∀ best ∈ levels.head?, ∀ o ∈ orders, side.beyond o.price best.1 = true) →
    fill_side (fun o l => try_fill maker_fee_rate now side o l book_ts current_mid) orders levels = []
  | [], _ => rfl
  | order :: orders, h => by
    have hskip : try_fill maker_fee_rate now side order levels book_ts current_mid =
        (none, levels) := by
      unfold try_fill
      split
      · rfl
      · exact if_pos (h _ rfl order List.mem_cons_self)
    rw [fill_side, hskip]
    exact fill_side_eq_nil fun best hbest o ho => h best hbest o (List.mem_cons_of_mem _ ho)

/-- **Nothing is filled** where the best ask is above every buy and the best bid below every sell. -/
theorem simulate_eq_nil {maker_fee_rate now current_mid : ℚ} {open_orders : List Order}
    {book : OrderBook}
    (hbuy : ∀ best ∈ book.asks.head?, ∀ o ∈ open_orders, o.side = .buy → o.price < best.1)
    (hsell : ∀ best ∈ book.bids.head?, ∀ o ∈ open_orders, o.side = .sell → best.1 < o.price) :
    simulate maker_fee_rate now open_orders book current_mid = [] := by
  unfold simulate
  split
  · rfl
  · refine List.append_eq_nil_iff.mpr ⟨fill_side_eq_nil fun best hbest o ho => ?_,
      fill_side_eq_nil fun best hbest o ho => ?_⟩
    · obtain ⟨ho, hside⟩ := mem_buy_orders.mp ho
      exact decide_eq_true (hbuy best hbest o ho hside)
    · obtain ⟨ho, hside⟩ := mem_sell_orders.mp ho
      exact decide_eq_true (hsell best hbest o ho hside)

end FillSimulator

end Meridian
