import Mathlib.Algebra.BigOperators.Group.Finset.Basic
import Mathlib.Algebra.Order.BigOperators.Group.Finset
import Mathlib.Algebra.Order.BigOperators.Group.List
import Mathlib.Logic.Function.Basic
import Meridian.Core.FillSimulator

/-!
# What a book's levels supply

`FillSimulator.simulate` pops and shortens levels while the orders of a side compete for them. Each
fill is assigned here to levels of the book as it came: `Left` says what the loops have left of it
once given quantities have been drawn.

## Results

* `Left.take`: one order draws what it is filled for from levels at or better than its price, and
  leaves no more than dust at them unless it is filled completely;
* `fill_side_assigned`: the same for a whole side, where each order finds what the orders ahead of
  it left;
* `simulate_assigned`: the fills of a call are drawn from the book, at most one for each order.
-/

namespace Meridian

namespace FillSimulator

/-- A level with no more than this is popped. -/
def dust : ℚ := 1 / 10 ^ 12

/-! ## The levels left -/

/-- What is left of the levels once `used i` has been drawn from level `i`: a level stays with the
rest of its quantity, or goes with no more than dust. -/
inductive Left : Levels → (ℕ → ℚ) → Levels → Prop where
  | nil {used} : Left [] used []
  | keep {price qty levels used left} (h : Left levels (fun i => used (i + 1)) left)
      (h0 : 0 ≤ used 0) (hle : used 0 ≤ max qty 0) :
      Left ((price, qty) :: levels) used ((price, qty - used 0) :: left)
  | popped {price qty levels used left} (h : Left levels (fun i => used (i + 1)) left)
      (h0 : 0 ≤ used 0) (hle : used 0 ≤ max qty 0) (hdust : qty - used 0 ≤ dust) :
      Left ((price, qty) :: levels) used left

/-- Nothing has been drawn yet. -/
theorem Left.all (levels : Levels) : Left levels (fun _ => 0) levels := by
  induction levels with
  | nil => exact .nil
  | cons level levels ih =>
    have hkeep : Left (level :: levels) (fun _ => 0) ((level.1, level.2 - 0) :: levels) :=
      .keep ih le_rfl (le_max_right level.2 0)
    rwa [sub_zero] at hkeep

/-- A level supplies at most its positive quantity. -/
theorem Left.used_le {levels left : Levels} {used : ℕ → ℚ} (h : Left levels used left) {i : ℕ}
    {price qty : ℚ} (hi : levels[i]? = some (price, qty)) : used i ≤ max qty 0 := by
  induction h generalizing i with
  | nil => exact absurd hi (by simp)
  | keep h h0 hle ih | popped h h0 hle hdust ih =>
    cases i with
    | zero =>
      obtain ⟨rfl, rfl⟩ := Prod.mk.inj (Option.some.inj hi)
      exact hle
    | succ i => exact ih hi

/-! ## One order -/

/-- Quantities drawn, one more level in front. -/
def drawCons (q : ℚ) (drawn : ℕ → ℚ) : ℕ → ℚ
  | 0 => q
  | i + 1 => drawn i

/-- An order filled for `filled` of `amount` draws `drawn i` from level `i`, after others have drawn
`used i`: only where the level is not past its price, and to the dust unless it is filled. -/
structure Draws (beyond : ℚ → Bool) (levels : Levels) (used : ℕ → ℚ) (amount filled : ℚ)
    (drawn : ℕ → ℚ) : Prop where
  nonneg : ∀ i, 0 ≤ drawn i
  sum : ∑ i ∈ Finset.range levels.length, drawn i = filled
  crossing : ∀ i, drawn i ≠ 0 → ∃ price qty, levels[i]? = some (price, qty) ∧ beyond price = false
  exhausted : filled < amount → ∀ i price qty, levels[i]? = some (price, qty) →
    beyond price = false → 0 < qty → qty - (used i + drawn i) ≤ dust

section Loop

variable {beyond : ℚ → Bool} {levels left : Levels} {used drawn : ℕ → ℚ}
  {amount filled price qty q : ℚ}

theorem Draws.filled_nonneg (h : Draws beyond levels used amount filled drawn) : 0 ≤ filled := by
  rw [← h.sum]
  exact Finset.sum_nonneg fun i _ => h.nonneg i

/-- Nothing is drawn where nothing is wanted, or every level is past the price. -/
theorem draws_nothing
    (h : amount ≤ 0 ∨ ∀ (i : ℕ) (price qty : ℚ), levels[i]? = some (price, qty) →
      beyond price = true) :
    Draws beyond levels used amount 0 fun _ => 0 where
  nonneg _ := le_rfl
  sum := Finset.sum_const_zero
  crossing _ hne := absurd rfl hne
  exhausted hlt i price qty hi hb _ := by
    rcases h with h | h
    · exact absurd hlt (not_lt.mpr h)
    · rw [h i price qty hi] at hb
      exact absurd hb (by decide)

/-- The level in front supplies `q`; the levels behind it what they supply to the rest. -/
theorem Draws.cons {rest : ℚ}
    (h : Draws beyond levels (fun i => used (i + 1)) rest filled drawn) (hq : 0 ≤ q)
    (hcross : q ≠ 0 → beyond price = false) (hrest : q + filled < amount → filled < rest)
    (hdust : q + filled < amount → 0 < qty → qty - (used 0 + q) ≤ dust) :
    Draws beyond ((price, qty) :: levels) used amount (q + filled) (drawCons q drawn) where
  nonneg i := by
    cases i with
    | zero => exact hq
    | succ i => exact h.nonneg i
  sum := by
    rw [List.length_cons, Finset.sum_range_succ', add_comm]
    exact congrArg (q + ·) h.sum
  crossing i hne := by
    cases i with
    | zero => exact ⟨price, qty, rfl, hcross hne⟩
    | succ i => exact h.crossing i hne
  exhausted hlt i price' qty' hi hb hpos := by
    cases i with
    | zero =>
      obtain ⟨rfl, rfl⟩ := Prod.mk.inj (Option.some.inj hi)
      exact hdust hlt hpos
    | succ i => exact h.exhausted (hrest hlt) i price' qty' hi hb hpos

/-- The level in front supplies nothing: it has no more than dust left. -/
theorem Draws.skip (h : Draws beyond levels (fun i => used (i + 1)) amount filled drawn)
    (hdust : qty - used 0 ≤ dust) :
    Draws beyond ((price, qty) :: levels) used amount filled (drawCons 0 drawn) := by
  have hcons : Draws beyond ((price, qty) :: levels) used amount (0 + filled) (drawCons 0 drawn) :=
    h.cons le_rfl (fun hne => absurd rfl hne) (fun hlt => by rwa [zero_add] at hlt)
      (fun _ _ => by rwa [add_zero])
  rwa [zero_add] at hcons

/-- A level past the price has only such levels behind it: asks ascend, bids descend. -/
def Sorted (beyond : ℚ → Bool) (levels : Levels) : Prop :=
  levels.Pairwise fun a b => beyond a.1 = true → beyond b.1 = true

theorem Sorted.beyond_all (h : Sorted beyond ((price, qty) :: levels)) (hb : beyond price = true)
    (i : ℕ) (price' qty' : ℚ) (hi : ((price, qty) :: levels)[i]? = some (price', qty')) :
    beyond price' = true := by
  rcases List.mem_cons.mp (List.mem_of_getElem? hi) with heq | hmem
  · rw [(Prod.mk.inj heq).1]
    exact hb
  · exact List.rel_of_pairwise_cons h hmem hb

/-- One more draw of `q` from the level in front, which stays. -/
theorem Left.draw_keep (h : Left levels (fun i => used (i + 1) + drawn i) left) (h0 : 0 ≤ used 0)
    (hq : 0 ≤ q) (hle : used 0 + q ≤ max qty 0) :
    Left ((price, qty) :: levels) (fun i => used i + drawCons q drawn i)
      ((price, qty - used 0 - q) :: left) := by
  rw [sub_sub]
  exact .keep h (add_nonneg h0 hq) hle

/-- One more draw of `q` from the level in front, which goes or has gone. -/
theorem Left.draw_popped (h : Left levels (fun i => used (i + 1) + drawn i) left) (h0 : 0 ≤ used 0)
    (hq : 0 ≤ q) (hle : used 0 + q ≤ max qty 0) (hdust : qty - (used 0 + q) ≤ dust) :
    Left ((price, qty) :: levels) (fun i => used i + drawCons q drawn i) left :=
  .popped h (add_nonneg h0 hq) hle hdust

/-- An order that draws nothing leaves the levels as they were. -/
theorem Left.draw_nothing (h : Left levels used left) : Left levels (fun i => used i + 0) left := by
  simpa only [add_zero] using h

/-- **One order** draws what the loop fills it for, from the levels that are left of the book. -/
theorem Left.take (h : Left levels used left) (hsorted : Sorted beyond levels)
    (hamount : 0 ≤ amount) :
    ∃ drawn, Draws beyond levels used amount (FillSimulator.take beyond amount left).1 drawn ∧
      Left levels (fun i => used i + drawn i) (FillSimulator.take beyond amount left).2 := by
  have hdust0 : (0 : ℚ) ≤ dust := by
    unfold dust
    positivity
  induction h generalizing amount with
  | nil => exact ⟨fun _ => 0, draws_nothing (.inr fun i price qty hi => absurd hi (by simp)), .nil⟩
  | @keep price qty levels used left h h0 hle ih =>
    have htail : Sorted beyond levels := List.Pairwise.of_cons hsorted
    rw [FillSimulator.take]
    split_ifs with hdone hb hqty
    · exact ⟨fun _ => 0, draws_nothing (.inl hdone), (Left.keep h h0 hle).draw_nothing⟩
    · exact ⟨fun _ => 0, draws_nothing (.inr (hsorted.beyond_all hb)),
        (Left.keep h h0 hle).draw_nothing⟩
    · -- nothing is left here: the loop goes on to the next level
      obtain ⟨drawn, hdraws, hleft⟩ := ih htail hamount
      have hkeep : Left ((price, qty) :: levels) (fun i => used i + drawCons 0 drawn i)
          ((price, qty - used 0 - 0) :: (FillSimulator.take beyond amount left).2) :=
        hleft.draw_keep h0 le_rfl ((add_zero _).trans_le hle)
      rw [sub_zero] at hkeep
      exact ⟨drawCons 0 drawn, hdraws.skip (hqty.trans hdust0), hkeep⟩
    · -- the level gives what it has, or what is still wanted
      have hpos : 0 < qty - used 0 := not_le.mp hqty
      set taken := min amount (qty - used 0) with htaken
      have htaken0 : 0 ≤ taken := le_min hamount hpos.le
      have htaken_le : taken ≤ qty - used 0 := min_le_right _ _
      have hsupply : used 0 + taken ≤ max qty 0 := by
        have hmax := le_max_left qty 0
        linarith
      obtain ⟨drawn, hdraws, hleft⟩ := ih htail (sub_nonneg.mpr (min_le_left amount (qty - used 0)))
      have hfilled := hdraws.filled_nonneg
      refine ⟨drawCons taken drawn, hdraws.cons htaken0 (fun _ => by simpa using hb) ?_ ?_, ?_⟩
      · intro hlt
        linarith
      · intro hlt _
        -- more was wanted, so the level gave all it had
        rcases min_choice amount (qty - used 0) with hmin | hmin
        · linarith
        · rw [htaken, hmin]
          linarith
      · dsimp only
        split_ifs with hnew
        · exact hleft.draw_keep h0 htaken0 hsupply
        · refine hleft.draw_popped h0 htaken0 hsupply ?_
          rw [← sub_sub]
          exact not_lt.mp hnew
  | @popped price qty levels used left h h0 hle hdust ih =>
    obtain ⟨drawn, hdraws, hleft⟩ := ih (List.Pairwise.of_cons hsorted) hamount
    refine ⟨drawCons 0 drawn, hdraws.skip hdust, hleft.draw_popped h0 le_rfl ?_ ?_⟩
    · rwa [add_zero]
    · rwa [add_zero]

end Loop

/-! ## One side -/

/-- What the fills give the order. -/
def filledFor (fills : List SimulatedFill) (id : String) : ℚ :=
  ((fills.filter fun f => decide (f.order_id = id)).map SimulatedFill.amount).sum

/-- What the orders together draw from level `i`. -/
def drawnFrom (orders : List Order) (draw : String → ℕ → ℚ) (i : ℕ) : ℚ :=
  (orders.map fun o => draw o.id i).sum

/-- The fills of a side's orders come from the levels: `draw id i` is what order `id` draws from
level `i`, of which `used i` had been drawn before. -/
structure Assigned (side : Side) (levels : Levels) (orders : List Order)
    (fills : List SimulatedFill) (used : ℕ → ℚ) (draw : String → ℕ → ℚ) : Prop where
  nonneg : ∀ id i, 0 ≤ draw id i
  /-- What an order draws is what it is filled for. -/
  sum : ∀ o ∈ orders, ∑ i ∈ Finset.range levels.length, draw o.id i = filledFor fills o.id
  /-- A level supplies at most its positive quantity in total. -/
  supply : ∀ i price qty, levels[i]? = some (price, qty) →
    used i + drawnFrom orders draw i ≤ max qty 0
  /-- An order draws only from levels at or better than its price. -/
  crossing : ∀ o ∈ orders, ∀ i, draw o.id i ≠ 0 →
    ∃ price qty, levels[i]? = some (price, qty) ∧ side.beyond o.price price = false
  /-- Where an order is not completely filled, no level it crosses has more than dust left. -/
  exhausted : ∀ o ∈ orders, filledFor fills o.id < o.amount → ∀ i price qty,
    levels[i]? = some (price, qty) → side.beyond o.price price = false → 0 < qty →
      qty - (used i + drawnFrom orders draw i) ≤ dust

/-- A fill that an order may get: on its side, at its price, and for some of its amount. -/
structure FillOf (side : Side) (o : Order) (f : SimulatedFill) : Prop where
  order_id : f.order_id = o.id
  side : f.side = side
  price : f.price = o.price
  pos : 0 < f.amount
  le : f.amount ≤ o.amount

section Side

variable {levels : Levels} {maker_fee_rate now book_ts current_mid : ℚ} {side : Side}
  {order : Order} {orders : List Order} {f : SimulatedFill} {id : String}

theorem fillOf_try_fill
    (h : (try_fill maker_fee_rate now side order levels book_ts current_mid).1 = some f) :
    FillOf side order f := by
  obtain ⟨hid, hpos, hle, -⟩ := try_fill_eq h
  have hfields : f.side = side ∧ f.price = order.price := by
    unfold try_fill at h
    split at h
    · exact absurd h (by simp)
    · dsimp only at h
      split_ifs at h
      all_goals
        obtain rfl := Option.some.inj h
        exact ⟨rfl, rfl⟩
  exact ⟨hid, hfields.1, hfields.2, hpos, hle⟩

/-- An attempt fills what the loop takes. -/
theorem try_fill_amount (hamount : 0 ≤ order.amount) :
    ((try_fill maker_fee_rate now side order levels book_ts current_mid).1.map
      SimulatedFill.amount).getD 0 = (take (side.beyond order.price) order.amount levels).1 := by
  have hnonneg : 0 ≤ (take (side.beyond order.price) order.amount levels).1 := by
    rw [take_eq _ _ hamount]
    exact le_min hamount (offered_nonneg _ _)
  unfold try_fill
  split
  · rw [take]
    rfl
  · rename_i best qty rest
    dsimp only
    split_ifs with hbest hfilled
    · rw [take]
      split_ifs
      all_goals rfl
    · exact (le_antisymm hfilled hnonneg).symm
    · rfl

theorem filledFor_cons (fills : List SimulatedFill) :
    filledFor (f :: fills) id = (if f.order_id = id then f.amount else 0) + filledFor fills id := by
  unfold filledFor
  rw [List.filter_cons]
  split_ifs with h₁ h₂ h₂
  · rw [List.map_cons, List.sum_cons]
  · exact absurd (of_decide_eq_true h₁) h₂
  · exact absurd (decide_eq_true h₂) h₁
  · rw [zero_add]

/-- What a side fills, the first order apart. -/
theorem filledFor_fill_side_cons {fill : Order → Levels → Option SimulatedFill × Levels}
    (hfill : ∀ f, (fill order levels).1 = some f → f.order_id = order.id) :
    filledFor (fill_side fill (order :: orders) levels) id =
      (if order.id = id then ((fill order levels).1.map SimulatedFill.amount).getD 0 else 0) +
      filledFor (fill_side fill orders (fill order levels).2) id := by
  rw [fill_side]
  split
  · rename_i f levels' hf
    rw [hf] at hfill ⊢
    rw [filledFor_cons, hfill f rfl]
    rfl
  · rename_i levels' hf
    rw [hf, Option.map_none, Option.getD_none, ite_self, zero_add]

theorem filledFor_side_cons (hamount : 0 ≤ order.amount) :
    filledFor (fill_side (fun o l => try_fill maker_fee_rate now side o l book_ts current_mid)
        (order :: orders) levels) id =
      (if order.id = id then (take (side.beyond order.price) order.amount levels).1 else 0) +
      filledFor (fill_side (fun o l => try_fill maker_fee_rate now side o l book_ts current_mid)
        orders (take (side.beyond order.price) order.amount levels).2) id := by
  rw [filledFor_fill_side_cons fun f hf => (fillOf_try_fill hf).order_id, try_fill_amount hamount,
    try_fill_levels]

/-- A fill of a side is of one of its orders. -/
theorem fillOf_fill_side
    (h : f ∈ fill_side (fun o l => try_fill maker_fee_rate now side o l book_ts current_mid) orders
      levels) : ∃ o ∈ orders, FillOf side o f := by
  induction orders generalizing levels with
  | nil => exact absurd h List.not_mem_nil
  | cons order orders ih =>
    rw [fill_side] at h
    split at h
    · rename_i f' levels' hf
      rcases List.mem_cons.mp h with rfl | h
      · exact ⟨order, List.mem_cons_self, fillOf_try_fill (congrArg Prod.fst hf)⟩
      · obtain ⟨o, ho, hfill⟩ := ih h
        exact ⟨o, List.mem_cons_of_mem _ ho, hfill⟩
    · obtain ⟨o, ho, hfill⟩ := ih h
      exact ⟨o, List.mem_cons_of_mem _ ho, hfill⟩

/-- An order that is not of the side has nothing from it. -/
theorem filledFor_eq_zero {fills : List SimulatedFill} (h : ∀ f ∈ fills, f.order_id ≠ id) :
    filledFor fills id = 0 := by
  have hnil : fills.filter (fun f => decide (f.order_id = id)) = [] :=
    List.filter_eq_nil_iff.mpr fun f hf => by simpa using h f hf
  rw [filledFor, hnil]
  rfl

/-- The first order draws `first`, the others as before. -/
theorem drawnFrom_cons {draw : String → ℕ → ℚ} {first : ℕ → ℚ}
    (hid : ∀ o ∈ orders, o.id ≠ order.id) (i : ℕ) :
    drawnFrom (order :: orders) (Function.update draw order.id first) i =
      first i + drawnFrom orders draw i := by
  rw [drawnFrom, List.map_cons, List.sum_cons, Function.update_self]
  refine congrArg (first i + ·) (congrArg List.sum (List.map_congr_left fun o ho => ?_))
  rw [Function.update_of_ne (hid o ho)]

theorem drawnFrom_nonneg {draw : String → ℕ → ℚ} (h : ∀ id i, 0 ≤ draw id i) (i : ℕ) :
    0 ≤ drawnFrom orders draw i := by
  refine List.sum_nonneg fun x hx => ?_
  obtain ⟨o, -, rfl⟩ := List.mem_map.mp hx
  exact h o.id i

/-- **One side**: each order finds what the orders ahead of it left. -/
theorem fill_side_assigned {used : ℕ → ℚ} {left : Levels} (h : Left levels used left)
    (hsorted : ∀ price, Sorted (side.beyond price) levels) (hids : (orders.map Order.id).Nodup)
    (hamount : ∀ o ∈ orders, 0 ≤ o.amount) :
    ∃ draw, Assigned side levels orders
      (fill_side (fun o l => try_fill maker_fee_rate now side o l book_ts current_mid) orders left)
      used draw := by
  induction orders generalizing used left with
  | nil =>
    refine ⟨fun _ _ => 0, fun _ _ => le_rfl, ?_, fun i price qty hi => ?_, ?_, ?_⟩
    · exact fun o ho => absurd ho List.not_mem_nil
    · exact (add_zero (used i)).trans_le (h.used_le hi)
    · exact fun o ho => absurd ho List.not_mem_nil
    · exact fun o ho => absurd ho List.not_mem_nil
  | cons order orders ih =>
    have hfirst : 0 ≤ order.amount := hamount order List.mem_cons_self
    obtain ⟨first, hdraws, hleft⟩ := h.take (hsorted order.price) hfirst
    obtain ⟨hnot, hids⟩ := List.nodup_cons.mp hids
    have hne : ∀ o ∈ orders, o.id ≠ order.id := fun o ho heq =>
      hnot (List.mem_map.mpr ⟨o, ho, heq⟩)
    obtain ⟨draw, hrest⟩ := ih hleft hids fun o ho => hamount o (List.mem_cons_of_mem _ ho)
    have hself : filledFor (fill_side (fun o l => try_fill maker_fee_rate now side o l book_ts
        current_mid) (order :: orders) left) order.id =
          (take (side.beyond order.price) order.amount left).1 := by
      rw [filledFor_side_cons hfirst, if_pos rfl, filledFor_eq_zero, add_zero]
      intro f hf
      obtain ⟨o, ho, hfill⟩ := fillOf_fill_side hf
      rw [hfill.order_id]
      exact hne o ho
    have hother : ∀ o ∈ orders,
        filledFor (fill_side (fun o l => try_fill maker_fee_rate now side o l book_ts current_mid)
          (order :: orders) left) o.id =
        filledFor (fill_side (fun o l => try_fill maker_fee_rate now side o l book_ts current_mid)
          orders (take (side.beyond order.price) order.amount left).2) o.id := by
      intro o ho
      rw [filledFor_side_cons hfirst, if_neg (hne o ho).symm, zero_add]
    refine ⟨Function.update draw order.id first, ?_, ?_, ?_, ?_, ?_⟩
    · intro id i
      by_cases hid : id = order.id
      · rw [hid, Function.update_self]
        exact hdraws.nonneg i
      · rw [Function.update_of_ne hid]
        exact hrest.nonneg id i
    · intro o ho
      rcases List.mem_cons.mp ho with rfl | ho
      · rw [hself, Function.update_self]
        exact hdraws.sum
      · rw [hother o ho, Function.update_of_ne (hne o ho)]
        exact hrest.sum o ho
    · intro i price qty hi
      rw [drawnFrom_cons hne, ← add_assoc]
      exact hrest.supply i price qty hi
    · intro o ho i hi
      rcases List.mem_cons.mp ho with rfl | ho
      · rw [Function.update_self] at hi
        exact hdraws.crossing i hi
      · rw [Function.update_of_ne (hne o ho)] at hi
        exact hrest.crossing o ho i hi
    · intro o ho hlt i price qty hi hb hpos
      rw [drawnFrom_cons hne, ← add_assoc]
      rcases List.mem_cons.mp ho with rfl | ho
      · -- the orders behind it only draw more
        rw [hself] at hlt
        have hdust := hdraws.exhausted hlt i price qty hi hb hpos
        have hmore : 0 ≤ drawnFrom orders draw i := drawnFrom_nonneg hrest.nonneg i
        linarith
      · rw [hother o ho] at hlt
        exact hrest.exhausted o ho hlt i price qty hi hb hpos

end Side

/-! ## Both sides -/

theorem filledFor_append (fills more : List SimulatedFill) (id : String) :
    filledFor (fills ++ more) id = filledFor fills id + filledFor more id := by
  rw [filledFor, List.filter_append, List.map_append, List.sum_append]
  rfl

/-- Fills and draws of other orders do not matter. -/
theorem Assigned.congr {side : Side} {levels : Levels} {orders : List Order}
    {fills fills' : List SimulatedFill} {used : ℕ → ℚ} {draw draw' : String → ℕ → ℚ}
    (h : Assigned side levels orders fills used draw)
    (hfills : ∀ o ∈ orders, filledFor fills' o.id = filledFor fills o.id)
    (hdraw : ∀ o ∈ orders, draw' o.id = draw o.id) (hnonneg : ∀ id i, 0 ≤ draw' id i) :
    Assigned side levels orders fills' used draw' := by
  have hdrawn (i : ℕ) : drawnFrom orders draw' i = drawnFrom orders draw i :=
    congrArg List.sum (List.map_congr_left fun o ho => congrFun (hdraw o ho) i)
  refine ⟨hnonneg, fun o ho => ?_, fun i => ?_, fun o ho i => ?_, fun o ho => ?_⟩
  · rw [hdraw o ho, hfills o ho]
    exact h.sum o ho
  · rw [hdrawn]
    exact h.supply i
  · rw [hdraw o ho]
    exact h.crossing o ho i
  · rw [hfills o ho]
    simpa only [hdrawn] using h.exhausted o ho

/-- With no orders, and with no book, there is nothing to fill on either side. -/
theorem simulate_eq (maker_fee_rate now : ℚ) (open_orders : List Order) (book : OrderBook)
    (current_mid : ℚ) :
    simulate maker_fee_rate now open_orders book current_mid =
      fill_side (fun o l => try_fill maker_fee_rate now .buy o l book.timestamp current_mid)
        (buy_orders open_orders) book.asks ++
      fill_side (fun o l => try_fill maker_fee_rate now .sell o l book.timestamp current_mid)
        (sell_orders open_orders) book.bids := by
  have hempty (side : Side) (orders : List Order) :
      fill_side (fun o l => try_fill maker_fee_rate now side o l book.timestamp current_mid) orders
        [] = [] := by
    induction orders with
    | nil => rfl
    | cons order orders ih => exact ih
  unfold simulate
  split_ifs with hnone
  · rcases hnone with rfl | ⟨hbids, hasks⟩
    · rfl
    · rw [hbids, hasks, hempty, hempty]
      rfl
  · rfl

theorem sorted_asks {levels : Levels} (h : levels.Pairwise fun a b => a.1 ≤ b.1) (price : ℚ) :
    Sorted (Side.buy.beyond price) levels :=
  h.imp fun hab hb => decide_eq_true ((of_decide_eq_true hb).trans_le hab)

theorem sorted_bids {levels : Levels} (h : levels.Pairwise fun a b => b.1 ≤ a.1) (price : ℚ) :
    Sorted (Side.sell.beyond price) levels :=
  h.imp fun hab hb => decide_eq_true (hab.trans_lt (of_decide_eq_true hb))

/-- The two sides' draws put together, on orders with distinct ids. -/
theorem exists_assigned {buy_orders sell_orders : List Order} {asks bids : Levels}
    {bought sold : List SimulatedFill} {buys sells : String → ℕ → ℚ} {used : ℕ → ℚ}
    (hids : (buy_orders.map Order.id ++ sell_orders.map Order.id).Nodup)
    (hbought : ∀ f ∈ bought, ∃ o ∈ buy_orders, FillOf .buy o f)
    (hsold : ∀ f ∈ sold, ∃ o ∈ sell_orders, FillOf .sell o f)
    (hbuys : Assigned .buy asks buy_orders bought used buys)
    (hsells : Assigned .sell bids sell_orders sold used sells) :
    ∃ draw, Assigned .buy asks buy_orders (bought ++ sold) used draw ∧
      Assigned .sell bids sell_orders (bought ++ sold) used draw := by
  have hne : ∀ b ∈ buy_orders, ∀ s ∈ sell_orders, b.id ≠ s.id := fun b hb s hs =>
    (List.nodup_append.mp hids).2.2 b.id (List.mem_map_of_mem hb) s.id (List.mem_map_of_mem hs)
  have hnonneg (id : String) (i : ℕ) :
      0 ≤ (if id ∈ buy_orders.map Order.id then buys id else sells id) i := by
    split_ifs
    · exact hbuys.nonneg id i
    · exact hsells.nonneg id i
  refine ⟨fun id => if id ∈ buy_orders.map Order.id then buys id else sells id,
    hbuys.congr (fun o ho => ?_) (fun o ho => ?_) hnonneg,
    hsells.congr (fun o ho => ?_) (fun o ho => ?_) hnonneg⟩
  · have hzero : filledFor sold o.id = 0 := filledFor_eq_zero fun f hf => by
      obtain ⟨s, hs, hfill⟩ := hsold f hf
      rw [hfill.order_id]
      exact (hne o ho s hs).symm
    rw [filledFor_append, hzero, add_zero]
  · exact if_pos (List.mem_map_of_mem ho)
  · have hzero : filledFor bought o.id = 0 := filledFor_eq_zero fun f hf => by
      obtain ⟨b, hb, hfill⟩ := hbought f hf
      rw [hfill.order_id]
      exact hne b hb o ho
    rw [filledFor_append, hzero, zero_add]
  · refine if_neg fun hmem => ?_
    obtain ⟨b, hb, heq⟩ := List.mem_map.mp hmem
    exact hne b hb o ho heq

/-- **Liquidity is conserved and none that crosses is left unused.** The fills of a call are of
distinct orders, each at its order's price for some of its amount, and they are drawn from the
levels of the book. -/
theorem simulate_assigned (maker_fee_rate now : ℚ) (open_orders : List Order) (book : OrderBook)
    (current_mid : ℚ) (hids : (open_orders.map Order.id).Nodup)
    (hamount : ∀ o ∈ open_orders, 0 ≤ o.amount)
    (hasks : book.asks.Pairwise fun a b => a.1 ≤ b.1)
    (hbids : book.bids.Pairwise fun a b => b.1 ≤ a.1) :
    let fills := simulate maker_fee_rate now open_orders book current_mid
    (fills.map SimulatedFill.order_id).Nodup ∧
    (∀ f ∈ fills, ∃ o ∈ open_orders, FillOf o.side o f) ∧
    ∃ draw,
      Assigned .buy book.asks (buy_orders open_orders) fills (fun _ => 0) draw ∧
      Assigned .sell book.bids (sell_orders open_orders) fills (fun _ => 0) draw := by
  intro fills
  refine ⟨simulate_ids hids, ?_, ?_⟩
  · intro f hf
    rw [show fills = _ from simulate_eq ..] at hf
    rcases List.mem_append.mp hf with hf | hf
    · obtain ⟨o, ho, hfill⟩ := fillOf_fill_side hf
      obtain ⟨ho, hside⟩ := mem_buy_orders.mp ho
      exact ⟨o, ho, hside ▸ hfill⟩
    · obtain ⟨o, ho, hfill⟩ := fillOf_fill_side hf
      obtain ⟨ho, hside⟩ := mem_sell_orders.mp ho
      exact ⟨o, ho, hside ▸ hfill⟩
  · have hnodup := sides_nodup hids
    obtain ⟨hbuy_ids, hsell_ids, -⟩ := List.nodup_append.mp hnodup
    obtain ⟨buys, hbuys⟩ : ∃ draw, Assigned .buy book.asks (buy_orders open_orders)
        (fill_side (fun o l => try_fill maker_fee_rate now .buy o l book.timestamp current_mid)
          (buy_orders open_orders) book.asks) (fun _ => 0) draw :=
      fill_side_assigned (Left.all book.asks) (sorted_asks hasks) hbuy_ids
        fun o ho => hamount o (mem_buy_orders.mp ho).1
    obtain ⟨sells, hsells⟩ : ∃ draw, Assigned .sell book.bids (sell_orders open_orders)
        (fill_side (fun o l => try_fill maker_fee_rate now .sell o l book.timestamp current_mid)
          (sell_orders open_orders) book.bids) (fun _ => 0) draw :=
      fill_side_assigned (Left.all book.bids) (sorted_bids hbids) hsell_ids
        fun o ho => hamount o (mem_sell_orders.mp ho).1
    rw [show fills = _ from simulate_eq ..]
    exact exists_assigned hnodup (fun f hf => fillOf_fill_side hf) (fun f hf => fillOf_fill_side hf)
      hbuys hsells

/-- Two buys compete for a level of 2 behind which another, of 5, is past the second's price. -/
theorem simulate_assigned_compete :
    let order (id : String) (price : ℚ) : Order :=
      { id := id, exchange := "mexc", symbol := "", side := .buy, price := price, amount := 2
        amount_usd := 0, status := "open", timestamp := 0 }
    let orders := [order "a" 11, order "b" 10]
    let book : OrderBook := ⟨"mexc", [], [(9, 1), (10, 2), (11, 5)], 0⟩
    ((simulate 0 0 orders book 10).map SimulatedFill.amount) = [2, 1] ∧
    ∃ draw, Assigned .buy book.asks (buy_orders orders) (simulate 0 0 orders book 10) (fun _ => 0)
      draw := by
  intro order orders book
  obtain ⟨-, -, draw, hbuys, -⟩ := simulate_assigned 0 0 orders book 10 (by decide)
    (by decide +kernel) (by decide +kernel) (by decide +kernel)
  exact ⟨by decide +kernel, draw, hbuys⟩

end FillSimulator

end Meridian
