import Mathlib.Algebra.BigOperators.Group.List.Basic
import Mathlib.Algebra.Order.BigOperators.Group.List
import Mathlib.Algebra.Order.Field.Rat
import Mathlib.Data.List.Nodup
import Mathlib.Tactic.Linarith
import Mathlib.Tactic.Ring
import Meridian.Lib.FixedPoint

/-!
# `Rebalancer.check_imbalance`

Model of `core/rebalancer.py` (16-99). Floats are exact rationals. Every suggestion is logged with its
amount before `round(_, 2)`, so the log says what the suggestions come to without the rounding; the
`debug` line of a check without suggestions is left out.

Results:
* `outflow_eq`: what is to leave an overweight exchange is half its excess for each underweight one;
* `never_overdraws_iff`: no exchange is to lose more than its excess over the equal share exactly if at
  most two exchanges are underweight or no overweight one has an excess.
-/

namespace Meridian.Rebalance

/-- `EXCESS_THRESHOLD` -/
def EXCESS_THRESHOLD : ℚ := 60 / 100

/-- `DEFICIT_THRESHOLD` -/
def DEFICIT_THRESHOLD : ℚ := 20 / 100

/-- `Rebalancer` -/
structure Rebalancer where
  excess_threshold : ℚ := EXCESS_THRESHOLD
  deficit_threshold : ℚ := DEFICIT_THRESHOLD

/-- A `dict` of balances, in the order of insertion. -/
structure Balances where
  items : List (String × ℚ)
  nodup : (items.map Prod.fst).Nodup

/-- `sum(balances.values())` -/
def Balances.total (b : Balances) : ℚ := (b.items.map Prod.snd).sum

/-- The equal share. -/
def Balances.equal (b : Balances) : ℚ := b.total / b.items.length

/-- A suggestion as it is logged, with the exact amount. -/
structure Move where
  from_exchange : String
  to_exchange : String
  suggested_amount : ℚ
  reason : String
  deriving DecidableEq

/-- `round(x, 2)` -/
def round2 (x : ℚ) : ℚ := round_half_even (x * 100) / 100

/-- The suggestion as it is returned. -/
def Move.rounded (m : Move) : Move := { m with suggested_amount := round2 m.suggested_amount }

/-- The format `.1%`, with so many decimals. -/
def percent (places : ℕ) (x : ℚ) : String := FixedPoint.fixed places (x * 100) ++ "%"

section Check

variable (r : Rebalancer) (b : Balances)

/-- The exchanges with more than `excess_threshold` of the total. -/
def overweight : List (String × ℚ) :=
  b.items.filter fun e => r.excess_threshold < e.2 / b.total

/-- The others with less than `deficit_threshold` of it. -/
def underweight : List (String × ℚ) :=
  b.items.filter fun e =>
    ¬r.excess_threshold < e.2 / b.total ∧ e.2 / b.total < r.deficit_threshold

/-- What is suggested to be moved out of an overweight exchange, to each underweight one. -/
def amount (over_tokens : ℚ) : ℚ :=
  let over_share := over_tokens / b.total
  let target_share : ℚ := 1 / b.items.length
  (over_share - target_share) * b.total * (1 / 2)

/-- The inner loop's body. -/
def suggest (over_ex under_ex : String × ℚ) : Option Move :=
  if 0 < amount b over_ex.2 then
    some
      { from_exchange := over_ex.1
        to_exchange := under_ex.1
        suggested_amount := amount b over_ex.2
        reason := over_ex.1 ++ " holds " ++ percent 1 (over_ex.2 / b.total) ++ " of tokens (>" ++
          percent 0 r.excess_threshold ++ "), " ++ under_ex.1 ++ " holds " ++
          percent 1 (under_ex.2 / b.total) ++ " (<" ++ percent 0 r.deficit_threshold ++ ")" }
  else none

/-- The suggestions as they are logged. -/
def moves : List Move :=
  if b.total ≤ 0 then []
  else (overweight r b).flatMap fun over_ex => (underweight r b).filterMap (suggest r b over_ex)

/-- `Rebalancer.check_imbalance` (`rebalancer.py:34-99`). -/
def check_imbalance : List Move := (moves r b).map Move.rounded

end Check

/-! ## What leaves an exchange -/

/-- What the moves take out of an exchange. -/
def outflow (ms : List Move) (exchange : String) : ℚ :=
  ((ms.filter fun m => m.from_exchange = exchange).map Move.suggested_amount).sum

theorem outflow_append (ms ms' : List Move) (exchange : String) :
    outflow (ms ++ ms') exchange = outflow ms exchange + outflow ms' exchange := by
  rw [outflow, List.filter_append, List.map_append, List.sum_append]
  rfl

/-- The moves leave every exchange at least its equal share, or what it has, and take from none more
than its excess. -/
def NeverOverdraws (b : Balances) (ms : List Move) : Prop :=
  ∀ e ∈ b.items, outflow ms e.1 ≤ max 0 (e.2 - b.equal) ∧
    min e.2 b.equal ≤ e.2 - outflow ms e.1 ∧ 0 ≤ e.2 - outflow ms e.1

variable {r : Rebalancer} {b : Balances}

theorem outflow_cons (m : Move) (ms : List Move) (exchange : String) :
    outflow (m :: ms) exchange =
      (if m.from_exchange = exchange then m.suggested_amount else 0) + outflow ms exchange := by
  unfold outflow
  rw [List.filter_cons]
  split <;> simp_all

/-- The moves out of one overweight exchange. -/
theorem outflow_suggest (over_ex : String × ℚ) (unders : List (String × ℚ)) (exchange : String) :
    outflow (unders.filterMap (suggest r b over_ex)) exchange =
      if over_ex.1 = exchange then unders.length * max 0 (amount b over_ex.2) else 0 := by
  induction unders with
  | nil => simp [outflow]
  | cons under_ex unders ih =>
    by_cases hpos : 0 < amount b over_ex.2
    · have hsome : ∃ m, suggest r b over_ex under_ex = some m ∧ m.from_exchange = over_ex.1 ∧
          m.suggested_amount = amount b over_ex.2 := ⟨_, if_pos hpos, rfl, rfl⟩
      obtain ⟨m, hm, hfrom, hamount⟩ := hsome
      rw [List.filterMap_cons_some hm, outflow_cons, ih, hfrom, hamount, max_eq_right hpos.le]
      split
      · rw [List.length_cons]
        push_cast
        ring
      · rw [add_zero]
    · have hnone : suggest r b over_ex under_ex = none := if_neg hpos
      rw [List.filterMap_cons_none hnone, ih, max_eq_left (not_lt.mp hpos), mul_zero, mul_zero]

/-- No move is out of an exchange that is not there. -/
theorem outflow_of_notMem {overs unders : List (String × ℚ)} {exchange : String}
    (h : exchange ∉ overs.map Prod.fst) :
    outflow (overs.flatMap fun over_ex => unders.filterMap (suggest r b over_ex)) exchange = 0 := by
  induction overs with
  | nil => rfl
  | cons over_ex overs ih =>
    rw [List.map_cons, List.mem_cons, not_or] at h
    rw [List.flatMap_cons, outflow_append, outflow_suggest, if_neg (Ne.symm h.1), ih h.2, add_zero]

/-- The moves out of an exchange are those of its own entry. -/
theorem outflow_flatMap {overs unders : List (String × ℚ)} (hnodup : (overs.map Prod.fst).Nodup)
    {e : String × ℚ} (he : e ∈ overs) :
    outflow (overs.flatMap fun over_ex => unders.filterMap (suggest r b over_ex)) e.1 =
      unders.length * max 0 (amount b e.2) := by
  induction overs with
  | nil => exact absurd he List.not_mem_nil
  | cons over_ex overs ih =>
    rw [List.map_cons, List.nodup_cons] at hnodup
    rw [List.flatMap_cons, outflow_append, outflow_suggest]
    rcases List.mem_cons.mp he with rfl | he
    · rw [if_pos rfl, outflow_of_notMem hnodup.1, add_zero]
    · have hne : over_ex.1 ≠ e.1 := fun h => hnodup.1 (h ▸ List.mem_map_of_mem he)
      rw [if_neg hne, ih hnodup.2 he, zero_add]

theorem amount_eq (htotal : 0 < b.total) (tokens : ℚ) :
    amount b tokens = (tokens - b.equal) / 2 := by
  unfold amount Balances.equal
  field_simp

/-- **What leaves an overweight exchange** is half its excess, once for each underweight one. -/
theorem outflow_eq (htotal : 0 < b.total) {e : String × ℚ} (he : e ∈ overweight r b) :
    outflow (moves r b) e.1 = (underweight r b).length * (max 0 (e.2 - b.equal) / 2) := by
  have hnodup : ((overweight r b).map Prod.fst).Nodup :=
    b.nodup.sublist (List.filter_sublist.map Prod.fst)
  have hhalf : max 0 (amount b e.2) = max 0 (e.2 - b.equal) / 2 := by
    rw [amount_eq htotal, ← max_div_div_right (by norm_num), zero_div]
  rw [moves, if_neg (not_le.mpr htotal), outflow_flatMap hnodup he, hhalf]

/-- Nothing leaves an exchange that is not overweight. -/
theorem outflow_eq_zero {e : String × ℚ} (he : e ∈ b.items) (hover : e ∉ overweight r b) :
    outflow (moves r b) e.1 = 0 := by
  unfold moves
  split
  · rfl
  · refine outflow_of_notMem fun h => hover ?_
    obtain ⟨e', he', heq⟩ := List.mem_map.mp h
    have hmem : e' ∈ b.items := List.mem_of_mem_filter he'
    exact List.inj_on_of_nodup_map b.nodup hmem he heq ▸ he'

/-- At most two exchanges are underweight, or no overweight one has an excess over the equal share. -/
def FewUnderweight (r : Rebalancer) (b : Balances) : Prop :=
  (underweight r b).length ≤ 2 ∨ ∀ e ∈ overweight r b, e.2 ≤ b.equal

instance (r : Rebalancer) (b : Balances) : Decidable (FewUnderweight r b) :=
  inferInstanceAs (Decidable (_ ∨ _))

theorem equal_nonneg (hb : ∀ e ∈ b.items, 0 ≤ e.2) : 0 ≤ b.equal := by
  refine div_nonneg (List.sum_nonneg fun x hx => ?_) (Nat.cast_nonneg _)
  obtain ⟨e, he, rfl⟩ := List.mem_map.mp hx
  exact hb e he

/-- Without tokens every balance is the equal share. -/
theorem le_equal_of_total (hb : ∀ e ∈ b.items, 0 ≤ e.2) (htotal : b.total ≤ 0)
    {e : String × ℚ} (he : e ∈ b.items) : e.2 ≤ b.equal := by
  have hmem : e.2 ∈ b.items.map Prod.snd := List.mem_map_of_mem he
  have hle : e.2 ≤ b.total := List.single_le_sum
    (fun x hx => by
      obtain ⟨e', he', rfl⟩ := List.mem_map.mp hx
      exact hb e' he') _ hmem
  exact (hle.trans htotal).trans (equal_nonneg hb)

/-- The bound on what leaves an exchange bounds what stays there. -/
theorem stays_of_outflow_le {tokens equal out : ℚ} (htokens : 0 ≤ tokens) (hequal : 0 ≤ equal)
    (h : out ≤ max 0 (tokens - equal)) : min tokens equal ≤ tokens - out ∧ 0 ≤ tokens - out := by
  have hmin : min tokens equal ≤ tokens - out := by
    rcases le_total tokens equal with hle | hle
    · rw [max_eq_left (by linarith)] at h
      rw [min_eq_left hle]
      linarith
    · rw [max_eq_right (by linarith)] at h
      rw [min_eq_right hle]
      linarith
  exact ⟨hmin, (le_min htokens hequal).trans hmin⟩

/-- With few underweight exchanges no more leaves than the excess. -/
theorem outflow_le (hfew : FewUnderweight r b) {e : String × ℚ} (he : e ∈ b.items) :
    outflow (moves r b) e.1 ≤ max 0 (e.2 - b.equal) := by
  by_cases htotal : 0 < b.total
  · by_cases hover : e ∈ overweight r b
    · rw [outflow_eq htotal hover]
      have hexcess : 0 ≤ max 0 (e.2 - b.equal) := le_max_left _ _
      rcases hfew with hcount | hsmall
      · have htwo : ((underweight r b).length : ℚ) ≤ 2 := by exact_mod_cast hcount
        calc ((underweight r b).length : ℚ) * (max 0 (e.2 - b.equal) / 2)
          _ ≤ 2 * (max 0 (e.2 - b.equal) / 2) :=
            mul_le_mul_of_nonneg_right htwo (by linarith)
          _ = max 0 (e.2 - b.equal) := by ring
      · rw [max_eq_left (by linarith [hsmall e hover]), zero_div, mul_zero]
    · rw [outflow_eq_zero he hover]
      exact le_max_left _ _
  · rw [moves, if_pos (not_lt.mp htotal)]
    exact le_max_left _ _

/-- With an excess and three underweight exchanges more leaves than the excess. -/
theorem lt_outflow (htotal : 0 < b.total) (hcount : 3 ≤ (underweight r b).length)
    {e : String × ℚ} (he : e ∈ overweight r b) (hexcess : b.equal < e.2) :
    max 0 (e.2 - b.equal) < outflow (moves r b) e.1 := by
  have hthree : (3 : ℚ) ≤ (underweight r b).length := by exact_mod_cast hcount
  rw [outflow_eq htotal he, max_eq_right (by linarith)]
  have hmul := mul_le_mul_of_nonneg_right hthree (show 0 ≤ (e.2 - b.equal) / 2 by linarith)
  linarith

/-- **When no suggestion overdraws**: exactly if at most two exchanges are underweight, or none that
is overweight has an excess over the equal share. Each underweight exchange is offered half of the
same excess, so that three of them take more than there is. -/
theorem never_overdraws_iff (r : Rebalancer) (b : Balances) (hb : ∀ e ∈ b.items, 0 ≤ e.2) :
    NeverOverdraws b (moves r b) ↔ FewUnderweight r b := by
  constructor
  · intro h
    by_contra hmany
    unfold FewUnderweight at hmany
    push Not at hmany
    obtain ⟨hcount, e, hover, hexcess⟩ := hmany
    have he : e ∈ b.items := List.mem_of_mem_filter hover
    rcases lt_or_ge 0 b.total with htotal | htotal
    · exact absurd (h e he).1 (not_le.mpr (lt_outflow htotal hcount hover hexcess))
    · exact absurd (le_equal_of_total hb htotal he) (not_le.mpr hexcess)
  · intro hfew e he
    have hle := outflow_le hfew he
    exact ⟨hle, stays_of_outflow_le (hb e he) (equal_nonneg hb) hle⟩

/-- A rebalancer as it is made without arguments. -/
def rebalancer : Rebalancer := {}

/-- A hundred tokens on one of three exchanges. -/
def onThree : Balances := ⟨[("kucoin", 100), ("gate", 0), ("mexc", 0)], by decide⟩

/-- A hundred tokens on one of four exchanges. -/
def onFour : Balances := ⟨[("kucoin", 100), ("gate", 0), ("mexc", 0), ("kraken", 0)], by decide⟩

theorem never_overdraws_onThree :
    (∀ e ∈ onThree.items, 0 ≤ e.2) ∧ FewUnderweight rebalancer onThree ∧
      NeverOverdraws onThree (moves rebalancer onThree) :=
  ⟨by decide +kernel, by decide +kernel,
    (never_overdraws_iff rebalancer onThree (by decide +kernel)).mpr (by decide +kernel)⟩

/-- On four exchanges 112.5 of the hundred tokens are to leave the one that has them. -/
theorem overdraws_onFour :
    (∀ e ∈ onFour.items, 0 ≤ e.2) ∧ outflow (moves rebalancer onFour) "kucoin" = 225 / 2 ∧
      ¬NeverOverdraws onFour (moves rebalancer onFour) := by
  have hout : outflow (moves rebalancer onFour) "kucoin" = 225 / 2 := by decide +kernel
  refine ⟨by decide +kernel, hout, fun h => ?_⟩
  have hstays := (h ("kucoin", 100) (List.mem_cons_self ..)).2.2
  rw [hout] at hstays
  norm_num at hstays

end Meridian.Rebalance
