import Meridian.Lib.FixedPoint

/-!
# `GateOrderFilter`: what Gate is sent

Model of `exchange/cpp/include/gate_connector.h:139-174` and of the parameters that
`create_limit_order` sends (`gate_connector.cpp:785-806`). `validate` looks at the price and the amount
as they were asked for, and what is sent are the texts that `round` makes of them, which are read back
with `FixedPoint.read`. Of the four limits `validate` tests three; none is tested after the rounding.

Results:
* `limits_missed`: an accepted order above `max_quote_amount`, and one that is sent with the amount 0;
* `sent_meets_iff`: what is sent keeps all limits exactly if price and amount keep them by half a unit
  of their last decimal (`Clear`);
* `base_limits_kept`: limits of the amount that have no more decimals than the amount itself are kept.
-/

namespace Meridian

open FixedPoint (fixed read read_fixed read_fixed_of_units)

/-- `GateOrderFilter` (`gate_connector.h:139-146`). -/
structure GateOrderFilter where
  price_precision : ℤ := 8
  amount_precision : ℤ := 8
  min_base_amount : ℚ := 0
  max_base_amount : ℚ := 10 ^ 15
  min_quote_amount : ℚ := 0
  max_quote_amount : ℚ := 10 ^ 15
  loaded : Bool := false

namespace GateOrderFilter

/-- The decimals that `std::setprecision` asks for: six if the precision is negative. -/
def places (precision : ℤ) : ℕ := if precision < 0 then 6 else precision.toNat

/-- `std::to_string` -/
def to_string (x : ℚ) : String := fixed 6 x

variable (f : GateOrderFilter)

/-- `round`: the texts of price and amount. -/
def round (price amount : ℚ) : String × String :=
  (fixed (places f.price_precision) price, fixed (places f.amount_precision) amount)

/-- `validate`; the error is the text of the `std::runtime_error`. -/
def validate (amount price : ℚ) : Except String Unit :=
  let quote := price * amount
  if f.loaded = false then .ok ()
  else if amount < f.min_base_amount then
    .error ("create_limit_order: amount " ++ to_string amount ++
      " is below Gate.io min_base_amount " ++ to_string f.min_base_amount)
  else if amount > f.max_base_amount then
    .error ("create_limit_order: amount " ++ to_string amount ++
      " exceeds Gate.io max_base_amount " ++ to_string f.max_base_amount)
  else if quote < f.min_quote_amount then
    .error ("create_limit_order: notional " ++ to_string quote ++
      " is below Gate.io min_quote_amount " ++ to_string f.min_quote_amount)
  else .ok ()

/-- The parameters of `spot.order_place`. -/
structure OrderParam where
  currency_pair : String
  type : String
  account : String
  side : String
  amount : String
  price : String
  time_in_force : String
  text : String

/-- The parameters of an order with these texts of price and amount. -/
def order_param (gate_symbol side : String) (texts : String × String) : OrderParam where
  currency_pair := gate_symbol
  type := "limit"
  account := "spot"
  side := side
  amount := texts.2
  price := texts.1
  time_in_force := "gtc"
  text := "t-alkimi"

/-- What `create_limit_order` sends, or throws before it sends anything
(`gate_connector.cpp:785-806`). -/
def req_param (connected : Bool) (gate_symbol side : String) (price amount : ℚ) :
    Except String OrderParam :=
  if connected = false then .error "GateConnector::create_limit_order: not connected"
  else
    match f.validate amount price with
    | .error what => .error what
    | .ok () => .ok (order_param gate_symbol side (f.round price amount))

/-! ## The limits -/

/-- Price and amount are positive and keep the four limits of the symbol, the way Gate checks them.
-/
structure Meets (price amount : ℚ) : Prop where
  price_pos : 0 < price
  amount_pos : 0 < amount
  min_base : f.min_base_amount ≤ amount
  max_base : amount ≤ f.max_base_amount
  min_quote : f.min_quote_amount ≤ price * amount
  max_quote : price * amount ≤ f.max_quote_amount

/-- At most half a unit below `k`, and half a unit only if `k` is even. -/
def Reaches (k : ℤ) (x : ℚ) : Prop := k - 1 / 2 < x ∨ x = k - 1 / 2 ∧ Even k

/-- At most half a unit above `k`, and half a unit only if `k` is even. -/
def StaysAt (k : ℤ) (x : ℚ) : Prop := x < k + 1 / 2 ∨ x = k + 1 / 2 ∧ Even k

/-- The price in units of its last decimal. -/
def price_units (price : ℚ) : ℚ := price * 10 ^ places f.price_precision

/-- The amount in units of its last decimal. -/
def amount_units (amount : ℚ) : ℚ := amount * 10 ^ places f.amount_precision

/-- How many units of price times amount make 1. -/
def quote_units : ℚ := 10 ^ places f.price_precision * 10 ^ places f.amount_precision

/-- Price and amount are more than half a unit; the amount is at most half a unit below the first
amount from `min_base_amount` on that can be sent, and above the last one up to `max_base_amount`; and
both are at most half a unit below numbers whose product reaches `min_quote_amount`, and above numbers
whose product is within `max_quote_amount`. -/
structure Clear (price amount : ℚ) : Prop where
  price_pos : 1 / 2 < f.price_units price
  amount_pos : 1 / 2 < f.amount_units amount
  min_base : Reaches ⌈f.min_base_amount * 10 ^ places f.amount_precision⌉ (f.amount_units amount)
  max_base : StaysAt ⌊f.max_base_amount * 10 ^ places f.amount_precision⌋ (f.amount_units amount)
  min_quote : ∃ k l : ℕ, f.min_quote_amount * f.quote_units ≤ k * l ∧
    Reaches k (f.price_units price) ∧ Reaches l (f.amount_units amount)
  max_quote : ∃ k l : ℕ, k * l ≤ f.max_quote_amount * f.quote_units ∧
    StaysAt k (f.price_units price) ∧ StaysAt l (f.amount_units amount)

variable {f} {price amount x : ℚ} {k : ℤ}

theorem le_round_iff_reaches : k ≤ round_half_even x ↔ Reaches k x := le_round_half_even_iff

theorem round_le_iff_staysAt : round_half_even x ≤ k ↔ StaysAt k x := round_half_even_le_iff

theorem round_pos_iff : 0 < round_half_even x ↔ 1 / 2 < x := by
  rw [lt_round_half_even_iff, Int.cast_zero, zero_add, or_iff_left]
  exact fun h => absurd h.2 (by decide)

theorem decimal_pos_iff (p : ℕ) : 0 < (round_half_even x : ℚ) / 10 ^ p ↔ 1 / 2 < x := by
  have hp : (0 : ℚ) < 10 ^ p := by positivity
  rw [div_pos_iff_of_pos_right hp, Int.cast_pos, round_pos_iff]

theorem le_decimal_iff (p : ℕ) {b : ℚ} :
    b ≤ (round_half_even x : ℚ) / 10 ^ p ↔ Reaches ⌈b * 10 ^ p⌉ x := by
  have hp : (0 : ℚ) < 10 ^ p := by positivity
  rw [le_div_iff₀ hp, ← Int.ceil_le, le_round_iff_reaches]

theorem decimal_le_iff (p : ℕ) {b : ℚ} :
    (round_half_even x : ℚ) / 10 ^ p ≤ b ↔ StaysAt ⌊b * 10 ^ p⌋ x := by
  have hp : (0 : ℚ) < 10 ^ p := by positivity
  rw [div_le_iff₀ hp, ← Int.le_floor, round_le_iff_staysAt]

theorem cast_toNat {m : ℤ} (h : 0 < m) : (m.toNat : ℚ) = m := by
  rw [← Int.cast_natCast, Int.toNat_of_nonneg h.le]

/-- A product of rounded numbers reaches what a product of numbers within reach does. -/
theorem le_mul_round_iff {y b : ℚ} (hx : 0 < round_half_even x) (hy : 0 < round_half_even y) :
    b ≤ round_half_even x * round_half_even y ↔
      ∃ k l : ℕ, b ≤ k * l ∧ Reaches k x ∧ Reaches l y := by
  constructor
  · intro h
    refine ⟨(round_half_even x).toNat, (round_half_even y).toNat, ?_, ?_, ?_⟩
    · rwa [cast_toNat hx, cast_toNat hy]
    · exact le_round_iff_reaches.mp (Int.toNat_of_nonneg hx.le).le
    · exact le_round_iff_reaches.mp (Int.toNat_of_nonneg hy.le).le
  · rintro ⟨k, l, hb, hk, hl⟩
    have hk : ((k : ℤ) : ℚ) ≤ round_half_even x := Int.cast_le.mpr (le_round_iff_reaches.mpr hk)
    have hl : ((l : ℤ) : ℚ) ≤ round_half_even y := Int.cast_le.mpr (le_round_iff_reaches.mpr hl)
    rw [Int.cast_natCast] at hk hl
    exact hb.trans (mul_le_mul hk hl l.cast_nonneg (Int.cast_nonneg hx.le))

/-- A product of rounded numbers is within what a product of numbers they stay at is. -/
theorem mul_round_le_iff {y b : ℚ} (hx : 0 < round_half_even x) (hy : 0 < round_half_even y) :
    round_half_even x * round_half_even y ≤ b ↔
      ∃ k l : ℕ, k * l ≤ b ∧ StaysAt k x ∧ StaysAt l y := by
  constructor
  · intro h
    refine ⟨(round_half_even x).toNat, (round_half_even y).toNat, ?_, ?_, ?_⟩
    · rwa [cast_toNat hx, cast_toNat hy]
    · exact round_le_iff_staysAt.mp (Int.toNat_of_nonneg hx.le).ge
    · exact round_le_iff_staysAt.mp (Int.toNat_of_nonneg hy.le).ge
  · rintro ⟨k, l, hb, hk, hl⟩
    have hk : (round_half_even x : ℚ) ≤ (k : ℤ) := Int.cast_le.mpr (round_le_iff_staysAt.mpr hk)
    have hl : (round_half_even y : ℚ) ≤ (l : ℤ) := Int.cast_le.mpr (round_le_iff_staysAt.mpr hl)
    rw [Int.cast_natCast] at hk hl
    exact (mul_le_mul hk hl (Int.cast_nonneg hy.le) k.cast_nonneg).trans hb

/-! ## What is sent -/

/-- What `validate` accepts. -/
theorem validate_eq_ok_iff (hloaded : f.loaded = true) :
    f.validate amount price = .ok () ↔ f.min_base_amount ≤ amount ∧ amount ≤ f.max_base_amount ∧
      f.min_quote_amount ≤ price * amount := by
  have hnot : ¬f.loaded = false := by rw [hloaded]; decide
  rw [validate, if_neg hnot]
  split_ifs with hlo hhi hquote
  · exact iff_of_false nofun fun h => hlo.not_ge h.1
  · exact iff_of_false nofun fun h => hhi.not_ge h.2.1
  · exact iff_of_false nofun fun h => hquote.not_ge h.2.2
  · exact iff_of_true rfl ⟨not_lt.mp hlo, not_lt.mp hhi, not_lt.mp hquote⟩

/-- A request goes out with the texts of `round`, and only after `validate`. -/
theorem req_param_eq_ok_iff {connected : Bool} {gate_symbol side : String} {param : OrderParam} :
    f.req_param connected gate_symbol side price amount = .ok param ↔
      connected = true ∧ f.validate amount price = .ok () ∧
        order_param gate_symbol side (f.round price amount) = param := by
  unfold req_param
  cases connected with
  | false => exact iff_of_false nofun fun h => absurd h.1 (by decide)
  | true =>
    cases f.validate amount price with
    | error what => exact iff_of_false nofun fun h => nomatch h.2.1
    | ok u => exact ⟨fun h => ⟨rfl, rfl, Except.ok.inj h⟩, fun h => congrArg Except.ok h.2.2⟩

/-- The texts of `round` keep the limits exactly if price and amount are clear of them. -/
theorem meets_round_iff (f : GateOrderFilter) (price amount : ℚ) :
    f.Meets (read (f.round price amount).1) (read (f.round price amount).2) ↔
      f.Clear price amount := by
  have hprice : read (f.round price amount).1 =
      round_half_even (f.price_units price) / 10 ^ places f.price_precision := read_fixed _ _
  have hamount : read (f.round price amount).2 =
      round_half_even (f.amount_units amount) / 10 ^ places f.amount_precision := read_fixed _ _
  have hquote : read (f.round price amount).1 * read (f.round price amount).2 =
      round_half_even (f.price_units price) * round_half_even (f.amount_units amount) /
        f.quote_units := by
    rw [hprice, hamount, div_mul_div_comm, quote_units]
  have hunits : 0 < f.quote_units := by
    unfold quote_units
    positivity
  constructor
  · rintro ⟨hp, ha, hmin, hmax, hqmin, hqmax⟩
    rw [hquote, le_div_iff₀ hunits] at hqmin
    rw [hquote, div_le_iff₀ hunits] at hqmax
    rw [hprice, decimal_pos_iff] at hp
    rw [hamount] at ha hmin hmax
    rw [decimal_pos_iff] at ha
    have hp' := round_pos_iff.mpr hp
    have ha' := round_pos_iff.mpr ha
    exact ⟨hp, ha, (le_decimal_iff _).mp hmin, (decimal_le_iff _).mp hmax,
      (le_mul_round_iff hp' ha').mp hqmin, (mul_round_le_iff hp' ha').mp hqmax⟩
  · rintro ⟨hp, ha, hmin, hmax, hqmin, hqmax⟩
    have hp' := round_pos_iff.mpr hp
    have ha' := round_pos_iff.mpr ha
    refine ⟨?_, ?_, ?_, ?_, ?_, ?_⟩
    · exact hprice ▸ (decimal_pos_iff _).mpr hp
    · exact hamount ▸ (decimal_pos_iff _).mpr ha
    · exact hamount ▸ (le_decimal_iff _).mpr hmin
    · exact hamount ▸ (decimal_le_iff _).mpr hmax
    · rw [hquote, le_div_iff₀ hunits]
      exact (le_mul_round_iff hp' ha').mpr hqmin
    · rw [hquote, div_le_iff₀ hunits]
      exact (mul_round_le_iff hp' ha').mpr hqmax

/-- **What is sent keeps Gate's limits** exactly if price and amount are clear of them by what
rounding can take off or add. The limits are checked before the rounding, so that what just meets
one may be sent as a number that does not. -/
theorem sent_meets_iff (f : GateOrderFilter) {connected : Bool} {gate_symbol side : String}
    {price amount : ℚ} {param : OrderParam}
    (h : f.req_param connected gate_symbol side price amount = .ok param) :
    f.Meets (read param.price) (read param.amount) ↔ f.Clear price amount := by
  obtain ⟨-, -, rfl⟩ := req_param_eq_ok_iff.mp h
  exact meets_round_iff f price amount

/-- The limits of the amount are kept if they have no more decimals than an amount that is sent. -/
theorem base_limits_kept (hloaded : f.loaded = true) (hvalid : f.validate amount price = .ok ())
    {lo hi : ℤ} (hlo : f.min_base_amount * 10 ^ places f.amount_precision = lo)
    (hhi : f.max_base_amount * 10 ^ places f.amount_precision = hi) :
    f.min_base_amount ≤ read (f.round price amount).2 ∧
      read (f.round price amount).2 ≤ f.max_base_amount := by
  have hscale : (0 : ℚ) ≤ 10 ^ places f.amount_precision := by positivity
  obtain ⟨hmin, hmax, -⟩ := (validate_eq_ok_iff hloaded).mp hvalid
  have hround : read (f.round price amount).2 =
      round_half_even (f.amount_units amount) / 10 ^ places f.amount_precision := read_fixed _ _
  rw [hround, le_decimal_iff, decimal_le_iff, hlo, hhi, Int.ceil_intCast, Int.floor_intCast]
  refine ⟨.inl ?_, .inl ?_⟩
  · rw [← hlo]
    exact (sub_lt_self _ one_half_pos).trans_le (mul_le_mul_of_nonneg_right hmin hscale)
  · rw [← hhi]
    exact (mul_le_mul_of_nonneg_right hmax hscale).trans_lt (lt_add_of_pos_right _ one_half_pos)

/-- The filter of the test of `validate`. -/
def tested : GateOrderFilter :=
  { min_base_amount := 1, max_base_amount := 10 ^ 6, min_quote_amount := 1, loaded := true }

theorem sent_meets_tested : ∃ param : OrderParam,
    tested.req_param true "ALKIMI_USDT" "buy" (1 / 50) 100 = .ok param ∧
      (tested.Meets (read param.price) (read param.amount) ↔ tested.Clear (1 / 50) 100) := by
  have hvalid : tested.validate 100 (1 / 50) = .ok () :=
    (validate_eq_ok_iff rfl).mpr ⟨by decide +kernel, by decide +kernel, by decide +kernel⟩
  have hsent : tested.req_param true "ALKIMI_USDT" "buy" (1 / 50) 100 =
      .ok (order_param "ALKIMI_USDT" "buy" (tested.round (1 / 50) 100)) :=
    req_param_eq_ok_iff.mpr ⟨rfl, hvalid, rfl⟩
  exact ⟨_, hsent, sent_meets_iff tested hsent⟩

/-- A notional of at most 100. -/
def capped : GateOrderFilter := { max_quote_amount := 100, loaded := true }

/-- Whole tokens only. -/
def whole : GateOrderFilter := { amount_precision := 0, loaded := true }

/-- A notional of 1000 is accepted, and an amount of 0.4 is accepted and sent as 0. -/
theorem limits_missed :
    (capped.validate 1000 1 = .ok () ∧
      ¬capped.Meets (read (capped.round 1 1000).1) (read (capped.round 1 1000).2)) ∧
    whole.validate (2 / 5) 1 = .ok () ∧
      ¬whole.Meets (read (whole.round 1 (2 / 5)).1) (read (whole.round 1 (2 / 5)).2) := by
  refine ⟨⟨?_, fun h => ?_⟩, ?_, fun h => ?_⟩
  · exact (validate_eq_ok_iff rfl).mpr ⟨by decide +kernel, by decide +kernel, by decide +kernel⟩
  · have hprice : read (capped.round 1 1000).1 = 1 :=
      read_fixed_of_units (m := 10 ^ 8) (by decide +kernel)
    have hamount : read (capped.round 1 1000).2 = 1000 :=
      read_fixed_of_units (m := 10 ^ 11) (by decide +kernel)
    have hmax := h.max_quote
    rw [hprice, hamount] at hmax
    exact absurd hmax (by decide +kernel)
  · exact (validate_eq_ok_iff rfl).mpr ⟨by decide +kernel, by decide +kernel, by decide +kernel⟩
  · have hpos := ((meets_round_iff _ _ _).mp h).amount_pos
    exact absurd hpos (by decide +kernel)

end GateOrderFilter

end Meridian
