import Mathlib.Algebra.Order.Ring.Rat
import Meridian.Exchange.Base
import Meridian.Lib.Coop

/-!
# `CCXTConnector.create_limit_order`: placing through `_retry`

Model of `_retry` (`exchange/ccxt_connector.py:32-47`) and of `create_limit_order`
(`ccxt_connector.py:149-157`). Each attempt is a submission of its own, without a client order id;
the exchange may accept it and lose the answer. What becomes of the `n`-th submission is the `n`-th
entry of an arbitrary sequence of outcomes.

Results:
* `placed_twice`: a lost answer followed by an accepted attempt leaves two live orders;
* `mem_placedBy`: which attempts place an order;
* `one_order_iff`: a call places at most one order, and returns it alone, iff no lost attempt is
  followed by another accepted one before the loop stops.
-/

namespace Meridian.Ccxt

open Meridian.Coop

/-- The ccxt exceptions that `_retry` tells apart. -/
inductive CcxtError where
  | NetworkError
  | RequestTimeout
  | DDoSProtection
  | RateLimitExceeded
  | AuthenticationError
  | ExchangeError
  deriving DecidableEq

/-- `_RETRYABLE_ERRORS`. -/
def CcxtError.retryable : CcxtError → Bool
  | .NetworkError | .RequestTimeout | .DDoSProtection | .RateLimitExceeded => true
  | .AuthenticationError | .ExchangeError => false

/-- `_MAX_RETRIES`. -/
def MAX_RETRIES : ℕ := 3

/-- `_BASE_DELAY_S`. -/
def BASE_DELAY_S : ℚ := 1

/-- The raw order of ccxt's reply. A missing or null field is `none`; of `status`, the one field read
with a default of `get`, a null is `some none`. -/
structure RawOrder where
  id : String
  side : Side
  price : Option ℚ := none
  average : Option ℚ := none
  amount : Option ℚ := none
  status : Option (Option String) := none
  timestamp : Option ℚ := none
  filled : Option ℚ := none
  fee_cost : Option ℚ := none
  fee_currency : Option String := none
  deriving DecidableEq

/-- `x or d`: a missing or zero number gives way to `d`. -/
def orElse (x : Option ℚ) (d : ℚ) : ℚ :=
  match x with
  | some v => if v = 0 then d else v
  | none => d

/-- The `Order` that the connector builds (`base.py:43-57`), whose `status` may be `None`. -/
structure Order where
  id : String
  exchange : String
  symbol : String
  side : Side
  price : ℚ
  amount : ℚ
  amount_usd : ℚ
  status : Option String
  timestamp : ℚ
  filled_amount : ℚ
  filled_price : ℚ
  fee : ℚ
  fee_currency : String

/-- `_parse_order` (`ccxt_connector.py:202-219`); `now` is `time.time()`. -/
def parse_order (exchange_name symbol : String) (now : ℚ) (raw : RawOrder) : Order :=
  let price := orElse raw.price (orElse raw.average 0)
  let amount := orElse raw.amount 0
  { id := raw.id
    exchange := exchange_name
    symbol := symbol
    side := raw.side
    price := price
    amount := amount
    amount_usd := price * amount
    status := raw.status.getD (some "open")
    timestamp := if orElse raw.timestamp 0 = 0 then now else orElse raw.timestamp 0 / 1000
    filled_amount := orElse raw.filled 0
    filled_price := orElse raw.average 0
    fee := orElse raw.fee_cost 0
    fee_currency := raw.fee_currency.getD "" }

/-- What the connector awaits: a submission, and the back-off of `_retry`. -/
inductive Req where
  | submit (side : Side) (amount price : ℚ)
  | sleep (delay : ℚ)

abbrev Rep : Req → Type
  | .submit .. => RawOrder
  | .sleep _ => Unit

/-- How the answer to an accepted submission can be lost. -/
inductive Lost where
  | RequestTimeout
  | NetworkError
  deriving DecidableEq

def Lost.error : Lost → CcxtError
  | .RequestTimeout => .RequestTimeout
  | .NetworkError => .NetworkError

/-- What becomes of one submission. -/
inductive Outcome where
  | answered
  | lost (how : Lost)
  | refused (e : CcxtError)
  deriving DecidableEq

/-- The exchange: the outcomes to come, how many submissions it has seen, the id it gives to each
accepted one, and the orders live on it, oldest first. -/
structure Exchange where
  outcome : ℕ → Outcome
  ids : ℕ → String
  submitted : ℕ
  live : List RawOrder
  clock : ℚ

/-- The order of an accepted submission. -/
def Exchange.order (x : Exchange) (n : ℕ) (side : Side) (amount price : ℚ) : RawOrder :=
  { id := x.ids n, side := side, price := some price, amount := some amount
    status := some (some "open") }

/-- What a submission does at the exchange and what comes back. -/
def answer : Answer Exchange Rep CcxtError
  | .submit side amount price, x =>
    let raw := x.order x.submitted side amount price
    match x.outcome x.submitted with
    | .answered => (.ok raw, { x with submitted := x.submitted + 1, live := x.live ++ [raw] })
    | .lost how =>
      (.error how.error, { x with submitted := x.submitted + 1, live := x.live ++ [raw] })
    | .refused e => (.error e, { x with submitted := x.submitted + 1 })
  | .sleep delay, x => (.ok (), { x with clock := x.clock + delay })

/-- `self._exchange.create_limit_order`, one submission. -/
def submit (side : Side) (amount price : ℚ) : Prog Exchange Rep CcxtError RawOrder :=
  Prog.call (Req.submit side amount price)

/-- The loop of `_retry` from its `attempt`-th round on, `left` retries to go. -/
def retryFrom (coro_fn : Prog Exchange Rep CcxtError RawOrder) :
    (left attempt : ℕ) → Prog Exchange Rep CcxtError RawOrder
  | 0, _ => coro_fn.attempt.bind fun
    | .ok raw => .done raw
    -- `attempt == max_retries`, or not retryable: raised either way
    | .error exc => .throw exc
  | left + 1, attempt => coro_fn.attempt.bind fun
    | .ok raw => .done raw
    | .error exc =>
      if exc.retryable then do
        Prog.call (Req.sleep (BASE_DELAY_S * 2 ^ attempt))
        retryFrom coro_fn left (attempt + 1)
      else .throw exc

/-- `_retry` (`ccxt_connector.py:32-47`). -/
def retry (coro_fn : Prog Exchange Rep CcxtError RawOrder) (max_retries : ℕ) :
    Prog Exchange Rep CcxtError RawOrder := retryFrom coro_fn max_retries 0

/-- `create_limit_order` (`ccxt_connector.py:149-157`). -/
def create_limit_order (exchange_name symbol : String) (side : Side) (price amount : ℚ) :
    Prog Exchange Rep CcxtError Order := do
  let raw ← retry (submit side amount price) MAX_RETRIES
  let x ← Prog.read
  pure (parse_order exchange_name symbol x.clock raw)

/-! ## Which attempts place an order -/

/-- The exchange has the order, whether it answered or not. -/
def Outcome.accepted : Outcome → Bool
  | .answered | .lost _ => true
  | .refused _ => false

/-- The attempt surfaces as a retryable error. -/
def Outcome.retried : Outcome → Bool
  | .answered => false
  | .lost _ => true
  | .refused e => e.retryable

/-- The numbers of the submissions that place an order, in a loop that starts at submission `n`
with `left` retries to go. -/
def placedBy (outcome : ℕ → Outcome) (n : ℕ) : (left : ℕ) → List ℕ
  | 0 => if (outcome n).accepted then [n] else []
  | left + 1 => (if (outcome n).accepted then [n] else []) ++
      if (outcome n).retried then placedBy outcome (n + 1) left else []

variable {outcome : ℕ → Outcome} {n left j : ℕ}

/-- An attempt places an order iff it is accepted and every attempt before it was retried. -/
theorem mem_placedBy : ∀ {left n : ℕ}, j ∈ placedBy outcome n left ↔
    n ≤ j ∧ j ≤ n + left ∧ (∀ m, n ≤ m → m < j → (outcome m).retried = true) ∧
      (outcome j).accepted = true
  | 0, n => by
    rw [placedBy]
    constructor
    · intro h
      split at h
      · rename_i ha
        obtain rfl := List.mem_singleton.mp h
        exact ⟨le_rfl, le_rfl, fun m h1 h2 => by omega, ha⟩
      · exact absurd h List.not_mem_nil
    · rintro ⟨h1, h2, -, ha⟩
      obtain rfl : j = n := by omega
      rw [if_pos ha]
      exact List.mem_singleton_self _
  | left + 1, n => by
    rw [placedBy, List.mem_append]
    constructor
    · rintro (h | h)
      · split at h
        · rename_i ha
          obtain rfl := List.mem_singleton.mp h
          exact ⟨le_rfl, by omega, fun m h1 h2 => by omega, ha⟩
        · exact absurd h List.not_mem_nil
      · split at h
        · rename_i hr
          obtain ⟨h1, h2, h3, ha⟩ := mem_placedBy.mp h
          refine ⟨by omega, by omega, fun m hm hj => ?_, ha⟩
          rcases Nat.eq_or_lt_of_le hm with rfl | hm
          · exact hr
          · exact h3 m hm hj
        · exact absurd h List.not_mem_nil
    · rintro ⟨h1, h2, h3, ha⟩
      rcases Nat.eq_or_lt_of_le h1 with rfl | h1
      · exact Or.inl (by rw [if_pos ha]; exact List.mem_singleton_self _)
      · refine Or.inr ?_
        rw [if_pos (h3 n le_rfl h1)]
        exact mem_placedBy.mpr ⟨h1, by omega, fun m hm hj => h3 m (by omega) hj, ha⟩

/-- The attempts place their orders one after the other. -/
theorem placedBy_sorted : ∀ (left n : ℕ), (placedBy outcome n left).Pairwise (· < ·)
  | 0, n => by
    rw [placedBy]
    split
    · exact List.pairwise_singleton _ _
    · exact List.Pairwise.nil
  | left + 1, n => by
    rw [placedBy, List.pairwise_append]
    refine ⟨?_, ?_, fun i hi k hk => ?_⟩
    · split
      · exact List.pairwise_singleton _ _
      · exact List.Pairwise.nil
    · split
      · exact placedBy_sorted left (n + 1)
      · exact List.Pairwise.nil
    · split at hi
      · obtain rfl := List.mem_singleton.mp hi
        split at hk
        · have := (mem_placedBy.mp hk).1
          omega
        · exact absurd hk List.not_mem_nil
      · exact absurd hi List.not_mem_nil

/-- The last round: what the submission raises is raised. -/
theorem run_retryFrom_zero (side : Side) (amount price : ℚ) (attempt : ℕ) (x : Exchange) :
    (retryFrom (submit side amount price) 0 attempt).run answer x =
      answer (.submit side amount price) x := by
  unfold retryFrom
  rw [run_bind, run_attempt, submit, run_call]
  obtain ⟨⟨exc⟩ | ⟨raw⟩, x'⟩ := answer (.submit side amount price) x
  · rfl
  · rfl

/-- An earlier round: the submission, and the rest of the loop when its error is retryable. -/
theorem run_retryFrom_succ (side : Side) (amount price : ℚ) (left attempt : ℕ) (x : Exchange) :
    (retryFrom (submit side amount price) (left + 1) attempt).run answer x =
      match answer (.submit side amount price) x with
      | (.ok raw, x') => (.ok raw, x')
      | (.error exc, x') =>
        if exc.retryable then (retryFrom (submit side amount price) left (attempt + 1)).run
          answer { x' with clock := x'.clock + BASE_DELAY_S * 2 ^ attempt }
        else (.error exc, x') := by
  rw [retryFrom, run_bind, run_attempt, submit, run_call]
  obtain ⟨⟨exc⟩ | ⟨raw⟩, x'⟩ := answer (.submit side amount price) x
  · simp only
    split
    · simp only [bind_eq, run_bind, run_call]
      rfl
    · rfl
  · rfl

/-- The loop places exactly those orders, and returns the last of them if it returns one. -/
theorem run_retryFrom (side : Side) (amount price : ℚ) :
    ∀ (left attempt : ℕ) (x : Exchange),
      let r := (retryFrom (submit side amount price) left attempt).run answer x
      r.2.live = x.live ++ (placedBy x.outcome x.submitted left).map
        (x.order · side amount price) ∧
      ∀ raw, r.1 = .ok raw → ∃ js j, placedBy x.outcome x.submitted left = js ++ [j] ∧
        raw = x.order j side amount price
  | 0, attempt, x => by
    simp only [run_retryFrom_zero, answer, placedBy]
    cases ho : x.outcome x.submitted with
    | answered => exact ⟨rfl, fun raw h => ⟨[], x.submitted, rfl, (Except.ok.inj h).symm⟩⟩
    | lost how => exact ⟨rfl, fun raw h => absurd h (by simp)⟩
    | refused e => exact ⟨(List.append_nil _).symm, fun raw h => absurd h (by simp)⟩
  | left + 1, attempt, x => by
    simp only [run_retryFrom_succ, answer, placedBy]
    cases ho : x.outcome x.submitted with
    | answered => exact ⟨rfl, fun raw h => ⟨[], x.submitted, rfl, (Except.ok.inj h).symm⟩⟩
    | lost how =>
      have hr : how.error.retryable = true := by cases how <;> rfl
      obtain ⟨h1, h2⟩ := run_retryFrom side amount price left (attempt + 1)
        { x with
          submitted := x.submitted + 1
          live := x.live ++ [x.order x.submitted side amount price]
          clock := x.clock + BASE_DELAY_S * 2 ^ attempt }
      simp only [hr, if_true, Outcome.accepted, Outcome.retried]
      refine ⟨by rw [h1, List.append_assoc]; rfl, fun raw h => ?_⟩
      obtain ⟨js, j, hj, hraw⟩ := h2 raw h
      exact ⟨x.submitted :: js, j, by rw [hj]; rfl, hraw⟩
    | refused e =>
      by_cases hr : e.retryable = true
      · simp only [hr, if_true, Outcome.accepted, Outcome.retried, Bool.false_eq_true, if_false,
          List.nil_append]
        exact run_retryFrom side amount price left (attempt + 1)
          { x with
            submitted := x.submitted + 1
            clock := x.clock + BASE_DELAY_S * 2 ^ attempt }
      · simp only [hr, Outcome.accepted, Outcome.retried, Bool.false_eq_true, if_false,
          List.nil_append]
        exact ⟨(List.append_nil _).symm, fun raw h => absurd h (by simp)⟩

/-! ## At most one order -/

/-- The call leaves at most one live order, and an order it returns is that one. -/
def PlacesOne (exchange_name symbol : String) (r : Except CcxtError Order × Exchange) : Prop :=
  r.2.live.length ≤ 1 ∧
    ∀ o, r.1 = .ok o → ∃ raw, r.2.live = [raw] ∧ o = parse_order exchange_name symbol r.2.clock raw

/-- No submission accepted with its answer lost is followed by another accepted one before the
loop stops: the attempts before the later one are all retried, and it is one of the first four. -/
def NoneAfterLost (outcome : ℕ → Outcome) : Prop :=
  ∀ i j how, i < j → j ≤ MAX_RETRIES → outcome i = .lost how →
    (∀ m < j, (outcome m).retried = true) → (outcome j).accepted = false

/-- A list of increasing numbers has at most one element iff no member is below another. -/
theorem length_le_one_iff {l : List ℕ} (h : l.Pairwise (· < ·)) :
    l.length ≤ 1 ↔ ∀ i ∈ l, ∀ j ∈ l, ¬ i < j := by
  cases l with
  | nil => simp
  | cons a l =>
    cases l with
    | nil => simp
    | cons b l =>
      have hab : a < b := (List.pairwise_cons.mp h).1 b List.mem_cons_self
      constructor
      · intro hl
        simp at hl
      · intro hall
        exact absurd hab (hall a List.mem_cons_self b (List.mem_cons_of_mem _ List.mem_cons_self))

theorem length_placedBy_le_one :
    (placedBy outcome 0 MAX_RETRIES).length ≤ 1 ↔ NoneAfterLost outcome := by
  rw [length_le_one_iff (placedBy_sorted _ _)]
  constructor
  · intro h i j how hij hj hlost hretried
    by_contra hne
    have hacc : (outcome j).accepted = true := by simpa using hne
    refine h i (mem_placedBy.mpr ⟨Nat.zero_le i, by omega, fun m _ hm => ?_, ?_⟩) j
      (mem_placedBy.mpr ⟨Nat.zero_le j, by omega, fun m _ hm => hretried m hm, hacc⟩) hij
    · exact hretried m (by omega)
    · rw [hlost]
      rfl
  · intro h i hi j hj hij
    obtain ⟨-, -, -, hacci⟩ := mem_placedBy.mp hi
    obtain ⟨-, hjle, hretried, haccj⟩ := mem_placedBy.mp hj
    have hri := hretried i (Nat.zero_le i) hij
    cases ho : outcome i with
    | answered => simp [ho, Outcome.retried] at hri
    | refused e => simp [ho, Outcome.accepted] at hacci
    | lost how =>
      have := h i j how hij (by omega) ho fun m hm => hretried m (Nat.zero_le m) hm
      rw [haccj] at this
      exact absurd this (by simp)

theorem run_create_limit_order (exchange_name symbol : String) (side : Side) (price amount : ℚ)
    (x : Exchange) :
    (create_limit_order exchange_name symbol side price amount).run answer x =
      match (retryFrom (submit side amount price) MAX_RETRIES 0).run answer x with
      | (.ok raw, x') => (.ok (parse_order exchange_name symbol x'.clock raw), x')
      | (.error exc, x') => (.error exc, x') := by
  unfold create_limit_order retry
  rw [bind_eq, run_bind]
  obtain ⟨⟨exc⟩ | ⟨raw⟩, x'⟩ := (retryFrom (submit side amount price) MAX_RETRIES 0).run answer x
  · rfl
  · rfl

/-- **One order per call**, on an exchange that holds none of it yet: the call leaves at most one
live order, and returns it alone, iff no submission whose answer was lost is followed by another
accepted one before the loop stops. -/
theorem one_order_iff (exchange_name symbol : String) (side : Side) (price amount : ℚ)
    (outcome : ℕ → Outcome) (ids : ℕ → String) (clock : ℚ) :
    PlacesOne exchange_name symbol ((create_limit_order exchange_name symbol side price amount).run
      answer { outcome := outcome, ids := ids, submitted := 0, live := [], clock := clock }) ↔
    NoneAfterLost outcome := by
  rw [← length_placedBy_le_one, run_create_limit_order]
  obtain ⟨hlive, hret⟩ := run_retryFrom side amount price MAX_RETRIES 0
    { outcome := outcome, ids := ids, submitted := 0, live := [], clock := clock }
  rw [List.nil_append] at hlive
  revert hlive hret
  generalize (retryFrom (submit side amount price) MAX_RETRIES 0).run answer _ = r
  obtain ⟨res, x'⟩ := r
  intro hlive hret
  have hlen : x'.live.length = (placedBy outcome 0 MAX_RETRIES).length := by
    rw [show x'.live = _ from hlive, List.length_map]
  cases res with
  | error exc =>
    simp only [PlacesOne, reduceCtorEq, false_implies, implies_true, and_true, hlen]
  | ok raw =>
    simp only [PlacesOne, hlen, Except.ok.injEq]
    refine ⟨fun h => h.1, fun h => ⟨h, ?_⟩⟩
    rintro o rfl
    obtain ⟨js, j, hp, hraw⟩ := hret raw rfl
    have hp' : placedBy outcome 0 MAX_RETRIES = js ++ [j] := hp
    obtain rfl : js = [] := by
      rw [hp', List.length_append, List.length_singleton] at h
      exact List.length_eq_zero_iff.mp (by omega)
    refine ⟨raw, ?_, rfl⟩
    rw [show x'.live = _ from hlive, show placedBy outcome 0 MAX_RETRIES = _ from hp, hraw]
    rfl

/-- **Two live orders from one call**: the first answer times out, the retry is answered. -/
theorem placed_twice : ¬ ∀ (exchange_name symbol : String) (side : Side) (price amount : ℚ)
    (outcome : ℕ → Outcome) (ids : ℕ → String) (clock : ℚ),
    PlacesOne exchange_name symbol ((create_limit_order exchange_name symbol side price amount).run
      answer { outcome := outcome, ids := ids, submitted := 0, live := [], clock := clock }) := by
  intro h
  have htwo := (h "kucoin" "A/B" .buy 1 1
    (fun n => if n = 0 then .lost .RequestTimeout else .answered) (fun _ => "x") 0).1
  exact absurd htwo (by decide)

end Meridian.Ccxt
