import Mathlib.Algebra.Order.Ring.Int
import Mathlib.Data.List.DropRight
import Mathlib.Order.Bounds.Basic
import Mathlib.Tactic.Ring

/-!
# Admission of orders

The check of the body of a request to place an order, and the margin that the
wallet is asked to reserve for it. A limit order needs its notional divided by
its leverage, rounded up; a market order has no price yet and reserves what the
user offers.

Prices and quantities have 64 bits and are multiplied in 128. An operation whose
result has more is an outcome of its own here, so that it can be shown not to
happen.

## Main results

- `admission_locks_needed_margin`: what is admitted, and with what margin
-/

namespace Server

/-! ## Text -/

/-- `char::is_whitespace`. -/
def isWhitespace (c : Char) : Bool :=
  let n := c.toNat
  (9 ≤ n && n ≤ 13) || n = 0x20 || n = 0x85 || n = 0xA0 || n = 0x1680 ||
    (0x2000 ≤ n && n ≤ 0x200A) || n = 0x2028 || n = 0x2029 || n = 0x202F || n = 0x205F || n = 0x3000

/-- `str::trim`. -/
def trim (s : String) : String :=
  String.ofList ((s.toList.dropWhile isWhitespace).rdropWhile isWhitespace)

/-! ## The check -/

def minLeverage : ℤ := 1

def maxLeverage : ℤ := 100

/-- The fields of the body that are checked. -/
structure PlaceOrder where
  marketId : Int64
  marketName : String
  quantity : Int64
  price : Int64
  margin : Int64
  leverage : Int64

structure ValidatedPlaceOrder where
  marketName : String
  requiredMargin : ℤ
  deriving DecidableEq

/-- Why there is no result: the order is refused with a message, or an operation
leaves the range of its type. -/
inductive Failure
  | message (text : String)
  | overflow
  deriving DecidableEq

/-- The result of an operation on `i128`. -/
def i128 (x : ℤ) : Except Failure ℤ :=
  if -2 ^ 127 ≤ x ∧ x < 2 ^ 127 then .ok x else .error .overflow

/-- Division of `i128`, which truncates. -/
def i128Div (x y : ℤ) : Except Failure ℤ := if y = 0 then .error .overflow else i128 (x.tdiv y)

def computeRequiredMargin (quantity price leverage : ℤ) : Except Failure ℤ := do
  let notional ← i128 (quantity * price)
  let sum ← i128 (notional + leverage)
  let less ← i128 (sum - 1)
  let requiredMargin ← i128Div less leverage
  -- `i64::try_from`
  if -2 ^ 63 ≤ requiredMargin ∧ requiredMargin < 2 ^ 63 then .ok requiredMargin
  else .error (.message "required margin exceeds supported range")

/-- The margin of an order whose fields are in range. -/
def requiredMarginOf (orderData : PlaceOrder) : Except Failure ℤ :=
  if orderData.price.toInt = 0 then .ok orderData.margin.toInt
  else do
    let computedMargin ← computeRequiredMargin orderData.quantity.toInt orderData.price.toInt
      orderData.leverage.toInt
    if orderData.margin.toInt < computedMargin then
      .error (.message ("margin must be at least required margin (" ++
        toString computedMargin ++ ")"))
    else .ok computedMargin

def validatePlaceOrder (orderData : PlaceOrder) : Except Failure ValidatedPlaceOrder :=
  if orderData.marketId.toInt ≤ 0 then
    .error (.message "market_id must be greater than zero")
  else if trim orderData.marketName = "" then
    .error (.message "market_name cannot be empty")
  else if orderData.quantity.toInt ≤ 0 then
    .error (.message "quantity must be greater than zero")
  else if orderData.price.toInt < 0 then
    .error (.message "price cannot be negative")
  else if ¬(minLeverage ≤ orderData.leverage.toInt ∧ orderData.leverage.toInt ≤ maxLeverage) then
    .error (.message ("leverage must be between " ++ toString minLeverage ++ " and " ++
      toString maxLeverage))
  else if orderData.margin.toInt ≤ 0 then
    .error (.message "margin must be greater than zero")
  else do
    let requiredMargin ← requiredMarginOf orderData
    return { marketName := trim orderData.marketName, requiredMargin }

/-! ## What is admitted -/

/-- The least multiple of a divisor that reaches a number. -/
theorem isLeast_ceil (n : ℤ) {d : ℤ} (hd : 0 < d) :
    IsLeast {m : ℤ | n ≤ m * d} ((n + d - 1) / d) := by
  constructor
  · have hlt : n + d - 1 < (n + d - 1) / d * d + d := Int.lt_ediv_add_one_mul_self _ hd |>.trans_eq
      (by ring)
    show n ≤ (n + d - 1) / d * d
    omega
  · intro m hm
    have hm : n ≤ m * d := hm
    have hmul : n + d - 1 < (m + 1) * d := by
      rw [add_mul, one_mul]
      omega
    exact Int.lt_add_one_iff.1 (Int.ediv_lt_of_lt_mul hd hmul)

theorem i128_of_fits {x : ℤ} (hlow : -2 ^ 127 ≤ x) (hhigh : x < 2 ^ 127) : i128 x = .ok x :=
  if_pos ⟨hlow, hhigh⟩

/-- No operation of the computation leaves 128 bits; its result may not fit in 64. -/
theorem computeRequiredMargin_eq {quantity price leverage : ℤ} (hquantity : 0 < quantity)
    (hquantity' : quantity < 2 ^ 63) (hprice : 0 < price) (hprice' : price < 2 ^ 63)
    (hleverage : minLeverage ≤ leverage) (hleverage' : leverage ≤ maxLeverage) :
    computeRequiredMargin quantity price leverage =
      if (quantity * price + leverage - 1) / leverage < 2 ^ 63 then
        .ok ((quantity * price + leverage - 1) / leverage)
      else .error (.message "required margin exceeds supported range") := by
  have hone : 1 ≤ leverage := hleverage
  have hhundred : leverage ≤ 100 := hleverage'
  have hpos : 0 < quantity * price := mul_pos hquantity hprice
  have hproduct : quantity * price < 2 ^ 63 * 2 ^ 63 := by
    exact mul_lt_mul'' hquantity' hprice' hquantity.le hprice.le
  have hless : 0 ≤ quantity * price + leverage - 1 := by omega
  have hdiv : (quantity * price + leverage - 1).tdiv leverage =
      (quantity * price + leverage - 1) / leverage := Int.tdiv_eq_ediv_of_nonneg hless
  have hnonneg : 0 ≤ (quantity * price + leverage - 1) / leverage :=
    Int.ediv_nonneg hless (by omega)
  have hle : (quantity * price + leverage - 1) / leverage ≤ quantity * price + leverage - 1 :=
    Int.ediv_le_self _ hless
  have hdivisor : leverage ≠ 0 := by omega
  unfold computeRequiredMargin i128Div
  rw [i128_of_fits (by omega) (by omega)]
  show (i128 (quantity * price + leverage) >>= _) = _
  rw [i128_of_fits (by omega) (by omega)]
  show (i128 (quantity * price + leverage - 1) >>= _) = _
  rw [i128_of_fits (by omega) (by omega)]
  show ((if leverage = 0 then _ else i128 ((quantity * price + leverage - 1).tdiv leverage)) >>=
    _) = _
  rw [if_neg hdivisor, hdiv, i128_of_fits (by omega) (by omega)]
  show (if _ then _ else _) = _
  by_cases hfits : (quantity * price + leverage - 1) / leverage < 2 ^ 63
  · rw [if_pos hfits, if_pos ⟨by omega, hfits⟩]
  · rw [if_neg hfits, if_neg fun h => hfits h.2]

/-- The fields of an order are in range. -/
structure InRange (order : PlaceOrder) : Prop where
  marketId : 0 < order.marketId.toInt
  marketName : trim order.marketName ≠ ""
  quantity : 0 < order.quantity.toInt
  price : 0 ≤ order.price.toInt
  leverage : minLeverage ≤ order.leverage.toInt ∧ order.leverage.toInt ≤ maxLeverage
  margin : 0 < order.margin.toInt

/-- The margin offered covers the notional of a limit order. -/
def Covers (order : PlaceOrder) : Prop :=
  0 < order.price.toInt →
    order.quantity.toInt * order.price.toInt ≤ order.margin.toInt * order.leverage.toInt

/-- The margin that an admitted order reserves. -/
structure RequiredMargin (order : PlaceOrder) (requiredMargin : ℤ) : Prop where
  market : order.price.toInt = 0 → requiredMargin = order.margin.toInt
  limit : order.price.toInt ≠ 0 → IsLeast
    {m : ℤ | order.quantity.toInt * order.price.toInt ≤ m * order.leverage.toInt} requiredMargin
  bounds : 1 ≤ requiredMargin ∧ requiredMargin ≤ order.margin.toInt

section Admission

variable {order : PlaceOrder}

/-- An order with enough margin reserves what it needs of it. -/
theorem requiredMarginOf_of_covers (h : InRange order) (hcovers : Covers order) :
    ∃ m, requiredMarginOf order = .ok m ∧ RequiredMargin order m := by
  have hmargin := h.margin
  by_cases hprice : order.price.toInt = 0
  · exact ⟨order.margin.toInt, if_pos hprice, fun _ => rfl, fun hne => absurd hprice hne,
      by omega, le_rfl⟩
  · have hpos : 0 < order.price.toInt := lt_of_le_of_ne h.price (Ne.symm hprice)
    have hleverage : 0 < order.leverage.toInt := lt_of_lt_of_le Int.one_pos h.leverage.1
    have hleast := isLeast_ceil (order.quantity.toInt * order.price.toInt) hleverage
    let m := (order.quantity.toInt * order.price.toInt + order.leverage.toInt - 1) /
      order.leverage.toInt
    have hle : m ≤ order.margin.toInt := hleast.2 (hcovers hpos)
    have hfits : m < 2 ^ 63 := hle.trans_lt order.margin.toInt_lt
    have hone : 1 ≤ m := by
      have hreaches : order.quantity.toInt * order.price.toInt ≤ m * order.leverage.toInt := hleast.1
      have hproduct : 0 < m * order.leverage.toInt := (mul_pos h.quantity hpos).trans_le hreaches
      exact pos_of_mul_pos_left hproduct hleverage.le
    refine ⟨m, ?_, fun hzero => absurd hzero hprice, fun _ => hleast, hone, hle⟩
    rw [requiredMarginOf, if_neg hprice, computeRequiredMargin_eq h.quantity
      order.quantity.toInt_lt hpos order.price.toInt_lt h.leverage.1 h.leverage.2, if_pos hfits]
    exact if_neg (not_lt.2 hle)

/-- An order with too little is refused, whether its margin fits in 64 bits or not. -/
theorem requiredMarginOf_of_not_covers (h : InRange order) (hcovers : ¬Covers order) :
    ∃ text, requiredMarginOf order = .error (.message text) := by
  obtain ⟨hpos, hless⟩ := Classical.not_imp.1 hcovers
  have hleverage : 0 < order.leverage.toInt := lt_of_lt_of_le Int.one_pos h.leverage.1
  have hleast := isLeast_ceil (order.quantity.toInt * order.price.toInt) hleverage
  rw [requiredMarginOf, if_neg hpos.ne', computeRequiredMargin_eq h.quantity
    order.quantity.toInt_lt hpos order.price.toInt_lt h.leverage.1 h.leverage.2]
  split
  · refine ⟨_, if_pos (lt_of_not_ge fun hle => hless ?_)⟩
    have hreaches : order.quantity.toInt * order.price.toInt ≤ _ * order.leverage.toInt := hleast.1
    exact hreaches.trans (mul_le_mul_of_nonneg_right hle hleverage.le)
  · exact ⟨_, rfl⟩

/-- The checks of the fields come first. -/
theorem validatePlaceOrder_of_inRange (h : InRange order) :
    validatePlaceOrder order = (requiredMarginOf order).map fun requiredMargin =>
      { marketName := trim order.marketName, requiredMargin } := by
  rw [validatePlaceOrder, if_neg (not_le.2 h.marketId), if_neg h.marketName,
    if_neg (not_le.2 h.quantity), if_neg (not_lt.2 h.price), if_neg (not_not.2 h.leverage),
    if_neg (not_le.2 h.margin)]
  cases requiredMarginOf order with
  | ok m => rfl
  | error e => rfl

theorem validatePlaceOrder_of_not_inRange (h : ¬InRange order) :
    ∃ text, validatePlaceOrder order = .error (.message text) := by
  unfold validatePlaceOrder
  split_ifs with hmarket hname hquantity hprice hleverage hmargin
  · exact ⟨_, rfl⟩
  · exact ⟨_, rfl⟩
  · exact ⟨_, rfl⟩
  · exact ⟨_, rfl⟩
  · exact ⟨_, rfl⟩
  · exact absurd ⟨not_le.1 hmarket, hname, not_le.1 hquantity, not_lt.1 hprice, hleverage,
      not_le.1 hmargin⟩ h
  · exact ⟨_, rfl⟩

/-- An order is admitted exactly when its fields are in range and the margin offered
covers it, and then it reserves the margin it needs. No operation overflows. -/
theorem admission_locks_needed_margin (order : PlaceOrder) :
    ((∃ validated, validatePlaceOrder order = .ok validated) ↔ InRange order ∧ Covers order) ∧
      (∀ validated, validatePlaceOrder order = .ok validated →
        validated.marketName = trim order.marketName ∧
          RequiredMargin order validated.requiredMargin) ∧
      validatePlaceOrder order ≠ .error .overflow := by
  by_cases hrange : InRange order
  · by_cases hcovers : Covers order
    · obtain ⟨m, hm, hrequired⟩ := requiredMarginOf_of_covers hrange hcovers
      have hvalid : validatePlaceOrder order = .ok ⟨trim order.marketName, m⟩ := by
        rw [validatePlaceOrder_of_inRange hrange, hm]
        rfl
      refine ⟨⟨fun _ => ⟨hrange, hcovers⟩, fun _ => ⟨_, hvalid⟩⟩, fun validated h => ?_, ?_⟩
      · obtain rfl := Except.ok.inj (hvalid.symm.trans h)
        exact ⟨rfl, hrequired⟩
      · rw [hvalid]
        exact nofun
    · obtain ⟨text, hm⟩ := requiredMarginOf_of_not_covers hrange hcovers
      have hrefused : validatePlaceOrder order = .error (.message text) := by
        rw [validatePlaceOrder_of_inRange hrange, hm]
        rfl
      rw [hrefused]
      exact ⟨⟨nofun, fun h => absurd h.2 hcovers⟩, nofun, nofun⟩
  · obtain ⟨text, hrefused⟩ := validatePlaceOrder_of_not_inRange hrange
    rw [hrefused]
    exact ⟨⟨nofun, fun h => absurd h.1 hrange⟩, nofun, nofun⟩

end Admission

/-- The order of 10 at 100 with leverage 10 needs a margin of 100. -/
def leveragedOrder (margin : Int64) : PlaceOrder where
  marketId := 1
  marketName := " SOL-PERP "
  quantity := 10
  price := 100
  margin := margin
  leverage := 10

example : validatePlaceOrder (leveragedOrder 1000) = .ok ⟨"SOL-PERP", 100⟩ := by decide

example : validatePlaceOrder (leveragedOrder 99) =
    .error (.message "margin must be at least required margin (100)") := by decide

end Server
