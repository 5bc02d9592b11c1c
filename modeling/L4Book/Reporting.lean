import L4Book.Capture
import L4Book.Matching
import L4Book.Wallet
import Mathlib.Data.List.DropRight

/-!
# Reports on a book

What the two live clients under `examples/` compute from a book to show it: scaled integers as
decimal text, the quantity that a notional buys at the best price, and the whole book as a JSON
value. Both clients have the same `fmt_scaled`.

A division by zero is a panic of its own, which the book itself can never run into.

## What is left out

The text lines that are printed, and in them the averages, which are computed from `f64` fields.

## Main definitions

* `fmtScaled`: a scaled integer as decimal text
* `qtyForNotional`, `OrderBook.slippageReport`
* `bookSnapshot`: a book as a JSON value
-/

namespace L4Book

/-- How a report can panic. -/
inductive ReportFault
  | book (e : Fault)
  /-- `attempt to divide by zero`. -/
  | divideByZero
deriving DecidableEq, Repr

/-- The panics of the book are panics of the report. -/
def reported {α : Type} (v : Except Fault α) : Except ReportFault α := v.mapError .book

/-! ### Scaled integers as text -/

/-- `10u128.pow(digits)`. -/
def Profile.powTenU128 (π : Profile) (digits : ℕ) : Except Fault ℕ :=
  if 10 ^ digits < u128Size then .ok (10 ^ digits)
  else if π = .dev then .error .overflow
  else .ok (10 ^ digits % u128Size)

/-- `format!("{n:0width$}")`. -/
def zeroPadded (width n : ℕ) : List Char := (Nat.toDigits 10 n).leftpad width '0'

/-- `while s.ends_with('0') { s.pop(); }`. -/
def trimZeros (s : List Char) : List Char := s.rdropWhile (· = '0')

/-- `fmt_scaled`: `value` is a `u128`. -/
def fmtScaled (π : Profile) (value digits : ℕ) : Except ReportFault String :=
  if digits = 0 then .ok (Nat.repr value)
  else do
    let scale ← reported (π.powTenU128 digits)
    if scale = 0 then .error .divideByZero
    else
      let int := value / scale
      let frac := trimZeros (zeroPadded digits (value % scale))
      if frac = [] then return Nat.repr int
      else return Nat.repr int ++ "." ++ String.ofList frac

/-! ### Notionals -/

/-- `10u128.checked_pow(digits)`. -/
def checkedPowTenU128 (digits : ℕ) : Option ℕ :=
  if 10 ^ digits < u128Size then some (10 ^ digits) else none

/-- `u128::checked_mul`. -/
def checkedMulU128 (a b : ℕ) : Option ℕ := if a * b < u128Size then some (a * b) else none

/-- `qty_for_notional`. -/
def qtyForNotional (notionalUsd : UInt64) (referencePrice : Price) (scales : Scales) :
    Option Qty :=
  if referencePrice = 0 then none
  else do
    let priceScale ← checkedPowTenU128 scales.priceDigits
    let qtyScale ← checkedPowTenU128 scales.qtyDigits
    let scaled ← checkedMulU128 notionalUsd.toNat priceScale
    let scaled ← checkedMulU128 scaled qtyScale
    return UInt64.ofNat (min (scaled / referencePrice.toNat) (UInt64.size - 1))

/-- What `log_slippage` has to say. -/
inductive SlippageReport
  /-- `unavailable; missing opposite quote`. -/
  | missingQuote
  /-- `unavailable; bad reference price`. -/
  | badReferencePrice
  | estimate (qty : Qty) (e : SlippageEstimate)
deriving DecidableEq, Repr

/-- `Price::MAX`, or 0: the limit that allows every price. -/
def anyPrice (side : Side) : Price :=
  match side with
  | .bid => UInt64.ofNat (UInt64.size - 1)
  | .ask => 0

/-- `log_slippage`, up to the text. -/
def OrderBook.slippageReport (π : Profile) (b : OrderBook) (scales : Scales) (side : Side)
    (notionalUsd : UInt64) : Except Fault SlippageReport :=
  match b.referencePrice side with
  | none => .ok .missingQuote
  | some referencePrice =>
    match qtyForNotional notionalUsd referencePrice scales with
    | none => .ok .badReferencePrice
    | some qty => .estimate qty <$> b.estimateSlippage π side qty (anyPrice side)

/-! ### A book as a JSON value -/

/-- `side_name`. -/
def sideName : Side → String
  | .bid => "bid"
  | .ask => "ask"

/-- A `u64` in `json!`. -/
def jsonU64 (n : UInt64) : Json := .number (.posInt n)

/-- A counter in `json!`: a `usize` or a `u64`. -/
def jsonCount (n : ℕ) : Json := jsonU64 (UInt64.ofNat n)

/-- A price in `json!`, if there is one. -/
def jsonPriceOpt (π : Profile) (scales : Scales) : Option Price → Except ReportFault Json
  | none => .ok .null
  | some price => .string <$> fmtScaled π price.toNat scales.priceDigits

/-- `order_to_value`. -/
def orderToValue (π : Profile) (scales : Scales) (order : Order) : Except ReportFault Json := do
  let price ← fmtScaled π order.price.toNat scales.priceDigits
  let qty ← fmtScaled π order.qty.toNat scales.qtyDigits
  return .object [
    ("id", jsonU64 order.id),
    ("wallet", .string order.wallet.debugFmt),
    ("side", .string (sideName order.side)),
    ("price", .string price),
    ("raw_price", jsonU64 order.price),
    ("qty", .string qty),
    ("raw_qty", jsonU64 order.qty),
    ("ts", jsonU64 order.ts)]

/-- The body of the loop of `side_snapshot`. -/
def levelToValue (π : Profile) (scales : Scales) (b : OrderBook) (side : Side)
    (entry : Price × Qty × ℕ) : Except ReportFault Json := do
  let orders ← reported (b.ordersAt side entry.1)
  let orders ← orders.mapM (orderToValue π scales)
  let price ← fmtScaled π entry.1.toNat scales.priceDigits
  let totalQty ← fmtScaled π entry.2.1.toNat scales.qtyDigits
  return .object [
    ("price", .string price),
    ("raw_price", jsonU64 entry.1),
    ("total_qty", .string totalQty),
    ("raw_total_qty", jsonU64 entry.2.1),
    ("order_count", jsonCount entry.2.2),
    ("orders", .array orders)]

/-- `side_snapshot`. -/
def sideSnapshot (π : Profile) (scales : Scales) (b : OrderBook) (side : Side) :
    Except ReportFault Json :=
  .array <$> (b.depth side).mapM (levelToValue π scales b side)

/-- `book_snapshot`. -/
def bookSnapshot (π : Profile) (scales : Scales) (b : OrderBook) : Except ReportFault Json := do
  let bestBid ← jsonPriceOpt π scales b.bestBid
  let bestAsk ← jsonPriceOpt π scales b.bestAsk
  let bids ← sideSnapshot π scales b .bid
  let asks ← sideSnapshot π scales b .ask
  return .object [
    ("len", jsonCount b.len),
    ("best_bid", bestBid),
    ("best_ask", bestAsk),
    ("bids", bids),
    ("asks", asks)]

end L4Book
