import L4Book.Refinement.Queries
import L4Book.Refinement.ScaledText

/-!
# What a book exports

The export of a book is a function of the abstract book: the prices of either side, and at each of
them the list of orders. With up to thirty-eight digits nothing in it panics.

## Main definitions

* `scaledText`: what `fmt_scaled` writes
* `AbstractBook.exported`: the JSON value of an abstract book

## Main results

* `bookSnapshot_spec`
-/

namespace L4Book

variable {π : Profile} {b : OrderBook} {a : AbstractBook} {scales : Scales}

/-- What `fmt_scaled` writes. -/
def scaledText (value digits : ℕ) : String :=
  shownText (value / 10 ^ digits) (fraction value digits)

/-- The scales with which nothing panics. -/
structure Scales.Showable (scales : Scales) : Prop where
  price : scales.priceDigits ≤ 38
  qty : scales.qtyDigits ≤ 38

/-- A price as JSON, if there is one. -/
def shownPrice (scales : Scales) : Option Price → Json
  | none => .null
  | some price => .string (scaledText price.toNat scales.priceDigits)

/-- An order as JSON. -/
def shownOrder (scales : Scales) (order : Order) : Json :=
  .object [
    ("id", jsonU64 order.id),
    ("wallet", .string order.wallet.debugFmt),
    ("side", .string (sideName order.side)),
    ("price", .string (scaledText order.price.toNat scales.priceDigits)),
    ("raw_price", jsonU64 order.price),
    ("qty", .string (scaledText order.qty.toNat scales.qtyDigits)),
    ("raw_qty", jsonU64 order.qty),
    ("ts", jsonU64 order.ts)]

/-- A level as JSON. -/
def shownLevel (scales : Scales) (price : Price) (orders : List Order) : Json :=
  let totalQty := UInt64.ofNat (restingQty orders)
  .object [
    ("price", .string (scaledText price.toNat scales.priceDigits)),
    ("raw_price", jsonU64 price),
    ("total_qty", .string (scaledText totalQty.toNat scales.qtyDigits)),
    ("raw_total_qty", jsonU64 totalQty),
    ("order_count", jsonCount orders.length),
    ("orders", .array (orders.map (shownOrder scales)))]

namespace AbstractBook

/-- A side of an abstract book as JSON. -/
noncomputable def exportedSide (a : AbstractBook) (scales : Scales) (side : Side) : Json :=
  .array ((a.prices side).map fun price => shownLevel scales price (a.queue (side, price)))

/-- An abstract book as JSON. -/
noncomputable def exported (a : AbstractBook) (scales : Scales) : Json :=
  .object [
    ("len", jsonCount a.orders.length),
    ("best_bid", shownPrice scales (a.prices .bid).head?),
    ("best_ask", shownPrice scales (a.prices .ask).head?),
    ("bids", a.exportedSide scales .bid),
    ("asks", a.exportedSide scales .ask)]

end AbstractBook

theorem jsonPriceOpt_spec (hscales : scales.Showable) (price : Option Price) :
    jsonPriceOpt π scales price = .ok (shownPrice scales price) := by
  cases price with
  | none => rfl
  | some price =>
    rw [jsonPriceOpt, fmtScaled_eq hscales.price]
    rfl

theorem orderToValue_spec (hscales : scales.Showable) (order : Order) :
    orderToValue π scales order = .ok (shownOrder scales order) := by
  rw [orderToValue, fmtScaled_eq hscales.price, ok_bind, fmtScaled_eq hscales.qty]
  rfl

theorem levelToValue_spec (h : Represents π b a) (hscales : scales.Showable) (side : Side)
    (price : Price) :
    levelToValue π scales b side (depthEntry a side price) =
      .ok (shownLevel scales price (a.queue (side, price))) := by
  have horders : reported (b.ordersAt side (depthEntry a side price).1) =
      .ok (a.queue (side, price)) := congrArg reported (ordersAt_spec h side price)
  rw [levelToValue, horders, ok_bind, mapM_eq_ok fun o _ => orderToValue_spec hscales o, ok_bind,
    fmtScaled_eq hscales.price, ok_bind, fmtScaled_eq hscales.qty]
  rfl

theorem sideSnapshot_spec (h : Represents π b a) (hscales : scales.Showable) (side : Side) :
    sideSnapshot π scales b side = .ok (a.exportedSide scales side) := by
  have hlevels : ((a.prices side).map (depthEntry a side)).mapM (levelToValue π scales b side) =
      .ok ((a.prices side).map fun price => shownLevel scales price (a.queue (side, price))) := by
    rw [List.mapM_map]
    exact mapM_eq_ok fun price _ => levelToValue_spec h hscales side price
  rw [sideSnapshot, depth_spec h, hlevels]
  rfl

/-- **The export of a book is that of the abstract book.** -/
theorem bookSnapshot_spec (h : Represents π b a) (hscales : scales.Showable) :
    bookSnapshot π scales b = .ok (a.exported scales) := by
  rw [bookSnapshot, bestBid_spec h, bestAsk_spec h, jsonPriceOpt_spec hscales, ok_bind,
    jsonPriceOpt_spec hscales, ok_bind, sideSnapshot_spec h hscales, ok_bind,
    sideSnapshot_spec h hscales, ok_bind, len_spec h]
  rfl

end L4Book
