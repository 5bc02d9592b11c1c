import L4Book.Query

/-!
# Matching taker orders

`estimate_slippage`, `match_taker_order`, `apply_taker_order` and `submit_limit_order` of
`src/book.rs`. The accumulators of each nested loop are a structure, and the body of each loop a
function of its own.

## Main definitions

* `OrderBook.estimateSlippage`: the aggregate walk
* `OrderBook.matchTakerOrder`: the per-order walk
* `OrderBook.applyTakerOrder`: the same walk, carried out
* `OrderBook.submitLimitOrder`: the four time-in-force policies
-/

namespace L4Book

/-- `limit_allows`. -/
def limitAllows (takerSide : Side) (restingPrice limitPrice : Price) : Bool :=
  match takerSide with
  | .bid => restingPrice ≤ limitPrice
  | .ask => limitPrice ≤ restingPrice

namespace OrderBook

/-- `match taker_side { Bid => self.best_ask(), Ask => self.best_bid() }`. -/
def referencePrice (b : OrderBook) (takerSide : Side) : Option Price :=
  match takerSide with
  | .bid => b.bestAsk
  | .ask => b.bestBid

/-! ### The aggregate walk -/

/-- The accumulators of `estimate_slippage`. -/
structure SlippageWalk where
  remaining : Qty
  notional : ℕ
  limitStopped : Bool

/-- The body of the level loop of `estimate_slippage`. -/
def SlippageWalk.visitLevel (π : Profile) (takerSide : Side) (limitPrice : Price) (price : Price)
    (levelQty : Qty) (w : SlippageWalk) : Except Fault (ForInStep SlippageWalk) :=
  if !limitAllows takerSide price limitPrice then .ok (.done { w with limitStopped := true })
  else do
    let take := min w.remaining levelQty
    let cost ← π.mulU128 price.toNat take.toNat
    let notional ← π.addU128 w.notional cost
    let remaining ← π.subU64 w.remaining take
    let w := { w with remaining := remaining, notional := notional }
    if remaining = 0 then return .done w else return .yield w

/-- The level loop of `estimate_slippage`, which runs only when there is something to fill. -/
def slippageWalk (π : Profile) (b : OrderBook) (takerSide : Side) (qty : Qty)
    (limitPrice : Price) : Except Fault SlippageWalk :=
  if 0 < qty then
    forIn (b.depth takerSide.opposite) ⟨qty, 0, false⟩ fun (price, levelQty, _) w =>
      w.visitLevel π takerSide limitPrice price levelQty
  else .ok ⟨qty, 0, false⟩

/-- The extra notional versus filling `filledQty` at the reference price; the subtraction
saturates at zero, as it does on natural numbers. -/
def slippageNotional (π : Profile) (takerSide : Side) (referencePrice : Option Price)
    (filledQty : Qty) (notional : ℕ) : Except Fault (Option ℕ) :=
  if 0 < filledQty then
    match referencePrice with
    | some reference => do
      let referenceNotional ← π.mulU128 reference.toNat filledQty.toNat
      match takerSide with
      | .bid => return some (notional - referenceNotional)
      | .ask => return some (referenceNotional - notional)
    | none => .ok none
  else .ok none

/-- Estimate execution and slippage for a hypothetical limit taker order. -/
def estimateSlippage (π : Profile) (b : OrderBook) (takerSide : Side) (qty : Qty)
    (limitPrice : Price) : Except Fault SlippageEstimate := do
  let referencePrice := b.referencePrice takerSide
  let w ← b.slippageWalk π takerSide qty limitPrice
  let filledQty ← π.subU64 qty w.remaining
  let slippageNotional ← slippageNotional π takerSide referencePrice filledQty w.notional
  return {
    takerSide := takerSide
    requestedQty := qty
    filledQty := filledQty
    unfilledQty := w.remaining
    filledNotional := w.notional
    limitPrice := limitPrice
    referencePrice := referencePrice
    slippageNotional := slippageNotional
    limitStopped := w.limitStopped
    exhaustedBook := 0 < w.remaining && !w.limitStopped }

/-! ### The per-order walk -/

/-- The accumulators of `match_taker_order`. -/
structure MatchWalk where
  remaining : Qty
  notional : ℕ
  fills : List FillDelta
  limitStopped : Bool

/-- The body of the maker loop of `match_taker_order`. -/
def MatchWalk.visitMaker (π : Profile) (maker : Order) (w : MatchWalk) :
    Except Fault (ForInStep MatchWalk) :=
  if w.remaining = 0 then .ok (.done w)
  else do
    let filledQty := min w.remaining maker.qty
    let makerQtyAfter ← π.subU64 maker.qty filledQty
    let fill : FillDelta :=
      { makerOrderId := maker.id
        makerWallet := maker.wallet
        makerSide := maker.side
        price := maker.price
        filledQty := filledQty
        makerQtyBefore := maker.qty
        makerQtyAfter := makerQtyAfter
        makerRemoved := makerQtyAfter = 0 }
    let cost ← π.mulU128 maker.price.toNat filledQty.toNat
    let notional ← π.addU128 w.notional cost
    let remaining ← π.subU64 w.remaining filledQty
    return .yield
      { w with remaining := remaining, notional := notional, fills := w.fills ++ [fill] }

/-- The body of the level loop of `match_taker_order`. -/
def MatchWalk.visitLevel (π : Profile) (b : OrderBook) (takerSide : Side) (limitPrice : Price)
    (price : Price) (w : MatchWalk) : Except Fault (ForInStep MatchWalk) :=
  if !limitAllows takerSide price limitPrice then .ok (.done { w with limitStopped := true })
  else do
    let w ← (b.ordersAtLevel takerSide.opposite price).forEach w (MatchWalk.visitMaker π)
    if w.remaining = 0 then return .done w else return .yield w

/-- The level loop of `match_taker_order`, which runs only when there is something to fill. -/
def matchWalk (π : Profile) (b : OrderBook) (takerSide : Side) (qty : Qty) (limitPrice : Price) :
    Except Fault MatchWalk :=
  if 0 < qty then
    forIn (b.depth takerSide.opposite) ⟨qty, 0, [], false⟩ fun (price, _, _) w =>
      w.visitLevel π b takerSide limitPrice price
  else .ok ⟨qty, 0, [], false⟩

/-- Match a hypothetical taker limit order against the opposite side. -/
def matchTakerOrder (π : Profile) (b : OrderBook) (takerSide : Side) (qty : Qty)
    (limitPrice : Price) : Except Fault TakerMatch := do
  let w ← b.matchWalk π takerSide qty limitPrice
  let filledQty ← π.subU64 qty w.remaining
  return {
    takerSide := takerSide
    requestedQty := qty
    filledQty := filledQty
    unfilledQty := w.remaining
    filledNotional := w.notional
    limitPrice := limitPrice
    referencePrice := b.referencePrice takerSide
    fills := w.fills
    limitStopped := w.limitStopped
    exhaustedBook := 0 < w.remaining && !w.limitStopped }

/-- The body of the loop of `apply_taker_order`. -/
def applyFill (π : Profile) (b : OrderBook) (fill : FillDelta) : Except Fault (Reply Unit) :=
  if fill.makerRemoved then do
    let (r, b) ← b.remove π fill.makerOrderId
    return (r.map fun _ => (), b)
  else b.updateSize π fill.makerOrderId fill.makerQtyAfter

/-- The loop of `apply_taker_order` over the fills, whose body ends in `?`. -/
def applyFills (π : Profile) (b : OrderBook) : List FillDelta → Except Fault (Reply Unit)
  | [] => .ok (.ok (), b)
  | fill :: fills => do
    let (r, b) ← b.applyFill π fill
    match r with
    | .error e => return (.error e, b)
    | .ok () => b.applyFills π fills

/-- Apply a taker limit order to the book. -/
def applyTakerOrder (π : Profile) (b : OrderBook) (takerSide : Side) (qty : Qty)
    (limitPrice : Price) : Except Fault (Reply TakerMatch) :=
  if qty = 0 then .ok (.error .zeroQty, b)
  else do
    let takerMatch ← b.matchTakerOrder π takerSide qty limitPrice
    let (r, b) ← b.applyFills π takerMatch.fills
    return (r.map fun _ => takerMatch, b)

/-! ### Submitting limit orders -/

/-- `limit_order_would_cross`. -/
def limitOrderWouldCross (b : OrderBook) (side : Side) (price : Price) : Bool :=
  match side with
  | .bid => b.bestAsk.any fun bestAsk => bestAsk ≤ price
  | .ask => b.bestBid.any fun bestBid => price ≤ bestBid

/-- The `Gtc` branch: take what is there, then rest the remainder. -/
def submitGtc (π : Profile) (b : OrderBook) (order : Order) :
    Except Fault (Reply SubmitLimitOrderOutcome) := do
  let (r, b) ← b.applyTakerOrder π order.side order.qty order.price
  match r with
  | .error e => return (.error e, b)
  | .ok takerMatch =>
    if 0 < takerMatch.unfilledQty then
      let rested := { order with qty := takerMatch.unfilledQty }
      let (r, b) ← b.add π rested
      return (r.map fun _ => ⟨.gtc, none, takerMatch, some rested⟩, b)
    else return (.ok ⟨.gtc, none, takerMatch, none⟩, b)

/-- The `Ioc` branch, and what `Fok` does once its simulation is complete. -/
def submitTake (π : Profile) (b : OrderBook) (order : Order) (policy : LimitOrderPolicy) :
    Except Fault (Reply SubmitLimitOrderOutcome) := do
  let (r, b) ← b.applyTakerOrder π order.side order.qty order.price
  return (r.map fun takerMatch => ⟨policy, none, takerMatch, none⟩, b)

/-- The `Fok` branch: simulate first, and reject what is not complete. -/
def submitFok (π : Profile) (b : OrderBook) (order : Order) :
    Except Fault (Reply SubmitLimitOrderOutcome) := do
  let simulated ← b.matchTakerOrder π order.side order.qty order.price
  if !simulated.isComplete then
    return (.ok ⟨.fok, some .fillOrKillWouldNotFill, simulated, none⟩, b)
  else b.submitTake π order .fok

/-- The `PostOnly` branch: reject what would cross, and rest the whole order otherwise. -/
def submitPostOnly (π : Profile) (b : OrderBook) (order : Order) :
    Except Fault (Reply SubmitLimitOrderOutcome) := do
  let takerMatch ← b.matchTakerOrder π order.side order.qty order.price
  if b.limitOrderWouldCross order.side order.price then
    return (.ok ⟨.postOnly, some .postOnlyWouldCross, takerMatch, none⟩, b)
  else
    let (r, b) ← b.add π order
    return (r.map fun _ => ⟨.postOnly, none, takerMatch, some order⟩, b)

/-- Submit a limit order using a simulator policy. -/
def submitLimitOrder (π : Profile) (b : OrderBook) (order : Order) (policy : LimitOrderPolicy) :
    Except Fault (Reply SubmitLimitOrderOutcome) :=
  if order.qty = 0 then .ok (.error .zeroQty, b)
  else if b.containsKey order.id then .ok (.error (.duplicateOrderId order.id), b)
  else match policy with
  | .gtc => b.submitGtc π order
  | .ioc => b.submitTake π order .ioc
  | .fok => b.submitFok π order
  | .postOnly => b.submitPostOnly π order

end OrderBook

end L4Book
