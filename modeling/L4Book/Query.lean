import L4Book.Book

/-!
# Reading the book

The iterators and queries of `src/book.rs`. The level iterator and the two `while let` walks
follow the `next` links of the slab, so on a corrupted book they could run for ever; here each
carries a fuel of one more than the slab has slots. A walk that uses it up has stood at some slot
twice, and is then `Fault.endless` in truth and not for want of fuel.

## Main definitions

* `OrdersAtLevel`, `OrdersAtLevel.forEach`: the level iterator and a `for` loop over it
* `OrderBook.depth`, `ordersAt`, `levelSummary`, `bestBid`, `bestAsk`, `bestBidAsk`, `get`
* `OrderBook.queuePosition`, `queuePositionForNewOrder`
* `OrderBook.topNLevels`, `topNLevelsAggregated`, `ordersByWallet`
* `OrderBook.assertInvariants`: the debug-only consistency check
-/

namespace L4Book

variable {σ : Type}

/-! ### Walking one level -/

/-- The iterator over one price level: the slab, and the slot it stands at. -/
structure OrdersAtLevel where
  slab : Slab
  next : Option ℕ

namespace OrdersAtLevel

/-- `Iterator::next`. An empty slot ends the iteration silently. -/
def step (it : OrdersAtLevel) : Except Fault (Option (Order × OrdersAtLevel)) :=
  match it.next with
  | none => .ok none
  | some slot =>
    match it.slab[slot]? with
    | none => .error .indexOutOfBounds
    | some none => .ok none
    | some (some node) => .ok (some (node.order, { it with next := node.next }))

/-- At most `fuel` rounds of `for order in it { body }`; `ForInStep.done` is `break`. -/
def loop (body : Order → σ → Except Fault (ForInStep σ)) :
    ℕ → OrdersAtLevel → σ → Except Fault σ
  | 0, _, _ => .error .endless
  | fuel + 1, it, acc => do
    match ← it.step with
    | none => return acc
    | some (order, it) =>
      match ← body order acc with
      | .done acc => return acc
      | .yield acc => loop body fuel it acc

/-- `for order in it { body }`. -/
def forEach (it : OrdersAtLevel) (acc : σ) (body : Order → σ → Except Fault (ForInStep σ)) :
    Except Fault σ :=
  loop body (it.slab.length + 1) it acc

/-- `it.collect()`. -/
def collect (it : OrdersAtLevel) : Except Fault (List Order) :=
  it.forEach [] fun order acc => .ok (.yield (acc ++ [order]))

end OrdersAtLevel

/-- At most `fuel` rounds of `while let Some(slot) = cur`, each of which reads the node of the slot,
runs the body on it and goes on with `cur = node.next`. -/
def Slab.walk (slab : Slab) (body : ℕ → OrderNode → σ → Except Fault σ) :
    ℕ → Option ℕ → σ → Except Fault σ
  | 0, _, _ => .error .endless
  | _ + 1, none, acc => .ok acc
  | fuel + 1, some slot, acc => do
    let node ← slab.node slot "live linked slot"
    let acc ← body slot node acc
    slab.walk body fuel node.next acc

namespace OrderBook

/-- Levels of a side in priority order, as `(price, total_qty, order_count)`. -/
def depth (b : OrderBook) (side : Side) : List (Price × Qty × ℕ) :=
  let entries := (b.levels side).toList.map fun (price, level) =>
    (price, level.totalQty, level.orderCount)
  match side with
  | .bid => entries.reverse
  | .ask => entries

/-- `(total_qty, order_count)` for one price level. -/
def levelSummary (b : OrderBook) (side : Side) (price : Price) : Option (Qty × ℕ) :=
  ((b.levels side)[price]?).map fun level => (level.totalQty, level.orderCount)

/-- Iterate orders at a single price level in FIFO order. -/
def ordersAtLevel (b : OrderBook) (side : Side) (price : Price) : OrdersAtLevel where
  slab := b.slab
  next := ((b.levels side)[price]?).bind Level.head

/-- The orders `orders_at(side, price)` yields. -/
def ordersAt (b : OrderBook) (side : Side) (price : Price) : Except Fault (List Order) :=
  (b.ordersAtLevel side price).collect

/-- `OrderBook::get`. -/
def get (b : OrderBook) (id : OrderId) : Except Fault (Option Order) :=
  match b.orderIndex.lookup id with
  | none => .ok none
  | some slot =>
    match b.slab[slot]? with
    | none => .error .indexOutOfBounds
    | some node => .ok (node.map OrderNode.order)

/-- `self.bids.keys().next_back()`. -/
def bestBid (b : OrderBook) : Option Price := b.bids.keys.getLast?

/-- `self.asks.keys().next()`. -/
def bestAsk (b : OrderBook) : Option Price := b.asks.keys.head?

/-- `best_bid_ask`. -/
def bestBidAsk (b : OrderBook) : Option Price × Option Price := (b.bestBid, b.bestAsk)

/-! ### Queue position -/

/-- The accumulators of the `queue_position` walk. -/
structure QueueWalk where
  ordersAhead : ℕ
  qtyAhead : Qty
  ordersBehind : ℕ
  qtyBehind : Qty
  seenTarget : Bool
deriving DecidableEq, Repr

/-- One round of the `queue_position` walk. -/
def QueueWalk.visit (π : Profile) (targetSlot slot : ℕ) (node : OrderNode) (w : QueueWalk) :
    Except Fault QueueWalk :=
  if slot = targetSlot then .ok { w with seenTarget := true }
  else if w.seenTarget then do
    let qtyBehind ← π.addU64 w.qtyBehind node.order.qty
    return { w with ordersBehind := w.ordersBehind + 1, qtyBehind := qtyBehind }
  else do
    let qtyAhead ← π.addU64 w.qtyAhead node.order.qty
    return { w with ordersAhead := w.ordersAhead + 1, qtyAhead := qtyAhead }

/-- Queue-position statistics for a live resting order. -/
def queuePosition (π : Profile) (b : OrderBook) (id : OrderId) :
    Except Fault (Except BookError QueuePosition) :=
  match b.orderIndex.lookup id with
  | none => .ok (.error (.unknownOrderId id))
  | some targetSlot => do
    let node ← b.slab.node targetSlot "slab slot present for indexed order"
    let target := node.order
    let level ← b.expectLevel target.side target.price "level present for resting order"
    let w ← b.slab.walk (QueueWalk.visit π targetSlot) (b.slab.length + 1) level.head
      ⟨0, 0, 0, 0, false⟩
    π.debugAssert w.seenTarget "indexed order missing from its level list"
    return .ok
      { id := some id
        side := target.side
        price := target.price
        ordersAhead := w.ordersAhead
        qtyAhead := w.qtyAhead
        ordersBehind := w.ordersBehind
        qtyBehind := w.qtyBehind
        levelOrderCount := level.orderCount
        levelTotalQty := level.totalQty }

/-- Queue-position statistics for a hypothetical order appended to the tail of `side`/`price`. -/
def queuePositionForNewOrder (b : OrderBook) (side : Side) (price : Price) : QueuePosition :=
  let (levelTotalQty, levelOrderCount) := (b.levelSummary side price).getD (0, 0)
  { id := none
    side := side
    price := price
    ordersAhead := levelOrderCount
    qtyAhead := levelTotalQty
    ordersBehind := 0
    qtyBehind := 0
    levelOrderCount := levelOrderCount
    levelTotalQty := levelTotalQty }

/-! ### Top-of-book snapshots -/

/-- A named aggregate price level snapshot. -/
structure AggregatedLevel where
  price : Price
  totalQty : Qty
  orderCount : ℕ
deriving DecidableEq, Repr

/-- Per-order data in an unaggregated level snapshot. -/
structure LevelOrder where
  id : OrderId
  wallet : WalletId
  qty : Qty
  ts : Ts
deriving DecidableEq, Repr

/-- One price level containing its resting orders in FIFO order. -/
structure UnaggregatedLevel where
  price : Price
  orders : List LevelOrder
deriving DecidableEq, Repr

/-- `top_n_levels_aggregated_for_side`. -/
def topNLevelsAggregatedForSide (b : OrderBook) (side : Side) (n : ℕ) : List AggregatedLevel :=
  ((b.depth side).take n).map fun (price, totalQty, orderCount) => ⟨price, totalQty, orderCount⟩

/-- `top_n_levels_for_side`. -/
def topNLevelsForSide (b : OrderBook) (side : Side) (n : ℕ) :
    Except Fault (List UnaggregatedLevel) :=
  ((b.depth side).take n).mapM fun (price, _, _) => do
    let orders ← b.ordersAt side price
    return ⟨price, orders.map fun order => ⟨order.id, order.wallet, order.qty, order.ts⟩⟩

/-- `top_n_levels_aggregated`: bids and asks. -/
def topNLevelsAggregated (b : OrderBook) (n : ℕ) : List AggregatedLevel × List AggregatedLevel :=
  (b.topNLevelsAggregatedForSide .bid n, b.topNLevelsAggregatedForSide .ask n)

/-- `top_n_levels`: bids and asks. -/
def topNLevels (b : OrderBook) (n : ℕ) :
    Except Fault (List UnaggregatedLevel × List UnaggregatedLevel) := do
  let bids ← b.topNLevelsForSide .bid n
  let asks ← b.topNLevelsForSide .ask n
  return (bids, asks)

/-! ### Wallet attribution -/

/-- What `WalletIter` yields while the hash set hands out `ids`: it ends at the first id the book
does not know. -/
def walletOrders (b : OrderBook) : List OrderId → Except Fault (List Order)
  | [] => .ok []
  | id :: ids => do
    match ← b.get id with
    | none => return []
    | some order => return order :: (← b.walletOrders ids)

/-- The orders `orders_by_wallet` yields. Hash-set iteration order is unspecified, so the order
`enum` in which a set is enumerated is an argument. -/
def ordersByWallet (b : OrderBook) (enum : Finset OrderId → List OrderId) (wallet : WalletId) :
    Except Fault (List Order) :=
  match b.walletIndex.lookup wallet with
  | none => .ok []
  | some set => b.walletOrders (enum set)

/-! ### The debug-only consistency check -/

/-- `assert_eq!` and `assert!`, with a name for the check. -/
def assertThat (cond : Bool) (msg : String) : Except Fault Unit :=
  if cond then .ok () else .error (.assertion msg)

/-- The accumulators of the `assert_invariants` walk: `count`, `qty` and `last`. -/
structure LevelWalk where
  count : ℕ
  qty : Qty
  last : Option ℕ

/-- One round of the `assert_invariants` walk. -/
def LevelWalk.visit (side : Side) (price : Price) (slot : ℕ) (node : OrderNode) (w : LevelWalk) :
    Except Fault LevelWalk := do
  assertThat (node.order.side = side) "side"
  assertThat (node.order.price = price) "price"
  let qty ← Profile.dev.addU64 w.qty node.order.qty
  return { count := w.count + 1, qty := qty, last := some slot }

/-- The checks `assert_invariants` makes of one level. -/
def assertLevel (b : OrderBook) (side : Side) (price : Price) (level : Level) :
    Except Fault Unit := do
  let w ← b.slab.walk (LevelWalk.visit side price) (b.slab.length + 1) level.head ⟨0, 0, none⟩
  assertThat (level.orderCount = w.count) "order_count"
  assertThat (level.totalQty = w.qty) "total_qty"
  assertThat (level.tail = w.last) "tail"

/-- `assert_invariants`, which is compiled in the `dev` profile only. -/
def assertInvariants (b : OrderBook) : Except Fault Unit := do
  for side in [Side.bid, Side.ask] do
    for (price, level) in (b.levels side).toList do
      b.assertLevel side price level
  assertThat (b.len = b.slab.countP Option.isSome) "order_index"

/-- `#[cfg(debug_assertions)] book.assert_invariants()`. -/
def debugAssertInvariants (π : Profile) (b : OrderBook) : Except Fault Unit :=
  if π = .dev then b.assertInvariants else .ok ()

end OrderBook

end L4Book
