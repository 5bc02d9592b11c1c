import L4Book.Matching

/-!
# Replay, snapshots and runs

`apply_op`, `apply_op_with_policy` and the snapshot methods of `src/book.rs`, and the runs of a
book: a finite sequence of calls of its public mutating methods, from the empty book, every one of
which returned.

## Main definitions

* `OrderBook.applyOp`, `applyOpWithPolicy`, `replay`
* `OrderBook.applySnapshotWithPolicy`, `applySnapshot`
* `Call`, `OrderBook.exec`, `OrderBook.run`: the public mutating interface as a transition system
* `Reachable`: a book some run ends in
-/

namespace L4Book

namespace OrderBook

/-- Apply a venue-neutral book operation with strict error behaviour. -/
def applyOp (π : Profile) (b : OrderBook) (op : BookOp) : Except Fault (Reply Unit) :=
  match op with
  | .add order => b.add π order
  | .remove id => do
    let (r, b) ← b.remove π id
    return (r.map fun _ => (), b)
  | .updateSize id newQty => b.updateSize π id newQty
  | .amendSize id newQty => b.amendSize π id newQty

/-- `match self.apply_op(op) { Ok(()) => Applied { op }, Err(error) => Error { op, error } }`. -/
def applyStrictly (π : Profile) (b : OrderBook) (op : BookOp) :
    Except Fault (ReplayApplyOutcome × OrderBook) := do
  let (r, b) ← b.applyOp π op
  match r with
  | .ok () => return (.applied op, b)
  | .error e => return (.error op e, b)

/-- The reply for an operation on an order the book does not have. -/
def missingOrder (op : BookOp) (id : OrderId) (policy : ReplayPolicy) : ReplayApplyOutcome :=
  if policy.missingOrder = .skip then .skipped op (.missingOrder id)
  else .error op (.unknownOrderId id)

/-- The `UpdateSize` arm of `apply_op_with_policy`. -/
def updateSizeWithPolicy (π : Profile) (b : OrderBook) (id : OrderId) (newQty : Qty)
    (policy : ReplayPolicy) : Except Fault (ReplayApplyOutcome × OrderBook) :=
  let op := BookOp.updateSize id newQty
  match b.orderIndex.lookup id with
  | none => .ok (missingOrder op id policy, b)
  | some slot => do
    let node ← b.slab.node slot "slab slot present for indexed order"
    let current := node.order.qty
    if current ≤ newQty ∧ policy.nonDecreasingUpdate = .treatAsAmend then
      let applied := BookOp.amendSize id newQty
      let (r, b) ← b.applyOp π applied
      match r with
      | .ok () => return (.coerced op applied (.nonDecreasingUpdate id current newQty), b)
      | .error e => return (.error op e, b)
    else b.applyStrictly π op

/-- Apply a venue-neutral book operation under a replay policy. -/
def applyOpWithPolicy (π : Profile) (b : OrderBook) (op : BookOp) (policy : ReplayPolicy) :
    Except Fault (ReplayApplyOutcome × OrderBook) :=
  match op with
  | .add order =>
    if b.containsKey order.id then
      if policy.duplicateAdd = .skip then .ok (.skipped op (.duplicateAdd order.id), b)
      else .ok (.error op (.duplicateOrderId order.id), b)
    else b.applyStrictly π op
  | .remove id =>
    if !b.containsKey id then .ok (missingOrder op id policy, b) else b.applyStrictly π op
  | .updateSize id newQty => b.updateSizeWithPolicy π id newQty policy
  | .amendSize id _ =>
    if !b.containsKey id then .ok (missingOrder op id policy, b) else b.applyStrictly π op

/-- Apply operations in order under a replay policy, whatever becomes of each. -/
def replay (π : Profile) (policy : ReplayPolicy) (b : OrderBook) (ops : List BookOp) :
    Except Fault OrderBook :=
  ops.foldlM (fun b op => Prod.snd <$> b.applyOpWithPolicy π op policy) b

/-! ### Snapshots -/

/-- `for order in orders { self.add(order)?; count += 1; }`. -/
def addAll (π : Profile) (b : OrderBook) : List Order → Except Fault (Reply ℕ)
  | [] => .ok (.ok 0, b)
  | order :: orders => do
    let (r, b) ← b.add π order
    match r with
    | .error e => return (.error e, b)
    | .ok () =>
      let (r, b) ← b.addAll π orders
      return (r.map (· + 1), b)

/-- The synthetic orders of one side, best price first. -/
def syntheticOrdersOfSide (b : OrderBook) (side : Side) : Except Fault (List Order) := do
  let levels ← (b.depth side).mapM fun (price, _, _) => do
    let orders ← b.ordersAt side price
    return orders.filter fun order => isSyntheticOrderId order.id
  return levels.flatten

/-- `synthetic_orders_in_book_order`. -/
def syntheticOrdersInBookOrder (b : OrderBook) : Except Fault (List Order) := do
  let bids ← b.syntheticOrdersOfSide .bid
  let asks ← b.syntheticOrdersOfSide .ask
  return bids ++ asks

/-- The loop of `validate_preserve_synthetic_snapshot`, with the ids seen so far. -/
def validateFrom (preservedIds seen : Finset OrderId) : List Order → Except BookError Unit
  | [] => .ok ()
  | order :: orders =>
    if order.qty = 0 then .error .zeroQty
    else if order.id ∈ preservedIds then .error (.duplicateOrderId order.id)
    else if isSyntheticOrderId order.id then .error (.syntheticOrderIdInSnapshot order.id)
    else if order.id ∈ seen then .error (.duplicateOrderId order.id)
    else validateFrom preservedIds (insert order.id seen) orders

/-- `validate_preserve_synthetic_snapshot`. -/
def validatePreserveSyntheticSnapshot (orders preserved : List Order) : Except BookError Unit :=
  validateFrom (preserved.map Order.id).toFinset ∅ orders

/-- Clear the book, then add the snapshot's orders and after them the preserved ones. -/
def rebuild (π : Profile) (b : OrderBook) (orders preserved : List Order) :
    Except Fault (Reply SnapshotOutcome) := do
  let b := b.clear
  let (r, b) ← b.addAll π orders
  match r with
  | .error e => return (.error e, b)
  | .ok inserted =>
    let (r, b) ← b.addAll π preserved
    return (r.map fun preserved => ⟨inserted, preserved⟩, b)

/-- Apply a snapshot using an explicit replacement policy. -/
def applySnapshotWithPolicy (π : Profile) (b : OrderBook) (orders : List Order)
    (policy : SnapshotPolicy) : Except Fault (Reply SnapshotOutcome) :=
  match policy with
  | .replace => b.rebuild π orders []
  | .preserveSynthetic => do
    let preserved ← b.syntheticOrdersInBookOrder
    match validatePreserveSyntheticSnapshot orders preserved with
    | .error e => return (.error e, b)
    | .ok () => b.rebuild π orders preserved

/-- Replace all book state with the provided orders. -/
def applySnapshot (π : Profile) (b : OrderBook) (orders : List Order) :
    Except Fault (Reply Unit) := do
  let (r, b) ← b.applySnapshotWithPolicy π orders .replace
  return (r.map fun _ => (), b)

end OrderBook

/-! ### Runs -/

/-- A call of a public mutating method. -/
inductive Call
  | add (order : Order)
  | remove (id : OrderId)
  | updateSize (id : OrderId) (newQty : Qty)
  | amendSize (id : OrderId) (newQty : Qty)
  | amendSizeWithPolicy (id : OrderId) (newQty : Qty) (policy : AmendPriorityPolicy)
  | applyOp (op : BookOp)
  | applyOpWithPolicy (op : BookOp) (policy : ReplayPolicy)
  | applyTakerOrder (takerSide : Side) (qty : Qty) (limitPrice : Price)
  | submitLimitOrder (order : Order) (policy : LimitOrderPolicy)
  | applySnapshot (orders : List Order)
  | applySnapshotWithPolicy (orders : List Order) (policy : SnapshotPolicy)
  | clear
deriving DecidableEq, Repr

namespace OrderBook

/-- The book after a call, whatever the call replied. -/
def exec (π : Profile) (b : OrderBook) : Call → Except Fault OrderBook
  | .add order => Prod.snd <$> b.add π order
  | .remove id => Prod.snd <$> b.remove π id
  | .updateSize id newQty => Prod.snd <$> b.updateSize π id newQty
  | .amendSize id newQty => Prod.snd <$> b.amendSize π id newQty
  | .amendSizeWithPolicy id newQty policy => Prod.snd <$> b.amendSizeWithPolicy π id newQty policy
  | .applyOp op => Prod.snd <$> b.applyOp π op
  | .applyOpWithPolicy op policy => Prod.snd <$> b.applyOpWithPolicy π op policy
  | .applyTakerOrder takerSide qty limitPrice =>
    Prod.snd <$> b.applyTakerOrder π takerSide qty limitPrice
  | .submitLimitOrder order policy => Prod.snd <$> b.submitLimitOrder π order policy
  | .applySnapshot orders => Prod.snd <$> b.applySnapshot π orders
  | .applySnapshotWithPolicy orders policy =>
    Prod.snd <$> b.applySnapshotWithPolicy π orders policy
  | .clear => .ok b.clear

/-- The book after a sequence of calls. -/
def run (π : Profile) (b : OrderBook) (calls : List Call) : Except Fault OrderBook :=
  calls.foldlM (exec π) b

end OrderBook

/-- A book that some sequence of calls, each of which returned, leaves behind. -/
def Reachable (π : Profile) (b : OrderBook) : Prop :=
  ∃ calls, OrderBook.new.run π calls = .ok b

end L4Book
