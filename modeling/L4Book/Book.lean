import L4Book.Level
import Mathlib.Data.Finmap
import Std.Data.ExtTreeMap

/-!
# The order book and its primitive mutations

`OrderBook` and its methods `add`, `remove`, `update_size`, `amend_size_with_policy` and `clear`
from `src/book.rs`, statement by statement. A `&mut self` method returns its `Result` together
with the book it leaves behind, inside `Except Fault`.

The two price maps are Lean's extensional ordered maps, as `BTreeMap` is an ordered map. The hash
maps are finite maps: no method of the book depends on their iteration order except
`orders_by_wallet`, which takes the order as an argument. The free list is a stack whose top is
the head of the list.

## Main definitions

* `OrderBook`, `OrderBook.new`
* `Reply`: what a mutating method replies with
* `OrderBook.add`, `remove`, `updateSize`, `amendSizeWithPolicy`, `amendSize`, `clear`
-/

namespace L4Book

/-- `BTreeMap<Price, Level>`. -/
abbrev LevelMap := Std.ExtTreeMap Price Level compare

/-- A limit order book with per-order wallet attribution. -/
structure OrderBook where
  slab : Slab
  freeList : List ℕ
  orderIndex : Finmap fun _ : OrderId => ℕ
  bids : LevelMap
  asks : LevelMap
  walletIndex : Finmap fun _ : WalletId => Finset OrderId

/-- What a `&mut self` method replies with: its `Result`, and the book after it. -/
abbrev Reply (α : Type) := Except BookError α × OrderBook

namespace OrderBook

/-- `OrderBook::new`. -/
def new : OrderBook where
  slab := []
  freeList := []
  orderIndex := ∅
  bids := ∅
  asks := ∅
  walletIndex := ∅

/-- `OrderBook::with_capacity`. What it reserves is memory for so many orders, not slots. -/
def withCapacity (_orders : ℕ) : OrderBook := new

/-- `OrderBook::len`. -/
def len (b : OrderBook) : ℕ := b.orderIndex.keys.card

/-- `OrderBook::is_empty`. -/
def isEmpty (b : OrderBook) : Bool := b.len == 0

/-- `OrderBook::slab_len`. -/
def slabLen (b : OrderBook) : ℕ := b.slab.length

/-- `self.order_index.contains_key(&id)`. -/
def containsKey (b : OrderBook) (id : OrderId) : Bool := (b.orderIndex.lookup id).isSome

/-- `match side { Bid => &self.bids, Ask => &self.asks }`. -/
def levels (b : OrderBook) : Side → LevelMap
  | .bid => b.bids
  | .ask => b.asks

/-- The book with one side's price map replaced. -/
def setLevels (b : OrderBook) (side : Side) (m : LevelMap) : OrderBook :=
  match side with
  | .bid => { b with bids := m }
  | .ask => { b with asks := m }

/-- `levels.get(&price).expect(msg)`. -/
def expectLevel (b : OrderBook) (side : Side) (price : Price) (msg : String) :
    Except Fault Level :=
  match (b.levels side)[price]? with
  | some level => .ok level
  | none => .error (.expect msg)

/-- `alloc_slot`: reuse the last freed slot, or grow the slab by one. -/
def allocSlot (b : OrderBook) : ℕ × OrderBook :=
  match b.freeList with
  | slot :: rest => (slot, { b with freeList := rest })
  | [] => (b.slab.length, { b with slab := b.slab ++ [none] })

/-- `wallet_index.entry(wallet).or_default().insert(id)`. -/
def indexWallet (b : OrderBook) (wallet : WalletId) (id : OrderId) : OrderBook :=
  { b with
    walletIndex :=
      b.walletIndex.insert wallet (insert id ((b.walletIndex.lookup wallet).getD ∅)) }

/-- Take `id` out of the wallet's set, and the wallet out of the index with its last order. -/
def unindexWallet (b : OrderBook) (wallet : WalletId) (id : OrderId) : OrderBook :=
  { b with
    walletIndex :=
      match b.walletIndex.lookup wallet with
      | some set =>
        if set.erase id = ∅ then b.walletIndex.erase wallet
        else b.walletIndex.insert wallet (set.erase id)
      | none => b.walletIndex }

/-! ### What the helpers leave alone -/

section Frame

variable (b : OrderBook) (side : Side) (m : LevelMap) (wallet : WalletId) (id : OrderId)

@[simp] theorem slab_setLevels : (b.setLevels side m).slab = b.slab := by cases side <;> rfl

@[simp] theorem freeList_setLevels : (b.setLevels side m).freeList = b.freeList := by
  cases side <;> rfl

@[simp] theorem orderIndex_setLevels : (b.setLevels side m).orderIndex = b.orderIndex := by
  cases side <;> rfl

@[simp] theorem walletIndex_setLevels : (b.setLevels side m).walletIndex = b.walletIndex := by
  cases side <;> rfl

theorem levels_setLevels (side' : Side) :
    (b.setLevels side m).levels side' = if side' = side then m else b.levels side' := by
  cases side <;> cases side' <;> rfl

@[simp] theorem levels_unindexWallet : (b.unindexWallet wallet id).levels = b.levels := by
  funext side
  cases side <;> rfl

@[simp] theorem levels_indexWallet : (b.indexWallet wallet id).levels = b.levels := by
  funext side
  cases side <;> rfl

end Frame

/-! ### The primitive mutations -/

/-- Insert a new order. Errors on zero qty or duplicate id. -/
def add (π : Profile) (b : OrderBook) (order : Order) : Except Fault (Reply Unit) :=
  if order.qty = 0 then .ok (.error .zeroQty, b)
  else if b.containsKey order.id then .ok (.error (.duplicateOrderId order.id), b)
  else do
    let (slot, b) := b.allocSlot
    let slab ← b.slab.put slot (some (OrderNode.new order))
    let b := { b with slab := slab, orderIndex := b.orderIndex.insert order.id slot }
    let b := b.indexWallet order.wallet order.id
    let level := (b.levels order.side)[order.price]?.getD Level.new
    let totalQty ← π.addU64 level.totalQty order.qty
    let level := { level with orderCount := level.orderCount + 1, totalQty := totalQty }
    let (slab, level) ← linkTail b.slab level slot
    let b := { b with slab := slab }
    return (.ok (), b.setLevels order.side ((b.levels order.side).insert order.price level))

/-- Remove and return the order with the given id. -/
def remove (π : Profile) (b : OrderBook) (id : OrderId) : Except Fault (Reply Order) :=
  match b.orderIndex.lookup id with
  | none => .ok (.error (.unknownOrderId id), b)
  | some slot => do
    let b := { b with orderIndex := b.orderIndex.erase id }
    let (node, slab) ← b.slab.takeNode slot "slab slot present for indexed order"
    let b := { b with slab := slab, freeList := slot :: b.freeList }
    let order := node.order
    let level ← b.expectLevel order.side order.price "level present for resting order"
    let totalQty ← π.subU64 level.totalQty order.qty
    let level := { level with orderCount := level.orderCount - 1, totalQty := totalQty }
    let (slab, level) ← unlink b.slab level node.prev node.next
    let b := { b with slab := slab }
    let levels := b.levels order.side
    let levels :=
      if level.orderCount = 0 then levels.erase order.price else levels.insert order.price level
    let b := b.setLevels order.side levels
    return (.ok order, b.unindexWallet order.wallet id)

/-- Reduce the size of a resting order (partial-fill semantics). -/
def updateSize (π : Profile) (b : OrderBook) (id : OrderId) (newQty : Qty) :
    Except Fault (Reply Unit) :=
  match b.orderIndex.lookup id with
  | none => .ok (.error (.unknownOrderId id), b)
  | some slot => do
    let node ← b.slab.node slot "slab slot present for indexed order"
    let current := node.order.qty
    if current ≤ newQty then return (.error (.nonDecreasingSize current newQty), b)
    else if newQty = 0 then
      let (r, b) ← b.remove π id
      return (r.map fun _ => (), b)
    else
      let slab ← b.slab.modifyNode slot "slab slot present" fun n =>
        { n with order := { n.order with qty := newQty } }
      let b := { b with slab := slab }
      let level ← b.expectLevel node.order.side node.order.price "level present"
      let delta ← π.subU64 current newQty
      let totalQty ← π.subU64 level.totalQty delta
      let levels := (b.levels node.order.side).insert node.order.price
        { level with totalQty := totalQty }
      return (.ok (), b.setLevels node.order.side levels)

/-- What an amendment from `current` to `newQty` does to the level of the order in `slot`. -/
def amendLevel (π : Profile) (slab : Slab) (level : Level) (slot : ℕ) (current newQty : Qty)
    (policy : AmendPriorityPolicy) : Except Fault (Slab × Level) :=
  if current < newQty then do
    let delta ← π.subU64 newQty current
    let totalQty ← π.addU64 level.totalQty delta
    let level := { level with totalQty := totalQty }
    if policy = .losePriorityOnIncrease then moveToTail slab level slot
    else return (slab, level)
  else do
    let delta ← π.subU64 current newQty
    let totalQty ← π.subU64 level.totalQty delta
    return (slab, { level with totalQty := totalQty })

/-- Amend the size of a resting order using an explicit priority policy. -/
def amendSizeWithPolicy (π : Profile) (b : OrderBook) (id : OrderId) (newQty : Qty)
    (policy : AmendPriorityPolicy) : Except Fault (Reply Unit) :=
  if newQty = 0 then do
    let (r, b) ← b.remove π id
    return (r.map fun _ => (), b)
  else match b.orderIndex.lookup id with
  | none => .ok (.error (.unknownOrderId id), b)
  | some slot => do
    let node ← b.slab.node slot "slab slot present for indexed order"
    let current := node.order.qty
    if current = newQty then return (.ok (), b)
    else
      let slab ← b.slab.modifyNode slot "slab slot present" fun n =>
        { n with order := { n.order with qty := newQty } }
      let b := { b with slab := slab }
      let level ← b.expectLevel node.order.side node.order.price "level present"
      let (slab, level) ← amendLevel π b.slab level slot current newQty policy
      let b := { b with slab := slab }
      let levels := (b.levels node.order.side).insert node.order.price level
      return (.ok (), b.setLevels node.order.side levels)

/-- Amend the size of a resting order, keeping its queue position. -/
def amendSize (π : Profile) (b : OrderBook) (id : OrderId) (newQty : Qty) :
    Except Fault (Reply Unit) :=
  b.amendSizeWithPolicy π id newQty .preserve

/-- `OrderBook::clear`. -/
def clear (b : OrderBook) : OrderBook :=
  { b with
    slab := []
    freeList := []
    orderIndex := ∅
    bids := ∅
    asks := ∅
    walletIndex := ∅ }

end OrderBook

end L4Book
