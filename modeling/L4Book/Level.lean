import L4Book.Machine

/-!
# Price levels and their linked lists

`src/level.rs` and the three list functions at the end of `src/book.rs`. The slab is a vector of
optional nodes; the orders of one price level are stitched through it into a doubly linked list
whose ends the level remembers.

Every access of the source that can panic is an access that can fault here: an index out of
bounds, or an `expect` on an empty slot, with the message of the source.

## Main definitions

* `Level`, `OrderNode`, `Slab`
* `Slab.node`, `Slab.modifyNode`: read and write through `slab[i].as_ref().expect(..)`
* `linkTail`, `unlink`, `moveToTail`: the list surgery
-/

namespace L4Book

/-- Aggregate state for a single price level. -/
structure Level where
  orderCount : ℕ
  totalQty : Qty
  head : Option ℕ
  tail : Option ℕ
deriving DecidableEq, Repr

/-- `Level::new`. -/
def Level.new : Level where
  orderCount := 0
  totalQty := 0
  head := none
  tail := none

/-- An order in its slot, with the links to its neighbours at the same level. -/
structure OrderNode where
  order : Order
  next : Option ℕ
  prev : Option ℕ
deriving DecidableEq, Repr

/-- `OrderNode::new`. -/
def OrderNode.new (order : Order) : OrderNode where
  order := order
  next := none
  prev := none

/-- The slot arena. -/
abbrev Slab := List (Option OrderNode)

namespace Slab

/-- `slab[slot].as_ref().expect(msg)`. -/
def node (slab : Slab) (slot : ℕ) (msg : String) : Except Fault OrderNode :=
  match slab[slot]? with
  | none => .error .indexOutOfBounds
  | some none => .error (.expect msg)
  | some (some n) => .ok n

/-- `slab[slot] = value`. -/
def put (slab : Slab) (slot : ℕ) (value : Option OrderNode) : Except Fault Slab :=
  if slot < slab.length then .ok (slab.set slot value) else .error .indexOutOfBounds

/-- Write fields of `slab[slot].as_mut().expect(msg)`. -/
def modifyNode (slab : Slab) (slot : ℕ) (msg : String) (f : OrderNode → OrderNode) :
    Except Fault Slab := do
  let n ← slab.node slot msg
  slab.put slot (some (f n))

/-- `slab[slot].take().expect(msg)`. -/
def takeNode (slab : Slab) (slot : ℕ) (msg : String) : Except Fault (OrderNode × Slab) := do
  let n ← slab.node slot msg
  let slab ← slab.put slot none
  return (n, slab)

end Slab

/-! ### List surgery -/

/-- Append the node in `slot` to the list of `level`. -/
def linkTail (slab : Slab) (level : Level) (slot : ℕ) : Except Fault (Slab × Level) :=
  match level.tail with
  | some oldTail => do
    let slab ← slab.modifyNode oldTail "tail live" fun n => { n with next := some slot }
    let slab ← slab.modifyNode slot "new node live" fun n => { n with prev := some oldTail }
    return (slab, { level with tail := some slot })
  | none => return (slab, { level with head := some slot, tail := some slot })

/-- `match prev { Some(p) => slab[p].next = next, None => level.head = next }`. -/
def unlinkPrev (slab : Slab) (level : Level) (prev next : Option ℕ) :
    Except Fault (Slab × Level) :=
  match prev with
  | some p => do
    let slab ← slab.modifyNode p "prev live" fun n => { n with next := next }
    return (slab, level)
  | none => return (slab, { level with head := next })

/-- `match next { Some(n) => slab[n].prev = prev, None => level.tail = prev }`. -/
def unlinkNext (slab : Slab) (level : Level) (prev next : Option ℕ) :
    Except Fault (Slab × Level) :=
  match next with
  | some i => do
    let slab ← slab.modifyNode i "next live" fun n => { n with prev := prev }
    return (slab, level)
  | none => return (slab, { level with tail := prev })

/-- Close the gap between `prev` and `next`. -/
def unlink (slab : Slab) (level : Level) (prev next : Option ℕ) : Except Fault (Slab × Level) := do
  let (slab, level) ← unlinkPrev slab level prev next
  unlinkNext slab level prev next

/-- Splice the node in `slot` out of its list and append it again. -/
def moveToTail (slab : Slab) (level : Level) (slot : ℕ) : Except Fault (Slab × Level) :=
  if level.tail = some slot then return (slab, level)
  else do
    let n ← slab.node slot "moving node live"
    let (slab, level) ← unlink slab level n.prev n.next
    let slab ← slab.modifyNode slot "moving node live" fun n =>
      { n with prev := none, next := none }
    linkTail slab level slot

end L4Book
