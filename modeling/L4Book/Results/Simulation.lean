import L4Book.Refinement.Queries

/-!
# The book refines the abstract book

The refinement of the primitive methods, in one statement: from every reachable book, every method
replies and moves as the abstract book does, and every read view of the book it leaves is a reading
of the abstract book after the operation.

## Main results

* `orderBook_refines`
-/

namespace L4Book

variable {π : Profile} {b : OrderBook}

/-! ### A book to look at -/

/-- A resting order of the sample book. -/
def sampleOrder (id : OrderId) (wallet : UInt8) (side : Side) (price : Price) (qty : Qty) : Order :=
  ⟨id, ⟨Vector.replicate 20 wallet⟩, side, price, qty, 0⟩

/-- Two bids at one price and one below, two asks; a removed bid leaves a slot to be reused. -/
def sampleCalls : List Call :=
  [.add (sampleOrder 1 1 .bid 100 5), .add (sampleOrder 2 2 .bid 100 7),
    .add (sampleOrder 3 1 .bid 99 4), .remove 1, .add (sampleOrder 4 2 .bid 100 3),
    .add (sampleOrder 5 1 .ask 101 6), .add (sampleOrder 6 2 .ask 103 9)]

/-- The book after the sample calls. -/
def sampleBook : OrderBook :=
  match OrderBook.new.run .dev sampleCalls with
  | .ok b => b
  | .error _ => OrderBook.new

theorem sampleBook_reachable : Reachable .dev sampleBook := ⟨sampleCalls, by rfl⟩

/-- No level of the sample book holds more than a `u64` can count. -/
theorem sampleBook_fits (side : Side) (price : Price) (orders : List Order)
    (horders : sampleBook.ordersAt side price = .ok orders) : restingQty orders < UInt64.size := by
  obtain ⟨a, h⟩ := sampleBook_reachable.represents
  rw [ordersAt_spec h, Except.ok.injEq] at horders
  exact horders ▸ h.totalsFit (side, price)

/-! ### The refinement -/

/-- One method, seen from outside: the only way for it to stop is an overflow panic, in a build that
checks for overflow and only when a true level total would not fit; otherwise it replies
`expected.1` and leaves a book that represents `expected.2`, as every read view of it shows. -/
def Refines {α : Type} (π : Profile) (overflows : Prop) (outcome : Except Fault (Reply α))
    (expected : Except BookError α × AbstractBook) : Prop :=
  Returns (OnlyOverflow π overflows) outcome fun r =>
    r.1 = expected.1 ∧ Represents π r.2 expected.2 ∧ Reads r.2 expected.2

theorem refines_of_returns {α : Type} {overflows : Prop} {outcome : Except Fault (Reply α)}
    {expected : Except BookError α × AbstractBook}
    (h : Returns (OnlyOverflow π overflows) outcome fun r =>
      r.1 = expected.1 ∧ Represents π r.2 expected.2) : Refines π overflows outcome expected :=
  h.imp fun _ hr => ⟨hr.1, hr.2, hr.2.reads⟩

/-- **The order book refines the abstract book.** From every reachable book, each primitive method
does to the book what the abstract operation of that name does to the abstract book, with the same
reply. -/
theorem orderBook_refines (hb : Reachable π b) :
    ∃ a, Represents π b a ∧ Reads b a ∧
      (∀ order, Refines π (AddOverflows a order) (b.add π order) (a.add order)) ∧
      (∀ id, Refines π False (b.remove π id) (a.remove id)) ∧
      (∀ id newQty, Refines π False (b.updateSize π id newQty) (a.updateSize id newQty)) ∧
      (∀ id newQty policy, Refines π (AmendOverflows a id newQty)
        (b.amendSizeWithPolicy π id newQty policy) (a.amendSizeWithPolicy id newQty policy)) ∧
      (∀ id newQty, Refines π (AmendOverflows a id newQty) (b.amendSize π id newQty)
        (a.amendSizeWithPolicy id newQty .preserve)) ∧
      (∀ op, Refines π (OpOverflows a op) (b.applyOp π op) (a.applyOp op)) ∧
      (Represents π b.clear KeyedQueues.empty ∧ Reads b.clear KeyedQueues.empty) := by
  obtain ⟨a, h⟩ := hb.represents
  refine ⟨a, h, h.reads, ?_, ?_, ?_, ?_, ?_, ?_, ?_⟩
  · exact fun order => refines_of_returns (add_spec h order)
  · exact fun id => refines_of_returns (remove_spec h id)
  · exact fun id newQty => refines_of_returns (updateSize_spec h id newQty)
  · exact fun id newQty policy =>
      refines_of_returns (amendSizeWithPolicy_spec h id newQty policy)
  · exact fun id newQty => refines_of_returns (amendSize_spec h id newQty)
  · exact fun op => refines_of_returns (applyOp_spec h op)
  · exact ⟨represents_clear π b, (represents_clear π b).reads⟩

/-- In the sample book the removed bid is gone, and the bid that reuses its slot stands at the end
of the list. -/
theorem orderBook_refines_sample : ∃ a, Represents .dev sampleBook a ∧
    a.queue (.bid, 100) = [sampleOrder 2 2 .bid 100 7, sampleOrder 4 2 .bid 100 3] := by
  obtain ⟨a, h, hreads, -⟩ := orderBook_refines sampleBook_reachable
  refine ⟨a, h, ?_⟩
  have hlist : sampleBook.ordersAt .bid 100 =
      .ok [sampleOrder 2 2 .bid 100 7, sampleOrder 4 2 .bid 100 3] := by rfl
  exact Except.ok.inj ((hreads.ordersAt .bid 100).symm.trans hlist)

end L4Book
