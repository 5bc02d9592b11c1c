import L4Book.Foundation.Entrywise
import L4Book.Refinement.Feed
import L4Book.Refinement.Reading
import L4Book.Results.Dedupe

/-!
# Strict replay of a consistent feed

A message of the feed is read next to the book: every diff has to be consistent with the orders
that are live by then, and with the ids that have gone. Of a consistent message the decoder makes
operations that strict replay accepts one and all, and they leave the book that the venue has.

## Main definitions

* `Venue.ofBook`: the venue's view of a book before a message
* `FollowsFeed`: the book before and after a message

## Main results

* `consistentFeed_follows`
-/

namespace L4Book

/-- The size of a live order. -/
def OrderBook.sizeOf (b : OrderBook) (oid : OrderId) : Option Qty :=
  match b.get oid with
  | .ok (some o) => some o.qty
  | _ => none

/-- The venue's view of a book before a message, in which no id has gone yet. -/
def Venue.ofBook (b : OrderBook) : Venue := ⟨b.sizeOf, ∅⟩

/-- The orders of a line after a message: those that stood there, then the ones that the message
opens there, in the order of their diffs; each with the last size that is stated for it, and without
those that have gone. -/
def lineAfter (ds : List Diff) (side : Side) (price : Price) (old : List Order) : List Order :=
  (old ++ (ds.filterMap Diff.opened).filter fun o => o.place = (side, price)).filterMap
    (restated ds)

/-- What a message with the diffs `ds` makes of the book `b`. -/
structure FollowsFeed (scales : Scales) (updates : Json) (b : OrderBook) (ds : List Diff)
    (b' : OrderBook) : Prop where
  ordersAt : ∀ side price, ∃ old, b.ordersAt side price = .ok old ∧
    b'.ordersAt side price = .ok (lineAfter ds side price old)
  /-- An id that has gone is absent. -/
  gone : ∀ oid, (∃ d ∈ ds, d.removes = some oid) → b'.get oid = .ok none
  /-- An order that no diff names is as it was. -/
  others : ∀ oid, (∀ d ∈ ds, d.orderId ≠ oid) → b'.get oid = b.get oid
  /-- A new order has the diff's wallet, price and size, and the status's side and timestamp. -/
  opened : ∀ o ∈ ds.filterMap Diff.opened, ∃ d ∈ bookDiffs updates,
    OpensFrom scales (statusByOid updates) d o

/-- At some point of the message a level would hold more than a `u64` can count. -/
def FeedOverflows (b : OrderBook) (ds : List Diff) : Prop :=
  ∃ seen rest side price old, ds = seen ++ rest ∧ b.ordersAt side price = .ok old ∧
    UInt64.size ≤ restingQty (lineAfter seen side price old)

variable {π : Profile} {b : OrderBook} {a : AbstractBook} {v : Venue} {scales : Scales}
  {updates : Json} {batch : ReasonedUpdateBatch} {ds : List Diff} {oid : OrderId}

theorem sees_ofBook (h : Represents π b a) : (Venue.ofBook b).Sees a where
  size oid := by
    show b.sizeOf oid = _
    rw [OrderBook.sizeOf, get_spec h]
    cases a.find oid <;> rfl
  gone oid hoid := absurd hoid (Finset.notMem_empty oid)

theorem AbstractBook.find_foldl_follow (hds : ∀ d ∈ ds, d.orderId ≠ oid) :
    (ds.foldl follow a).find oid = a.find oid := by
  induction ds generalizing a with
  | nil => rfl
  | cons d ds ih =>
    rw [List.forall_mem_cons] at hds
    rw [List.foldl_cons, ih hds.2, find_follow_of_ne (Ne.symm hds.1)]

/-- **An id that has gone is absent**: nothing brings it back. -/
theorem Venue.Sees.not_live (h : v.Sees a) (hds : v.Consistent ds)
    (hgone : oid ∈ v.gone ∨ ∃ d ∈ ds, d.removes = some oid) :
    ¬ (ds.foldl AbstractBook.follow a).Live oid := by
  induction ds generalizing v a with
  | nil =>
    rcases hgone with hgone | ⟨d, hd, -⟩
    · exact h.gone oid hgone
    · exact absurd hd List.not_mem_nil
  | cons d ds ih =>
    obtain ⟨v', hd, hds⟩ := Venue.consistent_cons.mp hds
    refine ih (h.follow hd) hds ?_
    rcases hgone with hgone | ⟨x, hx, hremoves⟩
    · exact Or.inl (Venue.lost_read hd (h.lost hgone)).1.2
    · rcases List.mem_cons.mp hx with rfl | hx
      · exact Or.inl (Venue.lost_of_removes hd hremoves).2
      · exact Or.inr ⟨x, hx, hremoves⟩

theorem ordersAt_follow {b' : OrderBook} (h : Represents π b a) (hsees : v.Sees a)
    (hds : v.Consistent ds) (h' : Represents π b' (ds.foldl AbstractBook.follow a)) (side : Side)
    (price : Price) : ∃ old, b.ordersAt side price = .ok old ∧
      b'.ordersAt side price = .ok (lineAfter ds side price old) :=
  ⟨_, ordersAt_spec h side price, (ordersAt_spec h' side price).trans
    (congrArg Except.ok (hsees.queue_follow hds (side, price)))⟩

theorem feedOverflows_of_followOverflows (h : Represents π b a) (hsees : v.Sees a)
    (hds : v.Consistent ds) (hover : FollowOverflows a ds) : FeedOverflows b ds := by
  obtain ⟨seen, rest, ⟨side, price⟩, rfl, hsize⟩ := hover
  refine ⟨seen, rest, side, price, _, rfl, ordersAt_spec h side price, ?_⟩
  rw [hsees.queue_follow hds.of_append] at hsize
  exact hsize

/-- **Strict replay of a consistent feed**: `apply_op` refuses none of the operations that are
decoded from the message, and the book they leave is the venue's. -/
theorem consistentFeed_follows (hb : Reachable π b)
    (hbatch : decodeUpdatesWithMeta scales updates = .ok batch)
    (hread : readDiffs scales updates = .ok ds) (hds : (Venue.ofBook b).Consistent ds) :
    Returns (OnlyOverflow π (FeedOverflows b ds))
      (b.applyInOrder π (batch.ops.map ReasonedBookOp.op)) fun r =>
        r.1 = .ok () ∧ FollowsFeed scales updates b ds r.2 := by
  obtain ⟨a, h⟩ := hb.represents
  have hsees := sees_ofBook h
  obtain ⟨ds', hds', hops⟩ := exists_readDiffs hbatch
  obtain rfl : ds = ds' := Except.ok.inj (hread.symm.trans hds')
  rw [hops]
  refine (applyInOrder_spec h hsees hds).mono
    (fun e he => he.mono (feedOverflows_of_followOverflows h hsees hds)) ?_
  rintro ⟨r, b'⟩ ⟨hr, h'⟩
  refine ⟨hr, ordersAt_follow h hsees hds h', ?_, ?_, ?_⟩
  · intro oid hgone
    rw [get_spec h', KeyedQueues.find_eq_none_iff.mpr (hsees.not_live hds (Or.inr hgone))]
  · intro oid hother
    rw [get_spec h', get_spec h, AbstractBook.find_foldl_follow hother]
  · intro o ho
    obtain ⟨diff, hdiff, hopened⟩ := List.mem_filterMap.mp ho
    obtain ⟨d, hd, hread'⟩ := exists_of_mem_forall₂ (mapM_eq_ok_iff.mp hread) hdiff
    refine ⟨d, hd, ?_⟩
    cases diff with
    | new order text =>
      obtain rfl : order = o := Option.some.inj hopened
      exact opensFrom_of_readDiff hread'
    | _ => cases hopened

/-- Order 7 is opened, partially filled and filled; the complete fill comes as two diffs. -/
def filledMessage : Json :=
  sampleMessage [.object [("new", .object [("sz", .string "2")])],
    .object [("update", .object [("newSz", .string "1.5")])],
    .object [("update", .object [("newSz", .string "0.0")])], .string "remove"]

/-- The operations of the message apply strictly to the sample book, and leave no order 7. -/
theorem consistentFeed_follows_sample : ∃ batch b',
    decodeUpdatesWithMeta .btcDefault filledMessage = .ok batch ∧
      batch.ops.map ReasonedBookOp.op =
        [.add openedOrder, .updateSize 7 150000000, .remove 7] ∧
      sampleBook.applyInOrder .dev (batch.ops.map ReasonedBookOp.op) = .ok (.ok (), b') ∧
      b'.get 7 = .ok none := by
  have hread : readDiffs .btcDefault filledMessage = .ok [.new openedOrder (some "open"),
      .update 7 150000000, .update 7 0, .remove 7] := by
    decide +kernel
  obtain ⟨batch, hbatch⟩ : ∃ batch,
      decodeUpdatesWithMeta .btcDefault filledMessage = .ok batch := by
    rw [decodeUpdatesWithMeta_eq, hread]
    exact ⟨_, rfl⟩
  obtain ⟨ds, hds, hops⟩ := exists_readDiffs hbatch
  obtain rfl := Except.ok.inj (hread.symm.trans hds)
  have hconsistent : (Venue.ofBook sampleBook).Consistent [.new openedOrder (some "open"),
      .update 7 150000000, .update 7 0, .remove 7] := ⟨_, by rfl⟩
  have hspec := consistentFeed_follows sampleBook_reachable hbatch hread hconsistent
  obtain ⟨b', hr⟩ : ∃ b', sampleBook.applyInOrder .dev
      [.add openedOrder, .updateSize 7 150000000, .remove 7] = .ok (.ok (), b') := ⟨_, by rfl⟩
  have hops' : batch.ops.map ReasonedBookOp.op =
      [.add openedOrder, .updateSize 7 150000000, .remove 7] := hops
  rw [hops'] at hspec
  refine ⟨batch, b', hbatch, hops', hops' ▸ hr, ?_⟩
  exact (hspec.of_eq_ok hr).2.gone 7 ⟨.remove 7, by simp, rfl⟩

end L4Book
