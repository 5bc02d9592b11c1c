import L4Book.Refinement.Snapshot
import L4Book.Results.Replacing

/-!
# A snapshot determines the book

`apply_snapshot` clears the book and adds the orders one by one, so that slots, chains and indexes
come out in the order of the list. None of that shows: all that matters is the order of the list at
each side and price. In particular the orders that `top_n_levels` exports, once side and price are
put back, build the book again.

## Main definitions

* `restoreOrders`: the orders of a top-of-book view
* `SameQueues`: lists with the same orders in the same turn at every place

## Main results

* `applySnapshot_fresh`: what a snapshot of fresh orders builds
* `snapshot_determinesBook`
-/

namespace L4Book

open AbstractBook (Fresh atPlace)
open OrderBook (UnaggregatedLevel)

/-- The orders of one side of a top-of-book view, with side and price put back. -/
def restoreSide (side : Side) (levels : List UnaggregatedLevel) : List Order :=
  levels.flatMap fun level =>
    level.orders.map fun o => ⟨o.id, o.wallet, side, level.price, o.qty, o.ts⟩

/-- The orders of a top-of-book view. -/
def restoreOrders (top : List UnaggregatedLevel × List UnaggregatedLevel) : List Order :=
  restoreSide .bid top.1 ++ restoreSide .ask top.2

/-- The lists hold the orders of each side and price in the same relative order. -/
def SameQueues (orders orders' : List Order) : Prop :=
  ∀ side price, orders.filter (fun o => o.side = side ∧ o.price = price) =
    orders'.filter fun o => o.side = side ∧ o.price = price

variable {π : Profile} {b b' : OrderBook} {a : AbstractBook} {orders orders' : List Order}

/-! ### What a snapshot builds -/

theorem atPlace_eq_filter (orders : List Order) (side : Side) (price : Price) :
    atPlace orders (side, price) = orders.filter fun o => o.side = side ∧ o.price = price :=
  List.filter_congr fun _ _ => decide_eq_decide.mpr Prod.ext_iff

namespace AbstractBook

theorem fresh_empty (hnonzero : ∀ o ∈ orders, o.qty ≠ 0) (hnodup : (orders.map Order.id).Nodup) :
    Fresh KeyedQueues.empty orders :=
  ⟨hnonzero, fun _ _ => KeyedQueues.not_live_empty, hnodup⟩

/-- A book is rebuilt from any list that has its orders in line. -/
theorem rebuild_of_fresh (h : Fresh KeyedQueues.empty orders)
    (hqueue : ∀ k, atPlace orders k = a.queue k) :
    rebuild orders [] = (.ok ⟨orders.length, 0⟩, a) := by
  obtain ⟨hok, hadd⟩ := addAll_of_fresh h
  have hbook : (addAll KeyedQueues.empty orders).2 = a := by
    apply KeyedQueues.ext
    funext k
    rw [hadd, KeyedQueues.queue_empty, List.nil_append, hqueue]
  rw [rebuild, hok, hbook]
  rfl

end AbstractBook

/-- **What a snapshot of fresh orders builds**, whatever the book was. -/
theorem applySnapshot_fresh (b : OrderBook) (h : Fresh KeyedQueues.empty orders)
    (hqueue : ∀ k, atPlace orders k = a.queue k) :
    Returns (OnlyOverflow π (RebuildOverflows orders [])) (b.applySnapshot π orders) fun r =>
      r.1 = .ok () ∧ Represents π r.2 a := by
  rw [OrderBook.applySnapshot, OrderBook.applySnapshotWithPolicy]
  have hspec := rebuild_spec (π := π) b orders []
  rw [AbstractBook.rebuild_of_fresh h hqueue] at hspec
  refine hspec.bind ?_
  rintro ⟨r, b'⟩ ⟨rfl, hb'⟩
  exact ⟨rfl, hb'⟩

theorem not_overflows_of_totalsFit (h : Fresh KeyedQueues.empty orders)
    (hqueue : ∀ k, atPlace orders k = a.queue k) (hfits : TotalsFit a) :
    ¬ RebuildOverflows orders [] := by
  have hfits' : TotalsFit (AbstractBook.rebuild orders []).2 :=
    (AbstractBook.rebuild_of_fresh h hqueue).symm ▸ hfits
  exact not_rebuildOverflows hfits'

/-! ### Exporting and importing -/

/-- The exported levels of a side are its ladder. -/
theorem restoreSide_levels (a : AbstractBook) (side : Side) :
    restoreSide side ((a.prices side).map (unaggregatedLevel a side)) = a.ladder side := by
  rw [restoreSide, List.flatMap_map, AbstractBook.ladder]
  refine List.flatMap_congr fun p _ => ?_
  rw [unaggregatedLevel, List.map_map]
  refine (List.map_congr_left fun o ho => ?_).trans (List.map_id _)
  obtain ⟨hside, hprice⟩ := Prod.mk.inj (a.placed ho)
  subst hside hprice
  rfl

/-- **A book exports all its orders.** -/
theorem restoreOrders_spec (h : Represents π b a) {n : ℕ} (hn : ∀ side, (b.depth side).length ≤ n) :
    ∃ top, b.topNLevels n = .ok top ∧ restoreOrders top = a.orders := by
  have hall : ∀ side, (a.prices side).take n = a.prices side := by
    intro side
    have hlen := hn side
    rw [depth_spec h, List.length_map] at hlen
    exact List.take_of_length_le hlen
  refine ⟨_, topNLevels_spec h n, ?_⟩
  rw [restoreOrders, hall, hall, restoreSide_levels, restoreSide_levels]
  rfl

/-- An overflow while a snapshot is added shows in the level it leads to. -/
theorem exists_of_rebuildOverflows (h : Fresh KeyedQueues.empty orders)
    (hover : RebuildOverflows orders []) : ∃ side price, UInt64.size ≤
      restingQty (orders.filter fun o => o.side = side ∧ o.price = price) := by
  rcases hover with hover | ⟨-, hover⟩
  · obtain ⟨⟨side, price⟩, hk⟩ := AbstractBook.exists_of_addAllOverflows h hover
    refine ⟨side, price, ?_⟩
    rwa [KeyedQueues.queue_empty, List.nil_append, atPlace_eq_filter] at hk
  · exact hover.elim

/-! ### The main result -/

/-- Lists in line with each other make any two books alike. -/
theorem applySnapshot_congr (h : Fresh KeyedQueues.empty orders)
    (h' : Fresh KeyedQueues.empty orders') (hsame : SameQueues orders orders')
    (b b' : OrderBook) :
    (∃ c c', b.applySnapshot π orders = .ok (.ok (), c) ∧
      b'.applySnapshot π orders' = .ok (.ok (), c') ∧ SameBook c c' ∧ RunsAlike π c c') ∨
    (π = .dev ∧ b.applySnapshot π orders = .error .overflow ∧
      b'.applySnapshot π orders' = .error .overflow ∧ ∃ side price, UInt64.size ≤
        restingQty (orders.filter fun o => o.side = side ∧ o.price = price)) := by
  obtain ⟨-, hadd⟩ := AbstractBook.addAll_of_fresh h
  have hqueue : ∀ k, atPlace orders k = (AbstractBook.addAll KeyedQueues.empty orders).2.queue k :=
    fun k => (hadd k).symm
  have hqueue' : ∀ k,
      atPlace orders' k = (AbstractBook.addAll KeyedQueues.empty orders).2.queue k := by
    rintro ⟨side, price⟩
    rw [← hqueue, atPlace_eq_filter, atPlace_eq_filter, hsame]
  rcases both_return_or_overflow (applySnapshot_fresh b h hqueue)
    (applySnapshot_fresh b' h' hqueue') (fun r hr => ⟨r.2, hr.2⟩) (fun r hr => ⟨r.2, hr.2⟩)
    (not_overflows_of_totalsFit h hqueue) (not_overflows_of_totalsFit h' hqueue') with
    ⟨⟨r, c⟩, ⟨r', c'⟩, hc, hc', ⟨rfl, hrep⟩, rfl, hrep'⟩ | ⟨hπ, hc, hc', hover⟩
  · exact Or.inl ⟨c, c', hc, hc', hrep.sameBook hrep', hrep.runsAlike hrep'⟩
  · exact Or.inr ⟨hπ, hc, hc', exists_of_rebuildOverflows h hover⟩

/-- The orders of a book build it again: its totals fit where that is checked. -/
theorem applySnapshot_orders (h : Represents π b a) (b' : OrderBook) :
    ∃ c, b'.applySnapshot π a.orders = .ok (.ok (), c) ∧ SameBook b c ∧ RunsAlike π b c := by
  have hfresh : Fresh KeyedQueues.empty a.orders := AbstractBook.fresh_empty
    (fun o ho => a.valid (AbstractBook.mem_orders.mp ho)) a.orders_ids_nodup
  have hqueue := AbstractBook.atPlace_orders a
  have hspec : Returns (fun _ => False) (b'.applySnapshot π a.orders) fun r =>
      r.1 = .ok () ∧ Represents π r.2 a := by
    refine (applySnapshot_fresh b' hfresh hqueue).mono (fun e he => ?_) fun _ hr => hr
    obtain ⟨-, rfl, hover⟩ := he
    exact not_overflows_of_totalsFit hfresh hqueue h.totalsFit hover
  obtain ⟨⟨r, c⟩, hc, rfl, hrep⟩ := hspec.exists_ok
  exact ⟨c, hc, h.sameBook hrep, h.runsAlike hrep⟩

/-- **A snapshot determines the book.** Lists with the same orders in the same turn at every side
and price make any two books alike, and so do the orders that a book exports; with overflow checks
both calls stop instead if a level total would not fit. -/
theorem snapshot_determinesBook :
    (∀ orders orders' : List Order, (∀ o ∈ orders, o.qty ≠ 0) → (orders.map Order.id).Nodup →
      orders.Perm orders' → SameQueues orders orders' → ∀ b b' : OrderBook,
        (∃ c c', b.applySnapshot π orders = .ok (.ok (), c) ∧
          b'.applySnapshot π orders' = .ok (.ok (), c') ∧ SameBook c c' ∧ RunsAlike π c c') ∨
        (π = .dev ∧ b.applySnapshot π orders = .error .overflow ∧
          b'.applySnapshot π orders' = .error .overflow ∧ ∃ side price, UInt64.size ≤
            restingQty (orders.filter fun o => o.side = side ∧ o.price = price))) ∧
    ∀ b, Reachable π b → ∀ n, (∀ side, (b.depth side).length ≤ n) →
      ∃ top, b.topNLevels n = .ok top ∧ ∀ b' : OrderBook, ∃ c,
        b'.applySnapshot π (restoreOrders top) = .ok (.ok (), c) ∧ SameBook b c ∧
          RunsAlike π b c := by
  constructor
  · intro orders orders' hnonzero hnodup hperm hsame b b'
    refine applySnapshot_congr (AbstractBook.fresh_empty hnonzero hnodup)
      (AbstractBook.fresh_empty (fun o ho => ?_) ?_) hsame b b'
    · exact hnonzero o (hperm.mem_iff.mpr ho)
    · exact (hperm.map _).nodup_iff.mp hnodup
  · intro b hb n hn
    obtain ⟨a, h⟩ := hb.represents
    obtain ⟨top, htop, hrestore⟩ := restoreOrders_spec h hn
    refine ⟨top, htop, fun b' => ?_⟩
    rw [hrestore]
    exact applySnapshot_orders h b'

/-- Two orders of the two sides in either turn, and the two levels a side of the sample book. -/
theorem snapshot_determinesBook_sample :
    (∃ c c', sampleBook.applySnapshot .dev [sampleOrder 1 1 .bid 9 5, sampleOrder 2 1 .ask 12 5] =
        .ok (.ok (), c) ∧
      OrderBook.new.applySnapshot .dev [sampleOrder 2 1 .ask 12 5, sampleOrder 1 1 .bid 9 5] =
        .ok (.ok (), c') ∧ SameBook c c') ∧
    ∃ top c, sampleBook.topNLevels 2 = .ok top ∧
      OrderBook.new.applySnapshot .dev (restoreOrders top) = .ok (.ok (), c) ∧
        SameBook sampleBook c := by
  obtain ⟨hcongr, hrestore⟩ := snapshot_determinesBook (π := .dev)
  have hsame : SameQueues [sampleOrder 1 1 .bid 9 5, sampleOrder 2 1 .ask 12 5]
      [sampleOrder 2 1 .ask 12 5, sampleOrder 1 1 .bid 9 5] := by
    intro side price
    cases side <;> simp [List.filter_cons, sampleOrder]
  have hboth := hcongr _ _ (by decide) (by decide) (List.Perm.swap _ _ _) hsame sampleBook
    OrderBook.new
  constructor
  · rcases hboth with ⟨c, c', hc, hc', hbooks, -⟩ | ⟨-, hc, -⟩
    · exact ⟨c, c', hc, hc', hbooks⟩
    · have hreturns : ∃ r, sampleBook.applySnapshot .dev
          [sampleOrder 1 1 .bid 9 5, sampleOrder 2 1 .ask 12 5] = .ok r := ⟨_, by rfl⟩
      obtain ⟨r, hr⟩ := hreturns
      exact nomatch hc.symm.trans hr
  · have hn : ∀ side, (sampleBook.depth side).length ≤ 2 := by
      intro side
      cases side <;> decide
    obtain ⟨top, htop, hsnapshot⟩ := hrestore sampleBook sampleBook_reachable 2 hn
    obtain ⟨c, hc, hbooks, -⟩ := hsnapshot OrderBook.new
    exact ⟨top, c, htop, hc, hbooks⟩

end L4Book
