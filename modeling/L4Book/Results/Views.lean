import L4Book.Results.Simulation
import Mathlib.Algebra.Order.BigOperators.Group.Finset
import Mathlib.Data.Finset.Sum

/-!
# The read views

Depth, best prices, level summaries, top of book and wallets are read off three structures that are
kept up separately: the ordered level maps with their cached totals, the chains of orders, and the
wallet index, which is resolved through the id index. On every reachable book they describe the
same orders.

## Main definitions

* `Rests`: an order the book would look up
* `ViewsAgree`: what the views say of each other

## Main results

* `views_agree`
-/

namespace L4Book

open OrderBook (AggregatedLevel UnaggregatedLevel)

variable {π : Profile} {b : OrderBook} {a : AbstractBook}

/-- The book has this order under its id. -/
def Rests (b : OrderBook) (o : Order) : Prop := b.get o.id = .ok (some o)

/-- The two top-of-book views of the first `n` levels of a side: the same prices, the first ones of
`depth`, with the total and the count of the orders of the other view. -/
structure TopAgrees (b : OrderBook) (side : Side) (n : ℕ) (aggregated : List AggregatedLevel)
    (unaggregated : List UnaggregatedLevel) : Prop where
  length : aggregated.length = min n (b.depth side).length
  prices : aggregated.map AggregatedLevel.price = ((b.depth side).map Prod.fst).take n
  levels : List.Forall₂ (fun entry level => level.price = entry.price ∧
    entry.totalQty.toNat = (level.orders.map fun o => o.qty.toNat).sum ∧
    entry.orderCount = level.orders.length) aggregated unaggregated
  /-- The orders of a level are those of `orders_at`. -/
  orders : ∀ level ∈ unaggregated, ∃ orders, b.ordersAt side level.price = .ok orders ∧
    level.orders = orders.map fun o => ⟨o.id, o.wallet, o.qty, o.ts⟩

/-- What the read views of a book say of each other. -/
structure ViewsAgree (b : OrderBook) : Prop where
  /-- `orders_at` lists the orders that rest at a price, each once. -/
  ordersAt : ∀ side price, ∃ orders, b.ordersAt side price = .ok orders ∧ orders.Nodup ∧
    ∀ o, o ∈ orders ↔ Rests b o ∧ o.side = side ∧ o.price = price
  bidsDecrease : (b.depth .bid).Pairwise fun x y => y.1 < x.1
  asksIncrease : (b.depth .ask).Pairwise fun x y => x.1 < y.1
  /-- `depth` lists exactly the prices at which an order rests, with the exact sum and count. -/
  depth : ∀ side price total count, (price, total, count) ∈ b.depth side ↔
    ∃ orders, b.ordersAt side price = .ok orders ∧ orders ≠ [] ∧
      total.toNat = restingQty orders ∧ count = orders.length
  bestBid : ∀ p, b.bestBid = some p ↔
    (∃ o, Rests b o ∧ o.side = .bid ∧ o.price = p) ∧
      ∀ o, Rests b o → o.side = .bid → o.price ≤ p
  bestAsk : ∀ p, b.bestAsk = some p ↔
    (∃ o, Rests b o ∧ o.side = .ask ∧ o.price = p) ∧
      ∀ o, Rests b o → o.side = .ask → p ≤ o.price
  noBid : b.bestBid = none ↔ ∀ o, Rests b o → o.side ≠ .bid
  noAsk : b.bestAsk = none ↔ ∀ o, Rests b o → o.side ≠ .ask
  levelSummary : ∀ side price total count, b.levelSummary side price = some (total, count) ↔
    (price, total, count) ∈ b.depth side
  top : ∀ n, ∃ bids asks, b.topNLevels n = .ok (bids, asks) ∧
    TopAgrees b .bid n (b.topNLevelsAggregated n).1 bids ∧
    TopAgrees b .ask n (b.topNLevelsAggregated n).2 asks
  /-- `orders_by_wallet` yields the orders of a wallet, each once, in whatever order the hash set is
  enumerated, and the wallets share out all orders. -/
  wallets : ∀ enum, Enumerates enum → ∃ orders : WalletId → List Order,
    (∀ wallet, b.ordersByWallet enum wallet = .ok (orders wallet) ∧ (orders wallet).Nodup ∧
      ∀ o, o ∈ orders wallet ↔ Rests b o ∧ o.wallet = wallet) ∧
    ∑ wallet ∈ b.walletIndex.keys, (orders wallet).length = b.len

theorem rests_iff (h : Represents π b a) {o : Order} : Rests b o ↔ o ∈ a :=
  get_self_eq_some_iff h

/-! ### Prices -/

namespace AbstractBook

variable {side : Side} {p : Price}

/-- The prices of a side are strictly in order. -/
theorem prices_pairwise_lt (a : AbstractBook) (side : Side) :
    (a.prices side).Pairwise fun p q => AsGood side p q ∧ p ≠ q :=
  (a.prices_pairwise side).and (a.prices_nodup side)

theorem mem_prices_iff : p ∈ a.prices side ↔ ∃ o ∈ a, o.side = side ∧ o.price = p := by
  rw [mem_prices]
  constructor
  · intro hne
    obtain ⟨o, ho⟩ := List.exists_mem_of_ne_nil _ hne
    obtain ⟨hside, hprice⟩ := Prod.mk.inj (a.placed ho)
    exact ⟨o, KeyedQueues.mem_of_mem_queue ho, hside, hprice⟩
  · rintro ⟨o, ho, rfl, rfl⟩
    exact List.ne_nil_of_mem ho

/-- **The first price is the best one.** -/
theorem head?_prices_eq_some_iff :
    (a.prices side).head? = some p ↔
      (∃ o ∈ a, o.side = side ∧ o.price = p) ∧ ∀ o ∈ a, o.side = side → AsGood side p o.price := by
  have hsorted := a.prices_pairwise side
  rw [← mem_prices_iff]
  have hall : (∀ o ∈ a, o.side = side → AsGood side p o.price) ↔
      ∀ q ∈ a.prices side, AsGood side p q := by
    constructor
    · intro hall q hq
      obtain ⟨o, ho, hside, rfl⟩ := mem_prices_iff.mp hq
      exact hall o ho hside
    · exact fun hall o ho hside => hall _ (mem_prices_iff.mpr ⟨o, ho, hside, rfl⟩)
  rw [hall]
  cases hps : a.prices side with
  | nil => simp
  | cons best ps =>
    rw [hps] at hsorted
    have hbest := (List.pairwise_cons.mp hsorted).1
    rw [List.head?_cons, Option.some.injEq]
    constructor
    · rintro rfl
      refine ⟨List.mem_cons_self, fun q hq => ?_⟩
      rcases List.mem_cons.mp hq with rfl | hq
      · exact asGood_refl side _
      · exact hbest q hq
    · rintro ⟨hp, hgood⟩
      rcases List.mem_cons.mp hp with rfl | hp
      · rfl
      · exact (hbest p hp).antisymm (hgood best List.mem_cons_self)

theorem head?_prices_eq_none_iff :
    (a.prices side).head? = none ↔ ∀ o ∈ a, o.side ≠ side := by
  rw [List.head?_eq_none_iff, List.eq_nil_iff_forall_not_mem]
  constructor
  · exact fun hnil o ho hside => hnil _ (mem_prices_iff.mpr ⟨o, ho, hside, rfl⟩)
  · intro hnone p hp
    obtain ⟨o, ho, hside, -⟩ := mem_prices_iff.mp hp
    exact hnone o ho hside

end AbstractBook

/-! ### One side -/

theorem TotalsFit.toNat_total (hfits : TotalsFit a) (k : Side × Price) :
    (UInt64.ofNat (restingQty (a.queue k))).toNat = restingQty (a.queue k) :=
  UInt64.toNat_ofNat_of_lt' (hfits k)

theorem mem_depth_iff (h : Represents π b a) (hfits : TotalsFit a) {side : Side} {price : Price}
    {total : Qty} {count : ℕ} :
    (price, total, count) ∈ b.depth side ↔ a.queue (side, price) ≠ [] ∧
      total.toNat = restingQty (a.queue (side, price)) ∧
      count = (a.queue (side, price)).length := by
  rw [depth_spec h, List.mem_map]
  constructor
  · rintro ⟨p, hp, heq⟩
    obtain ⟨rfl, rfl, rfl⟩ : p = price ∧ _ = total ∧ _ = count := by
      simpa [depthEntry] using heq
    exact ⟨AbstractBook.mem_prices.mp hp, hfits.toNat_total _, rfl⟩
  · rintro ⟨hne, htotal, rfl⟩
    refine ⟨price, AbstractBook.mem_prices.mpr hne, ?_⟩
    have hword : UInt64.ofNat (restingQty (a.queue (side, price))) = total := by
      rw [← htotal, UInt64.ofNat_toNat]
    rw [depthEntry, hword]

theorem topAgrees (h : Represents π b a) (hfits : TotalsFit a) (side : Side) (n : ℕ) :
    TopAgrees b side n (b.topNLevelsAggregatedForSide side n)
      (((a.prices side).take n).map (unaggregatedLevel a side)) := by
  have hdepth := depth_spec h side
  constructor
  case length => rw [OrderBook.topNLevelsAggregatedForSide, List.length_map, List.length_take]
  case prices =>
    rw [OrderBook.topNLevelsAggregatedForSide, List.map_map, ← List.map_take]
    rfl
  case levels =>
    rw [OrderBook.topNLevelsAggregatedForSide, hdepth, ← List.map_take, List.map_map,
      List.forall₂_map_left_iff, List.forall₂_map_right_iff, List.forall₂_same]
    refine fun p _ => ⟨rfl, (hfits.toNat_total _).trans ?_, (List.length_map _).symm⟩
    rw [restingQty, unaggregatedLevel, List.map_map]
    rfl
  case orders =>
    intro level hlevel
    obtain ⟨p, -, rfl⟩ := List.mem_map.mp hlevel
    exact ⟨_, ordersAt_spec h side p, rfl⟩

/-! ### Wallets -/

/-- The wallet of every order is in the index. -/
theorem wallet_mem_keys (h : Represents π b a) {o : Order} (ho : o ∈ a) :
    o.wallet ∈ b.walletIndex.keys := by
  obtain ⟨slots, h⟩ := h
  have hmem : o.id ∈ (b.walletIndex.lookup o.wallet).getD ∅ := h.wallets.mpr ⟨o, ho, rfl, rfl⟩
  rw [Finmap.mem_keys, ← Finmap.lookup_isSome]
  cases hlook : b.walletIndex.lookup o.wallet with
  | none =>
    rw [hlook] at hmem
    exact absurd hmem (Finset.notMem_empty _)
  | some set => rfl

/-- **The wallets share out all orders.** -/
theorem sum_wallets (h : Represents π b a) {orders : WalletId → List Order}
    (hnodup : ∀ wallet, (orders wallet).Nodup)
    (hmem : ∀ wallet o, o ∈ orders wallet ↔ o ∈ a ∧ o.wallet = wallet) :
    ∑ wallet ∈ b.walletIndex.keys, (orders wallet).length = b.len := by
  have hall : a.orders.Nodup := a.orders_ids_nodup.of_map
  have hmaps : ∀ o ∈ a.orders.toFinset, o.wallet ∈ b.walletIndex.keys := fun o ho =>
    wallet_mem_keys h (AbstractBook.mem_orders.mp (List.mem_toFinset.mp ho))
  rw [len_spec h, ← List.toFinset_card_of_nodup hall,
    Finset.card_eq_sum_card_fiberwise hmaps]
  refine Finset.sum_congr rfl fun wallet _ => ?_
  rw [← List.toFinset_card_of_nodup (hnodup wallet)]
  congr 1
  ext o
  rw [List.mem_toFinset, hmem, Finset.mem_filter, List.mem_toFinset, AbstractBook.mem_orders]

theorem viewsAgree (h : Represents π b a) (hfits : TotalsFit a) : ViewsAgree b := by
  constructor
  case ordersAt =>
    intro side price
    refine ⟨_, ordersAt_spec h side price, a.queue_nodup _, fun o => ?_⟩
    rw [rests_iff h, KeyedQueues.mem_queue_iff, Order.place, Prod.mk.injEq]
  case bidsDecrease =>
    rw [depth_spec h, List.pairwise_map]
    refine (a.prices_pairwise_lt .bid).imp fun hlt => ?_
    exact UInt64.lt_of_le_of_ne hlt.1 (Ne.symm hlt.2)
  case asksIncrease =>
    rw [depth_spec h, List.pairwise_map]
    exact (a.prices_pairwise_lt .ask).imp fun hlt => UInt64.lt_of_le_of_ne hlt.1 hlt.2
  case depth =>
    intro side price total count
    rw [mem_depth_iff h hfits, ordersAt_spec h]
    simp
  case bestBid =>
    intro p
    rw [bestBid_spec h, AbstractBook.head?_prices_eq_some_iff]
    simp only [rests_iff h]
    exact Iff.rfl
  case bestAsk =>
    intro p
    rw [bestAsk_spec h, AbstractBook.head?_prices_eq_some_iff]
    simp only [rests_iff h]
    exact Iff.rfl
  case noBid =>
    rw [bestBid_spec h, AbstractBook.head?_prices_eq_none_iff]
    simp only [rests_iff h]
  case noAsk =>
    rw [bestAsk_spec h, AbstractBook.head?_prices_eq_none_iff]
    simp only [rests_iff h]
  case levelSummary =>
    intro side price total count
    rw [mem_depth_iff h hfits, levelSummary_spec h]
    by_cases hnil : a.queue (side, price) = []
    · simp [hnil]
    · rw [if_neg hnil, Option.some.injEq, Prod.mk.injEq, ← UInt64.toNat_inj,
        hfits.toNat_total, eq_comm, eq_comm (b := count)]
      simp only [hnil, not_false_eq_true, ne_eq, true_and]
  case top =>
    intro n
    exact ⟨_, _, topNLevels_spec h n, topAgrees h hfits .bid n, topAgrees h hfits .ask n⟩
  case wallets =>
    intro enum henum
    choose orders horders hnodup hmem using ordersByWallet_spec h henum
    refine ⟨orders, fun wallet => ⟨horders wallet, hnodup wallet, fun o => ?_⟩,
      sum_wallets h hnodup hmem⟩
    rw [rests_iff h]
    exact hmem wallet o

/-- **All read views describe one book.** -/
theorem views_agree (hb : Reachable π b)
    (hfits : ∀ side price orders, b.ordersAt side price = .ok orders →
      restingQty orders < UInt64.size) : ViewsAgree b := by
  obtain ⟨a, h⟩ := hb.represents
  exact viewsAgree h fun k => hfits k.1 k.2 _ (ordersAt_spec h k.1 k.2)

/-- In the sample book, whose levels all fit, the best bid is the bid price of the two orders. -/
theorem views_agree_sample : ViewsAgree sampleBook ∧ sampleBook.bestBid = some 100 := by
  exact ⟨views_agree sampleBook_reachable sampleBook_fits, by rfl⟩

end L4Book
