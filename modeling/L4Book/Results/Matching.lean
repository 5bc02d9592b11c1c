import L4Book.Results.Invariant

/-!
# Matching in price-time priority

What a match is, in terms of the read views only: the opposite side, best price first and
first-in-first-out inside each price, is consumed from the front up to the limit. Then, what
carrying the match out leaves of the book, and that the aggregate walk predicts the same amounts.

## Main definitions

* `OrderBook.sideOrders`: a side of the book in the order of priority
* `PriorityList`: the live orders of a side, in that order
* `GreedyMatch`: a match that consumes a list of makers from the front
* `Settled`: a book after a match has been carried out

## Main results

* `match_priceTimePriority`
* `takerOrder_carriesOutMatch`
* `slippage_agreesWithMatch`
-/

namespace L4Book

/-- The orders of a side in priority order: the prices as `depth` lists them, and the orders of each
as `orders_at` yields them. -/
def OrderBook.sideOrders (b : OrderBook) (side : Side) : Except Fault (List Order) := do
  let levels ← (b.depth side).mapM fun entry => b.ordersAt side entry.1
  return levels.flatten

/-- The fill `f` is taken from the maker `o`, and says so. -/
structure FillFrom (f : FillDelta) (o : Order) : Prop where
  id : f.makerOrderId = o.id
  wallet : f.makerWallet = o.wallet
  side : f.makerSide = o.side
  price : f.price = o.price
  before : f.makerQtyBefore = o.qty
  pos : 0 < f.filledQty
  le : f.filledQty ≤ o.qty
  after : f.makerQtyAfter.toNat = o.qty.toNat - f.filledQty.toNat
  removed : f.makerRemoved = true ↔ f.makerQtyAfter = 0

/-- `m` is the greedy consumption of a prefix of the makers by `qty`; `beyond` says that the limit
cuts something off behind them. -/
structure GreedyMatch (makers : List Order) (beyond : Prop) (qty : Qty) (m : TakerMatch) :
    Prop where
  /-- The fills are taken from a prefix of the makers, one each and in order. -/
  prefix_used : ∃ used, used <+: makers ∧ List.Forall₂ FillFrom m.fills used
  /-- Only the last maker can be left with something. -/
  full : ∀ f ∈ m.fills.dropLast, f.makerRemoved = true
  filled : m.filledQty.toNat = min qty.toNat (restingQty makers)
  filled_eq_sum : m.filledQty.toNat = (m.fills.map fun f => f.filledQty.toNat).sum
  unfilled : m.filledQty.toNat + m.unfilledQty.toNat = qty.toNat
  notional : m.filledNotional = (m.fills.map fun f => f.price.toNat * f.filledQty.toNat).sum
  notional_lt : m.filledNotional < u128Size
  limitStopped : m.limitStopped = true ↔ 0 < m.unfilledQty ∧ beyond
  exhaustedBook : m.exhaustedBook = true ↔ 0 < m.unfilledQty ∧ ¬ beyond
  exclusive : ¬ (m.limitStopped = true ∧ m.exhaustedBook = true)
  complete : m.isComplete = true ↔ m.limitStopped = false ∧ m.exhaustedBook = false

variable {π : Profile} {b : OrderBook} {a : AbstractBook} {taker : Side} {qty : Qty}
  {limit : Price}

theorem sideOrders_spec (h : Represents π b a) (side : Side) :
    b.sideOrders side = .ok (a.ladder side) := by
  have hmap : (b.depth side).mapM (fun entry => b.ordersAt side entry.1) =
      .ok ((b.depth side).map fun entry => a.queue (side, entry.1)) :=
    mapM_eq_ok fun entry _ => ordersAt_spec h side entry.1
  rw [OrderBook.sideOrders, hmap, ok_bind, depth_spec h, List.map_map, ← List.flatMap_def]
  rfl

theorem fillFrom_of_use {o : Order} {n : ℕ} (hpos : 0 < n) (hle : n ≤ o.cap) :
    FillFrom (fillOf (o, n)) o := by
  have hn : (UInt64.ofNat n).toNat = n :=
    UInt64.toNat_ofNat_of_lt' (Nat.lt_of_le_of_lt hle o.qty.toNat_lt_size)
  refine ⟨rfl, rfl, rfl, rfl, rfl, ?_, ?_, ?_, decide_eq_true_iff⟩
  · show 0 < UInt64.ofNat n
    rwa [UInt64.lt_iff_toNat_lt, hn]
  · show UInt64.ofNat n ≤ o.qty
    rwa [UInt64.le_iff_toNat_le, hn]
  · show (o.qty - UInt64.ofNat n).toNat = o.qty.toNat - (UInt64.ofNat n).toNat
    rw [Order.toNat_sub_ofNat hle, hn]
    rfl

/-- The price of a fill times its quantity, summed up. -/
theorem sum_fills {uses : List (Order × ℕ)} (hle : ∀ u ∈ uses, u.2 ≤ u.1.cap) :
    ((uses.map fillOf).map fun f => f.filledQty.toNat).sum = quantityOf uses ∧
      ((uses.map fillOf).map fun f => f.price.toNat * f.filledQty.toNat).sum =
        notionalOf uses := by
  have hn : ∀ u ∈ uses, (fillOf u).filledQty.toNat = u.2 := fun u hu =>
    UInt64.toNat_ofNat_of_lt' (Nat.lt_of_le_of_lt (hle u hu) u.1.qty.toNat_lt_size)
  rw [List.map_map, List.map_map, quantityOf, notionalOf]
  constructor
  · exact congrArg List.sum (List.map_congr_left hn)
  · refine congrArg List.sum (List.map_congr_left fun u hu => ?_)
    show u.1.price.toNat * (fillOf u).filledQty.toNat = _
    rw [hn u hu]

theorem forall₂_fillFrom {uses : List (Order × ℕ)}
    (h : ∀ u ∈ uses, FillFrom (fillOf u) u.1) :
    List.Forall₂ FillFrom (uses.map fillOf) (uses.map Prod.fst) := by
  rw [List.forall₂_map_left_iff, List.forall₂_map_right_iff, List.forall₂_same]
  exact h

/-- **The match of an abstract book is greedy.** -/
theorem greedyMatch_matchTakerOrder (a : AbstractBook) (taker : Side) (qty : Qty)
    (limit : Price) :
    GreedyMatch (a.marketable taker limit) (a.beyond taker limit = true) qty
      (a.matchTakerOrder taker qty limit) := by
  have huse : ∀ u ∈ a.uses taker qty limit, 0 < u.2 ∧ u.2 ≤ u.1.cap := fun u hu =>
    amount_of_mem_consume (fun o => AbstractBook.cap_pos_of_mem_marketable) hu
  have hsum := sum_fills fun u hu => (huse u hu).2
  have hquantity : quantityOf (a.uses taker qty limit) =
      min qty.toNat (restingQty (a.marketable taker limit)) := quantityOf_consume _ _
  have hunfilled := a.unfilledQty_toNat taker qty limit
  have hpos : 0 < qty - a.filledQty taker qty limit ↔
      restingQty (a.marketable taker limit) < qty.toNat := by
    rw [UInt64.lt_iff_toNat_lt, hunfilled]
    show 0 < _ ↔ _
    omega
  constructor
  case prefix_used =>
    exact ⟨_, consume_isPrefix, forall₂_fillFrom fun u hu =>
      fillFrom_of_use (huse u hu).1 (huse u hu).2⟩
  case full =>
    intro f hf
    have hf' : f ∈ (a.uses taker qty limit).dropLast.map fillOf := by
      rwa [List.map_dropLast]
    obtain ⟨⟨o, n⟩, hu, rfl⟩ := List.mem_map.mp hf'
    have hn : n = o.cap := full_of_mem_dropLast hu
    refine decide_eq_true ?_
    rw [hn, Order.sub_ofNat_eq_zero_iff (Nat.le_refl _)]
  case filled => exact a.filledQty_le taker qty limit
  case filled_eq_sum =>
    show (a.filledQty taker qty limit).toNat = _
    rw [a.filledQty_le, ← hquantity]
    exact hsum.1.symm
  case unfilled =>
    show (a.filledQty taker qty limit).toNat + (qty - a.filledQty taker qty limit).toNat = _
    rw [a.filledQty_le, hunfilled]
    omega
  case notional => exact hsum.2.symm
  case notional_lt =>
    have hle := notionalOf_le (a.uses taker qty limit)
    have hqty : quantityOf (a.uses taker qty limit) ≤ UInt64.size - 1 := by
      have := qty.toNat_lt_size
      omega
    have hmul := Nat.mul_le_mul_left (UInt64.size - 1) hqty
    have hmax : (UInt64.size - 1) * (UInt64.size - 1) < u128Size := by decide
    show notionalOf (a.uses taker qty limit) < u128Size
    omega
  case limitStopped =>
    show (decide _ && _) = true ↔ 0 < qty - a.filledQty taker qty limit ∧ _
    rw [Bool.and_eq_true, decide_eq_true_iff, hpos]
  case exhaustedBook =>
    show (decide _ && !_) = true ↔ 0 < qty - a.filledQty taker qty limit ∧ _
    rw [Bool.and_eq_true, decide_eq_true_iff, hpos, Bool.not_eq_true', Bool.not_eq_true]
  case exclusive =>
    show ¬ ((decide _ && a.beyond taker limit) = true ∧ (decide _ && !a.beyond taker limit) = true)
    cases a.beyond taker limit <;> simp
  case complete =>
    show (qty - a.filledQty taker qty limit == 0) = true ↔
      (decide _ && a.beyond taker limit) = false ∧ (decide _ && !a.beyond taker limit) = false
    rw [beq_iff_eq, ← UInt64.toNat_inj, hunfilled]
    show _ = 0 ↔ _
    cases a.beyond taker limit <;> simp <;> omega

/-- `orders` are the live orders of a side in priority order: best price first, as `depth` lists the
prices, and first-in-first-out inside each price, as `orders_at` yields its orders. -/
structure PriorityList (b : OrderBook) (side : Side) (orders : List Order) : Prop where
  read : b.sideOrders side = .ok orders
  mem : ∀ o, o ∈ orders ↔ b.get o.id = .ok (some o) ∧ o.side = side
  nodup : (orders.map Order.id).Nodup
  sorted : orders.Pairwise fun o o' => AsGood side o.price o'.price

theorem Represents.priorityList (h : Represents π b a) (side : Side) :
    PriorityList b side (a.ladder side) where
  read := sideOrders_spec h side
  mem o := by rw [AbstractBook.mem_ladder, get_self_eq_some_iff h]
  nodup := a.ladder_ids_nodup side
  sorted := a.ladder_pairwise side

/-- **Price-time priority.** Let `makers` be the opposite side in priority order, cut at the first
price that the limit does not allow. The match is the greedy consumption of a prefix of it. -/
theorem match_priceTimePriority (hb : Reachable π b) (taker : Side) (qty : Qty) (limit : Price) :
    ∃ orders m, PriorityList b taker.opposite orders ∧
      b.matchTakerOrder π taker qty limit = .ok m ∧
      GreedyMatch (orders.takeWhile fun o => limitAllows taker o.price limit)
        (∃ entry ∈ b.depth taker.opposite, limitAllows taker entry.1 limit = false) qty m := by
  obtain ⟨a, h⟩ := hb.represents
  refine ⟨a.ladder taker.opposite, a.matchTakerOrder taker qty limit, h.priorityList _,
    matchTakerOrder_spec h taker qty limit, ?_⟩
  have hbeyond : (∃ entry ∈ b.depth taker.opposite, limitAllows taker entry.1 limit = false) =
      (a.beyond taker limit = true) := by
    rw [depth_spec h, AbstractBook.beyond, List.any_eq_true]
    simp [depthEntry]
  rw [hbeyond, ← AbstractBook.marketable_eq_takeWhile]
  exact greedyMatch_matchTakerOrder a taker qty limit

/-- A bid for ten takes the ask at 101 and part of the ask at 103. -/
theorem match_priceTimePriority_sample : ∃ m,
    sampleBook.matchTakerOrder .dev .bid 10 103 = .ok m ∧ m.filledQty = 10 ∧
      GreedyMatch [sampleOrder 5 1 .ask 101 6, sampleOrder 6 2 .ask 103 9]
        (∃ entry ∈ sampleBook.depth .ask, limitAllows .bid entry.1 103 = false) 10 m := by
  obtain ⟨orders, m, hlist, hmatch, hgreedy⟩ :=
    match_priceTimePriority sampleBook_reachable .bid 10 103
  have horders : orders = [sampleOrder 5 1 .ask 101 6, sampleOrder 6 2 .ask 103 9] :=
    Except.ok.inj (hlist.read.symm.trans (by rfl))
  subst horders
  refine ⟨m, hmatch, ?_, hgreedy⟩
  exact UInt64.toNat_inj.mp (hgreedy.filled.trans (by rfl))

/-! ### Carrying out the match -/

/-- What the fills leave of an order. -/
def afterFills (fills : List FillDelta) (o : Order) : Option Order :=
  match fills.find? fun f => f.makerOrderId = o.id with
  | none => some o
  | some f => if f.makerRemoved then none else some { o with qty := f.makerQtyAfter }

/-- `b'` is `b` after the match `m` has been carried out. -/
structure Settled (b b' : OrderBook) (taker : Side) (limit : Price) (m : TakerMatch) : Prop where
  /-- Every list of every side keeps its order, and changes by what the fills say alone. -/
  ordersAt : ∀ side price, ∃ orders, b.ordersAt side price = .ok orders ∧
    b'.ordersAt side price = .ok (orders.filterMap (afterFills m.fills))
  /-- Every maker is live before; afterwards it is gone or has the quantity left. -/
  makers : ∀ f ∈ m.fills, ∃ maker, b.get f.makerOrderId = .ok (some maker) ∧
    b'.get f.makerOrderId =
      .ok (if f.makerRemoved then none else some { maker with qty := f.makerQtyAfter })
  /-- At most one maker has something left. -/
  one_partial : ∀ f ∈ m.fills, ∀ f' ∈ m.fills, f.makerRemoved = false →
    f'.makerRemoved = false → f = f'
  /-- Every other id is as live as before, with the same order. -/
  others : ∀ id, id ∉ m.fills.map FillDelta.makerOrderId → b'.get id = b.get id
  /-- The opposite side has lost the filled quantity. -/
  conserved : ∃ before after, b.sideOrders taker.opposite = .ok before ∧
    b'.sideOrders taker.opposite = .ok after ∧
    restingQty after + m.filledQty.toNat = restingQty before
  /-- The side is swept up to the limit when the taker wanted more. -/
  swept : 0 < m.unfilledQty → ∀ price, limitAllows taker price limit = true →
    b'.ordersAt taker.opposite price = .ok []

section AfterFills

variable {fills : List FillDelta} {f : FillDelta} {o : Order}

/-- A fill is found by the id of its maker. -/
theorem afterFills_of_mem (hnodup : (fills.map FillDelta.makerOrderId).Nodup) (hf : f ∈ fills)
    (hid : f.makerOrderId = o.id) :
    afterFills fills o =
      if f.makerRemoved then none else some { o with qty := f.makerQtyAfter } := by
  rw [afterFills]
  cases hfind : fills.find? fun f => f.makerOrderId = o.id with
  | none =>
    have hnone := List.find?_eq_none.mp hfind f hf
    exact absurd (decide_eq_true hid) hnone
  | some g =>
    have hgid : g.makerOrderId = o.id := by simpa using List.find?_some hfind
    have hgf : g = f := List.inj_on_of_nodup_map hnodup (List.mem_of_find?_eq_some hfind) hf
      (hgid.trans hid.symm)
    rw [hgf]

theorem afterFills_of_not_mem (h : o.id ∉ fills.map FillDelta.makerOrderId) :
    afterFills fills o = some o := by
  have hfind : fills.find? (fun f => f.makerOrderId = o.id) = none := by
    refine List.find?_eq_none.mpr fun f hf hid => h ?_
    exact List.mem_map.mpr ⟨f, hf, of_decide_eq_true hid⟩
  rw [afterFills, hfind]

/-- Settling does to an order what the fills say. -/
theorem settleAt_eq_afterFills (hnodup : (fills.map FillDelta.makerOrderId).Nodup)
    (hremoved : ∀ f ∈ fills, f.makerRemoved = decide (f.makerQtyAfter = 0)) (o : Order) :
    settleAt fills o = afterFills fills o := by
  by_cases hmem : o.id ∈ fills.map FillDelta.makerOrderId
  · obtain ⟨f, hf, hid⟩ := List.mem_map.mp hmem
    rw [settleAt_of_mem hnodup hf hid, afterFills_of_mem hnodup hf hid, hremoved f hf]
    by_cases hzero : f.makerQtyAfter = 0
    · rw [hzero, AbstractBook.resizeAt_zero rfl, if_pos (decide_eq_true rfl)]
    · rw [AbstractBook.resizeAt_of_eq rfl hzero, decide_eq_false hzero,
        if_neg Bool.false_ne_true]
      rfl
  · rw [settleAt_of_not_mem hmem, afterFills_of_not_mem hmem]

end AfterFills

/-- The fills of a match, as what they leave of every order. -/
theorem settleAt_fills (a : AbstractBook) (taker : Side) (qty : Qty) (limit : Price) :
    settleAt (a.matchTakerOrder taker qty limit).fills =
      afterFills (a.matchTakerOrder taker qty limit).fills := by
  funext o
  refine settleAt_eq_afterFills (a.fills_ids_nodup taker qty limit) (fun g hg => ?_) o
  obtain ⟨u, -, rfl⟩ := List.mem_map.mp hg
  rfl

/-- What the match does to the opposite side as a whole. -/
theorem ladder_settle (a : AbstractBook) (taker : Side) (qty : Qty) (limit : Price) :
    ∃ rest, a.ladder taker.opposite = a.marketable taker limit ++ rest ∧
      (a.settle (a.matchTakerOrder taker qty limit).fills).ladder taker.opposite =
        leftover (a.marketable taker limit) qty.toNat ++ rest := by
  obtain ⟨rest, hrest⟩ := a.marketable_prefix taker limit
  refine ⟨rest, hrest.symm, ?_⟩
  rw [← AbstractBook.marketable_settle, settle_eq, AbstractBook.ladder_filterMap,
    AbstractBook.marketable_filterMap, ← hrest, List.filterMap_append]
  have hids := a.ladder_ids_nodup taker.opposite
  rw [← hrest, List.map_append, List.nodup_append'] at hids
  have hrest' : ∀ o ∈ rest, settleAt (a.matchTakerOrder taker qty limit).fills o = some o := by
    intro o ho
    refine settleAt_of_not_mem fun hmem => ?_
    exact hids.2.2 ((ids_consume _ _).subset hmem) (List.mem_map_of_mem ho)
  rw [List.filterMap_congr hrest', List.filterMap_some]

theorem restingQty_ladder_settle (a : AbstractBook) (taker : Side) (qty : Qty) (limit : Price) :
    restingQty ((a.settle (a.matchTakerOrder taker qty limit).fills).ladder taker.opposite) +
        (a.matchTakerOrder taker qty limit).filledQty.toNat =
      restingQty (a.ladder taker.opposite) := by
  obtain ⟨rest, hbefore, hafter⟩ := ladder_settle a taker qty limit
  have hfilled := a.filledQty_le taker qty limit
  show _ + (a.filledQty taker qty limit).toNat = _
  rw [hbefore, hafter, restingQty_append, restingQty_append, restingQty_leftover, hfilled]
  omega

/-- Two fills with something left are the same, the last one. -/
theorem partial_fill_unique {makers : List Order} {beyond : Prop} {m : TakerMatch}
    (h : GreedyMatch makers beyond qty m) {f f' : FillDelta} (hf : f ∈ m.fills)
    (hf' : f' ∈ m.fills) (hleft : f.makerRemoved = false) (hleft' : f'.makerRemoved = false) :
    f = f' := by
  have hne : m.fills ≠ [] := List.ne_nil_of_mem hf
  have hlast : ∀ g ∈ m.fills, g.makerRemoved = false → g = m.fills.getLast hne := by
    intro g hg hgleft
    rw [← List.dropLast_append_getLast hne, List.mem_append, List.mem_singleton] at hg
    refine hg.resolve_left fun hdrop => ?_
    rw [h.full g hdrop] at hgleft
    exact Bool.noConfusion hgleft
  rw [hlast f hf hleft, hlast f' hf' hleft']

theorem settled_of_represents {b' : OrderBook} (h : Represents π b a)
    (h' : Represents π b' (a.settle (a.matchTakerOrder taker qty limit).fills)) :
    Settled b b' taker limit (a.matchTakerOrder taker qty limit) := by
  have hsettle := settle_eq a (a.matchTakerOrder taker qty limit).fills
  have hnodup := a.fills_ids_nodup taker qty limit
  have hget : ∀ id, b'.get id = .ok ((a.find id).bind
      (afterFills (a.matchTakerOrder taker qty limit).fills)) := fun id => by
    rw [get_spec h', hsettle, KeyedQueues.find_filterMap, settleAt_fills]
  constructor
  case ordersAt =>
    intro side price
    refine ⟨a.queue (side, price), ordersAt_spec h side price, ?_⟩
    rw [ordersAt_spec h', hsettle, KeyedQueues.queue_filterMap, settleAt_fills]
  case makers =>
    intro f hf
    obtain ⟨maker, hmaker, hid, -⟩ := AbstractBook.fits_of_mem_fills hf
    have hfind : a.find f.makerOrderId = some maker :=
      KeyedQueues.find_eq_some_iff.mpr ⟨hmaker, hid⟩
    refine ⟨maker, (get_spec h _).trans (congrArg Except.ok hfind), ?_⟩
    rw [hget, hfind, Option.bind_some, afterFills_of_mem hnodup hf hid.symm]
  case one_partial =>
    intro f hf f' hf' hleft hleft'
    exact partial_fill_unique (greedyMatch_matchTakerOrder a taker qty limit) hf hf' hleft hleft'
  case others =>
    intro id hid
    rw [hget, get_spec h]
    cases hfind : a.find id with
    | none => rfl
    | some o =>
      rw [Option.bind_some, afterFills_of_not_mem]
      rwa [(KeyedQueues.find_eq_some_iff.mp hfind).2]
  case conserved =>
    exact ⟨_, _, sideOrders_spec h _, sideOrders_spec h' _,
      restingQty_ladder_settle a taker qty limit⟩
  case swept =>
    intro hpos price hallow
    rw [ordersAt_spec h', Except.ok.injEq, List.eq_nil_iff_forall_not_mem]
    intro o ho
    obtain ⟨hmem, hplace⟩ := KeyedQueues.mem_queue_iff.mp ho
    obtain ⟨hside, hprice⟩ := Prod.mk.inj hplace
    have hreach := AbstractBook.mem_marketable.mpr ⟨hmem, hside, hprice.symm ▸ hallow⟩
    rw [AbstractBook.marketable_settle_eq_nil hpos] at hreach
    exact List.not_mem_nil hreach

/-- A nonzero quantity is taken. -/
theorem applyTakerOrder_accepts (h : Represents π b a) (hq : qty ≠ 0) : ∃ b',
    b.applyTakerOrder π taker qty limit = .ok (.ok (a.matchTakerOrder taker qty limit), b') ∧
      Represents π b' (a.settle (a.matchTakerOrder taker qty limit).fills) := by
  have hspec := applyTakerOrder_spec h taker qty limit
  rw [AbstractBook.applyTakerOrder, if_neg hq] at hspec
  exact exists_reply hspec fun _ he => he.2.2

/-- **`apply_taker_order` does what `match_taker_order` predicts.** For a nonzero quantity it cannot
fail, reports the same match, and changes the book by the fills of that match alone. -/
theorem takerOrder_carriesOutMatch (hb : Reachable π b) (taker : Side) (hq : 0 < qty)
    (limit : Price) :
    ∃ m b', b.matchTakerOrder π taker qty limit = .ok m ∧
      b.applyTakerOrder π taker qty limit = .ok (.ok m, b') ∧ Settled b b' taker limit m := by
  obtain ⟨a, h⟩ := hb.represents
  obtain ⟨b', happly, hb'⟩ := applyTakerOrder_accepts h (UInt64.ne_of_lt hq).symm
  exact ⟨_, b', matchTakerOrder_spec h taker qty limit, happly, settled_of_represents h hb'⟩

/-- A bid for ten, of which the book has fifteen, leaves five. -/
theorem takerOrder_carriesOutMatch_sample : ∃ m b' after,
    sampleBook.applyTakerOrder .dev .bid 10 103 = .ok (.ok m, b') ∧
      Settled sampleBook b' .bid 103 m ∧
      b'.sideOrders .ask = .ok after ∧ restingQty after + m.filledQty.toNat = 15 := by
  obtain ⟨m, b', -, happly, hsettled⟩ :=
    takerOrder_carriesOutMatch sampleBook_reachable .bid (show 0 < 10 by decide) 103
  obtain ⟨before, after, hbefore, hafter, hsum⟩ := hsettled.conserved
  have heq : before = [sampleOrder 5 1 .ask 101 6, sampleOrder 6 2 .ask 103 9] :=
    Except.ok.inj (hbefore.symm.trans (by rfl))
  refine ⟨m, b', after, happly, hsettled, hafter, ?_⟩
  rw [hsum, heq]
  rfl

/-! ### The aggregate walk -/

/-- **`estimate_slippage` agrees with `match_taker_order`** on everything both report, when no true
level total exceeds the largest `u64`. -/
theorem slippage_agreesWithMatch (hb : Reachable π b)
    (hfits : ∀ side price orders, b.ordersAt side price = .ok orders →
      restingQty orders < UInt64.size) (taker : Side) (qty : Qty) (limit : Price) :
    ∃ e m, b.estimateSlippage π taker qty limit = .ok e ∧
      b.matchTakerOrder π taker qty limit = .ok m ∧
      e.filledQty = m.filledQty ∧ e.unfilledQty = m.unfilledQty ∧
      e.filledNotional = m.filledNotional ∧ e.referencePrice = m.referencePrice ∧
      e.limitStopped = m.limitStopped ∧ e.exhaustedBook = m.exhaustedBook := by
  obtain ⟨a, h⟩ := hb.represents
  have hexact : ∀ k, restingQty (a.queue k) < UInt64.size := fun k =>
    hfits k.1 k.2 _ (ordersAt_spec h k.1 k.2)
  exact ⟨a.estimateSlippage taker qty limit, a.matchTakerOrder taker qty limit,
    estimateSlippage_spec h hexact taker qty limit, matchTakerOrder_spec h taker qty limit,
    rfl, rfl, rfl, rfl, rfl, rfl⟩

/-- In the sample book all levels fit, as in every book of a build that checks for overflow. -/
theorem slippage_agreesWithMatch_sample : ∃ e m,
    sampleBook.estimateSlippage .dev .bid 10 103 = .ok e ∧
      sampleBook.matchTakerOrder .dev .bid 10 103 = .ok m ∧
      e.filledNotional = m.filledNotional := by
  obtain ⟨e, m, he, hm, -, -, hnotional, -⟩ :=
    slippage_agreesWithMatch sampleBook_reachable sampleBook_fits .bid 10 103
  exact ⟨e, m, he, hm, hnotional⟩

end L4Book
