import L4Book.Results.Views

/-!
# Queue positions

`queue_position` walks the chain of a level up to an order and beyond it. Its answer is the exact
split of `orders_at` around the order, it is what `queue_position_for_new_order` promised before the
order was added, and it tells how much of a taker reaches the order: what is left of the taker
behind the better prices and the orders ahead.

## Main definitions

* `SplitsLevel`: a queue position that splits a level around an order
* `OrderBook.qtyAtBetterPrices`: what `depth` lists in front of a price
* `TakerMatch.filledFrom`: what a match takes from one maker

## Main results

* `queuePosition_splitsLevel`
* `queuePosition_predictsFills`
-/

namespace L4Book

variable {π : Profile} {b b' : OrderBook} {a : AbstractBook} {o : Order}

/-! ### The split of a level -/

/-- `pos` says of `o` that the orders `ahead` stand before it and the orders `behind` after it, and
nothing else at its price. -/
structure SplitsLevel (b : OrderBook) (ahead : List Order) (o : Order) (behind : List Order)
    (pos : QueuePosition) : Prop where
  id : pos.id = some o.id
  side : pos.side = o.side
  price : pos.price = o.price
  ordersAhead : pos.ordersAhead = ahead.length
  qtyAhead : pos.qtyAhead.toNat = restingQty ahead
  ordersBehind : pos.ordersBehind = behind.length
  qtyBehind : pos.qtyBehind.toNat = restingQty behind
  /-- The cached aggregates of the level. -/
  level : b.levelSummary o.side o.price = some (pos.levelTotalQty, pos.levelOrderCount)
  count : pos.ordersAhead + 1 + pos.ordersBehind = pos.levelOrderCount
  total : pos.qtyAhead.toNat + o.qty.toNat + pos.qtyBehind.toNat = pos.levelTotalQty.toNat

/-- A live order splits its list. -/
theorem exists_split_of_rests (h : Represents π b a) (ho : Rests b o) :
    ∃ ahead behind, a.queue o.place = ahead ++ o :: behind :=
  List.append_of_mem ((rests_iff h).mp ho)

theorem splitsLevel_of_queue (h : Represents π b a) (hfits : TotalsFit a)
    {ahead behind : List Order} (hqueue : a.queue o.place = ahead ++ o :: behind) :
    ∃ pos, b.queuePosition π o.id = .ok (.ok pos) ∧ SplitsLevel b ahead o behind pos := by
  have hsum : restingQty ahead + (o.qty.toNat + restingQty behind) < UInt64.size := by
    have hfit := hfits o.place
    rwa [hqueue, restingQty_append, restingQty_cons] at hfit
  have htotal : restingQty (ahead ++ o :: behind) =
      restingQty ahead + o.qty.toNat + restingQty behind := by
    rw [restingQty_append, restingQty_cons, Nat.add_assoc]
  have hahead : (UInt64.ofNat (restingQty ahead)).toNat = restingQty ahead :=
    UInt64.toNat_ofNat_of_lt' (by omega)
  have hbehind : (UInt64.ofNat (restingQty behind)).toNat = restingQty behind :=
    UInt64.toNat_ofNat_of_lt' (by omega)
  have hlevel : (UInt64.ofNat (restingQty (ahead ++ o :: behind))).toNat =
      restingQty (ahead ++ o :: behind) := UInt64.toNat_ofNat_of_lt' (by omega)
  refine ⟨_, queuePosition_spec h hqueue, ?_⟩
  constructor
  case id => rfl
  case side => rfl
  case price => rfl
  case ordersAhead => rfl
  case qtyAhead => exact hahead
  case ordersBehind => rfl
  case qtyBehind => exact hbehind
  case level =>
    have hqueue' : a.queue (o.side, o.price) = ahead ++ o :: behind := hqueue
    rw [levelSummary_spec h, hqueue', if_neg (by simp)]
  case count =>
    show ahead.length + 1 + behind.length = (ahead ++ o :: behind).length
    rw [List.length_append, List.length_cons]
    omega
  case total =>
    show (UInt64.ofNat _).toNat + _ + (UInt64.ofNat _).toNat = (UInt64.ofNat _).toNat
    rw [hahead, hbehind, hlevel, htotal]

/-- What a new order is told about its place is what it gets. -/
theorem queuePosition_add (h : Represents π b a) {order : Order}
    (hadd : b.add π order = .ok (.ok (), b')) :
    ∃ pos, b'.queuePosition π order.id = .ok (.ok pos) ∧
      pos.ordersAhead = (b.queuePositionForNewOrder order.side order.price).ordersAhead ∧
      pos.qtyAhead = (b.queuePositionForNewOrder order.side order.price).qtyAhead ∧
      pos.ordersBehind = 0 ∧ pos.qtyBehind = 0 := by
  obtain ⟨hreply, hb'⟩ := (add_spec h order).of_eq_ok hadd
  have hq : order.qty ≠ 0 := by
    intro hq
    rw [AbstractBook.add, dif_pos hq] at hreply
    cases hreply
  have hl : ¬ a.Live order.id := by
    intro hl
    rw [AbstractBook.add, dif_neg hq, dif_pos hl] at hreply
    cases hreply
  rw [AbstractBook.add_of_not_live hq hl] at hb'
  have hqueue : (a.push order hq hl).queue order.place = a.queue order.place ++ order :: [] :=
    KeyedQueues.queue_push_self
  have hnew : (b.levelSummary order.side order.price).getD (0, 0) =
      (UInt64.ofNat (restingQty (a.queue order.place)), (a.queue order.place).length) := by
    rw [levelSummary_spec h]
    show (if a.queue order.place = [] then none else some _).getD (0, 0) = _
    by_cases hnil : a.queue order.place = []
    · rw [if_pos hnil, hnil]
      rfl
    · rw [if_neg hnil]
      rfl
  refine ⟨_, queuePosition_spec hb' hqueue, ?_, ?_, rfl, rfl⟩
  · rw [OrderBook.queuePositionForNewOrder, hnew]
  · rw [OrderBook.queuePositionForNewOrder, hnew]

/-- **A queue position is the exact split of the level around the order**, and the one that was
promised before the order was added. -/
theorem queuePosition_splitsLevel (hb : Reachable π b)
    (hfits : ∀ side price orders, b.ordersAt side price = .ok orders →
      restingQty orders < UInt64.size) :
    (∀ o, Rests b o → ∃ ahead behind pos,
      b.ordersAt o.side o.price = .ok (ahead ++ o :: behind) ∧
      b.queuePosition π o.id = .ok (.ok pos) ∧ SplitsLevel b ahead o behind pos) ∧
    ∀ order b', b.add π order = .ok (.ok (), b') →
      ∃ pos, b'.queuePosition π order.id = .ok (.ok pos) ∧
        pos.ordersAhead = (b.queuePositionForNewOrder order.side order.price).ordersAhead ∧
        pos.qtyAhead = (b.queuePositionForNewOrder order.side order.price).qtyAhead ∧
        pos.ordersBehind = 0 ∧ pos.qtyBehind = 0 := by
  obtain ⟨a, h⟩ := hb.represents
  have hexact : TotalsFit a := fun k => hfits k.1 k.2 _ (ordersAt_spec h k.1 k.2)
  constructor
  · intro o ho
    obtain ⟨ahead, behind, hqueue⟩ := exists_split_of_rests h ho
    obtain ⟨pos, hpos, hsplits⟩ := splitsLevel_of_queue h hexact hqueue
    refine ⟨ahead, behind, pos, ?_, hpos, hsplits⟩
    rw [ordersAt_spec h, ← hqueue]
    rfl
  · exact fun order b' hadd => queuePosition_add h hadd

/-- In the sample book, seven stand ahead of the second bid at 100. -/
private theorem sampleBook_queuePosition : ∃ pos,
    sampleBook.queuePosition .dev 4 = .ok (.ok pos) ∧ pos.qtyAhead = 7 :=
  ⟨_, by rfl, by rfl⟩

theorem queuePosition_splitsLevel_sample : ∃ ahead behind pos,
    sampleBook.queuePosition .dev 4 = .ok (.ok pos) ∧
      SplitsLevel sampleBook ahead (sampleOrder 4 2 .bid 100 3) behind pos ∧
      pos.qtyAhead = 7 := by
  obtain ⟨ahead, behind, pos, -, hpos, hsplits⟩ :=
    (queuePosition_splitsLevel sampleBook_reachable sampleBook_fits).1
      (sampleOrder 4 2 .bid 100 3) (by rfl)
  obtain ⟨pos', hpos', hahead⟩ := sampleBook_queuePosition
  obtain rfl : pos = pos' := Except.ok.inj (Except.ok.inj (hpos.symm.trans hpos'))
  exact ⟨ahead, behind, pos, hpos, hsplits, hahead⟩

/-! ### What a queue position predicts -/

/-- `p` is a strictly better price than `q` for an order resting on this side. -/
def Better (side : Side) (p q : Price) : Prop := AsGood side p q ∧ p ≠ q

instance (side : Side) (q : Price) : DecidablePred fun p => Better side p q := fun p =>
  inferInstanceAs (Decidable (AsGood side p q ∧ p ≠ q))

/-- The sum of the totals that `depth` lists at strictly better prices, as a natural number. -/
def OrderBook.qtyAtBetterPrices (b : OrderBook) (side : Side) (price : Price) : ℕ :=
  (((b.depth side).filter fun entry => Better side entry.1 price).map fun entry =>
    entry.2.1.toNat).sum

/-- What the fills of a match take from one maker. -/
def TakerMatch.filledFrom (m : TakerMatch) (id : OrderId) : ℕ :=
  ((m.fills.filter fun f => f.makerOrderId = id).map fun f => f.filledQty.toNat).sum

namespace AbstractBook

variable {side taker : Side} {price limit : Price}

/-- The better prices come first. -/
theorem prices_split (hp : price ∈ a.prices side) :
    ∃ worse, a.prices side =
      (a.prices side).filter (fun p => Better side p price) ++ price :: worse := by
  obtain ⟨ps, qs, heq⟩ := List.append_of_mem hp
  have hsorted := a.prices_pairwise_lt side
  rw [heq, List.pairwise_append, List.pairwise_cons] at hsorted
  obtain ⟨-, ⟨hqs, -⟩, hps⟩ := hsorted
  have hbetter : ps.filter (fun p => Better side p price) = ps := by
    refine List.filter_eq_self.mpr fun p hp => decide_eq_true ?_
    exact hps p hp price List.mem_cons_self
  have hworse : (price :: qs).filter (fun p => Better side p price) = [] := by
    refine List.filter_eq_nil_iff.mpr fun q hq => ?_
    rw [decide_eq_true_iff]
    rintro ⟨hgood, hne⟩
    rcases List.mem_cons.mp hq with rfl | hq
    · exact hne rfl
    · exact hne (hgood.antisymm (hqs q hq).1)
  refine ⟨qs, ?_⟩
  rw [heq, List.filter_append, hbetter, hworse, List.append_nil]

/-- **What a taker meets before an order**: the better prices, and the orders ahead. -/
theorem marketable_split (hside : taker.opposite = o.side)
    (hallow : limitAllows taker o.price limit = true) {ahead behind : List Order}
    (hqueue : a.queue o.place = ahead ++ o :: behind) :
    ∃ rest, a.marketable taker limit =
      (((a.prices o.side).filter fun p => Better o.side p o.price).flatMap
        fun p => a.queue (o.side, p)) ++ ahead ++ o :: rest := by
  have ho : o ∈ a := KeyedQueues.mem_def.mpr (hqueue ▸ List.mem_append_right _ List.mem_cons_self)
  obtain ⟨worse, hprices⟩ := prices_split (mem_prices_iff.mpr ⟨o, ho, rfl, rfl⟩)
  have hbetter : ∀ p ∈ (a.prices o.side).filter (fun p => Better o.side p o.price),
      limitAllows taker p limit = true := by
    intro p hp
    have hgood : Better o.side p o.price := of_decide_eq_true (List.mem_filter.mp hp).2
    exact limitAllows_of_asGood (hside ▸ hgood.1) hallow
  have hqueue' : a.queue (o.side, o.price) = ahead ++ o :: behind := hqueue
  rw [marketable, hside]
  generalize (a.prices o.side).filter (fun p => Better o.side p o.price) = better at hprices hbetter
  rw [hprices, List.takeWhile_append_of_pos hbetter, List.takeWhile_cons, if_pos hallow,
    List.flatMap_append, List.flatMap_cons, hqueue']
  refine ⟨behind ++ (worse.takeWhile fun p => limitAllows taker p limit).flatMap
    fun p => a.queue (o.side, p), ?_⟩
  rw [List.append_assoc, List.append_assoc, List.cons_append]

/-- What a taker takes from one order. -/
theorem sum_fills_filter (a : AbstractBook) (taker : Side) (qty : Qty) (limit : Price)
    (id : OrderId) :
    (a.matchTakerOrder taker qty limit).filledFrom id =
      (((a.uses taker qty limit).filter fun u => u.1.id = id).map Prod.snd).sum := by
  have hn : ∀ u ∈ a.uses taker qty limit, (fillOf u).filledQty.toNat = u.2 := by
    intro u hu
    have hle := (amount_of_mem_consume (fun o => cap_pos_of_mem_marketable) hu).2
    exact UInt64.toNat_ofNat_of_lt' (Nat.lt_of_le_of_lt hle u.1.qty.toNat_lt_size)
  have hfills : (a.matchTakerOrder taker qty limit).fills =
      (a.uses taker qty limit).map fillOf := rfl
  rw [TakerMatch.filledFrom, hfills, List.filter_map, List.map_map]
  refine congrArg List.sum (List.map_congr_left fun u hu => ?_)
  exact hn u (List.mem_of_mem_filter hu)

end AbstractBook

theorem qtyAtBetterPrices_spec (h : Represents π b a) (hfits : TotalsFit a) (side : Side)
    (price : Price) : b.qtyAtBetterPrices side price =
      restingQty (((a.prices side).filter fun p => Better side p price).flatMap
        fun p => a.queue (side, p)) := by
  rw [OrderBook.qtyAtBetterPrices, depth_spec h, List.filter_map, List.map_map]
  show (((a.prices side).filter fun p => Better side p price).map _).sum = _
  induction (a.prices side).filter fun p => Better side p price with
  | nil => rfl
  | cons p ps ih =>
    rw [List.map_cons, List.sum_cons, ih, List.flatMap_cons, restingQty_append]
    exact congrArg (· + _) (hfits.toNat_total (side, p))

/-- **A queue position predicts fills.** A taker on the other side reaches a live order with what
the better prices and the orders ahead leave of it, if its limit allows the price at all. -/
theorem queuePosition_predictsFills (hb : Reachable π b)
    (hfits : ∀ side price orders, b.ordersAt side price = .ok orders →
      restingQty orders < UInt64.size) (ho : Rests b o) (qty : Qty) (limit : Price) :
    ∃ pos m, b.queuePosition π o.id = .ok (.ok pos) ∧
      b.matchTakerOrder π o.side.opposite qty limit = .ok m ∧
      (m.fills.map FillDelta.makerOrderId).Nodup ∧
      m.filledFrom o.id =
        if limitAllows o.side.opposite o.price limit then
          min o.qty.toNat
            (qty.toNat - b.qtyAtBetterPrices o.side o.price - pos.qtyAhead.toNat)
        else 0 := by
  obtain ⟨a, h⟩ := hb.represents
  have hexact : TotalsFit a := fun k => hfits k.1 k.2 _ (ordersAt_spec h k.1 k.2)
  obtain ⟨ahead, behind, hqueue⟩ := exists_split_of_rests h ho
  obtain ⟨pos, hpos, hsplits⟩ := splitsLevel_of_queue h hexact hqueue
  refine ⟨pos, _, hpos, matchTakerOrder_spec h _ qty limit, a.fills_ids_nodup _ qty limit, ?_⟩
  rw [AbstractBook.sum_fills_filter, AbstractBook.uses, qtyAtBetterPrices_spec h hexact,
    hsplits.qtyAhead]
  have hside : o.side.opposite.opposite = o.side := by cases o.side <;> rfl
  have hnodup := a.marketable_ids_nodup o.side.opposite limit
  have hpos : ∀ x ∈ a.marketable o.side.opposite limit, 0 < x.cap := fun x hx =>
    AbstractBook.cap_pos_of_mem_marketable hx
  by_cases hallow : limitAllows o.side.opposite o.price limit = true
  · obtain ⟨rest, hmarketable⟩ := AbstractBook.marketable_split hside hallow hqueue
    rw [if_pos hallow, hmarketable]
    rw [hmarketable] at hnodup hpos
    rw [List.map_append, List.map_cons] at hnodup
    have hnot := (List.nodup_cons.mp (List.perm_middle.nodup_iff.mp hnodup)).1
    rw [List.mem_append, not_or] at hnot
    have hne : ∀ {xs : List Order}, o.id ∉ xs.map Order.id → ∀ x ∈ xs,
        decide (x.id = o.id) = false := fun hxs x hx =>
      decide_eq_false fun hid => hxs (List.mem_map.mpr ⟨x, hx, hid⟩)
    have hsum := sum_filter_consume (fun x : Order => decide (x.id = o.id)) qty.toNat
      (fun x hx => hpos x (List.mem_append_left _ hx)) (hne hnot.1) (decide_eq_true rfl)
      (hne hnot.2)
    have htotal : ∀ xs, total Order.cap xs = restingQty xs := fun _ => rfl
    rw [hsum, htotal, restingQty_append, Nat.min_comm, Nat.sub_sub]
    rfl
  · rw [if_neg hallow, List.filter_eq_nil_iff.mpr]
    · rfl
    · intro u hu
      rw [decide_eq_true_iff]
      intro hid
      have hmem := mem_of_mem_consume (x := u.1) (n := u.2) hu
      obtain ⟨hua, -, huallow⟩ := AbstractBook.mem_marketable.mp hmem
      rw [KeyedQueues.eq_of_key_eq hua ((rests_iff h).mp ho) hid] at huallow
      exact hallow huallow

/-- In the sample book, an ask for nine at 100 takes the seven of the first bid and two of the three
of the second. -/
theorem queuePosition_predictsFills_sample : ∃ pos m,
    sampleBook.queuePosition .dev 4 = .ok (.ok pos) ∧
      sampleBook.matchTakerOrder .dev .ask 9 100 = .ok m ∧ m.filledFrom 4 = 2 := by
  obtain ⟨pos, m, hpos, hm, -, hfilled⟩ := queuePosition_predictsFills sampleBook_reachable
    sampleBook_fits (show Rests sampleBook (sampleOrder 4 2 .bid 100 3) by rfl) 9 100
  obtain ⟨pos', hpos', hahead⟩ := sampleBook_queuePosition
  obtain rfl : pos = pos' := Except.ok.inj (Except.ok.inj (hpos.symm.trans hpos'))
  refine ⟨pos, m, hpos, hm, hfilled.trans ?_⟩
  rw [hahead]
  rfl

end L4Book
