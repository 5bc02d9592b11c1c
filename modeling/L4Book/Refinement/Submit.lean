import L4Book.Refinement.Take

/-!
# Submitting limit orders

The four time-in-force policies on a book that represents an abstract one, and the crossing test of
`PostOnly`: it is true exactly when there are marketable orders, that is, when the matcher would
produce a fill.

## Main definitions

* `AbstractBook.submitLimitOrder`, `AbstractBook.wouldCross`
* `SubmitOverflows`: when the level on which the order comes to rest overflows

## Main results

* `wouldCross_iff`: the crossing test and the matcher have the same boundary
* `submitLimitOrder_spec`
-/

namespace L4Book

namespace AbstractBook

variable (a : AbstractBook) (order : Order)

/-- The best price of the other side is one the limit allows. -/
noncomputable def wouldCross (side : Side) (price : Price) : Bool :=
  (a.prices side.opposite).head?.any fun best => limitAllows side best price

/-- The match of a limit order taken as a taker order. -/
noncomputable def matchOrder : TakerMatch := a.matchTakerOrder order.side order.qty order.price

/-- The book after a limit order has been taken as far as it goes. -/
noncomputable def takeOrder : AbstractBook := a.settle (a.matchOrder order).fills

/-- What a limit order has left to rest. -/
noncomputable def remainder : Order := order.withQty (a.matchOrder order).unfilledQty

/-- Rest an order that is reported in the outcome. -/
noncomputable def restReporting (policy : LimitOrderPolicy) (m : TakerMatch) :
    Except BookError SubmitLimitOrderOutcome × AbstractBook :=
  ((a.add order).1.map fun _ => ⟨policy, none, m, some order⟩, (a.add order).2)

open Classical in
/-- Submit a limit order. -/
noncomputable def submitLimitOrder (policy : LimitOrderPolicy) :
    Except BookError SubmitLimitOrderOutcome × AbstractBook :=
  if order.qty = 0 then (.error .zeroQty, a)
  else if a.Live order.id then (.error (.duplicateOrderId order.id), a)
  else match policy with
  | .gtc =>
    if 0 < (a.matchOrder order).unfilledQty then
      (a.takeOrder order).restReporting (a.remainder order) .gtc (a.matchOrder order)
    else (.ok ⟨.gtc, none, a.matchOrder order, none⟩, a.takeOrder order)
  | .ioc => (.ok ⟨.ioc, none, a.matchOrder order, none⟩, a.takeOrder order)
  | .fok =>
    if (a.matchOrder order).unfilledQty = 0 then
      (.ok ⟨.fok, none, a.matchOrder order, none⟩, a.takeOrder order)
    else (.ok ⟨.fok, some .fillOrKillWouldNotFill, a.matchOrder order, none⟩, a)
  | .postOnly =>
    if a.wouldCross order.side order.price then
      (.ok ⟨.postOnly, some .postOnlyWouldCross, a.matchOrder order, none⟩, a)
    else a.restReporting order .postOnly (a.matchOrder order)

variable {a order} {side : Side} {price : Price}

/-- **The crossing test is true exactly when there is something to match.** -/
theorem wouldCross_iff : a.wouldCross side price = true ↔ a.marketable side price ≠ [] := by
  have hne : ∀ p ∈ a.prices side.opposite, a.queue (side.opposite, p) ≠ [] := fun p hp =>
    mem_prices.mp hp
  rw [wouldCross, marketable]
  cases hps : a.prices side.opposite with
  | nil => simp
  | cons best ps =>
    have hbest := hne best (hps ▸ List.mem_cons_self)
    rw [List.head?_cons, Option.any_some, List.takeWhile_cons]
    by_cases hallow : limitAllows side best price = true
    · simp [hallow, hbest]
    · simp [hallow]

/-- A match against marketable orders has a fill, unless nothing was asked for. -/
theorem fills_eq_nil_iff {taker : Side} {qty : Qty} {limit : Price} (hq : qty ≠ 0) :
    (a.matchTakerOrder taker qty limit).fills = [] ↔ a.marketable taker limit = [] := by
  have hq' : qty.toNat ≠ 0 := fun hzero => hq (UInt64.toNat_inj.mp hzero)
  show (consume Order.cap _ _).map fillOf = [] ↔ _
  rw [List.map_eq_nil_iff]
  cases a.marketable taker limit with
  | nil => simp
  | cons o l => simp [consume_cons hq']

/-- Nothing a match does makes an id live. -/
theorem not_live_settle {id : OrderId} (h : ¬ a.Live id) (fills : List FillDelta) :
    ¬ (a.settle fills).Live id := by
  rw [settle_eq]
  exact fun hlive => h (KeyedQueues.live_of_live_filterMap hlive)

end AbstractBook

variable {π : Profile} {b : OrderBook} {a : AbstractBook}

theorem limitOrderWouldCross_spec (h : Represents π b a) (side : Side) (price : Price) :
    b.limitOrderWouldCross side price = a.wouldCross side price := by
  cases side with
  | bid =>
    rw [OrderBook.limitOrderWouldCross, bestAsk_spec h]
    rfl
  | ask =>
    rw [OrderBook.limitOrderWouldCross, bestBid_spec h]
    rfl

/-! ### The own side of a taker -/

namespace AbstractBook

variable (a : AbstractBook) (order : Order)

/-- A match leaves the taker's own side alone. -/
theorem settleAt_own_side {o : Order} (ho : o ∈ a) (hside : o.side = order.side) :
    settleAt (a.matchOrder order).fills o = some o := by
  refine settleAt_of_not_mem fun hmem => ?_
  obtain ⟨f, hf, hid⟩ := List.mem_map.mp hmem
  obtain ⟨⟨maker, n⟩, huse, rfl⟩ := List.mem_map.mp hf
  obtain ⟨hmaker, hopposite, -⟩ := mem_marketable.mp (mem_of_mem_consume huse)
  have heq : maker = o := KeyedQueues.eq_of_key_eq hmaker ho hid
  rw [heq, hside] at hopposite
  cases hs : order.side <;> rw [hs] at hopposite <;> exact nomatch hopposite

theorem queue_takeOrder_own (price : Price) :
    (a.takeOrder order).queue (order.side, price) = a.queue (order.side, price) := by
  rw [takeOrder, settle_eq, KeyedQueues.queue_filterMap]
  have hsome : ∀ o ∈ a.queue (order.side, price),
      settleAt (a.matchOrder order).fills o = some o := fun o ho =>
    a.settleAt_own_side order (KeyedQueues.mem_of_mem_queue ho) (Prod.mk.inj (a.placed ho)).1
  rw [List.filterMap_congr hsome, List.filterMap_some]

theorem toNat_qty_remainder :
    (a.remainder order).qty.toNat =
      order.qty.toNat - restingQty (a.marketable order.side order.price) :=
  a.unfilledQty_toNat order.side order.qty order.price

end AbstractBook

/-- The true total of the level on which the order comes to rest would not fit a `u64`. -/
def SubmitOverflows (a : AbstractBook) (order : Order) (policy : LimitOrderPolicy) : Prop :=
  order.qty ≠ 0 ∧ ¬ a.Live order.id ∧
    match policy with
    | .gtc => restingQty (a.marketable order.side order.price) < order.qty.toNat ∧
        UInt64.size ≤ restingQty (a.queue order.place) +
          (order.qty.toNat - restingQty (a.marketable order.side order.price))
    | .postOnly => a.wouldCross order.side order.price = false ∧
        UInt64.size ≤ restingQty (a.queue order.place) + order.qty.toNat
    | .ioc => False
    | .fok => False

/-- The order as a taker. -/
theorem takeOrder_spec (h : Represents π b a) {order : Order} (hq : order.qty ≠ 0) :
    Returns (OnlyOverflow π False)
      (b.applyTakerOrder π order.side order.qty order.price) fun r =>
        r.1 = .ok (a.matchOrder order) ∧ Represents π r.2 (a.takeOrder order) := by
  have hspec := applyTakerOrder_spec h order.side order.qty order.price
  rw [AbstractBook.applyTakerOrder, if_neg hq] at hspec
  exact hspec

/-- The order, or what is left of it, as a maker. -/
theorem restReporting_spec (h : Represents π b a) (rested : Order) (policy : LimitOrderPolicy)
    (result : TakerMatch) :
    Returns (OnlyOverflow π (AddOverflows a rested))
      (b.add π rested >>= fun r =>
        .ok (r.1.map fun _ => ⟨policy, none, result, some rested⟩, r.2)) fun r =>
        r.1 = (a.restReporting rested policy result).1 ∧
          Represents π r.2 (a.restReporting rested policy result).2 := by
  refine (add_spec h rested).bind ?_
  rintro ⟨r, b'⟩ ⟨hr, hb'⟩
  exact ⟨congrArg (Except.map _) hr, hb'⟩

/-- What a taker leaves of itself rests in a level that it did not touch. -/
theorem submitOverflows_of_remainder {order : Order} (hq : order.qty ≠ 0) (hl : ¬ a.Live order.id)
    (hover : AddOverflows (a.takeOrder order) (a.remainder order)) :
    SubmitOverflows a order .gtc := by
  obtain ⟨hne, -, hover⟩ := hover
  have hqueue : (a.takeOrder order).queue (a.remainder order).place = a.queue order.place :=
    a.queue_takeOrder_own order order.price
  have hpos : (a.remainder order).qty.toNat ≠ 0 := fun hzero =>
    hne (UInt64.toNat_inj.mp hzero)
  rw [hqueue, a.toNat_qty_remainder order] at hover
  rw [a.toNat_qty_remainder order] at hpos
  exact ⟨hq, hl, Nat.lt_of_sub_ne_zero hpos, hover⟩

/-- **`submit_limit_order`**, whatever the policy. -/
theorem submitLimitOrder_spec (h : Represents π b a) (order : Order) (policy : LimitOrderPolicy) :
    Returns (OnlyOverflow π (SubmitOverflows a order policy))
      (b.submitLimitOrder π order policy) fun r =>
        r.1 = (a.submitLimitOrder order policy).1 ∧
          Represents π r.2 (a.submitLimitOrder order policy).2 := by
  unfold OrderBook.submitLimitOrder AbstractBook.submitLimitOrder
  by_cases hq : order.qty = 0
  · rw [if_pos hq, if_pos hq]
    exact ⟨rfl, h⟩
  by_cases hl : a.Live order.id
  · rw [if_neg hq, if_neg hq, if_pos ((containsKey_spec h order.id).mpr hl), if_pos hl]
    exact ⟨rfl, h⟩
  rw [if_neg hq, if_neg hq, if_neg (mt (containsKey_spec h order.id).mp hl), if_neg hl]
  have htake : Returns (OnlyOverflow π (SubmitOverflows a order policy))
      (b.applyTakerOrder π order.side order.qty order.price) fun r =>
        r.1 = .ok (a.matchOrder order) ∧ Represents π r.2 (a.takeOrder order) :=
    (takeOrder_spec h hq).mono (fun e he => he.mono False.elim) fun _ => id
  have hmatch : b.matchTakerOrder π order.side order.qty order.price =
      .ok (a.matchOrder order) := matchTakerOrder_spec h _ _ _
  cases policy with
  | gtc =>
    rw [OrderBook.submitGtc]
    refine htake.bind ?_
    rintro ⟨r, b'⟩ ⟨rfl, hb'⟩
    by_cases hpos : 0 < (a.matchOrder order).unfilledQty
    · simp only [if_pos hpos]
      refine (restReporting_spec hb' (a.remainder order) .gtc (a.matchOrder order)).mono ?_
        fun _ => id
      exact fun e he => he.mono (submitOverflows_of_remainder hq hl)
    · simp only [if_neg hpos]
      exact ⟨rfl, hb'⟩
  | ioc =>
    rw [OrderBook.submitTake]
    refine htake.bind ?_
    rintro ⟨r, b'⟩ ⟨rfl, hb'⟩
    exact ⟨rfl, hb'⟩
  | fok =>
    rw [OrderBook.submitFok, hmatch, ok_bind]
    by_cases hcomplete : (a.matchOrder order).unfilledQty = 0
    · have hcomplete' : (a.matchOrder order).isComplete = true := beq_iff_eq.mpr hcomplete
      rw [hcomplete', if_pos hcomplete, OrderBook.submitTake]
      refine htake.bind ?_
      rintro ⟨r, b'⟩ ⟨rfl, hb'⟩
      exact ⟨rfl, hb'⟩
    · have hcomplete' : (a.matchOrder order).isComplete = false :=
        beq_eq_false_iff_ne.mpr hcomplete
      rw [hcomplete', if_neg hcomplete]
      exact ⟨rfl, h⟩
  | postOnly =>
    rw [OrderBook.submitPostOnly, hmatch, ok_bind, limitOrderWouldCross_spec h]
    cases hcross : a.wouldCross order.side order.price with
    | true =>
      exact ⟨rfl, h⟩
    | false =>
      refine (restReporting_spec h order .postOnly (a.matchOrder order)).mono ?_ fun _ => id
      exact fun e he => he.mono fun hover => ⟨hq, hl, hcross, hover.2.2⟩

end L4Book
