import L4Book.Results.Matching
import L4Book.Results.Totals

/-!
# Submitting limit orders

Two results about a book that only takes, submits, shrinks and cancels: it never crosses; and the
four policies of one submission agree with each other.

## Main definitions

* `Uncrossed`, `Call.Submits`
* `SameOrders`, `PoliciesAgree`

## Main results

* `submitting_neverCrosses`
* `submitPolicies_agree`
-/

namespace L4Book

variable {π : Profile} {b b' : OrderBook} {a a' : AbstractBook}

/-! ### Uncrossed books -/

/-- The best bid is below the best ask, when there are both. -/
def Uncrossed (b : OrderBook) : Prop :=
  ∀ bid ask, b.bestBid = some bid → b.bestAsk = some ask → bid < ask

/-- The calls of a market: submitting, taking, cancelling and amending orders. -/
def Call.Submits : Call → Prop
  | .submitLimitOrder _ _ => True
  | .applyTakerOrder _ _ _ => True
  | .remove _ => True
  | .updateSize _ _ => True
  | .amendSize _ _ => True
  | .amendSizeWithPolicy _ _ _ => True
  | _ => False

namespace AbstractBook

/-- Every bid is below every ask. -/
def Uncrossed (a : AbstractBook) : Prop :=
  ∀ bid ∈ a, ∀ ask ∈ a, bid.side = .bid → ask.side = .ask → bid.price < ask.price

variable {o order : Order} {side : Side} {p : Price}

/-- The best price of a side is a price of some order... -/
theorem exists_of_head?_prices (h : (a.prices side).head? = some p) :
    ∃ o ∈ a, o.side = side ∧ o.price = p := by
  have hp : a.queue (side, p) ≠ [] := mem_prices.mp (List.mem_of_mem_head? h)
  obtain ⟨o, ho⟩ := List.exists_mem_of_ne_nil _ hp
  obtain ⟨hside, hprice⟩ := Prod.mk.inj (a.placed ho)
  exact ⟨o, KeyedQueues.mem_of_mem_queue ho, hside, hprice⟩

/-- ... and at least as good as the price of every order. -/
theorem exists_head?_prices (ho : o ∈ a) :
    ∃ best, (a.prices o.side).head? = some best ∧ AsGood o.side best o.price := by
  have hmem : o.price ∈ a.prices o.side := mem_prices.mpr (List.ne_nil_of_mem ho)
  have hsorted := a.prices_pairwise o.side
  cases hps : a.prices o.side with
  | nil =>
    rw [hps] at hmem
    exact absurd hmem List.not_mem_nil
  | cons best ps =>
    rw [hps] at hmem hsorted
    refine ⟨best, rfl, ?_⟩
    rcases List.mem_cons.mp hmem with heq | hmem
    · rw [heq]
      exact asGood_refl _ _
    · exact (List.pairwise_cons.mp hsorted).1 _ hmem

/-- Orders that stand where orders stood do not cross. -/
theorem Uncrossed.mono (hu : a.Uncrossed) (h : ∀ o ∈ a', ∃ o' ∈ a, o'.place = o.place) :
    a'.Uncrossed := by
  intro bid hbid ask hask hbidSide haskSide
  obtain ⟨bid', hbid', hbidPlace⟩ := h bid hbid
  obtain ⟨ask', hask', haskPlace⟩ := h ask hask
  obtain ⟨hbs, hbp⟩ := Prod.mk.inj hbidPlace
  obtain ⟨has, hap⟩ := Prod.mk.inj haskPlace
  rw [← hbp, ← hap]
  exact hu bid' hbid' ask' hask' (hbs.trans hbidSide) (has.trans haskSide)

theorem Uncrossed.filterMap (hu : a.Uncrossed) {g : Order → Option Order}
    (hg : KeyedQueues.StaysPut Order.place Order.id (fun o => o.qty ≠ 0) g) :
    Uncrossed (a.filterMap g hg) := by
  refine hu.mono fun o ho => ?_
  obtain ⟨x, hx, hgx⟩ := KeyedQueues.mem_filterMap.mp ho
  exact ⟨x, hx, (hg.place_eq hgx).symm⟩

theorem Uncrossed.resize (hu : a.Uncrossed) (id : OrderId) (newQty : Qty) :
    (a.resize id newQty).Uncrossed :=
  hu.filterMap (resizeAt_staysPut id newQty)

theorem Uncrossed.resizeToTail (hu : a.Uncrossed) (ho : o ∈ a) {newQty : Qty} (hq : newQty ≠ 0) :
    (a.resizeToTail o newQty hq).Uncrossed := by
  refine hu.mono fun x hx => ?_
  rcases (mem_resizeToTail hq).mp hx with rfl | ⟨hx, -⟩
  · exact ⟨o, ho, rfl⟩
  · exact ⟨x, hx, rfl⟩

theorem mem_or_eq_of_mem_add (h : o ∈ (a.add order).2) : o ∈ a ∨ o = order := by
  rcases a.add_snd order with heq | ⟨hq, hl, heq⟩
  · rw [heq] at h
    exact Or.inl h
  · rw [heq] at h
    exact KeyedQueues.mem_push.mp h

/-- An order that nothing could fill can rest. -/
theorem Uncrossed.add (hu : a.Uncrossed) (hnil : a.marketable order.side order.price = []) :
    (a.add order).2.Uncrossed := by
  have hout : ∀ o ∈ a, o.side = order.side.opposite →
      ¬ limitAllows order.side o.price order.price = true := by
    intro o ho hside hallow
    have hmem : o ∈ a.marketable order.side order.price := mem_marketable.mpr ⟨ho, hside, hallow⟩
    rw [hnil] at hmem
    exact List.not_mem_nil hmem
  intro bid hbid ask hask hbidSide haskSide
  rcases mem_or_eq_of_mem_add hbid with hbid' | rfl <;>
    rcases mem_or_eq_of_mem_add hask with hask' | rfl
  · exact hu bid hbid' ask hask' hbidSide haskSide
  · -- a new ask, above every bid
    have hnot := hout bid hbid' (by rw [hbidSide, haskSide]; rfl)
    rw [haskSide] at hnot
    simpa [limitAllows] using hnot
  · -- a new bid, below every ask
    have hnot := hout ask hask' (by rw [hbidSide, haskSide]; rfl)
    rw [hbidSide] at hnot
    simpa [limitAllows] using hnot
  · rw [hbidSide] at haskSide
    cases haskSide

theorem Uncrossed.takeOrder (hu : a.Uncrossed) (order : Order) : (a.takeOrder order).Uncrossed := by
  rw [AbstractBook.takeOrder, settle_eq]
  exact hu.filterMap _

/-- **Submitting keeps a book uncrossed**: what comes to rest could not be filled. -/
theorem Uncrossed.submitLimitOrder (hu : a.Uncrossed) (order : Order) (policy : LimitOrderPolicy) :
    (a.submitLimitOrder order policy).2.Uncrossed := by
  by_cases hq : order.qty = 0
  · rw [AbstractBook.submitLimitOrder.eq_def, if_pos hq]
    exact hu
  by_cases hl : a.Live order.id
  · rw [AbstractBook.submitLimitOrder.eq_def, if_neg hq, if_pos hl]
    exact hu
  rw [AbstractBook.submitLimitOrder.eq_def, if_neg hq, if_neg hl]
  cases policy with
  | gtc =>
    by_cases hpos : 0 < (a.matchOrder order).unfilledQty
    · simp only [if_pos hpos]
      have hnil : (a.takeOrder order).marketable (a.remainder order).side
          (a.remainder order).price = [] := marketable_settle_eq_nil hpos
      exact (hu.takeOrder order).add hnil
    · simp only [if_neg hpos]
      exact hu.takeOrder order
  | ioc => exact hu.takeOrder order
  | fok =>
    by_cases hcomplete : (a.matchOrder order).unfilledQty = 0
    · simp only [if_pos hcomplete]
      exact hu.takeOrder order
    · simp only [if_neg hcomplete]
      exact hu
  | postOnly =>
    by_cases hcross : a.wouldCross order.side order.price = true
    · simp only [if_pos hcross]
      exact hu
    · simp only [if_neg hcross]
      exact hu.add (not_not.mp (mt wouldCross_iff.mpr hcross))

theorem Uncrossed.amend (hu : a.Uncrossed) (id : OrderId) (newQty : Qty)
    (policy : AmendPriorityPolicy) : (a.amendSizeWithPolicy id newQty policy).2.Uncrossed := by
  rcases a.amendSizeWithPolicy_snd id newQty policy with h | h | ⟨o, hq, hfind, -, -, h⟩
  · rw [h]
    exact hu
  · rw [h]
    exact hu.resize id newQty
  · rw [h]
    exact hu.resizeToTail (KeyedQueues.find_eq_some_iff.mp hfind).1 hq

/-- **The step lemma.** -/
theorem Uncrossed.exec (hu : a.Uncrossed) {c : Call} (hc : c.Submits) : (a.exec c).Uncrossed := by
  cases c with
  | remove id =>
    show (a.remove id).2.Uncrossed
    rcases a.remove_snd id with h | h
    · rw [h]
      exact hu
    · rw [h]
      exact hu.resize id 0
  | updateSize id newQty =>
    show (a.updateSize id newQty).2.Uncrossed
    rcases a.updateSize_snd id newQty with h | h
    · rw [h]
      exact hu
    · rw [h]
      exact hu.resize id newQty
  | amendSize id newQty => exact hu.amend id newQty .preserve
  | amendSizeWithPolicy id newQty policy => exact hu.amend id newQty policy
  | applyTakerOrder taker qty limit =>
    show (a.applyTakerOrder taker qty limit).2.Uncrossed
    rw [AbstractBook.applyTakerOrder]
    split
    · exact hu
    · show (a.settle _).Uncrossed
      rw [settle_eq]
      exact hu.filterMap _
  | submitLimitOrder order policy => exact hu.submitLimitOrder order policy
  | add order => exact hc.elim
  | applyOp op => exact hc.elim
  | applyOpWithPolicy op policy => exact hc.elim
  | applySnapshot orders => exact hc.elim
  | applySnapshotWithPolicy orders policy => exact hc.elim
  | clear => exact hc.elim

/-- **The run lemma.** -/
theorem Uncrossed.foldl (hu : a.Uncrossed) {calls : List Call} (hcalls : ∀ c ∈ calls, c.Submits) :
    (calls.foldl AbstractBook.exec a).Uncrossed := by
  induction calls generalizing a with
  | nil => exact hu
  | cons c cs ih =>
    rw [List.forall_mem_cons] at hcalls
    exact ih (hu.exec hcalls.1) hcalls.2

end AbstractBook

/-- The best prices tell whether the book is crossed. -/
theorem uncrossed_iff (h : Represents π b a) : Uncrossed b ↔ a.Uncrossed := by
  constructor
  · intro hu bid hbid ask hask hbidSide haskSide
    obtain ⟨bestBid, hbestBid, hgoodBid⟩ := AbstractBook.exists_head?_prices hbid
    obtain ⟨bestAsk, hbestAsk, hgoodAsk⟩ := AbstractBook.exists_head?_prices hask
    rw [hbidSide] at hbestBid hgoodBid
    rw [haskSide] at hbestAsk hgoodAsk
    have hlt : bestBid < bestAsk :=
      hu bestBid bestAsk ((bestBid_spec h).trans hbestBid) ((bestAsk_spec h).trans hbestAsk)
    exact UInt64.lt_of_le_of_lt hgoodBid (UInt64.lt_of_lt_of_le hlt hgoodAsk)
  · intro hu bid ask hbid hask
    rw [bestBid_spec h] at hbid
    rw [bestAsk_spec h] at hask
    obtain ⟨o, ho, hoSide, rfl⟩ := AbstractBook.exists_of_head?_prices hbid
    obtain ⟨o', ho', hoSide', rfl⟩ := AbstractBook.exists_of_head?_prices hask
    exact hu o ho o' ho' hoSide hoSide'

/-- **Submitting never crosses the book.** -/
theorem submitting_neverCrosses (hb : Reachable π b) (hu : Uncrossed b) {calls : List Call}
    (hcalls : ∀ c ∈ calls, c.Submits) (hrun : b.run π calls = .ok b') : Uncrossed b' := by
  obtain ⟨a, h⟩ := hb.represents
  exact (uncrossed_iff (run_represents h hrun)).mpr (((uncrossed_iff h).mp hu).foldl hcalls)

/-- In the sample book, a bid at the price of the worst ask takes one ask and part of the other and
leaves the book uncrossed. -/
theorem submitting_neverCrosses_sample : ∃ b',
    sampleBook.run .dev [.submitLimitOrder (sampleOrder 7 1 .bid 103 10) .gtc] = .ok b' ∧
      Uncrossed b' := by
  have hu : Uncrossed sampleBook := by
    intro bid ask hbid hask
    cases hbid
    cases hask
    decide
  have hcalls : ∀ c ∈ [Call.submitLimitOrder (sampleOrder 7 1 .bid 103 10) .gtc], c.Submits := by
    intro c hc
    rw [List.mem_singleton.mp hc]
    trivial
  exact ⟨_, by rfl, submitting_neverCrosses sampleBook_reachable hu hcalls (by rfl)⟩

/-! ### The four policies -/

/-- The two books hold the same orders, with the same fields, in the same places of the same
lists. -/
structure SameOrders (b b' : OrderBook) : Prop where
  ordersAt : ∀ side price, b.ordersAt side price = b'.ordersAt side price
  get : ∀ id, b.get id = b'.get id

/-- `g` is the outcome of the order under `Gtc` and `bG` the book it leaves; the other policies
differ from it in what they do with the remainder, and when. -/
structure PoliciesAgree (π : Profile) (b : OrderBook) (order : Order)
    (g : SubmitLimitOrderOutcome) (bG : OrderBook) : Prop where
  accepted : g.policy = .gtc ∧ g.rejected = none
  /-- `Gtc` takes what the matcher finds and rests what is left of the order. -/
  matched : b.matchTakerOrder π order.side order.qty order.price = .ok g.takerMatch
  conserved : g.takerMatch.filledQty.toNat + g.takerMatch.unfilledQty.toNat = order.qty.toNat
  rested : g.restedOrder = if 0 < g.takerMatch.unfilledQty then
    some { order with qty := g.takerMatch.unfilledQty } else none
  resting : bG.get order.id = .ok g.restedOrder
  atEnd : ∃ orders, b.ordersAt order.side order.price = .ok orders ∧
    bG.ordersAt order.side order.price = .ok (orders ++ g.restedOrder.toList)
  /-- `Ioc` takes the same and removes what `Gtc` would rest. -/
  ioc : ∃ bI, b.submitLimitOrder π order .ioc = .ok (.ok ⟨.ioc, none, g.takerMatch, none⟩, bI) ∧
    match g.restedOrder with
    | none => SameOrders bI bG
    | some rested => ∃ bR, bG.remove π order.id = .ok (.ok rested, bR) ∧ SameOrders bI bR
  /-- `Fok` is `Gtc` where `Gtc` is filled, and nothing otherwise. -/
  fok_filled : g.takerMatch.unfilledQty = 0 →
    ∃ bF, b.submitLimitOrder π order .fok = .ok (.ok ⟨.fok, none, g.takerMatch, none⟩, bF) ∧
      SameOrders bF bG
  fok_rejected : g.takerMatch.unfilledQty ≠ 0 → b.submitLimitOrder π order .fok =
    .ok (.ok ⟨.fok, some .fillOrKillWouldNotFill, g.takerMatch, none⟩, b)
  /-- `PostOnly` is `Gtc` where `Gtc` has no fills, and nothing otherwise. -/
  postOnly_rested : g.takerMatch.fills = [] → g.restedOrder = some order ∧
    ∃ bP, b.submitLimitOrder π order .postOnly =
      .ok (.ok ⟨.postOnly, none, g.takerMatch, some order⟩, bP) ∧ SameOrders bP bG
  postOnly_rejected : g.takerMatch.fills ≠ [] → b.submitLimitOrder π order .postOnly =
    .ok (.ok ⟨.postOnly, some .postOnlyWouldCross, g.takerMatch, none⟩, b)
  /-- The crossing test of `PostOnly` has the boundary of the matcher. -/
  crosses : b.limitOrderWouldCross order.side order.price = true ↔ g.takerMatch.fills ≠ []

theorem Represents.sameOrders (h : Represents π b a) (h' : Represents π b' a) :
    SameOrders b b' where
  ordersAt side price := (ordersAt_spec h side price).trans (ordersAt_spec h' side price).symm
  get id := (get_spec h id).trans (get_spec h' id).symm

namespace AbstractBook

variable {order : Order}

/-- Taking back an order that was just appended. -/
theorem resize_push {Q : AbstractBook} {hq : order.qty ≠ 0} {hl : ¬ Q.Live order.id} :
    resize (Q.push order hq hl) order.id 0 = Q := by
  apply KeyedQueues.ext
  funext k
  have hnot : order.id ∉ (Q.queue k).map Order.id := by
    intro hmem
    obtain ⟨o, ho, hid⟩ := List.mem_map.mp hmem
    exact hl ⟨o, KeyedQueues.mem_of_mem_queue ho, hid⟩
  rw [queue_resize, KeyedQueues.queue_push]
  split
  · rw [List.filterMap_append, filterMap_resizeAt_of_not_mem hnot,
      List.filterMap_cons_none (resizeAt_zero rfl), List.filterMap_nil, List.append_nil]
  · exact filterMap_resizeAt_of_not_mem hnot

theorem qty_remainder_ne_zero (hpos : 0 < (a.matchOrder order).unfilledQty) :
    (a.remainder order).qty ≠ 0 := (UInt64.ne_of_lt hpos).symm

theorem not_live_takeOrder (hl : ¬ a.Live order.id) :
    ¬ (a.takeOrder order).Live (a.remainder order).id := not_live_settle hl _

/-- With nothing to match, the whole order remains and the book stays as it is. -/
theorem remainder_of_marketable_eq_nil (hnil : a.marketable order.side order.price = []) :
    a.remainder order = order ∧ a.takeOrder order = a := by
  have hqty : (a.remainder order).qty = order.qty := by
    rw [← UInt64.toNat_inj, a.toNat_qty_remainder order, hnil]
    rfl
  have hfills : (a.matchOrder order).fills = [] := by
    show (consume Order.cap (a.marketable order.side order.price) _).map fillOf = []
    rw [hnil]
    rfl
  refine ⟨?_, ?_⟩
  · show order.withQty (a.remainder order).qty = order
    rw [hqty, Order.withQty_self]
  · rw [AbstractBook.takeOrder, hfills]
    rfl

end AbstractBook

/-- The crossing test has the boundary of the matcher. -/
theorem limitOrderWouldCross_iff {order : Order} (h : Represents π b a) (hq : order.qty ≠ 0) :
    b.limitOrderWouldCross order.side order.price = true ↔ (a.matchOrder order).fills ≠ [] := by
  rw [limitOrderWouldCross_spec h, AbstractBook.wouldCross_iff]
  exact (not_congr (AbstractBook.fills_eq_nil_iff hq)).symm

section Policies

variable {order : Order} (h : Represents π b a) (hq : order.qty ≠ 0) (hl : ¬ a.Live order.id)
include h hq hl

/-- What `Gtc` rests, and the book it leaves. -/
theorem gtc_outcome {r : Except BookError SubmitLimitOrderOutcome} {bG : OrderBook}
    (hG : b.submitLimitOrder π order .gtc = .ok (r, bG)) :
    (0 < (a.matchOrder order).unfilledQty ∧
      r = .ok ⟨.gtc, none, a.matchOrder order, some (a.remainder order)⟩ ∧
      Represents π bG ((a.takeOrder order).add (a.remainder order)).2) ∨
    ((a.matchOrder order).unfilledQty = 0 ∧ r = .ok ⟨.gtc, none, a.matchOrder order, none⟩ ∧
      Represents π bG (a.takeOrder order)) := by
  obtain ⟨hr, hb'⟩ := (submitLimitOrder_spec h order .gtc).of_eq_ok hG
  rw [AbstractBook.submitLimitOrder.eq_def, if_neg hq, if_neg hl] at hr hb'
  by_cases hpos : 0 < (a.matchOrder order).unfilledQty
  · simp only [if_pos hpos] at hr hb'
    refine Or.inl ⟨hpos, hr.trans ?_, hb'⟩
    rw [AbstractBook.restReporting, AbstractBook.add_of_not_live
      (AbstractBook.qty_remainder_ne_zero hpos) (AbstractBook.not_live_takeOrder hl)]
    rfl
  · simp only [if_neg hpos] at hr hb'
    exact Or.inr ⟨UInt64.le_antisymm (UInt64.not_lt.mp hpos) (UInt64.zero_le), hr, hb'⟩

/-- `Ioc` always takes. -/
theorem ioc_outcome : ∃ bI,
    b.submitLimitOrder π order .ioc = .ok (.ok ⟨.ioc, none, a.matchOrder order, none⟩, bI) ∧
      Represents π bI (a.takeOrder order) := by
  have hspec := submitLimitOrder_spec h order .ioc
  rw [AbstractBook.submitLimitOrder.eq_def, if_neg hq, if_neg hl] at hspec
  exact exists_reply hspec fun _ he => he.2.2.2.2

/-- `Fok` takes what fills the order... -/
theorem fok_outcome (hcomplete : (a.matchOrder order).unfilledQty = 0) : ∃ bF,
    b.submitLimitOrder π order .fok = .ok (.ok ⟨.fok, none, a.matchOrder order, none⟩, bF) ∧
      Represents π bF (a.takeOrder order) := by
  have hspec := submitLimitOrder_spec h order .fok
  rw [AbstractBook.submitLimitOrder.eq_def, if_neg hq, if_neg hl] at hspec
  simp only [if_pos hcomplete] at hspec
  exact exists_reply hspec fun _ he => he.2.2.2.2

/-- ... and otherwise returns the book it was given. -/
theorem fok_rejects (hunfilled : (a.matchOrder order).unfilledQty ≠ 0) :
    b.submitLimitOrder π order .fok =
      .ok (.ok ⟨.fok, some .fillOrKillWouldNotFill, a.matchOrder order, none⟩, b) := by
  have hmatch : b.matchTakerOrder π order.side order.qty order.price =
      .ok (a.matchOrder order) := matchTakerOrder_spec h _ _ _
  have hcomplete : (a.matchOrder order).isComplete = false := beq_eq_false_iff_ne.mpr hunfilled
  rw [OrderBook.submitLimitOrder.eq_def, if_neg hq,
    if_neg (mt (containsKey_spec h order.id).mp hl), OrderBook.submitFok, hmatch, ok_bind,
    hcomplete]
  rfl

/-- `PostOnly` returns the book it was given when there is something to match... -/
theorem postOnly_rejects (hfills : (a.matchOrder order).fills ≠ []) :
    b.submitLimitOrder π order .postOnly =
      .ok (.ok ⟨.postOnly, some .postOnlyWouldCross, a.matchOrder order, none⟩, b) := by
  have hmatch : b.matchTakerOrder π order.side order.qty order.price =
      .ok (a.matchOrder order) := matchTakerOrder_spec h _ _ _
  have hcross : b.limitOrderWouldCross order.side order.price = true :=
    (limitOrderWouldCross_iff h hq).mpr hfills
  rw [OrderBook.submitLimitOrder.eq_def, if_neg hq,
    if_neg (mt (containsKey_spec h order.id).mp hl), OrderBook.submitPostOnly, hmatch, ok_bind,
    hcross]
  rfl

/-- ... and otherwise rests the whole order, if `Gtc` could. -/
theorem postOnly_outcome (hnil : a.marketable order.side order.price = [])
    {r : Except BookError SubmitLimitOrderOutcome} {bG : OrderBook}
    (hG : b.submitLimitOrder π order .gtc = .ok (r, bG)) : ∃ bP,
    b.submitLimitOrder π order .postOnly =
      .ok (.ok ⟨.postOnly, none, a.matchOrder order, some order⟩, bP) ∧
      Represents π bP (a.add order).2 := by
  have hcross : a.wouldCross order.side order.price = false := by
    rw [Bool.eq_false_iff, ne_eq, AbstractBook.wouldCross_iff, not_not]
    exact hnil
  have hspec := submitLimitOrder_spec h order .postOnly
  rw [AbstractBook.submitLimitOrder.eq_def, if_neg hq, if_neg hl] at hspec
  simp only [hcross, Bool.false_eq_true, if_false] at hspec
  -- where `PostOnly` would overflow, `Gtc` would have
  have hfits : ∀ e, ¬ OnlyOverflow π (SubmitOverflows a order .postOnly) e := by
    rintro e ⟨-, rfl, -, -, -, hover⟩
    have hrep := (submitLimitOrder_spec h order .gtc).of_eq_ok hG
    refine not_submitOverflows hrep.2.totalsFit ⟨hq, hl, ?_, ?_⟩
    · rw [hnil, restingQty_nil]
      exact Nat.pos_of_ne_zero fun hzero => hq (UInt64.toNat_inj.mp hzero)
    · rwa [hnil, restingQty_nil, Nat.sub_zero]
  have hreply : (a.restReporting order .postOnly (a.matchOrder order)).1 =
      .ok ⟨.postOnly, none, a.matchOrder order, some order⟩ := by
    rw [AbstractBook.restReporting, AbstractBook.add_of_not_live hq hl]
    rfl
  rw [hreply] at hspec
  exact exists_reply hspec hfits

/-- The comparison, when `Gtc` leaves something to rest. -/
theorem policiesAgree_of_rested (hpos : 0 < (a.matchOrder order).unfilledQty) {bG : OrderBook}
    (hG : b.submitLimitOrder π order .gtc =
      .ok (.ok ⟨.gtc, none, a.matchOrder order, some (a.remainder order)⟩, bG))
    (hrep : Represents π bG ((a.takeOrder order).add (a.remainder order)).2) :
    PoliciesAgree π b order ⟨.gtc, none, a.matchOrder order, some (a.remainder order)⟩ bG := by
  have hq' := AbstractBook.qty_remainder_ne_zero hpos
  have hl' := AbstractBook.not_live_takeOrder hl
  have hpush := hrep
  rw [AbstractBook.add_of_not_live hq' hl'] at hpush
  have hfind : KeyedQueues.find ((a.takeOrder order).push (a.remainder order) hq' hl') order.id =
      some (a.remainder order) :=
    KeyedQueues.find_of_mem (KeyedQueues.mem_push.mpr (Or.inr rfl))
  constructor
  case accepted => exact ⟨rfl, rfl⟩
  case matched => exact matchTakerOrder_spec h _ _ _
  case conserved => exact (greedyMatch_matchTakerOrder a _ _ _).unfilled
  case rested => exact (if_pos hpos).symm
  case resting => exact (get_spec hpush order.id).trans (congrArg Except.ok hfind)
  case atEnd =>
    have hqueue : KeyedQueues.queue ((a.takeOrder order).push (a.remainder order) hq' hl')
        (a.remainder order).place = (a.takeOrder order).queue order.place ++ [a.remainder order] :=
      KeyedQueues.queue_push_self
    refine ⟨_, ordersAt_spec h _ _, (ordersAt_spec hpush _ _).trans (congrArg Except.ok ?_)⟩
    rw [← a.queue_takeOrder_own order order.price]
    exact hqueue
  case ioc =>
    obtain ⟨bI, hI, hIrep⟩ := ioc_outcome h hq hl
    have hremove := remove_spec hpush order.id
    have htaken : AbstractBook.resize ((a.takeOrder order).push (a.remainder order) hq' hl')
        order.id 0 = a.takeOrder order := AbstractBook.resize_push
    rw [AbstractBook.remove, hfind] at hremove
    simp only [htaken] at hremove
    obtain ⟨bR, hR, hRrep⟩ := exists_reply hremove fun _ he => he.2.2
    exact ⟨bI, hI, bR, hR, hIrep.sameOrders hRrep⟩
  case fok_filled => exact fun hzero => absurd hzero hq'
  case fok_rejected => exact fok_rejects h hq hl
  case postOnly_rested =>
    intro hfills
    have hnil := (AbstractBook.fills_eq_nil_iff hq).mp hfills
    obtain ⟨hremainder, htake⟩ := AbstractBook.remainder_of_marketable_eq_nil hnil
    obtain ⟨bP, hP, hPrep⟩ := postOnly_outcome h hq hl hnil hG
    rw [hremainder, htake] at hrep
    exact ⟨congrArg some hremainder, bP, hP, hPrep.sameOrders hrep⟩
  case postOnly_rejected => exact postOnly_rejects h hq hl
  case crosses => exact limitOrderWouldCross_iff h hq

/-- The comparison, when `Gtc` fills the order. -/
theorem policiesAgree_of_filled (hzero : (a.matchOrder order).unfilledQty = 0) {bG : OrderBook}
    (hrep : Represents π bG (a.takeOrder order)) :
    PoliciesAgree π b order ⟨.gtc, none, a.matchOrder order, none⟩ bG := by
  constructor
  case accepted => exact ⟨rfl, rfl⟩
  case matched => exact matchTakerOrder_spec h _ _ _
  case conserved => exact (greedyMatch_matchTakerOrder a _ _ _).unfilled
  case rested =>
    show none = if 0 < (a.matchOrder order).unfilledQty then _ else none
    rw [hzero]
    rfl
  case resting =>
    have hfind := KeyedQueues.find_eq_none_iff.mpr (AbstractBook.not_live_takeOrder hl)
    exact (get_spec hrep order.id).trans (congrArg Except.ok hfind)
  case atEnd =>
    refine ⟨_, ordersAt_spec h _ _, (ordersAt_spec hrep _ _).trans (congrArg Except.ok ?_)⟩
    rw [a.queue_takeOrder_own order order.price]
    exact (List.append_nil _).symm
  case ioc =>
    obtain ⟨bI, hI, hIrep⟩ := ioc_outcome h hq hl
    exact ⟨bI, hI, hIrep.sameOrders hrep⟩
  case fok_filled =>
    intro _
    obtain ⟨bF, hF, hFrep⟩ := fok_outcome h hq hl hzero
    exact ⟨bF, hF, hFrep.sameOrders hrep⟩
  case fok_rejected => exact fun hne => absurd hzero hne
  case postOnly_rested =>
    -- an order that is filled has fills
    intro hfills
    have hnil := (AbstractBook.fills_eq_nil_iff hq).mp hfills
    obtain ⟨hremainder, -⟩ := AbstractBook.remainder_of_marketable_eq_nil hnil
    exact absurd ((congrArg Order.qty hremainder).symm.trans hzero) hq
  case postOnly_rejected => exact postOnly_rejects h hq hl
  case crosses => exact limitOrderWouldCross_iff h hq

end Policies

/-- **The four policies agree.** `Gtc` can stop only by an overflow panic, where overflow is
checked; when it returns, it accepts the order, and the other policies do to the book what they
should by comparison. -/
theorem submitPolicies_agree (hb : Reachable π b) (order : Order) (hq : order.qty ≠ 0)
    (hnew : b.containsKey order.id = false) :
    (∀ e, b.submitLimitOrder π order .gtc = .error e → e = .overflow ∧ π = .dev) ∧
    ∀ r bG, b.submitLimitOrder π order .gtc = .ok (r, bG) →
      ∃ g, r = .ok g ∧ PoliciesAgree π b order g bG := by
  obtain ⟨a, h⟩ := hb.represents
  have hl : ¬ a.Live order.id := fun hlive =>
    Bool.false_ne_true (hnew.symm.trans ((containsKey_spec h order.id).mpr hlive))
  constructor
  · intro e he
    obtain ⟨hover, hπ, -⟩ := (submitLimitOrder_spec h order .gtc).of_eq_error he
    exact ⟨hover, hπ⟩
  · intro r bG hG
    rcases gtc_outcome h hq hl hG with ⟨hpos, rfl, hrep⟩ | ⟨hzero, rfl, hrep⟩
    · exact ⟨_, rfl, policiesAgree_of_rested h hq hl hpos hG hrep⟩
    · exact ⟨_, rfl, policiesAgree_of_filled h hq hl hzero hrep⟩

/-- A bid for twenty finds fifteen, so `Gtc` rests five of it. -/
theorem submitPolicies_agree_sample : ∃ g bG,
    sampleBook.submitLimitOrder .dev (sampleOrder 7 1 .bid 103 20) .gtc = .ok (.ok g, bG) ∧
      g.restedOrder = some (sampleOrder 7 1 .bid 103 5) ∧
      PoliciesAgree .dev sampleBook (sampleOrder 7 1 .bid 103 20) g bG := by
  obtain ⟨⟨r, bG⟩, hG⟩ : ∃ reply,
      sampleBook.submitLimitOrder .dev (sampleOrder 7 1 .bid 103 20) .gtc = .ok reply :=
    ⟨_, by rfl⟩
  have hnew : sampleBook.containsKey (sampleOrder 7 1 .bid 103 20).id = false := by rfl
  obtain ⟨g, rfl, hagree⟩ :=
    (submitPolicies_agree sampleBook_reachable (sampleOrder 7 1 .bid 103 20) (by decide) hnew).2
      r bG hG
  refine ⟨g, bG, hG, ?_, hagree⟩
  have hmatch : g.takerMatch.unfilledQty = 5 :=
    congrArg TakerMatch.unfilledQty (Except.ok.inj (hagree.matched.symm.trans (by rfl)))
  rw [hagree.rested, hmatch]
  rfl

end L4Book
