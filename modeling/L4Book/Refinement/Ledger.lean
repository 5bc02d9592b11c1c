import L4Book.Foundation.StockAccount
import L4Book.Refinement.Namespaces
import L4Book.Results.QueuePosition

/-!
# The account of an order

Who keeps an account of one order from the calls alone and what they reply, without ever reading the
book, knows what rests of it: what an order is filled for is there to be filled, what comes to rest
comes where nothing was, and a call that is refused enters nothing.

## Main definitions

* `OrderAccount.enter`: what a call and its reply enter in the account of an order
* `acceptedPrefix`: what a replacement snapshot adds, accepted or not
* `AbstractBook.qtyOf`: what rests under an id
* `AbstractBook.Keeps`: the account is right

## Main results

* `AbstractBook.Keeps.effect`, `.settle`, `.addAll`: entry by entry
* `AbstractBook.Keeps.exec`: the step lemma
-/

namespace L4Book

/-! ### Entries -/

/-- The account of an order in base units: what rests of it, what came to rest, was filled, and was
resized. -/
abbrev OrderAccount := StockAccount ℕ

/-- The quantity that orders bring under an id. -/
def broughtUnder (id : OrderId) (orders : List Order) : ℕ :=
  restingQty (orders.filter fun o => o.id = id)

@[simp] theorem broughtUnder_nil (id : OrderId) : broughtUnder id [] = 0 := rfl

@[simp] theorem broughtUnder_cons (id : OrderId) (o : Order) (orders : List Order) :
    broughtUnder id (o :: orders) =
      (if o.id = id then o.qty.toNat else 0) + broughtUnder id orders := by
  rw [broughtUnder, List.filter_cons]
  by_cases hid : o.id = id
  · simp [hid, broughtUnder]
  · simp [hid, broughtUnder]

/-- The orders before the first one that is empty or has an id that was seen before. -/
def acceptedPrefix (seen : Finset OrderId) : List Order → List Order
  | [] => []
  | o :: orders =>
    if o.qty = 0 ∨ o.id ∈ seen then [] else o :: acceptedPrefix (insert o.id seen) orders

namespace OrderAccount

/-- What an accepted operation enters. -/
def enterOp (id : OrderId) (s : OrderAccount) : BookOp → OrderAccount
  | .add order => s.receive (broughtUnder id [order])
  | .remove x => if x = id then s.setTo 0 else s
  | .updateSize x newQty => if x = id then s.setTo newQty.toNat else s
  | .amendSize x newQty => if x = id then s.setTo newQty.toNat else s

/-- What an operation enters, unless it was refused. -/
def enterReply (id : OrderId) (s : OrderAccount) (op : BookOp) :
    Except BookError Unit → OrderAccount
  | .ok () => s.enterOp id op
  | .error _ => s

/-- What a submitted order enters, unless it was rejected. -/
def enterSubmit (id : OrderId) (s : OrderAccount) (outcome : SubmitLimitOrderOutcome) :
    OrderAccount :=
  if outcome.rejected.isSome then s
  else (s.issue (outcome.takerMatch.filledFrom id)).receive
    (broughtUnder id outcome.restedOrder.toList)

/-- What a replacement snapshot enters: the old state goes, and the orders come. -/
def enterOrders (id : OrderId) (s : OrderAccount) (orders : List Order) : OrderAccount :=
  (s.setTo 0).receive (broughtUnder id orders)

/-- What a call enters with its reply. -/
def enter (id : OrderId) (s : OrderAccount) : Call → CallReply → OrderAccount
  | .add order, .done r => s.enterReply id (.add order) r
  | .remove x, .removed r => s.enterReply id (.remove x) (r.map fun _ => ())
  | .updateSize x newQty, .done r => s.enterReply id (.updateSize x newQty) r
  | .amendSize x newQty, .done r => s.enterReply id (.amendSize x newQty) r
  | .amendSizeWithPolicy x newQty _, .done r => s.enterReply id (.amendSize x newQty) r
  | .applyOp op, .done r => s.enterReply id op r
  | .applyOpWithPolicy _ _, .replayed (.applied op) => s.enterOp id op
  | .applyOpWithPolicy _ _, .replayed (.coerced _ applied _) => s.enterOp id applied
  | .applyTakerOrder _ _ _, .taken (.ok m) => s.issue (m.filledFrom id)
  | .submitLimitOrder _ _, .submitted (.ok outcome) => s.enterSubmit id outcome
  | .applySnapshot orders, _ => s.enterOrders id (acceptedPrefix ∅ orders)
  | .applySnapshotWithPolicy orders .replace, _ => s.enterOrders id (acceptedPrefix ∅ orders)
  | .applySnapshotWithPolicy orders .preserveSynthetic, .replaced (.ok _) =>
    if isSyntheticOrderId id then s else s.enterOrders id orders
  | .clear, _ => s.setTo 0
  | _, _ => s

end OrderAccount

namespace AbstractBook

variable {a : AbstractBook} {id x : OrderId} {newQty : Qty} {o : Order} {opening : ℕ}
  {s : OrderAccount} {op : BookOp}

/-! ### What rests under an id -/

/-- The quantity of an order that may be there. -/
def qtyOfOption (found : Option Order) : ℕ := (found.map fun o => o.qty.toNat).getD 0

/-- The quantity that rests under an id. -/
noncomputable def qtyOf (a : AbstractBook) (id : OrderId) : ℕ := qtyOfOption (a.find id)

theorem qtyOf_of_mem (ho : o ∈ a) : a.qtyOf o.id = o.qty.toNat := by
  rw [qtyOf, KeyedQueues.find_of_mem ho]
  rfl

theorem qtyOf_of_not_live (h : ¬ a.Live id) : a.qtyOf id = 0 := by
  rw [qtyOf, KeyedQueues.find_eq_none_iff.mpr h]
  rfl

theorem qtyOf_push (hq : o.qty ≠ 0) (hl : ¬ a.Live o.id) :
    qtyOf (a.push o hq hl) id = a.qtyOf id + broughtUnder id [o] := by
  have hadd : (a.add o).2 = a.push o hq hl := congrArg Prod.snd (add_of_not_live hq hl)
  have hfind : id ≠ o.id → (a.push o hq hl).find id = a.find id := fun hid =>
    hadd ▸ find_add_of_ne hid
  by_cases hid : o.id = id
  · subst hid
    have hmem : o ∈ a.push o hq hl := KeyedQueues.mem_push.mpr (Or.inr rfl)
    rw [qtyOf_of_mem hmem, qtyOf_of_not_live hl, broughtUnder_cons, if_pos rfl, broughtUnder_nil,
      Nat.add_zero, Nat.zero_add]
  · rw [qtyOf, hfind (Ne.symm hid), broughtUnder_cons, if_neg hid]
    rfl

theorem qtyOf_resize_of_ne (h : x ≠ id) : (a.resize x newQty).qtyOf id = a.qtyOf id := by
  rw [qtyOf, find_resize_of_ne (Ne.symm h), qtyOf]

theorem qtyOfOption_resizeAt (o : Order) (newQty : Qty) :
    qtyOfOption (resizeAt o.id newQty o) = newQty.toNat := by
  by_cases hq : newQty = 0
  · rw [hq, resizeAt_zero rfl]
    rfl
  · rw [resizeAt_of_eq rfl hq]
    rfl

theorem qtyOf_resize_self (h : a.Live id) : (a.resize id newQty).qtyOf id = newQty.toNat := by
  obtain ⟨o, ho, rfl⟩ := h
  have hresize : (a.resize o.id newQty).find o.id = (a.find o.id).bind (resizeAt o.id newQty) :=
    KeyedQueues.find_filterMap o.id
  rw [qtyOf, hresize, KeyedQueues.find_of_mem ho, Option.bind_some, qtyOfOption_resizeAt]

/-- A size is set under one id. -/
theorem qtyOf_resize (h : a.Live x) : (a.resize x newQty).qtyOf id =
    if x = id then newQty.toNat else a.qtyOf id := by
  by_cases hid : x = id
  · subst hid
    rw [if_pos rfl, qtyOf_resize_self h]
  · rw [if_neg hid, qtyOf_resize_of_ne hid]

theorem qtyOf_resizeToTail (hq : newQty ≠ 0) (ho : o ∈ a) :
    (a.resizeToTail o newQty hq).qtyOf id = if o.id = id then newQty.toNat else a.qtyOf id := by
  rw [resizeToTail, qtyOf_push, qtyOf_resize ⟨o, ho, rfl⟩, broughtUnder_cons, Order.id_withQty]
  by_cases hid : o.id = id
  · rw [if_pos hid, if_pos hid, if_pos hid]
    exact Nat.zero_add _
  · rw [if_neg hid, if_neg hid, if_neg hid]
    exact Nat.add_zero _

/-! ### Operations -/

/-- The account has what rests, and balances. -/
structure Keeps (a : AbstractBook) (id : OrderId) (opening : ℕ) (s : OrderAccount) : Prop where
  stock : s.stock = a.qtyOf id
  balances : s.Balances opening

variable {a' : AbstractBook} {n : ℕ}

theorem Keeps.receive (h : Keeps a id opening s) (hqty : a'.qtyOf id = a.qtyOf id + n) :
    Keeps a' id opening (s.receive n) :=
  ⟨by rw [StockAccount.stock_receive, h.stock, hqty], h.balances.receive n⟩

theorem Keeps.setTo (h : Keeps a id opening s) (hqty : a'.qtyOf id = n) :
    Keeps a' id opening (s.setTo n) :=
  ⟨by rw [StockAccount.stock_setTo, hqty], h.balances.setTo n⟩

theorem Keeps.issue (h : Keeps a id opening s) (hn : n ≤ a.qtyOf id)
    (hqty : a'.qtyOf id = a.qtyOf id - n) : Keeps a' id opening (s.issue n) :=
  ⟨by rw [StockAccount.stock_issue, h.stock, hqty], h.balances.issue (h.stock ▸ hn)⟩

theorem Keeps.congr (h : Keeps a id opening s) (hqty : a'.qtyOf id = a.qtyOf id) :
    Keeps a' id opening s := ⟨h.stock.trans hqty.symm, h.balances⟩

/-- A size that is set. -/
theorem Keeps.resize (h : Keeps a id opening s) (newQty : Qty)
    (hqty : a'.qtyOf id = if x = id then newQty.toNat else a.qtyOf id) :
    Keeps a' id opening (if x = id then s.setTo newQty.toNat else s) := by
  by_cases hid : x = id
  · rw [if_pos hid] at hqty ⊢
    exact h.setTo hqty
  · rw [if_neg hid] at hqty ⊢
    exact h.congr hqty

/-- **What an accepted operation does, it enters.** -/
theorem Keeps.effect (h : Keeps a id opening s)
    (hreply : op.reply (a.find op.orderId) = .ok ()) :
    Keeps (op.effect a) id opening (s.enterOp id op) := by
  have hlive : (∀ order, op ≠ .add order) → a.Live op.orderId := by
    intro hop
    rw [KeyedQueues.live_iff_find]
    cases hfind : a.find op.orderId with
    | some o => exact ⟨o, rfl⟩
    | none =>
      rw [hfind] at hreply
      cases op with
      | add order => exact absurd rfl (hop order)
      | remove x => cases hreply
      | updateSize x newQty => cases hreply
      | amendSize x newQty => cases hreply
  cases op with
  | add order =>
    have hq : order.qty ≠ 0 := by
      intro hq
      rw [BookOp.reply, if_pos hq] at hreply
      cases hreply
    have hl : ¬ a.Live order.id := by
      rw [KeyedQueues.live_iff_find]
      rintro ⟨o, hfind⟩
      rw [BookOp.orderId, hfind, BookOp.reply, if_neg hq, Option.isSome_some, if_pos rfl] at hreply
      cases hreply
    rw [BookOp.effect, add_of_not_live hq hl]
    exact h.receive (qtyOf_push hq hl)
  | remove x => exact h.resize 0 (qtyOf_resize (hlive (by simp)))
  | updateSize x newQty => exact h.resize newQty (qtyOf_resize (hlive (by simp)))
  | amendSize x newQty => exact h.resize newQty (qtyOf_resize (hlive (by simp)))

/-- An operation that may be refused. -/
theorem Keeps.applyOp (h : Keeps a id opening s) (op : BookOp) :
    Keeps (a.applyOp op).2 id opening (s.enterReply id op (a.applyOp op).1) := by
  cases hreply : op.reply (a.find op.orderId) with
  | ok u =>
    rw [applyOp_of_accepted hreply]
    exact h.effect hreply
  | error e =>
    rw [applyOp_of_refused hreply]
    exact h

theorem Keeps.amendSizeWithPolicy (h : Keeps a id opening s) (x : OrderId) (newQty : Qty)
    (policy : AmendPriorityPolicy) :
    Keeps (a.amendSizeWithPolicy x newQty policy).2 id opening
      (s.enterReply id (.amendSize x newQty) (a.amendSizeWithPolicy x newQty policy).1) := by
  rw [AbstractBook.amendSizeWithPolicy]
  cases hfind : a.find x with
  | none => exact h
  | some o =>
    obtain ⟨ho, rfl⟩ := KeyedQueues.find_eq_some_iff.mp hfind
    by_cases hq : newQty = 0
    · subst hq
      exact h.resize 0 (qtyOf_resize ⟨o, ho, rfl⟩)
    by_cases hlose : o.qty < newQty ∧ policy = .losePriorityOnIncrease
    · simp only [dif_neg hq, if_pos hlose]
      exact h.resize newQty (qtyOf_resizeToTail hq ho)
    · simp only [dif_neg hq, if_neg hlose]
      exact h.resize newQty (qtyOf_resize ⟨o, ho, rfl⟩)

theorem Keeps.applyStrictly (h : Keeps a id opening s) (op : BookOp) (c : BookOp)
    (policy : ReplayPolicy) :
    Keeps (a.applyStrictly op).2 id opening
      (s.enter id (.applyOpWithPolicy c policy) (.replayed (a.applyStrictly op).1)) := by
  have hop := h.applyOp op
  rw [AbstractBook.applyStrictly]
  cases hr : (a.applyOp op).1 with
  | ok u =>
    rw [hr] at hop
    exact hop
  | error e =>
    rw [hr] at hop
    exact hop

/-- An operation that is skipped or refused enters nothing. -/
theorem enter_missingOrder (s : OrderAccount) (c op : BookOp) (x : OrderId)
    (policy : ReplayPolicy) :
    s.enter id (.applyOpWithPolicy c policy) (.replayed (OrderBook.missingOrder op x policy)) =
      s := by
  rw [OrderBook.missingOrder]
  split <;> rfl

theorem Keeps.applyOpWithPolicy (h : Keeps a id opening s) (op : BookOp)
    (policy : ReplayPolicy) :
    Keeps (a.applyOpWithPolicy op policy).2 id opening
      (s.enter id (.applyOpWithPolicy op policy)
        (.replayed (a.applyOpWithPolicy op policy).1)) := by
  cases op with
  | add order =>
    rw [AbstractBook.applyOpWithPolicy]
    by_cases hl : a.Live order.id
    · rw [if_pos hl]
      by_cases hskip : policy.duplicateAdd = .skip
      · simp only [if_pos hskip]
        exact h
      · simp only [if_neg hskip]
        exact h
    · rw [if_neg hl]
      exact h.applyStrictly _ _ _
  | remove x =>
    rw [AbstractBook.applyOpWithPolicy]
    by_cases hl : a.Live x
    · rw [if_pos hl]
      exact h.applyStrictly _ _ _
    · rw [if_neg hl, enter_missingOrder]
      exact h
  | amendSize x newQty =>
    rw [AbstractBook.applyOpWithPolicy]
    by_cases hl : a.Live x
    · rw [if_pos hl]
      exact h.applyStrictly _ _ _
    · rw [if_neg hl, enter_missingOrder]
      exact h
  | updateSize x newQty =>
    rw [AbstractBook.applyOpWithPolicy]
    cases hfind : a.find x with
    | none =>
      simp only [enter_missingOrder]
      exact h
    | some o =>
      by_cases hcoerce : o.qty ≤ newQty ∧ policy.nonDecreasingUpdate = .treatAsAmend
      · have hamend := h.amendSizeWithPolicy x newQty .preserve
        simp only [if_pos hcoerce, coerceUpdate_eq, AbstractBook.amendSize]
        cases hr : (a.amendSizeWithPolicy x newQty .preserve).1 with
        | ok u =>
          rw [hr] at hamend
          exact hamend
        | error e =>
          rw [hr] at hamend
          exact hamend
      · simp only [if_neg hcoerce]
        exact h.applyStrictly _ _ _

/-! ### Takers -/

/-- In a list without a key twice, an item is alone with its key. -/
theorem filter_key_eq_singleton {α β : Type*} [DecidableEq β] {key : α → β} {l : List α} {y : α}
    (hnodup : (l.map key).Nodup) (hy : y ∈ l) : (l.filter fun z => key z = key y) = [y] := by
  obtain ⟨ys, zs, rfl⟩ := List.append_of_mem hy
  rw [List.map_append, List.map_cons] at hnodup
  have hnot := (List.nodup_cons.mp (List.perm_middle.nodup_iff.mp hnodup)).1
  have hnone : ∀ z ∈ ys ++ zs, ¬ decide (key z = key y) = true := by
    intro z hz hkey
    rw [← List.map_append] at hnot
    exact hnot (List.mem_map.mpr ⟨z, hz, of_decide_eq_true hkey⟩)
  rw [List.filter_append, List.filter_cons, if_pos (decide_eq_true rfl),
    List.filter_eq_nil_iff.mpr fun z hz => hnone z (List.mem_append_left _ hz),
    List.filter_eq_nil_iff.mpr fun z hz => hnone z (List.mem_append_right _ hz), List.nil_append]

/-- **What a match takes from an order is there, and is what the order loses.** -/
theorem filledFrom_settle (a : AbstractBook) (taker : Side) (qty : Qty) (limit : Price)
    (id : OrderId) :
    (a.matchTakerOrder taker qty limit).filledFrom id ≤ a.qtyOf id ∧
      (a.settle (a.matchTakerOrder taker qty limit).fills).qtyOf id =
        a.qtyOf id - (a.matchTakerOrder taker qty limit).filledFrom id := by
  have hnodup := a.fills_ids_nodup taker qty limit
  have hfind : (a.settle (a.matchTakerOrder taker qty limit).fills).find id =
      (a.find id).bind (settleAt (a.matchTakerOrder taker qty limit).fills) := by
    rw [settle_eq]
    exact KeyedQueues.find_filterMap id
  by_cases hmem : id ∈ (a.matchTakerOrder taker qty limit).fills.map FillDelta.makerOrderId
  · obtain ⟨f, hf, rfl⟩ := List.mem_map.mp hmem
    have hfilled : (a.matchTakerOrder taker qty limit).filledFrom f.makerOrderId =
        f.filledQty.toNat := by
      rw [TakerMatch.filledFrom, filter_key_eq_singleton hnodup hf]
      rfl
    obtain ⟨⟨o, n⟩, huse, rfl⟩ := List.mem_map.mp hf
    have ho : o ∈ a := (mem_marketable.mp (mem_of_mem_consume huse)).1
    have hn : n ≤ o.cap :=
      (amount_of_mem_consume (fun o => cap_pos_of_mem_marketable) huse).2
    have hfilledQty : (fillOf (o, n)).filledQty.toNat = n :=
      UInt64.toNat_ofNat_of_lt' (Nat.lt_of_le_of_lt hn o.qty.toNat_lt_size)
    have hqty : a.qtyOf (fillOf (o, n)).makerOrderId = o.cap := qtyOf_of_mem ho
    rw [hfilled, hfilledQty, hqty]
    refine ⟨hn, ?_⟩
    have hfindo : a.find (fillOf (o, n)).makerOrderId = some o := KeyedQueues.find_of_mem ho
    rw [qtyOf, hfind, hfindo, Option.bind_some, settleAt_of_mem hnodup hf rfl,
      qtyOfOption_resizeAt]
    exact Order.toNat_sub_ofNat hn
  · have hfilled : (a.matchTakerOrder taker qty limit).filledFrom id = 0 := by
      rw [TakerMatch.filledFrom, List.filter_eq_nil_iff.mpr]
      · rfl
      · intro f hf hid
        exact hmem (List.mem_map.mpr ⟨f, hf, of_decide_eq_true hid⟩)
    refine ⟨hfilled ▸ Nat.zero_le _, ?_⟩
    rw [hfilled, Nat.sub_zero, qtyOf, hfind, qtyOf]
    cases hx : a.find id with
    | none => rfl
    | some o =>
      rw [Option.bind_some, settleAt_of_not_mem]
      rwa [(KeyedQueues.find_eq_some_iff.mp hx).2]

/-- **A match takes what is there.** -/
theorem Keeps.settle (h : Keeps a id opening s) (taker : Side) (qty : Qty) (limit : Price) :
    Keeps (a.settle (a.matchTakerOrder taker qty limit).fills) id opening
      (s.issue ((a.matchTakerOrder taker qty limit).filledFrom id)) :=
  h.issue (filledFrom_settle a taker qty limit id).1 (filledFrom_settle a taker qty limit id).2

theorem Keeps.applyTakerOrder (h : Keeps a id opening s) (taker : Side) (qty : Qty)
    (limit : Price) :
    Keeps (a.applyTakerOrder taker qty limit).2 id opening
      (s.enter id (.applyTakerOrder taker qty limit)
        (.taken (a.applyTakerOrder taker qty limit).1)) := by
  rw [AbstractBook.applyTakerOrder]
  by_cases hq : qty = 0
  · rw [if_pos hq]
    exact h
  · rw [if_neg hq]
    exact h.settle taker qty limit

/-! ### Submitted orders -/

/-- A match that has no fills takes nothing. -/
theorem filledFrom_of_fills_nil {m : TakerMatch} (hfills : m.fills = []) : m.filledFrom id = 0 := by
  rw [TakerMatch.filledFrom, hfills]
  rfl

/-- An order comes to rest, once its fills have been entered. -/
theorem Keeps.restReporting (h : Keeps a id opening (s.issue n)) {rested : Order}
    (hq : rested.qty ≠ 0) (hl : ¬ a.Live rested.id) (policy policy' : LimitOrderPolicy)
    (order : Order) {m : TakerMatch} (hm : m.filledFrom id = n) :
    Keeps (a.restReporting rested policy m).2 id opening
      (s.enter id (.submitLimitOrder order policy')
        (.submitted (a.restReporting rested policy m).1)) := by
  rw [AbstractBook.restReporting, add_of_not_live hq hl]
  subst hm
  exact h.receive (qtyOf_push hq hl)

theorem Keeps.submitLimitOrder (h : Keeps a id opening s) (order : Order)
    (policy : LimitOrderPolicy) :
    Keeps (a.submitLimitOrder order policy).2 id opening
      (s.enter id (.submitLimitOrder order policy)
        (.submitted (a.submitLimitOrder order policy).1)) := by
  have htake : Keeps (a.takeOrder order) id opening
      (s.issue ((a.matchOrder order).filledFrom id)) := h.settle _ _ _
  unfold AbstractBook.submitLimitOrder
  by_cases hq : order.qty = 0
  · rw [if_pos hq]
    exact h
  by_cases hl : a.Live order.id
  · rw [if_neg hq, if_pos hl]
    exact h
  rw [if_neg hq, if_neg hl]
  cases policy with
  | gtc =>
    by_cases hleft : 0 < (a.matchOrder order).unfilledQty
    · simp only [if_pos hleft]
      have hrest : (a.remainder order).qty ≠ 0 := (UInt64.ne_of_lt hleft).symm
      exact htake.restReporting hrest (not_live_settle hl _) _ _ _ rfl
    · simp only [if_neg hleft]
      exact htake
  | ioc => exact htake
  | fok =>
    by_cases hleft : (a.matchOrder order).unfilledQty = 0
    · simp only [if_pos hleft]
      exact htake
    · simp only [if_neg hleft]
      exact h
  | postOnly =>
    cases hcross : a.wouldCross order.side order.price with
    | true => exact h
    | false =>
      have hnone : (a.matchOrder order).fills = [] := by
        refine (fills_eq_nil_iff hq).mpr (not_not.mp fun hsome => ?_)
        exact Bool.false_ne_true (hcross.symm.trans (wouldCross_iff.mpr hsome))
      exact Keeps.restReporting (n := 0) h hq hl _ _ _ (filledFrom_of_fills_nil hnone)

/-! ### Snapshots -/

/-- Fresh orders are all accepted. -/
theorem acceptedPrefix_eq_self {seen : Finset OrderId} {orders : List Order}
    (hfresh : ∀ o ∈ orders, o.qty ≠ 0 ∧ o.id ∉ seen) (hnodup : (orders.map Order.id).Nodup) :
    acceptedPrefix seen orders = orders := by
  induction orders generalizing seen with
  | nil => rfl
  | cons o orders ih =>
    obtain ⟨hnot, hnodup⟩ := List.nodup_cons.mp hnodup
    obtain ⟨⟨hq, hseen⟩, hfresh⟩ := List.forall_mem_cons.mp hfresh
    rw [acceptedPrefix, if_neg (not_or.mpr ⟨hq, hseen⟩), ih (fun x hx => ?_) hnodup]
    refine ⟨(hfresh x hx).1, fun hmem => ?_⟩
    rcases Finset.mem_insert.mp hmem with hid | hmem
    · exact hnot (hid ▸ List.mem_map_of_mem hx)
    · exact (hfresh x hx).2 hmem

/-- **Adding a list enters the orders before the first that is refused.** -/
theorem Keeps.addAll {seen : Finset OrderId} (h : Keeps a id opening s)
    (hseen : ∀ x, a.Live x ↔ x ∈ seen) (orders : List Order) :
    Keeps (a.addAll orders).2 id opening
      (s.receive (broughtUnder id (acceptedPrefix seen orders))) := by
  induction orders generalizing a s seen with
  | nil => exact h
  | cons o orders ih =>
    rw [AbstractBook.addAll, acceptedPrefix]
    by_cases hq : o.qty = 0
    · rw [if_pos (Or.inl hq), add, dif_pos hq]
      exact h
    by_cases hl : a.Live o.id
    · rw [if_pos (Or.inr ((hseen _).mp hl)), add, dif_neg hq, dif_pos hl]
      exact h
    rw [if_neg (not_or.mpr ⟨hq, mt (hseen _).mpr hl⟩), add_of_not_live hq hl]
    have hpush : ∀ x, KeyedQueues.Live (a.push o hq hl) x ↔ x ∈ insert o.id seen := by
      intro x
      rw [KeyedQueues.live_push, hseen, Finset.mem_insert, or_comm, eq_comm (a := o.id)]
    have hrest := ih (h.receive (qtyOf_push hq hl)) hpush
    rw [StockAccount.receive_receive, broughtUnder_cons, broughtUnder_nil, Nat.add_zero] at hrest
    rw [broughtUnder_cons]
    exact hrest

/-- The old state goes. -/
theorem Keeps.clear (h : Keeps a id opening s) :
    Keeps KeyedQueues.empty id opening (s.setTo 0) :=
  h.setTo (qtyOf_of_not_live KeyedQueues.not_live_empty)

theorem live_empty_iff (id : OrderId) :
    KeyedQueues.Live (KeyedQueues.empty : AbstractBook) id ↔ id ∈ (∅ : Finset OrderId) :=
  iff_of_false KeyedQueues.not_live_empty (Finset.notMem_empty id)

/-- A replacement snapshot, accepted or not. -/
theorem Keeps.replace (h : Keeps a id opening s) (orders : List Order) :
    Keeps (rebuild orders []).2 id opening (s.enterOrders id (acceptedPrefix ∅ orders)) := by
  have hadd := h.clear.addAll live_empty_iff orders
  rw [rebuild]
  cases hr : (AbstractBook.addAll KeyedQueues.empty orders).1 with
  | error e => exact hadd
  | ok n => exact hadd

/-- An accepted snapshot leaves nothing else under the ids of the venue. -/
theorem find_exec_snapshot {orders : List Order} (hvalid : VenueSnapshot orders)
    (hid : isSyntheticOrderId id = false) (a : AbstractBook) :
    (a.exec (.applySnapshotWithPolicy orders .preserveSynthetic)).find id =
      (addAll KeyedQueues.empty orders).2.find id := by
  refine find_eq_of_part_eq (p := fun id => !isSyntheticOrderId id) ?_ (by rw [hid]; rfl)
  apply KeyedQueues.ext
  funext k
  have hnone : ((a.queue k).filter fun o => isSyntheticOrderId o.id).filter
      (fun o => !isSyntheticOrderId o.id) = [] := by
    refine List.filter_eq_nil_iff.mpr fun o ho => ?_
    rw [(List.mem_filter.mp ho).2]
    decide
  rw [queue_part, queue_part, queue_exec_snapshot a hvalid, List.filter_append, hnone,
    List.append_nil, (addAll_of_fresh hvalid.fresh).2]
  rfl

theorem Keeps.preserveSynthetic (h : Keeps a id opening s) (orders : List Order) :
    Keeps (a.exec (.applySnapshotWithPolicy orders .preserveSynthetic)) id opening
      (s.enter id (.applySnapshotWithPolicy orders .preserveSynthetic)
        (a.respond (.applySnapshotWithPolicy orders .preserveSynthetic))) := by
  rcases respond_snapshot a orders with ⟨hvalid, hreply⟩ | ⟨hvalid, e, hreply⟩
  · rw [hreply]
    cases hid : isSyntheticOrderId id with
    | true =>
      have hfind := find_eq_of_part_eq (part_synthetic_snapshot a orders) hid
      simp only [OrderAccount.enter, hid, if_true]
      exact h.congr (congrArg qtyOfOption hfind)
    | false =>
      have hadd := h.clear.addAll live_empty_iff orders
      rw [acceptedPrefix_eq_self
        (fun o ho => ⟨hvalid.nonzero o ho, Finset.notMem_empty _⟩) hvalid.nodup] at hadd
      simp only [OrderAccount.enter, hid, Bool.false_eq_true, if_false]
      exact hadd.congr (congrArg qtyOfOption (find_exec_snapshot hvalid hid a))
  · rw [hreply, exec_snapshot_of_refused a hvalid]
    exact h

/-! ### Any call -/

/-- **The step lemma**: what a call does to an order, its reply tells. -/
theorem Keeps.exec (h : Keeps a id opening s) (c : Call) :
    Keeps (a.exec c) id opening (s.enter id c (a.respond c)) := by
  cases c with
  | add order => exact h.applyOp (.add order)
  | remove x => exact h.applyOp (.remove x)
  | updateSize x newQty => exact h.applyOp (.updateSize x newQty)
  | amendSize x newQty => exact h.applyOp (.amendSize x newQty)
  | amendSizeWithPolicy x newQty policy => exact h.amendSizeWithPolicy x newQty policy
  | applyOp op => exact h.applyOp op
  | applyOpWithPolicy op policy => exact h.applyOpWithPolicy op policy
  | applyTakerOrder taker qty limit => exact h.applyTakerOrder taker qty limit
  | submitLimitOrder order policy => exact h.submitLimitOrder order policy
  | applySnapshot orders => exact h.replace orders
  | applySnapshotWithPolicy orders policy =>
    cases policy with
    | replace => exact h.replace orders
    | preserveSynthetic => exact h.preserveSynthetic orders
  | clear => exact h.clear

end AbstractBook

end L4Book
