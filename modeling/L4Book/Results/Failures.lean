import L4Book.Refinement.Refusal
import L4Book.Results.Submitting

/-!
# Failures

A failed call leaves the whole book, slots and free list included, as it was. The one exception is
a replacement snapshot: it clears the book before it looks at the orders, so what a rejected one
leaves is the orders before the first that cannot be added.

## Main definitions

* `LeavesNoTrace`: no failed call changes the book
* `FailsUpFront`: the compound calls fail only in their first checks
* `Holds`, `FirstOffender`: what a rejected snapshot leaves, and what it is rejected for

## Main results

* `failures_leaveNoTrace`
* `rejectedSnapshot_keepsOrdersBefore`
-/

namespace L4Book

variable {π : Profile} {b b' : OrderBook} {a : AbstractBook}

/-! ### No trace -/

/-- No failed call changes the book. -/
structure LeavesNoTrace (π : Profile) (b : OrderBook) : Prop where
  add : ∀ order e b', b.add π order = .ok (.error e, b') → b' = b
  remove : ∀ id e b', b.remove π id = .ok (.error e, b') → b' = b
  updateSize : ∀ id newQty e b', b.updateSize π id newQty = .ok (.error e, b') → b' = b
  amendSize : ∀ id newQty e b', b.amendSize π id newQty = .ok (.error e, b') → b' = b
  amendSizeWithPolicy : ∀ id newQty policy e b',
    b.amendSizeWithPolicy π id newQty policy = .ok (.error e, b') → b' = b
  applyOp : ∀ op e b', b.applyOp π op = .ok (.error e, b') → b' = b
  applyTakerOrder : ∀ taker qty limit e b',
    b.applyTakerOrder π taker qty limit = .ok (.error e, b') → b' = b
  submitLimitOrder : ∀ order policy e b',
    b.submitLimitOrder π order policy = .ok (.error e, b') → b' = b
  preserveSynthetic : ∀ orders e b',
    b.applySnapshotWithPolicy π orders .preserveSynthetic = .ok (.error e, b') → b' = b
  /-- An outcome `Error` or `Skipped`. -/
  applyOpWithPolicy : ∀ op policy outcome b',
    b.applyOpWithPolicy π op policy = .ok (outcome, b') → outcome.Refuses → b' = b
  /-- A submission that is answered, but rejected. -/
  rejected : ∀ order policy outcome b',
    b.submitLimitOrder π order policy = .ok (.ok outcome, b') → outcome.rejected ≠ none → b' = b

/-- The compound calls fail in their first checks or not at all. -/
structure FailsUpFront (π : Profile) (b : OrderBook) : Prop where
  /-- A taker order always returns, and fails for no quantity only. -/
  applyTakerOrder : ∀ taker qty limit, ∃ r b',
    b.applyTakerOrder π taker qty limit = .ok (r, b') ∧ ((∃ e, r = .error e) ↔ qty = 0)
  /-- The loop over the fills of a match carries all of them out. -/
  applyFills : ∀ taker qty limit takerMatch,
    b.matchTakerOrder π taker qty limit = .ok takerMatch →
      ∃ b', b.applyFills π takerMatch.fills = .ok (.ok (), b')
  submitLimitOrder : ∀ order policy r b', b.submitLimitOrder π order policy = .ok (r, b') →
    ((∃ e, r = .error e) ↔ order.qty = 0 ∨ b.containsKey order.id = true)
  /-- What is left of a new order once it has taken what it can is not refused. -/
  rest : ∀ (order : Order) takerMatch b', b.containsKey order.id = false →
    b.applyTakerOrder π order.side order.qty order.price = .ok (.ok takerMatch, b') →
    0 < takerMatch.unfilledQty → ∀ r b'',
      b'.add π { order with qty := takerMatch.unfilledQty } = .ok (r, b'') → r = .ok ()

/-- A reply that is an error comes with the book the refusal was decided on. -/
theorem eq_of_refused {α : Type} {bad : Fault → Prop} {v : Except Fault (Reply α)}
    {reply : Except BookError α} {a' : AbstractBook} {e : BookError}
    (hspec : Returns bad v fun r => r.1 = reply ∧ Represents π r.2 a')
    (hrefused : ∀ e, reply = .error e → v = .ok (.error e, b))
    (hv : v = .ok (.error e, b')) : b' = b := by
  have hreply : reply = .error e := (hspec.of_eq_ok hv).1.symm
  exact (Prod.mk.inj (Except.ok.inj (hv.symm.trans (hrefused e hreply)))).2

theorem submitLimitOrder_error_iff (h : Represents π b a) {order : Order}
    {policy : LimitOrderPolicy} {r : Except BookError SubmitLimitOrderOutcome}
    (hr : b.submitLimitOrder π order policy = .ok (r, b')) :
    (∃ e, r = .error e) ↔ order.qty = 0 ∨ b.containsKey order.id = true := by
  by_cases hq : order.qty = 0
  · rw [OrderBook.submitLimitOrder.eq_def, if_pos hq] at hr
    obtain ⟨rfl, -⟩ := Prod.mk.inj (Except.ok.inj hr)
    exact ⟨fun _ => Or.inl hq, fun _ => ⟨_, rfl⟩⟩
  by_cases hl : b.containsKey order.id = true
  · rw [OrderBook.submitLimitOrder.eq_def, if_neg hq, if_pos hl] at hr
    obtain ⟨rfl, -⟩ := Prod.mk.inj (Except.ok.inj hr)
    exact ⟨fun _ => Or.inr hl, fun _ => ⟨_, rfl⟩⟩
  · have hlive : ¬ a.Live order.id := mt (containsKey_spec h order.id).mpr hl
    obtain ⟨outcome, hok⟩ := AbstractBook.submitLimitOrder_accepts hq hlive policy
    have hr' := ((submitLimitOrder_spec h order policy).of_eq_ok hr).1
    rw [hok] at hr'
    subst hr'
    simp [hq, hl]

theorem failsUpFront (h : Represents π b a) : FailsUpFront π b where
  applyTakerOrder taker qty limit := by
    by_cases hq : qty = 0
    · refine ⟨.error .zeroQty, b, ?_, fun _ => hq, fun _ => ⟨_, rfl⟩⟩
      rw [OrderBook.applyTakerOrder, if_pos hq]
    · obtain ⟨b', hb', -⟩ := applyTakerOrder_accepts h hq
      exact ⟨_, b', hb', by simp [hq]⟩
  applyFills taker qty limit takerMatch hmatch := by
    obtain rfl : a.matchTakerOrder taker qty limit = takerMatch :=
      Except.ok.inj ((matchTakerOrder_spec h taker qty limit).symm.trans hmatch)
    have hspec := applyFills_spec h (fun f => AbstractBook.fits_of_mem_fills)
      (a.fills_ids_nodup taker qty limit)
    have hok : Returns (fun _ => False)
        (b.applyFills π (a.matchTakerOrder taker qty limit).fills) fun r => r.1 = .ok () :=
      hspec.mono (fun _ he => he.2.2) fun _ hr => hr.1
    obtain ⟨⟨r, b'⟩, hb', rfl⟩ := hok.exists_ok
    exact ⟨b', hb'⟩
  submitLimitOrder order policy r b' hr := submitLimitOrder_error_iff h hr
  rest order takerMatch b' hnew htake hpos r b'' hr := by
    have hlive : ¬ a.Live order.id := fun hlive =>
      Bool.false_ne_true (hnew.symm.trans ((containsKey_spec h order.id).mpr hlive))
    have hq : order.qty ≠ 0 := by
      intro hq
      rw [OrderBook.applyTakerOrder, if_pos hq] at htake
      cases htake
    obtain ⟨b₁, hb₁, hrep⟩ := applyTakerOrder_accepts h hq
    rw [hb₁] at htake
    cases htake
    have hadd : r = ((a.takeOrder order).add (a.remainder order)).1 ∧ _ :=
      (add_spec hrep (a.remainder order)).of_eq_ok hr
    rw [AbstractBook.add_of_not_live (AbstractBook.qty_remainder_ne_zero hpos)
      (AbstractBook.not_live_takeOrder hlive)] at hadd
    exact hadd.1

/-- A rejected submission comes with the book it was tried on. -/
theorem eq_of_rejected (h : Represents π b a) {order : Order} {policy : LimitOrderPolicy}
    {outcome : SubmitLimitOrderOutcome}
    (hr : b.submitLimitOrder π order policy = .ok (.ok outcome, b'))
    (hrejected : outcome.rejected ≠ none) : b' = b := by
  have haccepted : ¬ ∃ e, (.ok outcome : Except BookError SubmitLimitOrderOutcome) = .error e := by
    rintro ⟨e, he⟩
    cases he
  obtain ⟨hq, hnew⟩ := not_or.mp (mt (submitLimitOrder_error_iff h hr).mpr haccepted)
  have hl : ¬ a.Live order.id := mt (containsKey_spec h order.id).mpr hnew
  obtain ⟨houtcome, -⟩ := (submitLimitOrder_spec h order policy).of_eq_ok hr
  rw [AbstractBook.submitLimitOrder.eq_def, if_neg hq, if_neg hl] at houtcome
  cases policy with
  | gtc =>
    by_cases hpos : 0 < (a.matchOrder order).unfilledQty
    · simp only [if_pos hpos] at houtcome
      rw [AbstractBook.restReporting, AbstractBook.add_of_not_live
        (AbstractBook.qty_remainder_ne_zero hpos) (AbstractBook.not_live_takeOrder hl)] at houtcome
      cases houtcome
      exact absurd rfl hrejected
    · simp only [if_neg hpos] at houtcome
      cases houtcome
      exact absurd rfl hrejected
  | ioc =>
    cases houtcome
    exact absurd rfl hrejected
  | fok =>
    by_cases hcomplete : (a.matchOrder order).unfilledQty = 0
    · simp only [if_pos hcomplete] at houtcome
      cases houtcome
      exact absurd rfl hrejected
    · have hsame := hr.symm.trans (fok_rejects h hq hl hcomplete)
      exact (Prod.mk.inj (Except.ok.inj hsame)).2
  | postOnly =>
    by_cases hcross : a.wouldCross order.side order.price = true
    · have hfills : (a.matchOrder order).fills ≠ [] :=
        mt (AbstractBook.fills_eq_nil_iff hq).mp (AbstractBook.wouldCross_iff.mp hcross)
      have hsame := hr.symm.trans (postOnly_rejects h hq hl hfills)
      exact (Prod.mk.inj (Except.ok.inj hsame)).2
    · simp only [if_neg hcross] at houtcome
      rw [AbstractBook.restReporting, AbstractBook.add_of_not_live hq hl] at houtcome
      cases houtcome
      exact absurd rfl hrejected

theorem leavesNoTrace (h : Represents π b a) : LeavesNoTrace π b where
  add order e b' hr := eq_of_refused (add_spec h order) (fun _ => add_of_refused h) hr
  remove id e b' hr := eq_of_refused (remove_spec h id) (fun _ => remove_of_refused h) hr
  updateSize id newQty e b' hr :=
    eq_of_refused (updateSize_spec h id newQty) (fun _ => updateSize_of_refused h) hr
  amendSize id newQty e b' hr :=
    eq_of_refused (amendSize_spec h id newQty) (fun _ => amendSizeWithPolicy_of_refused h) hr
  amendSizeWithPolicy id newQty policy e b' hr :=
    eq_of_refused (amendSizeWithPolicy_spec h id newQty policy)
      (fun _ => amendSizeWithPolicy_of_refused h) hr
  applyOp op e b' hr := eq_of_refused (applyOp_spec h op) (fun _ => applyOp_of_refused h) hr
  applyTakerOrder taker qty limit e b' hr := by
    obtain ⟨r, b₁, hb₁, hiff⟩ := (failsUpFront h).applyTakerOrder taker qty limit
    obtain ⟨rfl, rfl⟩ := Prod.mk.inj (Except.ok.inj (hb₁.symm.trans hr))
    rw [OrderBook.applyTakerOrder, if_pos (hiff.mp ⟨e, rfl⟩)] at hr
    exact (Prod.mk.inj (Except.ok.inj hr)).2.symm
  submitLimitOrder order policy e b' hr := by
    have hfails := (submitLimitOrder_error_iff h hr).mp ⟨e, rfl⟩
    rw [OrderBook.submitLimitOrder.eq_def] at hr
    by_cases hq : order.qty = 0
    · rw [if_pos hq] at hr
      exact (Prod.mk.inj (Except.ok.inj hr)).2.symm
    · rw [if_neg hq, if_pos (hfails.resolve_left hq)] at hr
      exact (Prod.mk.inj (Except.ok.inj hr)).2.symm
  preserveSynthetic orders e b' hr :=
    eq_of_refused (applySnapshotWithPolicy_spec h orders .preserveSynthetic)
      (fun _ => preserveSynthetic_of_refused h) hr
  applyOpWithPolicy op policy outcome b' hr hrefuses := by
    obtain ⟨houtcome, -⟩ := (applyOpWithPolicy_spec h op policy).of_eq_ok hr
    have houtcome' : outcome = (a.applyOpWithPolicy op policy).1 := houtcome
    rw [houtcome'] at hrefuses
    have hsame := hr.symm.trans (applyOpWithPolicy_of_refuses h hrefuses)
    exact (Prod.mk.inj (Except.ok.inj hsame)).2
  rejected order policy outcome b' hr hrejected := eq_of_rejected h hr hrejected

/-- **Failures leave no trace.** From every reachable book, a call that fails, an operation that is
not carried out and a submission that is rejected hand back the very book they were given, and the
compound calls fail in their first checks or not at all. -/
theorem failures_leaveNoTrace (hb : Reachable π b) : LeavesNoTrace π b ∧ FailsUpFront π b := by
  obtain ⟨a, h⟩ := hb.represents
  exact ⟨leavesNoTrace h, failsUpFront h⟩

/-- A bid that would cross is rejected as `PostOnly`, and the sample book is what it was. -/
theorem failures_leaveNoTrace_sample : ∃ outcome b',
    sampleBook.submitLimitOrder .dev (sampleOrder 7 1 .bid 103 20) .postOnly =
        .ok (.ok outcome, b') ∧
      outcome.rejected = some .postOnlyWouldCross ∧ b' = sampleBook := by
  refine ⟨_, _, by rfl, rfl, ?_⟩
  refine (failures_leaveNoTrace sampleBook_reachable).1.rejected
    (sampleOrder 7 1 .bid 103 20) .postOnly _ _ (by rfl) (fun h => ?_)
  cases h

/-! ### Rejected snapshots -/

/-- The orders of the list rest in the book, in the order of the list, and no others do. -/
structure Holds (b : OrderBook) (orders : List Order) : Prop where
  ordersAt : ∀ side price,
    b.ordersAt side price = .ok (AbstractBook.atPlace orders (side, price))
  get : ∀ id, b.get id = .ok (orders.find? fun o => o.id = id)

/-- `o` is the first order of the list that has no quantity or repeats an earlier id. -/
structure FirstOffender (orders before : List Order) (o : Order) (e : BookError) : Prop where
  split : ∃ after, orders = before ++ o :: after
  nonzero : ∀ x ∈ before, x.qty ≠ 0
  nodup : (before.map Order.id).Nodup
  offends : (o.qty = 0 ∧ e = .zeroQty) ∨
    (o.qty ≠ 0 ∧ o.id ∈ before.map Order.id ∧ e = .duplicateOrderId o.id)

theorem fresh_empty_iff {orders : List Order} :
    AbstractBook.Fresh KeyedQueues.empty orders ↔
      (∀ o ∈ orders, o.qty ≠ 0) ∧ (orders.map Order.id).Nodup :=
  ⟨fun h => ⟨h.nonzero, h.nodup⟩, fun h => ⟨h.1, fun _ _ => KeyedQueues.not_live_empty, h.2⟩⟩

/-- The book made of fresh orders holds them. -/
theorem holds_addAll {orders : List Order} (hfresh : AbstractBook.Fresh KeyedQueues.empty orders)
    (h : Represents π b (AbstractBook.addAll KeyedQueues.empty orders).2) : Holds b orders where
  ordersAt side price := by
    rw [ordersAt_spec h, (AbstractBook.addAll_of_fresh hfresh).2, KeyedQueues.queue_empty,
      List.nil_append]
  get id := by
    have hmem : ∀ {o}, o ∈ (AbstractBook.addAll KeyedQueues.empty orders).2 ↔ o ∈ orders := by
      intro o
      rw [KeyedQueues.mem_def, (AbstractBook.addAll_of_fresh hfresh).2, KeyedQueues.queue_empty,
        List.nil_append, AbstractBook.atPlace, List.mem_filter]
      exact and_iff_left (decide_eq_true rfl)
    rw [get_spec h]
    refine congrArg Except.ok ?_
    cases hfind : orders.find? fun o => o.id = id with
    | some o =>
      refine KeyedQueues.find_eq_some_iff.mpr ⟨hmem.mpr (List.mem_of_find?_eq_some hfind), ?_⟩
      simpa using List.find?_some hfind
    | none =>
      refine KeyedQueues.find_eq_none_iff.mpr ?_
      rintro ⟨o, ho, hid⟩
      exact List.find?_eq_none.mp hfind o (hmem.mp ho) (decide_eq_true hid)

/-- **What a rejected replacement leaves.** -/
theorem replace_error (hb : Represents π b a) {orders : List Order} {e : BookError}
    (hr : b.applySnapshotWithPolicy π orders .replace = .ok (.error e, b')) :
    ∃ before o, FirstOffender orders before o e ∧ Holds b' before := by
  obtain ⟨herror, hrep⟩ := (applySnapshotWithPolicy_spec hb orders .replace).of_eq_ok hr
  rw [AbstractBook.applySnapshotWithPolicy, AbstractBook.rebuild] at herror hrep
  cases hadd : (AbstractBook.addAll KeyedQueues.empty orders).1 with
  | ok n =>
    rw [hadd] at herror
    cases herror
  | error e' =>
    rw [hadd] at herror hrep
    obtain rfl := Except.error.inj herror
    obtain ⟨before, o, after, hsplit, hfresh, hrefused, hleft⟩ :=
      AbstractBook.exists_refused hadd
    obtain ⟨hnonzero, hnodup⟩ := fresh_empty_iff.mp hfresh
    refine ⟨before, o, ⟨⟨after, hsplit⟩, hnonzero, hnodup, ?_⟩, holds_addAll hfresh (hleft ▸ hrep)⟩
    refine hrefused.imp_right ?_
    rintro ⟨hq, hlive | hmem, he⟩
    · exact absurd hlive KeyedQueues.not_live_empty
    · exact ⟨hq, hmem, he⟩

theorem applySnapshot_eq_error_iff {orders : List Order} {e : BookError} :
    b.applySnapshot π orders = .ok (.error e, b') ↔
      b.applySnapshotWithPolicy π orders .replace = .ok (.error e, b') := by
  rw [OrderBook.applySnapshot]
  cases b.applySnapshotWithPolicy π orders .replace with
  | error f => simp [bind, Except.bind]
  | ok r =>
    obtain ⟨r, b₁⟩ := r
    cases r <;> simp [bind, Except.bind, Except.map, pure, Except.pure]

/-- The live book does not survive a snapshot that is rejected for its only order. -/
theorem not_forall_rejectedSnapshot_sameOrders :
    ¬ ∀ (π : Profile) (b : OrderBook) (orders : List Order) (e : BookError) (b' : OrderBook),
      Reachable π b → b.applySnapshot π orders = .ok (.error e, b') → SameOrders b' b := by
  intro hall
  have hsame := hall .dev sampleBook [sampleOrder 9 1 .bid 90 0] .zeroQty OrderBook.new
    sampleBook_reachable (by rfl)
  have hget : OrderBook.new.get 2 = sampleBook.get 2 := hsame.get 2
  have hnone : OrderBook.new.get 2 = .ok none := by rfl
  have hsome : sampleBook.get 2 = .ok (some (sampleOrder 2 2 .bid 100 7)) := by rfl
  rw [hnone, hsome] at hget
  cases hget

/-- **A rejected replacement leaves the orders before the offending one.** Whatever the book was,
it afterwards holds exactly these, in the order of the snapshot: it is the book of before only if
that held the same. A snapshot that `PreserveSynthetic` rejects leaves the book as it was. -/
theorem rejectedSnapshot_keepsOrdersBefore (hb : Reachable π b) (orders : List Order) :
    (∀ e b', b.applySnapshot π orders = .ok (.error e, b') ∨
        b.applySnapshotWithPolicy π orders .replace = .ok (.error e, b') →
      ∃ before o, FirstOffender orders before o e ∧ Holds b' before ∧
        (SameOrders b' b ↔ Holds b before)) ∧
    ∀ e b', b.applySnapshotWithPolicy π orders .preserveSynthetic = .ok (.error e, b') →
      b' = b := by
  obtain ⟨a, h⟩ := hb.represents
  constructor
  · intro e b' hr
    rw [applySnapshot_eq_error_iff, or_self] at hr
    obtain ⟨before, o, hoffender, hholds⟩ := replace_error h hr
    refine ⟨before, o, hoffender, hholds, fun hsame => ?_, fun hb => ?_⟩
    · exact ⟨fun side price => (hsame.ordersAt side price).symm.trans (hholds.ordersAt side price),
        fun id => (hsame.get id).symm.trans (hholds.get id)⟩
    · exact ⟨fun side price => (hholds.ordersAt side price).trans (hb.ordersAt side price).symm,
        fun id => (hholds.get id).trans (hb.get id).symm⟩
  · exact fun e b' hr => (leavesNoTrace h).preserveSynthetic orders e b' hr

/-- The second order repeats an id, so only the first is left of the sample book. -/
theorem rejectedSnapshot_keepsOrdersBefore_sample : ∃ b',
    sampleBook.applySnapshot .dev [sampleOrder 8 1 .bid 90 5, sampleOrder 8 1 .ask 91 5] =
        .ok (.error (.duplicateOrderId 8), b') ∧
      ∃ before, Holds b' before ∧ (SameOrders b' sampleBook ↔ Holds sampleBook before) := by
  refine ⟨_, by rfl, ?_⟩
  obtain ⟨before, -, -, hholds, hiff⟩ :=
    (rejectedSnapshot_keepsOrdersBefore sampleBook_reachable
      [sampleOrder 8 1 .bid 90 5, sampleOrder 8 1 .ask 91 5]).1 _ _ (Or.inl (by rfl))
  exact ⟨before, hholds, hiff⟩

end L4Book
