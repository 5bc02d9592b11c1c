import L4Book.Operations
import L4Book.Refinement.Submit
import L4Book.Replay

/-!
# Replay and snapshots

`apply_op`, `apply_op_with_policy` and the snapshot methods on a book that represents an abstract
one. A replay policy only decides what is done with an operation the book would refuse, and a
snapshot is a sequence of `add`s to the empty book, so nothing new can overflow here.

## Main definitions

* `AbstractBook.applyOpWithPolicy`, `AbstractBook.applySnapshotWithPolicy`
* `OpOverflows`, `ReplayOverflows`, `SnapshotOverflows`

## Main results

* `applyOp_spec`, `applyOpWithPolicy_spec`, `applySnapshotWithPolicy_spec`
* `applyOpWithPolicy_cases`: what an operation under a policy can do
-/

namespace L4Book

variable {π : Profile} {b : OrderBook} {a : AbstractBook}

/-! ### The matching operation -/

/-- The true total of a level would not fit a `u64` once the operation is done. -/
def OpOverflows (a : AbstractBook) : BookOp → Prop
  | .add order => AddOverflows a order
  | .remove _ => False
  | .updateSize _ _ => False
  | .amendSize id newQty => AmendOverflows a id newQty

/-- **`apply_op` is the matching case.** -/
theorem applyOp_spec (h : Represents π b a) (op : BookOp) :
    Returns (OnlyOverflow π (OpOverflows a op)) (b.applyOp π op) fun r =>
      r.1 = (a.applyOp op).1 ∧ Represents π r.2 (a.applyOp op).2 := by
  cases op with
  | add order => exact add_spec h order
  | remove id => exact removeUnit_spec h id
  | updateSize id newQty => exact updateSize_spec h id newQty
  | amendSize id newQty => exact amendSize_spec h id newQty

/-! ### Replay policies -/

namespace AbstractBook

variable (a : AbstractBook)

/-- Apply an operation, reporting what was applied or why it was not. -/
noncomputable def applyStrictly (op : BookOp) : ReplayApplyOutcome × AbstractBook :=
  match (a.applyOp op).1 with
  | .ok () => (.applied op, (a.applyOp op).2)
  | .error e => (.error op e, (a.applyOp op).2)

/-- Apply a size update as an amendment. -/
noncomputable def coerceUpdate (id : OrderId) (current newQty : Qty) :
    ReplayApplyOutcome × AbstractBook :=
  match (a.amendSize id newQty).1 with
  | .ok () =>
    (.coerced (.updateSize id newQty) (.amendSize id newQty)
      (.nonDecreasingUpdate id current newQty), (a.amendSize id newQty).2)
  | .error e => (.error (.updateSize id newQty) e, (a.amendSize id newQty).2)

open Classical in
/-- Apply an operation under a replay policy. -/
noncomputable def applyOpWithPolicy (op : BookOp) (policy : ReplayPolicy) :
    ReplayApplyOutcome × AbstractBook :=
  match op with
  | .add order =>
    if a.Live order.id then
      (if policy.duplicateAdd = .skip then .skipped op (.duplicateAdd order.id)
        else .error op (.duplicateOrderId order.id), a)
    else a.applyStrictly op
  | .remove id =>
    if a.Live id then a.applyStrictly op else (OrderBook.missingOrder op id policy, a)
  | .updateSize id newQty =>
    match a.find id with
    | none => (OrderBook.missingOrder op id policy, a)
    | some o =>
      if o.qty ≤ newQty ∧ policy.nonDecreasingUpdate = .treatAsAmend then
        a.coerceUpdate id o.qty newQty
      else a.applyStrictly op
  | .amendSize id _ =>
    if a.Live id then a.applyStrictly op else (OrderBook.missingOrder op id policy, a)

end AbstractBook

theorem applyStrictly_snd (a : AbstractBook) (op : BookOp) :
    (a.applyStrictly op).2 = (a.applyOp op).2 := by
  rw [AbstractBook.applyStrictly]
  split <;> rfl

/-- The outcome of an update that is carried out as an amendment, given the reply to that. -/
def coercedOutcome (id : OrderId) (current newQty : Qty) :
    Except BookError Unit → ReplayApplyOutcome
  | .ok () =>
    .coerced (.updateSize id newQty) (.amendSize id newQty) (.nonDecreasingUpdate id current newQty)
  | .error e => .error (.updateSize id newQty) e

/-- The outcome of adding an order whose id is live. -/
def duplicateOutcome (order : Order) (policy : ReplayPolicy) : ReplayApplyOutcome :=
  if policy.duplicateAdd = .skip then .skipped (.add order) (.duplicateAdd order.id)
  else .error (.add order) (.duplicateOrderId order.id)

theorem coerceUpdate_eq (a : AbstractBook) (id : OrderId) (current newQty : Qty) :
    a.coerceUpdate id current newQty =
      (coercedOutcome id current newQty (a.amendSize id newQty).1, (a.amendSize id newQty).2) := by
  rw [AbstractBook.coerceUpdate]
  cases (a.amendSize id newQty).1 <;> rfl

theorem coerceUpdate_snd (a : AbstractBook) (id : OrderId) (current newQty : Qty) :
    (a.coerceUpdate id current newQty).2 = (a.amendSize id newQty).2 := by
  rw [coerceUpdate_eq]

theorem lookup_of_find_eq_none {id : OrderId} (h : Represents π b a) (hfind : a.find id = none) :
    b.orderIndex.lookup id = none := by
  obtain ⟨slots, hlayout⟩ := h
  exact hlayout.lookup_eq_none_iff.mpr (KeyedQueues.find_eq_none_iff.mp hfind)

/-- Where the index leads for a live order. -/
theorem exists_node_of_find {id : OrderId} {o : Order} (h : Represents π b a)
    (hfind : a.find id = some o) :
    ∃ slot x, b.orderIndex.lookup id = some slot ∧ x.order = o ∧
      ∀ msg, b.slab.node slot msg = .ok x := by
  obtain ⟨slots, hlayout⟩ := h
  cases hlook : b.orderIndex.lookup id with
  | none =>
    have hlive : a.Live id := KeyedQueues.live_iff_find.mpr ⟨o, hfind⟩
    exact absurd hlive (hlayout.lookup_eq_none_iff.mp hlook)
  | some slot =>
    obtain ⟨x, hx, -, -, hfind'⟩ := hlayout.find_of_lookup hlook
    exact ⟨slot, x, rfl, Option.some.inj (hfind'.symm.trans hfind), fun _ => Slab.node_eq_ok hx⟩

open Classical in
/-- The arms of `Remove` and `AmendSize` ask whether the book has the order. -/
theorem strictly_or_missing (h : Represents π b a) {op : BookOp} {policy : ReplayPolicy}
    (hnew : ∀ order, op ≠ .add order)
    (hb : b.applyOpWithPolicy π op policy = if !b.containsKey op.orderId
      then .ok (OrderBook.missingOrder op op.orderId policy, b) else b.applyStrictly π op)
    (ha : a.applyOpWithPolicy op policy = if a.Live op.orderId
      then a.applyStrictly op else (OrderBook.missingOrder op op.orderId policy, a)) :
    (b.applyOpWithPolicy π op policy = b.applyStrictly π op ∧
      a.applyOpWithPolicy op policy = a.applyStrictly op) ∨
    ((∀ order, op ≠ .add order) ∧ a.find op.orderId = none ∧
      b.applyOpWithPolicy π op policy = .ok (OrderBook.missingOrder op op.orderId policy, b) ∧
      a.applyOpWithPolicy op policy = (OrderBook.missingOrder op op.orderId policy, a)) := by
  have hcontains := containsKey_spec h op.orderId
  rw [hb, ha]
  by_cases hl : a.Live op.orderId
  · rw [hcontains.mpr hl, if_pos hl]
    exact Or.inl ⟨rfl, rfl⟩
  · rw [Bool.eq_false_iff.mpr (mt hcontains.mp hl), if_neg hl]
    exact Or.inr ⟨hnew, KeyedQueues.find_eq_none_iff.mpr hl, rfl, rfl⟩

/-- **What `apply_op_with_policy` does**: it leaves the operation to `apply_op`; or answers for it
where an order is there twice or not at all; or carries out an update as an amendment. -/
theorem applyOpWithPolicy_cases (h : Represents π b a) (op : BookOp) (policy : ReplayPolicy) :
    (b.applyOpWithPolicy π op policy = b.applyStrictly π op ∧
      a.applyOpWithPolicy op policy = a.applyStrictly op) ∨
    (∃ order, op = .add order ∧ a.Live order.id ∧
      b.applyOpWithPolicy π op policy = .ok (duplicateOutcome order policy, b) ∧
      a.applyOpWithPolicy op policy = (duplicateOutcome order policy, a)) ∨
    ((∀ order, op ≠ .add order) ∧ a.find op.orderId = none ∧
      b.applyOpWithPolicy π op policy = .ok (OrderBook.missingOrder op op.orderId policy, b) ∧
      a.applyOpWithPolicy op policy = (OrderBook.missingOrder op op.orderId policy, a)) ∨
    ∃ id newQty o, op = .updateSize id newQty ∧ a.find id = some o ∧ o.qty ≤ newQty ∧
      policy.nonDecreasingUpdate = .treatAsAmend ∧
      b.applyOpWithPolicy π op policy =
        (fun r => (coercedOutcome id o.qty newQty r.1, r.2)) <$> b.amendSize π id newQty ∧
      a.applyOpWithPolicy op policy = a.coerceUpdate id o.qty newQty := by
  cases op with
  | add order =>
    have hcontains := containsKey_spec h order.id
    unfold OrderBook.applyOpWithPolicy AbstractBook.applyOpWithPolicy
    by_cases hl : a.Live order.id
    · refine Or.inr (Or.inl ⟨order, rfl, hl, ?_, ?_⟩)
      · simp only [if_pos (hcontains.mpr hl), duplicateOutcome]
        split <;> rfl
      · simp only [if_pos hl]
        rfl
    · left
      simp only [if_neg (mt hcontains.mp hl), if_neg hl, and_self]
  | remove id =>
    exact (strictly_or_missing h (by simp) rfl rfl).imp_right fun hmissing =>
      Or.inr (Or.inl hmissing)
  | amendSize id newQty =>
    exact (strictly_or_missing h (by simp) rfl rfl).imp_right
      fun hmissing => Or.inr (Or.inl hmissing)
  | updateSize id newQty =>
    have hop : b.applyOpWithPolicy π (.updateSize id newQty) policy =
        b.updateSizeWithPolicy π id newQty policy := rfl
    rw [hop, OrderBook.updateSizeWithPolicy]
    unfold AbstractBook.applyOpWithPolicy
    cases hfind : a.find id with
    | none =>
      refine Or.inr (Or.inr (Or.inl ⟨by simp, hfind, ?_, ?_⟩))
      · rw [lookup_of_find_eq_none h hfind]
        rfl
      · simp only [hfind]
        rfl
    | some o =>
      obtain ⟨slot, x, hlook, rfl, hnode⟩ := exists_node_of_find h hfind
      simp only [hlook, hnode, hfind, ok_bind]
      by_cases hcoerce : x.order.qty ≤ newQty ∧ policy.nonDecreasingUpdate = .treatAsAmend
      · refine Or.inr (Or.inr (Or.inr
          ⟨id, newQty, x.order, rfl, hfind, hcoerce.1, hcoerce.2, ?_, if_pos hcoerce⟩))
        rw [if_pos hcoerce]
        show (b.amendSize π id newQty >>= _) = _
        rcases b.amendSize π id newQty with f | ⟨e | u, b'⟩ <;> rfl
      · left
        rw [if_neg hcoerce, if_neg hcoerce]
        exact ⟨rfl, rfl⟩

/-- The true total of a level would not fit a `u64` once the operation is done under the policy. -/
def ReplayOverflows (a : AbstractBook) (op : BookOp) (policy : ReplayPolicy) : Prop :=
  match op with
  | .updateSize id newQty =>
    policy.nonDecreasingUpdate = .treatAsAmend ∧ AmendOverflows a id newQty
  | op => OpOverflows a op

theorem applyStrictly_spec (h : Represents π b a) (op : BookOp) :
    Returns (OnlyOverflow π (OpOverflows a op)) (b.applyStrictly π op) fun r =>
      r.1 = (a.applyStrictly op).1 ∧ Represents π r.2 (a.applyStrictly op).2 := by
  rw [OrderBook.applyStrictly, AbstractBook.applyStrictly]
  refine (applyOp_spec h op).bind ?_
  rintro ⟨r, b'⟩ ⟨hr, hb'⟩
  subst hr
  cases (a.applyOp op).1 with
  | ok u => exact ⟨rfl, hb'⟩
  | error e => exact ⟨rfl, hb'⟩

/-- **`apply_op_with_policy`**, whatever the policy. -/
theorem applyOpWithPolicy_spec (h : Represents π b a) (op : BookOp) (policy : ReplayPolicy) :
    Returns (OnlyOverflow π (ReplayOverflows a op policy))
      (b.applyOpWithPolicy π op policy) fun r =>
        r.1 = (a.applyOpWithPolicy op policy).1 ∧
          Represents π r.2 (a.applyOpWithPolicy op policy).2 := by
  rcases applyOpWithPolicy_cases h op policy with ⟨hb, ha⟩ | ⟨order, rfl, -, hb, ha⟩ |
    ⟨-, -, hb, ha⟩ | ⟨id, newQty, o, rfl, hfind, hle, hpolicy, hb, ha⟩
  · rw [hb, ha]
    refine (applyStrictly_spec h op).mono (fun e he => he.mono fun hover => ?_) fun _ hr => hr
    cases op with
    | add order => exact hover
    | remove id => exact hover
    | updateSize id newQty => exact hover.elim
    | amendSize id newQty => exact hover
  · rw [hb, ha]
    exact ⟨rfl, h⟩
  · rw [hb, ha]
    exact ⟨rfl, h⟩
  · rw [hb, ha, coerceUpdate_eq]
    have hamend : Returns (OnlyOverflow π (ReplayOverflows a (.updateSize id newQty) policy))
        (b.amendSize π id newQty) fun r =>
          r.1 = (a.amendSize id newQty).1 ∧ Represents π r.2 (a.amendSize id newQty).2 :=
      (amendSize_spec h id newQty).mono (fun e he => he.mono fun hover => ⟨hpolicy, hover⟩)
        fun _ hr => hr
    rcases hv : b.amendSize π id newQty with f | ⟨r, b'⟩
    · exact hamend.of_eq_error hv
    · obtain ⟨hr, hb'⟩ := hamend.of_eq_ok hv
      exact ⟨congrArg (coercedOutcome id o.qty newQty) hr, hb'⟩

/-! ### Snapshots -/

namespace AbstractBook

variable (a : AbstractBook)

/-- Add orders until one is refused. -/
noncomputable def addAll (a : AbstractBook) : List Order → Except BookError ℕ × AbstractBook
  | [] => (.ok 0, a)
  | order :: orders =>
    match (a.add order).1 with
    | .error e => (.error e, (a.add order).2)
    | .ok () =>
      (((a.add order).2.addAll orders).1.map (· + 1), ((a.add order).2.addAll orders).2)

/-- The synthetic orders, bids before asks and best price first. -/
noncomputable def syntheticOrders : List Order :=
  ((a.ladder .bid).filter fun o => isSyntheticOrderId o.id) ++
    (a.ladder .ask).filter fun o => isSyntheticOrderId o.id

/-- The book rebuilt from a snapshot's orders and after them the preserved ones. -/
noncomputable def rebuild (orders preserved : List Order) :
    Except BookError SnapshotOutcome × AbstractBook :=
  match (addAll KeyedQueues.empty orders).1 with
  | .error e => (.error e, (addAll KeyedQueues.empty orders).2)
  | .ok inserted =>
    let r := (addAll KeyedQueues.empty orders).2.addAll preserved
    (r.1.map fun preserved => ⟨inserted, preserved⟩, r.2)

/-- Apply a snapshot under a replacement policy. -/
noncomputable def applySnapshotWithPolicy (orders : List Order) :
    SnapshotPolicy → Except BookError SnapshotOutcome × AbstractBook
  | .replace => rebuild orders []
  | .preserveSynthetic =>
    match OrderBook.validatePreserveSyntheticSnapshot orders a.syntheticOrders with
    | .error e => (.error e, a)
    | .ok () => rebuild orders a.syntheticOrders

end AbstractBook

/-- The true total of a level would not fit a `u64` when its turn comes in the list. -/
def AddAllOverflows (a : AbstractBook) : List Order → Prop
  | [] => False
  | order :: orders =>
    AddOverflows a order ∨
      ((a.add order).1 = .ok () ∧ AddAllOverflows (a.add order).2 orders)

/-- The true total of a level would not fit a `u64` while the book is rebuilt. -/
def RebuildOverflows (orders preserved : List Order) : Prop :=
  AddAllOverflows KeyedQueues.empty orders ∨
    ((∃ n, (AbstractBook.addAll KeyedQueues.empty orders).1 = .ok n) ∧
      AddAllOverflows (AbstractBook.addAll KeyedQueues.empty orders).2 preserved)

/-- The true total of a level would not fit a `u64` while the snapshot is applied. -/
def SnapshotOverflows (a : AbstractBook) (orders : List Order) : SnapshotPolicy → Prop
  | .replace => RebuildOverflows orders []
  | .preserveSynthetic =>
    OrderBook.validatePreserveSyntheticSnapshot orders a.syntheticOrders = .ok () ∧
      RebuildOverflows orders a.syntheticOrders

theorem addAll_spec (h : Represents π b a) (orders : List Order) :
    Returns (OnlyOverflow π (AddAllOverflows a orders)) (b.addAll π orders) fun r =>
      r.1 = (a.addAll orders).1 ∧ Represents π r.2 (a.addAll orders).2 := by
  induction orders generalizing a b with
  | nil => exact ⟨rfl, h⟩
  | cons order orders ih =>
    rw [OrderBook.addAll, AbstractBook.addAll]
    refine ((add_spec h order).mono (fun e he => he.mono Or.inl) fun _ hr => hr).bind ?_
    rintro ⟨r, b'⟩ ⟨hr, hb'⟩
    subst hr
    cases (a.add order).1 with
    | error e => exact ⟨rfl, hb'⟩
    | ok u =>
      refine ((ih hb').mono (fun e he => he.mono fun hover => Or.inr ⟨rfl, hover⟩)
        fun _ hr => hr).bind ?_
      rintro ⟨r, b''⟩ ⟨hr, hb''⟩
      exact ⟨congrArg (Except.map _) hr, hb''⟩

theorem rebuild_spec (b : OrderBook) (orders preserved : List Order) :
    Returns (OnlyOverflow π (RebuildOverflows orders preserved))
      (b.rebuild π orders preserved) fun r =>
        r.1 = (AbstractBook.rebuild orders preserved).1 ∧
          Represents π r.2 (AbstractBook.rebuild orders preserved).2 := by
  rw [OrderBook.rebuild, AbstractBook.rebuild]
  refine ((addAll_spec (represents_clear π b) orders).mono (fun e he => he.mono Or.inl)
    fun _ hr => hr).bind ?_
  rintro ⟨r, b'⟩ ⟨hr, hb'⟩
  subst hr
  cases (AbstractBook.addAll KeyedQueues.empty orders).1 with
  | error e => exact ⟨rfl, hb'⟩
  | ok n =>
    refine ((addAll_spec hb' preserved).mono
      (fun e he => he.mono fun hover => Or.inr ⟨⟨n, rfl⟩, hover⟩) fun _ hr => hr).bind ?_
    rintro ⟨r, b''⟩ ⟨hr, hb''⟩
    exact ⟨congrArg (Except.map _) hr, hb''⟩

theorem syntheticOrdersInBookOrder_spec (h : Represents π b a) :
    b.syntheticOrdersInBookOrder = .ok a.syntheticOrders := by
  have hside : ∀ side, b.syntheticOrdersOfSide side =
      .ok ((a.ladder side).filter fun o => isSyntheticOrderId o.id) := by
    intro side
    have hmap : (b.depth side).mapM (fun (entry : Price × Qty × ℕ) => do
        let orders ← b.ordersAt side entry.1
        return orders.filter fun (o : Order) => isSyntheticOrderId o.id) =
          .ok ((b.depth side).map fun entry =>
            (a.queue (side, entry.1)).filter fun o => isSyntheticOrderId o.id) := by
      refine mapM_eq_ok fun entry _ => ?_
      rw [ordersAt_spec h]
      rfl
    have hflat : ((b.depth side).map fun entry =>
        (a.queue (side, entry.1)).filter fun o => isSyntheticOrderId o.id).flatten =
          (a.ladder side).filter fun o => isSyntheticOrderId o.id := by
      rw [depth_spec h, List.map_map, ← List.flatMap_def, AbstractBook.ladder,
        List.filter_flatMap]
      rfl
    rw [OrderBook.syntheticOrdersOfSide, ← hflat]
    show ((b.depth side).mapM _ >>= _) = _
    rw [hmap]
    rfl
  rw [OrderBook.syntheticOrdersInBookOrder, hside, hside]
  rfl

/-- **`apply_snapshot_with_policy`**, under both policies. -/
theorem applySnapshotWithPolicy_spec (h : Represents π b a) (orders : List Order)
    (policy : SnapshotPolicy) :
    Returns (OnlyOverflow π (SnapshotOverflows a orders policy))
      (b.applySnapshotWithPolicy π orders policy) fun r =>
        r.1 = (a.applySnapshotWithPolicy orders policy).1 ∧
          Represents π r.2 (a.applySnapshotWithPolicy orders policy).2 := by
  cases policy with
  | replace => exact rebuild_spec b orders []
  | preserveSynthetic =>
    rw [OrderBook.applySnapshotWithPolicy, AbstractBook.applySnapshotWithPolicy,
      syntheticOrdersInBookOrder_spec h, ok_bind]
    cases hvalid : OrderBook.validatePreserveSyntheticSnapshot orders a.syntheticOrders with
    | error e => exact ⟨rfl, h⟩
    | ok u =>
      exact (rebuild_spec b orders a.syntheticOrders).mono
        (fun e he => he.mono fun hover => ⟨hvalid, hover⟩) fun _ hr => hr

theorem applySnapshot_spec (h : Represents π b a) (orders : List Order) :
    Returns (OnlyOverflow π (SnapshotOverflows a orders .replace))
      (b.applySnapshot π orders) fun r =>
        r.1 = (a.applySnapshotWithPolicy orders .replace).1.map (fun _ => ()) ∧
          Represents π r.2 (a.applySnapshotWithPolicy orders .replace).2 := by
  rw [OrderBook.applySnapshot]
  refine (applySnapshotWithPolicy_spec h orders .replace).bind ?_
  rintro ⟨r, b'⟩ ⟨hr, hb'⟩
  exact ⟨congrArg (Except.map _) hr, hb'⟩

end L4Book
