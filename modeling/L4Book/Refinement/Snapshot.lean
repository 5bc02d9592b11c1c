import L4Book.Refinement.Queries

/-!
# What a snapshot leaves

A snapshot is added order by order. Orders that are fresh, that is nonzero, new and distinct, are
all accepted, and each stands behind what was at its place before; the first order that is not
fresh ends the loop, and the orders before it stay.

## Main definitions

* `AbstractBook.Fresh`: orders that can all be added
* `AbstractBook.Refused`: an order at which adding stops
* `AbstractBook.VenueSnapshot`: what `PreserveSynthetic` accepts

## Main results

* `AbstractBook.addAll_of_fresh`, `addAll_of_refused`: what adding a list of orders does
* `AbstractBook.validatePreserveSyntheticSnapshot_eq_ok_iff`: what the validation accepts
* `AbstractBook.VenueSnapshot.rebuild`: a validated snapshot is carried out
-/

namespace L4Book

namespace AbstractBook

variable {a : AbstractBook} {o : Order} {orders before after : List Order} {k : Side × Price}

/-! ### Adding a list of orders -/

/-- The orders of a list that go to a place, in the order of the list. -/
def atPlace (orders : List Order) (k : Side × Price) : List Order :=
  orders.filter fun o => o.place = k

@[simp] theorem atPlace_nil (k : Side × Price) : atPlace [] k = [] := rfl

theorem atPlace_cons (o : Order) (orders : List Order) (k : Side × Price) :
    atPlace (o :: orders) k = if o.place = k then o :: atPlace orders k else atPlace orders k := by
  simp only [atPlace, List.filter_cons, decide_eq_true_eq]

theorem atPlace_append (l r : List Order) (k : Side × Price) :
    atPlace (l ++ r) k = atPlace l k ++ atPlace r k := List.filter_append _ _

/-- The orders can all be added to `a`: none is empty, and their ids are new and distinct. -/
structure Fresh (a : AbstractBook) (orders : List Order) : Prop where
  nonzero : ∀ o ∈ orders, o.qty ≠ 0
  new : ∀ o ∈ orders, ¬ a.Live o.id
  nodup : (orders.map Order.id).Nodup

/-- `o` cannot be added once the orders in `before` have been. -/
def Refused (a : AbstractBook) (before : List Order) (o : Order) (e : BookError) : Prop :=
  (o.qty = 0 ∧ e = .zeroQty) ∨
    (o.qty ≠ 0 ∧ (a.Live o.id ∨ o.id ∈ before.map Order.id) ∧ e = .duplicateOrderId o.id)

theorem fresh_nil (a : AbstractBook) : Fresh a [] :=
  ⟨fun _ h => absurd h List.not_mem_nil, fun _ h => absurd h List.not_mem_nil, List.nodup_nil⟩

/-- The rest of a fresh list is fresh for the book with its first order. -/
theorem Fresh.push (h : Fresh a (o :: orders)) :
    Fresh (a.push o (h.nonzero o List.mem_cons_self) (h.new o List.mem_cons_self)) orders where
  nonzero x hx := h.nonzero x (List.mem_cons_of_mem _ hx)
  new x hx := by
    rw [KeyedQueues.live_push, not_or]
    refine ⟨h.new x (List.mem_cons_of_mem _ hx), fun hid => ?_⟩
    exact (List.nodup_cons.mp h.nodup).1 (hid ▸ List.mem_map_of_mem hx)
  nodup := (List.nodup_cons.mp h.nodup).2

/-- **Fresh orders are all added**, each behind what was at its place. -/
theorem addAll_of_fresh (h : Fresh a orders) :
    (a.addAll orders).1 = .ok orders.length ∧
      ∀ k, (a.addAll orders).2.queue k = a.queue k ++ atPlace orders k := by
  induction orders generalizing a with
  | nil => exact ⟨rfl, fun k => (List.append_nil _).symm⟩
  | cons o orders ih =>
    obtain ⟨hok, hqueue⟩ := ih h.push
    rw [addAll, add_of_not_live (h.nonzero o List.mem_cons_self) (h.new o List.mem_cons_self)]
    refine ⟨congrArg (Except.map (· + 1)) hok, fun k => (hqueue k).trans ?_⟩
    rw [KeyedQueues.queue_push, atPlace_cons]
    by_cases hk : k = o.place
    · rw [if_pos hk, if_pos hk.symm, List.append_assoc]
      rfl
    · rw [if_neg hk, if_neg (Ne.symm hk)]

/-- Adding a list that is cut in two. -/
theorem addAll_append (h : Fresh a before) :
    a.addAll (before ++ after) =
      (((a.addAll before).2.addAll after).1.map (· + before.length),
        ((a.addAll before).2.addAll after).2) := by
  induction before generalizing a with
  | nil =>
    rw [List.nil_append, addAll]
    cases hr : (a.addAll after).1 <;> exact Prod.ext hr rfl
  | cons o before ih =>
    have hadd := add_of_not_live (h.nonzero o List.mem_cons_self) (h.new o List.mem_cons_self)
    rw [List.cons_append, addAll, hadd, ih h.push, addAll, hadd]
    refine Prod.ext ?_ rfl
    cases (addAll (addAll (a.push o _ _) before).2 after).1 with
    | error e => rfl
    | ok n => exact congrArg Except.ok (Nat.add_assoc _ _ _)

/-- The live ids once a list has been added. -/
theorem live_addAll (h : Fresh a orders) {id : OrderId} :
    (a.addAll orders).2.Live id ↔ a.Live id ∨ id ∈ orders.map Order.id := by
  induction orders generalizing a with
  | nil => simp [addAll]
  | cons o orders ih =>
    rw [addAll, add_of_not_live (h.nonzero o List.mem_cons_self) (h.new o List.mem_cons_self)]
    refine (ih h.push).trans ?_
    rw [KeyedQueues.live_push, List.map_cons, List.mem_cons, or_assoc, eq_comm (a := o.id)]

/-- **An order that is refused ends the list**, and the orders before it stay. -/
theorem addAll_of_refused {e : BookError} (h : Fresh a before) (hr : Refused a before o e) :
    a.addAll (before ++ o :: after) = (.error e, (a.addAll before).2) := by
  rw [addAll_append h, addAll]
  rcases hr with ⟨hq, rfl⟩ | ⟨hq, hl, rfl⟩
  · rw [add, dif_pos hq]
    rfl
  · rw [add, dif_neg hq, dif_pos ((live_addAll h).mpr hl)]
    rfl

/-- A list is fresh, or has a first order that is not. -/
theorem fresh_or_refused (a : AbstractBook) (orders : List Order) :
    Fresh a orders ∨ ∃ before o after e, orders = before ++ o :: after ∧ Fresh a before ∧
      Refused a before o e := by
  induction orders using List.reverseRecOn with
  | nil => exact Or.inl (fresh_nil a)
  | append_singleton orders o ih =>
    rcases ih with hfresh | ⟨before, x, after, e, rfl, hbefore, hr⟩
    · by_cases hq : o.qty = 0
      · exact Or.inr ⟨orders, o, [], .zeroQty, rfl, hfresh, Or.inl ⟨hq, rfl⟩⟩
      by_cases hl : a.Live o.id ∨ o.id ∈ orders.map Order.id
      · exact Or.inr ⟨orders, o, [], _, rfl, hfresh, Or.inr ⟨hq, hl, rfl⟩⟩
      rw [not_or] at hl
      refine Or.inl ⟨?_, ?_, ?_⟩
      · simpa [or_imp, forall_and, hq] using hfresh.nonzero
      · simpa [or_imp, forall_and, hl.1] using hfresh.new
      · rw [List.map_append, List.map_singleton, ← List.concat_eq_append]
        exact hfresh.nodup.concat hl.2
    · exact Or.inr ⟨before, x, after ++ [o], e, by simp, hbefore, hr⟩

/-- What a refused list has added, read backwards from the refusal. -/
theorem exists_refused {e : BookError} (h : (a.addAll orders).1 = .error e) :
    ∃ before o after, orders = before ++ o :: after ∧ Fresh a before ∧ Refused a before o e ∧
      (a.addAll orders).2 = (a.addAll before).2 := by
  rcases fresh_or_refused a orders with hfresh | ⟨before, o, after, e', rfl, hbefore, hr⟩
  · rw [(addAll_of_fresh hfresh).1] at h
    cases h
  · rw [addAll_of_refused hbefore hr] at h ⊢
    obtain rfl : e' = e := Except.error.inj h
    exact ⟨before, o, after, rfl, hbefore, hr, rfl⟩

/-- An overflow on the way shows in the lists that would have been reached. -/
theorem exists_of_addAllOverflows (h : Fresh a orders) (hover : AddAllOverflows a orders) :
    ∃ k, UInt64.size ≤ restingQty (a.queue k ++ atPlace orders k) := by
  induction orders generalizing a with
  | nil => exact hover.elim
  | cons o orders ih =>
    rcases hover with ⟨-, -, hsize⟩ | ⟨-, hover⟩
    · refine ⟨o.place, ?_⟩
      rw [atPlace_cons, if_pos rfl, restingQty_append, restingQty_cons]
      omega
    · rw [add_of_not_live (h.nonzero o List.mem_cons_self) (h.new o List.mem_cons_self)] at hover
      obtain ⟨k, hk⟩ := ih h.push hover
      refine ⟨k, Nat.le_trans hk (Nat.le_of_eq ?_)⟩
      rw [KeyedQueues.queue_push, atPlace_cons]
      by_cases hkp : k = o.place
      · rw [if_pos hkp, if_pos hkp.symm, List.append_assoc]
        rfl
      · rw [if_neg hkp, if_neg (Ne.symm hkp)]

/-! ### The up-front validation -/

theorem validateFrom_eq_ok_iff {preservedIds seen : Finset OrderId} :
    OrderBook.validateFrom preservedIds seen orders = .ok () ↔
      (∀ o ∈ orders, o.qty ≠ 0 ∧ o.id ∉ preservedIds ∧ isSyntheticOrderId o.id = false ∧
        o.id ∉ seen) ∧ (orders.map Order.id).Nodup := by
  induction orders generalizing seen with
  | nil => simp [OrderBook.validateFrom]
  | cons o orders ih =>
    rw [OrderBook.validateFrom]
    by_cases hq : o.qty = 0
    · simp [hq]
    by_cases hp : o.id ∈ preservedIds
    · simp [hq, hp]
    by_cases hs : isSyntheticOrderId o.id = true
    · simp [hq, hp, hs]
    by_cases hseen : o.id ∈ seen
    · simp [hq, hp, hs, hseen]
    rw [if_neg hq, if_neg hp, if_neg hs, if_neg hseen, ih, List.map_cons, List.nodup_cons,
      List.forall_mem_cons]
    simp only [Finset.mem_insert, not_or, List.mem_map, not_exists, not_and]
    constructor
    · rintro ⟨hall, hnodup⟩
      refine ⟨⟨⟨hq, hp, Bool.eq_false_iff.mpr hs, hseen⟩, fun x hx => ?_⟩, fun x hx => ?_, hnodup⟩
      · obtain ⟨hxq, hxp, hxs, -, hxseen⟩ := hall x hx
        exact ⟨hxq, hxp, hxs, hxseen⟩
      · exact (hall x hx).2.2.2.1
    · rintro ⟨⟨-, hall⟩, hne, hnodup⟩
      refine ⟨fun x hx => ?_, hnodup⟩
      obtain ⟨hxq, hxp, hxs, hxseen⟩ := hall x hx
      exact ⟨hxq, hxp, hxs, hne x hx, hxseen⟩

theorem syntheticOrders_eq (a : AbstractBook) :
    a.syntheticOrders = a.orders.filter fun o => isSyntheticOrderId o.id :=
  (List.filter_append _ _).symm

theorem mem_syntheticOrders :
    o ∈ a.syntheticOrders ↔ o ∈ a ∧ isSyntheticOrderId o.id = true := by
  rw [syntheticOrders_eq, List.mem_filter, mem_orders]

theorem syntheticOrders_ids_nodup (a : AbstractBook) :
    (a.syntheticOrders.map Order.id).Nodup := by
  rw [syntheticOrders_eq]
  exact a.orders_ids_nodup.sublist (List.filter_sublist.map Order.id)

/-- A snapshot that `PreserveSynthetic` accepts: nonzero orders with venue ids, no id twice. -/
structure VenueSnapshot (orders : List Order) : Prop where
  nonzero : ∀ o ∈ orders, o.qty ≠ 0
  venue : ∀ o ∈ orders, isSyntheticOrderId o.id = false
  nodup : (orders.map Order.id).Nodup

/-- **What the validation accepts.** That no id is one of the preserved ones needs no check of its
own: those are synthetic. -/
theorem validatePreserveSyntheticSnapshot_eq_ok_iff :
    OrderBook.validatePreserveSyntheticSnapshot orders a.syntheticOrders = .ok () ↔
      VenueSnapshot orders := by
  rw [OrderBook.validatePreserveSyntheticSnapshot, validateFrom_eq_ok_iff]
  constructor
  · rintro ⟨hall, hnodup⟩
    exact ⟨fun o ho => (hall o ho).1, fun o ho => (hall o ho).2.2.1, hnodup⟩
  · rintro ⟨hnonzero, hvenue, hnodup⟩
    refine ⟨fun o ho => ⟨hnonzero o ho, fun hmem => ?_, hvenue o ho, Finset.notMem_empty _⟩, hnodup⟩
    obtain ⟨x, hx, hid⟩ := List.mem_map.mp (List.mem_toFinset.mp hmem)
    have hsynthetic := (mem_syntheticOrders.mp hx).2
    rw [hid, hvenue o ho] at hsynthetic
    exact Bool.false_ne_true hsynthetic

/-! ### The rebuilt book -/

/-- The orders of a ladder at one of its prices. -/
theorem atPlace_flatMap {side : Side} {p : Price} {ps : List Price} (hnodup : ps.Nodup) :
    atPlace (ps.flatMap fun q => a.queue (side, q)) (side, p) =
      if p ∈ ps then a.queue (side, p) else [] := by
  induction ps with
  | nil => rfl
  | cons q ps ih =>
    obtain ⟨hq, hps⟩ := List.nodup_cons.mp hnodup
    rw [List.flatMap_cons, atPlace_append, ih hps]
    by_cases hpq : p = q
    · subst hpq
      have hall : atPlace (a.queue (side, p)) (side, p) = a.queue (side, p) :=
        List.filter_eq_self.mpr fun o ho => decide_eq_true (a.placed ho)
      rw [hall, if_neg hq, List.append_nil, if_pos List.mem_cons_self]
    · have hnone : atPlace (a.queue (side, q)) (side, p) = [] := by
        refine List.filter_eq_nil_iff.mpr fun o ho hplace => hpq ?_
        exact (Prod.mk.inj ((of_decide_eq_true hplace).symm.trans (a.placed ho))).2
      rw [hnone, List.nil_append]
      simp only [List.mem_cons, hpq, false_or]

theorem atPlace_ladder_of_ne {side : Side} (hside : k.1 ≠ side) :
    atPlace (a.ladder side) k = [] := by
  refine List.filter_eq_nil_iff.mpr fun o ho hplace => hside ?_
  rw [← of_decide_eq_true hplace]
  exact (mem_ladder.mp ho).2

theorem atPlace_ladder_self (a : AbstractBook) (side : Side) (p : Price) :
    atPlace (a.ladder side) (side, p) = a.queue (side, p) := by
  rw [ladder, atPlace_flatMap (a.prices_nodup side)]
  by_cases hp : p ∈ a.prices side
  · exact if_pos hp
  · rw [if_neg hp]
    exact (not_not.mp (mt mem_prices.mpr hp)).symm

/-- **All orders, sorted by place, are the queues.** -/
theorem atPlace_orders (a : AbstractBook) (k : Side × Price) : atPlace a.orders k = a.queue k := by
  obtain ⟨side, p⟩ := k
  rw [orders, atPlace_append]
  cases side with
  | bid => rw [atPlace_ladder_self, atPlace_ladder_of_ne (by simp), List.append_nil]
  | ask => rw [atPlace_ladder_self, atPlace_ladder_of_ne (by simp), List.nil_append]

theorem atPlace_syntheticOrders (a : AbstractBook) (k : Side × Price) :
    atPlace a.syntheticOrders k = (a.queue k).filter fun o => isSyntheticOrderId o.id := by
  rw [syntheticOrders_eq, ← atPlace_orders, atPlace, atPlace, List.filter_filter,
    List.filter_filter]
  exact List.filter_congr fun o _ => Bool.and_comm _ _

theorem VenueSnapshot.fresh (h : VenueSnapshot orders) : Fresh KeyedQueues.empty orders :=
  ⟨h.nonzero, fun _ _ => KeyedQueues.not_live_empty, h.nodup⟩

/-- The preserved orders are fresh for the book with the snapshot. -/
theorem VenueSnapshot.fresh_syntheticOrders (h : VenueSnapshot orders) (a : AbstractBook) :
    Fresh (addAll KeyedQueues.empty orders).2 a.syntheticOrders where
  nonzero o ho := a.valid (mem_syntheticOrders.mp ho).1
  new o ho := by
    rw [live_addAll h.fresh, not_or]
    refine ⟨KeyedQueues.not_live_empty, fun hmem => ?_⟩
    obtain ⟨x, hx, hid⟩ := List.mem_map.mp hmem
    have hsynthetic := (mem_syntheticOrders.mp ho).2
    rw [← hid, h.venue x hx] at hsynthetic
    exact Bool.false_ne_true hsynthetic
  nodup := a.syntheticOrders_ids_nodup

/-- **A validated snapshot is carried out**: each list is the snapshot's orders, then the preserved
ones. -/
theorem VenueSnapshot.rebuild (h : VenueSnapshot orders) (a : AbstractBook) :
    (rebuild orders a.syntheticOrders).1 =
        .ok ⟨orders.length, a.syntheticOrders.length⟩ ∧
      ∀ k, (AbstractBook.rebuild orders a.syntheticOrders).2.queue k =
        atPlace orders k ++ (a.queue k).filter fun o => isSyntheticOrderId o.id := by
  obtain ⟨hok, hqueue⟩ := addAll_of_fresh h.fresh
  obtain ⟨hok', hqueue'⟩ := addAll_of_fresh (h.fresh_syntheticOrders a)
  rw [AbstractBook.rebuild, hok]
  refine ⟨congrArg (Except.map _) hok', fun k => (hqueue' k).trans ?_⟩
  rw [hqueue, atPlace_syntheticOrders]
  rfl

/-- An overflow while the book is rebuilt shows in the lists it would have. -/
theorem VenueSnapshot.exists_of_rebuildOverflows (h : VenueSnapshot orders) (a : AbstractBook)
    (hover : RebuildOverflows orders a.syntheticOrders) :
    ∃ k, UInt64.size ≤ restingQty
      (atPlace orders k ++ (a.queue k).filter fun o => isSyntheticOrderId o.id) := by
  rcases hover with hover | ⟨-, hover⟩
  · obtain ⟨k, hk⟩ := exists_of_addAllOverflows h.fresh hover
    refine ⟨k, ?_⟩
    rw [KeyedQueues.queue_empty, List.nil_append] at hk
    rw [restingQty_append]
    omega
  · obtain ⟨k, hk⟩ := exists_of_addAllOverflows (h.fresh_syntheticOrders a) hover
    refine ⟨k, ?_⟩
    rwa [(addAll_of_fresh h.fresh).2, KeyedQueues.queue_empty, List.nil_append,
      atPlace_syntheticOrders] at hk

/-- Books with the same synthetic orders in line preserve the same. -/
theorem syntheticOrders_congr {a' : AbstractBook}
    (h : ∀ k, (a.queue k).filter (fun o => isSyntheticOrderId o.id) =
      (a'.queue k).filter fun o => isSyntheticOrderId o.id) :
    a.syntheticOrders = a'.syntheticOrders := by
  have hkeep : KeyedQueues.StaysPut Order.place Order.id (fun o => o.qty ≠ 0)
      (Option.guard fun o => isSyntheticOrderId o.id) := by
    constructor
    · intro x y hxy
      rw [(Option.guard_eq_some_iff.mp hxy).1]
    · intro x y hxy
      rw [(Option.guard_eq_some_iff.mp hxy).1]
    · intro x y hxy hx
      rwa [← (Option.guard_eq_some_iff.mp hxy).1]
  have hbooks : a.filterMap _ hkeep = a'.filterMap _ hkeep := by
    apply KeyedQueues.ext
    funext k
    rw [KeyedQueues.queue_filterMap, KeyedQueues.queue_filterMap, List.filterMap_eq_filter, h k]
  have hladder : ∀ side, (a.ladder side).filter (fun o => isSyntheticOrderId o.id) =
      (a'.ladder side).filter fun o => isSyntheticOrderId o.id := by
    intro side
    rw [← List.filterMap_eq_filter, ← ladder_filterMap hkeep, hbooks, ladder_filterMap]
  rw [syntheticOrders, syntheticOrders, hladder, hladder]

/-- The orders of the book after an accepted snapshot. -/
theorem VenueSnapshot.mem_rebuild (h : VenueSnapshot orders) (a : AbstractBook) :
    o ∈ (AbstractBook.rebuild orders a.syntheticOrders).2 ↔
      o ∈ orders ∨ (o ∈ a ∧ isSyntheticOrderId o.id = true) := by
  rw [KeyedQueues.mem_def, (h.rebuild a).2, List.mem_append, atPlace, List.mem_filter,
    List.mem_filter, decide_eq_true_eq, and_iff_left rfl]
  exact Iff.rfl

/-- A snapshot takes no synthetic order away and adds none. -/
theorem VenueSnapshot.syntheticOrders_rebuild (h : VenueSnapshot orders) (a : AbstractBook) :
    (AbstractBook.rebuild orders a.syntheticOrders).2.syntheticOrders = a.syntheticOrders := by
  refine syntheticOrders_congr fun k => ?_
  have hnone : (atPlace orders k).filter (fun o => isSyntheticOrderId o.id) = [] := by
    refine List.filter_eq_nil_iff.mpr fun o ho hs => ?_
    rw [h.venue o (List.mem_of_mem_filter ho)] at hs
    cases hs
  rw [(h.rebuild a).2, List.filter_append, hnone, List.nil_append, List.filter_filter]
  exact List.filter_congr fun o _ => Bool.and_self _

end AbstractBook

end L4Book
