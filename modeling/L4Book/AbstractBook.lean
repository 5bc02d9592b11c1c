import L4Book.Foundation.KeyedQueues
import L4Book.Types
import Mathlib.Algebra.BigOperators.Group.List.Basic

/-!
# What the order book is for

The abstract book: for each side, a finite map from price to a first-in-first-out list of orders
with globally unique ids and nonzero quantities. There is no slab, no free list, no index and no
cached total. Its operations are the purpose of the concrete ones, in three strokes: an order is
appended to the list at its side and price, an order changes its quantity or goes, or it moves to
the end of its list.

## Main definitions

* `AbstractBook`: keyed queues of orders
* `AbstractBook.resize`, `resizeToTail`: the two ways a live order changes
* `AbstractBook.add`, `remove`, `updateSize`, `amendSizeWithPolicy`: the operations with their
  replies
* `restingQty`: the mathematical sum of the quantities of a list of orders

## Main results

* `AbstractBook.queue_resize_split`, `queue_resize_of_ne`: a resize is local to one order
* `AbstractBook.add_snd`, `remove_snd`, `updateSize_snd`, `amendSizeWithPolicy_snd`: what an
  operation can leave
-/

namespace L4Book

/-- The list an order stands in: its side and price. -/
def Order.place (o : Order) : Side × Price := (o.side, o.price)

/-- The order with another quantity. -/
def Order.withQty (o : Order) (q : Qty) : Order := { o with qty := q }

@[simp] theorem Order.id_withQty (o : Order) (q : Qty) : (o.withQty q).id = o.id := rfl

@[simp] theorem Order.qty_withQty (o : Order) (q : Qty) : (o.withQty q).qty = q := rfl

@[simp] theorem Order.place_withQty (o : Order) (q : Qty) : (o.withQty q).place = o.place := rfl

@[simp] theorem Order.withQty_self (o : Order) : o.withQty o.qty = o := rfl

@[simp] theorem Order.withQty_withQty (o : Order) (q q' : Qty) :
    (o.withQty q).withQty q' = o.withQty q' := rfl

/-- The sum of the quantities of some orders, as a natural number. -/
def restingQty (orders : List Order) : ℕ := (orders.map fun o => o.qty.toNat).sum

@[simp] theorem restingQty_nil : restingQty [] = 0 := rfl

@[simp] theorem restingQty_cons (o : Order) (l : List Order) :
    restingQty (o :: l) = o.qty.toNat + restingQty l := by
  simp [restingQty]

@[simp] theorem restingQty_append (l r : List Order) :
    restingQty (l ++ r) = restingQty l + restingQty r := by
  simp [restingQty]

/-- For each side, a finite map from price to a FIFO list of orders with globally unique ids. -/
abbrev AbstractBook := KeyedQueues Order.place Order.id fun o => o.qty ≠ 0

namespace AbstractBook

open KeyedQueues

/-! ### Changing one order -/

/-- Set the quantity of the order with this id, zero taking the order off the book. -/
def resizeAt (id : OrderId) (newQty : Qty) (o : Order) : Option Order :=
  if o.id = id then if newQty = 0 then none else some (o.withQty newQty) else some o

variable {id : OrderId} {newQty : Qty} {o o' : Order} {a : AbstractBook}

theorem resizeAt_of_ne (h : o.id ≠ id) : resizeAt id newQty o = some o := if_neg h

theorem resizeAt_zero (h : o.id = id) : resizeAt id 0 o = none := by
  simp [resizeAt, h]

theorem resizeAt_of_eq (h : o.id = id) (hq : newQty ≠ 0) :
    resizeAt id newQty o = some (o.withQty newQty) := by
  simp [resizeAt, h, hq]

theorem resizeAt_eq_some_iff :
    resizeAt id newQty o = some o' ↔
      (o.id ≠ id ∧ o' = o) ∨ (o.id = id ∧ newQty ≠ 0 ∧ o' = o.withQty newQty) := by
  unfold resizeAt
  split
  · split <;> simp_all [eq_comm]
  · simp_all [eq_comm]

theorem resizeAt_staysPut (id : OrderId) (newQty : Qty) :
    StaysPut Order.place Order.id (fun o => o.qty ≠ 0) (resizeAt id newQty) where
  place_eq := by
    intro x y h
    rcases resizeAt_eq_some_iff.mp h with ⟨-, rfl⟩ | ⟨-, -, rfl⟩ <;> rfl
  key_eq := by
    intro x y h
    rcases resizeAt_eq_some_iff.mp h with ⟨-, rfl⟩ | ⟨-, -, rfl⟩ <;> rfl
  ok := by
    intro x y h hx
    rcases resizeAt_eq_some_iff.mp h with ⟨-, rfl⟩ | ⟨-, hq, rfl⟩
    · exact hx
    · exact hq

/-- Set the quantity of the order with this id where it stands, zero taking it off the book. -/
def resize (a : AbstractBook) (id : OrderId) (newQty : Qty) : AbstractBook :=
  a.filterMap (resizeAt id newQty) (resizeAt_staysPut id newQty)

theorem queue_resize (k : Side × Price) :
    (a.resize id newQty).queue k = (a.queue k).filterMap (resizeAt id newQty) := rfl

/-- An id that is not in a list leaves the list alone. -/
theorem filterMap_resizeAt_of_not_mem {l : List Order} (h : id ∉ l.map Order.id) :
    l.filterMap (resizeAt id newQty) = l := by
  have hsome : ∀ o ∈ l, resizeAt id newQty o = some o := fun o ho =>
    resizeAt_of_ne fun hid => h (List.mem_map.mpr ⟨o, ho, hid⟩)
  rw [List.filterMap_congr hsome]
  exact List.filterMap_some

theorem ids_split {k : Side × Price} {l r : List Order} (h : a.queue k = l ++ o :: r) :
    o.id ∉ l.map Order.id ∧ o.id ∉ r.map Order.id := by
  have hnodup : ((l ++ o :: r).map Order.id).Nodup := h ▸ a.nodup k
  rw [List.map_append, List.map_cons] at hnodup
  have hperm := (List.perm_middle.nodup_iff.mp hnodup)
  have hnot := (List.nodup_cons.mp hperm).1
  exact ⟨fun hl => hnot (List.mem_append_left _ hl), fun hr => hnot (List.mem_append_right _ hr)⟩

/-- **A resize changes one order in place.** -/
theorem queue_resize_split {k : Side × Price} {l r : List Order} (h : a.queue k = l ++ o :: r) :
    (a.resize o.id newQty).queue k = l ++ (resizeAt o.id newQty o).toList ++ r := by
  obtain ⟨hl, hr⟩ := ids_split h
  rw [queue_resize, h, List.filterMap_append, filterMap_resizeAt_of_not_mem hl]
  cases ho : resizeAt o.id newQty o with
  | none => rw [List.filterMap_cons_none ho, filterMap_resizeAt_of_not_mem hr]; simp
  | some o' => rw [List.filterMap_cons_some ho, filterMap_resizeAt_of_not_mem hr]; simp

/-- **A resize changes no other queue.** -/
theorem queue_resize_of_ne {k : Side × Price} (ho : o ∈ a) (hk : k ≠ o.place) :
    (a.resize o.id newQty).queue k = a.queue k := by
  refine filterMap_resizeAt_of_not_mem fun hid => ?_
  obtain ⟨x, hx, hxid⟩ := List.mem_map.mp hid
  exact hk (a.keyed hx ho hxid)

theorem mem_resize_zero : o ∈ a.resize id 0 ↔ o ∈ a ∧ o.id ≠ id := by
  rw [resize, KeyedQueues.mem_filterMap]
  constructor
  · rintro ⟨x, hx, h⟩
    rcases resizeAt_eq_some_iff.mp h with ⟨hid, rfl⟩ | ⟨-, hq, -⟩
    · exact ⟨hx, hid⟩
    · exact absurd rfl hq
  · rintro ⟨ho, hid⟩
    exact ⟨o, ho, resizeAt_of_ne hid⟩

theorem not_live_resize_zero (a : AbstractBook) (id : OrderId) : ¬ (a.resize id 0).Live id := by
  rintro ⟨o, ho, rfl⟩
  exact (mem_resize_zero.mp ho).2 rfl

/-- Taking an unknown order off the book does nothing. -/
theorem resize_zero_of_not_live (h : ¬ a.Live id) : a.resize id 0 = a :=
  KeyedQueues.filterMap_eq_self fun o ho => resizeAt_of_ne fun hid => h ⟨o, ho, hid⟩

/-- A resize to the current quantity does nothing. -/
theorem resize_self (ho : o ∈ a) : a.resize o.id o.qty = a := by
  refine KeyedQueues.filterMap_eq_self fun x hx => ?_
  by_cases hid : x.id = o.id
  · have hxo : x = o := KeyedQueues.eq_of_key_eq hx ho hid
    subst hxo
    exact resizeAt_of_eq rfl (a.valid ho)
  · exact resizeAt_of_ne hid

/-- Set the quantity of a live order and move it to the end of its list. -/
def resizeToTail (a : AbstractBook) (o : Order) (newQty : Qty) (hq : newQty ≠ 0) :
    AbstractBook :=
  (a.resize o.id 0).push (o.withQty newQty) (by rwa [Order.qty_withQty])
    (by rw [Order.id_withQty]; exact not_live_resize_zero a o.id)

/-- The orders after a resize: the resized one, and the others as they were. -/
theorem mem_resize (ho : o ∈ a) (hq : newQty ≠ 0) :
    o' ∈ a.resize o.id newQty ↔ o' = o.withQty newQty ∨ (o' ∈ a ∧ o'.id ≠ o.id) := by
  rw [resize, KeyedQueues.mem_filterMap]
  constructor
  · rintro ⟨x, hx, h⟩
    rcases resizeAt_eq_some_iff.mp h with ⟨hid, rfl⟩ | ⟨hid, -, rfl⟩
    · exact Or.inr ⟨hx, hid⟩
    · rw [KeyedQueues.eq_of_key_eq hx ho hid]
      exact Or.inl rfl
  · rintro (rfl | ⟨hx, hid⟩)
    · exact ⟨o, ho, resizeAt_of_eq rfl hq⟩
    · exact ⟨o', hx, resizeAt_of_ne hid⟩

theorem mem_resizeToTail (hq : newQty ≠ 0) :
    o' ∈ a.resizeToTail o newQty hq ↔
      o' = o.withQty newQty ∨ (o' ∈ a ∧ o'.id ≠ o.id) := by
  rw [resizeToTail, KeyedQueues.mem_push, mem_resize_zero, or_comm]

/-- **Moving to the tail changes the end of one queue.** -/
theorem queue_resizeToTail_split {hq : newQty ≠ 0} {l r : List Order}
    (h : a.queue o.place = l ++ o :: r) :
    (a.resizeToTail o newQty hq).queue o.place = l ++ r ++ [o.withQty newQty] := by
  have hpush : (a.resizeToTail o newQty hq).queue o.place =
      (a.resize o.id 0).queue o.place ++ [o.withQty newQty] :=
    KeyedQueues.queue_push_self
  rw [hpush, queue_resize_split h, resizeAt_zero rfl]
  simp

theorem queue_resizeToTail_of_ne {hq : newQty ≠ 0} {k : Side × Price} (ho : o ∈ a)
    (hk : k ≠ o.place) : (a.resizeToTail o newQty hq).queue k = a.queue k := by
  have hpush : (a.resizeToTail o newQty hq).queue k = (a.resize o.id 0).queue k :=
    KeyedQueues.queue_push_of_ne hk
  rw [hpush, queue_resize_of_ne ho hk]

/-! ### The operations and their replies -/

open Classical in
/-- Append an order to the list at its side and price. -/
noncomputable def add (a : AbstractBook) (order : Order) : Except BookError Unit × AbstractBook :=
  if hq : order.qty = 0 then (.error .zeroQty, a)
  else if hl : a.Live order.id then (.error (.duplicateOrderId order.id), a)
  else (.ok (), a.push order hq hl)

theorem add_of_not_live {order : Order} (hq : order.qty ≠ 0) (hl : ¬ a.Live order.id) :
    a.add order = (.ok (), a.push order hq hl) := by
  rw [add, dif_neg hq, dif_neg hl]

/-- Take an order off the book. -/
noncomputable def remove (a : AbstractBook) (id : OrderId) :
    Except BookError Order × AbstractBook :=
  match a.find id with
  | none => (.error (.unknownOrderId id), a)
  | some order => (.ok order, a.resize id 0)

/-- Shrink an order in place. -/
noncomputable def updateSize (a : AbstractBook) (id : OrderId) (newQty : Qty) :
    Except BookError Unit × AbstractBook :=
  match a.find id with
  | none => (.error (.unknownOrderId id), a)
  | some order =>
    if order.qty ≤ newQty then (.error (.nonDecreasingSize order.qty newQty), a)
    else (.ok (), a.resize id newQty)

/-- Set the quantity of an order, in place unless it loses its priority. -/
noncomputable def amendSizeWithPolicy (a : AbstractBook) (id : OrderId) (newQty : Qty)
    (policy : AmendPriorityPolicy) : Except BookError Unit × AbstractBook :=
  match a.find id with
  | none => (.error (.unknownOrderId id), a)
  | some order =>
    if hq : newQty = 0 then (.ok (), a.resize id 0)
    else if order.qty < newQty ∧ policy = .losePriorityOnIncrease then
      (.ok (), a.resizeToTail order newQty hq)
    else (.ok (), a.resize id newQty)

/-- Set the quantity of an order in place. -/
noncomputable def amendSize (a : AbstractBook) (id : OrderId) (newQty : Qty) :
    Except BookError Unit × AbstractBook :=
  a.amendSizeWithPolicy id newQty .preserve

/-- Amending an order to nothing removes it. -/
theorem amendSizeWithPolicy_zero (a : AbstractBook) (id : OrderId) (policy : AmendPriorityPolicy) :
    a.amendSizeWithPolicy id 0 policy = ((a.remove id).1.map fun _ => (), (a.remove id).2) := by
  rw [amendSizeWithPolicy, remove]
  cases a.find id with
  | none => rfl
  | some order => rfl

/-- The matching operation. -/
noncomputable def applyOp (a : AbstractBook) : BookOp → Except BookError Unit × AbstractBook
  | .add order => a.add order
  | .remove id => ((a.remove id).1.map fun _ => (), (a.remove id).2)
  | .updateSize id newQty => a.updateSize id newQty
  | .amendSize id newQty => a.amendSize id newQty

/-! ### What an operation can leave -/

/-- A new order is refused or appended. -/
theorem add_snd (a : AbstractBook) (order : Order) :
    (a.add order).2 = a ∨ ∃ hq hl, (a.add order).2 = a.push order hq hl := by
  by_cases hq : order.qty = 0
  · rw [add, dif_pos hq]
    exact Or.inl rfl
  by_cases hl : a.Live order.id
  · rw [add, dif_neg hq, dif_pos hl]
    exact Or.inl rfl
  · rw [add_of_not_live hq hl]
    exact Or.inr ⟨hq, hl, rfl⟩

theorem remove_snd (a : AbstractBook) (id : OrderId) :
    (a.remove id).2 = a ∨ (a.remove id).2 = a.resize id 0 := by
  rw [remove]
  split
  · exact Or.inl rfl
  · exact Or.inr rfl

theorem updateSize_snd (a : AbstractBook) (id : OrderId) (newQty : Qty) :
    (a.updateSize id newQty).2 = a ∨ (a.updateSize id newQty).2 = a.resize id newQty := by
  rw [updateSize]
  split
  · exact Or.inl rfl
  · split
    · exact Or.inl rfl
    · exact Or.inr rfl

/-- An amended order is unknown, changes in place, or moves to the end of its list. -/
theorem amendSizeWithPolicy_snd (a : AbstractBook) (id : OrderId) (newQty : Qty)
    (policy : AmendPriorityPolicy) :
    (a.amendSizeWithPolicy id newQty policy).2 = a ∨
    (a.amendSizeWithPolicy id newQty policy).2 = a.resize id newQty ∨
    ∃ o hq, a.find id = some o ∧ o.qty < newQty ∧ policy = .losePriorityOnIncrease ∧
      (a.amendSizeWithPolicy id newQty policy).2 = a.resizeToTail o newQty hq := by
  rw [amendSizeWithPolicy]
  cases a.find id with
  | none => exact Or.inl rfl
  | some o =>
    by_cases hq : newQty = 0
    · subst hq
      exact Or.inr (Or.inl rfl)
    by_cases hlose : o.qty < newQty ∧ policy = .losePriorityOnIncrease
    · simp only [dif_neg hq, if_pos hlose]
      exact Or.inr (Or.inr ⟨o, hq, rfl, hlose.1, hlose.2, rfl⟩)
    · exact Or.inr (Or.inl (by simp only [dif_neg hq, if_neg hlose]))

theorem amendSize_snd (a : AbstractBook) (id : OrderId) (newQty : Qty) :
    (a.amendSize id newQty).2 = a ∨ (a.amendSize id newQty).2 = a.resize id newQty := by
  rcases amendSizeWithPolicy_snd a id newQty .preserve with h | h | ⟨-, -, -, -, hpolicy, -⟩
  · exact Or.inl h
  · exact Or.inr h
  · exact nomatch hpolicy

end AbstractBook

end L4Book
