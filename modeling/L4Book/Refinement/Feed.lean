import L4Book.Operations
import L4Book.Refinement.Dedupe
import L4Book.Refinement.Snapshot

/-!
# A consistent feed

What the venue says of its own book, read off the diffs of one message: which orders are live, with
which sizes, and which ids have gone. A diff is consistent if the venue can say it from there. A
complete fill comes as two diffs, so an id that has gone may go again, and nothing else.

The decoder's set of removed ids is the venue's set of ids that have gone. So of the diffs that
take one order off exactly the first reaches the book, and the book accepts every operation.

## Main definitions

* `Venue`, `Venue.read`: the venue's view, and what a consistent diff makes of it
* `lastSize`, `restated`: the last size that is stated for an id, and what it makes of an order
* `AbstractBook.follow`: the abstract book after a diff

## Main results

* `Venue.Sees.follow`, `Venue.Sees.op`: the step lemmas, over the diffs and the decoded operations
* `Venue.Sees.queue_follow`: what stands in a line after all diffs
-/

namespace L4Book

/-! ### The venue's view -/

/-- The sizes of the live orders, and the ids that have gone. -/
structure Venue where
  size : OrderId → Option Qty
  gone : Finset OrderId

namespace Venue

/-- The order has this size now. -/
def resize (v : Venue) (oid : OrderId) (newQty : Qty) : Venue :=
  { v with size := Function.update v.size oid (some newQty) }

/-- The order goes, or has gone already. -/
def close (v : Venue) (oid : OrderId) : Option Venue :=
  if (v.size oid).isSome ∨ oid ∈ v.gone then
    some ⟨Function.update v.size oid none, insert oid v.gone⟩
  else none

/-- What a diff makes of the view, if it is consistent with it. -/
def read (v : Venue) : Diff → Option Venue
  | .remove oid => v.close oid
  | .new order _ =>
    if v.size order.id = none ∧ order.id ∉ v.gone ∧ order.qty ≠ 0 then
      some (v.resize order.id order.qty)
    else none
  | .unresolvedNew _ => none
  | .update oid newQty =>
    if newQty = 0 then v.close oid
    else if ∃ current ∈ v.size oid, newQty < current then some (v.resize oid newQty)
    else none
  | .modified oid newQty =>
    if newQty = 0 then v.close oid
    else if (v.size oid).isSome then some (v.resize oid newQty)
    else none
  | .unknown oid => if oid ∈ v.gone then none else some v

/-- Every diff is consistent with what the ones before it have left. -/
def Consistent (v : Venue) (ds : List Diff) : Prop := ∃ v', ds.foldlM read v = some v'

end Venue

/-! ### What the diffs state -/

namespace Diff

/-- The id a diff names. -/
def orderId : Diff → OrderId
  | .remove oid => oid
  | .new order _ => order.id
  | .unresolvedNew oid => oid
  | .update oid _ => oid
  | .modified oid _ => oid
  | .unknown oid => oid

/-- The order a diff opens. -/
def opened : Diff → Option Order
  | .new order _ => some order
  | _ => none

/-- The size a diff states for the order it names, zero when the order goes. -/
def stated : Diff → Option Qty
  | .remove _ => some 0
  | .update _ newQty => some newQty
  | .modified _ newQty => some newQty
  | _ => none

end Diff

/-- The last size that is stated for an id. -/
def lastSize (ds : List Diff) (oid : OrderId) : Option Qty :=
  ((ds.filter fun d => d.orderId = oid).filterMap Diff.stated).getLast?

/-- An order with the last size that is stated for it; an order that has gone is no more. -/
def restated (ds : List Diff) (o : Order) : Option Order :=
  match lastSize ds o.id with
  | none => some o
  | some newQty => if newQty = 0 then none else some (o.withQty newQty)

/-- The abstract book after a diff. -/
noncomputable def AbstractBook.follow (a : AbstractBook) (d : Diff) : AbstractBook :=
  match d with
  | .new order _ => (a.add order).2
  | .remove oid => a.resize oid 0
  | .update oid newQty => a.resize oid newQty
  | .modified oid newQty => a.resize oid newQty
  | .unresolvedNew _ => a
  | .unknown _ => a

variable {v v' : Venue} {a : AbstractBook} {d : Diff} {ds : List Diff} {oid : OrderId}
  {newQty : Qty} {o : Order}

/-- What a diff that states a size can be. -/
theorem Diff.stated_cases (h : d.stated = some newQty) :
    ∃ oid, (d = .remove oid ∧ newQty = 0) ∨ d = .update oid newQty ∨ d = .modified oid newQty := by
  cases d with
  | remove oid => exact ⟨oid, Or.inl ⟨rfl, (Option.some.inj h).symm⟩⟩
  | update oid q => exact ⟨oid, Or.inr (Or.inl (congrArg (Diff.update oid) (Option.some.inj h)))⟩
  | modified oid q =>
    exact ⟨oid, Or.inr (Or.inr (congrArg (Diff.modified oid) (Option.some.inj h)))⟩
  | new order status => cases h
  | unresolvedNew oid => cases h
  | unknown oid => cases h

theorem Diff.stated_of_removes (h : d.removes = some oid) :
    d.orderId = oid ∧ d.stated = some 0 := by
  rcases Diff.removes_cases h with rfl | rfl | rfl <;> exact ⟨rfl, rfl⟩

theorem Diff.removes_of_stated (h : d.stated = some 0) : d.removes = some d.orderId := by
  obtain ⟨oid, ⟨rfl, -⟩ | rfl | rfl⟩ := Diff.stated_cases h <;> rfl

theorem Diff.opened_of_stated (h : d.stated = some newQty) : d.opened = none := by
  obtain ⟨oid, ⟨rfl, -⟩ | rfl | rfl⟩ := Diff.stated_cases h <;> rfl

namespace Venue

theorem close_eq_some_iff : v.close oid = some v' ↔
    ((v.size oid).isSome ∨ oid ∈ v.gone) ∧
      v' = ⟨Function.update v.size oid none, insert oid v.gone⟩ := by
  rw [close]
  split_ifs with h
  · constructor
    · intro heq
      exact ⟨h, (Option.some.inj heq).symm⟩
    · rintro ⟨-, rfl⟩
      rfl
  · constructor
    · intro heq
      cases heq
    · rintro ⟨hlive, -⟩
      exact absurd hlive h

/-- **What a consistent diff can be**: it opens an order, takes one off, resizes a live one, or has
an unknown shape. -/
theorem read_cases (h : v.read d = some v') :
    (∃ order status, d = .new order status ∧ v.size order.id = none ∧ order.id ∉ v.gone ∧
      order.qty ≠ 0 ∧ v' = v.resize order.id order.qty) ∨
    (d.removes = some d.orderId ∧ ((v.size d.orderId).isSome ∨ d.orderId ∈ v.gone) ∧
      v' = ⟨Function.update v.size d.orderId none, insert d.orderId v.gone⟩) ∨
    (∃ newQty current, newQty ≠ 0 ∧ v.size d.orderId = some current ∧
      (d = .update d.orderId newQty ∧ newQty < current ∨ d = .modified d.orderId newQty) ∧
      v' = v.resize d.orderId newQty) ∨
    ∃ oid, d = .unknown oid ∧ oid ∉ v.gone ∧ v' = v := by
  cases d with
  | remove oid =>
    obtain ⟨hlive, rfl⟩ := close_eq_some_iff.mp h
    exact Or.inr (Or.inl ⟨rfl, hlive, rfl⟩)
  | new order status =>
    rw [read] at h
    split_ifs at h with hnew
    obtain rfl := Option.some.inj h
    exact Or.inl ⟨order, status, rfl, hnew.1, hnew.2.1, hnew.2.2, rfl⟩
  | unresolvedNew oid => cases h
  | update oid newQty =>
    rw [read] at h
    split_ifs at h with hq hlt
    · obtain ⟨hlive, rfl⟩ := close_eq_some_iff.mp h
      exact Or.inr (Or.inl ⟨if_pos hq, hlive, rfl⟩)
    · obtain ⟨current, hcurrent, hlt⟩ := hlt
      obtain rfl := Option.some.inj h
      exact Or.inr (Or.inr (Or.inl ⟨newQty, current, hq, hcurrent, Or.inl ⟨rfl, hlt⟩, rfl⟩))
  | modified oid newQty =>
    rw [read] at h
    split_ifs at h with hq hlive
    · obtain ⟨hlive, rfl⟩ := close_eq_some_iff.mp h
      exact Or.inr (Or.inl ⟨if_pos hq, hlive, rfl⟩)
    · obtain ⟨current, hcurrent⟩ := Option.isSome_iff_exists.mp hlive
      obtain rfl := Option.some.inj h
      exact Or.inr (Or.inr (Or.inl ⟨newQty, current, hq, hcurrent, Or.inr rfl, rfl⟩))
  | unknown oid =>
    rw [read] at h
    split_ifs at h with hgone
    obtain rfl := Option.some.inj h
    exact Or.inr (Or.inr (Or.inr ⟨oid, rfl, hgone, rfl⟩))

theorem consistent_cons :
    Consistent v (d :: ds) ↔ ∃ v', v.read d = some v' ∧ Consistent v' ds := by
  simp only [Consistent, List.foldlM_cons, Option.bind_eq_bind, Option.bind_eq_some_iff]
  constructor
  · rintro ⟨v₂, v₁, hd, hds⟩
    exact ⟨v₁, hd, v₂, hds⟩
  · rintro ⟨v₁, hd, v₂, hds⟩
    exact ⟨v₂, v₁, hd, hds⟩

/-- The beginning of a consistent message is consistent. -/
theorem Consistent.of_append {rest : List Diff} (h : Consistent v (ds ++ rest)) :
    Consistent v ds := by
  induction ds generalizing v with
  | nil => exact ⟨v, rfl⟩
  | cons d ds ih =>
    obtain ⟨v', hd, hds⟩ := consistent_cons.mp h
    exact consistent_cons.mpr ⟨v', hd, ih hds⟩

/-! ### Ids that the venue knows -/

/-- The id is live or has gone. -/
def Knows (v : Venue) (oid : OrderId) : Prop := (v.size oid).isSome ∨ oid ∈ v.gone

/-- The id has gone and not come back. -/
def Lost (v : Venue) (oid : OrderId) : Prop := v.size oid = none ∧ oid ∈ v.gone

theorem knows_resize (newQty : Qty) (h : v.Knows oid ∨ oid = d.orderId) :
    (v.resize d.orderId newQty).Knows oid := by
  by_cases hid : oid = d.orderId
  · subst hid
    left
    simp [resize]
  · rcases h.resolve_right hid with h | h
    · left
      simpa [resize, hid] using h
    · exact Or.inr h

theorem knows_close (h : v.Knows oid ∨ oid = d.orderId) :
    Knows ⟨Function.update v.size d.orderId none, insert d.orderId v.gone⟩ oid := by
  by_cases hid : oid = d.orderId
  · exact Or.inr (hid ▸ Finset.mem_insert_self _ _)
  · rcases h.resolve_right hid with h | h
    · left
      simpa [hid] using h
    · exact Or.inr (Finset.mem_insert_of_mem h)

/-- An id stays known, and the id of a diff is known after it, unless its shape is unknown. -/
theorem knows_read (hr : v.read d = some v')
    (h : v.Knows oid ∨ oid = d.orderId ∧ d.stated.isSome) : v'.Knows oid := by
  have h' : v.Knows oid ∨ oid = d.orderId := h.imp_right And.left
  rcases read_cases hr with ⟨order, status, rfl, -, -, -, rfl⟩ | ⟨-, -, rfl⟩ |
    ⟨newQty, current, -, -, -, rfl⟩ | ⟨id, rfl, -, rfl⟩
  · exact knows_resize order.qty h'
  · exact knows_close h'
  · exact knows_resize newQty h'
  · rcases h with h | ⟨-, h⟩
    · exact h
    · cases h

/-- Only an id that is not known is opened. -/
theorem id_ne_of_knows (hds : Consistent v ds) (hknown : v.Knows oid)
    (ho : o ∈ ds.filterMap Diff.opened) : o.id ≠ oid := by
  induction ds generalizing v with
  | nil => exact absurd ho List.not_mem_nil
  | cons d ds ih =>
    obtain ⟨v', hd, hds⟩ := consistent_cons.mp hds
    rcases List.mem_filterMap.mp ho with ⟨x, hx, hox⟩
    rcases List.mem_cons.mp hx with rfl | hx
    · rcases read_cases hd with ⟨order, status, rfl, hsize, hgone, -, -⟩ | ⟨hremoves, -, -⟩ |
        ⟨newQty, current, -, -, ⟨hx, -⟩ | hx, -⟩ | ⟨id, rfl, -, -⟩
      · obtain rfl : order = o := Option.some.inj hox
        rintro rfl
        rcases hknown with h | h
        · rw [hsize] at h
          cases h
        · exact hgone h
      · rw [Diff.opened_of_stated (Diff.stated_of_removes hremoves).2] at hox
        cases hox
      · rw [hx] at hox
        cases hox
      · rw [hx] at hox
        cases hox
      · cases hox
    · exact ih hds (knows_read hd (Or.inl hknown)) (List.mem_filterMap.mpr ⟨x, hx, hox⟩)

/-- **An id that has gone can only go again.** -/
theorem lost_read (hr : v.read d = some v') (h : v.Lost oid) :
    v'.Lost oid ∧ (d.orderId = oid → d.stated = some 0) := by
  obtain ⟨hsize, hgone⟩ := h
  rcases read_cases hr with ⟨order, status, rfl, -, hnew, -, rfl⟩ | ⟨hremoves, -, rfl⟩ |
    ⟨newQty, current, -, hcurrent, -, rfl⟩ | ⟨id, rfl, hid, rfl⟩
  · have hne : oid ≠ order.id := fun heq => hnew (heq ▸ hgone)
    exact ⟨⟨by simpa [resize, hne] using hsize, hgone⟩, fun heq => absurd heq.symm hne⟩
  · refine ⟨⟨?_, Finset.mem_insert_of_mem hgone⟩, fun _ => (Diff.stated_of_removes hremoves).2⟩
    by_cases hid : oid = d.orderId
    · simp [hid]
    · simpa [hid] using hsize
  · have hne : oid ≠ d.orderId := by
      rintro rfl
      rw [hsize] at hcurrent
      cases hcurrent
    exact ⟨⟨by simpa [resize, hne] using hsize, hgone⟩, fun heq => absurd heq.symm hne⟩
  · refine ⟨⟨hsize, hgone⟩, ?_⟩
    rintro rfl
    exact absurd hgone hid

/-- A diff that takes its order off loses its id. -/
theorem lost_of_removes (hr : v.read d = some v') (h : d.removes = some oid) : v'.Lost oid := by
  obtain ⟨rfl, hstated⟩ := Diff.stated_of_removes h
  rcases read_cases hr with ⟨order, status, rfl, -⟩ | ⟨-, -, rfl⟩ |
    ⟨newQty, current, hq, -, ⟨hd, -⟩ | hd, -⟩ | ⟨id, rfl, -, -⟩
  · cases h
  · exact ⟨by simp, Finset.mem_insert_self _ _⟩
  · rw [hd] at hstated
    exact absurd (Option.some.inj hstated) hq
  · rw [hd] at hstated
    exact absurd (Option.some.inj hstated) hq
  · cases h

/-- The sizes that are stated for an id that has gone are zero. -/
theorem eq_zero_of_lost (hds : Consistent v ds) (h : v.Lost oid) (hq : newQty ∈ lastSize ds oid) :
    newQty = 0 := by
  have hall : ∀ d ∈ ds, d.orderId = oid → d.stated = some 0 := by
    clear hq
    induction ds generalizing v with
    | nil => exact fun d hd => absurd hd List.not_mem_nil
    | cons d ds ih =>
      obtain ⟨v', hd, hds⟩ := consistent_cons.mp hds
      obtain ⟨hlost, hzero⟩ := lost_read hd h
      exact List.forall_mem_cons.mpr ⟨hzero, ih hds hlost⟩
  obtain ⟨d, hd, hstated⟩ := List.mem_filterMap.mp (List.mem_of_getLast? hq)
  obtain ⟨hmem, hid⟩ := List.mem_filter.mp hd
  rw [hall d hmem (of_decide_eq_true hid)] at hstated
  exact (Option.some.inj hstated).symm

end Venue

/-! ### The last size -/

theorem lastSize_cons_of_stated (hid : d.orderId = oid) (hq : d.stated = some newQty) :
    lastSize (d :: ds) oid = some ((lastSize ds oid).getD newQty) := by
  rw [lastSize, List.filter_cons_of_pos (by simpa using hid), List.filterMap_cons_some hq,
    List.getLast?_cons]
  rfl

theorem lastSize_cons_of_ne (hid : d.orderId ≠ oid) : lastSize (d :: ds) oid = lastSize ds oid := by
  rw [lastSize, List.filter_cons_of_neg (by simpa using hid), lastSize]

theorem lastSize_cons_of_none (hq : d.stated = none) :
    lastSize (d :: ds) oid = lastSize ds oid := by
  by_cases hid : d.orderId = oid
  · rw [lastSize, List.filter_cons_of_pos (by simpa using hid), List.filterMap_cons_none hq,
      lastSize]
  · exact lastSize_cons_of_ne hid

theorem restated_cons_of_ne (hid : d.orderId ≠ o.id) : restated (d :: ds) o = restated ds o := by
  rw [restated, lastSize_cons_of_ne hid, restated]

theorem restated_cons_of_none (hq : d.stated = none) : restated (d :: ds) = restated ds := by
  funext o
  rw [restated, lastSize_cons_of_none hq, restated]

/-- **Settling with one more diff** is resizing by it, and settling with the others. -/
theorem bind_restated (hq : d.stated = some newQty)
    (hgone : newQty = 0 → ∀ q ∈ lastSize ds d.orderId, q = 0) :
    (AbstractBook.resizeAt d.orderId newQty o).bind (restated ds) = restated (d :: ds) o := by
  by_cases hid : o.id = d.orderId
  · rw [restated, lastSize_cons_of_stated hid.symm hq, hid]
    dsimp only
    by_cases hzero : newQty = 0
    · subst hzero
      have hlast : (lastSize ds d.orderId).getD 0 = 0 := by
        cases hlast : lastSize ds d.orderId with
        | none => rfl
        | some q => exact hgone rfl q hlast
      rw [AbstractBook.resizeAt_zero hid, hlast]
      rfl
    · rw [AbstractBook.resizeAt_of_eq hid hzero, Option.bind_some, restated, Order.id_withQty, hid]
      cases lastSize ds d.orderId with
      | none => exact (if_neg hzero).symm
      | some q => rfl
  · rw [AbstractBook.resizeAt_of_ne hid, Option.bind_some, restated_cons_of_ne (Ne.symm hid)]

/-! ### The venue's view and the book -/

namespace AbstractBook

theorem follow_of_stated (a : AbstractBook) (hq : d.stated = some newQty) :
    a.follow d = a.resize d.orderId newQty := by
  obtain ⟨oid, ⟨rfl, rfl⟩ | rfl | rfl⟩ := Diff.stated_cases hq <;> rfl

/-- A diff leaves every other order alone. -/
theorem find_follow_of_ne (h : oid ≠ d.orderId) : (a.follow d).find oid = a.find oid := by
  cases d with
  | new order status => exact find_add_of_ne h
  | remove id => exact find_resize_of_ne h
  | update id newQty => exact find_resize_of_ne h
  | modified id newQty => exact find_resize_of_ne h
  | unresolvedNew id => rfl
  | unknown id => rfl

theorem find_resize_self (ho : a.find oid = some o) (hq : newQty ≠ 0) :
    (a.resize oid newQty).find oid = some (o.withQty newQty) := by
  have hfind : (a.resize oid newQty).find oid = (a.find oid).bind (resizeAt oid newQty) :=
    KeyedQueues.find_filterMap oid
  rw [hfind, ho]
  exact resizeAt_of_eq (KeyedQueues.find_eq_some_iff.mp ho).2 hq

end AbstractBook

/-- The venue's view is a view of this book. -/
structure Venue.Sees (v : Venue) (a : AbstractBook) : Prop where
  size : ∀ oid, v.size oid = (a.find oid).map Order.qty
  gone : ∀ oid ∈ v.gone, ¬ a.Live oid

namespace Venue

theorem Sees.lost (h : v.Sees a) (hgone : oid ∈ v.gone) : v.Lost oid := by
  refine ⟨?_, hgone⟩
  rw [h.size, KeyedQueues.find_eq_none_iff.mpr (h.gone oid hgone)]
  rfl

/-- Only the id of the diff has to be looked at. -/
theorem sees_of_orderId (h : v.Sees a)
    (hother : ∀ oid ≠ d.orderId, v'.size oid = v.size oid ∧ (oid ∈ v'.gone ↔ oid ∈ v.gone))
    (hsize : v'.size d.orderId = ((a.follow d).find d.orderId).map Order.qty)
    (hgone : d.orderId ∈ v'.gone → ¬ (a.follow d).Live d.orderId) : v'.Sees (a.follow d) where
  size oid := by
    by_cases hid : oid = d.orderId
    · rw [hid, hsize]
    · rw [(hother oid hid).1, h.size, AbstractBook.find_follow_of_ne hid]
  gone oid hoid := by
    by_cases hid : oid = d.orderId
    · subst hid
      exact hgone hoid
    · rw [← KeyedQueues.find_eq_none_iff, AbstractBook.find_follow_of_ne hid,
        KeyedQueues.find_eq_none_iff]
      exact h.gone oid ((hother oid hid).2.mp hoid)

/-- **The view follows the book.** -/
theorem Sees.follow (h : v.Sees a) (hr : v.read d = some v') : v'.Sees (a.follow d) := by
  rcases read_cases hr with ⟨order, status, rfl, hsize, hgone, hq, rfl⟩ | ⟨hremoves, -, rfl⟩ |
    ⟨newQty, current, hq, hcurrent, hd, rfl⟩ | ⟨id, rfl, -, rfl⟩
  · have hl : ¬ a.Live order.id := by
      rw [← KeyedQueues.find_eq_none_iff, ← Option.map_eq_none_iff (f := Order.qty), ← h.size]
      exact hsize
    refine sees_of_orderId h (fun oid hid => ⟨Function.update_of_ne hid _ _, Iff.rfl⟩) ?_
      fun hmem => absurd hmem hgone
    have hfind : (a.push order hq hl).find order.id = some order :=
      KeyedQueues.find_eq_some_iff.mpr ⟨KeyedQueues.mem_push.mpr (Or.inr rfl), rfl⟩
    show Function.update v.size order.id (some order.qty) order.id =
      ((a.add order).2.find order.id).map Order.qty
    rw [AbstractBook.add_of_not_live hq hl, Function.update_self, hfind]
    rfl
  · have hfollow := a.follow_of_stated (Diff.stated_of_removes hremoves).2
    have hl : ¬ (a.follow d).Live d.orderId := by
      rw [hfollow]
      exact AbstractBook.not_live_resize_zero a d.orderId
    refine sees_of_orderId h (fun oid hid => ⟨Function.update_of_ne hid _ _, ?_⟩) ?_ fun _ => hl
    · simp [hid]
    · rw [KeyedQueues.find_eq_none_iff.mpr hl]
      exact Function.update_self _ _ _
  · have hstated : d.stated = some newQty := by
      rcases hd with ⟨hd, -⟩ | hd <;> rw [hd] <;> rfl
    rw [h.size] at hcurrent
    obtain ⟨o, ho, -⟩ := Option.map_eq_some_iff.mp hcurrent
    have hfind : (a.follow d).find d.orderId = some (o.withQty newQty) := by
      rw [a.follow_of_stated hstated]
      exact AbstractBook.find_resize_self ho hq
    refine sees_of_orderId h (fun oid hid => ⟨Function.update_of_ne hid _ _, Iff.rfl⟩) ?_ ?_
    · rw [hfind]
      exact Function.update_self _ _ _
    · intro hmem
      exact absurd (KeyedQueues.live_iff_find.mpr ⟨o, ho⟩) (h.gone _ hmem)
  · exact h

/-- **What the decoder makes of a consistent diff**: nothing, if its order has gone already, or one
operation, which the book accepts. -/
theorem Sees.op (h : v.Sees a) (hr : v.read d = some v') :
    (a.follow d = a ∧ ∀ ds, dedupe v.gone (d :: ds) = dedupe v'.gone ds) ∨
    ∃ op : BookOp, op.reply (a.find op.orderId) = .ok () ∧ op.effect a = a.follow d ∧
      ∀ ds, dedupe v.gone (d :: ds) = op :: dedupe v'.gone ds := by
  rcases read_cases hr with ⟨order, status, rfl, hsize, -, hq, rfl⟩ | ⟨hremoves, hknown, rfl⟩ |
    ⟨newQty, current, hq, hcurrent, hd, rfl⟩ | ⟨id, rfl, -, rfl⟩
  · have hfind : a.find order.id = none := by
      rw [← Option.map_eq_none_iff (f := Order.qty), ← h.size]
      exact hsize
    refine Or.inr ⟨.add order, ?_, rfl, fun ds => dedupe_cons_of_none rfl⟩
    rw [BookOp.orderId, hfind, BookOp.reply, if_neg hq]
    rfl
  · have hfollow := a.follow_of_stated (Diff.stated_of_removes hremoves).2
    by_cases hgone : d.orderId ∈ v.gone
    · refine Or.inl ⟨?_, fun ds => ?_⟩
      · rw [hfollow, AbstractBook.resize_zero_of_not_live (h.gone _ hgone)]
      · rw [dedupe_cons_of_mem hremoves hgone]
        dsimp only
        rw [Finset.insert_eq_of_mem hgone]
    · obtain ⟨o, ho⟩ : ∃ o, a.find d.orderId = some o := by
        have hlive := hknown.resolve_right hgone
        rw [h.size, Option.isSome_map] at hlive
        exact Option.isSome_iff_exists.mp hlive
      refine Or.inr ⟨.remove d.orderId, ?_, hfollow.symm,
        fun ds => dedupe_cons_of_not_mem hremoves hgone⟩
      rw [BookOp.orderId, ho]
      rfl
  · rw [h.size] at hcurrent
    obtain ⟨o, ho, rfl⟩ := Option.map_eq_some_iff.mp hcurrent
    rcases hd with ⟨hd, hlt⟩ | hd
    · rw [hd]
      have hkeeps : (Diff.update d.orderId newQty).removes = none := size_keeps_iff.mpr hq
      refine Or.inr ⟨.updateSize d.orderId newQty, ?_, rfl, fun ds => ?_⟩
      · rw [BookOp.orderId, ho, BookOp.reply, if_neg (UInt64.not_le.mpr hlt)]
      · rw [dedupe_cons_of_none hkeeps, Diff.directOps, if_neg hq]
        rfl
    · rw [hd]
      have hkeeps : (Diff.modified d.orderId newQty).removes = none := size_keeps_iff.mpr hq
      refine Or.inr ⟨.amendSize d.orderId newQty, ?_, rfl, fun ds => ?_⟩
      · rw [BookOp.orderId, ho]
        rfl
      · rw [dedupe_cons_of_none hkeeps, Diff.directOps, if_neg hq]
        rfl
  · exact Or.inl ⟨rfl, fun ds => dedupe_cons_of_none rfl⟩

/-! ### What stands in a line -/

/-- A diff that states a size, ahead of the others. -/
theorem queue_follow_of_stated (hr : v.read d = some v') (hds : Consistent v' ds)
    (hq : d.stated = some newQty) (k : Side × Price) :
    ((a.follow d).queue k ++ AbstractBook.atPlace (ds.filterMap Diff.opened) k).filterMap
        (restated ds) =
      (a.queue k ++ AbstractBook.atPlace (ds.filterMap Diff.opened) k).filterMap
        (restated (d :: ds)) := by
  have hgone : newQty = 0 → ∀ q ∈ lastSize ds d.orderId, q = 0 := by
    rintro rfl q hlast
    exact eq_zero_of_lost hds (lost_of_removes hr (Diff.removes_of_stated hq)) hlast
  rw [a.follow_of_stated hq, AbstractBook.queue_resize, List.filterMap_append,
    List.filterMap_append, List.filterMap_filterMap]
  congr 1
  · exact List.filterMap_congr fun o _ => bind_restated hq hgone
  · refine List.filterMap_congr fun o ho => (restated_cons_of_ne (Ne.symm ?_)).symm
    have hknows : v'.Knows d.orderId := knows_read hr (Or.inr ⟨rfl, by rw [hq]; rfl⟩)
    exact id_ne_of_knows hds hknows (List.mem_filter.mp ho).1

/-- **What stands in a line after a consistent message**: what stood there, then the new orders in
the order of their diffs, each with the last size that is stated for it. -/
theorem Sees.queue_follow (h : v.Sees a) (hds : Consistent v ds) (k : Side × Price) :
    (ds.foldl AbstractBook.follow a).queue k =
      (a.queue k ++ AbstractBook.atPlace (ds.filterMap Diff.opened) k).filterMap
        (restated ds) := by
  induction ds generalizing v a with
  | nil =>
    rw [List.filterMap_nil, AbstractBook.atPlace_nil, List.append_nil]
    exact List.filterMap_some.symm
  | cons d ds ih =>
    obtain ⟨v', hd, hds⟩ := consistent_cons.mp hds
    rw [List.foldl_cons, ih (h.follow hd) hds]
    rcases read_cases hd with ⟨order, status, rfl, hsize, -, hq, -⟩ | ⟨hremoves, -, -⟩ |
      ⟨newQty, current, -, -, hstated, -⟩ | ⟨id, rfl, -, -⟩
    · have hreply : (BookOp.add order).reply (a.find order.id) = .ok () := by
        rw [h.size, Option.map_eq_none_iff] at hsize
        rw [hsize, BookOp.reply, if_neg hq]
        rfl
      have hadd : (a.follow (.new order status)).queue k =
          a.queue k ++ if order.place = k then [order] else [] :=
        AbstractBook.queue_effect_add hreply k
      have hopened : (Diff.new order status).opened = some order := rfl
      rw [hadd, restated_cons_of_none rfl, List.filterMap_cons_some hopened,
        AbstractBook.atPlace_cons, List.append_assoc]
      congr 2
      split_ifs <;> rfl
    · have hstated := (Diff.stated_of_removes hremoves).2
      rw [queue_follow_of_stated hd hds hstated,
        List.filterMap_cons_none (Diff.opened_of_stated hstated)]
    · have hstated : d.stated = some newQty := by
        rcases hstated with ⟨hd, -⟩ | hd <;> rw [hd] <;> rfl
      rw [queue_follow_of_stated hd hds hstated,
        List.filterMap_cons_none (Diff.opened_of_stated hstated)]
    · rw [restated_cons_of_none rfl, List.filterMap_cons_none rfl]
      rfl

end Venue

/-! ### Applying the operations -/

/-- `for op in ops { book.apply_op(op)?; }`. -/
def OrderBook.applyInOrder (π : Profile) (b : OrderBook) :
    List BookOp → Except Fault (Reply Unit)
  | [] => .ok (.ok (), b)
  | op :: ops => do
    let (r, b) ← b.applyOp π op
    match r with
    | .error e => return (.error e, b)
    | .ok () => b.applyInOrder π ops

/-- The true total of a level would not fit a `u64` after some of the diffs. -/
def FollowOverflows (a : AbstractBook) (ds : List Diff) : Prop :=
  ∃ seen rest k, ds = seen ++ rest ∧
    UInt64.size ≤ restingQty ((seen.foldl AbstractBook.follow a).queue k)

/-- An accepted operation that overflows leaves a level that does not fit. -/
theorem exists_of_opOverflows {op : BookOp} (hreply : op.reply (a.find op.orderId) = .ok ())
    (hover : OpOverflows a op) : ∃ k, UInt64.size ≤ restingQty ((op.effect a).queue k) := by
  cases op with
  | add order =>
    obtain ⟨-, -, hsize⟩ := hover
    refine ⟨order.place, ?_⟩
    rw [AbstractBook.queue_effect_add hreply, if_pos rfl, restingQty_append, restingQty_cons]
    omega
  | remove id => exact hover.elim
  | updateSize id newQty => exact hover.elim
  | amendSize id newQty =>
    obtain ⟨o, ho, rfl, hlt, hsize⟩ := hover
    have hne : newQty ≠ 0 := by
      rintro rfl
      exact absurd hlt (UInt64.not_lt.mpr UInt64.zero_le)
    obtain ⟨front, back, hsplit⟩ := List.append_of_mem (show o ∈ a.queue o.place from ho)
    refine ⟨o.place, ?_⟩
    rw [BookOp.effect, AbstractBook.queue_resize_split hsplit,
      AbstractBook.resizeAt_of_eq rfl hne]
    rw [hsplit] at hsize
    simp only [Option.toList_some, restingQty_append, restingQty_cons, restingQty_nil,
      Order.qty_withQty] at hsize ⊢
    have hlt' : o.qty.toNat < newQty.toNat := UInt64.lt_iff_toNat_lt.mp hlt
    omega

variable {π : Profile} {b : OrderBook}

/-- **The book follows a consistent message**, and refuses none of what is decoded from it. -/
theorem applyInOrder_spec (hb : Represents π b a) (h : v.Sees a) (hds : v.Consistent ds) :
    Returns (OnlyOverflow π (FollowOverflows a ds)) (b.applyInOrder π (dedupe v.gone ds)) fun r =>
      r.1 = .ok () ∧ Represents π r.2 (ds.foldl AbstractBook.follow a) := by
  induction ds generalizing v a b with
  | nil => exact ⟨rfl, hb⟩
  | cons d ds ih =>
    obtain ⟨v', hd, hds⟩ := Venue.consistent_cons.mp hds
    have later : FollowOverflows (a.follow d) ds → FollowOverflows a (d :: ds) := by
      rintro ⟨seen, rest, k, rfl, hsize⟩
      exact ⟨d :: seen, rest, k, rfl, hsize⟩
    rcases h.op hd with ⟨hsame, hdedupe⟩ | ⟨op, hreply, heffect, hdedupe⟩
    · rw [hdedupe, List.foldl_cons]
      rw [← hsame] at hb
      exact (ih hb (h.follow hd) hds).mono (fun e he => he.mono later) fun _ hr => hr
    · rw [hdedupe, OrderBook.applyInOrder, List.foldl_cons]
      have now : OpOverflows a op → FollowOverflows a (d :: ds) := by
        intro hover
        obtain ⟨k, hk⟩ := exists_of_opOverflows hreply hover
        rw [heffect] at hk
        exact ⟨[d], ds, k, rfl, hk⟩
      refine ((applyOp_spec hb op).mono (fun e he => he.mono now) fun _ hr => hr).bind ?_
      rintro ⟨r, b'⟩ ⟨hr, hb'⟩
      rw [AbstractBook.applyOp_of_accepted hreply] at hr hb'
      subst hr
      dsimp only at hb' ⊢
      rw [heffect] at hb'
      exact (ih hb' (h.follow hd) hds).mono (fun e he => he.mono later) fun _ hr => hr

end L4Book
