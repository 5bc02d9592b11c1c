import L4Book.AbstractBook

/-!
# Operations by the order they name

An operation names one order. What the book replies to it depends on what it has under that id and
on nothing else, and what an accepted operation does leaves every other order alone. So operations
on different orders do not see each other, and commute unless both stand in the same line.

## Main definitions

* `BookOp.orderId`: the id an operation names
* `BookOp.reply`: what the book replies, given what it has under the id
* `BookOp.effect`: what an accepted operation does

## Main results

* `AbstractBook.applyOp_eq`: an operation is its reply and its effect
* `AbstractBook.find_applyOp_of_ne`: it leaves every other order alone
* `AbstractBook.applyOp_fst_of_ne`, `applyOp_snd_comm`: operations that do not compete commute
-/

namespace L4Book

/-- The id an operation names. -/
def BookOp.orderId : BookOp → OrderId
  | .add order => order.id
  | .remove id => id
  | .updateSize id _ => id
  | .amendSize id _ => id

/-- What the book replies to an operation, given the order it has under the id. -/
def BookOp.reply : BookOp → Option Order → Except BookError Unit
  | .add order, found =>
    if order.qty = 0 then .error .zeroQty
    else if found.isSome then .error (.duplicateOrderId order.id)
    else .ok ()
  | .remove id, none => .error (.unknownOrderId id)
  | .remove _, some _ => .ok ()
  | .updateSize id _, none => .error (.unknownOrderId id)
  | .updateSize _ newQty, some o =>
    if o.qty ≤ newQty then .error (.nonDecreasingSize o.qty newQty) else .ok ()
  | .amendSize id _, none => .error (.unknownOrderId id)
  | .amendSize _ _, some _ => .ok ()

/-- What an accepted operation does. -/
noncomputable def BookOp.effect : BookOp → AbstractBook → AbstractBook
  | .add order, a => (a.add order).2
  | .remove id, a => a.resize id 0
  | .updateSize id newQty, a => a.resize id newQty
  | .amendSize id newQty, a => a.resize id newQty

namespace AbstractBook

variable {a : AbstractBook} {op : BookOp} {id : OrderId} {newQty : Qty} {o : Order}

/-! ### Reply and effect -/

theorem amendSize_of_find (hfind : a.find id = some o) :
    a.amendSize id newQty = (.ok (), a.resize id newQty) := by
  rw [amendSize, amendSizeWithPolicy, hfind]
  by_cases hq : newQty = 0
  · subst hq
    rfl
  · simp only [dif_neg hq]
    exact if_neg fun hlose => absurd hlose.2 (by decide)

/-- **An operation is its reply and its effect.** -/
theorem applyOp_eq (a : AbstractBook) (op : BookOp) :
    a.applyOp op =
      (op.reply (a.find op.orderId),
        if op.reply (a.find op.orderId) = .ok () then op.effect a else a) := by
  cases op with
  | add order =>
    show a.add order = _
    rw [BookOp.effect, BookOp.reply, BookOp.orderId]
    by_cases hq : order.qty = 0
    · simp [add, hq]
    cases hfind : a.find order.id with
    | none =>
      have hl : ¬ a.Live order.id := KeyedQueues.find_eq_none_iff.mp hfind
      simp [add_of_not_live hq hl, hq]
    | some o =>
      have hl : a.Live order.id := KeyedQueues.live_iff_find.mpr ⟨o, hfind⟩
      simp [add, hq, hl]
  | remove id =>
    show ((a.remove id).1.map _, _) = _
    rw [BookOp.effect, BookOp.orderId, remove]
    cases a.find id <;> simp [BookOp.reply, Except.map]
  | updateSize id newQty =>
    show a.updateSize id newQty = _
    rw [BookOp.effect, BookOp.orderId, updateSize]
    cases a.find id with
    | none => simp [BookOp.reply]
    | some o =>
      by_cases hle : o.qty ≤ newQty
      · simp [BookOp.reply, hle]
      · simp [BookOp.reply, hle]
  | amendSize id newQty =>
    show a.amendSize id newQty = _
    rw [BookOp.effect, BookOp.orderId]
    cases hfind : a.find id with
    | none => simp [BookOp.reply, amendSize, amendSizeWithPolicy, hfind]
    | some o => simp [BookOp.reply, amendSize_of_find hfind]

theorem applyOp_fst (a : AbstractBook) (op : BookOp) :
    (a.applyOp op).1 = op.reply (a.find op.orderId) := by
  rw [applyOp_eq]

theorem applyOp_of_accepted (h : op.reply (a.find op.orderId) = .ok ()) :
    a.applyOp op = (.ok (), op.effect a) := by
  rw [applyOp_eq, h, if_pos rfl]

theorem applyOp_of_refused {e : BookError} (h : op.reply (a.find op.orderId) = .error e) :
    a.applyOp op = (.error e, a) := by
  rw [applyOp_eq, h, if_neg (by simp)]

/-- A new order that is accepted stands at the end of its line. -/
theorem queue_effect_add {order : Order}
    (h : (BookOp.add order).reply (a.find order.id) = .ok ()) (k : Side × Price) :
    ((BookOp.add order).effect a).queue k =
      a.queue k ++ if order.place = k then [order] else [] := by
  rw [BookOp.reply] at h
  have hq : order.qty ≠ 0 := by
    intro hq
    rw [if_pos hq] at h
    cases h
  have hl : ¬ a.Live order.id := by
    rw [if_neg hq] at h
    rw [KeyedQueues.live_iff_find]
    rintro ⟨o, hfind⟩
    rw [hfind, Option.isSome_some, if_pos rfl] at h
    cases h
  rw [BookOp.effect, add_of_not_live hq hl, KeyedQueues.queue_push]
  by_cases hk : order.place = k
  · rw [if_pos hk.symm, if_pos hk]
  · rw [if_neg (Ne.symm hk), if_neg hk, List.append_nil]

/-! ### Other orders -/

theorem find_resize_of_ne {id' : OrderId} (h : id' ≠ id) :
    (a.resize id newQty).find id' = a.find id' := by
  have hresize : (a.resize id newQty).find id' = (a.find id').bind (resizeAt id newQty) :=
    KeyedQueues.find_filterMap id'
  rw [hresize]
  cases hfind : a.find id' with
  | none => rfl
  | some o => exact resizeAt_of_ne ((KeyedQueues.find_eq_some_iff.mp hfind).2 ▸ h)

theorem find_add_of_ne {order : Order} (h : id ≠ order.id) :
    (a.add order).2.find id = a.find id := by
  rcases a.add_snd order with heq | ⟨hq, hl, heq⟩
  · rw [heq]
  · rw [heq]
    cases hfind : a.find id with
    | none =>
      rw [KeyedQueues.find_eq_none_iff, KeyedQueues.live_push, not_or]
      exact ⟨KeyedQueues.find_eq_none_iff.mp hfind, Ne.symm h⟩
    | some o =>
      obtain ⟨ho, hid⟩ := KeyedQueues.find_eq_some_iff.mp hfind
      exact KeyedQueues.find_eq_some_iff.mpr ⟨KeyedQueues.mem_push.mpr (Or.inl ho), hid⟩

theorem find_effect_of_ne (h : id ≠ op.orderId) : (op.effect a).find id = a.find id := by
  cases op with
  | add order => exact find_add_of_ne h
  | remove _ => exact find_resize_of_ne h
  | updateSize _ _ => exact find_resize_of_ne h
  | amendSize _ _ => exact find_resize_of_ne h

/-- **An operation leaves every other order alone.** -/
theorem find_applyOp_of_ne (h : id ≠ op.orderId) : (a.applyOp op).2.find id = a.find id := by
  rw [applyOp_eq]
  dsimp only
  split
  · exact find_effect_of_ne h
  · rfl

end AbstractBook

/-! ### Commuting -/

/-- The two operations name the same order, or both add to the same line. -/
def BookOp.Dependent (x y : BookOp) : Prop :=
  x.orderId = y.orderId ∨ ∃ o o', x = .add o ∧ y = .add o' ∧ o.place = o'.place

/-- An operation adds an order, or resizes the one it names. -/
theorem BookOp.effect_cases (op : BookOp) :
    (∃ order, op = .add order) ∨ ∃ newQty, ∀ a, op.effect a = a.resize op.orderId newQty := by
  cases op with
  | add order => exact Or.inl ⟨order, rfl⟩
  | remove id => exact Or.inr ⟨0, fun _ => rfl⟩
  | updateSize id newQty => exact Or.inr ⟨newQty, fun _ => rfl⟩
  | amendSize id newQty => exact Or.inr ⟨newQty, fun _ => rfl⟩

namespace AbstractBook

variable {a : AbstractBook} {x y : BookOp} {id id' : OrderId} {q q' : Qty}

theorem resizeAt_bind_comm (h : id ≠ id') (o : Order) :
    (resizeAt id q o).bind (resizeAt id' q') = (resizeAt id' q' o).bind (resizeAt id q) := by
  by_cases hid : o.id = id
  · have hid' : o.id ≠ id' := hid ▸ h
    rw [resizeAt_of_ne hid', Option.bind_some]
    cases ho : resizeAt id q o with
    | none => rfl
    | some o' =>
      have hkey : o'.id ≠ id' := (resizeAt_staysPut id q).key_eq ho ▸ hid'
      rw [Option.bind_some, resizeAt_of_ne hkey]
  · rw [resizeAt_of_ne hid, Option.bind_some]
    cases ho : resizeAt id' q' o with
    | none => rfl
    | some o' =>
      have hkey : o'.id ≠ id := (resizeAt_staysPut id' q').key_eq ho ▸ hid
      rw [Option.bind_some, resizeAt_of_ne hkey]

theorem resize_comm (h : id ≠ id') :
    (a.resize id q).resize id' q' = (a.resize id' q').resize id q := by
  simp only [resize, KeyedQueues.filterMap_filterMap]
  exact KeyedQueues.filterMap_congr fun o _ => resizeAt_bind_comm h o

/-- Adding one order and resizing another, in either order. -/
theorem effect_add_resize_comm {order : Order} (hid : order.id ≠ id)
    (hx : (BookOp.add order).reply (a.find order.id) = .ok ()) :
    ((BookOp.add order).effect a).resize id q = (BookOp.add order).effect (a.resize id q) := by
  have hx' : (BookOp.add order).reply ((a.resize id q).find order.id) = .ok () := by
    rwa [find_resize_of_ne hid]
  apply KeyedQueues.ext
  funext k
  rw [queue_resize, queue_effect_add hx, queue_effect_add hx', queue_resize,
    List.filterMap_append]
  congr 1
  split
  · rw [List.filterMap_cons_some (resizeAt_of_ne hid), List.filterMap_nil]
  · rfl

/-- Adding two orders to different lines, in either order. -/
theorem effect_add_add_comm {order order' : Order} (hid : order.id ≠ order'.id)
    (hplace : order.place ≠ order'.place)
    (hx : (BookOp.add order).reply (a.find order.id) = .ok ())
    (hy : (BookOp.add order').reply (a.find order'.id) = .ok ()) :
    (BookOp.add order').effect ((BookOp.add order).effect a) =
      (BookOp.add order).effect ((BookOp.add order').effect a) := by
  have hx' : (BookOp.add order).reply (((BookOp.add order').effect a).find order.id) = .ok () := by
    rwa [find_effect_of_ne hid]
  have hne : order'.id ≠ (BookOp.add order).orderId := Ne.symm hid
  have hy' : (BookOp.add order').reply (((BookOp.add order).effect a).find order'.id) =
      .ok () := by
    rwa [find_effect_of_ne hne]
  apply KeyedQueues.ext
  funext k
  rw [queue_effect_add hx', queue_effect_add hy', queue_effect_add hx, queue_effect_add hy]
  by_cases hk : order.place = k
  · have hk' : order'.place ≠ k := fun heq => hplace (hk.trans heq.symm)
    simp only [if_pos hk, if_neg hk', List.append_nil]
  · simp only [if_neg hk, List.append_nil]

/-- **The effects of operations that do not compete commute.** -/
theorem effect_comm (h : ¬ x.Dependent y) (hx : x.reply (a.find x.orderId) = .ok ())
    (hy : y.reply (a.find y.orderId) = .ok ()) :
    y.effect (x.effect a) = x.effect (y.effect a) := by
  obtain ⟨hid, hplace⟩ := not_or.mp h
  rcases x.effect_cases with ⟨order, rfl⟩ | ⟨q, hxq⟩ <;>
    rcases y.effect_cases with ⟨order', rfl⟩ | ⟨q', hyq⟩
  · exact effect_add_add_comm hid (fun heq => hplace ⟨_, _, rfl, rfl, heq⟩) hx hy
  · rw [hyq, hyq]
    exact effect_add_resize_comm hid hx
  · rw [hxq, hxq]
    exact (effect_add_resize_comm (Ne.symm hid) hy).symm
  · rw [hxq, hxq, hyq, hyq]
    exact resize_comm hid

/-- The reply to an operation does not depend on one that names another order. -/
theorem applyOp_fst_of_ne (h : x.orderId ≠ y.orderId) :
    ((a.applyOp x).2.applyOp y).1 = (a.applyOp y).1 := by
  rw [applyOp_fst, applyOp_fst, find_applyOp_of_ne (Ne.symm h)]

/-- **Operations that do not compete commute.** -/
theorem applyOp_snd_comm (h : ¬ x.Dependent y) :
    ((a.applyOp x).2.applyOp y).2 = ((a.applyOp y).2.applyOp x).2 := by
  have hid : x.orderId ≠ y.orderId := fun heq => h (Or.inl heq)
  cases hx : x.reply (a.find x.orderId) with
  | error e =>
    have hx' : x.reply ((a.applyOp y).2.find x.orderId) = .error e := by
      rwa [find_applyOp_of_ne hid]
    rw [applyOp_of_refused hx, applyOp_of_refused hx']
  | ok u =>
    cases hy : y.reply (a.find y.orderId) with
    | error e =>
      have hy' : y.reply ((a.applyOp x).2.find y.orderId) = .error e := by
        rwa [find_applyOp_of_ne (Ne.symm hid)]
      rw [applyOp_of_refused hy, applyOp_of_refused hy']
    | ok u' =>
      have hx' : x.reply ((y.effect a).find x.orderId) = .ok () := by
        rwa [find_effect_of_ne hid]
      have hy' : y.reply ((x.effect a).find y.orderId) = .ok () := by
        rwa [find_effect_of_ne (Ne.symm hid)]
      rw [applyOp_of_accepted hx, applyOp_of_accepted hy, applyOp_of_accepted hx',
        applyOp_of_accepted hy']
      exact effect_comm h hx hy

end AbstractBook

end L4Book
