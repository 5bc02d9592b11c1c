import L4Book.Query
import L4Book.Refinement.Resize

/-!
# Walking a level and reading the book

On a book that represents an abstract one, the level iterator is a loop over the abstract list of
orders, and the two `while let` walks visit the slots of the level in order. Neither runs out of
fuel: a level has at most as many slots as the slab. Every query then has one specification, its
value on the abstract book.

## Main results

* `LevelLaid.forEach_eq`: a `for` loop over a level is a `for` loop over its orders
* `LevelLaid.walk_eq`: the slot walk folds over the slots
* `ordersAt_spec`, `get_spec`, `levelSummary_spec`
-/

namespace L4Book

variable {slab : Slab} {level : Level} {lv : Option Level} {slots : List ℕ} {orders : List Order}
  {p : Option ℕ} {fuel : ℕ} {σ : Type}

/-! ### Fuel -/

/-- A chain has no more cells than the slab has slots. -/
theorem Chain.length_le (hchain : Chain slab.cell p slots none) (hnodup : slots.Nodup) :
    slots.length ≤ slab.length := by
  have hsub : slots.toFinset ⊆ Finset.range slab.length := by
    intro i hi
    obtain ⟨x, hx⟩ := hchain.exists_cell (List.mem_toFinset.mp hi)
    exact Finset.mem_range.mpr (Slab.lt_length_of_cell hx)
  have hcard := Finset.card_le_card hsub
  rwa [List.toFinset_card_of_nodup hnodup, Finset.card_range] at hcard

/-! ### The level iterator -/

theorem OrdersAtLevel.loop_eq (hchain : Chain slab.cell p slots none)
    (horders : slots.map slab.orderAt = orders.map some) (hfuel : slots.length < fuel)
    (acc : σ) (body : Order → σ → Except Fault (ForInStep σ)) :
    OrdersAtLevel.loop body fuel ⟨slab, slots.head?⟩ acc = forIn orders acc body := by
  induction slots generalizing p orders fuel acc with
  | nil =>
    obtain rfl : orders = [] := by simpa using horders.symm
    obtain ⟨n, rfl⟩ := Nat.exists_eq_succ_of_ne_zero (Nat.ne_of_gt hfuel)
    rfl
  | cons i l ih =>
    obtain ⟨⟨x, hx, -, hnext⟩, hl⟩ := hchain
    obtain ⟨n, rfl⟩ := Nat.exists_eq_succ_of_ne_zero (Nat.ne_of_gt (Nat.lt_of_le_of_lt
      (Nat.zero_le _) hfuel))
    cases orders with
    | nil => simp at horders
    | cons o or =>
      obtain ⟨ho, hor⟩ := List.cons_eq_cons.mp horders
      rw [Slab.orderAt_of_cell hx] at ho
      obtain rfl : x.order = o := Option.some.inj ho
      have hstep : OrdersAtLevel.step ⟨slab, some i⟩ = .ok (some (x.order, ⟨slab, x.next⟩)) := by
        rw [OrdersAtLevel.step]
        simp only [Slab.cell_eq_some_iff.mp hx]
      have hnext' : x.next = l.head? := hnext.trans Option.or_none
      rw [OrdersAtLevel.loop, List.head?_cons, hstep, ok_bind, List.forIn_cons]
      refine bind_congr fun r => ?_
      cases r with
      | done acc => rfl
      | yield acc =>
        rw [hnext']
        exact ih hl hor (Nat.lt_of_succ_lt_succ hfuel) acc

/-- **A `for` loop over a level is a `for` loop over its orders.** -/
theorem LevelLaid.forEach_eq (h : LevelLaid slab lv slots orders) (hnodup : slots.Nodup) (acc : σ)
    (body : Order → σ → Except Fault (ForInStep σ)) :
    OrdersAtLevel.forEach ⟨slab, lv.bind Level.head⟩ acc body = forIn orders acc body := by
  have hhead : lv.bind Level.head = slots.head? := by
    rw [h.level_eq]
    by_cases hs : slots = []
    · rw [hs, levelOf_nil]
      rfl
    · rw [levelOf_of_ne_nil hs]
      rfl
  rw [hhead]
  exact OrdersAtLevel.loop_eq h.chain h.orders_eq
    (Nat.lt_succ_of_le (h.chain.length_le hnodup)) acc body

theorem forIn_collect (orders acc : List Order) :
    (forIn orders acc fun order acc => .ok (.yield (acc ++ [order])) : Except Fault (List Order)) =
      .ok (acc ++ orders) := by
  induction orders generalizing acc with
  | nil =>
    rw [List.append_nil]
    rfl
  | cons o l ih =>
    rw [List.forIn_cons, ok_bind]
    show forIn l (acc ++ [o]) _ = _
    rw [ih, List.append_assoc, List.singleton_append]

/-! ### The slot walk -/

theorem Slab.walk_eq (hchain : Chain slab.cell p slots none) (hfuel : slots.length < fuel)
    (acc : σ) (body : ℕ → OrderNode → σ → Except Fault σ) :
    slab.walk body fuel slots.head? acc =
      slots.foldlM (fun acc i => slab.node i "live linked slot" >>= fun x => body i x acc) acc := by
  induction slots generalizing p fuel acc with
  | nil =>
    obtain ⟨n, rfl⟩ := Nat.exists_eq_succ_of_ne_zero (Nat.ne_of_gt hfuel)
    rfl
  | cons i l ih =>
    obtain ⟨⟨x, hx, -, hnext⟩, hl⟩ := hchain
    obtain ⟨n, rfl⟩ := Nat.exists_eq_succ_of_ne_zero (Nat.ne_of_gt (Nat.lt_of_le_of_lt
      (Nat.zero_le _) hfuel))
    have hnext' : x.next = l.head? := hnext.trans Option.or_none
    rw [List.head?_cons, Slab.walk, List.foldlM_cons, Slab.node_eq_ok hx, ok_bind, ok_bind, hnext']
    refine bind_congr fun acc => ?_
    exact ih hl (Nat.lt_of_succ_lt_succ hfuel) acc

/-- **The slot walk folds over the slots of the level.** -/
theorem LevelLaid.walk_eq (h : LevelLaid slab (some level) slots orders) (hnodup : slots.Nodup)
    (acc : σ) (body : ℕ → OrderNode → σ → Except Fault σ) :
    slab.walk body (slab.length + 1) level.head acc =
      slots.foldlM (fun acc i => slab.node i "live linked slot" >>= fun x => body i x acc) acc := by
  have hhead : level.head = slots.head? := by
    rw [(levelOf_eq_some_iff.mp h.level_eq.symm).2]
  rw [hhead]
  exact Slab.walk_eq h.chain (Nat.lt_succ_of_le (h.chain.length_le hnodup)) acc body

/-! ### The queries -/

variable {π : Profile} {b : OrderBook} {a : AbstractBook}

theorem forEach_spec (h : Represents π b a) (side : Side) (price : Price) (acc : σ)
    (body : Order → σ → Except Fault (ForInStep σ)) :
    (b.ordersAtLevel side price).forEach acc body = forIn (a.queue (side, price)) acc body := by
  obtain ⟨slots, h⟩ := h
  exact (h.laid (side, price)).forEach_eq (h.slots_nodup _) acc body

/-- **`orders_at` yields the list at that side and price.** -/
theorem ordersAt_spec (h : Represents π b a) (side : Side) (price : Price) :
    b.ordersAt side price = .ok (a.queue (side, price)) :=
  (forEach_spec h side price _ _).trans (forIn_collect _ [])

/-- **`get` finds the live order with this id.** -/
theorem get_spec (h : Represents π b a) (id : OrderId) : b.get id = .ok (a.find id) := by
  obtain ⟨slots, h⟩ := h
  rw [OrderBook.get]
  cases hlook : b.orderIndex.lookup id with
  | none => rw [KeyedQueues.find_eq_none_iff.mpr (h.lookup_eq_none_iff.mp hlook)]
  | some slot =>
    obtain ⟨x, hx, -, -, hfind⟩ := h.find_of_lookup hlook
    simp only [Slab.cell_eq_some_iff.mp hx, hfind, Option.map_some]

/-- Which orders the book has under which id. -/
theorem get_eq_some_iff (h : Represents π b a) {id : OrderId} {o : Order} :
    b.get id = .ok (some o) ↔ o ∈ a ∧ o.id = id := by
  rw [get_spec h, Except.ok.injEq, KeyedQueues.find_eq_some_iff]

theorem get_self_eq_some_iff (h : Represents π b a) {o : Order} :
    b.get o.id = .ok (some o) ↔ o ∈ a :=
  (get_eq_some_iff h).trans (and_iff_left rfl)

theorem containsKey_spec (h : Represents π b a) (id : OrderId) :
    b.containsKey id = true ↔ a.Live id := by
  obtain ⟨slots, h⟩ := h
  exact h.containsKey_iff

/-- **`level_summary` reports the total modulo `2 ^ 64` and the count** of a level, if there is
one. -/
theorem levelSummary_spec (h : Represents π b a) (side : Side) (price : Price) :
    b.levelSummary side price =
      if a.queue (side, price) = [] then none
      else some (UInt64.ofNat (restingQty (a.queue (side, price))),
        (a.queue (side, price)).length) := by
  obtain ⟨slots, h⟩ := h
  have hlaid := h.laid (side, price)
  have hlevel : (b.levels side)[price]? =
      levelOf (slots (side, price)) (a.queue (side, price)) := hlaid.level_eq
  rw [OrderBook.levelSummary, hlevel]
  by_cases hnil : slots (side, price) = []
  · rw [if_pos (hlaid.nil_iff.mp hnil), hnil, levelOf_nil]
    rfl
  · rw [if_neg (mt hlaid.nil_iff.mpr hnil), levelOf_of_ne_nil hnil, ← hlaid.length_eq]
    rfl

/-- The lists determine the abstract book. -/
theorem Represents.eq_of_ordersAt {b' : OrderBook} {a' : AbstractBook} (h : Represents π b a)
    (h' : Represents π b' a')
    (hsame : ∀ side price, b.ordersAt side price = b'.ordersAt side price) : a = a' := by
  apply KeyedQueues.ext
  funext ⟨side, price⟩
  have heq := hsame side price
  rw [ordersAt_spec h, ordersAt_spec h'] at heq
  exact Except.ok.inj heq

/-! ### Queue position -/

/-- The accumulators after some orders other than the target. -/
def OrderBook.QueueWalk.count (w : OrderBook.QueueWalk) (orders : List Order) :
    OrderBook.QueueWalk :=
  if w.seenTarget then
    { w with
      ordersBehind := w.ordersBehind + orders.length
      qtyBehind := w.qtyBehind + UInt64.ofNat (restingQty orders) }
  else
    { w with
      ordersAhead := w.ordersAhead + orders.length
      qtyAhead := w.qtyAhead + UInt64.ofNat (restingQty orders) }

/-- The sum that the walk is about to add to. -/
def OrderBook.QueueWalk.qty (w : OrderBook.QueueWalk) : Qty :=
  if w.seenTarget then w.qtyBehind else w.qtyAhead

/-- The walk over a stretch of the level without the target, which does not overflow. -/
theorem queueWalk_foldlM {target : ℕ} (horders : slots.map slab.orderAt = orders.map some)
    (htarget : target ∉ slots) (w : OrderBook.QueueWalk)
    (hfits : π = .dev → w.qty.toNat + restingQty orders < UInt64.size) :
    slots.foldlM (fun w i => slab.node i "live linked slot" >>= fun x =>
      OrderBook.QueueWalk.visit π target i x w) w = .ok (w.count orders) := by
  induction slots generalizing orders w with
  | nil =>
    obtain rfl : orders = [] := by simpa using horders.symm
    rw [OrderBook.QueueWalk.count]
    split <;> simp [pure, Except.pure]
  | cons i l ih =>
    cases orders with
    | nil => simp at horders
    | cons o or =>
      obtain ⟨ho, hor⟩ := List.cons_eq_cons.mp horders
      obtain ⟨x, hx, rfl⟩ := Slab.orderAt_eq_some_iff.mp ho
      have hne : i ≠ target := fun heq => htarget (heq ▸ List.mem_cons_self)
      have hl : target ∉ l := fun hmem => htarget (List.mem_cons_of_mem _ hmem)
      rw [restingQty_cons] at hfits
      have hadd : π.addU64 w.qty x.order.qty = .ok (w.qty + x.order.qty) :=
        Profile.addU64_eq_ok fun hπ => by
          have := hfits hπ
          omega
      have hsum : π = .dev → (w.qty + x.order.qty).toNat + restingQty or < UInt64.size := by
        intro hπ
        have := hfits hπ
        have hle := Nat.mod_le (w.qty.toNat + x.order.qty.toNat) (2 ^ 64)
        rw [UInt64.toNat_add]
        omega
      have hassoc : ∀ q : Qty, q + x.order.qty + UInt64.ofNat (restingQty or) =
          q + UInt64.ofNat (x.order.qty.toNat + restingQty or) := by
        intro q
        rw [UInt64.ofNat_add, UInt64.ofNat_toNat, UInt64.add_assoc]
      have hcount : ∀ n : ℕ, n + 1 + or.length = n + (or.length + 1) := by
        intro n
        omega
      rw [List.foldlM_cons, Slab.node_eq_ok hx, ok_bind, OrderBook.QueueWalk.visit, if_neg hne]
      by_cases hseen : w.seenTarget
      · rw [OrderBook.QueueWalk.qty, if_pos hseen] at hadd hsum
        rw [if_pos hseen, hadd, ok_bind, pure_bind,
          ih hor hl _ (by simpa [OrderBook.QueueWalk.qty, hseen] using hsum)]
        simp [OrderBook.QueueWalk.count, hseen, hassoc, hcount]
      · rw [OrderBook.QueueWalk.qty, if_neg hseen] at hadd hsum
        rw [if_neg hseen, hadd, ok_bind, pure_bind,
          ih hor hl _ (by simpa [OrderBook.QueueWalk.qty, hseen] using hsum)]
        simp [OrderBook.QueueWalk.count, hseen, hassoc, hcount]

/-- **`queue_position` splits the level at the order.** No sum of it overflows, and the order is
met on the way. -/
theorem queuePosition_spec (h : Represents π b a) {o : Order} {ol or : List Order}
    (hqueue : a.queue o.place = ol ++ o :: or) :
    b.queuePosition π o.id = .ok (.ok
      { id := some o.id
        side := o.side
        price := o.price
        ordersAhead := ol.length
        qtyAhead := UInt64.ofNat (restingQty ol)
        ordersBehind := or.length
        qtyBehind := UInt64.ofNat (restingQty or)
        levelOrderCount := (ol ++ o :: or).length
        levelTotalQty := UInt64.ofNat (restingQty (ol ++ o :: or)) }) := by
  obtain ⟨slots, h⟩ := h
  have hmem : o ∈ a := KeyedQueues.mem_def.mpr (hqueue ▸ List.mem_append_right _ List.mem_cons_self)
  obtain ⟨slot, -, hslot⟩ := h.exists_slot hmem
  have hlook : b.orderIndex.lookup o.id = some slot := h.index.mpr ⟨o, hslot, rfl⟩
  obtain ⟨x, level, l, r, ol', or', hx, hid, -⟩ := h.locate hlook
  obtain rfl : x.order = o := KeyedQueues.eq_of_key_eq hx.mem hmem hid
  obtain ⟨rfl, rfl⟩ := KeyedQueues.split_unique hx.queue_eq hqueue
  have hfits : π = .dev → restingQty ol' + (x.order.qty.toNat + restingQty or') < UInt64.size := by
    intro hπ
    have hexact := h.exact hπ x.order.place
    rwa [hqueue, restingQty_append, restingQty_cons] at hexact
  have hslots : slot ∉ l ∧ slot ∉ r := by
    have hnot := (List.nodup_cons.mp (List.perm_middle.nodup_iff.mp hx.nodup)).1
    rwa [List.mem_append, not_or] at hnot
  -- ahead of the target, the target, and behind it
  have hfits₁ : π = .dev → 0 + restingQty ol' < UInt64.size := by
    intro hπ
    have := hfits hπ
    omega
  have hfits₂ : π = .dev → 0 + restingQty or' < UInt64.size := by
    intro hπ
    have := hfits hπ
    omega
  have hahead := queueWalk_foldlM hx.left hslots.1 ⟨0, 0, 0, 0, false⟩ hfits₁
  have hbehind := queueWalk_foldlM hx.right hslots.2
    ⟨ol'.length, UInt64.ofNat (restingQty ol'), 0, 0, true⟩ hfits₂
  have hwalk : b.slab.walk (OrderBook.QueueWalk.visit π slot) (b.slab.length + 1) level.head
      ⟨0, 0, 0, 0, false⟩ = .ok ⟨ol'.length, UInt64.ofNat (restingQty ol'), or'.length,
        UInt64.ofNat (restingQty or'), true⟩ := by
    rw [hx.laid.walk_eq hx.nodup, List.foldlM_append, hahead, ok_bind, List.foldlM_cons,
      Slab.node_eq_ok hx.cell, ok_bind, OrderBook.QueueWalk.visit, if_pos rfl, ok_bind]
    simpa [OrderBook.QueueWalk.count] using hbehind
  obtain ⟨-, hlevel⟩ := levelOf_eq_some_iff.mp hx.laid.level_eq.symm
  rw [OrderBook.queuePosition, hlook]
  simp only [Slab.node_eq_ok hx.cell, ok_bind, hx.expectLevel rfl, hwalk, Profile.debugAssert_true]
  rw [hlevel, hx.laid.length_eq]
  rfl

theorem queuePosition_unknown (h : Represents π b a) {id : OrderId} (hlive : ¬ a.Live id) :
    b.queuePosition π id = .ok (.error (.unknownOrderId id)) := by
  obtain ⟨slots, h⟩ := h
  rw [OrderBook.queuePosition, h.lookup_eq_none_iff.mpr hlive]

end L4Book
