import L4Book.AbstractBook
import L4Book.ListSurgery

/-!
# How one level lays out its list of orders

`LevelLaid slab level slots orders` says that `orders` rest, in this order, in the slots `slots`
of the slab, that the slots are chained, and that the level record caches the right ends, count and
total. The total is right modulo `2 ^ 64`, which is all that unchecked `u64` arithmetic promises.

For each of the four ways a level changes there is one lemma: the list surgery of the source does
not fault, and the level it returns lays out the changed list. `LevelLaid.congr` is the frame:
writes to other slots do not matter.

## Main results

* `LevelLaid.congr`
* `LevelLaid.push`, `LevelLaid.unlink`, `LevelLaid.setQty`, `LevelLaid.moveToTail`
-/

namespace L4Book

/-- The level record of a list of orders in these slots; no level at all for no orders. -/
def levelOf (slots : List ℕ) (orders : List Order) : Option Level :=
  if slots = [] then none
  else some ⟨slots.length, UInt64.ofNat (restingQty orders), slots.head?, slots.getLast?⟩

/-- The node of an order with another quantity. -/
def OrderNode.withQty (x : OrderNode) (q : Qty) : OrderNode :=
  { x with order := x.order.withQty q }

/-- A level and its chain of slots lay out a list of orders. -/
structure LevelLaid (slab : Slab) (level : Option Level) (slots : List ℕ) (orders : List Order) :
    Prop where
  orders_eq : slots.map slab.orderAt = orders.map some
  chain : Chain slab.cell none slots none
  level_eq : level = levelOf slots orders

variable {slab slab' : Slab} {level : Level} {lv : Option Level} {slots l r : List ℕ} {slot : ℕ}
  {orders ol or : List Order} {o : Order} {node : OrderNode}

theorem levelOf_nil : levelOf [] orders = none := if_pos rfl

theorem levelOf_of_ne_nil (h : slots ≠ []) :
    levelOf slots orders =
      some ⟨slots.length, UInt64.ofNat (restingQty orders), slots.head?, slots.getLast?⟩ :=
  if_neg h

theorem levelOf_eq_some_iff :
    levelOf slots orders = some level ↔
      slots ≠ [] ∧
        level = ⟨slots.length, UInt64.ofNat (restingQty orders), slots.head?, slots.getLast?⟩ := by
  unfold levelOf
  split <;> simp_all [eq_comm]

namespace LevelLaid

theorem length_eq (h : LevelLaid slab lv slots orders) : slots.length = orders.length := by
  simpa using congrArg List.length h.orders_eq

theorem nil_iff (h : LevelLaid slab lv slots orders) : slots = [] ↔ orders = [] := by
  rw [← List.length_eq_zero_iff, ← List.length_eq_zero_iff, h.length_eq]

theorem exists_order (h : LevelLaid slab lv slots orders) (hi : slot ∈ slots) :
    ∃ o ∈ orders, slab.orderAt slot = some o := by
  have hmem : slab.orderAt slot ∈ orders.map some := h.orders_eq ▸ List.mem_map_of_mem hi
  obtain ⟨o, ho, heq⟩ := List.mem_map.mp hmem
  exact ⟨o, ho, heq.symm⟩

theorem exists_slot (h : LevelLaid slab lv slots orders) (ho : o ∈ orders) :
    ∃ slot ∈ slots, slab.orderAt slot = some o := by
  have hmem : some o ∈ slots.map slab.orderAt := h.orders_eq ▸ List.mem_map_of_mem ho
  exact List.mem_map.mp hmem

theorem slots_nodup (h : LevelLaid slab lv slots orders) (hnodup : orders.Nodup) :
    slots.Nodup := by
  have hmap : (slots.map slab.orderAt).Nodup := by
    rw [h.orders_eq]
    exact hnodup.map (Option.some_injective _)
  exact hmap.of_map

/-- **The frame**: a level depends on its own cells only. -/
theorem congr (h : LevelLaid slab lv slots orders)
    (hcell : ∀ i ∈ slots, slab'.cell i = slab.cell i) : LevelLaid slab' lv slots orders where
  orders_eq := by
    rw [← h.orders_eq]
    refine List.map_congr_left fun i hi => ?_
    rw [Slab.orderAt, Slab.orderAt, hcell i hi]
  chain := h.chain.congr hcell
  level_eq := h.level_eq

/-- A slot of the level, and the order resting in it, split slots and orders at one point. -/
theorem exists_split (h : LevelLaid slab lv slots orders) (hi : slot ∈ slots)
    (ho : slab.orderAt slot = some o) :
    ∃ l r ol or, slots = l ++ slot :: r ∧ orders = ol ++ o :: or ∧
      l.map slab.orderAt = ol.map some ∧ r.map slab.orderAt = or.map some := by
  obtain ⟨l, r, rfl⟩ := List.append_of_mem hi
  have heq := h.orders_eq.symm
  rw [List.map_append, List.map_cons, List.map_eq_append_iff] at heq
  obtain ⟨ol, rest, rfl, hol, hrest⟩ := heq
  obtain ⟨o', or, rfl, ho', hor⟩ := List.map_eq_cons_iff.mp hrest
  obtain rfl : o' = o := Option.some.inj (ho'.trans ho)
  exact ⟨l, r, ol, or, rfl, rfl, hol.symm, hor.symm⟩

/-- The level record to add to: `levels.entry(price).or_insert_with(Level::new)`. -/
theorem getD_new (h : LevelLaid slab lv slots orders) :
    lv.getD Level.new =
      ⟨slots.length, UInt64.ofNat (restingQty orders), slots.head?, slots.getLast?⟩ := by
  rw [h.level_eq]
  by_cases hs : slots = []
  · have ho : orders = [] := h.nil_iff.mp hs
    subst hs ho
    rfl
  · rw [levelOf_of_ne_nil hs]
    rfl

/-- **A new order joins the tail.** -/
theorem push (h : LevelLaid slab lv slots orders) (hnodup : slots.Nodup)
    (hnode : slab.cell slot = some (OrderNode.new o)) (hslot : slot ∉ slots) :
    ∃ slab' level', linkTail slab
        { lv.getD Level.new with
          orderCount := (lv.getD Level.new).orderCount + 1
          totalQty := (lv.getD Level.new).totalQty + o.qty } slot = .ok (slab', level') ∧
      LevelLaid slab' (some level') (slots ++ [slot]) (orders ++ [o]) ∧
      Relinked (slots ++ [slot]) slab slab' := by
  rw [h.getD_new]
  obtain ⟨slab', heq, hchain, hrel⟩ := linkTail_spec
    ⟨slots.length + 1, UInt64.ofNat (restingQty orders) + o.qty, slots.head?, slots.getLast?⟩
    h.chain hnodup rfl rfl hnode rfl rfl hslot
  refine ⟨slab', _, heq, ⟨?_, hchain, ?_⟩, hrel⟩
  · rw [hrel.orderAt_eq, List.map_append, List.map_append, h.orders_eq]
    simp [Slab.orderAt_of_cell hnode, OrderNode.new]
  · rw [levelOf_of_ne_nil (by simp)]
    simp [UInt64.ofNat_add]

/-- Taking one quantity out of a wrapped total. -/
theorem ofNat_total_sub (ol or : List Order) (o : Order) :
    UInt64.ofNat (restingQty (ol ++ o :: or)) - o.qty = UInt64.ofNat (restingQty (ol ++ or)) := by
  simp only [restingQty_append, restingQty_cons, UInt64.ofNat_add, UInt64.ofNat_toNat]
  grind

/-- Replacing one quantity in a wrapped total. -/
theorem ofNat_total_replace (ol or : List Order) (o : Order) (q : Qty) :
    UInt64.ofNat (restingQty (ol ++ o :: or)) - o.qty + q =
      UInt64.ofNat (restingQty (ol ++ o.withQty q :: or)) := by
  simp only [restingQty_append, restingQty_cons, Order.qty_withQty, UInt64.ofNat_add,
    UInt64.ofNat_toNat]
  grind

/-- **An order leaves**, whether it is the head, the tail, in between or alone. -/
theorem unlink (h : LevelLaid slab (some level) (l ++ slot :: r) (ol ++ o :: or))
    (hnodup : (l ++ slot :: r).Nodup) (hl : l.map slab.orderAt = ol.map some)
    (hr : r.map slab.orderAt = or.map some) (hnode : slab.cell slot = some node) :
    ∃ slab' level', L4Book.unlink (slab.set slot none)
        { level with orderCount := level.orderCount - 1, totalQty := level.totalQty - o.qty }
        node.prev node.next = .ok (slab', level') ∧
      LevelLaid slab' (if level'.orderCount = 0 then none else some level') (l ++ r) (ol ++ or) ∧
      Relinked (l ++ r) (slab.set slot none) slab' := by
  have hlen := Slab.lt_length_of_cell hnode
  have hnodup' : slot ∉ l ++ r ∧ (l ++ r).Nodup :=
    List.nodup_cons.mp (List.perm_middle.nodup_iff.mp hnodup)
  have hcell : ∀ i ∈ l ++ r, Slab.cell (slab.set slot none) i = slab.cell i := by
    rw [Slab.cell_set hlen]
    exact update_of_not_mem hnodup'.1 none
  obtain ⟨hprev, hnext⟩ := h.chain.links hnode
  rw [Option.or_none] at hprev hnext
  obtain ⟨hlc, -, hrc⟩ := chain_append.mp h.chain
  obtain ⟨-, hlv⟩ := levelOf_eq_some_iff.mp h.level_eq.symm
  obtain ⟨slab', heq, hchain, hrel⟩ := unlink_spec
    { level with orderCount := level.orderCount - 1, totalQty := level.totalQty - o.qty }
    (hlc.congr fun i hi => hcell i (List.mem_append_left _ hi))
    (hrc.congr fun i hi => hcell i (List.mem_append_right _ hi)) hnodup'.2
    (by rw [hlv]) (by rw [hlv])
  have hprev' : node.prev = l.getLast? := hprev
  have hnext' : node.next = r.head? := hnext
  refine ⟨slab', _, by rw [hprev', hnext']; exact heq, ⟨?_, hchain, ?_⟩, hrel⟩
  · rw [hrel.orderAt_eq, List.map_append, List.map_append, ← hl, ← hr]
    have hat : ∀ i ∈ l ++ r, Slab.orderAt (slab.set slot none) i = slab.orderAt i := by
      intro i hi
      rw [Slab.orderAt, Slab.orderAt, hcell i hi]
    rw [List.map_congr_left fun i hi => hat i (List.mem_append_left _ hi),
      List.map_congr_left fun i hi => hat i (List.mem_append_right _ hi)]
  · have hcount : level.orderCount - 1 = (l ++ r).length := by
      rw [hlv]
      simp
    have htotal : level.totalQty - o.qty = UInt64.ofNat (restingQty (ol ++ or)) := by
      rw [hlv]
      exact ofNat_total_sub ol or o
    unfold levelOf
    simp only [hcount, htotal, List.length_eq_zero_iff]

/-- **An order changes its quantity in place.** -/
theorem setQty (h : LevelLaid slab (some level) (l ++ slot :: r) (ol ++ o :: or))
    (hnodup : (l ++ slot :: r).Nodup) (hl : l.map slab.orderAt = ol.map some)
    (hr : r.map slab.orderAt = or.map some) (hnode : slab.cell slot = some node)
    (ho : node.order = o) (q : Qty) {total : Qty} (htotal : total = level.totalQty - o.qty + q) :
    LevelLaid (slab.set slot (some (node.withQty q)))
      (some { level with totalQty := total }) (l ++ slot :: r)
      (ol ++ o.withQty q :: or) := by
  have hlen := Slab.lt_length_of_cell hnode
  have hnodup' : slot ∉ l ++ r :=
    (List.nodup_cons.mp (List.perm_middle.nodup_iff.mp hnodup)).1
  have hat : ∀ i ∈ l ++ r, Slab.orderAt (slab.set slot
      (some (node.withQty q))) i = slab.orderAt i := by
    rw [Slab.orderAt_set hlen]
    exact update_of_not_mem hnodup' _
  constructor
  · rw [List.map_append, List.map_cons, List.map_append, List.map_cons, ← hl, ← hr,
      List.map_congr_left fun i hi => hat i (List.mem_append_left _ hi),
      List.map_congr_left fun i hi => hat i (List.mem_append_right _ hi), Slab.orderAt_set hlen,
      Function.update_self, ← ho]
    rfl
  · -- the links are not touched: split at the slot, and put the same links back
    obtain ⟨hlc, ⟨x, hx, hprev, hnext⟩, hrc⟩ := chain_append.mp h.chain
    obtain rfl : node = x := Option.some.inj (hnode.symm.trans hx)
    rw [Slab.cell_set hlen]
    refine chain_append.mpr ⟨hlc.congr (update_of_not_mem ?_ _), ⟨_, Function.update_self .., ?_⟩,
      hrc.congr (update_of_not_mem ?_ _)⟩
    · exact fun hi => hnodup' (List.mem_append_left _ hi)
    · exact ⟨hprev, hnext⟩
    · exact fun hi => hnodup' (List.mem_append_right _ hi)
  · obtain ⟨hne, hlv⟩ := levelOf_eq_some_iff.mp h.level_eq.symm
    rw [levelOf_of_ne_nil hne, htotal, hlv, ofNat_total_replace]

/-- **An order moves to the tail.** -/
theorem moveToTail (h : LevelLaid slab (some level) (l ++ slot :: r) (ol ++ o :: or))
    (hnodup : (l ++ slot :: r).Nodup) (hl : l.map slab.orderAt = ol.map some)
    (hr : r.map slab.orderAt = or.map some) :
    ∃ slab' level', L4Book.moveToTail slab level slot = .ok (slab', level') ∧
      LevelLaid slab' (some level') (l ++ r ++ [slot]) (ol ++ or ++ [o]) ∧
      Relinked (l ++ slot :: r) slab slab' := by
  obtain ⟨-, hlv⟩ := levelOf_eq_some_iff.mp h.level_eq.symm
  obtain ⟨slab', heq, hchain, hrel⟩ :=
    moveToTail_spec level h.chain hnodup (by rw [hlv]) (by rw [hlv])
  refine ⟨slab', _, heq, ⟨?_, hchain, ?_⟩, hrel⟩
  · have hslot : slab.orderAt slot = some o := by
      have heq := h.orders_eq
      rw [List.map_append, List.map_append, hl] at heq
      have := List.append_cancel_left heq
      simpa using (List.cons_eq_cons.mp this).1
    simp only [hrel.orderAt_eq, List.map_append, hl, hr, List.map_cons, List.map_nil, hslot]
  · rw [levelOf_of_ne_nil (by simp), hlv]
    have hcount : (l ++ slot :: r).length = (l ++ r ++ [slot]).length := by
      simp
    have htotal : restingQty (ol ++ o :: or) = restingQty (ol ++ or ++ [o]) := by
      simp
      omega
    rw [hcount, htotal]

end LevelLaid

end L4Book
