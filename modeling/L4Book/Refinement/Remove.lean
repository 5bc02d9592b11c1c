import L4Book.Refinement.Add

/-!
# Removing an order refines the abstract book

`remove` on a book that represents an abstract one. It never faults: the order it looks up is where
the index says, its neighbours and its level are there, and no total is smaller than one of its
orders.

## Main definitions

* `Located`: where a resting order stands

## Main results

* `Layout.locate`: the index leads to it
* `Layout.unlinked`
* `remove_spec`
-/

namespace L4Book

variable {π : Profile} {b : OrderBook} {slots : Side × Price → List ℕ} {a : AbstractBook}

/-! ### Finding an order again -/

/-- Where a resting order stands: its slot and node, its level, and the slots and orders on either
side of it. -/
structure Located (b : OrderBook) (slots : Side × Price → List ℕ) (a : AbstractBook) (slot : ℕ)
    (x : OrderNode) (level : Level) (l r : List ℕ) (ol or : List Order) : Prop where
  cell : b.slab.cell slot = some x
  mem : x.order ∈ a
  slots_eq : slots x.order.place = l ++ slot :: r
  queue_eq : a.queue x.order.place = ol ++ x.order :: or
  left : l.map b.slab.orderAt = ol.map some
  right : r.map b.slab.orderAt = or.map some
  level_eq : b.levelAt x.order.place = some level
  laid : LevelLaid b.slab (some level) (l ++ slot :: r) (ol ++ x.order :: or)
  nodup : (l ++ slot :: r).Nodup

theorem Layout.locate (h : Layout π b slots a) {id : OrderId} {slot : ℕ}
    (hlook : b.orderIndex.lookup id = some slot) :
    ∃ x level l r ol or, Located b slots a slot x level l r ol or ∧ x.order.id = id ∧
      a.find id = some x.order := by
  obtain ⟨x, hx, hmem, hid, hfind⟩ := h.find_of_lookup hlook
  have ho := Slab.orderAt_of_cell hx
  obtain ⟨level, hlevel⟩ := h.exists_level hmem
  obtain ⟨l, r, ol, or, hslots, hqueue, hl, hr⟩ :=
    (h.laid x.order.place).exists_split (h.covered ho) ho
  have hlaid := h.laid x.order.place
  have hnodup := h.slots_nodup x.order.place
  rw [hslots] at hlaid hnodup
  rw [hqueue, hlevel] at hlaid
  exact ⟨x, level, l, r, ol, or,
    ⟨hx, hmem, hslots, hqueue, hl, hr, hlevel, hlaid, hnodup⟩, hid, hfind⟩

theorem Located.totalQty {slot : ℕ} {x : OrderNode} {level : Level} {l r : List ℕ}
    {ol or : List Order} (hx : Located b slots a slot x level l r ol or) :
    level.totalQty = UInt64.ofNat (restingQty (a.queue x.order.place)) := by
  rw [hx.queue_eq, (levelOf_eq_some_iff.mp hx.laid.level_eq.symm).2]

theorem Located.expectLevel {slot : ℕ} {x : OrderNode} {level : Level} {l r : List ℕ}
    {ol or : List Order} (hx : Located b slots a slot x level l r ol or) {b₁ : OrderBook}
    (hlevels : b₁.levels = b.levels) (msg : String) :
    b₁.expectLevel x.order.side x.order.price msg = .ok level :=
  expectLevel_eq_ok ((congrFun (OrderBook.levelAt_congr hlevels) _).trans hx.level_eq)

/-- With overflow checks on, no order is larger than its level's total. -/
theorem Located.le_totalQty {slot : ℕ} {x : OrderNode} {level : Level} {l r : List ℕ}
    {ol or : List Order} (hx : Located b slots a slot x level l r ol or)
    (h : Layout π b slots a) (hπ : π = .dev) :
    x.order.qty.toNat ≤ level.totalQty.toNat := by
  have hexact : level.totalQty.toNat = restingQty (a.queue x.order.place) := by
    rw [hx.totalQty]
    exact UInt64.toNat_ofNat_of_lt (h.exact hπ _)
  rw [hexact, hx.queue_eq, restingQty_append, restingQty_cons]
  omega

/-! ### Removing -/

/-- The book after a successful `remove` lays out the abstract book without the order. -/
theorem Layout.unlinked (h : Layout π b slots a) {slot : ℕ} {o : Order} {l r : List ℕ}
    {ol or : List Order} (ho : b.slab.orderAt slot = some o)
    (hslots : slots o.place = l ++ slot :: r) (hqueue : a.queue o.place = ol ++ o :: or)
    {slab₂ : Slab} {lv : Option Level} (hlaid : LevelLaid slab₂ lv (l ++ r) (ol ++ or))
    (hrel : Relinked (l ++ r) (b.slab.set slot none) slab₂) {b' : OrderBook}
    (hslab' : b'.slab = slab₂) (hfree' : b'.freeList = slot :: b.freeList)
    (hindex' : b'.orderIndex = b.orderIndex.erase o.id)
    (hwallet' : b'.walletIndex = (b.unindexWallet o.wallet o.id).walletIndex)
    (hlevel' : b'.levelAt = Function.update b.levelAt o.place lv) :
    Layout π b' (Function.update slots o.place (l ++ r)) (a.resize o.id 0) := by
  have hmem : o ∈ a := h.mem_of_orderAt ho
  obtain ⟨x, hx, -⟩ := Slab.orderAt_eq_some_iff.mp ho
  have hlen := Slab.lt_length_of_cell hx
  have hat : slab₂.orderAt = Function.update b.slab.orderAt slot none := by
    rw [hrel.orderAt_eq, Slab.orderAt_set hlen]
    rfl
  have hqueue' : (a.resize o.id 0).queue o.place = ol ++ or := by
    rw [AbstractBook.queue_resize_split hqueue, AbstractBook.resizeAt_zero rfl]
    simp
  have hnodup : slot ∉ l ++ r := by
    have := h.slots_nodup o.place
    rw [hslots] at this
    exact (List.nodup_cons.mp (List.perm_middle.nodup_iff.mp this)).1
  have hmem_slots : ∀ {i}, i ∈ slots o.place ↔ i ∈ l ++ r ∨ i = slot := by
    intro i
    rw [hslots, List.mem_append, List.mem_cons, List.mem_append]
    tauto
  have hqueue_ne : ∀ k, k ≠ o.place → (a.resize o.id 0).queue k = a.queue k :=
    fun k hk => AbstractBook.queue_resize_of_ne hmem hk
  constructor
  case laid =>
    rw [hslab']
    refine h.laid_update hlevel' (hqueue' ▸ hlaid) hqueue_ne fun k hk i hi => ?_
    have hnot := h.not_mem_slots_of_ne hk hi
    rw [hmem_slots, not_or] at hnot
    rw [hrel.cell_eq hnot.1, Slab.cell_set hlen, Function.update_of_ne hnot.2]
  case covered =>
    rw [hslab']
    exact h.covered_update hat (fun o' ho' => nomatch ho')
      fun i hi hne => (hmem_slots.mp hi).resolve_right hne
  case index =>
    intro id i
    rw [hslab', hat, hindex']
    exact h.indexes.erase ho id i
  case free_nodup =>
    rw [hfree', List.nodup_cons, h.free]
    refine ⟨fun hnone => ?_, h.free_nodup⟩
    rw [Slab.cell_eq_some_iff.mp hx] at hnone
    exact nomatch Option.some.inj hnone
  case free =>
    intro i
    rw [hslab', hfree', hrel.free_iff, List.mem_cons, h.free, List.getElem?_set]
    split
    · rename_i hi
      subst hi
      simp [hlen]
    · rename_i hi
      exact or_iff_right (Ne.symm hi)
  case wallets =>
    intro w id
    rw [hwallet', OrderBook.mem_unindexWallet, h.wallets]
    constructor
    · rintro ⟨⟨o', ho', rfl, rfl⟩, hne⟩
      refine ⟨o', AbstractBook.mem_resize_zero.mpr ⟨ho', fun hid => ?_⟩, rfl, rfl⟩
      have heq : o' = o := KeyedQueues.eq_of_key_eq ho' hmem hid
      exact hne ⟨congrArg Order.wallet heq, hid⟩
    · rintro ⟨o', ho', rfl, rfl⟩
      obtain ⟨ho', hid⟩ := AbstractBook.mem_resize_zero.mp ho'
      exact ⟨⟨o', ho', rfl, rfl⟩, fun hc => hid hc.2⟩
  case wallets_ne =>
    intro w
    rw [hwallet']
    exact OrderBook.unindexWallet_ne (h.wallets_ne w)
  case exact =>
    refine h.exact_update hqueue_ne fun hπ => ?_
    have hplace := h.exact hπ o.place
    rw [hqueue, restingQty_append, restingQty_cons] at hplace
    rw [hqueue', restingQty_append]
    omega

/-- **`remove` deletes exactly the order with this id and returns it.** It cannot fault. -/
theorem remove_spec (h : Represents π b a) (id : OrderId) :
    Returns (OnlyOverflow π False) (b.remove π id) fun r =>
      r.1 = (a.remove id).1 ∧ Represents π r.2 (a.remove id).2 := by
  obtain ⟨slots, h⟩ := h
  unfold OrderBook.remove AbstractBook.remove
  cases hlook : b.orderIndex.lookup id with
  | none =>
    rw [KeyedQueues.find_eq_none_iff.mpr (h.lookup_eq_none_iff.mp hlook)]
    exact ⟨rfl, slots, h⟩
  | some slot =>
    obtain ⟨x, level, l, r, ol, or, hx, rfl, hfind⟩ := h.locate hlook
    rw [hfind]
    have hsub : π.subU64 level.totalQty x.order.qty = .ok (level.totalQty - x.order.qty) :=
      Profile.subU64_eq_ok (hx.le_totalQty h)
    have hexpect : OrderBook.expectLevel { b with
        slab := b.slab.set slot none
        freeList := slot :: b.freeList
        orderIndex := b.orderIndex.erase x.order.id }
        x.order.side x.order.price "level present for resting order" = .ok level :=
      hx.expectLevel rfl _
    obtain ⟨slab₂, level', hunlink, hlaid, hrel⟩ :=
      hx.laid.unlink hx.nodup hx.left hx.right hx.cell
    simp only [Slab.takeNode_eq_ok hx.cell, hexpect, hsub, hunlink, bind, Except.bind, pure,
      Except.pure, returns_ok, true_and]
    refine ⟨_, h.unlinked (Slab.orderAt_of_cell hx.cell) hx.slots_eq hx.queue_eq hlaid hrel
      ?_ ?_ ?_ ?_ ?_⟩
    · simp [OrderBook.unindexWallet]
    · simp [OrderBook.unindexWallet]
    · simp [OrderBook.unindexWallet]
    · simp [OrderBook.unindexWallet]
    · rw [OrderBook.levelAt_congr (OrderBook.levels_unindexWallet ..), OrderBook.levelAt_prune]
      rfl

/-- `self.remove(id).map(|_| ())`, as four callers use it. -/
theorem removeUnit_spec (h : Represents π b a) (id : OrderId) :
    Returns (OnlyOverflow π False)
      (do
        let (r, b) ← b.remove π id
        return (r.map fun _ => (), b) : Except Fault (Reply Unit)) fun r =>
      r.1 = (a.remove id).1.map (fun _ => ()) ∧ Represents π r.2 (a.remove id).2 := by
  refine (remove_spec h id).bind ?_
  rintro ⟨r, b'⟩ ⟨hr, hb'⟩
  exact ⟨congrArg (Except.map fun _ => ()) hr, hb'⟩

end L4Book
