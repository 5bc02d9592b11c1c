import L4Book.Refinement.Remove

/-!
# Changing the size of an order refines the abstract book

`update_size`, `amend_size_with_policy` and `amend_size` on a book that represents an
abstract one. A change of size either leaves the order where it stands or moves it to the tail of
its list; `Layout.requeued` covers both. Growing an order is the second way the book can overflow,
again only when the true level total no longer fits.

## Main results

* `Layout.requeued`
* `updateSize_spec`, `amendSizeWithPolicy_spec`, `amendSize_spec`
-/

namespace L4Book

variable {π : Profile} {b : OrderBook} {slots : Side × Price → List ℕ} {a : AbstractBook}
  {slot : ℕ} {x : OrderNode} {level : Level} {l r : List ℕ} {ol or : List Order}

/-- The book after the order in `slot` has got the quantity `q`, its list rearranged but with the
same orders in the same slots, lays out the abstract book rearranged in the same way. -/
theorem Layout.requeued (h : Layout π b slots a) (hx : Located b slots a slot x level l r ol or)
    (q : Qty) {slab₂ : Slab} {lv : Option Level} {slots' : List ℕ} {orders' : List Order}
    (hat : slab₂.orderAt =
      Function.update b.slab.orderAt slot (some (x.order.withQty q)))
    (hframe : ∀ i, i ∉ slots x.order.place → slab₂.cell i = b.slab.cell i)
    (hfree : ∀ i : ℕ, slab₂[i]? = some none ↔ b.slab[i]? = some none)
    (hlaid : LevelLaid slab₂ lv slots' orders')
    (hslots' : ∀ i, i ∈ slots' ↔ i ∈ slots x.order.place) {a' : AbstractBook}
    (hqueue' : a'.queue x.order.place = orders')
    (hqueue_ne : ∀ k, k ≠ x.order.place → a'.queue k = a.queue k)
    (hmem' : ∀ o, o ∈ a' ↔ o = x.order.withQty q ∨ (o ∈ a ∧ o.id ≠ x.order.id))
    (hexact : π = .dev → restingQty orders' < UInt64.size)
    {b' : OrderBook} (hslab' : b'.slab = slab₂) (hfree' : b'.freeList = b.freeList)
    (hindex' : b'.orderIndex = b.orderIndex) (hwallet' : b'.walletIndex = b.walletIndex)
    (hlevel' : b'.levelAt = Function.update b.levelAt x.order.place lv) :
    Layout π b' (Function.update slots x.order.place slots') a' := by
  have hxo := Slab.orderAt_of_cell hx.cell
  constructor
  case laid =>
    rw [hslab']
    exact h.laid_update hlevel' (hqueue' ▸ hlaid) hqueue_ne fun k hk i hi =>
      hframe i (h.not_mem_slots_of_ne hk hi)
  case covered =>
    rw [hslab']
    refine h.covered_update hat (fun o ho => ?_) fun i hi _ => (hslots' i).mpr hi
    obtain rfl := Option.some.inj ho
    exact ⟨Order.place_withQty _ _, (hslots' slot).mpr (h.covered hxo)⟩
  case index =>
    intro id i
    rw [hslab', hat, hindex']
    exact h.indexes.replace hxo (Order.id_withQty x.order q) id i
  case free_nodup => exact hfree' ▸ h.free_nodup
  case free =>
    intro i
    rw [hslab', hfree', hfree, h.free]
  case wallets =>
    intro w id
    rw [hwallet', h.wallets]
    constructor
    · rintro ⟨o, ho, rfl, rfl⟩
      by_cases hid : o.id = x.order.id
      · rw [KeyedQueues.eq_of_key_eq ho hx.mem hid]
        exact ⟨_, (hmem' _).mpr (Or.inl rfl), rfl, rfl⟩
      · exact ⟨o, (hmem' o).mpr (Or.inr ⟨ho, hid⟩), rfl, rfl⟩
    · rintro ⟨o, ho, rfl, rfl⟩
      rcases (hmem' o).mp ho with rfl | ⟨ho, -⟩
      · exact ⟨x.order, hx.mem, rfl, rfl⟩
      · exact ⟨o, ho, rfl, rfl⟩
  case wallets_ne => exact fun w => hwallet' ▸ h.wallets_ne w
  case exact => exact h.exact_update hqueue_ne fun hπ => hqueue' ▸ hexact hπ

/-- Writing the new quantity into the node. -/
theorem Located.orderAt_setQty (hx : Located b slots a slot x level l r ol or) (q : Qty) :
    Slab.orderAt (b.slab.set slot (some (x.withQty q))) =
      Function.update b.slab.orderAt slot (some (x.order.withQty q)) := by
  rw [Slab.orderAt_set (Slab.lt_length_of_cell hx.cell)]
  rfl

theorem Located.mem_slot (hx : Located b slots a slot x level l r ol or) :
    slot ∈ slots x.order.place := by
  rw [hx.slots_eq]
  simp

theorem Located.cell_setQty (hx : Located b slots a slot x level l r ol or) (q : Qty) {i : ℕ}
    (hi : i ∉ slots x.order.place) :
    Slab.cell (b.slab.set slot (some (x.withQty q))) i =
      b.slab.cell i := by
  rw [Slab.cell_set (Slab.lt_length_of_cell hx.cell)]
  refine Function.update_of_ne ?_ _ _
  rintro rfl
  exact hi hx.mem_slot

theorem Located.free_setQty (hx : Located b slots a slot x level l r ol or) (q : Qty) (i : ℕ) :
    (b.slab.set slot (some (x.withQty q)))[i]? = some none ↔
      b.slab[i]? = some none := by
  have hsome := Slab.cell_eq_some_iff.mp hx.cell
  rw [List.getElem?_set]
  split
  · rename_i hi
    subst hi
    rw [if_pos (Slab.lt_length_of_cell hx.cell), hsome]
    simp
  · exact Iff.rfl

/-- The level total after a change of quantity. -/
theorem Located.restingQty_replace (hx : Located b slots a slot x level l r ol or) (q : Qty) :
    restingQty (ol ++ x.order.withQty q :: or) + x.order.qty.toNat =
      restingQty (a.queue x.order.place) + q.toNat := by
  rw [hx.queue_eq, restingQty_append, restingQty_append, restingQty_cons, restingQty_cons]
  show _ + (q.toNat + _) + _ = _
  omega

/-! ### Shrinking in place -/

/-- The book after a change of quantity in place. -/
theorem Layout.resized (h : Layout π b slots a) (hx : Located b slots a slot x level l r ol or)
    {q : Qty} (hq : q ≠ 0) {total : Qty} (htotal : total = level.totalQty - x.order.qty + q)
    (hexact : π = .dev → restingQty (ol ++ x.order.withQty q :: or) < UInt64.size)
    {b' : OrderBook}
    (hslab' : b'.slab = b.slab.set slot (some (x.withQty q)))
    (hfree' : b'.freeList = b.freeList) (hindex' : b'.orderIndex = b.orderIndex)
    (hwallet' : b'.walletIndex = b.walletIndex)
    (hlevel' : b'.levelAt =
      Function.update b.levelAt x.order.place (some { level with totalQty := total })) :
    Represents π b' (a.resize x.order.id q) := by
  have hlaid := hx.laid.setQty hx.nodup hx.left hx.right hx.cell rfl q htotal
  have hqueue : (a.resize x.order.id q).queue x.order.place =
      ol ++ x.order.withQty q :: or := by
    rw [AbstractBook.queue_resize_split hx.queue_eq, AbstractBook.resizeAt_of_eq rfl hq]
    simp
  refine ⟨_, h.requeued hx q (hx.orderAt_setQty q) (fun i => hx.cell_setQty q)
    (hx.free_setQty q) hlaid ?_ hqueue (fun k => AbstractBook.queue_resize_of_ne hx.mem)
    (fun o => AbstractBook.mem_resize hx.mem hq) hexact hslab' hfree' hindex' hwallet' hlevel'⟩
  intro i
  rw [hx.slots_eq]

/-- The two subtractions of a shrinking level total. -/
theorem Located.shrinkTotal (hx : Located b slots a slot x level l r ol or)
    (h : Layout π b slots a) {q : Qty} (hle : q ≤ x.order.qty) :
    π.subU64 x.order.qty q = .ok (x.order.qty - q) ∧
      π.subU64 level.totalQty (x.order.qty - q) = .ok (level.totalQty - x.order.qty + q) := by
  have hle' : q.toNat ≤ x.order.qty.toNat := UInt64.le_iff_toNat_le.mp hle
  refine ⟨Profile.subU64_eq_ok fun _ => hle', ?_⟩
  have hring : level.totalQty - (x.order.qty - q) = level.totalQty - x.order.qty + q := by
    grind
  rw [← hring]
  refine Profile.subU64_eq_ok fun hπ => ?_
  have htotal := hx.le_totalQty h hπ
  rw [UInt64.toNat_sub_of_le _ _ hle]
  omega

/-- **`update_size` shrinks an order in place**, with zero it removes the order, and it refuses to
grow one. It cannot fault. -/
theorem updateSize_spec (h : Represents π b a) (id : OrderId) (newQty : Qty) :
    Returns (OnlyOverflow π False) (b.updateSize π id newQty) fun r =>
      r.1 = (a.updateSize id newQty).1 ∧ Represents π r.2 (a.updateSize id newQty).2 := by
  obtain ⟨slots, h⟩ := h
  rw [OrderBook.updateSize, AbstractBook.updateSize]
  cases hlook : b.orderIndex.lookup id with
  | none =>
    rw [KeyedQueues.find_eq_none_iff.mpr (h.lookup_eq_none_iff.mp hlook)]
    exact ⟨rfl, slots, h⟩
  | some slot =>
    obtain ⟨x, level, l, r, ol, or, hx, rfl, hfind⟩ := h.locate hlook
    rw [hfind]
    simp only [Slab.node_eq_ok hx.cell, ok_bind]
    by_cases hle : x.order.qty ≤ newQty
    · rw [if_pos hle, if_pos hle]
      exact ⟨rfl, slots, h⟩
    rw [if_neg hle, if_neg hle]
    by_cases hq : newQty = 0
    · subst hq
      have hb : Represents π b a := ⟨slots, h⟩
      have hspec := removeUnit_spec hb x.order.id
      rw [AbstractBook.remove, hfind] at hspec
      rw [if_pos rfl]
      exact hspec
    rw [if_neg hq]
    have hlt : newQty ≤ x.order.qty := UInt64.le_of_lt (UInt64.not_le.mp hle)
    have hexpect : OrderBook.expectLevel { b with
        slab := b.slab.set slot (some (x.withQty newQty)) }
        x.order.side x.order.price "level present" = .ok level := hx.expectLevel rfl _
    obtain ⟨hdelta, htotal⟩ := hx.shrinkTotal h hlt
    have hmodify : b.slab.modifyNode slot "slab slot present"
        (fun n => { n with order := { n.order with qty := newQty } }) =
          .ok (b.slab.set slot (some (x.withQty newQty))) := Slab.modifyNode_eq_ok hx.cell
    simp only [hmodify, hexpect, hdelta, htotal, ok_bind]
    refine ⟨rfl, h.resized hx hq rfl (fun hπ => ?_) (by simp) (by simp) (by simp) (by simp) ?_⟩
    · have hreplace := hx.restingQty_replace newQty
      have hfits := h.exact hπ x.order.place
      have hle' := UInt64.le_iff_toNat_le.mp hlt
      omega
    · exact OrderBook.levelAt_insert ..

/-! ### Amending -/

/-- The true total of the order's level would not fit a `u64` once the order has grown. -/
def AmendOverflows (a : AbstractBook) (id : OrderId) (newQty : Qty) : Prop :=
  ∃ o ∈ a, o.id = id ∧ o.qty < newQty ∧
    UInt64.size ≤ restingQty (a.queue o.place) + (newQty.toNat - o.qty.toNat)

/-- The subtraction and the addition of a growing level total. -/
theorem Located.growTotal (hx : Located b slots a slot x level l r ol or)
    (h : Layout π b slots a) {q : Qty} (hlt : x.order.qty < q) :
    π.subU64 q x.order.qty = .ok (q - x.order.qty) ∧
      Returns (OnlyOverflow π (AmendOverflows a x.order.id q))
        (π.addU64 level.totalQty (q - x.order.qty)) fun total =>
          total = level.totalQty - x.order.qty + q ∧
            (π = .dev → restingQty (ol ++ x.order.withQty q :: or) < UInt64.size) := by
  have hle : x.order.qty ≤ q := UInt64.le_of_lt hlt
  have hle' : x.order.qty.toNat ≤ q.toNat := UInt64.le_iff_toNat_le.mp hle
  have hdelta : (q - x.order.qty).toNat = q.toNat - x.order.qty.toNat :=
    UInt64.toNat_sub_of_le _ _ hle
  refine ⟨Profile.subU64_eq_ok fun _ => hle', ?_⟩
  have hadd := h.addTotal_spec x.order.place (q - x.order.qty)
  rw [hx.level_eq, Option.getD_some, hdelta] at hadd
  refine hadd.mono (fun e he => he.mono fun hover => ⟨x.order, hx.mem, rfl, hlt, hover⟩) ?_
  rintro total ⟨rfl, hexact⟩
  refine ⟨by grind, fun hπ => ?_⟩
  have hreplace := hx.restingQty_replace q
  have hfits := hexact hπ
  omega

/-- What `amend_size_with_policy` does to the level: the order has its new quantity, and stands
where it stood or, after a growth that loses priority, at the end. -/
theorem Located.amendLevel_spec (hx : Located b slots a slot x level l r ol or)
    (h : Layout π b slots a) (q : Qty) (policy : AmendPriorityPolicy) :
    Returns (OnlyOverflow π (AmendOverflows a x.order.id q))
      (OrderBook.amendLevel π (b.slab.set slot (some (x.withQty q))) level slot x.order.qty q
        policy) fun res => ∃ slots' orders',
      LevelLaid res.1 (some res.2) slots' orders' ∧
        Relinked (l ++ slot :: r) (b.slab.set slot (some (x.withQty q))) res.1 ∧
        (∀ i, i ∈ slots' ↔ i ∈ l ++ slot :: r) ∧
        orders' = (if x.order.qty < q ∧ policy = .losePriorityOnIncrease
          then ol ++ or ++ [x.order.withQty q] else ol ++ x.order.withQty q :: or) ∧
        (π = .dev → restingQty orders' < UInt64.size) := by
  have hlaid : ∀ total, total = level.totalQty - x.order.qty + q →
      LevelLaid (b.slab.set slot (some (x.withQty q))) (some { level with totalQty := total })
        (l ++ slot :: r) (ol ++ x.order.withQty q :: or) := fun _ =>
    hx.laid.setQty hx.nodup hx.left hx.right hx.cell rfl q
  rw [OrderBook.amendLevel]
  by_cases hlt : x.order.qty < q
  · rw [if_pos hlt]
    obtain ⟨hdelta, hgrow⟩ := hx.growTotal h hlt
    simp only [hdelta, ok_bind]
    refine hgrow.bind ?_
    rintro total ⟨htotal, hexact⟩
    by_cases hpolicy : policy = .losePriorityOnIncrease
    · have hslot : slot ∉ l ++ r :=
        (List.nodup_cons.mp (List.perm_middle.nodup_iff.mp hx.nodup)).1
      have hat : ∀ i ∈ l ++ r,
          Slab.orderAt (b.slab.set slot (some (x.withQty q))) i = b.slab.orderAt i := by
        rw [hx.orderAt_setQty q]
        exact update_of_not_mem hslot _
      have hl := hx.left
      have hr := hx.right
      rw [← List.map_congr_left fun i hi => hat i (List.mem_append_left _ hi)] at hl
      rw [← List.map_congr_left fun i hi => hat i (List.mem_append_right _ hi)] at hr
      obtain ⟨slab', level', heq, hlaid', hrel⟩ :=
        (hlaid total htotal).moveToTail hx.nodup hl hr
      rw [if_pos hpolicy, if_pos ⟨hlt, hpolicy⟩, heq]
      refine ⟨_, _, hlaid', hrel, fun i => ?_, rfl, fun hπ => ?_⟩
      · simp only [List.mem_append, List.mem_cons, List.not_mem_nil, or_false]
        tauto
      · have hfits := hexact hπ
        rw [restingQty_append, restingQty_cons] at hfits
        rw [restingQty_append, restingQty_append, restingQty_cons, restingQty_nil]
        omega
    · rw [if_neg hpolicy, if_neg (fun hc => hpolicy hc.2)]
      exact ⟨_, _, hlaid total htotal, Relinked.refl _ _, fun _ => Iff.rfl, rfl, hexact⟩
  · rw [if_neg hlt, if_neg (fun hc => hlt hc.1)]
    have hle : q ≤ x.order.qty := UInt64.not_lt.mp hlt
    obtain ⟨hdelta, htotal⟩ := hx.shrinkTotal h hle
    simp only [hdelta, htotal, ok_bind]
    refine ⟨_, _, hlaid _ rfl, Relinked.refl _ _, fun _ => Iff.rfl, rfl, fun hπ => ?_⟩
    have hreplace := hx.restingQty_replace q
    have hfits := h.exact hπ x.order.place
    have hle' := UInt64.le_iff_toNat_le.mp hle
    omega

/-- **`amend_size_with_policy` sets the quantity of an order**, in place unless the order grows
and loses its priority; zero removes the order. -/
theorem amendSizeWithPolicy_spec (h : Represents π b a) (id : OrderId) (newQty : Qty)
    (policy : AmendPriorityPolicy) :
    Returns (OnlyOverflow π (AmendOverflows a id newQty))
      (b.amendSizeWithPolicy π id newQty policy) fun r =>
      r.1 = (a.amendSizeWithPolicy id newQty policy).1 ∧
        Represents π r.2 (a.amendSizeWithPolicy id newQty policy).2 := by
  rw [OrderBook.amendSizeWithPolicy]
  by_cases hq : newQty = 0
  · rw [if_pos hq, hq, AbstractBook.amendSizeWithPolicy_zero]
    exact (removeUnit_spec h id).mono (fun e he => he.mono False.elim) fun _ hr => hr
  rw [if_neg hq, AbstractBook.amendSizeWithPolicy]
  obtain ⟨slots, h⟩ := h
  cases hlook : b.orderIndex.lookup id with
  | none =>
    rw [KeyedQueues.find_eq_none_iff.mpr (h.lookup_eq_none_iff.mp hlook)]
    exact ⟨rfl, slots, h⟩
  | some slot =>
    obtain ⟨x, level, l, r, ol, or, hx, rfl, hfind⟩ := h.locate hlook
    rw [hfind]
    simp only [Slab.node_eq_ok hx.cell, ok_bind, dif_neg hq]
    by_cases heq : x.order.qty = newQty
    · -- the early return of the source is what the general case would do
      subst heq
      rw [if_pos rfl, if_neg fun hc => absurd hc.1 (UInt64.lt_irrefl _),
        AbstractBook.resize_self hx.mem]
      exact ⟨rfl, slots, h⟩
    rw [if_neg heq]
    have hexpect : OrderBook.expectLevel { b with
        slab := b.slab.set slot (some (x.withQty newQty)) }
        x.order.side x.order.price "level present" = .ok level := hx.expectLevel rfl _
    have hmodify : b.slab.modifyNode slot "slab slot present"
        (fun n => { n with order := { n.order with qty := newQty } }) =
          .ok (b.slab.set slot (some (x.withQty newQty))) := Slab.modifyNode_eq_ok hx.cell
    simp only [hmodify, hexpect, ok_bind]
    refine (hx.amendLevel_spec h newQty policy).bind ?_
    rintro ⟨slab₂, level₂⟩ ⟨slots', orders', hlaid, hrel, hmem, horders, hexact⟩
    have hslots : ∀ i, i ∈ slots' ↔ i ∈ slots x.order.place := by
      rw [hx.slots_eq]
      exact hmem
    have hat : slab₂.orderAt =
        Function.update b.slab.orderAt slot (some (x.order.withQty newQty)) := by
      rw [hrel.orderAt_eq]
      exact hx.orderAt_setQty newQty
    have hframe : ∀ i, i ∉ slots x.order.place → slab₂.cell i = b.slab.cell i := by
      intro i hi
      rw [hrel.cell_eq (hx.slots_eq ▸ hi)]
      exact hx.cell_setQty newQty hi
    have hfree : ∀ i : ℕ, slab₂[i]? = some none ↔ b.slab[i]? = some none := fun i =>
      (hrel.free_iff i).trans (hx.free_setQty newQty i)
    by_cases hlose : x.order.qty < newQty ∧ policy = .losePriorityOnIncrease
    · rw [if_pos hlose] at horders
      rw [if_pos hlose]
      refine ⟨rfl, _, h.requeued hx newQty hat hframe hfree hlaid hslots ?_
        (fun k => AbstractBook.queue_resizeToTail_of_ne hx.mem)
        (fun o => AbstractBook.mem_resizeToTail hq) hexact (by simp) (by simp) (by simp) (by simp)
        (OrderBook.levelAt_insert ..)⟩
      rw [horders]
      exact AbstractBook.queue_resizeToTail_split hx.queue_eq
    · rw [if_neg hlose] at horders
      rw [if_neg hlose]
      refine ⟨rfl, _, h.requeued hx newQty hat hframe hfree hlaid hslots ?_
        (fun k => AbstractBook.queue_resize_of_ne hx.mem)
        (fun o => AbstractBook.mem_resize hx.mem hq) hexact (by simp) (by simp) (by simp) (by simp)
        (OrderBook.levelAt_insert ..)⟩
      rw [horders, AbstractBook.queue_resize_split hx.queue_eq,
        AbstractBook.resizeAt_of_eq rfl hq]
      simp

theorem amendSize_spec (h : Represents π b a) (id : OrderId) (newQty : Qty) :
    Returns (OnlyOverflow π (AmendOverflows a id newQty)) (b.amendSize π id newQty) fun r =>
      r.1 = (a.amendSize id newQty).1 ∧ Represents π r.2 (a.amendSize id newQty).2 :=
  amendSizeWithPolicy_spec h id newQty .preserve

end L4Book
