import L4Book.Representation

/-!
# Adding an order refines the abstract book

`add` on a book that represents an abstract one: the reply is the abstract reply, and the book left
behind represents the abstract book after the operation. The only fault is an overflow panic, in a
build that checks for overflow and only when the true level total no longer fits.

Before that, what the helpers of the book do to its price maps and to its wallet index.

## Main results

* `OrderBook.levelAt_insert`, `levelAt_erase`, `mem_indexWallet`, `mem_unindexWallet`
* `Layout.allocSlot_spec`, `Layout.push`
* `add_spec`
-/

namespace L4Book

namespace OrderBook

variable {b : OrderBook} {side : Side} {price : Price} {level : Level} {w w' : WalletId}
  {id id' : OrderId}

/-! ### Levels -/

theorem levelAt_congr {b b' : OrderBook} (h : b'.levels = b.levels) : b'.levelAt = b.levelAt := by
  funext k
  rw [levelAt, levelAt, h]

/-- A map of one side that is changed at one price. -/
theorem levelAt_setLevels {m : LevelMap} {found : Option Level} (hself : m[price]? = found)
    (hne : ∀ price' ≠ price, m[price']? = (b.levels side)[price']?) :
    (b.setLevels side m).levelAt = Function.update b.levelAt (side, price) found := by
  funext ⟨side', price'⟩
  rw [levelAt, levels_setLevels]
  by_cases hs : side' = side
  · subst hs
    rw [if_pos rfl]
    by_cases hp : price' = price
    · subst hp
      rw [Function.update_self]
      exact hself
    · rw [Function.update_of_ne (by simp [hp])]
      exact hne price' hp
  · rw [if_neg hs, Function.update_of_ne (by simp [hs])]
    rfl

theorem levelAt_insert (b : OrderBook) (side : Side) (price : Price) (level : Level) :
    (b.setLevels side ((b.levels side).insert price level)).levelAt =
      Function.update b.levelAt (side, price) (some level) := by
  refine levelAt_setLevels Std.ExtTreeMap.getElem?_insert_self fun price' hp => ?_
  rw [Std.ExtTreeMap.getElem?_insert, if_neg (by simpa using Ne.symm hp)]

theorem levelAt_erase (b : OrderBook) (side : Side) (price : Price) :
    (b.setLevels side ((b.levels side).erase price)).levelAt =
      Function.update b.levelAt (side, price) none := by
  refine levelAt_setLevels Std.ExtTreeMap.getElem?_erase_self fun price' hp => ?_
  rw [Std.ExtTreeMap.getElem?_erase, if_neg (by simpa using Ne.symm hp)]

theorem levelAt_prune (b : OrderBook) (side : Side) (price : Price) (level : Level) :
    (b.setLevels side (if level.orderCount = 0 then (b.levels side).erase price
      else (b.levels side).insert price level)).levelAt =
      Function.update b.levelAt (side, price)
        (if level.orderCount = 0 then none else some level) := by
  split
  · exact levelAt_erase b side price
  · exact levelAt_insert b side price level

/-! ### Wallets -/

theorem mem_indexWallet :
    id' ∈ ((b.indexWallet w id).walletIndex.lookup w').getD ∅ ↔
      id' ∈ (b.walletIndex.lookup w').getD ∅ ∨ (w' = w ∧ id' = id) := by
  unfold indexWallet
  by_cases hw : w' = w
  · subst hw
    simp [or_comm]
  · simp [Finmap.lookup_insert_of_ne _ hw, hw]

theorem indexWallet_ne (h : b.walletIndex.lookup w' ≠ some ∅) :
    (b.indexWallet w id).walletIndex.lookup w' ≠ some ∅ := by
  unfold indexWallet
  by_cases hw : w' = w
  · subst hw
    simp
  · simpa [Finmap.lookup_insert_of_ne _ hw] using h

theorem lookup_unindexWallet_of_ne (hw : w' ≠ w) :
    (b.unindexWallet w id).walletIndex.lookup w' = b.walletIndex.lookup w' := by
  unfold unindexWallet
  split
  · split
    · exact Finmap.lookup_erase_ne hw
    · exact Finmap.lookup_insert_of_ne _ hw
  · rfl

theorem lookup_unindexWallet_self :
    ((b.unindexWallet w id).walletIndex.lookup w).getD ∅ =
      ((b.walletIndex.lookup w).getD ∅).erase id := by
  unfold unindexWallet
  cases hset : b.walletIndex.lookup w with
  | none => simp [hset]
  | some set =>
    by_cases hempty : set.erase id = ∅
    · simp [hempty, Finmap.lookup_erase]
    · simp [hempty, Finmap.lookup_insert]

theorem unindexWallet_ne (h : b.walletIndex.lookup w' ≠ some ∅) :
    (b.unindexWallet w id).walletIndex.lookup w' ≠ some ∅ := by
  by_cases hw : w' = w
  · subst hw
    unfold unindexWallet
    cases hset : b.walletIndex.lookup w' with
    | none => simp [hset]
    | some set =>
      by_cases hempty : set.erase id = ∅
      · simp [hempty, Finmap.lookup_erase]
      · simp [hempty, Finmap.lookup_insert]
  · rwa [lookup_unindexWallet_of_ne hw]

theorem mem_unindexWallet :
    id' ∈ ((b.unindexWallet w id).walletIndex.lookup w').getD ∅ ↔
      id' ∈ (b.walletIndex.lookup w').getD ∅ ∧ ¬ (w' = w ∧ id' = id) := by
  by_cases hw : w' = w
  · subst hw
    rw [lookup_unindexWallet_self, Finset.mem_erase]
    tauto
  · rw [lookup_unindexWallet_of_ne hw]
    tauto

end OrderBook

variable {π : Profile} {b : OrderBook} {slots : Side × Price → List ℕ} {a : AbstractBook}

/-! ### Adding -/

/-- What a freshly allocated slot looks like: empty, in range, and no longer free. -/
theorem Layout.allocSlot_spec (h : Layout π b slots a) :
    ∃ slot free slab, b.allocSlot = (slot, { b with freeList := free, slab := slab }) ∧
      slab[slot]? = some none ∧ slab.cell = b.slab.cell ∧ free.Nodup ∧
      ∀ i, i ∈ free ↔ slab[i]? = some none ∧ i ≠ slot := by
  unfold OrderBook.allocSlot
  have hnodup := h.free_nodup
  have hfree := fun i => h.free (i := i)
  cases hl : b.freeList with
  | nil =>
    rw [hl] at hfree
    refine ⟨b.slab.length, [], b.slab ++ [none], rfl, by simp, ?_, List.nodup_nil, ?_⟩
    · funext i
      rw [Slab.cell, Slab.cell, List.getElem?_append]
      split
      · rfl
      · rename_i hi
        rw [List.getElem?_eq_none (Nat.not_lt.mp hi)]
        cases hj : ([none] : List (Option OrderNode))[i - b.slab.length]? with
        | none => rfl
        | some v => simp_all [List.getElem?_eq_some_iff]
    · intro i
      have hi := hfree i
      rw [List.getElem?_append]
      by_cases hlt : i < b.slab.length
      · simp only [if_pos hlt, ← hi, List.not_mem_nil, false_and]
      · simp only [if_neg hlt, List.not_mem_nil, false_iff, not_and, not_not]
        intro hnone
        have := (List.getElem?_eq_some_iff.mp hnone).1
        simp at this
        omega
  | cons slot rest =>
    rw [hl] at hfree hnodup
    refine ⟨slot, rest, b.slab, rfl, (hfree slot).mp List.mem_cons_self, rfl,
      (List.nodup_cons.mp hnodup).2, fun i => ?_⟩
    rw [← hfree i, List.mem_cons]
    constructor
    · intro hi
      exact ⟨Or.inr hi, fun heq => (List.nodup_cons.mp hnodup).1 (heq ▸ hi)⟩
    · rintro ⟨rfl | hi, hne⟩
      · exact absurd rfl hne
      · exact hi

/-- The true total of the order's level would not fit a `u64` once the order is accepted. -/
def AddOverflows (a : AbstractBook) (order : Order) : Prop :=
  order.qty ≠ 0 ∧ ¬ a.Live order.id ∧
    UInt64.size ≤ restingQty (a.queue order.place) + order.qty.toNat

/-- The book after an accepted `add` lays out the abstract book with the order appended. -/
theorem Layout.push (h : Layout π b slots a) {order : Order} (hq : order.qty ≠ 0)
    (hlive : ¬ a.Live order.id) {slot : ℕ} {free : List ℕ} {slab₁ slab₂ : Slab} {level : Level}
    (hcell : slab₁.cell = Function.update b.slab.cell slot (some (OrderNode.new order)))
    (hslot : b.slab.cell slot = none) (hnodup : free.Nodup)
    (hfree : ∀ i, i ∈ free ↔ slab₁[i]? = some none)
    (hlaid : LevelLaid slab₂ (some level) (slots order.place ++ [slot])
      (a.queue order.place ++ [order]))
    (hrel : Relinked (slots order.place ++ [slot]) slab₁ slab₂)
    (hexact : π = .dev → restingQty (a.queue order.place) + order.qty.toNat < UInt64.size)
    {b' : OrderBook} (hslab' : b'.slab = slab₂) (hfree' : b'.freeList = free)
    (hindex' : b'.orderIndex = b.orderIndex.insert order.id slot)
    (hwallet' : b'.walletIndex = (b.indexWallet order.wallet order.id).walletIndex)
    (hlevel' : b'.levelAt = Function.update b.levelAt order.place (some level)) :
    Layout π b' (Function.update slots order.place (slots order.place ++ [slot]))
      (a.push order hq hlive) := by
  have hat : slab₂.orderAt = Function.update b.slab.orderAt slot (some order) := by
    rw [hrel.orderAt_eq]
    funext i
    rw [Slab.orderAt, hcell]
    by_cases hi : i = slot
    · subst hi
      simp [OrderNode.new]
    · rw [Function.update_of_ne hi, Function.update_of_ne hi]
      rfl
  have hnone : b.slab.orderAt slot = none := by
    rw [Slab.orderAt, hslot]
    rfl
  have hqueue : (a.push order hq hlive).queue order.place = a.queue order.place ++ [order] :=
    KeyedQueues.queue_push_self
  have hqueue_ne : ∀ k, k ≠ order.place → (a.push order hq hlive).queue k = a.queue k :=
    fun k hk => KeyedQueues.queue_push_of_ne hk
  constructor
  case laid =>
    rw [hslab']
    refine h.laid_update hlevel' (hqueue ▸ hlaid) hqueue_ne fun k hk i hi => ?_
    have hslot_ne : i ≠ slot := fun heq => h.not_mem_slots hnone (heq ▸ hi)
    have hmem : i ∉ slots order.place ++ [slot] := by
      rw [List.mem_append, List.mem_singleton, not_or]
      exact ⟨h.not_mem_slots_of_ne hk hi, hslot_ne⟩
    rw [hrel.cell_eq hmem, hcell, Function.update_of_ne hslot_ne]
  case covered =>
    rw [hslab']
    refine h.covered_update hat (fun o ho => ?_) fun i hi _ => List.mem_append_left _ hi
    obtain rfl := Option.some.inj ho
    exact ⟨rfl, List.mem_append_right _ (List.mem_singleton_self slot)⟩
  case index =>
    intro id i
    rw [hslab', hat, hindex']
    refine h.indexes.insert hnone (fun j o ho hid => ?_) id i
    exact hlive ⟨o, h.mem_of_orderAt ho, hid⟩
  case free_nodup => exact hfree' ▸ hnodup
  case free =>
    intro i
    rw [hslab', hfree', hrel.free_iff]
    exact hfree i
  case wallets =>
    intro w id
    rw [hwallet', OrderBook.mem_indexWallet, h.wallets]
    constructor
    · rintro (⟨o, ho, hid, hw⟩ | ⟨rfl, rfl⟩)
      · exact ⟨o, KeyedQueues.mem_push.mpr (Or.inl ho), hid, hw⟩
      · exact ⟨order, KeyedQueues.mem_push.mpr (Or.inr rfl), rfl, rfl⟩
    · rintro ⟨o, ho, rfl, rfl⟩
      rcases KeyedQueues.mem_push.mp ho with ho | rfl
      · exact Or.inl ⟨o, ho, rfl, rfl⟩
      · exact Or.inr ⟨rfl, rfl⟩
  case wallets_ne =>
    intro w
    rw [hwallet']
    exact OrderBook.indexWallet_ne (h.wallets_ne w)
  case exact =>
    refine h.exact_update hqueue_ne fun hπ => ?_
    rw [hqueue]
    simpa using hexact hπ

/-- The addition to a level total: the one place where `add` can overflow. -/
theorem Layout.addTotal_spec (h : Layout π b slots a) (k : Side × Price) (q : Qty) :
    Returns (OnlyOverflow π (UInt64.size ≤ restingQty (a.queue k) + q.toNat))
      (π.addU64 ((b.levelAt k).getD Level.new).totalQty q) fun total =>
        total = ((b.levelAt k).getD Level.new).totalQty + q ∧
          (π = .dev → restingQty (a.queue k) + q.toNat < UInt64.size) := by
  have htotal : π = .dev →
      (((b.levelAt k).getD Level.new).totalQty).toNat = restingQty (a.queue k) := by
    intro hπ
    rw [(h.laid k).getD_new]
    exact UInt64.toNat_ofNat_of_lt (h.exact hπ k)
  unfold Profile.addU64
  split
  · rename_i hover
    rw [htotal hover.1] at hover
    exact ⟨rfl, hover.1, hover.2⟩
  · rename_i hfits
    refine ⟨rfl, fun hπ => ?_⟩
    rw [htotal hπ] at hfits
    exact Nat.lt_of_not_le fun hle => hfits ⟨hπ, hle⟩

/-- **`add` appends the order to the list at its side and price**, or refuses it. -/
theorem add_spec (h : Represents π b a) (order : Order) :
    Returns (OnlyOverflow π (AddOverflows a order)) (b.add π order) fun r =>
      r.1 = (a.add order).1 ∧ Represents π r.2 (a.add order).2 := by
  obtain ⟨slots, h⟩ := h
  unfold OrderBook.add AbstractBook.add
  by_cases hq : order.qty = 0
  · rw [if_pos hq, dif_pos hq]
    exact ⟨rfl, slots, h⟩
  by_cases hl : a.Live order.id
  · rw [if_neg hq, dif_neg hq, if_pos (h.containsKey_iff.mpr hl), dif_pos hl]
    exact ⟨rfl, slots, h⟩
  rw [if_neg hq, dif_neg hq, if_neg (mt h.containsKey_iff.mp hl), dif_neg hl]
  obtain ⟨slot, free, slab, halloc, hslot, hcell, hnodup, hfree⟩ := h.allocSlot_spec
  have hlen : slot < slab.length := (List.getElem?_eq_some_iff.mp hslot).1
  have hempty : b.slab.cell slot = none := by
    rw [← hcell, Slab.cell, hslot]
    rfl
  simp only [halloc, Slab.put_eq_ok hlen]
  refine ((h.addTotal_spec order.place order.qty).mono
    (fun e he => he.mono fun hover => ⟨hq, hl, hover⟩) fun _ => id).bind ?_
  rintro total ⟨rfl, hexact⟩
  have hslab₁ : Slab.cell (slab.set slot (some (OrderNode.new order))) =
      Function.update b.slab.cell slot (some (OrderNode.new order)) := by
    rw [Slab.cell_set hlen, hcell]
  have hnot : slot ∉ slots order.place := by
    refine h.not_mem_slots ?_
    rw [Slab.orderAt, hempty]
    rfl
  have hlaid : LevelLaid (slab.set slot (some (OrderNode.new order))) (b.levelAt order.place)
      (slots order.place) (a.queue order.place) := by
    refine (h.laid order.place).congr ?_
    rw [hslab₁]
    exact update_of_not_mem hnot _
  obtain ⟨slab₂, level', hlink, hlaid', hrel⟩ := hlaid.push (o := order)
    (h.slots_nodup order.place) (by rw [hslab₁, Function.update_self]) hnot
  generalize hb₁ : OrderBook.indexWallet { b with
    slab := slab.set slot (some (OrderNode.new order))
    freeList := free
    orderIndex := b.orderIndex.insert order.id slot } order.wallet order.id = b₁
  have hlevels : b₁.levels = b.levels := by
    rw [← hb₁, OrderBook.levels_indexWallet]
    rfl
  have hlevel : (b₁.levels order.side)[order.price]? = b.levelAt order.place := by
    rw [hlevels]
    rfl
  have hslab : b₁.slab = slab.set slot (some (OrderNode.new order)) := hb₁ ▸ rfl
  simp only [hlevel, hslab, hlink, bind, Except.bind, pure, Except.pure, returns_ok, true_and]
  refine ⟨_, h.push hq hl hslab₁ hempty hnodup ?_ hlaid' hrel hexact (by simp) ?_ ?_ ?_ ?_⟩
  · intro i
    rw [hfree, List.getElem?_set]
    split
    · rename_i hi
      simp [hi]
    · rename_i hi
      exact and_iff_left (Ne.symm hi)
  · simp [← hb₁, OrderBook.indexWallet]
  · simp [← hb₁, OrderBook.indexWallet]
  · simp [← hb₁, OrderBook.indexWallet]
  · rw [OrderBook.levelAt_insert]
    exact congrArg (fun f => Function.update f order.place (some level'))
      (OrderBook.levelAt_congr hlevels)

end L4Book
