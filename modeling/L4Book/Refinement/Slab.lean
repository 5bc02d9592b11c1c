import L4Book.Foundation.Fallible
import L4Book.Replay

/-!
# The arena

What the calls do to the slab and its free list. The list surgery writes to slots that are there,
so only `alloc_slot` lets the slab grow, by one slot, and it does so only when the free list is
empty. Every removal, of whatever kind, puts the freed slot on the free list.

These are facts about the code as it runs: what it may assume of the book plays no role.

## Main definitions

* `Frees`: a slab of the same length, with more slots on the free list
* `GrowsFrom`: one slot more at most, and that only if there was no free slot

## Main results

* `add_arena`
* `applyOpWithPolicy_growsFrom`, `submitLimitOrder_growsFrom`: the calls that are made of others
* `rebuild_freeList`: a cleared book is filled without gaps
-/

namespace L4Book

variable {π : Profile} {b b' b'' : OrderBook}

/-! ### The list surgery -/

section Surgery

variable (slab : Slab) (level : Level) (slot : ℕ) (prev next : Option ℕ)

theorem length_put (value : Option OrderNode) :
    Returns (fun _ => True) (slab.put slot value) fun slab' => slab'.length = slab.length := by
  rw [Slab.put]
  split
  · exact List.length_set
  · trivial

theorem length_modifyNode (msg : String) (f : OrderNode → OrderNode) :
    Returns (fun _ => True) (slab.modifyNode slot msg f) fun slab' =>
      slab'.length = slab.length :=
  (Returns.any _).bind fun _ _ => length_put slab slot _

theorem length_takeNode (msg : String) :
    Returns (fun _ => True) (slab.takeNode slot msg) fun r => r.2.length = slab.length :=
  (Returns.any _).bind fun _ _ => (length_put slab slot none).bind fun _ h => h

theorem length_linkTail :
    Returns (fun _ => True) (linkTail slab level slot) fun r => r.1.length = slab.length := by
  rw [linkTail]
  cases level.tail with
  | none => exact rfl
  | some oldTail =>
    refine (length_modifyNode slab oldTail _ _).bind fun slab₁ h₁ => ?_
    refine (length_modifyNode slab₁ slot _ _).bind fun slab₂ h₂ => ?_
    exact h₂.trans h₁

theorem length_unlinkPrev :
    Returns (fun _ => True) (unlinkPrev slab level prev next) fun r =>
      r.1.length = slab.length := by
  cases prev with
  | none => exact rfl
  | some p => exact (length_modifyNode slab p _ _).bind fun _ h => h

theorem length_unlinkNext :
    Returns (fun _ => True) (unlinkNext slab level prev next) fun r =>
      r.1.length = slab.length := by
  cases next with
  | none => exact rfl
  | some i => exact (length_modifyNode slab i _ _).bind fun _ h => h

theorem length_unlink :
    Returns (fun _ => True) (unlink slab level prev next) fun r => r.1.length = slab.length := by
  refine (length_unlinkPrev slab level prev next).bind fun r h => ?_
  exact (length_unlinkNext r.1 r.2 prev next).imp fun _ h' => h'.trans h

theorem length_moveToTail :
    Returns (fun _ => True) (moveToTail slab level slot) fun r => r.1.length = slab.length := by
  rw [moveToTail]
  split
  · exact rfl
  · refine (Returns.any _).bind fun n _ => ?_
    refine (length_unlink slab level n.prev n.next).bind fun r h => ?_
    refine (length_modifyNode r.1 slot _ _).bind fun slab₂ h₂ => ?_
    exact (length_linkTail slab₂ r.2 slot).imp fun _ h₃ => (h₃.trans h₂).trans h

theorem length_amendLevel (current newQty : Qty) (policy : AmendPriorityPolicy) :
    Returns (fun _ => True) (OrderBook.amendLevel π slab level slot current newQty policy) fun r =>
      r.1.length = slab.length := by
  rw [OrderBook.amendLevel]
  split
  · refine (Returns.any _).bind fun delta _ => (Returns.any _).bind fun totalQty _ => ?_
    dsimp only
    split
    · exact length_moveToTail slab _ slot
    · exact rfl
  · exact (Returns.any _).bind fun delta _ => (Returns.any _).bind fun totalQty _ => rfl

end Surgery

/-! ### What a call does to the arena -/

/-- The slab is as long as before, and what was on the free list is at its bottom. -/
structure Frees (b b' : OrderBook) : Prop where
  slabLen : b'.slabLen = b.slabLen
  free : b.freeList <:+ b'.freeList

/-- The slab is at most one slot longer than before, and it is longer only if there was no free slot
before and there is none after. -/
def GrowsFrom (b b' : OrderBook) : Prop :=
  b'.slabLen = b.slabLen ∨
    (b'.slabLen = b.slabLen + 1 ∧ b.freeList = [] ∧ b'.freeList = [])

namespace Frees

theorem refl (b : OrderBook) : Frees b b := ⟨rfl, List.suffix_rfl⟩

theorem trans (h : Frees b b') (h' : Frees b' b'') : Frees b b'' :=
  ⟨h'.slabLen.trans h.slabLen, h.free.trans h'.free⟩

theorem growsFrom (h : Frees b b') : GrowsFrom b b' := Or.inl h.slabLen

/-- Slots are freed, and then one may be taken. -/
theorem trans_growsFrom (h : Frees b b') (h' : GrowsFrom b' b'') : GrowsFrom b b'' := by
  rcases h' with hlen | ⟨hlen, hfree, hfree'⟩
  · exact Or.inl (hlen.trans h.slabLen)
  · refine Or.inr ⟨by rw [hlen, h.slabLen], ?_, hfree'⟩
    exact List.suffix_nil.mp (hfree ▸ h.free)

end Frees

/-! ### The primitive mutations -/

/-- **A removal frees the slot.** -/
theorem remove_frees (π : Profile) (b : OrderBook) (id : OrderId) :
    Returns (fun _ => True) (b.remove π id) fun r => Frees b r.2 := by
  rw [OrderBook.remove]
  cases b.orderIndex.lookup id with
  | none => exact Frees.refl b
  | some slot =>
    refine (length_takeNode b.slab slot _).bind fun r hr => ?_
    refine (Returns.any _).bind fun level _ => (Returns.any _).bind fun totalQty _ => ?_
    refine (length_unlink r.2 _ r.1.prev r.1.next).bind fun r' hr' => ?_
    constructor
    · show (OrderBook.setLevels _ _ _).slab.length = b.slab.length
      rw [OrderBook.slab_setLevels]
      exact hr'.trans hr
    · show b.freeList <:+ (OrderBook.setLevels _ _ _).freeList
      rw [OrderBook.freeList_setLevels]
      exact List.suffix_cons slot b.freeList

/-- Writing to an order that is there. -/
theorem frees_setLevels {slab : Slab} (h : slab.length = b.slab.length) (side : Side)
    (m : LevelMap) : Frees b ({ b with slab := slab }.setLevels side m) := by
  constructor
  · show (OrderBook.setLevels _ _ _).slab.length = b.slab.length
    rw [OrderBook.slab_setLevels]
    exact h
  · rw [OrderBook.freeList_setLevels]

/-- A zero-size update frees the slot, and every other leaves the arena alone. -/
theorem updateSize_frees (π : Profile) (b : OrderBook) (id : OrderId) (newQty : Qty) :
    Returns (fun _ => True) (b.updateSize π id newQty) fun r => Frees b r.2 := by
  rw [OrderBook.updateSize]
  cases b.orderIndex.lookup id with
  | none => exact Frees.refl b
  | some slot =>
    refine (Returns.any _).bind fun node _ => ?_
    dsimp only
    split
    · exact Frees.refl b
    split
    · exact (remove_frees π b id).bind fun _ h => h
    · refine (length_modifyNode b.slab slot _ _).bind fun slab h => ?_
      refine (Returns.any _).bind fun level _ => (Returns.any _).bind fun delta _ => ?_
      refine (Returns.any _).bind fun totalQty _ => ?_
      exact frees_setLevels h _ _

/-- A zero-size amendment frees the slot, and every other leaves the arena alone. -/
theorem amendSizeWithPolicy_frees (π : Profile) (b : OrderBook) (id : OrderId) (newQty : Qty)
    (policy : AmendPriorityPolicy) :
    Returns (fun _ => True) (b.amendSizeWithPolicy π id newQty policy) fun r => Frees b r.2 := by
  rw [OrderBook.amendSizeWithPolicy]
  split
  · exact (remove_frees π b id).bind fun _ h => h
  cases b.orderIndex.lookup id with
  | none => exact Frees.refl b
  | some slot =>
    refine (Returns.any _).bind fun node _ => ?_
    dsimp only
    split
    · exact Frees.refl b
    · refine (length_modifyNode b.slab slot _ _).bind fun slab h => ?_
      refine (Returns.any _).bind fun level _ => ?_
      refine (length_amendLevel slab level slot _ newQty policy).bind fun r hr => ?_
      exact frees_setLevels (hr.trans h) _ _

/-- The slot of an order that is added, and what becomes of the arena. -/
structure Takes (b : OrderBook) (order : Order) (b' : OrderBook) : Prop where
  slabLen : b'.slabLen = b.allocSlot.2.slabLen
  free : b'.freeList = b.allocSlot.2.freeList
  slot : b'.orderIndex.lookup order.id = some b.allocSlot.1

/-- **An order that is added goes into the slot that `alloc_slot` returns**, and one that is refused
changes nothing. -/
theorem add_arena (π : Profile) (b : OrderBook) (order : Order) :
    Returns (fun _ => True) (b.add π order) fun r =>
      (r.2 = b ∧ r.1 ≠ .ok ()) ∨ Takes b order r.2 := by
  rw [OrderBook.add]
  split
  · exact Or.inl ⟨rfl, nofun⟩
  split
  · exact Or.inl ⟨rfl, nofun⟩
  · refine (length_put b.allocSlot.2.slab b.allocSlot.1 _).bind fun slab h => ?_
    refine (Returns.any _).bind fun totalQty _ => ?_
    refine (length_linkTail slab _ b.allocSlot.1).bind fun r hr => Or.inr ?_
    constructor
    · show (OrderBook.setLevels _ _ _).slab.length = b.allocSlot.2.slab.length
      rw [OrderBook.slab_setLevels]
      exact hr.trans h
    · show (OrderBook.setLevels _ _ _).freeList = b.allocSlot.2.freeList
      rw [OrderBook.freeList_setLevels]
      rfl
    · show (OrderBook.setLevels _ _ _).orderIndex.lookup order.id = some b.allocSlot.1
      rw [OrderBook.orderIndex_setLevels]
      exact Finmap.lookup_insert _

/-- **The slot is a free one, if there is one**: the last that was freed. Otherwise the slab grows
by one. -/
theorem allocSlot_cases (b : OrderBook) :
    (∃ slot rest, b.freeList = slot :: rest ∧ b.allocSlot.1 = slot ∧
      b.allocSlot.2.freeList = rest ∧ b.allocSlot.2.slabLen = b.slabLen) ∨
    (b.freeList = [] ∧ b.allocSlot.1 = b.slabLen ∧ b.allocSlot.2.freeList = [] ∧
      b.allocSlot.2.slabLen = b.slabLen + 1) := by
  rw [OrderBook.allocSlot]
  cases hfree : b.freeList with
  | nil => exact Or.inr ⟨rfl, rfl, rfl, List.length_append⟩
  | cons slot rest => exact Or.inl ⟨slot, rest, rfl, rfl, rfl, rfl⟩

theorem Takes.growsFrom {order : Order} (h : Takes b order b') : GrowsFrom b b' := by
  rcases allocSlot_cases b with ⟨slot, rest, -, -, -, hlen⟩ | ⟨hfree, -, hfree', hlen⟩
  · exact Or.inl (h.slabLen.trans hlen)
  · exact Or.inr ⟨h.slabLen.trans hlen, hfree, h.free.trans hfree'⟩

theorem add_growsFrom (π : Profile) (b : OrderBook) (order : Order) :
    Returns (fun _ => True) (b.add π order) fun r => GrowsFrom b r.2 := by
  refine (add_arena π b order).imp fun r hr => ?_
  rcases hr with ⟨heq, -⟩ | htakes
  · rw [heq]
    exact (Frees.refl b).growsFrom
  · exact htakes.growsFrom

/-! ### Operations -/

theorem applyOp_growsFrom (π : Profile) (b : OrderBook) (op : BookOp) :
    Returns (fun _ => True) (b.applyOp π op) fun r => GrowsFrom b r.2 := by
  cases op with
  | add order => exact add_growsFrom π b order
  | remove id => exact (remove_frees π b id).bind fun _ h => h.growsFrom
  | updateSize id newQty => exact (updateSize_frees π b id newQty).imp fun _ h => h.growsFrom
  | amendSize id newQty =>
    exact (amendSizeWithPolicy_frees π b id newQty .preserve).imp fun _ h => h.growsFrom

theorem applyStrictly_growsFrom (π : Profile) (b : OrderBook) (op : BookOp) :
    Returns (fun _ => True) (b.applyStrictly π op) fun r => GrowsFrom b r.2 := by
  refine (applyOp_growsFrom π b op).bind fun r h => ?_
  obtain ⟨_ | _, b'⟩ := r
  · exact h
  · exact h

theorem applyOpWithPolicy_growsFrom (π : Profile) (b : OrderBook) (op : BookOp)
    (policy : ReplayPolicy) :
    Returns (fun _ => True) (b.applyOpWithPolicy π op policy) fun r => GrowsFrom b r.2 := by
  have hsame : GrowsFrom b b := (Frees.refl b).growsFrom
  cases op with
  | add order =>
    rw [OrderBook.applyOpWithPolicy]
    split
    · split
      · exact hsame
      · exact hsame
    · exact applyStrictly_growsFrom π b _
  | remove id =>
    rw [OrderBook.applyOpWithPolicy]
    split
    · exact hsame
    · exact applyStrictly_growsFrom π b _
  | updateSize id newQty =>
    rw [OrderBook.applyOpWithPolicy, OrderBook.updateSizeWithPolicy]
    cases b.orderIndex.lookup id with
    | none => exact hsame
    | some slot =>
      refine (Returns.any _).bind fun node _ => ?_
      dsimp only
      split
      · refine (applyOp_growsFrom π b _).bind fun r h => ?_
        obtain ⟨_ | _, b'⟩ := r
        · exact h
        · exact h
      · exact applyStrictly_growsFrom π b _
  | amendSize id newQty =>
    rw [OrderBook.applyOpWithPolicy]
    split
    · exact hsame
    · exact applyStrictly_growsFrom π b _

/-! ### Takers -/

/-- The fills of a taker only free slots. -/
theorem applyFills_frees (π : Profile) (b : OrderBook) (fills : List FillDelta) :
    Returns (fun _ => True) (b.applyFills π fills) fun r => Frees b r.2 := by
  induction fills generalizing b with
  | nil => exact Frees.refl b
  | cons fill fills ih =>
    have hfill : Returns (fun _ => True) (b.applyFill π fill) fun r => Frees b r.2 := by
      rw [OrderBook.applyFill]
      split
      · exact (remove_frees π b _).bind fun _ h => h
      · exact updateSize_frees π b _ _
    refine hfill.bind fun r h => ?_
    obtain ⟨_ | _, b'⟩ := r
    · exact h
    · exact (ih b').imp fun _ h' => h.trans h'

theorem applyTakerOrder_frees (π : Profile) (b : OrderBook) (takerSide : Side) (qty : Qty)
    (limitPrice : Price) :
    Returns (fun _ => True) (b.applyTakerOrder π takerSide qty limitPrice) fun r =>
      Frees b r.2 := by
  rw [OrderBook.applyTakerOrder]
  split
  · exact Frees.refl b
  · refine (Returns.any _).bind fun takerMatch _ => ?_
    exact (applyFills_frees π b takerMatch.fills).bind fun _ h => h

/-- **A limit order frees slots and then takes one at most.** -/
theorem submitLimitOrder_growsFrom (π : Profile) (b : OrderBook) (order : Order)
    (policy : LimitOrderPolicy) :
    Returns (fun _ => True) (b.submitLimitOrder π order policy) fun r => GrowsFrom b r.2 := by
  have hsame : GrowsFrom b b := (Frees.refl b).growsFrom
  have htake : ∀ policy, Returns (fun _ => True) (b.submitTake π order policy) fun r =>
      GrowsFrom b r.2 := fun policy =>
    (applyTakerOrder_frees π b _ _ _).bind fun _ h => h.growsFrom
  rw [OrderBook.submitLimitOrder.eq_def]
  split
  · exact hsame
  split
  · exact hsame
  cases policy with
  | gtc =>
    refine (applyTakerOrder_frees π b _ _ _).bind fun r h => ?_
    obtain ⟨e | takerMatch, b'⟩ := r
    · exact h.growsFrom
    · dsimp only
      split
      · exact (add_growsFrom π b' _).bind fun _ h' => h.trans_growsFrom h'
      · exact h.growsFrom
  | ioc => exact htake .ioc
  | fok =>
    refine (Returns.any _).bind fun simulated _ => ?_
    split
    · exact hsame
    · exact htake .fok
  | postOnly =>
    refine (Returns.any _).bind fun takerMatch _ => ?_
    dsimp only
    split
    · exact hsame
    · exact (add_growsFrom π b order).bind fun _ h => h

/-! ### Snapshots -/

/-- Adding orders to a book without a free slot leaves none. -/
theorem addAll_freeList (π : Profile) (orders : List Order) (hfree : b.freeList = []) :
    Returns (fun _ => True) (b.addAll π orders) fun r => r.2.freeList = [] := by
  induction orders generalizing b with
  | nil => exact hfree
  | cons order orders ih =>
    refine (add_arena π b order).bind fun r hr => ?_
    have hfree' : r.2.freeList = [] := by
      rcases hr with ⟨heq, -⟩ | htakes
      · rw [heq, hfree]
      · rcases allocSlot_cases b with ⟨slot, rest, hcons, -⟩ | ⟨-, -, hnil, -⟩
        · rw [hfree] at hcons
          cases hcons
        · exact htakes.free.trans hnil
    obtain ⟨_ | _, b'⟩ := r
    · exact hfree'
    · exact (ih hfree').bind fun _ h => h

/-- **A book that is cleared and filled again has no free slot.** -/
theorem rebuild_freeList (π : Profile) (b : OrderBook) (orders preserved : List Order) :
    Returns (fun _ => True) (b.rebuild π orders preserved) fun r => r.2.freeList = [] := by
  have hclear : b.clear.freeList = [] := rfl
  refine (addAll_freeList π orders hclear).bind fun r h => ?_
  obtain ⟨_ | _, b'⟩ := r
  · exact h
  · exact (addAll_freeList π preserved h).bind fun _ h' => h'

end L4Book
