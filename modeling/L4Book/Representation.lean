import L4Book.Book
import L4Book.Foundation.ArenaIndex
import L4Book.LevelLayout

/-!
# The representation invariant

`Layout π b slots a` says that the concrete book `b` stores the abstract book `a`, with the orders
of every list in the given slots. It ties the six structures of the book together: the chains and
level records of every price, the id index, the free list and the wallet index each agree with the
abstract book, and therefore with each other. `Represents π b a` hides the slots; it is the
refinement relation.

In the `dev` profile the book also keeps every true level total below `2 ^ 64`, since an addition
that broke this would have panicked.

## Main definitions

* `Layout`, `Represents`

## Main results

* `Layout.lookup_eq_none_iff`, `Layout.find_of_lookup`: the index finds the live orders
* `Layout.laid_update`, `Layout.covered_update`: a change of one level
* `represents_new`, `represents_clear`: the empty book represents the empty abstract book
-/

namespace L4Book

namespace OrderBook

/-- The level record at a side and price. -/
def levelAt (b : OrderBook) (k : Side × Price) : Option Level := (b.levels k.1)[k.2]?

end OrderBook

/-- `b` stores `a`, with the orders of the list at `k` in the slots `slots k`. -/
structure Layout (π : Profile) (b : OrderBook) (slots : Side × Price → List ℕ)
    (a : AbstractBook) : Prop where
  /-- Every level lays out its list. -/
  laid : ∀ k, LevelLaid b.slab (b.levelAt k) (slots k) (a.queue k)
  /-- Every occupied slot is on the chain of its order's side and price. -/
  covered : ∀ {i o}, b.slab.orderAt i = some o → i ∈ slots o.place
  /-- The id index finds exactly the occupied slots. -/
  index : ∀ {id i}, b.orderIndex.lookup id = some i ↔ ∃ o, b.slab.orderAt i = some o ∧ o.id = id
  free_nodup : b.freeList.Nodup
  /-- The free list holds exactly the empty slots. -/
  free : ∀ {i}, i ∈ b.freeList ↔ b.slab[i]? = some none
  /-- The wallet index holds exactly the live ids of every wallet. -/
  wallets : ∀ {w id}, id ∈ (b.walletIndex.lookup w).getD ∅ ↔ ∃ o ∈ a, o.id = id ∧ o.wallet = w
  wallets_ne : ∀ w, b.walletIndex.lookup w ≠ some ∅
  /-- Builds with overflow checks keep the totals exact. -/
  exact : π = .dev → ∀ k, restingQty (a.queue k) < UInt64.size

/-- The refinement relation: `b` stores `a`. -/
def Represents (π : Profile) (b : OrderBook) (a : AbstractBook) : Prop :=
  ∃ slots, Layout π b slots a

namespace Layout

variable {π : Profile} {b : OrderBook} {slots : Side × Price → List ℕ} {a : AbstractBook}
  {k k' : Side × Price} {i : ℕ} {id : OrderId} {o : Order}

/-! ### Slots -/

theorem exists_order (h : Layout π b slots a) (hi : i ∈ slots k) :
    ∃ o ∈ a.queue k, b.slab.orderAt i = some o :=
  (h.laid k).exists_order hi

theorem slots_nodup (h : Layout π b slots a) (k : Side × Price) : (slots k).Nodup :=
  (h.laid k).slots_nodup (a.queue_nodup k)

theorem mem_of_orderAt (h : Layout π b slots a) (ho : b.slab.orderAt i = some o) : o ∈ a := by
  obtain ⟨o', ho', heq⟩ := h.exists_order (h.covered ho)
  obtain rfl : o' = o := Option.some.inj (heq.symm.trans ho)
  exact KeyedQueues.mem_of_mem_queue ho'

theorem mem_slots_iff (h : Layout π b slots a) (ho : b.slab.orderAt i = some o) :
    i ∈ slots k ↔ k = o.place := by
  constructor
  · intro hi
    obtain ⟨o', ho', heq⟩ := h.exists_order hi
    obtain rfl : o' = o := Option.some.inj (heq.symm.trans ho)
    exact (a.placed ho').symm
  · rintro rfl
    exact h.covered ho

/-- A slot is on one chain at most. -/
theorem not_mem_slots_of_ne (h : Layout π b slots a) (hk : k ≠ k') (hi : i ∈ slots k) :
    i ∉ slots k' := by
  obtain ⟨o, -, ho⟩ := h.exists_order hi
  intro hi'
  exact hk (((h.mem_slots_iff ho).mp hi).trans ((h.mem_slots_iff ho).mp hi').symm)

/-- An empty slot is on no chain. -/
theorem not_mem_slots (h : Layout π b slots a) (hi : b.slab.orderAt i = none) : i ∉ slots k := by
  intro hmem
  obtain ⟨o, -, ho⟩ := h.exists_order hmem
  rw [hi] at ho
  exact nomatch ho

theorem exists_slot (h : Layout π b slots a) (ho : o ∈ a) :
    ∃ i ∈ slots o.place, b.slab.orderAt i = some o :=
  (h.laid _).exists_slot ho

/-! ### The id index -/

theorem lookup_eq_none_iff (h : Layout π b slots a) :
    b.orderIndex.lookup id = none ↔ ¬ a.Live id := by
  constructor
  · rintro hnone ⟨o, ho, rfl⟩
    obtain ⟨i, -, hi⟩ := h.exists_slot ho
    rw [h.index.mpr ⟨o, hi, rfl⟩] at hnone
    exact nomatch hnone
  · intro hlive
    cases hlook : b.orderIndex.lookup id with
    | none => rfl
    | some i =>
      obtain ⟨o, ho, rfl⟩ := h.index.mp hlook
      exact absurd ⟨o, h.mem_of_orderAt ho, rfl⟩ hlive

theorem containsKey_iff (h : Layout π b slots a) : b.containsKey id = true ↔ a.Live id := by
  rw [OrderBook.containsKey, Option.isSome_iff_ne_none, ne_eq, h.lookup_eq_none_iff, not_not]

/-- What a successful lookup finds. -/
theorem find_of_lookup (h : Layout π b slots a) (hlook : b.orderIndex.lookup id = some i) :
    ∃ x, b.slab.cell i = some x ∧ x.order ∈ a ∧ x.order.id = id ∧ a.find id = some x.order := by
  obtain ⟨o, ho, hid⟩ := h.index.mp hlook
  obtain ⟨x, hx, rfl⟩ := Slab.orderAt_eq_some_iff.mp ho
  have hmem := h.mem_of_orderAt ho
  exact ⟨x, hx, hmem, hid, KeyedQueues.find_eq_some_iff.mpr ⟨hmem, hid⟩⟩

/-- The id index is an index over the slab. -/
theorem indexes (h : Layout π b slots a) : Indexes Order.id b.orderIndex b.slab.orderAt :=
  fun _ _ => h.index

/-- The level of a resting order is there. -/
theorem exists_level (h : Layout π b slots a) (ho : o ∈ a) :
    ∃ level, b.levelAt o.place = some level := by
  obtain ⟨i, hi, -⟩ := h.exists_slot ho
  exact ⟨_, (h.laid o.place).level_eq.trans (levelOf_of_ne_nil (List.ne_nil_of_mem hi))⟩

/-! ### Changing one level -/

section OneLevel

variable {slab' : Slab} {slots' : List ℕ} {a' : AbstractBook}

/-- The levels elsewhere are laid out as before. -/
theorem laid_update (h : Layout π b slots a) {levelAt' : Side × Price → Option Level}
    {lv : Option Level} (hlevel : levelAt' = Function.update b.levelAt k lv)
    (hlaid : LevelLaid slab' lv slots' (a'.queue k))
    (hqueue : ∀ k', k' ≠ k → a'.queue k' = a.queue k')
    (hframe : ∀ k', k' ≠ k → ∀ i ∈ slots k', slab'.cell i = b.slab.cell i) (k' : Side × Price) :
    LevelLaid slab' (levelAt' k') (Function.update slots k slots' k') (a'.queue k') := by
  rw [hlevel]
  by_cases hk : k' = k
  · subst hk
    rw [Function.update_self, Function.update_self]
    exact hlaid
  · rw [Function.update_of_ne hk, Function.update_of_ne hk, hqueue k' hk]
    exact (h.laid k').congr (hframe k' hk)

/-- Only the slot written to can be a new one on a chain. -/
theorem covered_update (h : Layout π b slots a) {slot : ℕ} {v : Option Order}
    (hat : slab'.orderAt = Function.update b.slab.orderAt slot v)
    (hv : ∀ o, v = some o → o.place = k ∧ slot ∈ slots')
    (hslots : ∀ i ∈ slots k, i ≠ slot → i ∈ slots') {i : ℕ} {o : Order}
    (hi : slab'.orderAt i = some o) : i ∈ Function.update slots k slots' o.place := by
  rw [hat] at hi
  by_cases his : i = slot
  · subst his
    rw [Function.update_self] at hi
    obtain ⟨hplace, hmem⟩ := hv o hi
    rw [hplace, Function.update_self]
    exact hmem
  · rw [Function.update_of_ne his] at hi
    have hmem := h.covered hi
    by_cases hk : o.place = k
    · rw [hk] at hmem ⊢
      rw [Function.update_self]
      exact hslots i hmem his
    · rw [Function.update_of_ne hk]
      exact hmem

theorem exact_update (h : Layout π b slots a)
    (hqueue : ∀ k', k' ≠ k → a'.queue k' = a.queue k')
    (hexact : π = .dev → restingQty (a'.queue k) < UInt64.size) (hπ : π = .dev)
    (k' : Side × Price) : restingQty (a'.queue k') < UInt64.size := by
  by_cases hk : k' = k
  · exact hk ▸ hexact hπ
  · rw [hqueue k' hk]
    exact h.exact hπ k'

end OneLevel

end Layout

theorem expectLevel_eq_ok {b : OrderBook} {o : Order} {level : Level} {msg : String}
    (h : b.levelAt o.place = some level) : b.expectLevel o.side o.price msg = .ok level := by
  have h' : (b.levels o.side)[o.price]? = some level := h
  rw [OrderBook.expectLevel, h']

/-! ### The empty book -/

/-- **The new book is empty.** -/
theorem represents_new (π : Profile) : Represents π OrderBook.new KeyedQueues.empty := by
  refine ⟨fun _ => [], ?_, ?_, ?_, List.nodup_nil, ?_, ?_, ?_, ?_⟩
  · intro k
    refine ⟨rfl, trivial, ?_⟩
    obtain ⟨s, p⟩ := k
    cases s <;> simp [OrderBook.levelAt, OrderBook.levels, OrderBook.new, levelOf_nil]
  · intro i o h
    simp [OrderBook.new, Slab.orderAt, Slab.cell] at h
  · intro id i
    simp [OrderBook.new, Slab.orderAt, Slab.cell]
  · intro i
    simp [OrderBook.new]
  · intro w id
    simp [OrderBook.new, KeyedQueues.not_mem_empty]
  · intro w
    simp [OrderBook.new]
  · intro _ k
    exact (by decide : 0 < UInt64.size)

theorem clear_eq_new (b : OrderBook) : b.clear = OrderBook.new := rfl

/-- **A cleared book is empty.** -/
theorem represents_clear (π : Profile) (b : OrderBook) :
    Represents π b.clear KeyedQueues.empty :=
  clear_eq_new b ▸ represents_new π

end L4Book
