import L4Book.Results.Simulation

/-!
# The invariant of the concrete book

What holds of the slab, the free list, the id index, the price maps, the links and the wallet index
in every reachable state, in terms of these structures only; and what follows from it, that no call
and no query can stop at an `expect`, an index out of bounds, an assertion or an endless walk.

## Main definitions

* `LevelChain`, `Invariant`, `NeverPanics`

## Main results

* `reachable_invariant`
-/

namespace L4Book

variable {π : Profile} {b : OrderBook} {a : AbstractBook} {slots : Side × Price → List ℕ}

/-- The linked list of a side and price: its chain visits, each once, exactly the slots of the
orders with that side and price, starts at `head`, ends at `tail` and has length `order_count`. -/
structure LevelChain (b : OrderBook) (side : Side) (price : Price) (chain : List ℕ) : Prop where
  nodup : chain.Nodup
  mem : ∀ i, i ∈ chain ↔ ∃ o, b.slab.orderAt i = some o ∧ o.side = side ∧ o.price = price
  /-- `next` leads from each slot of the chain to the one after it, and `prev` back. -/
  linked : Chain b.slab.cell none chain none
  /-- There is a level exactly when there is an order. -/
  present : (∃ level, (b.levels side)[price]? = some level) ↔ chain ≠ []
  ends : ∀ level, (b.levels side)[price]? = some level →
    level.head = chain.head? ∧ level.tail = chain.getLast? ∧ level.orderCount = chain.length

/-- The invariant of the book. -/
structure Invariant (b : OrderBook) : Prop where
  /-- The id index maps each id to the slot whose order has that id... -/
  index : ∀ id i, b.orderIndex.lookup id = some i ↔
    ∃ o, b.slab.orderAt i = some o ∧ o.id = id
  /-- ... and no two ids to one slot. -/
  index_injective : ∀ id id' i, b.orderIndex.lookup id = some i →
    b.orderIndex.lookup id' = some i → id = id'
  free_nodup : b.freeList.Nodup
  /-- The free list holds exactly the empty slots. -/
  free : ∀ i, i ∈ b.freeList ↔ b.slab[i]? = some none
  qty_ne_zero : ∀ i o, b.slab.orderAt i = some o → o.qty ≠ 0
  /-- Every level is laid out as a chain, and every order is on exactly one of them. -/
  chains : ∃ chain : Side × Price → List ℕ,
    (∀ side price, LevelChain b side price (chain (side, price))) ∧
      ∀ i o, b.slab.orderAt i = some o → ∃! k, i ∈ chain k
  /-- The wallet index holds exactly the ids of each wallet, and no empty set. -/
  wallets : ∀ w id, id ∈ (b.walletIndex.lookup w).getD ∅ ↔
    ∃ i o, b.slab.orderAt i = some o ∧ o.id = id ∧ o.wallet = w
  wallets_nonempty : ∀ w ids, b.walletIndex.lookup w = some ids → ids.Nonempty

/-- A mutating call can stop only with an overflow panic, in a build that checks for overflow, and a
query cannot stop at all; a walk of a level takes as many steps as the level counts orders. -/
structure NeverPanics (π : Profile) (b : OrderBook) : Prop where
  exec : ∀ c e, b.exec π c = .error e → e = .overflow ∧ π = .dev
  walk : ∀ side price level, (b.levels side)[price]? = some level →
    ∃ orders, orders.length = level.orderCount ∧
      OrdersAtLevel.loop (fun o acc => .ok (.yield (acc ++ [o]))) (level.orderCount + 1)
        (b.ordersAtLevel side price) [] = .ok orders
  ordersAt : ∀ side price, ∃ orders, b.ordersAt side price = .ok orders
  get : ∀ id, ∃ order, b.get id = .ok order
  queuePosition : ∀ id, ∃ reply, b.queuePosition π id = .ok reply
  topNLevels : ∀ n, ∃ levels, b.topNLevels n = .ok levels
  ordersByWallet : ∀ enum, Enumerates enum → ∀ wallet, ∃ orders,
    b.ordersByWallet enum wallet = .ok orders
  matchTakerOrder : ∀ taker qty limit, ∃ m, b.matchTakerOrder π taker qty limit = .ok m
  estimateSlippage : ∀ taker qty limit, ∃ e, b.estimateSlippage π taker qty limit = .ok e
  assertInvariants : π = .dev → b.assertInvariants = .ok ()

/-! ### The invariant -/

theorem Layout.levelChain (h : Layout π b slots a) (side : Side) (price : Price) :
    LevelChain b side price (slots (side, price)) := by
  have hlaid := h.laid (side, price)
  have hlevel : (b.levels side)[price]? = levelOf (slots (side, price)) (a.queue (side, price)) :=
    hlaid.level_eq
  refine ⟨h.slots_nodup _, fun i => ?_, hlaid.chain, ?_, fun level hl => ?_⟩
  · constructor
    · intro hi
      obtain ⟨o, ho, hoi⟩ := h.exists_order hi
      obtain ⟨hside, hprice⟩ := Prod.mk.inj (a.placed ho)
      exact ⟨o, hoi, hside, hprice⟩
    · rintro ⟨o, hoi, rfl, rfl⟩
      exact h.covered hoi
  · rw [hlevel]
    by_cases hnil : slots (side, price) = []
    · simp [hnil, levelOf_nil]
    · simp [hnil, levelOf_of_ne_nil hnil]
  · rw [hlevel] at hl
    rw [(levelOf_eq_some_iff.mp hl).2]
    exact ⟨rfl, rfl, rfl⟩

theorem Represents.invariant (h : Represents π b a) : Invariant b := by
  obtain ⟨slots, h⟩ := h
  refine ⟨fun _ _ => h.index, ?_, h.free_nodup, fun _ => h.free, ?_, ⟨slots, ?_, ?_⟩, ?_, ?_⟩
  · intro id id' i hid hid'
    obtain ⟨o, ho, rfl⟩ := h.index.mp hid
    obtain ⟨o', ho', rfl⟩ := h.index.mp hid'
    rw [ho] at ho'
    rw [Option.some.inj ho']
  · exact fun i o ho => a.valid (h.mem_of_orderAt ho)
  · exact fun side price => h.levelChain side price
  · exact fun i o ho => ⟨o.place, h.covered ho, fun k hk => (h.mem_slots_iff ho).mp hk⟩
  · intro w id
    rw [h.wallets]
    constructor
    · rintro ⟨o, ho, rfl, rfl⟩
      obtain ⟨i, -, hi⟩ := h.exists_slot ho
      exact ⟨i, o, hi, rfl, rfl⟩
    · rintro ⟨i, o, hi, rfl, rfl⟩
      exact ⟨o, h.mem_of_orderAt hi, rfl, rfl⟩
  · intro w ids hids
    rw [Finset.nonempty_iff_ne_empty]
    rintro rfl
    exact h.wallets_ne w hids

/-! ### No panics -/

theorem Represents.walk (h : Represents π b a) {side : Side} {price : Price} {level : Level}
    (hlevel : (b.levels side)[price]? = some level) :
    OrdersAtLevel.loop (fun o acc => .ok (.yield (acc ++ [o]))) (level.orderCount + 1)
      (b.ordersAtLevel side price) [] = .ok (a.queue (side, price)) ∧
        (a.queue (side, price)).length = level.orderCount := by
  obtain ⟨slots, h⟩ := h
  have hlaid := h.laid (side, price)
  obtain ⟨-, heq⟩ := levelOf_eq_some_iff.mp (hlaid.level_eq.symm.trans hlevel)
  have hhead : ((b.levels side)[price]?).bind Level.head = (slots (side, price)).head? := by
    rw [hlevel, heq]
    rfl
  have hcount : level.orderCount = (slots (side, price)).length := by
    rw [heq]
  refine ⟨?_, by rw [hcount, hlaid.length_eq]⟩
  rw [OrderBook.ordersAtLevel, hhead, hcount,
    OrdersAtLevel.loop_eq hlaid.chain hlaid.orders_eq (Nat.lt_succ_self _)]
  exact forIn_collect _ []

theorem Represents.queuePosition (h : Represents π b a) (id : OrderId) :
    ∃ reply, b.queuePosition π id = .ok reply := by
  by_cases hlive : a.Live id
  · obtain ⟨o, ho, rfl⟩ := hlive
    obtain ⟨ol, or, hqueue⟩ := List.append_of_mem (KeyedQueues.mem_def.mp ho)
    exact ⟨_, queuePosition_spec h hqueue⟩
  · exact ⟨_, queuePosition_unknown h hlive⟩

theorem Represents.neverPanics (h : Represents π b a) : NeverPanics π b where
  exec c e he := by
    obtain ⟨hover, hπ, -⟩ := (exec_spec h c).of_eq_error he
    exact ⟨hover, hπ⟩
  walk side price level hlevel :=
    ⟨a.queue (side, price), (h.walk hlevel).2, (h.walk hlevel).1⟩
  ordersAt side price := ⟨_, ordersAt_spec h side price⟩
  get id := ⟨_, get_spec h id⟩
  queuePosition := h.queuePosition
  topNLevels n := ⟨_, topNLevels_spec h n⟩
  ordersByWallet enum henum wallet := by
    obtain ⟨orders, horders, -⟩ := ordersByWallet_spec h henum wallet
    exact ⟨orders, horders⟩
  matchTakerOrder taker qty limit := ⟨_, matchTakerOrder_spec h taker qty limit⟩
  estimateSlippage taker qty limit := by
    cases hπ : π with
    | dev =>
      subst hπ
      exact ⟨_, estimateSlippage_spec h h.totalsFit taker qty limit⟩
    | release => exact estimateSlippage_release b taker qty limit
  assertInvariants hπ := by
    subst hπ
    exact assertInvariants_spec h

/-- **The invariant holds in every reachable state**, and with it no call can panic but for an
overflow, and no query at all. -/
theorem reachable_invariant (hb : Reachable π b) : Invariant b ∧ NeverPanics π b := by
  obtain ⟨a, h⟩ := hb.represents
  exact ⟨h.invariant, h.neverPanics⟩

theorem reachable_invariant_sample : Invariant sampleBook ∧ NeverPanics .dev sampleBook :=
  reachable_invariant sampleBook_reachable

end L4Book
