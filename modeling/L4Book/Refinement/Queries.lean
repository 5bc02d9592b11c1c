import L4Book.Refinement.Run

/-!
# The other read views

The number of orders, wallet attribution, the top-of-book snapshots and the debug-only consistency
check, on a book that represents an abstract one.

## Main results

* `len_spec`, `ordersByWallet_spec`, `topNLevels_spec`
* `assertInvariants_spec`: the consistency check of a debug build passes
* `Represents.reads`: all read views agree with the abstract book
-/

namespace L4Book

variable {π : Profile} {b : OrderBook} {slots : Side × Price → List ℕ} {a : AbstractBook}

/-! ### All orders -/

/-- All orders, bids before asks. -/
noncomputable def AbstractBook.orders (a : AbstractBook) : List Order :=
  a.ladder .bid ++ a.ladder .ask

theorem AbstractBook.mem_orders {o : Order} : o ∈ a.orders ↔ o ∈ a := by
  rw [AbstractBook.orders, List.mem_append, AbstractBook.mem_ladder, AbstractBook.mem_ladder]
  cases hs : o.side <;> simp

theorem AbstractBook.orders_ids_nodup (a : AbstractBook) : (a.orders.map Order.id).Nodup := by
  rw [AbstractBook.orders, List.map_append]
  refine List.nodup_append.mpr ⟨a.ladder_ids_nodup .bid, a.ladder_ids_nodup .ask, ?_⟩
  intro i hi j hj
  obtain ⟨x, hx, rfl⟩ := List.mem_map.mp hi
  obtain ⟨y, hy, rfl⟩ := List.mem_map.mp hj
  obtain ⟨hx, hxs⟩ := AbstractBook.mem_ladder.mp hx
  obtain ⟨hy, hys⟩ := AbstractBook.mem_ladder.mp hy
  intro hid
  rw [KeyedQueues.eq_of_key_eq hx hy hid, hys] at hxs
  exact nomatch hxs

theorem AbstractBook.mem_ids {id : OrderId} : id ∈ a.orders.map Order.id ↔ a.Live id := by
  rw [List.mem_map]
  exact exists_congr fun o => and_congr_left fun _ => AbstractBook.mem_orders

theorem Layout.keys_index (h : Layout π b slots a) :
    b.orderIndex.keys = (a.orders.map Order.id).toFinset := by
  ext id
  rw [Finmap.mem_keys, List.mem_toFinset, AbstractBook.mem_ids, ← Finmap.lookup_isSome,
    Option.isSome_iff_ne_none, ne_eq, h.lookup_eq_none_iff, not_not]

/-- **`len` counts the live orders.** -/
theorem len_spec (h : Represents π b a) : b.len = a.orders.length := by
  obtain ⟨slots, h⟩ := h
  rw [OrderBook.len, h.keys_index, List.toFinset_card_of_nodup a.orders_ids_nodup,
    List.length_map]

/-! ### Wallets -/

theorem walletOrders_spec (h : Represents π b a) (ids : List OrderId)
    (hlive : ∀ id ∈ ids, a.Live id) :
    b.walletOrders ids = .ok (ids.filterMap a.find) := by
  induction ids with
  | nil => rfl
  | cons id ids ih =>
    obtain ⟨o, ho⟩ := KeyedQueues.live_iff_find.mp (hlive id List.mem_cons_self)
    rw [OrderBook.walletOrders, get_spec h, ok_bind, ho, List.filterMap_cons_some ho,
      ih fun i hi => hlive i (List.mem_cons_of_mem _ hi)]
    rfl

/-- `enum` enumerates finite sets: every element, each once. -/
def Enumerates (enum : Finset OrderId → List OrderId) : Prop :=
  ∀ s, (enum s).Nodup ∧ ∀ id, id ∈ enum s ↔ id ∈ s

/-- **`orders_by_wallet` yields the live orders of the wallet, each once**, in whatever order the
hash set is enumerated. -/
theorem ordersByWallet_spec (h : Represents π b a) {enum : Finset OrderId → List OrderId}
    (henum : Enumerates enum) (wallet : WalletId) :
    ∃ orders, b.ordersByWallet enum wallet = .ok orders ∧ orders.Nodup ∧
      ∀ o, o ∈ orders ↔ o ∈ a ∧ o.wallet = wallet := by
  obtain ⟨slots, hlayout⟩ := id h
  have hwallets : ∀ id, id ∈ (b.walletIndex.lookup wallet).getD ∅ ↔
      ∃ o ∈ a, o.id = id ∧ o.wallet = wallet := fun _ => hlayout.wallets
  rw [OrderBook.ordersByWallet]
  cases hlook : b.walletIndex.lookup wallet with
  | none =>
    refine ⟨[], rfl, List.nodup_nil, fun o => ?_⟩
    have hnone := hwallets o.id
    rw [hlook] at hnone
    constructor
    · exact fun ho => absurd ho List.not_mem_nil
    · rintro ⟨ho, hw⟩
      exact absurd (hnone.mpr ⟨o, ho, rfl, hw⟩) (Finset.notMem_empty _)
  | some set =>
    rw [hlook] at hwallets
    have hids : ∀ id, id ∈ enum set ↔ ∃ o ∈ a, o.id = id ∧ o.wallet = wallet := fun id =>
      ((henum set).2 id).trans (hwallets id)
    refine ⟨_, walletOrders_spec h (enum set) fun id hid => ?_, ?_, fun o => ?_⟩
    · obtain ⟨o, ho, rfl, -⟩ := (hids id).mp hid
      exact ⟨o, ho, rfl⟩
    · refine (henum set).1.filterMap fun i j o hi hj => ?_
      rw [Option.mem_def, KeyedQueues.find_eq_some_iff] at hi hj
      exact hi.2.symm.trans hj.2
    · rw [List.mem_filterMap]
      constructor
      · rintro ⟨id, hid, hfind⟩
        obtain ⟨ho, rfl⟩ := KeyedQueues.find_eq_some_iff.mp hfind
        obtain ⟨o', ho', hid', hw⟩ := (hids o.id).mp hid
        exact ⟨ho, KeyedQueues.eq_of_key_eq ho' ho hid' ▸ hw⟩
      · rintro ⟨ho, hw⟩
        exact ⟨o.id, (hids o.id).mpr ⟨o, ho, rfl, hw⟩, KeyedQueues.find_of_mem ho⟩

/-- The set of a wallet's orders does not depend on how the hash set is enumerated. -/
theorem toFinset_ordersByWallet (h : Represents π b a) {enum : Finset OrderId → List OrderId}
    (henum : Enumerates enum) (wallet : WalletId) :
    List.toFinset <$> b.ordersByWallet enum wallet =
      .ok (a.orders.filter fun o => o.wallet = wallet).toFinset := by
  obtain ⟨orders, horders, -, hmem⟩ := ordersByWallet_spec h henum wallet
  have hset : orders.toFinset = (a.orders.filter fun o => o.wallet = wallet).toFinset := by
    ext o
    rw [List.mem_toFinset, hmem, List.mem_toFinset, List.mem_filter, AbstractBook.mem_orders,
      decide_eq_true_iff]
  rw [horders, ← hset]
  rfl

/-! ### Top of book -/

/-- What `top_n_levels` says of one price. -/
def unaggregatedLevel (a : AbstractBook) (side : Side) (price : Price) :
    OrderBook.UnaggregatedLevel :=
  ⟨price, (a.queue (side, price)).map fun o => ⟨o.id, o.wallet, o.qty, o.ts⟩⟩

/-- **`top_n_levels`** lists the first `n` prices of a side with their orders. -/
theorem topNLevelsForSide_spec (h : Represents π b a) (side : Side) (n : ℕ) :
    b.topNLevelsForSide side n =
      .ok (((a.prices side).take n).map (unaggregatedLevel a side)) := by
  have hmap : b.topNLevelsForSide side n =
      .ok (((b.depth side).take n).map fun entry => unaggregatedLevel a side entry.1) := by
    refine mapM_eq_ok fun entry _ => ?_
    simp only [ordersAt_spec h, ok_bind]
    rfl
  rw [hmap, depth_spec h, ← List.map_take, List.map_map]
  rfl

theorem topNLevels_spec (h : Represents π b a) (n : ℕ) :
    b.topNLevels n = .ok (((a.prices .bid).take n).map (unaggregatedLevel a .bid),
      ((a.prices .ask).take n).map (unaggregatedLevel a .ask)) := by
  rw [OrderBook.topNLevels, topNLevelsForSide_spec h, topNLevelsForSide_spec h]
  rfl

/-! ### The debug-only consistency check -/

open OrderBook (LevelWalk)

/-- The walk of `assert_invariants` over orders that rest where they should. -/
theorem levelWalk_foldlM {slab : Slab} {is : List ℕ} {orders : List Order} {side : Side}
    {price : Price} (horders : is.map slab.orderAt = orders.map some)
    (hplace : ∀ o ∈ orders, o.place = (side, price)) (w : LevelWalk)
    (hfits : w.qty.toNat + restingQty orders < UInt64.size) :
    is.foldlM (fun w i => slab.node i "live linked slot" >>= fun x =>
      LevelWalk.visit side price i x w) w =
        .ok ⟨w.count + orders.length, w.qty + UInt64.ofNat (restingQty orders),
          is.getLast?.or w.last⟩ := by
  induction is generalizing orders w with
  | nil =>
    obtain rfl : orders = [] := by simpa using horders.symm
    simp [pure, Except.pure]
  | cons i is ih =>
    cases orders with
    | nil => simp at horders
    | cons o os =>
      obtain ⟨ho, hos⟩ := List.cons_eq_cons.mp horders
      obtain ⟨x, hx, rfl⟩ := Slab.orderAt_eq_some_iff.mp ho
      obtain ⟨hside, hprice⟩ := Prod.mk.inj (hplace x.order List.mem_cons_self)
      rw [restingQty_cons] at hfits
      have hadd : Profile.dev.addU64 w.qty x.order.qty = .ok (w.qty + x.order.qty) :=
        Profile.addU64_eq_ok fun _ => by omega
      have hvisit : LevelWalk.visit side price i x w =
          .ok ⟨w.count + 1, w.qty + x.order.qty, some i⟩ := by
        rw [OrderBook.LevelWalk.visit, hadd]
        simp [OrderBook.assertThat, hside, hprice, ok_bind, pure, Except.pure]
      have hle := Nat.mod_le (w.qty.toNat + x.order.qty.toNat) (2 ^ 64)
      rw [List.foldlM_cons, Slab.node_eq_ok hx, ok_bind, hvisit, ok_bind,
        ih hos (fun o ho => hplace o (List.mem_cons_of_mem _ ho)) _
          (by rw [UInt64.toNat_add]; omega)]
      have hcount : w.count + 1 + os.length = w.count + (x.order :: os).length := by
        simp
        omega
      have hqty : w.qty + x.order.qty + UInt64.ofNat (restingQty os) =
          w.qty + UInt64.ofNat (restingQty (x.order :: os)) := by
        rw [restingQty_cons, UInt64.ofNat_add, UInt64.ofNat_toNat, UInt64.add_assoc]
      have hlast : is.getLast?.or (some i) = (i :: is).getLast?.or w.last := by
        rw [List.getLast?_cons]
        cases is.getLast? <;> rfl
      rw [hcount, hqty, hlast]

/-- The occupied slots of a slab, counted by number. -/
theorem countP_isSome (slab : Slab) :
    slab.countP Option.isSome =
      ((Finset.range slab.length).filter fun i => (slab.orderAt i).isSome).card := by
  induction slab using List.reverseRecOn with
  | nil => rfl
  | append_singleton l x ih =>
    have hold : (Finset.range l.length).filter (fun i => (Slab.orderAt (l ++ [x]) i).isSome) =
        (Finset.range l.length).filter fun i => (Slab.orderAt l i).isSome := by
      refine Finset.filter_congr fun i hi => ?_
      rw [Slab.orderAt, Slab.cell, List.getElem?_append_left (Finset.mem_range.mp hi)]
      rfl
    have hnew : (Slab.orderAt (l ++ [x]) l.length).isSome = x.isSome := by
      simp [Slab.orderAt, Slab.cell]
    rw [List.countP_append, List.length_append, List.length_singleton, Finset.range_add_one,
      Finset.filter_insert, hold, hnew, ih, List.countP_singleton]
    cases hx : x.isSome with
    | true =>
      rw [if_pos rfl, if_pos rfl, Finset.card_insert_of_notMem (by simp)]
    | false => simp

/-- The indexed orders and the occupied slots are as many. -/
theorem Layout.card_keys (h : Layout π b slots a) :
    b.len = b.slab.countP Option.isSome := by
  rw [OrderBook.len, countP_isSome]
  symm
  refine Finset.card_bij (fun i hi => ((b.slab.orderAt i).get (Finset.mem_filter.mp hi).2).id)
    ?_ ?_ ?_
  · intro i hi
    have hlook := h.index.mpr ⟨_, (Option.some_get (Finset.mem_filter.mp hi).2).symm, rfl⟩
    rw [Finmap.mem_keys, ← Finmap.lookup_isSome, hlook]
    rfl
  · intro i hi j hj hid
    exact h.indexes.cell_unique (Option.some_get (Finset.mem_filter.mp hi).2).symm
      (Option.some_get (Finset.mem_filter.mp hj).2).symm hid
  · intro id hid
    rw [Finmap.mem_keys, ← Finmap.lookup_isSome] at hid
    obtain ⟨i, hi⟩ := Option.isSome_iff_exists.mp hid
    obtain ⟨o, ho, rfl⟩ := h.index.mp hi
    obtain ⟨x, hx, -⟩ := Slab.orderAt_eq_some_iff.mp ho
    refine ⟨i, Finset.mem_filter.mpr ⟨Finset.mem_range.mpr (Slab.lt_length_of_cell hx), ?_⟩, ?_⟩
    · rw [ho]
      rfl
    · simp [ho]

/-- **No slot is lost**: each is on the free list or holds a live order. -/
theorem Layout.length_freeList (h : Layout π b slots a) :
    b.freeList.length + b.len = b.slabLen := by
  have hfree : b.freeList.toFinset =
      (Finset.range b.slab.length).filter fun i => ¬ (b.slab.orderAt i).isSome := by
    ext i
    rw [List.mem_toFinset, h.free, Finset.mem_filter, Finset.mem_range, Slab.orderAt, Slab.cell]
    constructor
    · intro hi
      refine ⟨(List.getElem?_eq_some_iff.mp hi).1, ?_⟩
      simp [hi]
    · rintro ⟨hlt, hi⟩
      rw [List.getElem?_eq_getElem hlt] at hi ⊢
      cases hx : b.slab[i] with
      | none => rfl
      | some x => simp [hx] at hi
  rw [← List.toFinset_card_of_nodup h.free_nodup, hfree, h.card_keys, countP_isSome, Nat.add_comm,
    Finset.card_filter_add_card_filter_not, Finset.card_range]
  rfl

/-- The checks of one level. -/
theorem Layout.assertLevel_spec (h : Layout .dev b slots a) {side : Side} {price : Price}
    {level : Level} (hlevel : b.levelAt (side, price) = some level) :
    b.assertLevel side price level = .ok () := by
  have hlaid := h.laid (side, price)
  rw [hlevel] at hlaid
  have hfits := h.exact rfl (side, price)
  have hplace : ∀ o ∈ a.queue (side, price), o.place = (side, price) := fun o ho => a.placed ho
  obtain ⟨-, heq⟩ := levelOf_eq_some_iff.mp hlaid.level_eq.symm
  have hzero : (0 : Qty).toNat + restingQty (a.queue (side, price)) < UInt64.size := by
    show 0 + _ < _
    omega
  rw [OrderBook.assertLevel, hlaid.walk_eq (h.slots_nodup _),
    levelWalk_foldlM hlaid.orders_eq hplace ⟨0, 0, none⟩ hzero, ok_bind, heq]
  simp [OrderBook.assertThat, hlaid.length_eq, ok_bind]

/-- **The consistency check of a debug build passes.** -/
theorem assertInvariants_spec (h : Represents .dev b a) : b.assertInvariants = .ok () := by
  obtain ⟨slots, h⟩ := h
  have hlevels : forIn [Side.bid, Side.ask] PUnit.unit (fun side _ => do
      forIn (b.levels side).toList PUnit.unit fun (entry : Price × Level) _ => do
        b.assertLevel side entry.1 entry.2
        pure (ForInStep.yield PUnit.unit)
      pure (ForInStep.yield PUnit.unit)) = (.ok PUnit.unit : Except Fault PUnit) := by
    refine forIn_unit_eq_ok fun side _ _ => ?_
    rw [forIn_unit_eq_ok]
    · rfl
    · rintro ⟨price, level⟩ hmem _
      rw [h.assertLevel_spec (Std.ExtTreeMap.mem_toList_iff_getElem?_eq_some.mp hmem)]
      rfl
  show (_ >>= _) = _
  rw [hlevels, ok_bind, h.card_keys]
  exact if_pos (decide_eq_true rfl)

theorem debugAssertInvariants_spec (h : Represents π b a) :
    b.debugAssertInvariants π = .ok () := by
  rw [OrderBook.debugAssertInvariants]
  by_cases hπ : π = .dev
  · subst hπ
    rw [if_pos rfl]
    exact assertInvariants_spec h
  · exact if_neg hπ

/-! ### All read views together -/

/-- Every read view of `b` is the reading of `a`. -/
structure Reads (b : OrderBook) (a : AbstractBook) : Prop where
  ordersAt : ∀ side price, b.ordersAt side price = .ok (a.queue (side, price))
  get : ∀ id, b.get id = .ok (a.find id)
  len : b.len = a.orders.length
  depth : ∀ side, b.depth side = (a.prices side).map (depthEntry a side)
  levelSummary : ∀ side price, b.levelSummary side price =
    if a.queue (side, price) = [] then none
    else some (UInt64.ofNat (restingQty (a.queue (side, price))), (a.queue (side, price)).length)
  bestBid : b.bestBid = (a.prices .bid).head?
  bestAsk : b.bestAsk = (a.prices .ask).head?
  ordersByWallet : ∀ enum, Enumerates enum → ∀ wallet, ∃ orders,
    b.ordersByWallet enum wallet = .ok orders ∧ orders.Nodup ∧
      ∀ o, o ∈ orders ↔ o ∈ a ∧ o.wallet = wallet

/-- **All read views agree with the abstract book.** -/
theorem Represents.reads (h : Represents π b a) : Reads b a where
  ordersAt := ordersAt_spec h
  get := get_spec h
  len := len_spec h
  depth := depth_spec h
  levelSummary := levelSummary_spec h
  bestBid := bestBid_spec h
  bestAsk := bestAsk_spec h
  ordersByWallet := fun _ henum => ordersByWallet_spec h henum

end L4Book
