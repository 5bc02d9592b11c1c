import L4Book.AbstractBook
import L4Book.Foundation.Greedy
import L4Book.Matching
import Mathlib.Data.Finset.Sort

/-!
# Prices in priority order

The prices of one side of an abstract book, best first, and the orders behind them. `AsGood side`
is the priority order of the prices of a side, highest first for bids and lowest first for asks.
The ladder of a side is all its orders, best price first and first-in-first-out inside each price:
it is what a taker walks down. A limit cuts it at the first price that is too bad.

## Main definitions

* `AsGood`: the priority order of prices
* `AbstractBook.prices`, `ladder`, `marketable`

## Main results

* `prices_eq`: the prices are the only sorted list of the prices at which an order rests
* `mem_marketable`: what a taker can reach
* `ladder_filterMap`, `marketable_filterMap`: ladders of changed books
* `marketable_eq_takeWhile`: marketable orders come before all others
-/

namespace L4Book

/-- `p` is at least as good a price as `q` for an order resting on this side. -/
def AsGood (side : Side) (p q : Price) : Prop :=
  match side with
  | .bid => q ≤ p
  | .ask => p ≤ q

instance (side : Side) : DecidableRel (AsGood side) := fun p q => by
  cases side <;> exact inferInstanceAs (Decidable (_ ≤ _))

variable {side taker : Side} {p q limit : Price}

theorem asGood_refl (side : Side) (p : Price) : AsGood side p p := by
  cases side <;> exact UInt64.le_refl p

theorem AsGood.trans {r : Price} (h : AsGood side p q) (h' : AsGood side q r) :
    AsGood side p r := by
  cases side
  · exact UInt64.le_trans h' h
  · exact UInt64.le_trans h h'

theorem AsGood.antisymm (h : AsGood side p q) (h' : AsGood side q p) : p = q := by
  cases side
  · exact UInt64.le_antisymm h' h
  · exact UInt64.le_antisymm h h'

theorem asGood_total (side : Side) (p q : Price) : AsGood side p q ∨ AsGood side q p := by
  cases side
  · exact UInt64.le_total q p
  · exact UInt64.le_total p q

instance (side : Side) : IsTrans Price (AsGood side) := ⟨fun _ _ _ => AsGood.trans⟩

instance (side : Side) : Std.Antisymm (AsGood side) := ⟨fun _ _ => AsGood.antisymm⟩

instance (side : Side) : Std.Total (AsGood side) := ⟨asGood_total side⟩

/-- **The matcher's limit test is the priority order of the side it consumes.** -/
theorem limitAllows_iff : limitAllows taker p limit = true ↔ AsGood taker.opposite p limit := by
  cases taker <;> simp [limitAllows, AsGood, Side.opposite]

namespace AbstractBook

variable (a : AbstractBook)

theorem finite_prices (side : Side) : {p | a.queue (side, p) ≠ []}.Finite :=
  a.finite.preimage (fun _ _ _ _ h => (Prod.mk.inj h).2)

/-- The prices of a side at which an order rests, best first. -/
noncomputable def prices (side : Side) : List Price :=
  (a.finite_prices side).toFinset.sort (AsGood side)

/-- The orders of a side, best price first and FIFO inside each price. -/
noncomputable def ladder (side : Side) : List Order :=
  (a.prices side).flatMap fun p => a.queue (side, p)

/-- The orders a taker with this limit can reach, in the order in which it reaches them: the ladder
of the opposite side, cut at the first price the limit does not allow. -/
noncomputable def marketable (taker : Side) (limit : Price) : List Order :=
  ((a.prices taker.opposite).takeWhile fun p => limitAllows taker p limit).flatMap fun p =>
    a.queue (taker.opposite, p)

variable {a} {o : Order}

theorem mem_prices : p ∈ a.prices side ↔ a.queue (side, p) ≠ [] := by
  rw [prices, Finset.mem_sort, Set.Finite.mem_toFinset, Set.mem_ofPred_eq]

theorem prices_pairwise (a : AbstractBook) (side : Side) :
    (a.prices side).Pairwise (AsGood side) := Finset.pairwise_sort _ _

theorem prices_nodup (a : AbstractBook) (side : Side) : (a.prices side).Nodup :=
  Finset.sort_nodup _ _

/-- **The prices are the only sorted list of the prices at which an order rests.** -/
theorem prices_eq {ps : List Price} (hsorted : ps.Pairwise (AsGood side)) (hnodup : ps.Nodup)
    (hmem : ∀ p, p ∈ ps ↔ a.queue (side, p) ≠ []) : ps = a.prices side := by
  have hperm : ps.Perm (a.prices side) :=
    (List.perm_ext_iff_of_nodup hnodup (a.prices_nodup side)).mpr fun p =>
      (hmem p).trans mem_prices.symm
  exact hperm.eq_of_pairwise' hsorted (a.prices_pairwise side)

theorem mem_ladder : o ∈ a.ladder side ↔ o ∈ a ∧ o.side = side := by
  rw [ladder, List.mem_flatMap]
  constructor
  · rintro ⟨p, -, ho⟩
    exact ⟨KeyedQueues.mem_of_mem_queue ho, congrArg Prod.fst (a.placed ho)⟩
  · rintro ⟨ho, rfl⟩
    exact ⟨o.price, mem_prices.mpr (List.ne_nil_of_mem ho), ho⟩

/-- Cutting a sorted list at the first bad item leaves the good items. -/
theorem takeWhile_eq_filter {α : Type*} {r : α → α → Prop} {good : α → Bool} {l : List α}
    (hsorted : l.Pairwise r) (hgood : ∀ x y, r x y → good y = true → good x = true) :
    l.takeWhile good = l.filter good := by
  induction l with
  | nil => rfl
  | cons x l ih =>
    obtain ⟨hhead, htail⟩ := List.pairwise_cons.mp hsorted
    by_cases hx : good x = true
    · rw [List.takeWhile_cons, if_pos hx, List.filter_cons_of_pos hx, ih htail]
    · rw [List.takeWhile_cons, if_neg hx, List.filter_cons_of_neg hx, eq_comm,
        List.filter_eq_nil_iff]
      exact fun y hy hgy => hx (hgood x y (hhead y hy) hgy)

/-- A price behind one that is not allowed is not allowed either. -/
theorem limitAllows_of_asGood (h : AsGood taker.opposite p q)
    (hq : limitAllows taker q limit = true) : limitAllows taker p limit = true :=
  limitAllows_iff.mpr (h.trans (limitAllows_iff.mp hq))

theorem allowed_prices (a : AbstractBook) (taker : Side) (limit : Price) :
    (a.prices taker.opposite).takeWhile (fun p => limitAllows taker p limit) =
      (a.prices taker.opposite).filter fun p => limitAllows taker p limit :=
  takeWhile_eq_filter (a.prices_pairwise _) fun _ _ => limitAllows_of_asGood

/-- **What a taker can reach**: the orders of the opposite side at allowed prices. -/
theorem mem_marketable :
    o ∈ a.marketable taker limit ↔
      o ∈ a ∧ o.side = taker.opposite ∧ limitAllows taker o.price limit = true := by
  rw [marketable, allowed_prices, List.mem_flatMap]
  constructor
  · rintro ⟨p, hp, ho⟩
    have hplace : o.place = (taker.opposite, p) := a.placed ho
    obtain ⟨hside, hprice⟩ := Prod.mk.inj hplace
    rw [hprice]
    exact ⟨KeyedQueues.mem_of_mem_queue ho, hside,
      (List.mem_filter.mp hp).2⟩
  · rintro ⟨ho, hside, hallow⟩
    have hqueue : o ∈ a.queue (taker.opposite, o.price) := hside ▸ ho
    exact ⟨o.price, List.mem_filter.mpr
      ⟨mem_prices.mpr (List.ne_nil_of_mem hqueue), hallow⟩, hqueue⟩

/-- The ladder is the marketable orders, then the orders beyond the limit. -/
theorem marketable_prefix (a : AbstractBook) (taker : Side) (limit : Price) :
    a.marketable taker limit <+: a.ladder taker.opposite := by
  obtain ⟨rest, hrest⟩ := List.takeWhile_prefix (l := a.prices taker.opposite)
    (fun p => limitAllows taker p limit)
  rw [ladder, ← hrest, List.flatMap_append]
  exact List.prefix_append _ _

/-- No order occurs twice on a ladder. -/
theorem ladder_ids_nodup (a : AbstractBook) (side : Side) :
    ((a.ladder side).map Order.id).Nodup := by
  rw [ladder, List.map_flatMap, List.nodup_flatMap]
  refine ⟨fun p _ => a.nodup (side, p), ?_⟩
  refine (a.prices_nodup side).imp fun hne => ?_
  refine List.disjoint_left.mpr fun id hp hq => ?_
  obtain ⟨x, hx, rfl⟩ := List.mem_map.mp hp
  obtain ⟨y, hy, hid⟩ := List.mem_map.mp hq
  exact hne (Prod.mk.inj (a.keyed hx hy hid.symm)).2

theorem marketable_ids_nodup (a : AbstractBook) (taker : Side) (limit : Price) :
    ((a.marketable taker limit).map Order.id).Nodup :=
  (a.ladder_ids_nodup taker.opposite).sublist
    ((a.marketable_prefix taker limit).sublist.map Order.id)

theorem marketable_qty_pos (h : o ∈ a.marketable taker limit) : 0 < o.qty.toNat := by
  have hq : o.qty ≠ 0 := a.valid (mem_marketable.mp h).1
  refine Nat.pos_of_ne_zero fun hzero => hq ?_
  exact UInt64.toNat_inj.mp hzero

/-! ### Ladders of changed books -/

/-- Prices at which nothing rests do not matter to a ladder. -/
theorem flatMap_filter_ne_nil {α β : Type*} (f : α → List β) (l : List α) :
    (l.filter fun x => f x ≠ []).flatMap f = l.flatMap f := by
  induction l with
  | nil => rfl
  | cons x l ih =>
    by_cases hx : f x = []
    · rw [List.filter_cons_of_neg (by simpa using hx), ih, List.flatMap_cons, hx, List.nil_append]
    · rw [List.filter_cons_of_pos (by simpa using hx), List.flatMap_cons, List.flatMap_cons, ih]

theorem prices_filterMap {g : Order → Option Order}
    (hg : KeyedQueues.StaysPut Order.place Order.id (fun o => o.qty ≠ 0) g) (side : Side) :
    prices (a.filterMap g hg) side =
      (a.prices side).filter fun p => (a.queue (side, p)).filterMap g ≠ [] := by
  refine (prices_eq ((a.prices_pairwise side).filter _) ((a.prices_nodup side).filter _)
    fun p => ?_).symm
  rw [List.mem_filter, mem_prices, KeyedQueues.queue_filterMap, decide_eq_true_iff]
  refine ⟨And.right, fun hne => ⟨fun hnil => hne ?_, hne⟩⟩
  rw [hnil, List.filterMap_nil]

/-- **Changing orders where they stand changes the ladder item by item.** -/
theorem ladder_filterMap {g : Order → Option Order}
    (hg : KeyedQueues.StaysPut Order.place Order.id (fun o => o.qty ≠ 0) g) (side : Side) :
    ladder (a.filterMap g hg) side = (a.ladder side).filterMap g := by
  rw [ladder, prices_filterMap, ladder, List.filterMap_flatMap]
  exact flatMap_filter_ne_nil (fun p => (a.queue (side, p)).filterMap g) (a.prices side)

/-- A ladder is sorted by price. -/
theorem ladder_pairwise (a : AbstractBook) (side : Side) :
    (a.ladder side).Pairwise fun o o' => AsGood side o.price o'.price := by
  have hprice : ∀ {p o}, o ∈ a.queue (side, p) → o.price = p := fun ho =>
    congrArg Prod.snd (a.placed ho)
  rw [ladder, List.pairwise_flatMap]
  constructor
  · intro p _
    refine List.pairwise_of_forall_mem_list fun o ho o' ho' => ?_
    rw [hprice ho, hprice ho']
    exact asGood_refl side p
  · refine (a.prices_pairwise side).imp fun hgood o ho o' ho' => ?_
    rwa [hprice ho, hprice ho']

/-- **The marketable orders are the ladder's orders at allowed prices.** -/
theorem marketable_eq_filter (a : AbstractBook) (taker : Side) (limit : Price) :
    a.marketable taker limit =
      (a.ladder taker.opposite).filter fun o => limitAllows taker o.price limit := by
  have hprice : ∀ {p o}, o ∈ a.queue (taker.opposite, p) → o.price = p := fun ho =>
    congrArg Prod.snd (a.placed ho)
  rw [marketable, allowed_prices, ladder]
  induction a.prices taker.opposite with
  | nil => rfl
  | cons p ps ih =>
    rw [List.flatMap_cons, List.filter_append, ← ih]
    by_cases hp : limitAllows taker p limit = true
    · have hall : (a.queue (taker.opposite, p)).filter
          (fun o => limitAllows taker o.price limit) = a.queue (taker.opposite, p) := by
        rw [List.filter_eq_self]
        exact fun o ho => hprice ho ▸ hp
      rw [List.filter_cons, if_pos hp, List.flatMap_cons, hall]
    · have hnil : (a.queue (taker.opposite, p)).filter
          (fun o => limitAllows taker o.price limit) = [] := by
        rw [List.filter_eq_nil_iff]
        exact fun o ho => hprice ho ▸ hp
      rw [List.filter_cons, if_neg hp, hnil, List.nil_append]

/-- The marketable orders are the ladder up to the first price beyond the limit. -/
theorem marketable_eq_takeWhile (a : AbstractBook) (taker : Side) (limit : Price) :
    a.marketable taker limit =
      (a.ladder taker.opposite).takeWhile fun o => limitAllows taker o.price limit := by
  rw [marketable_eq_filter]
  exact (takeWhile_eq_filter (a.ladder_pairwise _) fun _ _ => limitAllows_of_asGood).symm

theorem marketable_filterMap {g : Order → Option Order}
    (hg : KeyedQueues.StaysPut Order.place Order.id (fun o => o.qty ≠ 0) g) (taker : Side)
    (limit : Price) :
    marketable (a.filterMap g hg) taker limit = (a.marketable taker limit).filterMap g := by
  have hcomm : ∀ o : Order, (g o).filter (fun o => limitAllows taker o.price limit) =
      if limitAllows taker o.price limit = true then g o else none := by
    intro o
    cases ho : g o with
    | none => simp
    | some o' =>
      have hprice : o'.price = o.price := congrArg Prod.snd (hg.place_eq ho)
      rw [Option.filter_some, hprice]
  rw [marketable_eq_filter, ladder_filterMap, marketable_eq_filter, List.filter_filterMap,
    List.filterMap_filter]
  exact List.filterMap_congr fun o _ => hcomm o

end AbstractBook

end L4Book
