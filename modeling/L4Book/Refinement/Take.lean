import L4Book.Refinement.Slippage

/-!
# Carrying out a match

`apply_taker_order` computes the fills on one book and applies them one by one to books that change
under them. Every fill names a live order of which it takes something, and no two fills name the
same order, so none of the calls it makes can be refused: the book it leaves behind represents the
abstract book with every maker resized.

## Main definitions

* `AbstractBook.settle`: resize every maker
* `leftover`: what a demand leaves of a list of orders
* `AbstractBook.applyTakerOrder`

## Main results

* `applyFills_spec`, `applyTakerOrder_spec`
* `settle_eq`: settling changes orders where they stand
* `filterMap_settleAt`, `marketable_settle`: it leaves of the makers what the demand leaves
-/

namespace L4Book

/-! ### Settling -/

/-- What becomes of an order when the fills have been carried out. -/
def settleAt : List FillDelta → Order → Option Order
  | [], o => some o
  | f :: fs, o => (AbstractBook.resizeAt f.makerOrderId f.makerQtyAfter o).bind (settleAt fs)

/-- Resize every maker, taking those without a remainder off the book. -/
def AbstractBook.settle (a : AbstractBook) (fills : List FillDelta) : AbstractBook :=
  fills.foldl (fun a f => a.resize f.makerOrderId f.makerQtyAfter) a

variable {fills : List FillDelta} {f : FillDelta} {o o' : Order} {a : AbstractBook}

theorem settleAt_staysPut (fills : List FillDelta) :
    KeyedQueues.StaysPut Order.place Order.id (fun o => o.qty ≠ 0) (settleAt fills) := by
  induction fills with
  | nil =>
    constructor
    · intro x y h
      rw [← Option.some.inj h]
    · intro x y h
      rw [← Option.some.inj h]
    · intro x y h hx
      rwa [← Option.some.inj h]
  | cons f fs ih => exact (AbstractBook.resizeAt_staysPut _ _).bind ih

/-- **Settling changes orders where they stand.** -/
theorem settle_eq (a : AbstractBook) (fills : List FillDelta) :
    a.settle fills = a.filterMap (settleAt fills) (settleAt_staysPut fills) := by
  induction fills generalizing a with
  | nil => exact (KeyedQueues.filterMap_eq_self fun _ _ => rfl).symm
  | cons f fs ih =>
    show (a.resize f.makerOrderId f.makerQtyAfter).settle fs = _
    rw [ih]
    exact KeyedQueues.filterMap_filterMap

/-- An order no fill names stays as it is. -/
theorem settleAt_of_not_mem (h : o.id ∉ fills.map FillDelta.makerOrderId) :
    settleAt fills o = some o := by
  induction fills with
  | nil => rfl
  | cons f fs ih =>
    rw [List.map_cons, List.mem_cons, not_or] at h
    rw [settleAt, AbstractBook.resizeAt_of_ne h.1, Option.bind_some, ih h.2]

/-- A fill is the only one that changes its maker. -/
theorem settleAt_of_mem (hnodup : (fills.map FillDelta.makerOrderId).Nodup) (hf : f ∈ fills)
    (hid : f.makerOrderId = o.id) :
    settleAt fills o = AbstractBook.resizeAt o.id f.makerQtyAfter o := by
  induction fills with
  | nil => exact absurd hf List.not_mem_nil
  | cons g fs ih =>
    rw [List.map_cons, List.nodup_cons] at hnodup
    rcases List.mem_cons.mp hf with rfl | hf
    · rw [settleAt, hid]
      cases ho : AbstractBook.resizeAt o.id f.makerQtyAfter o with
      | none => rfl
      | some o' =>
        have hkey : o'.id = o.id := (AbstractBook.resizeAt_staysPut _ _).key_eq ho
        rw [Option.bind_some]
        refine settleAt_of_not_mem ?_
        rw [hkey, ← hid]
        exact hnodup.1
    · have hne : o.id ≠ g.makerOrderId := by
        intro heq
        refine hnodup.1 (List.mem_map.mpr ⟨f, hf, ?_⟩)
        rw [hid, heq]
      rw [settleAt, AbstractBook.resizeAt_of_ne hne, Option.bind_some, ih hnodup.2 hf]

/-! ### Carrying out fills -/

variable {π : Profile} {b : OrderBook}

/-- The fill names a live order and takes something from it. -/
def Fits (a : AbstractBook) (f : FillDelta) : Prop :=
  ∃ o ∈ a, o.id = f.makerOrderId ∧ f.makerQtyAfter < o.qty ∧
    f.makerRemoved = decide (f.makerQtyAfter = 0)

/-- One round of `apply_taker_order`: the call it makes is not refused. -/
theorem applyFill_spec (h : Represents π b a) (hfits : Fits a f) :
    Returns (OnlyOverflow π False) (b.applyFill π f) fun r =>
      r.1 = .ok () ∧ Represents π r.2 (a.resize f.makerOrderId f.makerQtyAfter) := by
  obtain ⟨o, ho, hid, hlt, hremoved⟩ := hfits
  have hfind : a.find f.makerOrderId = some o := KeyedQueues.find_eq_some_iff.mpr ⟨ho, hid⟩
  rw [OrderBook.applyFill]
  by_cases hzero : f.makerQtyAfter = 0
  · rw [hremoved, decide_eq_true hzero, if_pos rfl, hzero]
    have hspec := removeUnit_spec h f.makerOrderId
    rw [AbstractBook.remove, hfind] at hspec
    exact hspec
  · rw [hremoved, decide_eq_false hzero, if_neg Bool.false_ne_true]
    have hspec := updateSize_spec h f.makerOrderId f.makerQtyAfter
    rw [AbstractBook.updateSize, hfind] at hspec
    simp only [if_neg (UInt64.not_le.mpr hlt)] at hspec
    exact hspec

/-- The fills left to carry out still fit when one has been carried out. -/
theorem Fits.resize {g : FillDelta} (h : Fits a f)
    (hne : f.makerOrderId ≠ g.makerOrderId) :
    Fits (a.resize g.makerOrderId g.makerQtyAfter) f := by
  obtain ⟨o, ho, hid, hlt, hremoved⟩ := h
  refine ⟨o, KeyedQueues.mem_filterMap.mpr ⟨o, ho, ?_⟩, hid, hlt, hremoved⟩
  exact AbstractBook.resizeAt_of_ne (hid ▸ hne)

/-- **Every fill is carried out.** -/
theorem applyFills_spec (h : Represents π b a) (hfits : ∀ f ∈ fills, Fits a f)
    (hnodup : (fills.map FillDelta.makerOrderId).Nodup) :
    Returns (OnlyOverflow π False) (b.applyFills π fills) fun r =>
      r.1 = .ok () ∧ Represents π r.2 (a.settle fills) := by
  induction fills generalizing a b with
  | nil => exact ⟨rfl, h⟩
  | cons f fs ih =>
    rw [List.map_cons, List.nodup_cons] at hnodup
    have hf := hfits f List.mem_cons_self
    rw [OrderBook.applyFills]
    refine (applyFill_spec h hf).bind ?_
    rintro ⟨r, b'⟩ ⟨rfl, hb'⟩
    refine ih hb' (fun g hg => ?_) hnodup.2
    refine (hfits g (List.mem_cons_of_mem _ hg)).resize ?_
    intro heq
    exact hnodup.1 (List.mem_map.mpr ⟨g, hg, heq⟩)

/-! ### What a demand leaves -/

/-- What a demand leaves of a list of orders: it eats them from the front. -/
def leftover : List Order → ℕ → List Order
  | [], _ => []
  | o :: l, q =>
    if o.cap ≤ q then leftover l (q - o.cap) else o.withQty (o.qty - UInt64.ofNat q) :: l

theorem leftover_cons_of_le {l : List Order} {q : ℕ} (h : o.cap ≤ q) :
    leftover (o :: l) q = leftover l (q - o.cap) := if_pos h

theorem leftover_cons_of_lt {l : List Order} {q : ℕ} (h : q < o.cap) :
    leftover (o :: l) q = o.withQty (o.qty - UInt64.ofNat q) :: l := if_neg (Nat.not_le.mpr h)

theorem Order.toNat_sub_ofNat {q : ℕ} (h : q ≤ o.cap) :
    (o.qty - UInt64.ofNat q).toNat = o.cap - q := by
  have hq : (UInt64.ofNat q).toNat = q :=
    UInt64.toNat_ofNat_of_lt' (Nat.lt_of_le_of_lt h o.qty.toNat_lt_size)
  have hle : UInt64.ofNat q ≤ o.qty := by
    rwa [UInt64.le_iff_toNat_le, hq]
  rw [UInt64.toNat_sub_of_le _ _ hle, hq]
  rfl

theorem Order.sub_ofNat_eq_zero_iff {q : ℕ} (h : q ≤ o.cap) :
    o.qty - UInt64.ofNat q = 0 ↔ q = o.cap := by
  rw [← UInt64.toNat_inj, Order.toNat_sub_ofNat h]
  show _ = 0 ↔ _
  omega

theorem leftover_zero {l : List Order} (hpos : ∀ o ∈ l, 0 < o.cap) : leftover l 0 = l := by
  cases l with
  | nil => rfl
  | cons o l =>
    have hsub : o.qty - UInt64.ofNat 0 = o.qty := by
      grind
    rw [leftover_cons_of_lt (hpos o List.mem_cons_self), hsub, Order.withQty_self]

/-- **What is left is the supply less the demand.** -/
theorem restingQty_leftover (l : List Order) (q : ℕ) :
    restingQty (leftover l q) = restingQty l - q := by
  induction l generalizing q with
  | nil => simp [leftover]
  | cons o l ih =>
    rw [restingQty_cons]
    rcases Nat.lt_or_ge q o.cap with hlt | hle
    · rw [leftover_cons_of_lt hlt, restingQty_cons, Order.qty_withQty,
        Order.toNat_sub_ofNat hlt.le]
      show _ = o.cap + _ - q
      omega
    · rw [leftover_cons_of_le hle, ih]
      show _ = o.cap + _ - q
      omega

/-- A demand that the list cannot exceed leaves nothing. -/
theorem leftover_of_le {l : List Order} {q : ℕ} (h : restingQty l ≤ q) : leftover l q = [] := by
  induction l generalizing q with
  | nil => rfl
  | cons o l ih =>
    rw [restingQty_cons] at h
    have ho : o.cap ≤ q := Nat.le_trans (Nat.le_add_right _ _) h
    rw [leftover_cons_of_le ho]
    refine ih ?_
    show _ ≤ q - o.qty.toNat
    omega

/-- The ids of the fills of a greedy consumption are ids of the makers. -/
theorem ids_consume (l : List Order) (q : ℕ) :
    ((consume Order.cap l q).map fillOf).map FillDelta.makerOrderId <+: l.map Order.id := by
  have hused : (consume Order.cap l q).map Prod.fst <+: l := consume_isPrefix
  have hids := hused.map Order.id
  rw [List.map_map] at hids ⊢
  exact hids

/-- **Settling leaves of the makers what the demand leaves.** -/
theorem filterMap_settleAt {l : List Order} (hpos : ∀ o ∈ l, 0 < o.cap)
    (hnodup : (l.map Order.id).Nodup) (q : ℕ) :
    l.filterMap (settleAt ((consume Order.cap l q).map fillOf)) = leftover l q := by
  induction l generalizing q with
  | nil => rfl
  | cons x l ih =>
    by_cases hq : q = 0
    · subst hq
      rw [consume_zero, leftover_zero hpos]
      exact List.filterMap_some
    · rw [List.map_cons, List.nodup_cons] at hnodup
      have ih := ih (fun o ho => hpos o (List.mem_cons_of_mem _ ho)) hnodup.2 (q - min q x.cap)
      have hrest : l.filterMap (settleAt ((consume Order.cap (x :: l) q).map fillOf)) =
          leftover l (q - min q x.cap) := by
        rw [← ih, consume_cons hq, List.map_cons]
        refine List.filterMap_congr fun o ho => ?_
        have hne : o.id ≠ x.id := fun heq => hnodup.1 (heq ▸ List.mem_map_of_mem ho)
        rw [settleAt]
        show (AbstractBook.resizeAt x.id _ o).bind _ = _
        rw [AbstractBook.resizeAt_of_ne hne, Option.bind_some]
      have hx : settleAt ((consume Order.cap (x :: l) q).map fillOf) x =
          AbstractBook.resizeAt x.id (x.qty - UInt64.ofNat (min q x.cap)) x := by
        refine settleAt_of_mem ?_ (f := fillOf (x, min q x.cap)) ?_ rfl
        · refine List.Nodup.sublist (ids_consume (x :: l) q).sublist ?_
          rw [List.map_cons, List.nodup_cons]
          exact hnodup
        · rw [consume_cons hq]
          exact List.mem_cons_self
      have hmin : min q x.cap ≤ x.cap := Nat.min_le_right _ _
      rcases Nat.lt_or_ge q x.cap with hlt | hle
      · have hne : x.qty - UInt64.ofNat (min q x.cap) ≠ 0 := by
          rw [ne_eq, Order.sub_ofNat_eq_zero_iff hmin]
          omega
        rw [AbstractBook.resizeAt_of_eq rfl hne] at hx
        rw [leftover_cons_of_lt hlt, List.filterMap_cons_some hx, hrest, Nat.min_eq_left hlt.le,
          Nat.sub_self, leftover_zero fun o ho => hpos o (List.mem_cons_of_mem _ ho)]
      · have hzero : x.qty - UInt64.ofNat (min q x.cap) = 0 :=
          (Order.sub_ofNat_eq_zero_iff hmin).mpr (Nat.min_eq_right hle)
        rw [hzero, AbstractBook.resizeAt_zero rfl] at hx
        rw [leftover_cons_of_le hle, List.filterMap_cons_none hx, hrest, Nat.min_eq_right hle]

/-! ### The taker -/

namespace AbstractBook

variable (a : AbstractBook) (taker : Side) (qty : Qty) (limit : Price)

/-- Match a taker order and settle the match. -/
noncomputable def applyTakerOrder : Except BookError TakerMatch × AbstractBook :=
  if qty = 0 then (.error .zeroQty, a)
  else (.ok (a.matchTakerOrder taker qty limit),
    a.settle (a.matchTakerOrder taker qty limit).fills)

variable {a taker qty limit}

theorem cap_pos_of_mem_marketable (h : o ∈ a.marketable taker limit) : 0 < o.cap :=
  marketable_qty_pos h

/-- Every fill of a match fits the book it was computed on. -/
theorem fits_of_mem_fills (hf : f ∈ (a.matchTakerOrder taker qty limit).fills) : Fits a f := by
  obtain ⟨⟨o, n⟩, huse, rfl⟩ := List.mem_map.mp hf
  have hmem := mem_marketable.mp (mem_of_mem_consume huse)
  obtain ⟨hpos, hle⟩ :=
    amount_of_mem_consume (fun o => cap_pos_of_mem_marketable) huse
  refine ⟨o, hmem.1, rfl, ?_, rfl⟩
  show o.qty - UInt64.ofNat n < o.qty
  rw [UInt64.lt_iff_toNat_lt, Order.toNat_sub_ofNat hle]
  show o.cap - n < o.cap
  omega

/-- The fills of a match name distinct orders. -/
theorem fills_ids_nodup (a : AbstractBook) (taker : Side) (qty : Qty) (limit : Price) :
    ((a.matchTakerOrder taker qty limit).fills.map FillDelta.makerOrderId).Nodup :=
  (a.marketable_ids_nodup taker limit).sublist (ids_consume _ _).sublist

/-- **What is left of the orders a taker could reach.** -/
theorem marketable_settle (a : AbstractBook) (taker : Side) (qty : Qty) (limit : Price) :
    (a.settle (a.matchTakerOrder taker qty limit).fills).marketable taker limit =
      leftover (a.marketable taker limit) qty.toNat := by
  rw [settle_eq, marketable_filterMap]
  exact filterMap_settleAt (fun o => cap_pos_of_mem_marketable)
    (a.marketable_ids_nodup taker limit) qty.toNat

/-- A taker that wanted more has taken all it could reach. -/
theorem marketable_settle_eq_nil (h : 0 < (a.matchTakerOrder taker qty limit).unfilledQty) :
    (a.settle (a.matchTakerOrder taker qty limit).fills).marketable taker limit = [] := by
  have hunfilled := a.unfilledQty_toNat taker qty limit
  have hpos : 0 < (qty - a.filledQty taker qty limit).toNat := UInt64.lt_iff_toNat_lt.mp h
  rw [marketable_settle]
  exact leftover_of_le (by omega)

end AbstractBook

/-- **`apply_taker_order` carries out what `match_taker_order` reports.** It cannot fault. -/
theorem applyTakerOrder_spec (h : Represents π b a) (taker : Side) (qty : Qty) (limit : Price) :
    Returns (OnlyOverflow π False) (b.applyTakerOrder π taker qty limit) fun r =>
      r.1 = (a.applyTakerOrder taker qty limit).1 ∧
        Represents π r.2 (a.applyTakerOrder taker qty limit).2 := by
  rw [OrderBook.applyTakerOrder, AbstractBook.applyTakerOrder]
  by_cases hq : qty = 0
  · rw [if_pos hq, if_pos hq]
    exact ⟨rfl, h⟩
  · rw [if_neg hq, if_neg hq, matchTakerOrder_spec h, ok_bind]
    refine (applyFills_spec h (fun f => AbstractBook.fits_of_mem_fills)
      (a.fills_ids_nodup taker qty limit)).bind ?_
    rintro ⟨r, b'⟩ ⟨rfl, hb'⟩
    exact ⟨rfl, hb'⟩

end L4Book
