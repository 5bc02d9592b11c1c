import L4Book.Results.Failures

/-!
# Splitting a taker order

Two taker orders one after the other do what one order for their sum does. The second walks a book
that the first has changed: the makers used in full are gone, and at most one is left with less
than it had. That maker is the last of the first fill list and the first of the second, and merging
its two fills gives the fill of the single order.

## Main definitions

* `mergeFills`: a list of fills with two neighbours on one maker made one
* `MeetsOnce`: two fill lists share at most the maker at the seam
* `MergesTo`: two fill lists that can be merged at the seam, and what merging them gives
* `SplitsInto`: the outcomes of the two orders and of the single one

## Main results

* `merge_consume`: the seam of two greedy consumptions
* `takerOrder_splits`
-/

namespace L4Book

/-! ### Merging fills -/

/-- Two fills of one maker as one. -/
def FillDelta.merge (f g : FillDelta) : FillDelta :=
  { f with
    filledQty := f.filledQty + g.filledQty
    makerQtyAfter := g.makerQtyAfter
    makerRemoved := g.makerRemoved }

/-- Make one fill of the first two neighbours with the same maker. -/
def mergeFills : List FillDelta → List FillDelta
  | f :: g :: rest =>
    if f.makerOrderId = g.makerOrderId then f.merge g :: rest else f :: mergeFills (g :: rest)
  | fills => fills

/-- The only maker that both lists can name is the last of the first and the first of the second. -/
def MeetsOnce (fills fills' : List FillDelta) : Prop :=
  ∀ f ∈ fills, ∀ g ∈ fills', f.makerOrderId = g.makerOrderId →
    fills.getLast? = some f ∧ fills'.head? = some g

/-- A maker that a list names twice in a row is left with something in between. -/
def Mergeable (fills : List FillDelta) : Prop :=
  fills.IsChain fun f g => f.makerOrderId = g.makerOrderId → f.makerQtyAfter ≠ 0

variable {fills fills' : List FillDelta} {f : FillDelta} {a : AbstractBook}

theorem mergeFills_cons (h : f.makerOrderId ∉ fills.map FillDelta.makerOrderId) :
    mergeFills (f :: fills) = f :: mergeFills fills := by
  cases fills with
  | nil => rfl
  | cons g fills =>
    rw [List.map_cons, List.mem_cons, not_or] at h
    rw [mergeFills, if_neg h.1]

/-- Fills of distinct makers are not merged. -/
theorem mergeFills_of_nodup (h : (fills.map FillDelta.makerOrderId).Nodup) :
    mergeFills fills = fills := by
  induction fills with
  | nil => rfl
  | cons f fills ih =>
    rw [List.map_cons, List.nodup_cons] at h
    rw [mergeFills_cons h.1, ih h.2]

theorem Mergeable.cons (h : Mergeable fills)
    (hf : f.makerOrderId ∉ fills.map FillDelta.makerOrderId) : Mergeable (f :: fills) := by
  cases fills with
  | nil => exact List.IsChain.singleton f
  | cons g fills =>
    rw [List.map_cons, List.mem_cons, not_or] at hf
    exact List.IsChain.cons_cons (fun heq => absurd heq hf.1) h

theorem mergeable_of_nodup (h : (fills.map FillDelta.makerOrderId).Nodup) : Mergeable fills := by
  induction fills with
  | nil => exact List.IsChain.nil
  | cons f fills ih =>
    rw [List.map_cons, List.nodup_cons] at h
    exact (ih h.2).cons h.1

/-- The later of two resizes of an order that stays. -/
theorem AbstractBook.resize_resize {id : OrderId} {q q' : Qty} (hq : q ≠ 0) :
    (a.resize id q).resize id q' = a.resize id q' := by
  simp only [resize, KeyedQueues.filterMap_filterMap]
  refine KeyedQueues.filterMap_congr fun o _ => ?_
  by_cases hid : o.id = id
  · rw [resizeAt_of_eq hid hq, Option.bind_some]
    unfold resizeAt
    rw [Order.id_withQty, if_pos hid, if_pos hid, Order.withQty_withQty]
  · rw [resizeAt_of_ne hid, Option.bind_some, resizeAt_of_ne hid]

/-- **Merged fills settle alike.** -/
theorem settle_mergeFills (h : Mergeable fills) (a : AbstractBook) :
    a.settle (mergeFills fills) = a.settle fills := by
  induction fills generalizing a with
  | nil => rfl
  | cons f fills ih =>
    cases fills with
    | nil => rfl
    | cons g fills =>
      obtain ⟨hfg, hchain⟩ := List.isChain_cons_cons.mp h
      rw [mergeFills]
      by_cases hid : f.makerOrderId = g.makerOrderId
      · rw [if_pos hid]
        show ((a.resize f.makerOrderId g.makerQtyAfter).settle fills) =
          ((a.resize f.makerOrderId f.makerQtyAfter).resize g.makerOrderId
            g.makerQtyAfter).settle fills
        rw [← hid, AbstractBook.resize_resize (hfg hid)]
      · rw [if_neg hid]
        exact ih hchain (a.resize f.makerOrderId f.makerQtyAfter)

theorem settle_append (a : AbstractBook) (fills fills' : List FillDelta) :
    a.settle (fills ++ fills') = (a.settle fills).settle fills' := List.foldl_append

/-! ### The seam -/

/-- The fills of a demand against some makers. -/
def fillsOf (makers : List Order) (q : ℕ) : List FillDelta :=
  (consume Order.cap makers q).map fillOf

variable {makers : List Order} {o : Order} {q q' n : ℕ}

@[simp] theorem fillsOf_zero (makers : List Order) : fillsOf makers 0 = [] := by
  rw [fillsOf, consume_zero, List.map_nil]

theorem fillsOf_eq_cons {u : Order × ℕ} {rest : List Order}
    (h : consume Order.cap makers q = u :: consume Order.cap rest n) :
    fillsOf makers q = fillOf u :: fillsOf rest n := by
  rw [fillsOf, h, List.map_cons, fillsOf]

theorem fillsOf_cons_of_lt (hq : q ≠ 0) (h : q < o.cap) :
    fillsOf (o :: makers) q = [fillOf (o, q)] := by
  rw [fillsOf, consume_cons_of_lt hq h, List.map_singleton]

theorem ids_fillsOf (makers : List Order) (q : ℕ) :
    ((fillsOf makers q).map FillDelta.makerOrderId).Sublist (makers.map Order.id) :=
  (ids_consume makers q).sublist

theorem nodup_fillsOf (hnodup : (makers.map Order.id).Nodup) (q : ℕ) :
    ((fillsOf makers q).map FillDelta.makerOrderId).Nodup :=
  hnodup.sublist (ids_fillsOf makers q)

/-- What a demand leaves are some of the makers, one of them with less. -/
theorem ids_leftover (makers : List Order) (q : ℕ) :
    ((leftover makers q).map Order.id).Sublist (makers.map Order.id) := by
  induction makers generalizing q with
  | nil => exact List.Sublist.slnil
  | cons o makers ih =>
    rw [leftover]
    split
    · exact (ih _).cons _
    · rw [List.map_cons, List.map_cons, Order.id_withQty]

/-- One maker that is hit twice. -/
theorem merge_fillOf (o : Order) (q n : ℕ) :
    (fillOf (o, q)).merge (fillOf (o.withQty (o.qty - UInt64.ofNat q), n)) =
      fillOf (o, q + n) := by
  have hafter : o.qty - UInt64.ofNat q - UInt64.ofNat n = o.qty - UInt64.ofNat (q + n) := by
    rw [UInt64.ofNat_add]
    grind
  simp only [FillDelta.merge, fillOf, Order.qty_withQty, hafter, UInt64.ofNat_add]

/-- The maker that meets a demand has the rest of its size left. -/
theorem cap_remainder (h : q < o.cap) :
    (o.withQty (o.qty - UInt64.ofNat q)).cap = o.cap - q := Order.toNat_sub_ofNat h.le

/-- The second demand goes to the maker that met the first one, and on from there. -/
theorem consume_remainder (h : q < o.cap) (hq' : q' ≠ 0) :
    consume Order.cap (o.withQty (o.qty - UInt64.ofNat q) :: makers) q' =
      (o.withQty (o.qty - UInt64.ofNat q), min q' (o.cap - q)) ::
        consume Order.cap makers (q' - min q' (o.cap - q)) := by
  rw [consume_cons hq', cap_remainder h]

/-- The demand for both gets that maker's two shares in one. -/
theorem consume_shared (h : q < o.cap) (hq' : q' ≠ 0) :
    consume Order.cap (o :: makers) (q + q') =
      (o, q + min q' (o.cap - q)) :: consume Order.cap makers (q' - min q' (o.cap - q)) := by
  have hshare : min (q + q') o.cap = q + min q' (o.cap - q) := by omega
  have hrest : q + q' - (q + min q' (o.cap - q)) = q' - min q' (o.cap - q) := by omega
  rw [consume_cons (by omega), hshare, hrest]

/-- A maker that the first demand uses up is used up by the demand for both. -/
theorem consume_usedUp (hq : q ≠ 0) (h : o.cap ≤ q) :
    consume Order.cap (o :: makers) (q + q') =
      (o, o.cap) :: consume Order.cap makers (q - o.cap + q') := by
  have hrest : q + q' - o.cap = q - o.cap + q' := by omega
  rw [consume_cons_of_le (by omega) (by omega), hrest]

/-- Two fill lists that meet at most at the seam, and what merging them gives. -/
structure MergesTo (fills fills' whole : List FillDelta) : Prop where
  meetsOnce : MeetsOnce fills fills'
  mergeable : Mergeable (fills ++ fills')
  merged : mergeFills (fills ++ fills') = whole

variable {whole : List FillDelta}

theorem MergesTo.nil_left (h : (fills.map FillDelta.makerOrderId).Nodup) :
    MergesTo [] fills fills where
  meetsOnce _ hf := absurd hf List.not_mem_nil
  mergeable := mergeable_of_nodup h
  merged := mergeFills_of_nodup h

/-- A fill of a maker that neither list hits goes in front of the first. -/
theorem MergesTo.cons (h : MergesTo fills fills' whole)
    (hf : f.makerOrderId ∉ (fills ++ fills').map FillDelta.makerOrderId) :
    MergesTo (f :: fills) fills' (f :: whole) where
  meetsOnce g hg g' hg' hid := by
    rcases List.mem_cons.mp hg with rfl | hg
    · refine absurd ?_ hf
      rw [hid, List.map_append]
      exact List.mem_append_right _ (List.mem_map_of_mem hg')
    · obtain ⟨hlast, hhead⟩ := h.meetsOnce g hg g' hg' hid
      rw [List.getLast?_cons, hlast]
      exact ⟨rfl, hhead⟩
  mergeable := h.mergeable.cons hf
  merged := by
    rw [List.cons_append, mergeFills_cons hf, h.merged]

theorem mergesTo_nil_right (f : FillDelta) : MergesTo [f] [] [f] where
  meetsOnce _ _ _ hg := absurd hg List.not_mem_nil
  mergeable := List.IsChain.singleton f
  merged := rfl

/-- Two fills of one maker meet at the seam. -/
theorem mergesTo_seam {g : FillDelta} (hid : f.makerOrderId = g.makerOrderId)
    (hafter : f.makerQtyAfter ≠ 0) (h : ((g :: fills).map FillDelta.makerOrderId).Nodup) :
    MergesTo [f] (g :: fills) (f.merge g :: fills) where
  meetsOnce f' hf' g' hg' hid' := by
    obtain rfl := List.mem_singleton.mp hf'
    rcases List.mem_cons.mp hg' with rfl | hg'
    · exact ⟨rfl, rfl⟩
    · refine absurd ?_ (List.nodup_cons.mp h).1
      rw [← hid, hid']
      exact List.mem_map_of_mem hg'
  mergeable := List.IsChain.cons_cons (fun _ => hafter) (mergeable_of_nodup h)
  merged := by
    rw [List.singleton_append, mergeFills, if_pos hid]

/-- A maker that the first demand leaves with something is hit by both. -/
theorem mergesTo_shared (hnodup : ((o :: makers).map Order.id).Nodup) (hq : q ≠ 0)
    (hlt : q < o.cap) (hq' : q' ≠ 0) :
    MergesTo (fillsOf (o :: makers) q) (fillsOf (leftover (o :: makers) q) q')
      (fillsOf (o :: makers) (q + q')) := by
  have hafter : o.qty - UInt64.ofNat q ≠ 0 := by
    rw [ne_eq, Order.sub_ofNat_eq_zero_iff hlt.le]
    omega
  have hnodup' : ((o.withQty (o.qty - UInt64.ofNat q) :: makers).map Order.id).Nodup := hnodup
  have hids := nodup_fillsOf hnodup' q'
  rw [fillsOf_eq_cons (consume_remainder hlt hq')] at hids
  rw [leftover_cons_of_lt hlt, fillsOf_cons_of_lt hq hlt,
    fillsOf_eq_cons (consume_remainder hlt hq'), fillsOf_eq_cons (consume_shared hlt hq'),
    ← merge_fillOf]
  exact mergesTo_seam rfl hafter hids

/-- **The seam of two greedy consumptions**: of the makers, and of what the first one leaves. -/
theorem merge_consume (hpos : ∀ o ∈ makers, 0 < o.cap) (hnodup : (makers.map Order.id).Nodup)
    (q q' : ℕ) :
    MergesTo (fillsOf makers q) (fillsOf (leftover makers q) q') (fillsOf makers (q + q')) := by
  induction makers generalizing q with
  | nil => exact MergesTo.nil_left List.nodup_nil
  | cons o makers ih =>
    by_cases hq : q = 0
    · rw [hq, leftover_zero hpos, fillsOf_zero, Nat.zero_add]
      exact MergesTo.nil_left (nodup_fillsOf hnodup q')
    rcases Nat.lt_or_ge q o.cap with hlt | hle
    · by_cases hq' : q' = 0
      · rw [hq', fillsOf_zero, Nat.add_zero, fillsOf_cons_of_lt hq hlt]
        exact mergesTo_nil_right _
      · exact mergesTo_shared hnodup hq hlt hq'
    · -- the first maker is used up, and neither list hits it again
      obtain ⟨ho, hnodup'⟩ := List.nodup_cons.mp hnodup
      have ih := ih (fun x hx => hpos x (List.mem_cons_of_mem _ hx)) hnodup' (q - o.cap)
      have hnot : (fillOf (o, o.cap)).makerOrderId ∉ (fillsOf makers (q - o.cap) ++
          fillsOf (leftover makers (q - o.cap)) q').map FillDelta.makerOrderId := by
        rw [List.map_append, List.mem_append, not_or]
        exact ⟨fun hmem => ho ((ids_fillsOf _ _).subset hmem), fun hmem =>
          ho ((ids_leftover _ _).subset ((ids_fillsOf _ _).subset hmem))⟩
      rw [leftover_cons_of_le hle, fillsOf_eq_cons (consume_cons_of_le hq hle),
        fillsOf_eq_cons (consume_usedUp hq hle)]
      exact ih.cons hnot

/-- The notionals of the two consumptions add up. -/
theorem notionalOf_consume_add (hpos : ∀ o ∈ makers, 0 < o.cap) (q q' : ℕ) :
    notionalOf (consume Order.cap makers (q + q')) =
      notionalOf (consume Order.cap makers q) +
        notionalOf (consume Order.cap (leftover makers q) q') := by
  induction makers generalizing q with
  | nil => rfl
  | cons o makers ih =>
    by_cases hq : q = 0
    · rw [hq, leftover_zero hpos, consume_zero, Nat.zero_add, notionalOf_nil, Nat.zero_add]
    rcases Nat.lt_or_ge q o.cap with hlt | hle
    · by_cases hq' : q' = 0
      · rw [hq', consume_zero, notionalOf_nil, Nat.add_zero, Nat.add_zero]
      · rw [leftover_cons_of_lt hlt, consume_cons_of_lt hq hlt, consume_shared hlt hq',
          consume_remainder hlt hq', notionalOf_cons, notionalOf_cons, notionalOf_cons,
          notionalOf_nil]
        show o.price.toNat * _ + _ = o.price.toNat * _ + 0 + (o.price.toNat * _ + _)
        rw [Nat.mul_add, Nat.add_zero, Nat.add_assoc]
    · have ih := ih (fun x hx => hpos x (List.mem_cons_of_mem _ hx)) (q - o.cap)
      rw [leftover_cons_of_le hle, consume_usedUp hq hle, consume_cons_of_le hq hle,
        notionalOf_cons, notionalOf_cons, ih, Nat.add_assoc]

/-! ### Two orders for one -/

namespace AbstractBook

variable {taker : Side} {limit : Price} {q₁ q₂ : Qty}

/-- The book after the first of two takers. -/
noncomputable def afterTaker (a : AbstractBook) (taker : Side) (qty : Qty) (limit : Price) :
    AbstractBook := a.settle (a.matchTakerOrder taker qty limit).fills

theorem marketable_afterTaker (a : AbstractBook) (taker : Side) (qty : Qty) (limit : Price) :
    (a.afterTaker taker qty limit).marketable taker limit =
      leftover (a.marketable taker limit) qty.toNat := a.marketable_settle taker qty limit

theorem fills_afterTaker (a : AbstractBook) (taker : Side) (q₁ q₂ : Qty) (limit : Price) :
    ((a.afterTaker taker q₁ limit).matchTakerOrder taker q₂ limit).fills =
      fillsOf (leftover (a.marketable taker limit) q₁.toNat) q₂.toNat := by
  rw [← marketable_afterTaker]
  rfl

/-- The seam of the two fill lists. -/
theorem merge_fills (a : AbstractBook) (taker : Side) (limit : Price)
    (hsum : (q₁ + q₂).toNat = q₁.toNat + q₂.toNat) :
    MergesTo (a.matchTakerOrder taker q₁ limit).fills
      ((a.afterTaker taker q₁ limit).matchTakerOrder taker q₂ limit).fills
      (a.matchTakerOrder taker (q₁ + q₂) limit).fills := by
  have hmerge := merge_consume (fun o => cap_pos_of_mem_marketable)
    (a.marketable_ids_nodup taker limit) q₁.toNat q₂.toNat
  rw [← hsum] at hmerge
  rw [fills_afterTaker]
  exact hmerge

/-- **The two takers leave what the one leaves.** -/
theorem afterTaker_afterTaker (a : AbstractBook) (taker : Side) (limit : Price)
    (hsum : (q₁ + q₂).toNat = q₁.toNat + q₂.toNat) :
    (a.afterTaker taker q₁ limit).afterTaker taker q₂ limit =
      a.afterTaker taker (q₁ + q₂) limit := by
  have hmerge := a.merge_fills taker limit hsum
  have hsettle := settle_mergeFills hmerge.mergeable a
  rw [hmerge.merged, settle_append] at hsettle
  exact hsettle.symm

theorem filledQty_afterTaker (a : AbstractBook) (taker : Side) (limit : Price)
    (hsum : (q₁ + q₂).toNat = q₁.toNat + q₂.toNat) :
    (a.filledQty taker (q₁ + q₂) limit).toNat =
      (a.filledQty taker q₁ limit).toNat +
        ((a.afterTaker taker q₁ limit).filledQty taker q₂ limit).toNat := by
  rw [filledQty_le, filledQty_le, filledQty_le, marketable_afterTaker, restingQty_leftover, hsum]
  omega

theorem notional_afterTaker (a : AbstractBook) (taker : Side) (limit : Price)
    (hsum : (q₁ + q₂).toNat = q₁.toNat + q₂.toNat) :
    notionalOf (a.uses taker (q₁ + q₂) limit) =
      notionalOf (a.uses taker q₁ limit) +
        notionalOf ((a.afterTaker taker q₁ limit).uses taker q₂ limit) := by
  rw [uses, uses, uses, marketable_afterTaker, hsum]
  exact notionalOf_consume_add (fun o => cap_pos_of_mem_marketable) _ _

end AbstractBook

/-- The outcomes of two taker orders and of the single one they are split from. -/
structure SplitsInto (m m₁ m₂ : TakerMatch) : Prop where
  filledQty : m.filledQty.toNat = m₁.filledQty.toNat + m₂.filledQty.toNat
  filledNotional : m.filledNotional = m₁.filledNotional + m₂.filledNotional
  /-- At most one maker is hit by both, at the seam. -/
  meetsOnce : MeetsOnce m₁.fills m₂.fills
  fills : m.fills = mergeFills (m₁.fills ++ m₂.fills)

variable {π : Profile} {b : OrderBook}

/-- **Splitting a taker order changes nothing.** -/
theorem takerOrder_splits (hb : Reachable π b) (taker : Side) (limit : Price) {q₁ q₂ : Qty}
    (h₁ : 0 < q₁) (h₂ : 0 < q₂) (hfits : q₁.toNat + q₂.toNat < UInt64.size) :
    ∃ m m₁ m₂ b' b₁ b₂,
      b.applyTakerOrder π taker (q₁ + q₂) limit = .ok (.ok m, b') ∧
      b.applyTakerOrder π taker q₁ limit = .ok (.ok m₁, b₁) ∧
      b₁.applyTakerOrder π taker q₂ limit = .ok (.ok m₂, b₂) ∧
      SameOrders b₂ b' ∧ SplitsInto m m₁ m₂ := by
  obtain ⟨a, h⟩ := hb.represents
  have hsum : (q₁ + q₂).toNat = q₁.toNat + q₂.toNat := by
    rw [UInt64.toNat_add]
    exact Nat.mod_eq_of_lt hfits
  have hne : q₁ + q₂ ≠ 0 := by
    intro hzero
    rw [hzero] at hsum
    have hpos : 0 < q₁.toNat := UInt64.lt_iff_toNat_lt.mp h₁
    have hzero' : (0 : UInt64).toNat = 0 := rfl
    omega
  obtain ⟨b', hb', hrep'⟩ := applyTakerOrder_accepts h hne
  obtain ⟨b₁, hb₁, hrep₁⟩ := applyTakerOrder_accepts h (UInt64.ne_of_lt h₁).symm
  obtain ⟨b₂, hb₂, hrep₂⟩ := applyTakerOrder_accepts hrep₁ (UInt64.ne_of_lt h₂).symm
  have hbooks := a.afterTaker_afterTaker taker limit hsum
  have hmerge := a.merge_fills taker limit hsum
  refine ⟨_, _, _, b', b₁, b₂, hb', hb₁, hb₂, ?_, ?_⟩
  · have hrep : Represents π b₂ (a.afterTaker taker (q₁ + q₂) limit) := hbooks ▸ hrep₂
    exact hrep.sameOrders hrep'
  · exact ⟨a.filledQty_afterTaker taker limit hsum, a.notional_afterTaker taker limit hsum,
      hmerge.meetsOnce, hmerge.merged.symm⟩

/-- In the sample book, the split of a bid for ten into four and six falls inside the best ask. -/
theorem takerOrder_splits_sample : ∃ m m₁ m₂ b' b₁ b₂,
    sampleBook.applyTakerOrder .dev .bid 10 103 = .ok (.ok m, b') ∧
      sampleBook.applyTakerOrder .dev .bid 4 103 = .ok (.ok m₁, b₁) ∧
      b₁.applyTakerOrder .dev .bid 6 103 = .ok (.ok m₂, b₂) ∧
      SameOrders b₂ b' ∧ SplitsInto m m₁ m₂ := by
  have h₁ : (0 : Qty) < 4 := by decide
  have h₂ : (0 : Qty) < 6 := by decide
  exact takerOrder_splits sampleBook_reachable .bid 103 h₁ h₂ (by decide)

end L4Book
