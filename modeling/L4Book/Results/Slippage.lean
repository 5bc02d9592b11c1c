import L4Book.Results.Matching
import L4Book.Results.Views
import Mathlib.Algebra.BigOperators.Ring.List

/-!
# The cost of slippage

`estimate_slippage` reports one number, the notional of the fills against the notional at the best
price, subtracted with saturation. It is the sum, over the fills of the match, of how far the price
is from the best one: every fill is on the same side of the reference, so that the subtraction never
clips, and both notionals fit a `u128`.

## Main definitions

* `slippageCost`: the sum over the fills
* `ExactSlippage`: an estimate that reports it

## Main results

* `slippage_exact`
-/

namespace L4Book

/-- What some fills cost, up or down, against filling the same quantity at a reference price. -/
def slippageCost (reference : Price) (fills : List FillDelta) : ℕ :=
  (fills.map fun f => ((f.price.toNat : ℤ) - reference.toNat).natAbs * f.filledQty.toNat).sum

/-- The subtraction that a taker of this side asks for does not clip. -/
def NoClip (taker : Side) (notional referenceNotional : ℕ) : Prop :=
  match taker with
  | .bid => referenceNotional ≤ notional
  | .ask => notional ≤ referenceNotional

/-- The estimate reports of the match what filling at the best price would have saved. -/
structure ExactSlippage (b : OrderBook) (taker : Side) (e : SlippageEstimate) (m : TakerMatch) :
    Prop where
  /-- The best price of the other side. -/
  best : e.referencePrice = match taker with
    | .bid => b.bestAsk
    | .ask => b.bestBid
  filled : e.filledQty.toNat = (m.fills.map fun f => f.filledQty.toNat).sum
  notional : e.filledNotional = (m.fills.map fun f => f.price.toNat * f.filledQty.toNat).sum
  none_iff : e.slippageNotional = none ↔ m.fills = []
  cost : m.fills ≠ [] → ∃ reference, e.referencePrice = some reference ∧
    e.slippageNotional = some (slippageCost reference m.fills)
  noClip : ∀ reference, e.referencePrice = some reference →
    NoClip taker e.filledNotional (reference.toNat * e.filledQty.toNat)
  /-- Neither notional overflows. -/
  notional_lt : e.filledNotional < u128Size
  reference_lt : ∀ reference, e.referencePrice = some reference →
    reference.toNat * e.filledQty.toNat < u128Size
  free_iff : ∀ reference, e.referencePrice = some reference → m.fills ≠ [] →
    (e.slippageNotional = some 0 ↔ ∀ f ∈ m.fills, f.price = reference)

variable {π ρ : Profile} {b : OrderBook} {a : AbstractBook} {taker : Side} {qty : Qty}
  {limit reference : Price} {f : FillDelta} {fills : List FillDelta}

/-! ### Sums over fills -/

/-- Every fill costs the difference between the higher price and the lower one, whichever of the two
is the reference. -/
theorem slippageCost_add {low high : FillDelta → ℕ} (hle : ∀ f ∈ fills, low f ≤ high f)
    (habs : ∀ f, ((f.price.toNat : ℤ) - reference.toNat).natAbs = ((high f : ℤ) - low f).natAbs) :
    slippageCost reference fills + (fills.map fun f => low f * f.filledQty.toNat).sum =
      (fills.map fun f => high f * f.filledQty.toNat).sum := by
  rw [slippageCost, ← List.sum_map_add]
  refine congrArg List.sum (List.map_congr_left fun f hf => ?_)
  have hdiff : ((f.price.toNat : ℤ) - reference.toNat).natAbs + low f = high f := by
    have hlow := hle f hf
    rw [habs f]
    omega
  rw [← Nat.add_mul, hdiff]

/-- Fills above the reference cost what they cost more. -/
theorem slippageCost_add_of_ge (h : ∀ f ∈ fills, reference ≤ f.price) :
    slippageCost reference fills + reference.toNat * (fills.map fun f => f.filledQty.toNat).sum =
      (fills.map fun f => f.price.toNat * f.filledQty.toNat).sum := by
  rw [← List.sum_map_mul_left]
  exact slippageCost_add (fun f hf => UInt64.le_iff_toNat_le.mp (h f hf)) fun _ => rfl

/-- Fills below the reference cost what they fetch less. -/
theorem slippageCost_add_of_le (h : ∀ f ∈ fills, f.price ≤ reference) :
    slippageCost reference fills + (fills.map fun f => f.price.toNat * f.filledQty.toNat).sum =
      reference.toNat * (fills.map fun f => f.filledQty.toNat).sum := by
  rw [← List.sum_map_mul_left]
  exact slippageCost_add (fun f hf => UInt64.le_iff_toNat_le.mp (h f hf)) fun f => by omega

theorem slippageCost_eq_zero_iff (hpos : ∀ f ∈ fills, 0 < f.filledQty.toNat) :
    slippageCost reference fills = 0 ↔ ∀ f ∈ fills, f.price = reference := by
  rw [slippageCost, List.sum_eq_zero_iff, List.forall_mem_map]
  refine forall₂_congr fun f hf => ?_
  have hfilled := hpos f hf
  rw [Nat.mul_eq_zero, or_iff_left (by omega), ← UInt64.toNat_inj]
  omega

/-! ### Against the abstract book -/

namespace AbstractBook

/-- Every fill takes something from an order of the other side. -/
theorem maker_of_mem_fills (hf : f ∈ (a.matchTakerOrder taker qty limit).fills) :
    0 < f.filledQty.toNat ∧ ∃ maker ∈ a, maker.side = taker.opposite ∧ f.price = maker.price := by
  obtain ⟨⟨o, n⟩, huse, rfl⟩ := List.mem_map.mp hf
  obtain ⟨ho, hside, -⟩ := mem_marketable.mp (mem_of_mem_consume huse)
  obtain ⟨hpos, hle⟩ := amount_of_mem_consume (fun o => cap_pos_of_mem_marketable) huse
  have hn : (fillOf (o, n)).filledQty.toNat = n :=
    UInt64.toNat_ofNat_of_lt' (Nat.lt_of_le_of_lt hle o.qty.toNat_lt_size)
  refine ⟨?_, o, ho, hside, rfl⟩
  rwa [hn]

/-- Every fill is at the best price or a worse one. -/
theorem asGood_of_mem_fills (hreference : (a.prices taker.opposite).head? = some reference)
    (hf : f ∈ (a.matchTakerOrder taker qty limit).fills) :
    AsGood taker.opposite reference f.price := by
  obtain ⟨-, maker, hmaker, hside, hprice⟩ := maker_of_mem_fills hf
  rw [hprice]
  exact (head?_prices_eq_some_iff.mp hreference).2 maker hmaker hside

theorem filledQty_pos_iff :
    0 < a.filledQty taker qty limit ↔ (a.matchTakerOrder taker qty limit).fills ≠ [] := by
  have hfilled : (a.filledQty taker qty limit).toNat =
      ((a.matchTakerOrder taker qty limit).fills.map fun f => f.filledQty.toNat).sum :=
    (greedyMatch_matchTakerOrder a taker qty limit).filled_eq_sum
  rw [UInt64.lt_iff_toNat_lt, hfilled]
  constructor
  · intro hpos hnil
    rw [hnil] at hpos
    exact Nat.lt_irrefl 0 hpos
  · intro hne
    obtain ⟨f, hf⟩ := List.exists_mem_of_ne_nil _ hne
    exact Nat.lt_of_lt_of_le (maker_of_mem_fills hf).1
      (List.single_le_sum (fun _ _ => Nat.zero_le _) _ (List.mem_map.mpr ⟨f, hf, rfl⟩))

theorem exists_reference (hne : (a.matchTakerOrder taker qty limit).fills ≠ []) :
    ∃ reference, (a.prices taker.opposite).head? = some reference := by
  obtain ⟨f, hf⟩ := List.exists_mem_of_ne_nil _ hne
  obtain ⟨-, maker, hmaker, hside, -⟩ := maker_of_mem_fills hf
  cases hhead : (a.prices taker.opposite).head? with
  | none => exact absurd hside (head?_prices_eq_none_iff.mp hhead maker hmaker)
  | some reference => exact ⟨reference, rfl⟩

/-- **The saturating subtraction is exact.** -/
theorem slippageNotional_eq (hreference : (a.prices taker.opposite).head? = some reference) :
    NoClip taker (notionalOf (a.uses taker qty limit))
        (reference.toNat * (a.filledQty taker qty limit).toNat) ∧
      (0 < a.filledQty taker qty limit → a.slippageNotional taker qty limit =
        some (slippageCost reference (a.matchTakerOrder taker qty limit).fills)) := by
  have hgreedy := greedyMatch_matchTakerOrder a taker qty limit
  have hfilled : (a.filledQty taker qty limit).toNat =
      ((a.matchTakerOrder taker qty limit).fills.map fun f => f.filledQty.toNat).sum :=
    hgreedy.filled_eq_sum
  have hnotional : notionalOf (a.uses taker qty limit) =
      ((a.matchTakerOrder taker qty limit).fills.map fun f =>
        f.price.toNat * f.filledQty.toNat).sum := hgreedy.notional
  have hgood : ∀ f ∈ (a.matchTakerOrder taker qty limit).fills,
      AsGood taker.opposite reference f.price := fun f hf => asGood_of_mem_fills hreference hf
  cases taker with
  | bid =>
    have hcost := slippageCost_add_of_ge hgood
    rw [← hfilled, ← hnotional] at hcost
    refine ⟨Nat.le.intro ((Nat.add_comm _ _).trans hcost), fun hpos => ?_⟩
    rw [slippageNotional, if_pos hpos, hreference, Option.map_some, Option.some.injEq]
    show notionalOf _ - reference.toNat * _ = _
    omega
  | ask =>
    have hcost := slippageCost_add_of_le hgood
    rw [← hfilled, ← hnotional] at hcost
    refine ⟨Nat.le.intro ((Nat.add_comm _ _).trans hcost), fun hpos => ?_⟩
    rw [slippageNotional, if_pos hpos, hreference, Option.map_some, Option.some.injEq]
    show reference.toNat * _ - notionalOf _ = _
    omega

end AbstractBook

theorem exactSlippage (h : Represents π b a) (taker : Side) (qty : Qty) (limit : Price) :
    ExactSlippage b taker (a.estimateSlippage taker qty limit)
      (a.matchTakerOrder taker qty limit) := by
  have hgreedy := greedyMatch_matchTakerOrder a taker qty limit
  have hpos : (a.matchTakerOrder taker qty limit).fills ≠ [] → 0 < a.filledQty taker qty limit :=
    AbstractBook.filledQty_pos_iff.mpr
  constructor
  case best =>
    show (a.prices taker.opposite).head? = _
    rw [← referencePrice_spec h]
    cases taker <;> rfl
  case filled => exact hgreedy.filled_eq_sum
  case notional => exact hgreedy.notional
  case none_iff =>
    show a.slippageNotional taker qty limit = none ↔ _
    by_cases hfills : (a.matchTakerOrder taker qty limit).fills = []
    · have hzero : ¬ 0 < a.filledQty taker qty limit :=
        fun hfilled => AbstractBook.filledQty_pos_iff.mp hfilled hfills
      rw [AbstractBook.slippageNotional, if_neg hzero]
      exact iff_of_true rfl hfills
    · obtain ⟨reference, hreference⟩ := AbstractBook.exists_reference hfills
      rw [(AbstractBook.slippageNotional_eq hreference).2 (hpos hfills)]
      exact iff_of_false (fun hnone => nomatch hnone) hfills
  case cost =>
    intro hfills
    obtain ⟨reference, hreference⟩ := AbstractBook.exists_reference hfills
    exact ⟨reference, hreference, (AbstractBook.slippageNotional_eq hreference).2 (hpos hfills)⟩
  case noClip =>
    exact fun reference hreference => (AbstractBook.slippageNotional_eq hreference).1
  case notional_lt => exact hgreedy.notional_lt
  case reference_lt =>
    exact fun reference _ => mul_lt_u128Size reference.toNat_lt_size (UInt64.toNat_lt_size _)
  case free_iff =>
    intro reference hreference hfills
    have hcost := (AbstractBook.slippageNotional_eq hreference).2 (hpos hfills)
    show a.slippageNotional taker qty limit = some 0 ↔ _
    rw [hcost, Option.some.injEq]
    exact slippageCost_eq_zero_iff fun f hf => (AbstractBook.maker_of_mem_fills hf).1

/-- Without wrapped totals, the build with overflow checks goes through the same states. -/
theorem Represents.of_totalsFit (h : Represents π b a) (hfits : TotalsFit a) :
    Represents ρ b a := by
  obtain ⟨slots, h⟩ := h
  exact ⟨slots, { h with exact := fun _ => hfits }⟩

/-- **The slippage of a taker is exactly what its fills cost against the best price.** Nothing
clips, and in a build that checks for it nothing overflows. -/
theorem slippage_exact (hb : Reachable π b)
    (hfits : ∀ side price orders, b.ordersAt side price = .ok orders →
      restingQty orders < UInt64.size) (taker : Side) (qty : Qty) (limit : Price) :
    ∃ e m, (∀ ρ : Profile, b.estimateSlippage ρ taker qty limit = .ok e ∧
      b.matchTakerOrder ρ taker qty limit = .ok m) ∧ ExactSlippage b taker e m := by
  obtain ⟨a, h⟩ := hb.represents
  have hexact : TotalsFit a := fun k => hfits k.1 k.2 _ (ordersAt_spec h k.1 k.2)
  refine ⟨_, _, fun ρ => ?_, exactSlippage h taker qty limit⟩
  have h' : Represents ρ b a := h.of_totalsFit hexact
  exact ⟨estimateSlippage_spec h' hexact taker qty limit, matchTakerOrder_spec h' taker qty limit⟩

/-- In the sample book, a bid for ten takes four at 103, two above the best ask. -/
theorem slippage_exact_sample : ∃ e m,
    sampleBook.estimateSlippage .dev .bid 10 103 = .ok e ∧ ExactSlippage sampleBook .bid e m ∧
      e.slippageNotional = some 8 := by
  obtain ⟨e, m, hruns, hexact⟩ := slippage_exact sampleBook_reachable sampleBook_fits .bid 10 103
  refine ⟨e, m, (hruns .dev).1, hexact, ?_⟩
  have hvalue : (sampleBook.estimateSlippage .dev .bid 10 103).map
      SlippageEstimate.slippageNotional = .ok (some 8) := by rfl
  rw [(hruns .dev).1] at hvalue
  exact Except.ok.inj hvalue

end L4Book
