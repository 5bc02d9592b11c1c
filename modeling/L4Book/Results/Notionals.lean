import L4Book.Reporting
import L4Book.Results.Slippage

/-!
# What a notional buys

`log_slippage` turns a notional in dollars into a quantity, at the best price of the other side, and
asks the book what a taker with that quantity and no limit would pay. All numbers are integers in
the smallest units of price and quantity, so the division rounds: down, to the largest quantity that
the notional pays for at that price. What the fills then cost beyond it is the slippage.

## Main definitions

* `notionalUnits`: a notional in the smallest units
* `SpendsNotional`: an estimate for a notional

## Main results

* `qtyForNotional_eq_none_iff`, `le_qtyForNotional_iff`
* `slippageReport_spendsNotional`
-/

namespace L4Book

/-- A notional in the smallest units of price times quantity. -/
def notionalUnits (scales : Scales) (notionalUsd : UInt64) : ℕ :=
  notionalUsd.toNat * 10 ^ (scales.priceDigits + scales.qtyDigits)

/-- Neither the scales nor the notional at these scales overflow a `u128`. -/
structure NotionalFits (scales : Scales) (notionalUsd : UInt64) : Prop where
  price : 10 ^ scales.priceDigits < u128Size
  qty : 10 ^ scales.qtyDigits < u128Size
  units : notionalUnits scales notionalUsd < u128Size

/-- The quantity that rests on a side, by the totals that `depth` shows. -/
def OrderBook.depthQty (b : OrderBook) (side : Side) : ℕ :=
  ((b.depth side).map fun entry => entry.2.1.toNat).sum

/-- A buyer pays the slippage on top of the best price, a seller goes without it. -/
def PaysSlippage (taker : Side) (notional referenceNotional slippage : ℕ) : Prop :=
  match taker with
  | .bid => notional = referenceNotional + slippage
  | .ask => notional + slippage = referenceNotional

/-- What a taker is estimated to get for a notional, without a limit. -/
structure SpendsNotional (b : OrderBook) (scales : Scales) (taker : Side) (notionalUsd : UInt64)
    (reference : Price) (qty : Qty) (e : SlippageEstimate) : Prop where
  /-- The quantity is the largest that the notional pays for at the best price. -/
  affordable : ∀ q : Qty,
    q ≤ qty ↔ reference.toNat * q.toNat ≤ notionalUnits scales notionalUsd
  reference_eq : e.referencePrice = some reference
  filled : e.filledQty.toNat = min qty.toNat (b.depthQty taker.opposite)
  unlimited : e.limitStopped = false
  exhausted : e.exhaustedBook = true ↔ b.depthQty taker.opposite < qty.toNat
  cost : PaysSlippage taker e.filledNotional (reference.toNat * e.filledQty.toNat)
    (e.slippageNotional.getD 0)
  /-- Less the slippage, the fills are within the notional. -/
  within : reference.toNat * e.filledQty.toNat ≤ notionalUnits scales notionalUsd

variable {π : Profile} {b : OrderBook} {a : AbstractBook} {scales : Scales} {taker side : Side}
  {notionalUsd : UInt64} {reference : Price} {qty : Qty}

/-! ### The quantity -/

/-- The quantity, when nothing overflows. -/
theorem qtyForNotional_eq (hne : reference ≠ 0) (hfits : NotionalFits scales notionalUsd) :
    qtyForNotional notionalUsd reference scales = some (UInt64.ofNat
      (min (notionalUnits scales notionalUsd / reference.toNat) (UInt64.size - 1))) := by
  have hunits : notionalUsd.toNat * 10 ^ scales.priceDigits * 10 ^ scales.qtyDigits =
      notionalUnits scales notionalUsd := by
    rw [notionalUnits, pow_add, Nat.mul_assoc]
  have hscaled : notionalUsd.toNat * 10 ^ scales.priceDigits < u128Size :=
    Nat.lt_of_le_of_lt (Nat.le_mul_of_pos_right _ (Nat.pow_pos (by decide)))
      (hunits ▸ hfits.units)
  rw [qtyForNotional, if_neg hne, checkedPowTenU128, if_pos hfits.price, checkedPowTenU128,
    if_pos hfits.qty]
  show (checkedMulU128 _ _ >>= fun scaled => checkedMulU128 scaled _ >>= _) = _
  rw [checkedMulU128, if_pos hscaled]
  show (checkedMulU128 _ _ >>= _) = _
  rw [checkedMulU128, hunits, if_pos hfits.units]
  rfl

/-- **When there is no quantity**: at the price zero, and on an overflow. -/
theorem qtyForNotional_eq_none_iff : qtyForNotional notionalUsd reference scales = none ↔
    reference = 0 ∨ ¬ NotionalFits scales notionalUsd := by
  constructor
  · intro hnone
    by_contra! h
    rw [qtyForNotional_eq h.1 h.2] at hnone
    cases hnone
  · rintro (rfl | hfits)
    · exact if_pos rfl
    · by_contra hsome
      refine hfits ?_
      obtain ⟨q, hq⟩ := Option.ne_none_iff_exists'.mp hsome
      rw [qtyForNotional] at hq
      split at hq
      · cases hq
      · simp only [checkedPowTenU128, checkedMulU128, Option.bind_eq_bind,
          Option.bind_eq_some_iff, Option.ite_none_right_eq_some, Option.some.injEq] at hq
        obtain ⟨-, ⟨hprice, rfl⟩, -, ⟨hqty, rfl⟩, -, ⟨-, rfl⟩, -, ⟨hunits, rfl⟩, -⟩ := hq
        refine ⟨hprice, hqty, ?_⟩
        rwa [notionalUnits, pow_add, ← Nat.mul_assoc]

/-- **The quantity is the largest that the notional pays for.** -/
theorem le_qtyForNotional_iff (h : qtyForNotional notionalUsd reference scales = some qty)
    (q : Qty) : q ≤ qty ↔ reference.toNat * q.toNat ≤ notionalUnits scales notionalUsd := by
  have hfits : reference ≠ 0 ∧ NotionalFits scales notionalUsd := by
    by_contra hnot
    rw [not_and_or, not_not, ← qtyForNotional_eq_none_iff, h] at hnot
    cases hnot
  rw [qtyForNotional_eq hfits.1 hfits.2] at h
  obtain rfl := Option.some.inj h
  have hpos : 0 < reference.toNat :=
    Nat.pos_of_ne_zero fun hzero => hfits.1 (UInt64.toNat_inj.mp hzero)
  have hlt : min (notionalUnits scales notionalUsd / reference.toNat) (UInt64.size - 1) <
      UInt64.size := Nat.lt_of_le_of_lt (Nat.min_le_right _ _) (by decide)
  have hq : q.toNat ≤ UInt64.size - 1 := Nat.le_pred_of_lt q.toNat_lt_size
  rw [UInt64.le_iff_toNat_le, UInt64.toNat_ofNat_of_lt' hlt, le_min_iff, and_iff_left hq,
    Nat.le_div_iff_mul_le hpos, Nat.mul_comm]

/-! ### Without a limit -/

theorem limitAllows_anyPrice (taker : Side) (p : Price) :
    limitAllows taker p (anyPrice taker) = true := by
  cases taker with
  | bid =>
    refine decide_eq_true (UInt64.le_iff_toNat_le.mpr ?_)
    exact Nat.le_pred_of_lt p.toNat_lt_size
  | ask =>
    have hle : (0 : Price) ≤ p := UInt64.le_iff_toNat_le.mpr (Nat.zero_le _)
    exact decide_eq_true hle

namespace AbstractBook

theorem marketable_anyPrice (a : AbstractBook) (taker : Side) :
    a.marketable taker (anyPrice taker) = a.ladder taker.opposite := by
  rw [marketable, List.takeWhile_eq_self_iff.mpr fun p _ => limitAllows_anyPrice taker p]
  rfl

theorem beyond_anyPrice (a : AbstractBook) (taker : Side) :
    a.beyond taker (anyPrice taker) = false := by
  rw [beyond, List.any_eq_false]
  intro p _
  rw [limitAllows_anyPrice]
  exact Bool.false_ne_true

/-- The slippage makes up the difference to the best price. -/
theorem filledNotional_eq {limit : Price}
    (hreference : (a.prices taker.opposite).head? = some reference) :
    PaysSlippage taker (notionalOf (a.uses taker qty limit))
      (reference.toNat * (a.filledQty taker qty limit).toNat)
      ((a.slippageNotional taker qty limit).getD 0) := by
  have hclip : NoClip taker (notionalOf (a.uses taker qty limit))
      (reference.toNat * (a.filledQty taker qty limit).toNat) := (slippageNotional_eq hreference).1
  by_cases hfilled : 0 < a.filledQty taker qty limit
  · rw [slippageNotional, if_pos hfilled, hreference]
    cases taker with
    | bid => exact (Nat.add_sub_of_le hclip).symm
    | ask => exact Nat.add_sub_of_le hclip
  · -- nothing is filled, and nothing is paid
    have huses : a.uses taker qty limit = [] := by
      by_contra hne
      exact hfilled (filledQty_pos_iff.mpr (by simpa [matchTakerOrder] using hne))
    have hzero : (a.filledQty taker qty limit).toNat = 0 :=
      Nat.eq_zero_of_not_pos fun hpos => hfilled (UInt64.lt_iff_toNat_lt.mpr hpos)
    rw [slippageNotional, if_neg hfilled, huses, hzero, Nat.mul_zero]
    cases taker <;> rfl

end AbstractBook

/-- The totals that `depth` shows are those of the orders. -/
theorem depthQty_spec (h : Represents π b a) (hfits : TotalsFit a) (side : Side) :
    b.depthQty side = restingQty (a.ladder side) := by
  have hqueues : ∀ ps : List Price,
      ((ps.map (depthEntry a side)).map fun entry => entry.2.1.toNat).sum =
        restingQty (ps.flatMap fun p => a.queue (side, p)) := by
    intro ps
    induction ps with
    | nil => rfl
    | cons p ps ih =>
      have htotal : (UInt64.ofNat (restingQty (a.queue (side, p)))).toNat =
          restingQty (a.queue (side, p)) := UInt64.toNat_ofNat_of_lt' (hfits (side, p))
      rw [List.map_cons, List.map_cons, List.sum_cons, List.flatMap_cons, restingQty_append, ih]
      exact congrArg (· + _) htotal
  rw [OrderBook.depthQty, depth_spec h]
  exact hqueues _

/-- An estimate without a limit, for a quantity that a notional pays for. -/
theorem spendsNotional (h : Represents π b a) (hfits : TotalsFit a)
    (hreference : (a.prices taker.opposite).head? = some reference)
    (hqty : qtyForNotional notionalUsd reference scales = some qty) :
    SpendsNotional b scales taker notionalUsd reference qty
      (a.estimateSlippage taker qty (anyPrice taker)) := by
  have hdepth := depthQty_spec h hfits taker.opposite
  have hfilled := a.filledQty_le taker qty (anyPrice taker)
  rw [a.marketable_anyPrice, ← hdepth] at hfilled
  have haffordable := le_qtyForNotional_iff hqty
  constructor
  case affordable => exact haffordable
  case reference_eq => exact hreference
  case filled => exact hfilled
  case unlimited =>
    show (_ && a.beyond taker (anyPrice taker)) = false
    rw [a.beyond_anyPrice, Bool.and_false]
  case exhausted =>
    show (decide (restingQty (a.marketable taker (anyPrice taker)) < qty.toNat) &&
      !a.beyond taker (anyPrice taker)) = true ↔ _
    rw [a.beyond_anyPrice, Bool.not_false, Bool.and_true, decide_eq_true_iff,
      a.marketable_anyPrice, hdepth]
  case cost => exact AbstractBook.filledNotional_eq hreference
  case within =>
    refine (haffordable _).mp (UInt64.le_iff_toNat_le.mpr ?_)
    exact hfilled ▸ Nat.min_le_left _ _

/-- **What the live client says of a notional.** It has a quote to refer to unless the other side is
empty, and it can refer to it unless the price is zero or the notional does not fit. The estimate is
then for the largest quantity that the notional pays for at the best price, limited by the book and
by nothing else, and the notional is exceeded by the reported slippage at most. -/
theorem slippageReport_spendsNotional (hb : Reachable π b)
    (hfits : ∀ side price orders, b.ordersAt side price = .ok orders →
      restingQty orders < UInt64.size) (scales : Scales) (taker : Side) (notionalUsd : UInt64) :
    ∃ r, b.slippageReport π scales taker notionalUsd = .ok r ∧
      (r = .missingQuote ↔ b.depth taker.opposite = []) ∧
      (r = .badReferencePrice ↔ ∃ reference, b.referencePrice taker = some reference ∧
        (reference = 0 ∨ ¬ NotionalFits scales notionalUsd)) ∧
      ∀ qty e, r = .estimate qty e → ∃ reference, b.referencePrice taker = some reference ∧
        SpendsNotional b scales taker notionalUsd reference qty e := by
  obtain ⟨a, h⟩ := hb.represents
  have hexact : TotalsFit a := fun k => hfits k.1 k.2 _ (ordersAt_spec h k.1 k.2)
  have hdepth : b.depth taker.opposite = [] ↔ (a.prices taker.opposite).head? = none := by
    rw [depth_spec h, List.map_eq_nil_iff, List.head?_eq_none_iff]
  have hreference := referencePrice_spec h taker
  rw [OrderBook.slippageReport, hreference, hdepth]
  cases hhead : (a.prices taker.opposite).head? with
  | none => exact ⟨_, rfl, by simp, by simp, by simp⟩
  | some reference =>
    cases hqty : qtyForNotional notionalUsd reference scales with
    | none =>
      have hbad := qtyForNotional_eq_none_iff.mp hqty
      exact ⟨_, by dsimp only; rw [hqty], by simp, by simpa using hbad, by simp⟩
    | some qty =>
      have hgood : ¬ (reference = 0 ∨ ¬ NotionalFits scales notionalUsd) := by
        rw [← qtyForNotional_eq_none_iff, hqty]
        exact Option.some_ne_none qty
      refine ⟨.estimate qty (a.estimateSlippage taker qty (anyPrice taker)), ?_, by simp,
        by simpa using hgood, ?_⟩
      · dsimp only
        rw [hqty]
        dsimp only
        rw [estimateSlippage_spec h hexact]
        rfl
      · intro qty' e heq
        obtain ⟨rfl, rfl⟩ := SlippageReport.estimate.inj heq
        exact ⟨reference, rfl, spendsNotional h hexact hhead hqty⟩

/-- At the best ask of 101, a dollar at these scales pays for 99 units; fifteen are there. -/
theorem slippageReport_spendsNotional_sample : ∃ e,
    sampleBook.slippageReport .dev ⟨2, 2⟩ .bid 1 = .ok (.estimate 99 e) ∧
      SpendsNotional sampleBook ⟨2, 2⟩ .bid 1 101 99 e := by
  obtain ⟨r, hr, -, -, htells⟩ :=
    slippageReport_spendsNotional sampleBook_reachable sampleBook_fits ⟨2, 2⟩ .bid 1
  obtain ⟨e, he⟩ : ∃ e,
      sampleBook.slippageReport .dev ⟨2, 2⟩ .bid 1 = .ok (.estimate 99 e) := ⟨_, rfl⟩
  obtain rfl := Except.ok.inj (hr.symm.trans he)
  obtain ⟨reference, hreference, hspends⟩ := htells 99 e rfl
  obtain rfl : reference = 101 := Option.some.inj (hreference.symm.trans rfl)
  exact ⟨e, he, hspends⟩

end L4Book
