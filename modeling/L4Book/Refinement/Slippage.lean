import L4Book.Refinement.Match

/-!
# The aggregate walk sees the per-order walk

`estimate_slippage` walks the cached level totals, `match_taker_order` the orders. As long as the
totals are exact, every round of the first loop does to its accumulators what a round of the second
does to the accumulators they share, so the two loops agree.

## Main definitions

* `AbstractBook.estimateSlippage`: the estimate, without a loop

## Main results

* `visitLevel_aggregate`: one round
* `estimateSlippage_spec`
* `estimateSlippage_release`: without overflow checks it returns even when totals are wrapped
-/

namespace L4Book

open OrderBook (MatchWalk SlippageWalk)

/-- The accumulators the two walks share. -/
def aggregate (w : MatchWalk) : SlippageWalk := ⟨w.remaining, w.notional, w.limitStopped⟩

variable {π : Profile} {b : OrderBook} {a : AbstractBook}

/-- Uses of makers that rest at one price cost the price times the quantity. -/
theorem notionalOf_of_price {p : Price} {uses : List (Order × ℕ)}
    (h : ∀ u ∈ uses, u.1.price = p) : notionalOf uses = p.toNat * quantityOf uses := by
  induction uses with
  | nil => rfl
  | cons u us ih =>
    rw [notionalOf_cons, quantityOf_cons, h u List.mem_cons_self,
      ih fun v hv => h v (List.mem_cons_of_mem _ hv), Nat.mul_add]

/-- **One round of the two level loops.** -/
theorem visitLevel_aggregate (π : Profile) {taker : Side} {limit p : Price}
    (hexact : restingQty (a.queue (taker.opposite, p)) < UInt64.size) {w : MatchWalk}
    (hw : w.Bounded) (hallow : limitAllows taker p limit = true) :
    (aggregate w).visitLevel π taker limit p
      (UInt64.ofNat (restingQty (a.queue (taker.opposite, p)))) =
        .ok (if (w.fill (a.queue (taker.opposite, p))).remaining = 0
          then .done (aggregate (w.fill (a.queue (taker.opposite, p))))
          else .yield (aggregate (w.fill (a.queue (taker.opposite, p))))) := by
  have hprice : ∀ u ∈ consume Order.cap (a.queue (taker.opposite, p)) w.remaining.toNat,
      u.1.price = p := fun u hu =>
    congrArg Prod.snd (a.placed (mem_of_mem_consume (x := u.1) (n := u.2) hu))
  have hquantity := quantityOf_consume (a.queue (taker.opposite, p)) w.remaining.toNat
  have hnotional := notionalOf_of_price hprice
  have hle : quantityOf (consume Order.cap (a.queue (taker.opposite, p)) w.remaining.toNat) ≤
      w.remaining.toNat := hquantity ▸ Nat.min_le_left _ _
  have hroom := notional_take_lt hw hle
  have htoNat : (UInt64.ofNat (quantityOf
      (consume Order.cap (a.queue (taker.opposite, p)) w.remaining.toNat))).toNat =
        quantityOf (consume Order.cap (a.queue (taker.opposite, p)) w.remaining.toNat) :=
    UInt64.toNat_ofNat_of_lt' (Nat.lt_of_le_of_lt hle w.remaining.toNat_lt_size)
  have htake : min w.remaining (UInt64.ofNat (restingQty (a.queue (taker.opposite, p)))) =
      UInt64.ofNat (quantityOf
        (consume Order.cap (a.queue (taker.opposite, p)) w.remaining.toNat)) := by
    rw [min_eq_ofNat, UInt64.toNat_ofNat_of_lt' hexact, hquantity]
  have hcost : π.mulU128 p.toNat (quantityOf
      (consume Order.cap (a.queue (taker.opposite, p)) w.remaining.toNat)) =
        .ok (notionalOf (consume Order.cap (a.queue (taker.opposite, p)) w.remaining.toNat)) := by
    rw [hnotional]
    exact Profile.mulU128_eq_ok
      (hnotional ▸ Nat.lt_of_le_of_lt (Nat.le_add_left _ _) hroom)
  have hsub : π.subU64 w.remaining (UInt64.ofNat (quantityOf
      (consume Order.cap (a.queue (taker.opposite, p)) w.remaining.toNat))) =
        .ok (w.fill (a.queue (taker.opposite, p))).remaining := by
    refine Profile.subU64_eq_ok fun _ => ?_
    rwa [htoNat]
  rw [OrderBook.SlippageWalk.visitLevel, hallow]
  simp only [aggregate, Bool.not_true, Bool.false_eq_true, if_false, htake, htoNat, hcost,
    Profile.addU128_eq_ok hroom, hsub, ok_bind]
  split <;> rfl

/-- **The two walks agree** on the accumulators they share. -/
theorem slippageWalk_spec (h : Represents π b a)
    (hexact : ∀ k, restingQty (a.queue k) < UInt64.size) (taker : Side) (qty : Qty)
    (limit : Price) :
    b.slippageWalk π taker qty limit = (b.matchWalk π taker qty limit).map aggregate := by
  rw [OrderBook.slippageWalk, OrderBook.matchWalk]
  by_cases hq : 0 < qty
  · rw [if_pos hq, if_pos hq]
    refine forIn_map aggregate MatchWalk.Bounded ?_ (bounded_start qty)
    intro entry hentry w hw
    rw [depth_spec h] at hentry
    obtain ⟨p, -, rfl⟩ := List.mem_map.mp hentry
    by_cases hallow : limitAllows taker p limit = true
    · have hmatch := visitLevel_eq h hw hallow
      have hslippage := visitLevel_aggregate π (hexact (taker.opposite, p)) hw hallow
      by_cases hdone : (w.fill (a.queue (taker.opposite, p))).remaining = 0
      · rw [if_pos hdone] at hmatch hslippage
        exact Or.inl ⟨_, hmatch, hslippage⟩
      · rw [if_neg hdone] at hmatch hslippage
        exact Or.inr ⟨_, hmatch, hslippage, bounded_fill hw _⟩
    · refine Or.inl ⟨_, visitLevel_stop hallow, ?_⟩
      show SlippageWalk.visitLevel π taker limit p _ _ = _
      rw [OrderBook.SlippageWalk.visitLevel]
      simp [hallow, aggregate]
  · rw [if_neg hq, if_neg hq]
    rfl

namespace AbstractBook

/-- The extra notional against filling at the best price; it cannot be negative. -/
noncomputable def slippageNotional (a : AbstractBook) (taker : Side) (qty : Qty) (limit : Price) :
    Option ℕ :=
  if 0 < a.filledQty taker qty limit then
    (a.prices taker.opposite).head?.map fun reference =>
      let filled := (a.filledQty taker qty limit).toNat
      match taker with
      | .bid => notionalOf (a.uses taker qty limit) - reference.toNat * filled
      | .ask => reference.toNat * filled - notionalOf (a.uses taker qty limit)
  else none

/-- The estimate for a taker against an abstract book. -/
noncomputable def estimateSlippage (a : AbstractBook) (taker : Side) (qty : Qty)
    (limit : Price) : SlippageEstimate where
  takerSide := taker
  requestedQty := qty
  filledQty := a.filledQty taker qty limit
  unfilledQty := qty - a.filledQty taker qty limit
  filledNotional := notionalOf (a.uses taker qty limit)
  limitPrice := limit
  referencePrice := (a.prices taker.opposite).head?
  slippageNotional := a.slippageNotional taker qty limit
  limitStopped := decide (restingQty (a.marketable taker limit) < qty.toNat) &&
    a.beyond taker limit
  exhaustedBook := decide (restingQty (a.marketable taker limit) < qty.toNat) &&
    !a.beyond taker limit

end AbstractBook

/-- The reference notional is one price times one quantity, and fits a `u128`. -/
theorem slippageNotional_spec (a : AbstractBook) (taker : Side) (qty : Qty) (limit : Price) :
    OrderBook.slippageNotional π taker (a.prices taker.opposite).head?
      (a.filledQty taker qty limit) (notionalOf (a.uses taker qty limit)) =
        .ok (a.slippageNotional taker qty limit) := by
  unfold OrderBook.slippageNotional AbstractBook.slippageNotional
  by_cases hfilled : 0 < a.filledQty taker qty limit
  · rw [if_pos hfilled, if_pos hfilled]
    cases hhead : (a.prices taker.opposite).head? with
    | none => rfl
    | some reference =>
      have hmul : π.mulU128 reference.toNat (a.filledQty taker qty limit).toNat =
          .ok (reference.toNat * (a.filledQty taker qty limit).toNat) :=
        Profile.mulU128_eq_ok (mul_lt_u128Size reference.toNat_lt_size (UInt64.toNat_lt_size _))
      simp only [hmul, ok_bind]
      cases taker <;> rfl
  · rw [if_neg hfilled, if_neg hfilled]

/-- **`estimate_slippage` reports what the match reports**, when no level total is wrapped. -/
theorem estimateSlippage_spec (h : Represents π b a)
    (hexact : ∀ k, restingQty (a.queue k) < UInt64.size) (taker : Side) (qty : Qty)
    (limit : Price) :
    b.estimateSlippage π taker qty limit = .ok (a.estimateSlippage taker qty limit) := by
  have hwalk : b.slippageWalk π taker qty limit =
      .ok ⟨qty - a.filledQty taker qty limit, notionalOf (a.uses taker qty limit),
        decide (restingQty (a.marketable taker limit) < qty.toNat) && a.beyond taker limit⟩ := by
    rw [slippageWalk_spec h hexact, matchWalk_spec h, finish_start]
    rfl
  rw [OrderBook.estimateSlippage, hwalk, ok_bind]
  simp only [subU64_unfilled, ok_bind, decide_unfilled_pos, and_not_and, referencePrice_spec h,
    slippageNotional_spec]
  rfl

/-! ### With wrapped totals -/

theorem addU128_release (m n : ℕ) : ∃ k, Profile.release.addU128 m n = .ok k := by
  rw [Profile.addU128]
  split
  · exact ⟨_, rfl⟩
  · exact ⟨_, rfl⟩

theorem mulU128_release (m n : ℕ) : ∃ k, Profile.release.mulU128 m n = .ok k := by
  rw [Profile.mulU128]
  split
  · exact ⟨_, rfl⟩
  · exact ⟨_, rfl⟩

theorem subU64_release (m n : UInt64) : Profile.release.subU64 m n = .ok (m - n) :=
  Profile.subU64_eq_ok fun hπ => nomatch hπ

/-- Without overflow checks the estimate returns in any case, if only with wrapped numbers. -/
theorem estimateSlippage_release (b : OrderBook) (taker : Side) (qty : Qty) (limit : Price) :
    ∃ e, b.estimateSlippage .release taker qty limit = .ok e := by
  have hround : ∀ (p : Price) (q : Qty) (w : SlippageWalk),
      ∃ r, w.visitLevel .release taker limit p q = .ok r := by
    intro p q w
    rw [OrderBook.SlippageWalk.visitLevel]
    by_cases hallow : limitAllows taker p limit = true
    · obtain ⟨cost, hcost⟩ := mulU128_release p.toNat (min w.remaining q).toNat
      obtain ⟨notional, hnotional⟩ := addU128_release w.notional cost
      simp only [hallow, Bool.not_true, Bool.false_eq_true, if_false, hcost, hnotional,
        subU64_release, ok_bind]
      split
      · exact ⟨_, rfl⟩
      · exact ⟨_, rfl⟩
    · simp [hallow]
  obtain ⟨w, hw⟩ : ∃ w, b.slippageWalk .release taker qty limit = .ok w := by
    rw [OrderBook.slippageWalk]
    split
    · exact forIn_returns (fun entry _ w => hround entry.1 entry.2.1 w) _
    · exact ⟨_, rfl⟩
  obtain ⟨s, hs⟩ : ∃ s, OrderBook.slippageNotional .release taker (b.referencePrice taker)
      (qty - w.remaining) w.notional = .ok s := by
    unfold OrderBook.slippageNotional
    split
    · split
      · rename_i reference _
        obtain ⟨m, hm⟩ := mulU128_release reference.toNat (qty - w.remaining).toNat
        rw [hm, ok_bind]
        cases taker <;> exact ⟨_, rfl⟩
      · exact ⟨_, rfl⟩
    · exact ⟨_, rfl⟩
  rw [OrderBook.estimateSlippage, hw, ok_bind, subU64_release, ok_bind, hs]
  exact ⟨_, rfl⟩

end L4Book
