import L4Book.Refinement.Depth

/-!
# The matcher is greedy

`match_taker_order` on a book that represents an abstract one: the greedy consumption of the
marketable orders. The two nested loops with their early exits compute it without a fault in any
build, whatever the prices and quantities: the running notional plus the largest price times the
remainder never grows, so a `u128` holds it.

## Main definitions

* `fillOf`: the fill that a use of a maker is recorded as
* `AbstractBook.uses`, `AbstractBook.matchTakerOrder`: the match, without a loop

## Main results

* `forIn_visitMaker`, `forIn_visitLevel`: what the two loops compute
* `matchTakerOrder_spec`
-/

namespace L4Book

/-- The quantity of an order as a capacity. -/
def Order.cap (o : Order) : ℕ := o.qty.toNat

/-- The fill that taking `n` from a maker is recorded as. -/
def fillOf (use : Order × ℕ) : FillDelta where
  makerOrderId := use.1.id
  makerWallet := use.1.wallet
  makerSide := use.1.side
  price := use.1.price
  filledQty := UInt64.ofNat use.2
  makerQtyBefore := use.1.qty
  makerQtyAfter := use.1.qty - UInt64.ofNat use.2
  makerRemoved := use.1.qty - UInt64.ofNat use.2 = 0

/-- The sum of price times quantity. -/
def notionalOf (uses : List (Order × ℕ)) : ℕ := (uses.map fun u => u.1.price.toNat * u.2).sum

/-- The sum of the quantities. -/
def quantityOf (uses : List (Order × ℕ)) : ℕ := (uses.map Prod.snd).sum

@[simp] theorem notionalOf_nil : notionalOf [] = 0 := rfl

@[simp] theorem notionalOf_cons (u : Order × ℕ) (us : List (Order × ℕ)) :
    notionalOf (u :: us) = u.1.price.toNat * u.2 + notionalOf us := by
  simp [notionalOf]

@[simp] theorem notionalOf_append (us vs : List (Order × ℕ)) :
    notionalOf (us ++ vs) = notionalOf us + notionalOf vs := by
  simp [notionalOf]

@[simp] theorem quantityOf_nil : quantityOf [] = 0 := rfl

@[simp] theorem quantityOf_cons (u : Order × ℕ) (us : List (Order × ℕ)) :
    quantityOf (u :: us) = u.2 + quantityOf us := by
  simp [quantityOf]

@[simp] theorem quantityOf_append (us vs : List (Order × ℕ)) :
    quantityOf (us ++ vs) = quantityOf us + quantityOf vs := by
  simp [quantityOf]

theorem quantityOf_consume (makers : List Order) (q : ℕ) :
    quantityOf (consume Order.cap makers q) = min q (restingQty makers) := sum_consume

/-! ### The loops -/

open OrderBook (MatchWalk)

/-- The accumulators after some makers have been used. -/
def OrderBook.MatchWalk.take (w : MatchWalk) (uses : List (Order × ℕ)) : MatchWalk :=
  { w with
    remaining := w.remaining - UInt64.ofNat (quantityOf uses)
    notional := w.notional + notionalOf uses
    fills := w.fills ++ uses.map fillOf }

@[simp] theorem take_nil (w : MatchWalk) : w.take [] = w := by
  simp [OrderBook.MatchWalk.take]

theorem take_take (w : MatchWalk) (us vs : List (Order × ℕ)) :
    (w.take us).take vs = w.take (us ++ vs) := by
  simp only [OrderBook.MatchWalk.take, quantityOf_append, notionalOf_append, List.map_append,
    List.append_assoc, Nat.add_assoc, UInt64.ofNat_add]
  congr 1
  grind

/-- The running notional, and room for the rest of it at any price, fit a `u128`. -/
def OrderBook.MatchWalk.Bounded (w : MatchWalk) : Prop :=
  w.notional + (UInt64.size - 1) * w.remaining.toNat < u128Size

theorem remaining_take {w : MatchWalk} {uses : List (Order × ℕ)}
    (hle : quantityOf uses ≤ w.remaining.toNat) :
    (w.take uses).remaining.toNat = w.remaining.toNat - quantityOf uses := by
  have hlt := w.remaining.toNat_lt_size
  have hn : (UInt64.ofNat (quantityOf uses)).toNat = quantityOf uses :=
    UInt64.toNat_ofNat_of_lt' (Nat.lt_of_le_of_lt hle hlt)
  have hle' : UInt64.ofNat (quantityOf uses) ≤ w.remaining := by
    rwa [UInt64.le_iff_toNat_le, hn]
  show (w.remaining - UInt64.ofNat (quantityOf uses)).toNat = _
  rw [UInt64.toNat_sub_of_le _ _ hle', hn]

/-- A price times a quantity is at most the largest price times the quantity. -/
theorem notionalOf_le (uses : List (Order × ℕ)) :
    notionalOf uses ≤ (UInt64.size - 1) * quantityOf uses := by
  induction uses with
  | nil => simp
  | cons u us ih =>
    have hp : u.1.price.toNat ≤ UInt64.size - 1 := Nat.le_sub_one_of_lt u.1.price.toNat_lt_size
    rw [notionalOf_cons, quantityOf_cons, Nat.mul_add]
    exact Nat.add_le_add (Nat.mul_le_mul_right _ hp) ih

theorem bounded_take {w : MatchWalk} (h : w.Bounded) {uses : List (Order × ℕ)}
    (hle : quantityOf uses ≤ w.remaining.toNat) : (w.take uses).Bounded := by
  have hprice := notionalOf_le uses
  have hsplit : (UInt64.size - 1) * (w.remaining.toNat - quantityOf uses) +
      (UInt64.size - 1) * quantityOf uses = (UInt64.size - 1) * w.remaining.toNat := by
    rw [← Nat.mul_add, Nat.sub_add_cancel hle]
  rw [OrderBook.MatchWalk.Bounded] at h ⊢
  rw [remaining_take hle]
  show w.notional + notionalOf uses + _ < _
  omega

/-- The notional of a bounded walk stays below the range of a `u128`. -/
theorem notional_take_lt {w : MatchWalk} (h : w.Bounded) {uses : List (Order × ℕ)}
    (hle : quantityOf uses ≤ w.remaining.toNat) : w.notional + notionalOf uses < u128Size :=
  Nat.lt_of_le_of_lt (Nat.le_add_right _ _) (bounded_take h hle)

/-- The accumulators after some makers have been consumed greedily. -/
def OrderBook.MatchWalk.fill (w : MatchWalk) (makers : List Order) : MatchWalk :=
  w.take (consume Order.cap makers w.remaining.toNat)

theorem remaining_fill (w : MatchWalk) (makers : List Order) :
    (w.fill makers).remaining.toNat = w.remaining.toNat - restingQty makers := by
  have hle : quantityOf (consume Order.cap makers w.remaining.toNat) ≤ w.remaining.toNat := by
    rw [quantityOf_consume]
    exact Nat.min_le_left _ _
  rw [OrderBook.MatchWalk.fill, remaining_take hle, quantityOf_consume]
  omega

theorem bounded_fill {w : MatchWalk} (h : w.Bounded) (makers : List Order) :
    (w.fill makers).Bounded := by
  refine bounded_take h ?_
  rw [quantityOf_consume]
  exact Nat.min_le_left _ _

theorem min_eq_ofNat (a b : UInt64) : min a b = UInt64.ofNat (min a.toNat b.toNat) := by
  by_cases hle : a ≤ b
  · rw [Nat.min_eq_left (UInt64.le_iff_toNat_le.mp hle), UInt64.ofNat_toNat]
    exact if_pos hle
  · have hle' : b.toNat ≤ a.toNat := Nat.le_of_lt (Nat.lt_of_not_le fun h =>
      hle (UInt64.le_iff_toNat_le.mpr h))
    rw [Nat.min_eq_right hle', UInt64.ofNat_toNat]
    exact if_neg hle

variable {π : Profile} {b : OrderBook} {a : AbstractBook}

/-- One maker: the body of the inner loop. -/
theorem visitMaker_eq {w : MatchWalk} (h : w.Bounded) (maker : Order) (hrem : w.remaining ≠ 0) :
    w.visitMaker π maker = .ok (.yield (w.take [(maker, min w.remaining.toNat maker.cap)])) := by
  have hmin := min_eq_ofNat w.remaining maker.qty
  have hn : (min w.remaining maker.qty).toNat = min w.remaining.toNat maker.cap := by
    rw [hmin]
    exact UInt64.toNat_ofNat_of_lt'
      (Nat.lt_of_le_of_lt (Nat.min_le_left _ _) w.remaining.toNat_lt_size)
  have hle : quantityOf [(maker, min w.remaining.toNat maker.cap)] ≤ w.remaining.toNat := by
    simp
  have hnotional := notional_take_lt h hle
  have hqty : π.subU64 maker.qty (min w.remaining maker.qty) =
      .ok (maker.qty - min w.remaining maker.qty) :=
    Profile.subU64_eq_ok fun _ => hn ▸ Nat.min_le_right _ _
  have hrest : π.subU64 w.remaining (min w.remaining maker.qty) =
      .ok (w.remaining - min w.remaining maker.qty) :=
    Profile.subU64_eq_ok fun _ => hn ▸ Nat.min_le_left _ _
  rw [notionalOf_cons, notionalOf_nil, Nat.add_zero] at hnotional
  have hcost : π.mulU128 maker.price.toNat (min w.remaining maker.qty).toNat =
      .ok (maker.price.toNat * min w.remaining.toNat maker.cap) := by
    rw [hn]
    exact Profile.mulU128_eq_ok (Nat.lt_of_le_of_lt (Nat.le_add_left _ _) hnotional)
  rw [OrderBook.MatchWalk.visitMaker, if_neg hrem]
  simp only [hqty, hcost, Profile.addU128_eq_ok hnotional, hrest, ok_bind]
  rw [hmin]
  simp [OrderBook.MatchWalk.take, fillOf, Order.cap, pure, Except.pure]

/-- **The loop over the makers of one level** consumes them greedily. -/
theorem forIn_visitMaker {w : MatchWalk} (h : w.Bounded) (makers : List Order) :
    forIn makers w (MatchWalk.visitMaker π) =
      .ok (w.fill makers) := by
  rw [OrderBook.MatchWalk.fill]
  induction makers generalizing w with
  | nil =>
    rw [consume_nil, take_nil]
    rfl
  | cons maker makers ih =>
    rw [List.forIn_cons]
    by_cases hrem : w.remaining = 0
    · have hzero : w.remaining.toNat = 0 := by rw [hrem]; rfl
      rw [OrderBook.MatchWalk.visitMaker, if_pos hrem, hzero, consume_zero, take_nil]
      rfl
    · have hne : w.remaining.toNat ≠ 0 := fun hzero => hrem (UInt64.toNat_inj.mp hzero)
      have hle : quantityOf [(maker, min w.remaining.toNat maker.cap)] ≤ w.remaining.toNat := by
        simp
      rw [visitMaker_eq h maker hrem, ok_bind]
      show forIn makers _ _ = _
      rw [ih (bounded_take h hle), take_take, remaining_take hle, consume_cons hne, quantityOf_cons,
        quantityOf_nil, Nat.add_zero, List.singleton_append]

/-- The accumulators at the end of the walk over `makers`, when there are prices beyond the limit or
not. -/
def OrderBook.MatchWalk.finish (w : MatchWalk) (makers : List Order) (beyond : Bool) : MatchWalk :=
  { w.fill makers with
    limitStopped := decide (restingQty makers < w.remaining.toNat) && beyond }

/-- The walk over some makers and then others, when the first ones leave nothing to fill. -/
theorem finish_append_of_le {w : MatchWalk} {l : List Order} (hpos : ∀ o ∈ l, 0 < o.cap)
    (r : List Order) (beyond : Bool) (hstop : w.limitStopped = false)
    (hle : w.remaining.toNat ≤ restingQty l) : w.finish (l ++ r) beyond = w.fill l := by
  have hzero : w.remaining.toNat - total Order.cap l = 0 := Nat.sub_eq_zero_of_le hle
  have hnot : ¬ restingQty (l ++ r) < w.remaining.toNat := by
    rw [restingQty_append]
    omega
  rw [OrderBook.MatchWalk.finish, OrderBook.MatchWalk.fill, OrderBook.MatchWalk.fill,
    consume_append hpos, hzero, consume_zero, List.append_nil, decide_eq_false hnot,
    Bool.false_and, ← hstop]
  rfl

/-- The walk over some makers and then others, when the first ones leave something to fill. -/
theorem finish_append_of_lt {w : MatchWalk} {l : List Order} (hpos : ∀ o ∈ l, 0 < o.cap)
    (r : List Order) (beyond : Bool) (hlt : restingQty l < w.remaining.toNat) :
    w.finish (l ++ r) beyond = (w.fill l).finish r beyond := by
  have hrest := remaining_fill w l
  have hiff : restingQty (l ++ r) < w.remaining.toNat ↔
      restingQty r < w.remaining.toNat - restingQty l := by
    rw [restingQty_append]
    omega
  have happend : w.fill (l ++ r) = (w.fill l).fill r := by
    rw [OrderBook.MatchWalk.fill, OrderBook.MatchWalk.fill, hrest, OrderBook.MatchWalk.fill,
      take_take, consume_append hpos]
    rfl
  rw [OrderBook.MatchWalk.finish, OrderBook.MatchWalk.finish, happend, hrest,
    decide_eq_decide.mpr hiff]

/-- One level: the body of the outer loop. -/
theorem visitLevel_eq (h : Represents π b a) {taker : Side} {limit p : Price} {w : MatchWalk}
    (hw : w.Bounded) (hallow : limitAllows taker p limit = true) :
    w.visitLevel π b taker limit p =
      .ok (if (w.fill (a.queue (taker.opposite, p))).remaining = 0
        then .done (w.fill (a.queue (taker.opposite, p)))
        else .yield (w.fill (a.queue (taker.opposite, p)))) := by
  rw [OrderBook.MatchWalk.visitLevel, hallow, forEach_spec h, forIn_visitMaker hw]
  simp only [Bool.not_true, Bool.false_eq_true, if_false, ok_bind]
  split <;> rfl

/-- One level beyond the limit. -/
theorem visitLevel_stop {taker : Side} {limit p : Price} {w : MatchWalk}
    (hallow : ¬ limitAllows taker p limit = true) :
    w.visitLevel π b taker limit p = .ok (.done { w with limitStopped := true }) := by
  rw [OrderBook.MatchWalk.visitLevel]
  simp [hallow]

/-- **The loop over the levels** consumes the orders at the allowed prices greedily. It reports that
the limit stopped it when something remains and there is a price the limit does not allow. -/
theorem forIn_visitLevel (h : Represents π b a) {taker : Side} {limit : Price} (ps : List Price)
    {w : MatchWalk} (hw : w.Bounded) (hrem : w.remaining ≠ 0) (hstop : w.limitStopped = false) :
    forIn (ps.map (depthEntry a taker.opposite)) w
        (fun (entry : Price × Qty × ℕ) w => w.visitLevel π b taker limit entry.1) =
      .ok (w.finish ((ps.takeWhile fun p => limitAllows taker p limit).flatMap fun p =>
        a.queue (taker.opposite, p)) (ps.any fun p => !limitAllows taker p limit)) := by
  have hpos : ∀ {k o}, o ∈ a.queue k → 0 < o.cap := fun ho =>
    Nat.pos_of_ne_zero fun hzero => a.valid ho (UInt64.toNat_inj.mp hzero)
  induction ps generalizing w with
  | nil =>
    have hfinish : w.finish [] false = w := by
      rw [OrderBook.MatchWalk.finish, OrderBook.MatchWalk.fill, consume_nil, take_nil,
        Bool.and_false, ← hstop]
    rw [List.map_nil, List.forIn_nil]
    exact congrArg Except.ok hfinish.symm
  | cons p ps ih =>
    rw [List.map_cons, List.forIn_cons]
    show (w.visitLevel π b taker limit p >>= _) = _
    by_cases hallow : limitAllows taker p limit = true
    · rw [visitLevel_eq h hw hallow, ok_bind, List.takeWhile_cons, if_pos hallow,
        List.flatMap_cons, List.any_cons, hallow, Bool.not_true, Bool.false_or]
      have hrest := remaining_fill w (a.queue (taker.opposite, p))
      by_cases hdone : w.remaining.toNat ≤ restingQty (a.queue (taker.opposite, p))
      · rw [Nat.sub_eq_zero_of_le hdone] at hrest
        rw [if_pos (UInt64.toNat_inj.mp hrest), finish_append_of_le (fun o => hpos) _ _ hstop hdone]
        rfl
      · have hne : (w.fill (a.queue (taker.opposite, p))).remaining ≠ 0 := by
          intro hzero
          rw [hzero] at hrest
          have hzero' : (0 : UInt64).toNat = 0 := rfl
          omega
        rw [if_neg hne, finish_append_of_lt (fun o => hpos) _ _ (by omega)]
        exact ih (bounded_fill hw _) hne hstop
    · have hlt : 0 < w.remaining.toNat :=
        Nat.pos_of_ne_zero fun hzero => hrem (UInt64.toNat_inj.mp hzero)
      rw [visitLevel_stop hallow, ok_bind, List.takeWhile_cons, if_neg hallow, List.flatMap_nil,
        List.any_cons, Bool.eq_false_iff.mpr hallow, Bool.not_false, Bool.true_or,
        OrderBook.MatchWalk.finish, OrderBook.MatchWalk.fill, consume_nil, take_nil,
        restingQty_nil, decide_eq_true hlt, Bool.and_true]
      rfl

/-! ### The match -/

namespace AbstractBook

variable (a : AbstractBook) (taker : Side) (qty : Qty) (limit : Price)

/-- Is there a price of the opposite side beyond the limit? -/
noncomputable def beyond : Bool := (a.prices taker.opposite).any fun p => !limitAllows taker p limit

/-- What a taker uses: the greedy consumption of the marketable orders. -/
noncomputable def uses : List (Order × ℕ) := consume Order.cap (a.marketable taker limit) qty.toNat

/-- The quantity a taker gets. -/
noncomputable def filledQty : Qty :=
  UInt64.ofNat (min qty.toNat (restingQty (a.marketable taker limit)))

/-- The match of a taker against an abstract book. -/
noncomputable def matchTakerOrder : TakerMatch where
  takerSide := taker
  requestedQty := qty
  filledQty := a.filledQty taker qty limit
  unfilledQty := qty - a.filledQty taker qty limit
  filledNotional := notionalOf (a.uses taker qty limit)
  limitPrice := limit
  referencePrice := (a.prices taker.opposite).head?
  fills := (a.uses taker qty limit).map fillOf
  limitStopped := decide (restingQty (a.marketable taker limit) < qty.toNat) &&
    a.beyond taker limit
  exhaustedBook := decide (restingQty (a.marketable taker limit) < qty.toNat) &&
    !a.beyond taker limit

end AbstractBook

/-- Every walk starts bounded: `(2 ^ 64 - 1) ^ 2 < 2 ^ 128`. -/
theorem bounded_start (qty : Qty) : OrderBook.MatchWalk.Bounded ⟨qty, 0, [], false⟩ := by
  show 0 + (UInt64.size - 1) * qty.toNat < u128Size
  rw [Nat.zero_add]
  exact mul_lt_u128Size (by decide) qty.toNat_lt_size

/-- The walk of `match_taker_order`, for any quantity. -/
theorem matchWalk_spec (h : Represents π b a) (taker : Side) (qty : Qty) (limit : Price) :
    b.matchWalk π taker qty limit = .ok (OrderBook.MatchWalk.finish ⟨qty, 0, [], false⟩
      (a.marketable taker limit) (a.beyond taker limit)) := by
  rw [OrderBook.matchWalk]
  by_cases hq : 0 < qty
  · rw [if_pos hq, depth_spec h]
    exact forIn_visitLevel h (a.prices taker.opposite) (bounded_start qty)
      (Ne.symm (UInt64.ne_of_lt hq)) rfl
  · have hzero : qty = 0 := by
      refine UInt64.le_antisymm (UInt64.not_lt.mp hq) ?_
      exact UInt64.le_iff_toNat_le.mpr (Nat.zero_le _)
    subst hzero
    rw [if_neg hq, OrderBook.MatchWalk.finish, OrderBook.MatchWalk.fill]
    simp

namespace AbstractBook

theorem filledQty_le (a : AbstractBook) (taker : Side) (qty : Qty) (limit : Price) :
    (a.filledQty taker qty limit).toNat =
      min qty.toNat (restingQty (a.marketable taker limit)) :=
  UInt64.toNat_ofNat_of_lt' (Nat.lt_of_le_of_lt (Nat.min_le_left _ _) qty.toNat_lt_size)

theorem unfilledQty_toNat (a : AbstractBook) (taker : Side) (qty : Qty) (limit : Price) :
    (qty - a.filledQty taker qty limit).toNat =
      qty.toNat - restingQty (a.marketable taker limit) := by
  have hfilled := a.filledQty_le taker qty limit
  have hle : a.filledQty taker qty limit ≤ qty := by
    rw [UInt64.le_iff_toNat_le, hfilled]
    exact Nat.min_le_left _ _
  rw [UInt64.toNat_sub_of_le _ _ hle, hfilled]
  omega

end AbstractBook

/-- The accumulators at the end of the whole walk. -/
theorem finish_start (a : AbstractBook) (taker : Side) (qty : Qty) (limit : Price) :
    OrderBook.MatchWalk.finish ⟨qty, 0, [], false⟩ (a.marketable taker limit)
        (a.beyond taker limit) =
      ⟨qty - a.filledQty taker qty limit, notionalOf (a.uses taker qty limit),
        (a.uses taker qty limit).map fillOf,
        decide (restingQty (a.marketable taker limit) < qty.toNat) && a.beyond taker limit⟩ := by
  have huses : quantityOf (a.uses taker qty limit) =
      min qty.toNat (restingQty (a.marketable taker limit)) := quantityOf_consume _ _
  have hnotional : 0 + notionalOf (a.uses taker qty limit) =
      notionalOf (a.uses taker qty limit) := Nat.zero_add _
  rw [AbstractBook.filledQty, ← huses, ← hnotional]
  rfl

/-- What is filled, recomputed from what is not. -/
theorem subU64_unfilled (a : AbstractBook) (taker : Side) (qty : Qty) (limit : Price) :
    π.subU64 qty (qty - a.filledQty taker qty limit) = .ok (a.filledQty taker qty limit) := by
  have hring : qty - (qty - a.filledQty taker qty limit) = a.filledQty taker qty limit := by
    grind
  refine (Profile.subU64_eq_ok fun _ => ?_).trans (congrArg Except.ok hring)
  rw [a.unfilledQty_toNat]
  omega

theorem decide_unfilled_pos (a : AbstractBook) (taker : Side) (qty : Qty) (limit : Price) :
    decide (0 < qty - a.filledQty taker qty limit) =
      decide (restingQty (a.marketable taker limit) < qty.toNat) := by
  refine decide_eq_decide.mpr ?_
  rw [UInt64.lt_iff_toNat_lt, a.unfilledQty_toNat]
  show 0 < _ ↔ _
  omega

theorem and_not_and (p q : Bool) : (p && !(p && q)) = (p && !q) := by
  cases p <;> rfl

/-- **`match_taker_order` is the greedy consumption of the marketable orders.** It never faults. -/
theorem matchTakerOrder_spec (h : Represents π b a) (taker : Side) (qty : Qty) (limit : Price) :
    b.matchTakerOrder π taker qty limit = .ok (a.matchTakerOrder taker qty limit) := by
  rw [OrderBook.matchTakerOrder, matchWalk_spec h, finish_start, ok_bind]
  simp only [subU64_unfilled, ok_bind, decide_unfilled_pos, and_not_and, referencePrice_spec h]
  rfl

end L4Book
