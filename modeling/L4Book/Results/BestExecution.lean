import L4Book.Foundation.CheapestFirst
import L4Book.Results.Matching
import Mathlib.Algebra.Group.Action.Defs
import Mathlib.Algebra.Order.Group.Nat
import Mathlib.Algebra.Order.Monoid.OrderDual

/-!
# Best execution

Price priority is worth having: of all the ways to spread a taker over the orders of the other side,
the matcher's is the one with the best total price, and none that keeps to the limit gets more. What
a taker pays on average can only get worse as it takes more, with any limits; so does its slippage a
unit.

## Main definitions

* `AtLeastAsGood`: what a taker would rather pay, or be paid
* `BestExecution`: no other way to fill the taker is better

## Main results

* `match_bestExecution`
* `execution_worsensWithSize`
-/

namespace L4Book

/-- A taker would rather have the first notional: a buyer pays no more, a seller is paid no less. -/
def AtLeastAsGood (taker : Side) (paid paid' : ℕ) : Prop :=
  match taker with
  | .bid => paid ≤ paid'
  | .ask => paid' ≤ paid

/-- No other way to spread a taker over `orders` gets it more, or the same at a better price. What
is taken of an order is at most what rests of it. -/
structure BestExecution (orders : List Order) (taker : Side) (qty : Qty) (limit : Price)
    (m : TakerMatch) : Prop where
  /-- Who keeps to the limit and to the demand does not get more. -/
  most : ∀ take : Order → ℕ, (∀ o ∈ orders, take o ≤ o.qty.toNat) →
    (∀ o ∈ orders, limitAllows taker o.price limit = false → take o = 0) →
    (orders.map take).sum ≤ qty.toNat → (orders.map take).sum ≤ m.filledQty.toNat
  /-- Who gets as much, at whatever prices, does not get it on better terms. -/
  price : ∀ take : Order → ℕ, (∀ o ∈ orders, take o ≤ o.qty.toNat) →
    (orders.map take).sum = m.filledQty.toNat →
    AtLeastAsGood taker m.filledNotional (orders.map fun o => take o * o.price.toNat).sum

namespace AbstractBook

open OrderDual (toDual)

variable {M : Type*} [AddCommMonoid M] {a : AbstractBook} {taker : Side} {qty qty' : Qty}
  {limit limit' : Price}

/-! ### The fills as greedy consumption of a whole side -/

/-- The fills cost what the first units of the whole side cost: the limit and the end of the book
only decide how many. -/
theorem cost_uses (a : AbstractBook) (taker : Side) (qty : Qty) (limit : Price)
    (price : Order → M) :
    cost price (a.uses taker qty limit) =
      cost price (consume Order.cap (a.ladder taker.opposite)
        (a.filledQty taker qty limit).toNat) := by
  obtain ⟨rest, hrest⟩ := a.marketable_prefix taker limit
  have hlen : (units price Order.cap (a.marketable taker limit)).length =
      restingQty (a.marketable taker limit) := length_units
  have hle : (a.filledQty taker qty limit).toNat ≤
      (units price Order.cap (a.marketable taker limit)).length := by
    rw [hlen, a.filledQty_le]
    exact Nat.min_le_right _ _
  rw [uses, cost_consume, cost_consume, ← hrest, units_append, List.take_append_of_le_length hle,
    a.filledQty_le, ← hlen, ← List.take_eq_take_min]

theorem filledQty_le_ladder (a : AbstractBook) (taker : Side) (qty : Qty) (limit : Price) :
    (a.filledQty taker qty limit).toNat ≤ total Order.cap (a.ladder taker.opposite) := by
  obtain ⟨rest, hrest⟩ := a.marketable_prefix taker limit
  have hsplit : restingQty (a.ladder taker.opposite) =
      restingQty (a.marketable taker limit) + restingQty rest := by
    rw [← hrest, restingQty_append]
  show _ ≤ restingQty (a.ladder taker.opposite)
  rw [a.filledQty_le, hsplit]
  omega

/-- The notional is the cost at prices in their own order. -/
theorem cost_price (us : List (Order × ℕ)) :
    cost (fun o : Order => o.price.toNat) us = notionalOf us := by
  induction us with
  | nil => rfl
  | cons u us ih => rw [cost_cons, ih, notionalOf_cons, smul_eq_mul, Nat.mul_comm]

/-- And at prices in the dual order, in which the dearest come first. -/
theorem cost_toDual_price (us : List (Order × ℕ)) :
    cost (fun o : Order => toDual o.price.toNat) us = toDual (notionalOf us) := by
  rw [← cost_price]
  induction us with
  | nil => rfl
  | cons u us ih =>
    rw [cost_cons, cost_cons, ih]
    rfl

/-- Sums of dual prices. -/
theorem sum_toDual (l : List Order) (take : Order → ℕ) :
    (l.map fun o => take o • toDual o.price.toNat).sum =
      toDual (l.map fun o => take o * o.price.toNat).sum := by
  induction l with
  | nil => rfl
  | cons o l ih =>
    rw [List.map_cons, List.sum_cons, ih, List.map_cons, List.sum_cons]
    rfl

/-- A buyer meets the cheapest orders first. -/
theorem sorted_of_bid (a : AbstractBook) :
    (a.ladder Side.bid.opposite).Pairwise fun o o' => o.price.toNat ≤ o'.price.toNat :=
  (a.ladder_pairwise .ask).imp fun h => UInt64.le_iff_toNat_le.mp h

/-- A seller meets the dearest orders first. -/
theorem sorted_of_ask (a : AbstractBook) :
    (a.ladder Side.ask.opposite).Pairwise fun o o' =>
      toDual o.price.toNat ≤ toDual o'.price.toNat :=
  (a.ladder_pairwise .bid).imp fun h => UInt64.le_iff_toNat_le.mp h

/-! ### One taker -/

/-- Taking as much in another way is not better. -/
theorem atLeastAsGood_of_take {take : Order → ℕ}
    (hcap : ∀ o ∈ a.ladder taker.opposite, take o ≤ o.qty.toNat)
    (htotal : ((a.ladder taker.opposite).map take).sum =
      (a.filledQty taker qty limit).toNat) :
    AtLeastAsGood taker (notionalOf (a.uses taker qty limit))
      ((a.ladder taker.opposite).map fun o => take o * o.price.toNat).sum := by
  have hfilled : (a.filledQty taker qty limit).toNat = total take (a.ladder taker.opposite) :=
    htotal.symm
  cases taker with
  | bid =>
    have hle := cost_consume_le a.sorted_of_bid hcap
    have hcost := a.cost_uses .bid qty limit fun o => o.price.toNat
    rw [hfilled, cost_price] at hcost
    exact hcost ▸ hle
  | ask =>
    have hle := cost_consume_le a.sorted_of_ask hcap
    have hcost := a.cost_uses .ask qty limit fun o => toDual o.price.toNat
    rw [hfilled, cost_toDual_price] at hcost
    have hle' := hcost.le.trans hle
    rw [sum_toDual] at hle'
    exact hle'

/-- What is not taken may be left out of a sum. -/
theorem sum_map_filter {take : Order → ℕ} {keep : Order → Bool} {l : List Order}
    (hzero : ∀ o ∈ l, keep o = false → take o = 0) :
    (l.map take).sum = ((l.filter keep).map take).sum := by
  induction l with
  | nil => rfl
  | cons o l ih =>
    obtain ⟨ho, hl⟩ := List.forall_mem_cons.mp hzero
    rw [List.map_cons, List.sum_cons, ih hl, List.filter_cons]
    cases hkeep : keep o with
    | true => simp
    | false => simp [ho hkeep]

theorem bestExecution_matchTakerOrder (a : AbstractBook) (taker : Side) (qty : Qty)
    (limit : Price) :
    BestExecution (a.ladder taker.opposite) taker qty limit
      (a.matchTakerOrder taker qty limit) where
  most := by
    intro take hcap hlimit hdemand
    have hreach : ((a.ladder taker.opposite).map take).sum ≤
        restingQty (a.marketable taker limit) := by
      rw [sum_map_filter hlimit, ← marketable_eq_filter]
      refine List.sum_le_sum fun o ho => hcap o ?_
      obtain ⟨hmem, hside, -⟩ := mem_marketable.mp ho
      exact mem_ladder.mpr ⟨hmem, hside⟩
    show _ ≤ (a.filledQty taker qty limit).toNat
    rw [a.filledQty_le]
    exact Nat.le_min.mpr ⟨hdemand, hreach⟩
  price := fun take hcap htotal => atLeastAsGood_of_take hcap htotal

/-! ### Two takers -/

/-- What a taker pays on average. -/
theorem average_uses (hle : a.filledQty taker qty limit ≤ a.filledQty taker qty' limit') :
    AtLeastAsGood taker
      (notionalOf (a.uses taker qty limit) * (a.filledQty taker qty' limit').toNat)
      (notionalOf (a.uses taker qty' limit') * (a.filledQty taker qty limit).toNat) := by
  have hle' := UInt64.le_iff_toNat_le.mp hle
  have hsupply := a.filledQty_le_ladder taker qty' limit'
  cases taker with
  | bid =>
    have hcost := nsmul_cost_consume_le a.sorted_of_bid hle' hsupply
    rw [← a.cost_uses .bid qty limit, ← a.cost_uses .bid qty' limit', cost_price, cost_price,
      smul_eq_mul, smul_eq_mul, Nat.mul_comm, Nat.mul_comm (UInt64.toNat _)] at hcost
    exact hcost
  | ask =>
    have hcost := nsmul_cost_consume_le a.sorted_of_ask hle' hsupply
    rw [← a.cost_uses .ask qty limit, ← a.cost_uses .ask qty' limit', cost_toDual_price,
      cost_toDual_price] at hcost
    have hcost' : (a.filledQty .ask qty limit).toNat * notionalOf (a.uses .ask qty' limit') ≤
        (a.filledQty .ask qty' limit').toNat * notionalOf (a.uses .ask qty limit) := hcost
    rw [Nat.mul_comm, Nat.mul_comm (UInt64.toNat _)] at hcost'
    exact hcost'

/-- What a taker loses on average against the best price. -/
theorem average_slippage (hle : a.filledQty taker qty limit ≤ a.filledQty taker qty' limit')
    {lost lost' : ℕ} (hlost : a.slippageNotional taker qty limit = some lost)
    (hlost' : a.slippageNotional taker qty' limit' = some lost') :
    lost * (a.filledQty taker qty' limit').toNat ≤
      lost' * (a.filledQty taker qty limit).toNat := by
  have haverage := average_uses hle
  unfold slippageNotional at hlost hlost'
  split at hlost
  case isFalse => cases hlost
  split at hlost'
  case isFalse => cases hlost'
  cases hbest : (a.prices taker.opposite).head? with
  | none =>
    rw [hbest] at hlost
    cases hlost
  | some reference =>
    rw [hbest] at hlost hlost'
    obtain rfl := Option.some.inj hlost
    obtain rfl := Option.some.inj hlost'
    generalize (a.filledQty taker qty limit).toNat = filled at haverage ⊢
    generalize (a.filledQty taker qty' limit').toNat = filled' at haverage ⊢
    have hreference : reference.toNat * filled * filled' = reference.toNat * filled' * filled :=
      Nat.mul_right_comm _ _ _
    cases taker with
    | bid =>
      simp only [Nat.sub_mul, hreference]
      exact Nat.sub_le_sub_right haverage _
    | ask =>
      simp only [Nat.sub_mul, hreference]
      exact Nat.sub_le_sub_left haverage _

/-- More is wanted, and more prices are allowed: more is filled. -/
theorem filledQty_mono (hqty : qty ≤ qty')
    (hlimit : ∀ p, limitAllows taker p limit = true → limitAllows taker p limit' = true) :
    a.filledQty taker qty limit ≤ a.filledQty taker qty' limit' := by
  have hsub : (a.marketable taker limit).Sublist (a.marketable taker limit') := by
    rw [marketable_eq_filter, marketable_eq_filter]
    exact List.monotone_filter_right _ fun o ho => hlimit o.price ho
  have hresting : restingQty (a.marketable taker limit) ≤ restingQty (a.marketable taker limit') :=
    (hsub.map _).sum_le_sum fun _ _ => Nat.zero_le _
  have hqty' := UInt64.le_iff_toNat_le.mp hqty
  rw [UInt64.le_iff_toNat_le, a.filledQty_le, a.filledQty_le]
  omega

end AbstractBook

variable {π : Profile} {b : OrderBook}

/-- **Best execution.** The match of a taker is the best way to fill it from the orders that rest on
the other side: none that keeps to the limit fills more, and none at all fills as much at a better
total price. -/
theorem match_bestExecution (hb : Reachable π b) (taker : Side) (qty : Qty) (limit : Price) :
    ∃ orders m, b.sideOrders taker.opposite = .ok orders ∧
      b.matchTakerOrder π taker qty limit = .ok m ∧ BestExecution orders taker qty limit m := by
  obtain ⟨a, h⟩ := hb.represents
  exact ⟨_, _, sideOrders_spec h _, matchTakerOrder_spec h taker qty limit,
    a.bestExecution_matchTakerOrder taker qty limit⟩

/-- In the sample book, a bid for eight does not pay more than four of each ask would cost. -/
theorem match_bestExecution_sample : ∃ m, sampleBook.matchTakerOrder .dev .bid 8 103 = .ok m ∧
    BestExecution [sampleOrder 5 1 .ask 101 6, sampleOrder 6 2 .ask 103 9] .bid 8 103 m ∧
    m.filledNotional ≤ 816 := by
  obtain ⟨orders, m, horders, hm, hbest⟩ := match_bestExecution sampleBook_reachable .bid 8 103
  have heq : orders = [sampleOrder 5 1 .ask 101 6, sampleOrder 6 2 .ask 103 9] :=
    Except.ok.inj (horders.symm.trans (by rfl))
  subst heq
  refine ⟨m, hm, hbest, ?_⟩
  have hfilled : m.filledQty = 8 := by
    obtain ⟨m', hm', hfilled⟩ : ∃ m', sampleBook.matchTakerOrder .dev .bid 8 103 = .ok m' ∧
        m'.filledQty = 8 := ⟨_, by rfl, by rfl⟩
    rw [Except.ok.inj (hm.symm.trans hm'), hfilled]
  exact hbest.price (fun _ => 4) (by decide) (by rw [hfilled]; rfl)

/-- **Execution worsens with size.** Of two takers on one side, the one that wants more with a wider
limit gets at least as much; and the one that gets more pays a worse average price, and loses more a
unit against the best price. -/
theorem execution_worsensWithSize (hb : Reachable π b) (taker : Side) (qty qty' : Qty)
    (limit limit' : Price) :
    ∃ m m', b.matchTakerOrder π taker qty limit = .ok m ∧
      b.matchTakerOrder π taker qty' limit' = .ok m' ∧
      (qty ≤ qty' →
        (∀ p, limitAllows taker p limit = true → limitAllows taker p limit' = true) →
        m.filledQty ≤ m'.filledQty) ∧
      (m.filledQty ≤ m'.filledQty →
        AtLeastAsGood taker (m.filledNotional * m'.filledQty.toNat)
          (m'.filledNotional * m.filledQty.toNat) ∧
        ((∀ side price orders, b.ordersAt side price = .ok orders →
          restingQty orders < UInt64.size) →
          ∃ e e', b.estimateSlippage π taker qty limit = .ok e ∧
            b.estimateSlippage π taker qty' limit' = .ok e' ∧
            ∀ lost lost', e.slippageNotional = some lost → e'.slippageNotional = some lost' →
              lost * e'.filledQty.toNat ≤ lost' * e.filledQty.toNat)) := by
  obtain ⟨a, h⟩ := hb.represents
  refine ⟨_, _, matchTakerOrder_spec h taker qty limit, matchTakerOrder_spec h taker qty' limit',
    fun hqty hlimit => AbstractBook.filledQty_mono hqty hlimit, fun hle => ?_⟩
  refine ⟨AbstractBook.average_uses hle, fun hfits => ?_⟩
  have hexact : TotalsFit a := fun k => hfits k.1 k.2 _ (ordersAt_spec h k.1 k.2)
  refine ⟨_, _, estimateSlippage_spec h hexact taker qty limit,
    estimateSlippage_spec h hexact taker qty' limit', fun lost lost' hlost hlost' => ?_⟩
  exact AbstractBook.average_slippage hle hlost hlost'

/-- An ask for twelve is paid less on average than an ask for eight. -/
theorem execution_worsensWithSize_sample : ∃ m m',
    sampleBook.matchTakerOrder .dev .ask 8 99 = .ok m ∧
      sampleBook.matchTakerOrder .dev .ask 12 99 = .ok m' ∧
      m'.filledNotional * m.filledQty.toNat ≤ m.filledNotional * m'.filledQty.toNat := by
  obtain ⟨m, m', hm, hm', hmono, hworse⟩ :=
    execution_worsensWithSize sampleBook_reachable .ask 8 12 99 99
  exact ⟨m, m', hm, hm', (hworse (hmono (by decide) fun _ => id)).1⟩

end L4Book
