import L4Book.Refinement.Refusal
import L4Book.Results.Simulation

/-!
# Snapshots that keep the simulator's orders

`PreserveSynthetic` replaces the orders of the venue and keeps those of the simulator, which have
ids of their own. A snapshot is accepted or refused as a whole; an accepted one puts the venue's
orders in front of the simulator's at every price, and applying it again finds nothing to change.

## Main definitions

* `RefusedSnapshot`: what makes a snapshot unacceptable
* `SwapsVenueState`: the book before and after an accepted one

## Main results

* `preserveSynthetic_swapsVenueState`
-/

namespace L4Book

variable {π : Profile} {b b' : OrderBook} {a : AbstractBook} {orders : List Order}

/-- Some order has no quantity, has an id of the simulator's, or repeats an earlier id. -/
def RefusedSnapshot (orders : List Order) : Prop :=
  (∃ o ∈ orders, o.qty = 0) ∨ (∃ o ∈ orders, isSyntheticOrderId o.id = true) ∨
    ¬ (orders.map Order.id).Nodup

theorem venueSnapshot_iff : AbstractBook.VenueSnapshot orders ↔ ¬ RefusedSnapshot orders := by
  constructor
  · rintro ⟨hnonzero, hvenue, hnodup⟩ (⟨o, ho, hq⟩ | ⟨o, ho, hs⟩ | hrepeats)
    · exact hnonzero o ho hq
    · rw [hvenue o ho] at hs
      cases hs
    · exact hrepeats hnodup
  · intro hnot
    simp only [RefusedSnapshot, not_or, not_exists, not_and, not_not] at hnot
    exact ⟨hnot.1, fun o ho => Bool.eq_false_iff.mpr (hnot.2.1 o ho), hnot.2.2⟩

/-- What an accepted snapshot makes of the book `b`. -/
structure SwapsVenueState (π : Profile) (b : OrderBook) (orders : List Order)
    (outcome : SnapshotOutcome) (b' : OrderBook) : Prop where
  inserted : outcome.inserted = orders.length
  /-- The preserved orders are the synthetic ones that were live. -/
  preserved : ∃ synthetic : List Order, synthetic.Nodup ∧
    (∀ o, o ∈ synthetic ↔ b.get o.id = .ok (some o) ∧ isSyntheticOrderId o.id = true) ∧
    outcome.preserved = synthetic.length
  /-- Every list is the snapshot's orders, then the synthetic ones that stood there. -/
  ordersAt : ∀ side price, ∃ old, b.ordersAt side price = .ok old ∧
    b'.ordersAt side price =
      .ok ((orders.filter fun o => o.place = (side, price)) ++
        old.filter fun o => isSyntheticOrderId o.id)
  /-- No other order is live. -/
  live : ∀ id o, b'.get id = .ok (some o) ↔
    o.id = id ∧ (o ∈ orders ∨ b.get id = .ok (some o) ∧ isSyntheticOrderId id = true)
  /-- The same snapshot again changes nothing. -/
  again : b'.applySnapshotWithPolicy π orders .preserveSynthetic = .ok (.ok outcome, b')

/-- The level at some price would hold more than a `u64` can count. -/
def SwapOverflows (b : OrderBook) (orders : List Order) : Prop :=
  ∃ side price old, b.ordersAt side price = .ok old ∧
    UInt64.size ≤ restingQty ((orders.filter fun o => o.place = (side, price)) ++
      old.filter fun o => isSyntheticOrderId o.id)

/-- **An accepted snapshot swaps the venue's orders.** -/
theorem swapsVenueState (h : Represents π b a) (hsnapshot : AbstractBook.VenueSnapshot orders)
    {outcome : SnapshotOutcome}
    (hr : b.applySnapshotWithPolicy π orders .preserveSynthetic = .ok (.ok outcome, b')) :
    SwapsVenueState π b orders outcome b' := by
  have hvalid := (AbstractBook.validatePreserveSyntheticSnapshot_eq_ok_iff (a := a)).mpr hsnapshot
  obtain ⟨houtcome, hrep⟩ := (applySnapshotWithPolicy_spec h orders .preserveSynthetic).of_eq_ok hr
  rw [AbstractBook.applySnapshotWithPolicy, hvalid] at houtcome hrep
  dsimp only at houtcome hrep
  rw [(hsnapshot.rebuild a).1] at houtcome
  obtain rfl := Except.ok.inj houtcome
  constructor
  case inserted => rfl
  case preserved =>
    refine ⟨a.syntheticOrders, a.syntheticOrders_ids_nodup.of_map, fun o => ?_, rfl⟩
    rw [AbstractBook.mem_syntheticOrders, get_self_eq_some_iff h]
  case ordersAt =>
    intro side price
    refine ⟨_, ordersAt_spec h side price, (ordersAt_spec hrep side price).trans ?_⟩
    exact congrArg Except.ok ((hsnapshot.rebuild a).2 (side, price))
  case live =>
    intro id o
    rw [get_eq_some_iff hrep, get_eq_some_iff h, hsnapshot.mem_rebuild]
    constructor
    · rintro ⟨ho | ⟨ho, hs⟩, rfl⟩
      · exact ⟨rfl, Or.inl ho⟩
      · exact ⟨rfl, Or.inr ⟨⟨ho, rfl⟩, hs⟩⟩
    · rintro ⟨rfl, ho | ⟨⟨ho, -⟩, hs⟩⟩
      · exact ⟨Or.inl ho, rfl⟩
      · exact ⟨Or.inr ⟨ho, hs⟩, rfl⟩
  case again =>
    -- both calls rebuild the same orders from a cleared book
    have hsynthetic := hsnapshot.syntheticOrders_rebuild a
    rw [OrderBook.applySnapshotWithPolicy, syntheticOrdersInBookOrder_spec h, ok_bind, hvalid] at hr
    rw [OrderBook.applySnapshotWithPolicy, syntheticOrdersInBookOrder_spec hrep, ok_bind,
      hsynthetic, hvalid]
    exact hr

theorem swapOverflows_of_rebuildOverflows (h : Represents π b a)
    (hsnapshot : AbstractBook.VenueSnapshot orders)
    (hover : RebuildOverflows orders a.syntheticOrders) : SwapOverflows b orders := by
  obtain ⟨⟨side, price⟩, hk⟩ := hsnapshot.exists_of_rebuildOverflows a hover
  exact ⟨side, price, _, ordersAt_spec h side price, hk⟩

/-- **`PreserveSynthetic` swaps the venue's orders and keeps the simulator's.** The call errs
exactly when the snapshot is to be refused; otherwise it returns, unless a level it builds
overflows where overflow is checked. -/
theorem preserveSynthetic_swapsVenueState (hb : Reachable π b) (orders : List Order) :
    (RefusedSnapshot orders →
      ∃ e, b.applySnapshotWithPolicy π orders .preserveSynthetic = .ok (.error e, b)) ∧
    (¬ RefusedSnapshot orders →
      Returns (OnlyOverflow π (SwapOverflows b orders))
        (b.applySnapshotWithPolicy π orders .preserveSynthetic) fun r =>
          ∃ outcome, r.1 = .ok outcome ∧ SwapsVenueState π b orders outcome r.2) := by
  obtain ⟨a, h⟩ := hb.represents
  constructor
  · intro hrefused
    have hnot : ¬ AbstractBook.VenueSnapshot orders := fun hsnapshot =>
      venueSnapshot_iff.mp hsnapshot hrefused
    cases hvalid : OrderBook.validatePreserveSyntheticSnapshot orders a.syntheticOrders with
    | ok u => exact absurd (AbstractBook.validatePreserveSyntheticSnapshot_eq_ok_iff.mp hvalid) hnot
    | error e =>
      refine ⟨e, preserveSynthetic_of_refused h ?_⟩
      rw [AbstractBook.applySnapshotWithPolicy, hvalid]
  · intro haccepted
    have hsnapshot := venueSnapshot_iff.mpr haccepted
    have hspec := applySnapshotWithPolicy_spec h orders .preserveSynthetic
    cases hr : b.applySnapshotWithPolicy π orders .preserveSynthetic with
    | error f =>
      have hf := hspec.of_eq_error hr
      exact hf.mono fun hover => swapOverflows_of_rebuildOverflows h hsnapshot hover.2
    | ok r =>
      obtain ⟨r, b'⟩ := r
      have hok := (hspec.of_eq_ok hr).1
      have hvalid := (AbstractBook.validatePreserveSyntheticSnapshot_eq_ok_iff (a := a)).mpr
        hsnapshot
      rw [AbstractBook.applySnapshotWithPolicy, hvalid] at hok
      dsimp only at hok
      rw [(hsnapshot.rebuild a).1] at hok
      subst hok
      exact ⟨_, rfl, swapsVenueState h hsnapshot hr⟩

/-- A synthetic bid behind the bids of the sample book stays when a snapshot replaces them. -/
theorem preserveSynthetic_swapsVenueState_sample : ∃ b₁ outcome b₂,
    sampleBook.add .dev (sampleOrder (syntheticOrderIdFlag + 1) 1 .bid 100 2) = .ok (.ok (), b₁) ∧
      b₁.applySnapshotWithPolicy .dev [sampleOrder 8 2 .bid 100 4] .preserveSynthetic =
        .ok (.ok outcome, b₂) ∧
      SwapsVenueState .dev b₁ [sampleOrder 8 2 .bid 100 4] outcome b₂ := by
  obtain ⟨r, hadd⟩ : ∃ r,
      sampleBook.add .dev (sampleOrder (syntheticOrderIdFlag + 1) 1 .bid 100 2) =
        .ok (.ok (), r) := ⟨_, by rfl⟩
  obtain ⟨⟨reply, b₂⟩, hr⟩ : ∃ reply,
      r.applySnapshotWithPolicy .dev [sampleOrder 8 2 .bid 100 4] .preserveSynthetic =
        .ok reply := by
    cases hadd
    exact ⟨_, by rfl⟩
  have hreach : Reachable .dev r := by
    refine sampleBook_reachable.exec
      (c := .add (sampleOrder (syntheticOrderIdFlag + 1) 1 .bid 100 2)) ?_
    exact congrArg (Prod.snd <$> ·) hadd
  have haccepted : ¬ RefusedSnapshot [sampleOrder 8 2 .bid 100 4] := by
    simp [RefusedSnapshot, sampleOrder, isSyntheticOrderId, syntheticOrderIdFlag]
    decide
  have hspec := (preserveSynthetic_swapsVenueState hreach [sampleOrder 8 2 .bid 100 4]).2 haccepted
  obtain ⟨outcome, houtcome, hswaps⟩ := hspec.of_eq_ok hr
  subst houtcome
  exact ⟨r, outcome, b₂, hadd, hr, hswaps⟩

end L4Book
