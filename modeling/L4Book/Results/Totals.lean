import L4Book.Results.Simulation

/-!
# Exact totals

The cached level totals are `u64`s that every addition and removal updates, and nothing checks that
a level's quantities fit one. This module says exactly which runs keep them exact: those in which
no call brings a level whose true total would exceed the largest `u64`. In a build that checks for
overflow every other run stops with a panic; in one that does not, it goes on with a wrapped total.

## Main definitions

* `ExactTotals`: every quantity that a read view reports is the sum of the orders it stands for
* `RunExact`: a run, every call of which returns and leaves exact totals

## Main results

* `runExact_iff_runFits`
* `not_forall_runExact`: two orders suffice to lose a total
-/

namespace L4Book

variable {π : Profile} {b b' : OrderBook} {a : AbstractBook}

/-- The quantities that the read views report are the sums of the quantities of the orders. -/
structure ExactTotals (π : Profile) (b : OrderBook) : Prop where
  levelSummary : ∀ side price, ∃ orders, b.ordersAt side price = .ok orders ∧
    (b.levelSummary side price).map (fun s => (s.1.toNat, s.2)) =
      if orders = [] then none else some (restingQty orders, orders.length)
  depth : ∀ side price, ∃ orders, b.ordersAt side price = .ok orders ∧
    (orders ≠ [] → ∃ entry ∈ b.depth side, entry.1 = price) ∧
    ∀ entry ∈ b.depth side, entry.1 = price → entry.2.1.toNat = restingQty orders
  queuePosition : ∀ id, ∃ reply, b.queuePosition π id = .ok reply ∧
    ∀ pos, reply = .ok pos → ∃ ahead o behind,
      b.ordersAt pos.side pos.price = .ok (ahead ++ o :: behind) ∧ o.id = id ∧
        pos.qtyAhead.toNat = restingQty ahead ∧ pos.qtyBehind.toNat = restingQty behind ∧
        pos.levelTotalQty.toNat = restingQty (ahead ++ o :: behind)

/-- Every call of the run returns, and the totals are exact after each. -/
def RunExact (π : Profile) (calls : List Call) : Prop :=
  ∀ before after, calls = before ++ after →
    ∃ b, OrderBook.new.run π before = .ok b ∧ ExactTotals π b

/-! ### Exact totals are totals that fit -/

theorem TotalsFit.toNat_ofNat (h : TotalsFit a) {k : Side × Price} {l : List Order}
    (hle : restingQty l ≤ restingQty (a.queue k)) :
    (UInt64.ofNat (restingQty l)).toNat = restingQty l :=
  UInt64.toNat_ofNat_of_lt' (Nat.lt_of_le_of_lt hle (h k))

theorem TotalsFit.exactTotals (hfit : TotalsFit a) (h : Represents π b a) : ExactTotals π b where
  levelSummary side price := by
    refine ⟨_, ordersAt_spec h side price, ?_⟩
    rw [levelSummary_spec h]
    split
    · rfl
    · rw [Option.map_some, hfit.toNat_ofNat (k := (side, price)) (Nat.le_refl _)]
  depth side price := by
    refine ⟨_, ordersAt_spec h side price, ?_, ?_⟩
    · intro hne
      rw [depth_spec h]
      exact ⟨_, List.mem_map_of_mem (AbstractBook.mem_prices.mpr hne), rfl⟩
    · rw [depth_spec h]
      intro entry hentry hprice
      obtain ⟨p, -, rfl⟩ := List.mem_map.mp hentry
      subst hprice
      exact hfit.toNat_ofNat (k := (side, p)) (Nat.le_refl _)
  queuePosition id := by
    by_cases hlive : a.Live id
    · obtain ⟨o, ho, rfl⟩ := hlive
      obtain ⟨ol, or, hqueue⟩ := List.append_of_mem (KeyedQueues.mem_def.mp ho)
      refine ⟨_, queuePosition_spec h hqueue, ?_⟩
      rintro pos hpos
      cases hpos
      have hsum : restingQty (a.queue o.place) = restingQty ol + restingQty (o :: or) := by
        rw [hqueue, restingQty_append]
      rw [restingQty_cons] at hsum
      refine ⟨ol, o, or, ?_, rfl, ?_, ?_, ?_⟩
      · exact (ordersAt_spec h o.side o.price).trans (congrArg Except.ok hqueue)
      · exact hfit.toNat_ofNat (k := o.place) (by omega)
      · exact hfit.toNat_ofNat (k := o.place) (by omega)
      · exact hfit.toNat_ofNat (k := o.place) (Nat.le_of_eq (by rw [hqueue]))
    · refine ⟨_, queuePosition_unknown h hlive, ?_⟩
      intro pos hpos
      exact nomatch hpos

/-- The totals are exact exactly when they fit. -/
theorem exactTotals_iff (h : Represents π b a) : ExactTotals π b ↔ TotalsFit a := by
  refine ⟨fun hexact k => ?_, fun hfit => hfit.exactTotals h⟩
  obtain ⟨side, price⟩ := k
  obtain ⟨orders, horders, hsummary⟩ := hexact.levelSummary side price
  rw [ordersAt_spec h, Except.ok.injEq] at horders
  subst horders
  rw [levelSummary_spec h] at hsummary
  by_cases hnil : a.queue (side, price) = []
  · rw [hnil]
    decide
  · rw [if_neg hnil, if_neg hnil, Option.map_some, Option.some.injEq, Prod.mk.injEq] at hsummary
    rw [← hsummary.1]
    exact UInt64.toNat_lt_size _

/-! ### A call after which the totals fit has not overflowed -/

theorem not_addOverflows {order : Order} (h : TotalsFit (a.add order).2) :
    ¬ AddOverflows a order := by
  rintro ⟨hq, hl, hover⟩
  have hfit := h order.place
  rw [AbstractBook.add, dif_neg hq, dif_neg hl, KeyedQueues.queue_push_self, restingQty_append,
    restingQty_cons, restingQty_nil] at hfit
  omega

theorem totalsFit_of_add {order : Order} (h : TotalsFit (a.add order).2) : TotalsFit a := by
  intro k
  have hfit := h k
  rw [AbstractBook.add] at hfit
  split at hfit
  · exact hfit
  · split at hfit
    · exact hfit
    · rw [KeyedQueues.queue_push] at hfit
      split at hfit
      · rw [restingQty_append] at hfit
        omega
      · exact hfit

theorem not_amendOverflows {id : OrderId} {newQty : Qty} {policy : AmendPriorityPolicy}
    (h : TotalsFit (a.amendSizeWithPolicy id newQty policy).2) : ¬ AmendOverflows a id newQty := by
  rintro ⟨o, ho, rfl, hlt, hover⟩
  have hfit := h o.place
  have hq : newQty ≠ 0 := by
    rintro rfl
    exact absurd hlt UInt64.not_lt_zero
  have hlt' : o.qty.toNat < newQty.toNat := UInt64.lt_iff_toNat_lt.mp hlt
  obtain ⟨l, r, hqueue⟩ := List.append_of_mem (KeyedQueues.mem_def.mp ho)
  simp only [hqueue, restingQty_append, restingQty_cons] at hover
  simp only [AbstractBook.amendSizeWithPolicy, KeyedQueues.find_of_mem ho, dif_neg hq] at hfit
  split at hfit
  · simp only [AbstractBook.queue_resizeToTail_split hqueue, restingQty_append, restingQty_cons,
      restingQty_nil, Order.qty_withQty] at hfit
    omega
  · simp only [AbstractBook.queue_resize_split hqueue, AbstractBook.resizeAt_of_eq rfl hq,
      Option.toList_some, restingQty_append, restingQty_cons, restingQty_nil,
      Order.qty_withQty] at hfit
    omega

theorem not_opOverflows {op : BookOp} (h : TotalsFit (a.applyOp op).2) : ¬ OpOverflows a op := by
  cases op with
  | add order => exact not_addOverflows h
  | remove id => exact not_false
  | updateSize id newQty => exact not_false
  | amendSize id newQty => exact not_amendOverflows h

theorem not_replayOverflows {op : BookOp} {policy : ReplayPolicy}
    (h : TotalsFit (a.applyOpWithPolicy op policy).2) : ¬ ReplayOverflows a op policy := by
  cases op with
  | add order =>
    rintro ⟨hq, hl, hover⟩
    simp only [AbstractBook.applyOpWithPolicy, if_neg hl, applyStrictly_snd] at h
    exact not_addOverflows h ⟨hq, hl, hover⟩
  | remove id => exact not_false
  | updateSize id newQty =>
    rintro ⟨hpolicy, o, ho, rfl, hlt, hover⟩
    simp only [AbstractBook.applyOpWithPolicy, KeyedQueues.find_of_mem ho,
      if_pos (And.intro (UInt64.le_of_lt hlt) hpolicy), coerceUpdate_snd] at h
    exact not_amendOverflows h ⟨o, ho, rfl, hlt, hover⟩
  | amendSize id newQty =>
    rintro ⟨o, ho, rfl, hlt, hover⟩
    simp only [AbstractBook.applyOpWithPolicy, if_pos (KeyedQueues.Live.of_mem ho),
      applyStrictly_snd] at h
    exact not_amendOverflows h ⟨o, ho, rfl, hlt, hover⟩

theorem not_submitOverflows {order : Order} {policy : LimitOrderPolicy}
    (h : TotalsFit (a.submitLimitOrder order policy).2) : ¬ SubmitOverflows a order policy := by
  rintro ⟨hq, hl, hover⟩
  cases policy with
  | gtc =>
    obtain ⟨hlt, hover⟩ := hover
    have hremainder := a.toNat_qty_remainder order
    have hpos : 0 < (a.matchOrder order).unfilledQty := by
      rw [UInt64.lt_iff_toNat_lt]
      show 0 < (a.remainder order).qty.toNat
      omega
    simp only [AbstractBook.submitLimitOrder, if_neg hq, if_neg hl, if_pos hpos] at h
    refine not_addOverflows h ⟨(UInt64.ne_of_lt hpos).symm, AbstractBook.not_live_settle hl _, ?_⟩
    have hqueue : (a.takeOrder order).queue (a.remainder order).place = a.queue order.place :=
      a.queue_takeOrder_own order order.price
    rwa [hqueue, hremainder]
  | postOnly =>
    obtain ⟨hcross, hover⟩ := hover
    simp only [AbstractBook.submitLimitOrder, if_neg hq, if_neg hl, hcross, Bool.false_eq_true,
      if_false] at h
    exact not_addOverflows h ⟨hq, hl, hover⟩
  | ioc => exact hover
  | fok => exact hover

/-- Over a list of additions the totals only grow. -/
theorem not_addAllOverflows {orders : List Order} (h : TotalsFit (a.addAll orders).2) :
    TotalsFit a ∧ ¬ AddAllOverflows a orders := by
  induction orders generalizing a with
  | nil => exact ⟨h, not_false⟩
  | cons order orders ih =>
    rw [AbstractBook.addAll] at h
    cases hadd : (a.add order).1 with
    | error e =>
      simp only [hadd] at h
      refine ⟨totalsFit_of_add h, ?_⟩
      rintro (hover | ⟨hok, -⟩)
      · exact not_addOverflows h hover
      · cases hadd.symm.trans hok
    | ok u =>
      simp only [hadd] at h
      obtain ⟨hfit, hrest⟩ := ih h
      refine ⟨totalsFit_of_add hfit, ?_⟩
      rintro (hover | ⟨-, hover⟩)
      · exact not_addOverflows hfit hover
      · exact hrest hover

theorem not_rebuildOverflows {orders preserved : List Order}
    (h : TotalsFit (AbstractBook.rebuild orders preserved).2) :
    ¬ RebuildOverflows orders preserved := by
  rw [AbstractBook.rebuild] at h
  cases horders : (AbstractBook.addAll KeyedQueues.empty orders).1 with
  | error e =>
    simp only [horders] at h
    rintro (hover | ⟨⟨n, hok⟩, -⟩)
    · exact (not_addAllOverflows h).2 hover
    · cases horders.symm.trans hok
  | ok n =>
    simp only [horders] at h
    obtain ⟨hfit, hrest⟩ := not_addAllOverflows h
    rintro (hover | ⟨-, hover⟩)
    · exact (not_addAllOverflows hfit).2 hover
    · exact hrest hover

theorem not_snapshotOverflows {orders : List Order} {policy : SnapshotPolicy}
    (h : TotalsFit (a.applySnapshotWithPolicy orders policy).2) :
    ¬ SnapshotOverflows a orders policy := by
  cases policy with
  | replace => exact not_rebuildOverflows h
  | preserveSynthetic =>
    rintro ⟨hvalid, hover⟩
    simp only [AbstractBook.applySnapshotWithPolicy, hvalid] at h
    exact not_rebuildOverflows h hover

/-- **The step lemma**: a call after which the totals fit has not overflowed. -/
theorem not_callOverflows {c : Call} (h : TotalsFit (a.exec c)) : ¬ CallOverflows a c := by
  cases c with
  | add order => exact not_addOverflows h
  | remove id => exact not_false
  | updateSize id newQty => exact not_false
  | amendSize id newQty => exact not_amendOverflows h
  | amendSizeWithPolicy id newQty policy => exact not_amendOverflows h
  | applyOp op => exact not_opOverflows h
  | applyOpWithPolicy op policy => exact not_replayOverflows h
  | applyTakerOrder taker qty limit => exact not_false
  | submitLimitOrder order policy => exact not_submitOverflows h
  | applySnapshot orders => exact not_snapshotOverflows h
  | applySnapshotWithPolicy orders policy => exact not_snapshotOverflows h
  | clear => exact not_false

/-! ### Runs -/

theorem RunFits.prefix {before after : List Call} (h : RunFits a (before ++ after)) :
    RunFits a before := by
  induction before generalizing a with
  | nil => trivial
  | cons c cs ih => exact ⟨h.1, ih h.2⟩

/-- **The run lemma**: a run that returns with totals that fit after each call fits. -/
theorem runFits_of_returns {calls : List Call} (h : Represents π b a)
    (hexact : ∀ before after, calls = before ++ after →
      ∃ b', b.run π before = .ok b' ∧ ExactTotals π b') : RunFits a calls := by
  induction calls generalizing a b with
  | nil => trivial
  | cons c cs ih =>
    obtain ⟨b₁, hrun, hexact₁⟩ := hexact [c] cs rfl
    obtain ⟨b₂, hc, h₁, hnil⟩ := represents_of_run_cons h hrun
    obtain rfl : b₂ = b₁ := Except.ok.inj hnil
    refine ⟨not_callOverflows ((exactTotals_iff h₁).mp hexact₁), ih h₁ fun before after heq => ?_⟩
    obtain ⟨b', hrun', hexact'⟩ := hexact (c :: before) after (by rw [heq, List.cons_append])
    obtain ⟨b₃, hc', hrun''⟩ := run_cons_eq_ok.mp hrun'
    obtain rfl : b₂ = b₃ := Except.ok.inj (hc.symm.trans hc')
    exact ⟨b', hrun'', hexact'⟩

/-- **The totals are exact after every call of a run exactly when the run fits**: whenever a call
adds to a level, the true total of the level and what is added do not exceed the largest `u64`. -/
theorem runExact_iff_runFits (π : Profile) (calls : List Call) :
    RunExact π calls ↔ RunFits KeyedQueues.empty calls := by
  refine ⟨runFits_of_returns (represents_new π), ?_⟩
  rintro hfits before after rfl
  obtain ⟨b, hrun, hrep⟩ := run_returns (represents_new π) hfits.prefix
  exact ⟨b, hrun, (totalsFit_of_runFits hfits.prefix).exactTotals hrep⟩

/-- Two bids at one price whose quantities add up to `2 ^ 64`. -/
def overflowCalls : List Call :=
  [.add (sampleOrder 1 1 .bid 100 18446744073709551615), .add (sampleOrder 2 1 .bid 100 1)]

/-- Both orders are valid; the second one panics where overflow is checked, and where it is not,
leaves a level of two orders with a total of zero. -/
theorem not_forall_runExact :
    OrderBook.new.run .dev overflowCalls = .error .overflow ∧
      (∃ b, OrderBook.new.run .release overflowCalls = .ok b ∧
        b.levelSummary .bid 100 = some (0, 2)) ∧
      ¬ ∀ π calls, RunExact π calls := by
  have hdev : OrderBook.new.run .dev overflowCalls = .error .overflow := by rfl
  refine ⟨hdev, ⟨_, by rfl, by rfl⟩, fun hall => ?_⟩
  obtain ⟨b, hrun, -⟩ := hall .dev overflowCalls overflowCalls [] (by simp)
  exact nomatch hdev.symm.trans hrun

end L4Book
