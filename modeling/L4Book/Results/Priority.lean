import L4Book.Results.Totals

/-!
# Time priority

Time priority is never lost except on purpose. Whatever an incremental call does to the lists of the
book, it does in two strokes: orders change or go where they stand, and then one order is appended,
which is a new one, unless an amendment grew it under the policy that costs it its place. Neither
stroke puts an order ahead of one that was there before.

## Main definitions

* `AheadAt`: one order stands ahead of another in `orders_at`
* `StaysLive`, `KeepsPriority`: what is asked of the orders in the course of a run
* `Moves`: the two strokes

## Main results

* `exec_moves`: every incremental call is of this kind
* `priority_keptInRuns`
-/

namespace L4Book

variable {π : Profile} {b b' : OrderBook} {a a' : AbstractBook} {c : Call} {calls : List Call}
  {id x y : OrderId}

/-- `x` stands ahead of `y` at this side and price. -/
def AheadAt (b : OrderBook) (side : Side) (price : Price) (x y : OrderId) : Prop :=
  ∃ orders, b.ordersAt side price = .ok orders ∧ [x, y].Sublist (orders.map Order.id)

/-- The calls that do not replace the book. -/
def Call.Incremental : Call → Prop
  | .applySnapshot _ => False
  | .applySnapshotWithPolicy _ _ => False
  | .clear => False
  | _ => True

/-- The call increases the order under the policy that costs it its place. -/
def LosesPriority (b : OrderBook) (c : Call) (id : OrderId) : Prop :=
  ∃ order newQty, b.get id = .ok (some order) ∧ order.qty < newQty ∧
    c = .amendSizeWithPolicy id newQty .losePriorityOnIncrease

/-- The order is live before the run and after each call of it. -/
def StaysLive (π : Profile) (id : OrderId) (b : OrderBook) : List Call → Prop
  | [] => b.containsKey id = true
  | c :: cs => b.containsKey id = true ∧ ∀ b₁, b.exec π c = .ok b₁ → StaysLive π id b₁ cs

/-- No call of the run makes the order lose its priority. -/
def KeepsPriority (π : Profile) (id : OrderId) (b : OrderBook) : List Call → Prop
  | [] => True
  | c :: cs => ¬ LosesPriority b c id ∧ ∀ b₁, b.exec π c = .ok b₁ → KeepsPriority π id b₁ cs

/-! ### What a call does to the lists -/

/-- Orders change where they stand, and then one order may be appended, which is new unless its
place was lost. -/
inductive Moves (loses : OrderId → Prop) (a : AbstractBook) : AbstractBook → Prop
  | change (g : Order → Option Order)
    (hg : KeyedQueues.StaysPut Order.place Order.id (fun o => o.qty ≠ 0) g) :
    Moves loses a (a.filterMap g hg)
  | append (g : Order → Option Order)
    (hg : KeyedQueues.StaysPut Order.place Order.id (fun o => o.qty ≠ 0) g) (order : Order)
    (hq : order.qty ≠ 0) (hl : ¬ KeyedQueues.Live (a.filterMap g hg) order.id)
    (hold : ∀ o ∈ a, o.id = order.id → o.place = order.place ∧ loses o.id) :
    Moves loses a (KeyedQueues.push (a.filterMap g hg) order hq hl)

section Moves

variable {loses : OrderId → Prop} {order : Order}

theorem moves_settle (fills : List FillDelta) : Moves loses a (a.settle fills) := by
  rw [settle_eq]
  exact .change _ _

theorem moves_refl (a : AbstractBook) : Moves loses a a := moves_settle []

theorem moves_resize (id : OrderId) (newQty : Qty) : Moves loses a (a.resize id newQty) :=
  .change _ (AbstractBook.resizeAt_staysPut id newQty)

/-- Adding an order that is not live, after a match. -/
theorem moves_settle_add (fills : List FillDelta) (hl : ¬ a.Live order.id) :
    Moves loses a ((a.settle fills).add order).2 := by
  by_cases hq : order.qty = 0
  · rw [AbstractBook.add, dif_pos hq]
    exact moves_settle fills
  · rw [AbstractBook.add_of_not_live hq (AbstractBook.not_live_settle hl fills)]
    have hl' := AbstractBook.not_live_settle hl fills
    show Moves loses a ((a.settle fills).push order hq hl')
    simp only [settle_eq]
    exact .append _ _ order hq _ fun o ho hid => absurd ⟨o, ho, hid⟩ hl

theorem moves_add (order : Order) : Moves loses a (a.add order).2 := by
  rcases a.add_snd order with h | ⟨-, hl, -⟩
  · rw [h]
    exact moves_refl a
  · exact moves_settle_add [] hl

theorem moves_remove (id : OrderId) : Moves loses a (a.remove id).2 := by
  rcases a.remove_snd id with h | h
  · rw [h]
    exact moves_refl a
  · rw [h]
    exact moves_resize id 0

theorem moves_updateSize (id : OrderId) (newQty : Qty) :
    Moves loses a (a.updateSize id newQty).2 := by
  rcases a.updateSize_snd id newQty with h | h
  · rw [h]
    exact moves_refl a
  · rw [h]
    exact moves_resize id newQty

theorem moves_amendSizeWithPolicy (id : OrderId) (newQty : Qty) (policy : AmendPriorityPolicy)
    (hloses : ∀ o, a.find id = some o → o.qty < newQty → policy = .losePriorityOnIncrease →
      loses id) : Moves loses a (a.amendSizeWithPolicy id newQty policy).2 := by
  rcases a.amendSizeWithPolicy_snd id newQty policy with
    h | h | ⟨o, hq, hfind, hlt, hpolicy, h⟩
  · rw [h]
    exact moves_refl a
  · rw [h]
    exact moves_resize id newQty
  · rw [h]
    obtain ⟨ho, rfl⟩ := KeyedQueues.find_eq_some_iff.mp hfind
    refine .append _ (AbstractBook.resizeAt_staysPut o.id 0) (o.withQty newQty) _ _ ?_
    intro o' ho' hid
    rw [KeyedQueues.eq_of_key_eq ho' ho hid]
    exact ⟨rfl, hloses o hfind hlt hpolicy⟩

theorem moves_amendSize (id : OrderId) (newQty : Qty) : Moves loses a (a.amendSize id newQty).2 :=
  moves_amendSizeWithPolicy id newQty .preserve fun _ _ _ h => nomatch h

theorem moves_applyOp (op : BookOp) : Moves loses a (a.applyOp op).2 := by
  cases op with
  | add order => exact moves_add order
  | remove id => exact moves_remove id
  | updateSize id newQty => exact moves_updateSize id newQty
  | amendSize id newQty => exact moves_amendSize id newQty

theorem moves_applyStrictly (op : BookOp) : Moves loses a (a.applyStrictly op).2 := by
  rw [applyStrictly_snd]
  exact moves_applyOp op

theorem moves_applyOpWithPolicy (op : BookOp) (policy : ReplayPolicy) :
    Moves loses a (a.applyOpWithPolicy op policy).2 := by
  unfold AbstractBook.applyOpWithPolicy
  cases op with
  | add order =>
    simp only
    split
    · exact moves_refl a
    · exact moves_applyStrictly _
  | remove id =>
    simp only
    split
    · exact moves_applyStrictly _
    · exact moves_refl a
  | updateSize id newQty =>
    simp only
    split
    · exact moves_refl a
    · split
      · rw [coerceUpdate_snd]
        exact moves_amendSize id newQty
      · exact moves_applyStrictly _
  | amendSize id newQty =>
    simp only
    split
    · exact moves_applyStrictly _
    · exact moves_refl a

theorem moves_applyTakerOrder (taker : Side) (qty : Qty) (limit : Price) :
    Moves loses a (a.applyTakerOrder taker qty limit).2 := by
  rw [AbstractBook.applyTakerOrder]
  split
  · exact moves_refl a
  · exact moves_settle _

theorem moves_submitLimitOrder (order : Order) (policy : LimitOrderPolicy) :
    Moves loses a (a.submitLimitOrder order policy).2 := by
  by_cases hq : order.qty = 0
  · rw [AbstractBook.submitLimitOrder.eq_def, if_pos hq]
    exact moves_refl a
  by_cases hl : a.Live order.id
  · rw [AbstractBook.submitLimitOrder.eq_def, if_neg hq, if_pos hl]
    exact moves_refl a
  rw [AbstractBook.submitLimitOrder.eq_def, if_neg hq, if_neg hl]
  cases policy with
  | gtc =>
    simp only
    split
    · have hl' : ¬ a.Live (a.remainder order).id := hl
      exact moves_settle_add _ hl'
    · exact moves_settle _
  | ioc => exact moves_settle _
  | fok =>
    simp only
    split
    · exact moves_settle _
    · exact moves_refl a
  | postOnly =>
    simp only
    split
    · exact moves_refl a
    · exact moves_add order

/-- **Every incremental call moves the orders like this.** -/
theorem exec_moves (h : Represents π b a) (hc : c.Incremental) :
    Moves (LosesPriority b c) a (a.exec c) := by
  cases c with
  | add order => exact moves_add order
  | remove id => exact moves_remove id
  | updateSize id newQty => exact moves_updateSize id newQty
  | amendSize id newQty => exact moves_amendSize id newQty
  | amendSizeWithPolicy id newQty policy =>
    refine moves_amendSizeWithPolicy id newQty policy ?_
    rintro o hfind hlt rfl
    exact ⟨o, newQty, (get_spec h id).trans (congrArg Except.ok hfind), hlt, rfl⟩
  | applyOp op => exact moves_applyOp op
  | applyOpWithPolicy op policy => exact moves_applyOpWithPolicy op policy
  | applyTakerOrder taker qty limit => exact moves_applyTakerOrder taker qty limit
  | submitLimitOrder order policy => exact moves_submitLimitOrder order policy
  | applySnapshot orders => exact hc.elim
  | applySnapshotWithPolicy orders policy => exact hc.elim
  | clear => exact hc.elim

/-! ### What a call leaves of who stands ahead of whom -/

/-- An order that is live before and after stays in its list. -/
theorem Moves.place_eq (hm : Moves loses a a') {o o' : Order} (ho : o ∈ a) (ho' : o' ∈ a')
    (hid : o'.id = o.id) : o'.place = o.place := by
  have hchange : ∀ {g : Order → Option Order}
      (hg : KeyedQueues.StaysPut Order.place Order.id (fun o => o.qty ≠ 0) g),
      o' ∈ a.filterMap g hg → o'.place = o.place := by
    intro g hg hmem
    obtain ⟨w, hw, hgw⟩ := KeyedQueues.mem_filterMap.mp hmem
    have heq : w = o := KeyedQueues.eq_of_key_eq hw ho ((hg.key_eq hgw).symm.trans hid)
    rw [← heq]
    exact hg.place_eq hgw
  cases hm with
  | change g hg => exact hchange hg ho'
  | append g hg order hq hl hold =>
    rcases KeyedQueues.mem_push.mp ho' with hmem | rfl
    · exact hchange hg hmem
    · exact (hold o ho hid.symm).1.symm

variable {k : Side × Price}

/-- **An order stays ahead** of another unless it loses its place. -/
theorem Moves.ahead (hm : Moves loses a a') (h : a.Ahead k x y) (hx : a'.Live x) (hy : a'.Live y)
    (hkeep : ¬ loses x) : a'.Ahead k x y := by
  obtain ⟨ox, hox, rfl⟩ := h.exists_left
  obtain ⟨oy, hoy, rfl⟩ := h.exists_right
  cases hm with
  | change g hg => exact KeyedQueues.ahead_filterMap_iff.mpr ⟨h, hx, hy⟩
  | append g hg order hq hl hold =>
    have hxne : order.id ≠ ox.id := fun hid =>
      hkeep (hold ox (KeyedQueues.mem_of_mem_queue hox) hid.symm).2
    have hx' : KeyedQueues.Live (a.filterMap g hg) ox.id :=
      (KeyedQueues.live_push.mp hx).resolve_right hxne
    by_cases hyid : order.id = oy.id
    · -- the one behind has moved to the end of the list
      have hplace := (hold oy (KeyedQueues.mem_of_mem_queue hoy) hyid.symm).1
      have hk : k = order.place := (a.placed hoy).symm.trans hplace
      obtain ⟨z, hz, hzid⟩ := hx'
      have hchange : Moves loses a (a.filterMap g hg) := .change g hg
      have hzplace := hchange.place_eq (KeyedQueues.mem_of_mem_queue hox) hz hzid
      have hzk : z.place = k := hzplace.trans (a.placed hox)
      refine KeyedQueues.ahead_push_iff.mpr (Or.inr ⟨hk, ?_, hyid.symm⟩)
      exact List.mem_map.mpr ⟨z, KeyedQueues.mem_queue_iff.mpr ⟨hz, hzk⟩, hzid⟩
    · have hy' : KeyedQueues.Live (a.filterMap g hg) oy.id :=
        (KeyedQueues.live_push.mp hy).resolve_right hyid
      exact KeyedQueues.ahead_push_iff.mpr
        (Or.inl (KeyedQueues.ahead_filterMap_iff.mpr ⟨h, hx', hy'⟩))

/-- **No order gets ahead** of another unless that one loses its place. -/
theorem Moves.ahead_of_ahead (hm : Moves loses a a') (h : a'.Ahead k x y) (hy : a.Live y)
    (hkeep : ¬ loses y) : a.Ahead k x y := by
  cases hm with
  | change g hg => exact (KeyedQueues.ahead_filterMap_iff.mp h).1
  | append g hg order hq hl hold =>
    rcases KeyedQueues.ahead_push_iff.mp h with h | ⟨-, -, rfl⟩
    · exact (KeyedQueues.ahead_filterMap_iff.mp h).1
    · obtain ⟨o, ho, hid⟩ := hy
      exact absurd (hid ▸ (hold o ho hid).2) hkeep

end Moves

/-! ### Runs -/

theorem aheadAt_iff (h : Represents π b a) {side : Side} {price : Price} :
    AheadAt b side price x y ↔ a.Ahead (side, price) x y := by
  constructor
  · rintro ⟨orders, horders, hsub⟩
    rw [ordersAt_spec h, Except.ok.injEq] at horders
    subst horders
    exact hsub
  · exact fun hsub => ⟨_, ordersAt_spec h side price, hsub⟩

theorem StaysLive.live (hlive : StaysLive π id b calls) (h : Represents π b a) : a.Live id := by
  cases calls with
  | nil => exact (containsKey_spec h id).mp hlive
  | cons c cs => exact (containsKey_spec h id).mp hlive.1

/-- **The run lemma, forwards.** -/
theorem ahead_run (h : Represents π b a) (hcalls : ∀ c ∈ calls, c.Incremental)
    (hrun : b.run π calls = .ok b') {k : Side × Price} (hahead : a.Ahead k x y)
    (hx : StaysLive π x b calls) (hy : StaysLive π y b calls)
    (hkeep : KeepsPriority π x b calls) : (calls.foldl AbstractBook.exec a).Ahead k x y := by
  induction calls generalizing a b with
  | nil => exact hahead
  | cons c cs ih =>
    rw [List.forall_mem_cons] at hcalls
    obtain ⟨b₁, hc, h₁, hrun⟩ := represents_of_run_cons h hrun
    have hx₁ := hx.2 b₁ hc
    have hy₁ := hy.2 b₁ hc
    exact ih h₁ hcalls.2 hrun
      ((exec_moves h hcalls.1).ahead hahead (hx₁.live h₁) (hy₁.live h₁) hkeep.1) hx₁ hy₁
      (hkeep.2 b₁ hc)

/-- **The run lemma, backwards.** -/
theorem ahead_of_run (h : Represents π b a) (hcalls : ∀ c ∈ calls, c.Incremental)
    (hrun : b.run π calls = .ok b') {k : Side × Price}
    (hahead : (calls.foldl AbstractBook.exec a).Ahead k x y) (hy : StaysLive π y b calls)
    (hkeep : KeepsPriority π y b calls) : a.Ahead k x y := by
  induction calls generalizing a b with
  | nil => exact hahead
  | cons c cs ih =>
    rw [List.forall_mem_cons] at hcalls
    obtain ⟨b₁, hc, h₁, hrun⟩ := represents_of_run_cons h hrun
    have hahead₁ := ih h₁ hcalls.2 hrun hahead (hy.2 b₁ hc) (hkeep.2 b₁ hc)
    exact (exec_moves h hcalls.1).ahead_of_ahead hahead₁ (hy.live h) hkeep.1

/-- In the course of a run, a live order stays in its list. -/
theorem place_run (h : Represents π b a) (hcalls : ∀ c ∈ calls, c.Incremental)
    (hrun : b.run π calls = .ok b') {o : Order} (ho : o ∈ a) (hlive : StaysLive π o.id b calls) :
    ∃ o' ∈ calls.foldl AbstractBook.exec a, o'.id = o.id ∧ o'.place = o.place := by
  induction calls generalizing a b o with
  | nil => exact ⟨o, ho, rfl, rfl⟩
  | cons c cs ih =>
    rw [List.forall_mem_cons] at hcalls
    obtain ⟨b₁, hc, h₁, hrun⟩ := represents_of_run_cons h hrun
    obtain ⟨o₁, ho₁, hid₁⟩ := (hlive.2 b₁ hc).live h₁
    have hplace := (exec_moves h hcalls.1).place_eq ho ho₁ hid₁
    obtain ⟨o', ho', hid, hplace'⟩ := ih h₁ hcalls.2 hrun ho₁ (hid₁ ▸ hlive.2 b₁ hc)
    exact ⟨o', ho', hid.trans hid₁, hplace'.trans hplace⟩

/-- A list in front of an order can only get shorter when no order gets ahead of it. -/
theorem length_le_of_ahead {o o' : Order} (hplace : o'.place = o.place) (hid : o'.id = o.id)
    {l r l' r' : List Order} (hqueue : a.queue o.place = l ++ o :: r)
    (hqueue' : a'.queue o'.place = l' ++ o' :: r')
    (hahead : ∀ x, a'.Ahead o.place x o.id → a.Ahead o.place x o.id) : l'.length ≤ l.length := by
  have hsub : l'.map Order.id ⊆ l.map Order.id := by
    intro x hx
    have hx' : a'.Ahead o'.place x o'.id := (KeyedQueues.ahead_iff_mem_left hqueue').mpr hx
    rw [hplace, hid] at hx'
    exact (KeyedQueues.ahead_iff_mem_left hqueue).mp (hahead x hx')
  have hnodup : (l'.map Order.id).Nodup := by
    have hall := a'.nodup o'.place
    rw [hqueue', List.map_append] at hall
    exact hall.of_append_left
  have hle := (List.subperm_of_subset hnodup hsub).length_le
  rwa [List.length_map, List.length_map] at hle

/-- **Time priority is never lost except on purpose.** An order ahead of another stays ahead while
both are live and it is not increased under the policy that costs it its place. And nothing gets
ahead of an order that keeps its place. -/
theorem priority_keptInRuns (hb : Reachable π b) (hcalls : ∀ c ∈ calls, c.Incremental)
    (hrun : b.run π calls = .ok b') :
    (∀ side price x y, AheadAt b side price x y → StaysLive π x b calls →
      StaysLive π y b calls → KeepsPriority π x b calls → AheadAt b' side price x y) ∧
    ∀ y, StaysLive π y b calls → KeepsPriority π y b calls →
      (∀ side price x, AheadAt b' side price x y → AheadAt b side price x y) ∧
      ∃ pos pos', b.queuePosition π y = .ok (.ok pos) ∧
        b'.queuePosition π y = .ok (.ok pos') ∧ pos'.ordersAhead ≤ pos.ordersAhead := by
  obtain ⟨a, h⟩ := hb.represents
  have h' := run_represents h hrun
  constructor
  · intro side price x y hahead hx hy hkeep
    exact (aheadAt_iff h').mpr (ahead_run h hcalls hrun ((aheadAt_iff h).mp hahead) hx hy hkeep)
  · intro y hy hkeep
    have hback : ∀ k x, (calls.foldl AbstractBook.exec a).Ahead k x y → a.Ahead k x y :=
      fun k x hahead => ahead_of_run h hcalls hrun hahead hy hkeep
    refine ⟨fun side price x hahead =>
      (aheadAt_iff h).mpr (hback _ _ ((aheadAt_iff h').mp hahead)), ?_⟩
    obtain ⟨o, ho, rfl⟩ := hy.live h
    obtain ⟨o', ho', hid, hplace⟩ := place_run h hcalls hrun ho hy
    obtain ⟨l, r, hqueue⟩ := List.append_of_mem (KeyedQueues.mem_def.mp ho)
    obtain ⟨l', r', hqueue'⟩ := List.append_of_mem (KeyedQueues.mem_def.mp ho')
    have hpos := queuePosition_spec h' hqueue'
    rw [hid] at hpos
    exact ⟨_, _, queuePosition_spec h hqueue, hpos,
      length_le_of_ahead hplace hid hqueue hqueue' (hback o.place)⟩

/-- In the sample book, bid 2 stays ahead of bid 4 when a taker has eaten into it. -/
theorem priority_keptInRuns_sample : ∃ b',
    sampleBook.run .dev [.applyTakerOrder .ask 3 100] = .ok b' ∧ AheadAt b' .bid 100 2 4 := by
  have hcalls : ∀ c ∈ [Call.applyTakerOrder .ask 3 100], c.Incremental := by
    simp [Call.Incremental]
  have hlive : ∀ id, id = 2 ∨ id = 4 →
      StaysLive .dev id sampleBook [.applyTakerOrder .ask 3 100] := by
    intro id hid
    refine ⟨by rcases hid with rfl | rfl <;> rfl, fun b₁ h₁ => ?_⟩
    have hkey : (fun b => b.containsKey id) <$> sampleBook.exec .dev (.applyTakerOrder .ask 3 100) =
        .ok true := by
      rcases hid with rfl | rfl <;> rfl
    rw [h₁] at hkey
    exact Except.ok.inj hkey
  have hkeep : KeepsPriority .dev 2 sampleBook [.applyTakerOrder .ask 3 100] := by
    refine ⟨?_, fun _ _ => trivial⟩
    rintro ⟨order, newQty, -, -, hc⟩
    exact nomatch hc
  exact ⟨_, by rfl, (priority_keptInRuns sampleBook_reachable hcalls (by rfl)).1 .bid 100 2 4
    ⟨_, by rfl, by decide⟩ (hlive 2 (Or.inl rfl)) (hlive 4 (Or.inr rfl)) hkeep⟩

end L4Book
