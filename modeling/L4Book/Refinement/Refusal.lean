import L4Book.Refinement.Snapshot

/-!
# Refused calls

What the book does with a call that the abstract book refuses: it replies with the same error and
hands back the very book it was given, field for field. A refusal is decided before the first
write, and a compound call that has passed its own checks is not refused halfway.

## Main results

* `add_of_refused`, `remove_of_refused`, `updateSize_of_refused`, `amendSizeWithPolicy_of_refused`,
  `applyOp_of_refused`
* `applyOpWithPolicy_of_refuses`: the same under every replay policy
* `AbstractBook.submitLimitOrder_accepts`: nothing is refused after the first two checks
* `preserveSynthetic_of_refused`
-/

namespace L4Book

variable {π : Profile} {b : OrderBook} {a : AbstractBook} {id : OrderId} {newQty : Qty}
  {e : BookError}

/-! ### The primitive calls -/

theorem add_of_refused (h : Represents π b a) {order : Order}
    (hr : (a.add order).1 = .error e) : b.add π order = .ok (.error e, b) := by
  rw [AbstractBook.add] at hr
  rw [OrderBook.add]
  by_cases hq : order.qty = 0
  · rw [dif_pos hq] at hr
    obtain rfl := Except.error.inj hr
    rw [if_pos hq]
  by_cases hl : a.Live order.id
  · rw [dif_neg hq, dif_pos hl] at hr
    obtain rfl := Except.error.inj hr
    rw [if_neg hq, if_pos ((containsKey_spec h order.id).mpr hl)]
  · rw [dif_neg hq, dif_neg hl] at hr
    cases hr

theorem remove_of_refused (h : Represents π b a) (hr : (a.remove id).1 = .error e) :
    b.remove π id = .ok (.error e, b) := by
  rw [AbstractBook.remove] at hr
  cases hfind : a.find id with
  | none =>
    rw [hfind] at hr
    obtain rfl := Except.error.inj hr
    rw [OrderBook.remove, lookup_of_find_eq_none h hfind]
  | some o =>
    rw [hfind] at hr
    cases hr

theorem updateSize_of_refused (h : Represents π b a) (hr : (a.updateSize id newQty).1 = .error e) :
    b.updateSize π id newQty = .ok (.error e, b) := by
  rw [AbstractBook.updateSize] at hr
  cases hfind : a.find id with
  | none =>
    rw [hfind] at hr
    obtain rfl := Except.error.inj hr
    rw [OrderBook.updateSize, lookup_of_find_eq_none h hfind]
  | some o =>
    rw [hfind] at hr
    by_cases hle : o.qty ≤ newQty
    · simp only [if_pos hle] at hr
      obtain rfl := Except.error.inj hr
      obtain ⟨slot, x, hlook, rfl, hnode⟩ := exists_node_of_find h hfind
      rw [OrderBook.updateSize, hlook]
      simp only [hnode, ok_bind, if_pos hle]
      rfl
    · simp only [if_neg hle] at hr
      cases hr

theorem amendSizeWithPolicy_of_refused (h : Represents π b a) {policy : AmendPriorityPolicy}
    (hr : (a.amendSizeWithPolicy id newQty policy).1 = .error e) :
    b.amendSizeWithPolicy π id newQty policy = .ok (.error e, b) := by
  rw [AbstractBook.amendSizeWithPolicy] at hr
  cases hfind : a.find id with
  | none =>
    rw [hfind] at hr
    obtain rfl := Except.error.inj hr
    have hlook := lookup_of_find_eq_none h hfind
    rw [OrderBook.amendSizeWithPolicy]
    by_cases hq : newQty = 0
    · rw [if_pos hq, OrderBook.remove, hlook]
      rfl
    · rw [if_neg hq, hlook]
  | some o =>
    rw [hfind] at hr
    by_cases hq : newQty = 0
    · simp only [dif_pos hq] at hr
      cases hr
    · simp only [dif_neg hq] at hr
      split at hr <;> cases hr

theorem applyOp_of_refused (h : Represents π b a) {op : BookOp}
    (hr : (a.applyOp op).1 = .error e) : b.applyOp π op = .ok (.error e, b) := by
  cases op with
  | add order => exact add_of_refused h hr
  | remove id =>
    have hremove : (a.remove id).1 = .error e := by
      have hr' : (a.remove id).1.map (fun _ => ()) = .error e := hr
      cases hv : (a.remove id).1 with
      | ok o =>
        rw [hv] at hr'
        cases hr'
      | error e' =>
        rw [hv] at hr'
        exact congrArg Except.error (Except.error.inj hr')
    rw [OrderBook.applyOp, remove_of_refused h hremove]
    rfl
  | updateSize id newQty => exact updateSize_of_refused h hr
  | amendSize id newQty => exact amendSizeWithPolicy_of_refused h hr

/-! ### Replay -/

/-- The outcome reports an operation that was not carried out. -/
def ReplayApplyOutcome.Refuses : ReplayApplyOutcome → Prop
  | .skipped _ _ => True
  | .error _ _ => True
  | _ => False

theorem duplicateOutcome_refuses (order : Order) (policy : ReplayPolicy) :
    (duplicateOutcome order policy).Refuses := by
  rw [duplicateOutcome]
  split <;> trivial

theorem missingOrder_refuses (op : BookOp) (id : OrderId) (policy : ReplayPolicy) :
    (OrderBook.missingOrder op id policy).Refuses := by
  rw [OrderBook.missingOrder]
  split <;> trivial

theorem applyStrictly_of_refuses (h : Represents π b a) {op : BookOp}
    (hr : (a.applyStrictly op).1.Refuses) :
    b.applyStrictly π op = .ok ((a.applyStrictly op).1, b) := by
  rw [AbstractBook.applyStrictly] at hr ⊢
  cases hop : (a.applyOp op).1 with
  | ok u =>
    rw [hop] at hr
    exact hr.elim
  | error e =>
    rw [OrderBook.applyStrictly, applyOp_of_refused h hop]
    rfl

/-- **An operation that is not carried out under a policy leaves the book as it was.** -/
theorem applyOpWithPolicy_of_refuses (h : Represents π b a) {op : BookOp} {policy : ReplayPolicy}
    (hr : (a.applyOpWithPolicy op policy).1.Refuses) :
    b.applyOpWithPolicy π op policy = .ok ((a.applyOpWithPolicy op policy).1, b) := by
  rcases applyOpWithPolicy_cases h op policy with ⟨hb, ha⟩ | ⟨order, -, -, hb, ha⟩ |
    ⟨-, -, hb, ha⟩ | ⟨id, newQty, o, rfl, -, -, -, hb, ha⟩
  · rw [ha] at hr
    rw [hb, ha]
    exact applyStrictly_of_refuses h hr
  · rw [hb, ha]
  · rw [hb, ha]
  · -- the amendment was refused
    rw [ha, coerceUpdate_eq] at hr
    rw [hb, ha, coerceUpdate_eq]
    cases hop : (a.amendSize id newQty).1 with
    | ok u =>
      rw [hop] at hr
      exact hr.elim
    | error e =>
      have hamend : b.amendSize π id newQty = .ok (.error e, b) :=
        amendSizeWithPolicy_of_refused h hop
      rw [hamend]
      rfl

/-! ### Compound calls -/

/-- A limit order that passes the first two checks is accepted, under every policy. -/
theorem AbstractBook.submitLimitOrder_accepts {order : Order} (hq : order.qty ≠ 0)
    (hl : ¬ a.Live order.id) (policy : LimitOrderPolicy) :
    ∃ outcome, (a.submitLimitOrder order policy).1 = .ok outcome := by
  rw [AbstractBook.submitLimitOrder.eq_def, if_neg hq, if_neg hl]
  cases policy with
  | gtc =>
    by_cases hpos : 0 < (a.matchOrder order).unfilledQty
    · simp only [if_pos hpos, AbstractBook.restReporting]
      have hrest : ¬ (a.takeOrder order).Live (a.remainder order).id :=
        AbstractBook.not_live_settle hl _
      rw [AbstractBook.add_of_not_live (UInt64.ne_of_lt hpos).symm hrest]
      exact ⟨_, rfl⟩
    · simp only [if_neg hpos]
      exact ⟨_, rfl⟩
  | ioc => exact ⟨_, rfl⟩
  | fok =>
    by_cases hcomplete : (a.matchOrder order).unfilledQty = 0
    · simp only [if_pos hcomplete]
      exact ⟨_, rfl⟩
    · simp only [if_neg hcomplete]
      exact ⟨_, rfl⟩
  | postOnly =>
    by_cases hcross : a.wouldCross order.side order.price = true
    · simp only [if_pos hcross]
      exact ⟨_, rfl⟩
    · simp only [if_neg hcross, AbstractBook.restReporting]
      rw [AbstractBook.add_of_not_live hq hl]
      exact ⟨_, rfl⟩

/-- A snapshot that `PreserveSynthetic` refuses, it refuses before it clears the book. -/
theorem preserveSynthetic_of_refused (h : Represents π b a) {orders : List Order}
    (hr : (a.applySnapshotWithPolicy orders .preserveSynthetic).1 = .error e) :
    b.applySnapshotWithPolicy π orders .preserveSynthetic = .ok (.error e, b) := by
  rw [OrderBook.applySnapshotWithPolicy, syntheticOrdersInBookOrder_spec h, ok_bind]
  rw [AbstractBook.applySnapshotWithPolicy] at hr
  cases hvalid : OrderBook.validatePreserveSyntheticSnapshot orders a.syntheticOrders with
  | error e' =>
    rw [hvalid] at hr
    obtain rfl := Except.error.inj hr
    rfl
  | ok u =>
    have hsnapshot := AbstractBook.validatePreserveSyntheticSnapshot_eq_ok_iff.mp hvalid
    rw [hvalid, (hsnapshot.rebuild a).1] at hr
    cases hr

end L4Book
