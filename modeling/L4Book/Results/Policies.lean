import L4Book.Operations
import L4Book.Refinement.Dedupe
import L4Book.Refinement.Refusal
import L4Book.Results.Simulation

/-!
# Replay policies

What a replay policy may change. An operation that `apply_op` would carry out is carried out under
every policy in the same way; a tolerant policy only decides about the others. The strict policy is
meant to be `apply_op` with an outcome for a result, and is, except for an empty order under a live
id: there the policy looks for the id first, and `apply_op` for the quantity.

## Main definitions

* `StrictMirrors`: the strict policy is `apply_op`
* `Tolerates`: what any policy may do with an operation
* `Absorbs`: what the tolerant policy does over a run

## Main results

* `strictMirrors_iff`
* `tolerance_absorbsArtifacts`
-/

namespace L4Book

variable {π : Profile} {b b' : OrderBook} {a : AbstractBook} {op : BookOp}
  {policy : ReplayPolicy} {id : OrderId} {newQty : Qty}

/-! ### The strict policy -/

/-- Applying the operation under the strict policy is `apply_op`, with an outcome for a result. -/
structure StrictMirrors (π : Profile) (b : OrderBook) (op : BookOp) : Prop where
  applied : ∀ b', b.applyOpWithPolicy π op .strict = .ok (.applied op, b') ↔
    b.applyOp π op = .ok (.ok (), b')
  error : ∀ e b', b.applyOpWithPolicy π op .strict = .ok (.error op e, b') ↔
    b.applyOp π op = .ok (.error e, b')
  /-- Nothing is skipped or coerced. -/
  outcomes : ∀ outcome b', b.applyOpWithPolicy π op .strict = .ok (outcome, b') →
    outcome = .applied op ∨ ∃ e, outcome = .error op e
  faults : ∀ f, b.applyOpWithPolicy π op .strict = .error f ↔ b.applyOp π op = .error f

/-- An empty order under an id that is live. -/
def EmptyDuplicate (b : OrderBook) (op : BookOp) : Prop :=
  ∃ order, op = .add order ∧ order.qty = 0 ∧ b.containsKey order.id = true

/-- `apply_op` with an outcome for a result mirrors `apply_op`. -/
theorem strictMirrors_of_applyStrictly
    (h : b.applyOpWithPolicy π op .strict = b.applyStrictly π op) : StrictMirrors π b op := by
  cases hv : b.applyOp π op with
  | error f =>
    have heq : b.applyOpWithPolicy π op .strict = .error f := by
      rw [h, OrderBook.applyStrictly, hv]
      rfl
    constructor <;> simp [heq, hv]
  | ok r =>
    obtain ⟨r, b₁⟩ := r
    rcases r with e | u
    · have heq : b.applyOpWithPolicy π op .strict = .ok (.error op e, b₁) := by
        rw [h, OrderBook.applyStrictly, hv]
        rfl
      constructor <;> simp [heq, hv]
    · have heq : b.applyOpWithPolicy π op .strict = .ok (.applied op, b₁) := by
        rw [h, OrderBook.applyStrictly, hv]
        rfl
      constructor <;> simp [heq, hv]

/-- An operation on an order the book does not have is refused. -/
theorem applyOp_of_missing (h : Represents π b a) (hnew : ∀ order, op ≠ .add order)
    (hfind : a.find op.orderId = none) :
    b.applyOp π op = .ok (.error (.unknownOrderId op.orderId), b) := by
  refine applyOp_of_refused h ?_
  rw [AbstractBook.applyOp_fst, hfind]
  cases op with
  | add order => exact absurd rfl (hnew order)
  | remove id => rfl
  | updateSize id newQty => rfl
  | amendSize id newQty => rfl

/-- Apart from empty duplicates, the policy decides as `apply_op` does. -/
theorem applyOpWithPolicy_strict (h : Represents π b a) (hop : ¬ EmptyDuplicate b op) :
    b.applyOpWithPolicy π op .strict = b.applyStrictly π op := by
  rcases applyOpWithPolicy_cases h op .strict with ⟨hb, -⟩ | ⟨order, rfl, hl, hb, -⟩ |
    ⟨hnew, hfind, hb, -⟩ | ⟨id, newQty, o, -, -, -, hpolicy, -⟩
  · exact hb
  · have hkey : b.containsKey order.id = true := (containsKey_spec h order.id).mpr hl
    have hq : order.qty ≠ 0 := fun hq => hop ⟨order, rfl, hq, hkey⟩
    have hadd : b.applyOp π (.add order) = .ok (.error (.duplicateOrderId order.id), b) := by
      rw [OrderBook.applyOp, OrderBook.add, if_neg hq, if_pos hkey]
    rw [hb, OrderBook.applyStrictly, hadd]
    rfl
  · rw [hb, OrderBook.applyStrictly, applyOp_of_missing h hnew hfind]
    rfl
  · exact absurd hpolicy (by decide)

/-- An empty duplicate gets two different errors. -/
theorem applyOp_emptyDuplicate (π : Profile) {order : Order} (hq : order.qty = 0)
    (hl : b.containsKey order.id = true) :
    b.applyOp π (.add order) = .ok (.error .zeroQty, b) ∧
      b.applyOpWithPolicy π (.add order) .strict =
        .ok (.error (.add order) (.duplicateOrderId order.id), b) := by
  constructor
  · rw [OrderBook.applyOp, OrderBook.add, if_pos hq]
  · unfold OrderBook.applyOpWithPolicy
    simp only [if_pos hl]
    rfl

theorem not_strictMirrors_of_emptyDuplicate (hop : EmptyDuplicate b op) :
    ¬ StrictMirrors π b op := by
  obtain ⟨order, rfl, hq, hl⟩ := hop
  intro hmirrors
  obtain ⟨hop, hpolicy⟩ := applyOp_emptyDuplicate π hq hl
  have hzero := (hmirrors.error .zeroQty b).mpr hop
  rw [hpolicy] at hzero
  cases hzero

/-- **The strict policy mirrors `apply_op` exactly when the operation is not an empty
duplicate.** -/
theorem strictMirrors_iff (hb : Reachable π b) (op : BookOp) :
    StrictMirrors π b op ↔ ¬ EmptyDuplicate b op := by
  obtain ⟨a, h⟩ := hb.represents
  constructor
  · exact fun hmirrors hop => not_strictMirrors_of_emptyDuplicate hop hmirrors
  · exact fun hop => strictMirrors_of_applyStrictly (applyOpWithPolicy_strict h hop)

/-- The second order of the sample book is live, so an order of that id is no empty duplicate as
long as it has a quantity. -/
theorem strictMirrors_iff_sample :
    StrictMirrors .dev sampleBook (.add (sampleOrder 2 1 .bid 90 5)) := by
  refine (strictMirrors_iff sampleBook_reachable _).mpr ?_
  rintro ⟨order, heq, hq, -⟩
  rw [← BookOp.add.inj heq] at hq
  exact absurd hq (by decide)

/-- An empty order under a live id of the sample book. -/
theorem not_forall_strictMirrors :
    ¬ ∀ (π : Profile) (b : OrderBook) (op : BookOp), Reachable π b → StrictMirrors π b op := by
  intro hall
  have hduplicate : EmptyDuplicate sampleBook (.add (sampleOrder 2 1 .bid 90 0)) :=
    ⟨_, rfl, rfl, by rfl⟩
  exact not_strictMirrors_of_emptyDuplicate hduplicate
    (hall .dev sampleBook _ sampleBook_reachable)

/-! ### What a policy may change -/

variable {outcome : ReplayApplyOutcome}

/-- What applying an operation strictly can report. -/
theorem applyStrictly_cases (hr : b.applyStrictly π op = .ok (outcome, b')) :
    (outcome = .applied op ∧ b.applyOp π op = .ok (.ok (), b')) ∨
      ∃ e, outcome = .error op e ∧ b.applyOp π op = .ok (.error e, b') := by
  obtain ⟨⟨r, b₁⟩, hop, hr⟩ := bind_eq_ok_iff.mp hr
  cases r with
  | ok u =>
    obtain ⟨rfl, rfl⟩ := Prod.mk.inj (Except.ok.inj hr)
    exact Or.inl ⟨rfl, hop⟩
  | error e =>
    obtain ⟨rfl, rfl⟩ := Prod.mk.inj (Except.ok.inj hr)
    exact Or.inr ⟨e, rfl, hop⟩

theorem applyStrictly_of_accepted (hop : b.applyOp π op = .ok (.ok (), b')) :
    b.applyStrictly π op = .ok (.applied op, b') := by
  rw [OrderBook.applyStrictly, hop]
  rfl

/-- A policy that does not step in leaves the operation to `apply_op`; it steps in where the
operation would fail. -/
theorem applyOpWithPolicy_eq (h : Represents π b a) (op : BookOp) (policy : ReplayPolicy) :
    b.applyOpWithPolicy π op policy = b.applyStrictly π op ∨
      ∃ e, b.applyOp π op = .ok (.error e, b) := by
  rcases applyOpWithPolicy_cases h op policy with ⟨hb, -⟩ | ⟨order, rfl, hl, -⟩ |
    ⟨hnew, hfind, -⟩ | ⟨id, newQty, o, rfl, hfind, hle, -⟩
  · exact Or.inl hb
  · have hadd : ∃ e, (a.add order).1 = .error e := by
      rw [AbstractBook.add]
      by_cases hq : order.qty = 0
      · exact ⟨_, by rw [dif_pos hq]⟩
      · exact ⟨_, by rw [dif_neg hq, dif_pos hl]⟩
    obtain ⟨e, he⟩ := hadd
    exact Or.inr ⟨e, add_of_refused h he⟩
  · exact Or.inr ⟨_, applyOp_of_missing h hnew hfind⟩
  · refine Or.inr ⟨.nonDecreasingSize o.qty newQty, updateSize_of_refused h ?_⟩
    rw [AbstractBook.updateSize, hfind]
    simp only [if_pos hle]

/-- What a policy carries out is applied, or it is an update that is done as an amendment. -/
theorem carriedOut_cases (h : Represents π b a)
    (hr : b.applyOpWithPolicy π op policy = .ok (outcome, b')) (hdone : ¬ outcome.Refuses) :
    (outcome = .applied op ∧ b.applyOp π op = .ok (.ok (), b')) ∨
    ∃ id newQty o, op = .updateSize id newQty ∧ a.find id = some o ∧ o.qty ≤ newQty ∧
      policy.nonDecreasingUpdate = .treatAsAmend ∧ b.amendSize π id newQty = .ok (.ok (), b') ∧
      outcome = .coerced op (.amendSize id newQty) (.nonDecreasingUpdate id o.qty newQty) := by
  rcases applyOpWithPolicy_cases h op policy with ⟨hb, -⟩ | ⟨order, -, -, hb, -⟩ |
    ⟨-, -, hb, -⟩ | ⟨id, newQty, o, rfl, hfind, hle, hpolicy, hb, -⟩
  · rw [hb] at hr
    rcases applyStrictly_cases hr with happlied | ⟨e, rfl, -⟩
    · exact Or.inl happlied
    · exact absurd trivial hdone
  · rw [hb] at hr
    obtain ⟨rfl, -⟩ := Prod.mk.inj (Except.ok.inj hr)
    exact absurd (duplicateOutcome_refuses order policy) hdone
  · rw [hb] at hr
    obtain ⟨rfl, -⟩ := Prod.mk.inj (Except.ok.inj hr)
    exact absurd (missingOrder_refuses op op.orderId policy) hdone
  · rw [hb] at hr
    rcases hamend : b.amendSize π id newQty with f | ⟨e | u, b₁⟩
    · rw [hamend] at hr
      cases hr
    · rw [hamend] at hr
      cases hr
      exact absurd trivial hdone
    · rw [hamend] at hr
      cases hr
      exact Or.inr ⟨id, newQty, o, rfl, hfind, hle, hpolicy, hamend, rfl⟩

/-- What is reported as applied, `apply_op` carries out. -/
theorem applyOp_of_applied (h : Represents π b a) {op' : BookOp}
    (hr : b.applyOpWithPolicy π op policy = .ok (.applied op', b')) :
    b.applyOp π op = .ok (.ok (), b') := by
  rcases carriedOut_cases h hr (fun hrefuses => hrefuses) with ⟨-, hop⟩ |
    ⟨_, _, _, -, -, -, -, -, houtcome⟩
  · exact hop
  · cases houtcome

/-- The step that a tolerant policy takes on its own: an update that does not shrink its order is
carried out as an amendment. -/
theorem coerced_cases (h : Represents π b a) {original applied : BookOp}
    {reason : ToleratedReplayReason}
    (hr : b.applyOpWithPolicy π op policy = .ok (.coerced original applied reason, b')) :
    ∃ id newQty o, op = .updateSize id newQty ∧ original = op ∧ applied = .amendSize id newQty ∧
      reason = .nonDecreasingUpdate id o.qty newQty ∧
      policy.nonDecreasingUpdate = .treatAsAmend ∧ a.find id = some o ∧ o.qty ≤ newQty ∧
      b.amendSize π id newQty = .ok (.ok (), b') := by
  rcases carriedOut_cases h hr (fun hrefuses => hrefuses) with ⟨houtcome, -⟩ |
    ⟨id, newQty, o, hop, hfind, hle, hpolicy, hamend, houtcome⟩
  · cases houtcome
  · cases houtcome
    exact ⟨id, newQty, o, hop, rfl, rfl, rfl, hpolicy, hfind, hle, hamend⟩

/-- What any policy may do with an operation. -/
structure Tolerates (π : Profile) (b : OrderBook) : Prop where
  /-- What `apply_op` carries out, every policy carries out. -/
  applied : ∀ op policy b', b.applyOp π op = .ok (.ok (), b') →
    b.applyOpWithPolicy π op policy = .ok (.applied op, b')
  /-- What is coerced is an update that does not shrink its order; it becomes the amendment, and
  the order keeps its place in line. -/
  coerced : ∀ op policy original applied reason b',
    b.applyOpWithPolicy π op policy = .ok (.coerced original applied reason, b') →
    ∃ id newQty order, op = .updateSize id newQty ∧ original = op ∧
      applied = .amendSize id newQty ∧ reason = .nonDecreasingUpdate id order.qty newQty ∧
      policy.nonDecreasingUpdate = .treatAsAmend ∧
      b.get id = .ok (some order) ∧ order.qty ≤ newQty ∧
      b.amendSize π id newQty = .ok (.ok (), b') ∧
      ∃ front back, b.ordersAt order.side order.price = .ok (front ++ order :: back) ∧
        b'.ordersAt order.side order.price =
          .ok (front ++ { order with qty := newQty } :: back)
  /-- What is skipped would have failed. -/
  skipped : ∀ op policy op' reason b',
    b.applyOpWithPolicy π op policy = .ok (.skipped op' reason, b') →
    ∃ e, b.applyOp π op = .ok (.error e, b)

/-- A coerced order keeps its place in line. -/
theorem ordersAt_amendSize (h : Represents π b a) {o : Order} (hfind : a.find id = some o)
    (hle : o.qty ≤ newQty) (hr : b.amendSize π id newQty = .ok (.ok (), b')) :
    ∃ front back, b.ordersAt o.side o.price = .ok (front ++ o :: back) ∧
      b'.ordersAt o.side o.price = .ok (front ++ { o with qty := newQty } :: back) := by
  obtain ⟨ho, rfl⟩ := KeyedQueues.find_eq_some_iff.mp hfind
  have hq : newQty ≠ 0 := by
    rintro rfl
    exact a.valid ho (UInt64.le_antisymm hle UInt64.zero_le)
  obtain ⟨front, back, hsplit⟩ := List.append_of_mem (show o ∈ a.queue o.place from ho)
  have hrep := ((amendSize_spec h o.id newQty).of_eq_ok hr).2
  rw [AbstractBook.amendSize_of_find hfind] at hrep
  refine ⟨front, back, ?_, ?_⟩
  · rw [ordersAt_spec h]
    exact congrArg Except.ok hsplit
  · rw [ordersAt_spec hrep]
    refine congrArg Except.ok ((AbstractBook.queue_resize_split hsplit).trans ?_)
    rw [AbstractBook.resizeAt_of_eq rfl hq, Option.toList_some, List.append_assoc]
    rfl

theorem tolerates (h : Represents π b a) : Tolerates π b where
  applied op policy b' hop := by
    rcases applyOpWithPolicy_eq h op policy with heq | ⟨e, he⟩
    · rw [heq]
      exact applyStrictly_of_accepted hop
    · rw [he] at hop
      cases hop
  coerced op policy original applied reason b' hr := by
    obtain ⟨id, newQty, o, rfl, horiginal, happlied, hreason, hpolicy, hfind, hle, hamend⟩ :=
      coerced_cases h hr
    have hget : b.get id = .ok (some o) := (get_spec h id).trans (congrArg Except.ok hfind)
    exact ⟨id, newQty, o, rfl, horiginal, happlied, hreason, hpolicy, hget, hle, hamend,
      ordersAt_amendSize h hfind hle hamend⟩
  skipped op policy op' reason b' hr := by
    rcases applyOpWithPolicy_eq h op policy with heq | hrefused
    · rw [heq] at hr
      rcases applyStrictly_cases hr with ⟨houtcome, -⟩ | ⟨e, houtcome, -⟩ <;> cases houtcome
    · exact hrefused

/-! ### Tolerant runs -/

namespace AbstractBook

/-- The tolerant policy reports an error for an empty order under a new id only. -/
theorem tolerant_error_iff (a : AbstractBook) (op : BookOp) :
    (∃ op' e, (a.applyOpWithPolicy op .dwellirTolerant).1 = .error op' e) ↔
      ∃ order, op = .add order ∧ order.qty = 0 ∧ ¬ a.Live order.id := by
  cases op with
  | add order =>
    unfold applyOpWithPolicy
    by_cases hl : a.Live order.id
    · simp [hl, ReplayPolicy.dwellirTolerant]
    by_cases hq : order.qty = 0
    · simp [hl, hq, applyStrictly, applyOp_fst, BookOp.reply]
    · have hfind : a.find order.id = none := KeyedQueues.find_eq_none_iff.mpr hl
      simp [hl, hq, hfind, applyStrictly, applyOp_fst, BookOp.reply, BookOp.orderId]
  | remove id =>
    unfold applyOpWithPolicy
    by_cases hl : a.Live id
    · obtain ⟨o, hfind⟩ := KeyedQueues.live_iff_find.mp hl
      simp [hl, hfind, applyStrictly, applyOp_fst, BookOp.reply, BookOp.orderId]
    · simp [hl, OrderBook.missingOrder, ReplayPolicy.dwellirTolerant]
  | updateSize id newQty =>
    unfold applyOpWithPolicy
    cases hfind : a.find id with
    | none => simp [hfind, OrderBook.missingOrder, ReplayPolicy.dwellirTolerant]
    | some o =>
      by_cases hle : o.qty ≤ newQty
      · simp [hfind, hle, coerceUpdate, amendSize_of_find hfind, ReplayPolicy.dwellirTolerant]
      · simp [hfind, hle, applyStrictly, applyOp_fst, BookOp.reply, BookOp.orderId]
  | amendSize id newQty =>
    unfold applyOpWithPolicy
    by_cases hl : a.Live id
    · obtain ⟨o, hfind⟩ := KeyedQueues.live_iff_find.mp hl
      simp [hl, hfind, applyStrictly, applyOp_fst, BookOp.reply, BookOp.orderId]
    · simp [hl, OrderBook.missingOrder, ReplayPolicy.dwellirTolerant]

/-- There is nothing left to do for the operation. -/
def Done (a : AbstractBook) : BookOp → Prop
  | .add order => a.Live order.id
  | .remove id => ¬ a.Live id
  | .updateSize id newQty => ¬ a.Live id ∨ ∃ o, a.find id = some o ∧ o.qty = newQty
  | .amendSize id newQty => ¬ a.Live id ∨ ∃ o, a.find id = some o ∧ o.qty = newQty

/-- A resized order is gone, or has the new quantity. -/
theorem done_resize (a : AbstractBook) (id : OrderId) (newQty : Qty) :
    ¬ (a.resize id newQty).Live id ∨
      ∃ o, (a.resize id newQty).find id = some o ∧ o.qty = newQty := by
  cases hfind : (a.resize id newQty).find id with
  | none => exact Or.inl (KeyedQueues.find_eq_none_iff.mp hfind)
  | some o =>
    refine Or.inr ⟨o, rfl, ?_⟩
    obtain ⟨ho, hid⟩ := KeyedQueues.find_eq_some_iff.mp hfind
    obtain ⟨x, -, hx⟩ := KeyedQueues.mem_filterMap.mp ho
    rcases resizeAt_eq_some_iff.mp hx with ⟨hne, rfl⟩ | ⟨-, -, rfl⟩
    · exact absurd hid hne
    · rfl

/-- **An operation that was carried out has nothing left to do.** -/
theorem done_applyOp (hok : (a.applyOp op).1 = .ok ()) : (a.applyOp op).2.Done op := by
  have hreply : op.reply (a.find op.orderId) = .ok () := (a.applyOp_fst op).symm.trans hok
  rw [applyOp_of_accepted hreply]
  cases op with
  | add order =>
    refine ⟨order, ?_, rfl⟩
    rw [KeyedQueues.mem_def, queue_effect_add hreply, if_pos rfl]
    exact List.mem_append_right _ (List.mem_singleton_self order)
  | remove id => exact not_live_resize_zero a id
  | updateSize id newQty => exact done_resize a id newQty
  | amendSize id newQty => exact done_resize a id newQty

end AbstractBook

/-- An amendment to the quantity the order has. -/
theorem applyOp_amend_same (h : Represents π b a) {o : Order} (hfind : a.find id = some o) :
    b.applyOp π (.amendSize id o.qty) = .ok (.ok (), b) := by
  have hq : o.qty ≠ 0 := a.valid (KeyedQueues.find_eq_some_iff.mp hfind).1
  obtain ⟨slot, x, hlook, rfl, hnode⟩ := exists_node_of_find h hfind
  rw [OrderBook.applyOp, OrderBook.amendSize, OrderBook.amendSizeWithPolicy, if_neg hq, hlook]
  simp only [hnode, ok_bind, if_true]
  rfl

/-- **An operation with nothing left to do changes nothing** under the tolerant policy. -/
theorem applyOpWithPolicy_of_done (h : Represents π b a) (hdone : a.Done op) :
    ∃ outcome, b.applyOpWithPolicy π op .dwellirTolerant = .ok (outcome, b) := by
  have hmissing : ∀ op id, ∃ outcome, (.ok (OrderBook.missingOrder op id .dwellirTolerant, b) :
      Except Fault (ReplayApplyOutcome × OrderBook)) = .ok (outcome, b) := fun op id => ⟨_, rfl⟩
  have hnotKey : ∀ {id}, ¬ a.Live id → b.containsKey id = false := fun hl =>
    Bool.eq_false_iff.mpr (mt (containsKey_spec h _).mp hl)
  cases op with
  | add order =>
    unfold OrderBook.applyOpWithPolicy
    simp only [if_pos ((containsKey_spec h order.id).mpr hdone)]
    exact ⟨_, rfl⟩
  | remove id =>
    unfold OrderBook.applyOpWithPolicy
    simp only [hnotKey hdone]
    exact hmissing _ _
  | updateSize id newQty =>
    show ∃ outcome, b.updateSizeWithPolicy π id newQty _ = _
    unfold OrderBook.updateSizeWithPolicy
    rcases hdone with hl | ⟨o, hfind, rfl⟩
    · simp only [lookup_of_find_eq_none h (KeyedQueues.find_eq_none_iff.mpr hl)]
      exact hmissing _ _
    · have hsame := applyOp_amend_same h hfind
      obtain ⟨slot, x, hlook, rfl, hnode⟩ := exists_node_of_find h hfind
      simp only [hlook, hnode, ok_bind]
      rw [if_pos ⟨UInt64.le_refl _, rfl⟩, hsame]
      exact ⟨_, rfl⟩
  | amendSize id newQty =>
    unfold OrderBook.applyOpWithPolicy
    rcases hdone with hl | ⟨o, hfind, rfl⟩
    · simp only [hnotKey hl]
      exact hmissing _ _
    · have hl : a.Live id := KeyedQueues.live_iff_find.mpr ⟨o, hfind⟩
      simp only [(containsKey_spec h id).mpr hl]
      exact ⟨_, applyStrictly_of_accepted (applyOp_amend_same h hfind)⟩

/-- **The second application changes nothing**, whatever the first one did. -/
theorem applyOpWithPolicy_twice (h : Represents π b a)
    (hr : b.applyOpWithPolicy π op .dwellirTolerant = .ok (outcome, b')) :
    ∃ outcome', b'.applyOpWithPolicy π op .dwellirTolerant = .ok (outcome', b') := by
  obtain ⟨houtcome, -⟩ := (applyOpWithPolicy_spec h op .dwellirTolerant).of_eq_ok hr
  have houtcome' : outcome = (a.applyOpWithPolicy op .dwellirTolerant).1 := houtcome
  have hrefused : outcome.Refuses →
      ∃ outcome', b'.applyOpWithPolicy π op .dwellirTolerant = .ok (outcome', b') := by
    intro hrefuses
    rw [houtcome'] at hrefuses
    have hsame := hr.symm.trans (applyOpWithPolicy_of_refuses h hrefuses)
    obtain rfl : b' = b := (Prod.mk.inj (Except.ok.inj hsame)).2
    exact ⟨_, hr⟩
  cases outcome with
  | applied op' =>
    obtain ⟨hok, hrep⟩ := (applyOp_spec h op).of_eq_ok (applyOp_of_applied h hr)
    exact applyOpWithPolicy_of_done hrep (AbstractBook.done_applyOp hok.symm)
  | skipped op' reason => exact hrefused trivial
  | coerced original applied reason =>
    obtain ⟨id, newQty, o, rfl, -, -, -, -, hfind, -, hamend⟩ := coerced_cases h hr
    have hrep := ((amendSize_spec h id newQty).of_eq_ok hamend).2
    rw [AbstractBook.amendSize_of_find hfind] at hrep
    exact applyOpWithPolicy_of_done hrep (AbstractBook.done_resize a id newQty)
  | error op' e => exact hrefused trivial

/-- What the tolerant policy does from here on: after any operations, the next one is an error only
for an empty order under a new id, and changes nothing when it comes a second time. -/
structure Absorbs (π : Profile) (b : OrderBook) : Prop where
  errors : ∀ ops b₁ op outcome b₂, b.replay π .dwellirTolerant ops = .ok b₁ →
    b₁.applyOpWithPolicy π op .dwellirTolerant = .ok (outcome, b₂) →
    ((∃ op' e, outcome = .error op' e) ↔
      ∃ order, op = .add order ∧ order.qty = 0 ∧ b₁.containsKey order.id = false)
  twice : ∀ ops b₁ op outcome b₂, b.replay π .dwellirTolerant ops = .ok b₁ →
    b₁.applyOpWithPolicy π op .dwellirTolerant = .ok (outcome, b₂) →
    ∃ outcome', b₂.applyOpWithPolicy π op .dwellirTolerant = .ok (outcome', b₂)

/-- **Tolerance never alters a valid operation, and absorbs exactly the known artifacts.** -/
theorem tolerance_absorbsArtifacts (hb : Reachable π b) : Tolerates π b ∧ Absorbs π b := by
  obtain ⟨a, h⟩ := hb.represents
  refine ⟨tolerates h, ?_, ?_⟩
  · intro ops b₁ op outcome b₂ hops hr
    have h₁ := replay_represents h hops
    obtain ⟨houtcome, -⟩ := (applyOpWithPolicy_spec h₁ op .dwellirTolerant).of_eq_ok hr
    dsimp only at houtcome
    rw [houtcome, AbstractBook.tolerant_error_iff]
    simp only [Bool.eq_false_iff, ne_eq, containsKey_spec h₁]
  · intro ops b₁ op outcome b₂ hops hr
    have h₁ := replay_represents h hops
    exact applyOpWithPolicy_twice h₁ hr

/-- In the sample book, an update that grows an order is coerced, and changes nothing the second
time. -/
theorem tolerance_absorbsArtifacts_sample : ∃ b',
    sampleBook.applyOpWithPolicy .dev (.updateSize 2 9) .dwellirTolerant =
      .ok (.coerced (.updateSize 2 9) (.amendSize 2 9) (.nonDecreasingUpdate 2 7 9), b') ∧
    ∃ outcome,
      b'.applyOpWithPolicy .dev (.updateSize 2 9) .dwellirTolerant = .ok (outcome, b') := by
  refine ⟨_, by rfl, ?_⟩
  exact (tolerance_absorbsArtifacts sampleBook_reachable).2.twice [] sampleBook (.updateSize 2 9)
    _ _ rfl (by rfl)

end L4Book
