import L4Book.Refinement.Dedupe

/-!
# Accounting for the diffs

Every diff of a message is made into an operation, or counted: a removal that was dropped, a `new`
that could not be resolved. Only a diff of unknown shape leaves no trace. The diffs that are kept
are those that are not dropped, in their order.

## Main definitions

* `Diff.reasonedOp`: the operation a diff is made into
* `kept`: the diffs that are not dropped
* `Diff.collapses`: an `update` or `modified` to size zero

## Main results

* `Decoding.account_kept`: the run lemma, over the operations and all counters
* `length_filterMap_reasonedOp`, `countP_removes_kept`: the balance
* `countP_kept_eq`: an id is removed once, if at all
-/

namespace L4Book

namespace Diff

/-- The operation an `update` or a `modified` is made into. -/
def sizeOp (statuses : Statuses) (oid : OrderId) (newQty : Qty) (op : BookOp)
    (diff : VenueDiffKind) : ReasonedBookOp :=
  if newQty = 0 then
    ⟨.remove oid, .venue "dwellir" .completeFillCollapsed (statusText statuses oid)⟩
  else ⟨op, .venue "dwellir" diff (statusText statuses oid)⟩

/-- The operation a diff is made into, with its cause, unless it is dropped. -/
def reasonedOp (statuses : Statuses) : Diff → Option ReasonedBookOp
  | .remove oid => some ⟨.remove oid, .venue "dwellir" .remove (statusText statuses oid)⟩
  | .new order status => some ⟨.add order, .venue "dwellir" .new status⟩
  | .unresolvedNew _ => none
  | .update oid newQty => some (sizeOp statuses oid newQty (.updateSize oid newQty) .update)
  | .modified oid newQty => some (sizeOp statuses oid newQty (.amendSize oid newQty) .modified)
  | .unknown _ => none

/-- An `update` or a `modified` to size zero. -/
def collapses : Diff → Bool
  | .update _ newQty => newQty = 0
  | .modified _ newQty => newQty = 0
  | _ => false

/-- A plain `remove`. -/
def isRemove : Diff → Bool
  | .remove _ => true
  | _ => false

/-- A `new` without a matching status. -/
def isUnresolvedNew : Diff → Bool
  | .unresolvedNew _ => true
  | _ => false

/-- A diff of unknown shape. -/
def isUnknown : Diff → Bool
  | .unknown _ => true
  | _ => false

end Diff

/-- The operation is a removal. -/
def BookOp.isRemove : BookOp → Bool
  | .remove _ => true
  | _ => false

/-- The diffs that are not dropped, when some ids have been removed already. -/
def kept (removed : Finset OrderId) : List Diff → List Diff
  | [] => []
  | d :: ds =>
    match d.removes with
    | none => d :: kept removed ds
    | some oid => if oid ∈ removed then kept removed ds else d :: kept (insert oid removed) ds

variable {d : Diff} {ds : List Diff} {oid : OrderId} {removed : Finset OrderId}
  {statuses : Statuses} {r : ReasonedBookOp}

theorem kept_cons_of_none (h : d.removes = none) :
    kept removed (d :: ds) = d :: kept removed ds := by
  rw [kept, h]

theorem kept_cons_of_mem (h : d.removes = some oid) (hmem : oid ∈ removed) :
    kept removed (d :: ds) = kept removed ds := by
  rw [kept, h]
  exact if_pos hmem

theorem kept_cons_of_not_mem (h : d.removes = some oid) (hmem : oid ∉ removed) :
    kept removed (d :: ds) = d :: kept (insert oid removed) ds := by
  rw [kept, h]
  exact if_neg hmem

/-- The kept diffs keep their order. -/
theorem kept_sublist (removed : Finset OrderId) (ds : List Diff) :
    (kept removed ds).Sublist ds := by
  induction ds generalizing removed with
  | nil => exact List.Sublist.refl []
  | cons d ds ih =>
    cases hd : d.removes with
    | none =>
      rw [kept_cons_of_none hd]
      exact (ih _).cons_cons d
    | some oid =>
      by_cases hmem : oid ∈ removed
      · rw [kept_cons_of_mem hd hmem]
        exact (ih _).cons d
      · rw [kept_cons_of_not_mem hd hmem]
        exact (ih _).cons_cons d

/-- What removes nothing is never dropped. -/
theorem countP_kept {p : Diff → Bool} (hp : ∀ d, p d = true → d.removes = none) :
    (kept removed ds).countP p = ds.countP p := by
  induction ds generalizing removed with
  | nil => rfl
  | cons d ds ih =>
    cases hd : d.removes with
    | none => rw [kept_cons_of_none hd, List.countP_cons, List.countP_cons, ih]
    | some oid =>
      have hnot : ¬ p d = true := fun hpd => nomatch (hp d hpd).symm.trans hd
      by_cases hmem : oid ∈ removed
      · rw [kept_cons_of_mem hd hmem, List.countP_cons_of_neg hnot, ih]
      · rw [kept_cons_of_not_mem hd hmem, List.countP_cons_of_neg hnot,
          List.countP_cons_of_neg hnot, ih]

/-! ### The loop -/

namespace Decoding

variable {s s' : Decoding}

/-- What a round of the loop leaves of its state, where the diff is dropped or not. -/
structure Accounts (statuses : Statuses) (s : Decoding) (d : Diff) (dropped : Bool)
    (s' : Decoding) : Prop where
  ops : s'.batch.ops = s.batch.ops ++ if dropped then [] else (d.reasonedOp statuses).toList
  droppedRemoves : s'.batch.droppedDuplicateRemoves =
    s.batch.droppedDuplicateRemoves + if dropped then 1 else 0
  collapsed : s'.batch.collapsedCompleteFills =
    s.batch.collapsedCompleteFills + if d.collapses then 1 else 0
  unresolved : s'.batch.unresolvedNew =
    s.batch.unresolvedNew + if d.isUnresolvedNew then 1 else 0

/-- A diff that removes nothing is accounted for once. -/
theorem accounts_of_none (statuses : Statuses) (s : Decoding) (h : d.removes = none) :
    Accounts statuses s d false (s.account statuses d) := by
  rcases Diff.keeps_cases h with ⟨order, status, rfl⟩ | ⟨id, newQty, hq, rfl | rfl⟩ |
    ⟨id, rfl | rfl⟩
  · constructor <;> rfl
  · constructor <;> simp [account, pushSize, push, Diff.reasonedOp, Diff.sizeOp, Diff.collapses,
      Diff.isUnresolvedNew, hq]
  · constructor <;> simp [account, pushSize, push, Diff.reasonedOp, Diff.sizeOp, Diff.collapses,
      Diff.isUnresolvedNew, hq]
  · constructor <;> simp [account, Diff.reasonedOp, Diff.collapses, Diff.isUnresolvedNew]
  · constructor <;> simp [account, Diff.reasonedOp, Diff.collapses, Diff.isUnresolvedNew]

/-- A removal of an id that has been removed is dropped. -/
theorem accounts_of_mem (statuses : Statuses) (h : d.removes = some oid) (hmem : oid ∈ s.removed) :
    Accounts statuses s d true (s.account statuses d) := by
  rcases Diff.removes_cases h with rfl | rfl | rfl
  all_goals
    constructor <;> simp [account, pushSize, pushRemove, hmem, Diff.collapses,
      Diff.isUnresolvedNew]

/-- The first removal of an id is an operation. -/
theorem accounts_of_not_mem (statuses : Statuses) (h : d.removes = some oid)
    (hmem : oid ∉ s.removed) : Accounts statuses s d false (s.account statuses d) := by
  rcases Diff.removes_cases h with rfl | rfl | rfl
  all_goals
    constructor <;> simp [account, pushSize, pushRemove, push, hmem, Diff.reasonedOp,
      Diff.sizeOp, Diff.collapses, Diff.isUnresolvedNew]

/-- What the loop leaves of its state. -/
structure AccountsAll (statuses : Statuses) (s : Decoding) (ds : List Diff) (s' : Decoding) :
    Prop where
  ops : s'.batch.ops = s.batch.ops ++ (kept s.removed ds).filterMap (Diff.reasonedOp statuses)
  droppedRemoves : s'.batch.droppedDuplicateRemoves + (kept s.removed ds).length =
    s.batch.droppedDuplicateRemoves + ds.length
  collapsed : s'.batch.collapsedCompleteFills =
    s.batch.collapsedCompleteFills + ds.countP Diff.collapses
  unresolved : s'.batch.unresolvedNew =
    s.batch.unresolvedNew + ds.countP Diff.isUnresolvedNew

/-- One round, then the others. -/
theorem Accounts.cons {s'' : Decoding} {dropped : Bool} (h : Accounts statuses s d dropped s')
    (hrest : AccountsAll statuses s' ds s'')
    (hkept : kept s.removed (d :: ds) =
      (if dropped then [] else [d]) ++ kept s'.removed ds) :
    AccountsAll statuses s (d :: ds) s'' := by
  constructor
  case ops =>
    rw [hrest.ops, h.ops, hkept, List.filterMap_append, List.append_assoc]
    cases dropped
    · cases hop : d.reasonedOp statuses <;> simp [hop]
    · rfl
  case droppedRemoves =>
    have hdrop := h.droppedRemoves
    have hlen := hrest.droppedRemoves
    rw [hkept, List.length_append, List.length_cons]
    cases dropped <;> simp at hdrop ⊢ <;> omega
  case collapsed =>
    rw [hrest.collapsed, h.collapsed, List.countP_cons]
    omega
  case unresolved =>
    rw [hrest.unresolved, h.unresolved, List.countP_cons]
    omega

/-- **The loop accounts for every diff.** -/
theorem account_kept (statuses : Statuses) (s : Decoding) (ds : List Diff) :
    AccountsAll statuses s ds (ds.foldl (account statuses) s) := by
  induction ds generalizing s with
  | nil => constructor <;> simp [kept]
  | cons d ds ih =>
    rw [List.foldl_cons]
    cases hd : d.removes with
    | none =>
      refine (accounts_of_none statuses s hd).cons (ih _) ?_
      rw [(account_of_none statuses s hd).2, kept_cons_of_none hd]
      rfl
    | some oid =>
      obtain ⟨s', -, hremoved, diff, status, heq⟩ := account_of_removes statuses s hd
      by_cases hmem : oid ∈ s.removed
      · refine (accounts_of_mem statuses hd hmem).cons (ih _) ?_
        rw [heq, (pushRemove_of_mem (hremoved ▸ hmem) diff status).2, hremoved,
          kept_cons_of_mem hd hmem]
        rfl
      · refine (accounts_of_not_mem statuses hd hmem).cons (ih _) ?_
        rw [heq, (pushRemove_of_not_mem (hremoved ▸ hmem) diff status).2, hremoved,
          kept_cons_of_not_mem hd hmem]
        rfl

/-- What the loop leaves of the state before the first diff. -/
theorem account_start (statuses : Statuses) (ds : List Diff) {batch : ReasonedUpdateBatch}
    (h : batch = (ds.foldl (account statuses) start).batch) :
    batch.ops = (kept ∅ ds).filterMap (Diff.reasonedOp statuses) ∧
      batch.droppedDuplicateRemoves + (kept ∅ ds).length = ds.length ∧
      batch.collapsedCompleteFills = ds.countP Diff.collapses ∧
      batch.unresolvedNew = ds.countP Diff.isUnresolvedNew := by
  subst h
  have hall := account_kept statuses start ds
  refine ⟨hall.ops, ?_, ?_, ?_⟩
  · rw [← Nat.zero_add ds.length]
    exact hall.droppedRemoves
  · rw [← Nat.zero_add (ds.countP Diff.collapses)]
    exact hall.collapsed
  · rw [← Nat.zero_add (ds.countP Diff.isUnresolvedNew)]
    exact hall.unresolved

end Decoding

/-! ### The balance -/

theorem removes_of_isUnresolvedNew (h : d.isUnresolvedNew = true) : d.removes = none := by
  cases d with
  | unresolvedNew oid => rfl
  | remove oid => cases h
  | new order status => cases h
  | update oid newQty => cases h
  | modified oid newQty => cases h
  | unknown oid => cases h

theorem removes_of_isUnknown (h : d.isUnknown = true) : d.removes = none := by
  cases d with
  | unknown oid => rfl
  | remove oid => cases h
  | new order status => cases h
  | update oid newQty => cases h
  | modified oid newQty => cases h
  | unresolvedNew oid => cases h

/-- A diff is made into an operation unless it is unresolved or of unknown shape. -/
theorem length_filterMap_reasonedOp (statuses : Statuses) (l : List Diff) :
    (l.filterMap (Diff.reasonedOp statuses)).length + l.countP Diff.isUnresolvedNew +
      l.countP Diff.isUnknown = l.length := by
  induction l with
  | nil => rfl
  | cons d l ih =>
    rw [List.countP_cons, List.countP_cons, List.length_cons, ← ih]
    cases hop : d.reasonedOp statuses with
    | none =>
      rw [List.filterMap_cons_none hop]
      cases d with
      | unresolvedNew oid => simp [Diff.isUnresolvedNew, Diff.isUnknown]; omega
      | unknown oid => simp [Diff.isUnresolvedNew, Diff.isUnknown]; omega
      | remove oid => cases hop
      | new order status => cases hop
      | update oid newQty => cases hop
      | modified oid newQty => cases hop
    | some r =>
      rw [List.filterMap_cons_some hop, List.length_cons]
      cases d with
      | unresolvedNew oid => cases hop
      | unknown oid => cases hop
      | remove oid => simp [Diff.isUnresolvedNew, Diff.isUnknown]; omega
      | new order status => simp [Diff.isUnresolvedNew, Diff.isUnknown]; omega
      | update oid newQty => simp [Diff.isUnresolvedNew, Diff.isUnknown]; omega
      | modified oid newQty => simp [Diff.isUnresolvedNew, Diff.isUnknown]; omega

/-- A removal is a plain `remove` or a size of zero. -/
theorem countP_removes (l : List Diff) : l.countP (fun d => d.removes.isSome) =
    l.countP Diff.isRemove + l.countP Diff.collapses := by
  induction l with
  | nil => rfl
  | cons d l ih =>
    rw [List.countP_cons, List.countP_cons, List.countP_cons, ih]
    cases d with
    | remove oid => simp [Diff.removes, Diff.isRemove, Diff.collapses]; omega
    | new order status => simp [Diff.removes, Diff.isRemove, Diff.collapses]
    | unresolvedNew oid => simp [Diff.removes, Diff.isRemove, Diff.collapses]
    | unknown oid => simp [Diff.removes, Diff.isRemove, Diff.collapses]
    | update oid newQty =>
      by_cases hq : newQty = 0 <;> simp [Diff.removes, Diff.isRemove, Diff.collapses, hq]
      omega
    | modified oid newQty =>
      by_cases hq : newQty = 0 <;> simp [Diff.removes, Diff.isRemove, Diff.collapses, hq]
      omega

/-- **Only removals are dropped.** -/
theorem countP_removes_kept (removed : Finset OrderId) (ds : List Diff) :
    (kept removed ds).countP (fun d => d.removes.isSome) + ds.length =
      ds.countP (fun d => d.removes.isSome) + (kept removed ds).length := by
  have hkeeps : (kept removed ds).countP (fun d => ¬ d.removes.isSome) =
      ds.countP fun d => ¬ d.removes.isSome := by
    refine countP_kept fun d hd => ?_
    simpa using hd
  have hds := List.length_eq_countP_add_countP (fun d : Diff => d.removes.isSome) (l := ds)
  have hkept := List.length_eq_countP_add_countP (fun d : Diff => d.removes.isSome)
    (l := kept removed ds)
  omega

/-! ### The first removal of an id -/

/-- What has been removed is not removed again. -/
theorem not_removes_of_mem_kept (hmem : oid ∈ removed) (hd : d ∈ kept removed ds) :
    d.removes ≠ some oid := by
  induction ds generalizing removed with
  | nil => exact absurd hd List.not_mem_nil
  | cons x ds ih =>
    cases hx : x.removes with
    | none =>
      rw [kept_cons_of_none hx, List.mem_cons] at hd
      rcases hd with rfl | hd
      · rw [hx]
        exact nofun
      · exact ih hmem hd
    | some id =>
      by_cases hid : id ∈ removed
      · rw [kept_cons_of_mem hx hid] at hd
        exact ih hmem hd
      · rw [kept_cons_of_not_mem hx hid, List.mem_cons] at hd
        rcases hd with rfl | hd
        · rw [hx]
          rintro ⟨rfl⟩
          exact hid hmem
        · exact ih (Finset.mem_insert_of_mem hmem) hd

/-- **The first removal of an id is kept**, behind the diffs that are kept of those before it. -/
theorem kept_append_cons {before : List Diff} (hd : d.removes = some oid)
    (hfirst : ∀ x ∈ before, x.removes ≠ some oid) (hmem : oid ∉ removed) (after : List Diff) :
    ∃ removed', oid ∈ removed' ∧
      kept removed (before ++ d :: after) = kept removed before ++ d :: kept removed' after := by
  induction before generalizing removed with
  | nil =>
    refine ⟨insert oid removed, Finset.mem_insert_self oid removed, ?_⟩
    exact kept_cons_of_not_mem hd hmem
  | cons x before ih =>
    rw [List.forall_mem_cons] at hfirst
    rw [List.cons_append]
    cases hx : x.removes with
    | none =>
      obtain ⟨removed', hoid, heq⟩ := ih hfirst.2 hmem
      exact ⟨removed', hoid, by rw [kept_cons_of_none hx, kept_cons_of_none hx, heq]; rfl⟩
    | some id =>
      by_cases hid : id ∈ removed
      · obtain ⟨removed', hoid, heq⟩ := ih hfirst.2 hmem
        exact ⟨removed', hoid, by rw [kept_cons_of_mem hx hid, kept_cons_of_mem hx hid, heq]⟩
      · have hne : oid ∉ insert id removed := by
          rw [Finset.mem_insert, not_or]
          refine ⟨?_, hmem⟩
          rintro rfl
          exact hfirst.1 hx
        obtain ⟨removed', hoid, heq⟩ := ih hfirst.2 hne
        exact ⟨removed', hoid,
          by rw [kept_cons_of_not_mem hx hid, kept_cons_of_not_mem hx hid, heq]; rfl⟩

/-- An id that is removed is removed for a first time. -/
theorem exists_first_removal (h : ∃ d ∈ ds, d.removes = some oid) :
    ∃ before d after, ds = before ++ d :: after ∧ d.removes = some oid ∧
      ∀ x ∈ before, x.removes ≠ some oid := by
  obtain ⟨x, hx, hremoves⟩ := h
  obtain ⟨d, hfind⟩ := Option.isSome_iff_exists.mp
    (List.find?_isSome (p := fun d : Diff => decide (d.removes = some oid)) |>.mpr
      ⟨x, hx, decide_eq_true hremoves⟩)
  obtain ⟨hd, before, after, heq, hfirst⟩ := List.find?_eq_some_iff_append.mp hfind
  refine ⟨before, d, after, heq, of_decide_eq_true hd, fun y hy => ?_⟩
  simpa using hfirst y hy

theorem sizeOp_op {newQty : Qty} {id : OrderId} {op : BookOp} {diff : VenueDiffKind}
    (hop : ∀ oid, op ≠ .remove oid) :
    (Diff.sizeOp statuses id newQty op diff).op = .remove oid ↔
      (if newQty = 0 then some id else none) = some oid := by
  rw [Diff.sizeOp]
  split
  · simp
  · simp [hop oid]

/-- A size is not made into an addition. -/
theorem sizeOp_op_ne {id : OrderId} {newQty : Qty} {op : BookOp} {diff : VenueDiffKind}
    {order : Order} (hop : op ≠ .add order) :
    (Diff.sizeOp statuses id newQty op diff).op ≠ .add order := by
  rw [Diff.sizeOp]
  split
  · exact nofun
  · exact hop

/-- Only a size of zero is collapsed. -/
theorem eq_zero_of_sizeOp_cause {id : OrderId} {newQty : Qty} {op : BookOp}
    {diff : VenueDiffKind} {text : Option String} (hdiff : diff ≠ .completeFillCollapsed)
    (h : (Diff.sizeOp statuses id newQty op diff).cause =
      .venue "dwellir" .completeFillCollapsed text) : newQty = 0 := by
  rw [Diff.sizeOp] at h
  split at h
  case isTrue hq => exact hq
  case isFalse =>
    obtain ⟨-, heq, -⟩ := OperationCause.venue.inj h
    exact absurd heq hdiff

/-- A diff is made into a removal if it removes. -/
theorem op_eq_remove_iff (h : d.reasonedOp statuses = some r) :
    r.op = .remove oid ↔ d.removes = some oid := by
  cases d with
  | remove id =>
    obtain rfl := Option.some.inj h
    simp [Diff.removes]
  | new order status =>
    obtain rfl := Option.some.inj h
    simp [Diff.removes]
  | unresolvedNew id => cases h
  | unknown id => cases h
  | update id newQty =>
    obtain rfl := Option.some.inj h
    exact sizeOp_op nofun
  | modified id newQty =>
    obtain rfl := Option.some.inj h
    exact sizeOp_op nofun

/-- Only a `new` is made into an addition. -/
theorem eq_new_of_op_eq_add {order : Order} (h : d.reasonedOp statuses = some r)
    (hop : r.op = .add order) : ∃ text, d = .new order text := by
  cases d with
  | new order' text =>
    obtain rfl := Option.some.inj h
    exact ⟨text, congrArg (Diff.new · text) (BookOp.add.inj hop)⟩
  | remove id =>
    obtain rfl := Option.some.inj h
    cases hop
  | unresolvedNew id => cases h
  | unknown id => cases h
  | update id newQty =>
    obtain rfl := Option.some.inj h
    exact absurd hop (sizeOp_op_ne nofun)
  | modified id newQty =>
    obtain rfl := Option.some.inj h
    exact absurd hop (sizeOp_op_ne nofun)

/-- Only a size of zero is made into a collapsed fill. -/
theorem collapses_of_cause {text : Option String} (h : d.reasonedOp statuses = some r)
    (hcause : r.cause = .venue "dwellir" .completeFillCollapsed text) : d.collapses = true := by
  cases d with
  | new order' status =>
    obtain rfl := Option.some.inj h
    cases hcause
  | remove id =>
    obtain rfl := Option.some.inj h
    cases hcause
  | unresolvedNew id => cases h
  | unknown id => cases h
  | update id newQty =>
    obtain rfl := Option.some.inj h
    exact decide_eq_true (eq_zero_of_sizeOp_cause (by decide) hcause)
  | modified id newQty =>
    obtain rfl := Option.some.inj h
    exact decide_eq_true (eq_zero_of_sizeOp_cause (by decide) hcause)

/-- A diff that removes is made into a removal. -/
theorem exists_reasonedOp (statuses : Statuses) (h : d.removes = some oid) :
    ∃ r, d.reasonedOp statuses = some r ∧ r.op = .remove oid := by
  have hop : ∃ r, d.reasonedOp statuses = some r := by
    rcases Diff.removes_cases h with rfl | rfl | rfl <;> exact ⟨_, rfl⟩
  obtain ⟨r, hr⟩ := hop
  exact ⟨r, hr, (op_eq_remove_iff hr).mpr h⟩

/-- The removals of an id among the operations. -/
theorem count_remove (statuses : Statuses) (l : List Diff) (oid : OrderId) :
    ((l.filterMap (Diff.reasonedOp statuses)).map ReasonedBookOp.op).count (.remove oid) =
      l.countP fun d => d.removes = some oid := by
  rw [List.count_eq_countP, List.countP_map, List.countP_filterMap]
  refine List.countP_congr fun d _ => ?_
  cases hop : d.reasonedOp statuses with
  | none =>
    have hne : d.removes ≠ some oid := by
      intro hd
      obtain ⟨r, hr, -⟩ := exists_reasonedOp statuses hd
      exact nomatch hop.symm.trans hr
    simp [hne]
  | some r => simpa using op_eq_remove_iff hop

/-- The removals among the operations. -/
theorem countP_isRemove (statuses : Statuses) (l : List Diff) :
    (l.filterMap (Diff.reasonedOp statuses)).countP (fun r => r.op.isRemove) =
      l.countP fun d => d.removes.isSome := by
  rw [List.countP_filterMap]
  refine List.countP_congr fun d _ => ?_
  cases hd : d.removes with
  | some oid =>
    obtain ⟨r, hr, hop⟩ := exists_reasonedOp statuses hd
    simp [hr, hop, BookOp.isRemove]
  | none =>
    cases hop : d.reasonedOp statuses with
    | none => simp
    | some r =>
      have hne : ∀ oid, r.op ≠ .remove oid := by
        intro oid hremove
        exact nomatch hd.symm.trans ((op_eq_remove_iff hop).mp hremove)
      cases hr : r.op with
      | remove oid => exact absurd hr (hne oid)
      | add order => simp [hr, BookOp.isRemove]
      | updateSize oid newQty => simp [hr, BookOp.isRemove]
      | amendSize oid newQty => simp [hr, BookOp.isRemove]

/-- **An id is removed once, if at all.** -/
theorem countP_kept_eq (hmem : oid ∉ removed) :
    (kept removed ds).countP (fun d => d.removes = some oid) =
      if ∃ d ∈ ds, d.removes = some oid then 1 else 0 := by
  split
  case isTrue h =>
    obtain ⟨before, d, after, rfl, hd, hfirst⟩ := exists_first_removal h
    obtain ⟨removed', hoid, heq⟩ := kept_append_cons hd hfirst hmem after
    have hbefore : (kept removed before).countP (fun d => d.removes = some oid) = 0 := by
      rw [List.countP_eq_zero]
      intro x hx
      simpa using hfirst x ((kept_sublist _ _).subset hx)
    have hafter : (kept removed' after).countP (fun d => d.removes = some oid) = 0 := by
      rw [List.countP_eq_zero]
      intro x hx
      simpa using not_removes_of_mem_kept hoid hx
    rw [heq, List.countP_append, List.countP_cons, hbefore, hafter]
    simp [hd]
  case isFalse h =>
    rw [List.countP_eq_zero]
    intro x hx
    simpa using fun hd => h ⟨x, (kept_sublist _ _).subset hx, hd⟩

end L4Book
