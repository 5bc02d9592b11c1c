import L4Book.Dwellir
import L4Book.Refinement.Run

/-!
# Collapsing removals

The decoder drops every removal of an id that it has already removed in the same message. Next to
the direct translation of the diffs this is harmless as long as the dropped removals are removals of
nothing, and the decoder is wrong about that exactly when the order came back in between: a `new`
does not take its id out of the set of removed ids.

## Main definitions

* `Diff.removes`, `Diff.Opens`: what a diff does to an id
* `Diff.directOps`: the direct translation of a diff
* `dedupe`: the operations the decoder makes of the diffs
* `RemovedAgain`: an id is removed, opened and removed again

## Main results

* `ops_account`: the decoder collapses like this
* `replay_dedupe`: without such an id, the collapsed operations do what the direct ones do
* `live_dedupe`, `not_live_direct`: with one, they do not
-/

namespace L4Book

/-! ### Diffs and ids -/

/-- The id a diff removes: by name, or by a size of zero. -/
def Diff.removes : Diff → Option OrderId
  | .remove oid => some oid
  | .update oid newQty => if newQty = 0 then some oid else none
  | .modified oid newQty => if newQty = 0 then some oid else none
  | _ => none

/-- The diff is a `new` that puts an order with this id on the book. -/
def Diff.Opens (oid : OrderId) : Diff → Prop
  | .new order _ => order.id = oid ∧ order.qty ≠ 0
  | _ => False

/-- The direct translation: every diff by itself. -/
def Diff.directOps : Diff → List BookOp
  | .remove oid => [.remove oid]
  | .new order _ => [.add order]
  | .unresolvedNew _ => []
  | .update oid newQty => [if newQty = 0 then .remove oid else .updateSize oid newQty]
  | .modified oid newQty => [if newQty = 0 then .remove oid else .amendSize oid newQty]
  | .unknown _ => []

/-- The operations the decoder makes of the diffs, when it has removed some ids already. -/
def dedupe (removed : Finset OrderId) : List Diff → List BookOp
  | [] => []
  | d :: ds =>
    match d.removes with
    | none => d.directOps ++ dedupe removed ds
    | some oid =>
      if oid ∈ removed then dedupe removed ds
      else .remove oid :: dedupe (insert oid removed) ds

/-- The id is removed, opened and removed again. -/
def RemovedAgain (ds : List Diff) (oid : OrderId) : Prop :=
  ∃ d₁ n d₂, [d₁, n, d₂].Sublist ds ∧ d₁.removes = some oid ∧ n.Opens oid ∧ d₂.removes = some oid

variable {d : Diff} {ds : List Diff} {oid : OrderId} {removed : Finset OrderId}

/-- A size removes an id when it is zero. -/
theorem size_removes_iff {id : OrderId} {newQty : Qty} :
    (if newQty = 0 then some id else none) = some oid ↔ newQty = 0 ∧ id = oid := by
  split <;> simp_all

theorem size_keeps_iff {id : OrderId} {newQty : Qty} :
    (if newQty = 0 then some id else none) = none ↔ newQty ≠ 0 := by
  split <;> simp_all

/-- **What a diff that removes an id can be.** -/
theorem Diff.removes_cases (h : d.removes = some oid) :
    d = .remove oid ∨ d = .update oid 0 ∨ d = .modified oid 0 := by
  cases d with
  | remove id => exact Or.inl (congrArg Diff.remove (Option.some.inj h))
  | update id newQty =>
    obtain ⟨rfl, rfl⟩ := size_removes_iff.mp h
    exact Or.inr (Or.inl rfl)
  | modified id newQty =>
    obtain ⟨rfl, rfl⟩ := size_removes_iff.mp h
    exact Or.inr (Or.inr rfl)
  | new order status => exact nomatch h
  | unresolvedNew id => exact nomatch h
  | unknown id => exact nomatch h

/-- **What a diff that removes nothing can be.** -/
theorem Diff.keeps_cases (h : d.removes = none) :
    (∃ order status, d = .new order status) ∨
    (∃ id newQty, newQty ≠ 0 ∧ (d = .update id newQty ∨ d = .modified id newQty)) ∨
    ∃ id, d = .unresolvedNew id ∨ d = .unknown id := by
  cases d with
  | remove id => exact nomatch h
  | new order status => exact Or.inl ⟨order, status, rfl⟩
  | update id newQty => exact Or.inr (Or.inl ⟨id, newQty, size_keeps_iff.mp h, Or.inl rfl⟩)
  | modified id newQty => exact Or.inr (Or.inl ⟨id, newQty, size_keeps_iff.mp h, Or.inr rfl⟩)
  | unresolvedNew id => exact Or.inr (Or.inr ⟨id, Or.inl rfl⟩)
  | unknown id => exact Or.inr (Or.inr ⟨id, Or.inr rfl⟩)

/-- A removal is translated into a removal. -/
theorem directOps_of_removes (h : d.removes = some oid) : d.directOps = [.remove oid] := by
  rcases Diff.removes_cases h with rfl | rfl | rfl <;> rfl

/-- A diff that opens an id is a `new` of an order with it. -/
theorem exists_new_of_opens (h : d.Opens oid) :
    ∃ order status, d = .new order status ∧ order.id = oid ∧ order.qty ≠ 0 := by
  cases d with
  | new order status => exact ⟨order, status, rfl, h⟩
  | remove id => exact h.elim
  | unresolvedNew id => exact h.elim
  | update id newQty => exact h.elim
  | modified id newQty => exact h.elim
  | unknown id => exact h.elim

/-- What a diff that removes nothing is translated into. -/
theorem directOps_of_none {op : BookOp} (h : d.removes = none) (hop : op ∈ d.directOps) :
    (∃ order status, d = .new order status ∧ op = .add order) ∨
    ∃ id newQty, newQty ≠ 0 ∧ (op = .updateSize id newQty ∨ op = .amendSize id newQty) := by
  rcases Diff.keeps_cases h with ⟨order, status, rfl⟩ | ⟨id, newQty, hq, rfl | rfl⟩ |
    ⟨id, rfl | rfl⟩
  · exact Or.inl ⟨order, status, rfl, List.mem_singleton.mp hop⟩
  · rw [Diff.directOps, if_neg hq] at hop
    exact Or.inr ⟨id, newQty, hq, Or.inl (List.mem_singleton.mp hop)⟩
  · rw [Diff.directOps, if_neg hq] at hop
    exact Or.inr ⟨id, newQty, hq, Or.inr (List.mem_singleton.mp hop)⟩
  · exact absurd hop List.not_mem_nil
  · exact absurd hop List.not_mem_nil

theorem dedupe_cons_of_none (h : d.removes = none) :
    dedupe removed (d :: ds) = d.directOps ++ dedupe removed ds := by
  rw [dedupe, h]

theorem dedupe_cons_of_mem (h : d.removes = some oid) (hmem : oid ∈ removed) :
    dedupe removed (d :: ds) = dedupe removed ds := by
  rw [dedupe, h]
  exact if_pos hmem

theorem dedupe_cons_of_not_mem (h : d.removes = some oid) (hmem : oid ∉ removed) :
    dedupe removed (d :: ds) = .remove oid :: dedupe (insert oid removed) ds := by
  rw [dedupe, h]
  exact if_neg hmem

/-! ### The decoder's loop -/

namespace Decoding

/-- The operations a decoding has so far. -/
def plainOps (s : Decoding) : List BookOp := s.batch.ops.map ReasonedBookOp.op

variable {s : Decoding} {op : BookOp} {diff : VenueDiffKind} {status : Option String}

@[simp] theorem plainOps_push : (s.push op diff status).plainOps = s.plainOps ++ [op] := by
  simp [plainOps, push]

theorem pushRemove_of_mem (h : oid ∈ s.removed) (diff : VenueDiffKind) (status : Option String) :
    (s.pushRemove oid diff status).plainOps = s.plainOps ∧
      (s.pushRemove oid diff status).removed = s.removed := by
  rw [pushRemove, if_pos h]
  exact ⟨rfl, rfl⟩

theorem pushRemove_of_not_mem (h : oid ∉ s.removed) (diff : VenueDiffKind)
    (status : Option String) :
    (s.pushRemove oid diff status).plainOps = s.plainOps ++ [.remove oid] ∧
      (s.pushRemove oid diff status).removed = insert oid s.removed := by
  rw [pushRemove, if_neg h]
  exact ⟨plainOps_push, rfl⟩

/-- A diff that removes nothing is translated directly. -/
theorem account_of_none (statuses : Statuses) (s : Decoding) (h : d.removes = none) :
    (s.account statuses d).plainOps = s.plainOps ++ d.directOps ∧
      (s.account statuses d).removed = s.removed := by
  rcases Diff.keeps_cases h with ⟨order, status, rfl⟩ | ⟨id, newQty, hq, rfl | rfl⟩ |
    ⟨id, rfl | rfl⟩
  · exact ⟨plainOps_push, rfl⟩
  · rw [account, pushSize, if_neg hq, Diff.directOps, if_neg hq]
    exact ⟨plainOps_push, rfl⟩
  · rw [account, pushSize, if_neg hq, Diff.directOps, if_neg hq]
    exact ⟨plainOps_push, rfl⟩
  · exact ⟨(List.append_nil _).symm, rfl⟩
  · exact ⟨(List.append_nil _).symm, rfl⟩

/-- A removal is accounted for as a removal, from a state with the same operations. -/
theorem account_of_removes (statuses : Statuses) (s : Decoding) (h : d.removes = some oid) :
    ∃ s' : Decoding, s'.plainOps = s.plainOps ∧ s'.removed = s.removed ∧
      ∃ diff status, s.account statuses d = s'.pushRemove oid diff status := by
  rcases Diff.removes_cases h with rfl | rfl | rfl
  · exact ⟨s, rfl, rfl, _, _, rfl⟩
  · exact ⟨{ s with batch.collapsedCompleteFills := s.batch.collapsedCompleteFills + 1 },
      rfl, rfl, _, _, rfl⟩
  · exact ⟨{ s with batch.collapsedCompleteFills := s.batch.collapsedCompleteFills + 1 },
      rfl, rfl, _, _, rfl⟩

/-- **The decoder collapses removals.** -/
theorem ops_account (statuses : Statuses) (s : Decoding) (ds : List Diff) :
    (ds.foldl (account statuses) s).plainOps = s.plainOps ++ dedupe s.removed ds := by
  induction ds generalizing s with
  | nil => exact (List.append_nil _).symm
  | cons d ds ih =>
    rw [List.foldl_cons, ih]
    cases hd : d.removes with
    | none =>
      obtain ⟨hops, hremoved⟩ := account_of_none statuses s hd
      rw [hops, hremoved, dedupe_cons_of_none hd, List.append_assoc]
    | some oid =>
      obtain ⟨s', hops, hremoved, diff, status, heq⟩ := account_of_removes statuses s hd
      rw [heq, ← hops, ← hremoved]
      by_cases hmem : oid ∈ s'.removed
      · obtain ⟨hops', hremoved'⟩ := pushRemove_of_mem hmem diff status
        rw [hops', hremoved', dedupe_cons_of_mem hd hmem]
      · obtain ⟨hops', hremoved'⟩ := pushRemove_of_not_mem hmem diff status
        rw [hops', hremoved', dedupe_cons_of_not_mem hd hmem, List.append_assoc]
        rfl

end Decoding

/-! ### Operations and live ids -/

/-- The operation takes no order with this id off the book. -/
def BookOp.Keeps (oid : OrderId) : BookOp → Prop
  | .add _ => True
  | .remove id => id ≠ oid
  | .updateSize id newQty => id = oid → newQty ≠ 0
  | .amendSize id newQty => id = oid → newQty ≠ 0

/-- The abstract book after an operation has been replayed. -/
noncomputable def AbstractBook.replayOp (policy : ReplayPolicy) (a : AbstractBook) (op : BookOp) :
    AbstractBook := (a.applyOpWithPolicy op policy).2

variable {a : AbstractBook} {op : BookOp} {policy : ReplayPolicy} {order : Order}

/-- **What a replayed operation can do**: nothing, resize an order, or append one. -/
theorem replayOp_cases (a : AbstractBook) (policy : ReplayPolicy) (op : BookOp) :
    a.replayOp policy op = a ∨
    (∃ id newQty, a.replayOp policy op = a.resize id newQty ∧
      ∀ oid, op.Keeps oid → id = oid → newQty ≠ 0) ∨
    ∃ order hq hl, op = .add order ∧ a.replayOp policy op = a.push order hq hl := by
  have resized : ∀ {a' : AbstractBook} {id newQty},
      (a' = a ∨ a' = a.resize id newQty) → (∀ oid, op.Keeps oid → id = oid → newQty ≠ 0) →
      a' = a ∨ (∃ id newQty, a' = a.resize id newQty ∧
        ∀ oid, op.Keeps oid → id = oid → newQty ≠ 0) ∨
      ∃ order hq hl, op = .add order ∧ a' = a.push order hq hl := by
    rintro a' id newQty (h | h) hkeeps
    · exact Or.inl h
    · exact Or.inr (Or.inl ⟨id, newQty, h, hkeeps⟩)
  unfold AbstractBook.replayOp AbstractBook.applyOpWithPolicy
  cases op with
  | add order =>
    by_cases hl : a.Live order.id
    · exact Or.inl (by simp only [if_pos hl])
    · simp only [if_neg hl, applyStrictly_snd, AbstractBook.applyOp]
      rcases a.add_snd order with h | ⟨hq, hl, h⟩
      · exact Or.inl h
      · exact Or.inr (Or.inr ⟨order, hq, hl, rfl, h⟩)
  | remove id =>
    simp only
    split
    · rw [applyStrictly_snd]
      exact resized (a.remove_snd id) fun oid hkeep hid => absurd hid hkeep
    · exact Or.inl rfl
  | updateSize id newQty =>
    simp only
    split
    · exact Or.inl rfl
    · split
      · rw [coerceUpdate_snd]
        exact resized (a.amendSize_snd id newQty) fun oid hkeep => hkeep
      · rw [applyStrictly_snd]
        exact resized (a.updateSize_snd id newQty) fun oid hkeep => hkeep
  | amendSize id newQty =>
    simp only
    split
    · rw [applyStrictly_snd]
      exact resized (a.amendSize_snd id newQty) fun oid hkeep => hkeep
    · exact Or.inl rfl

/-- Only an addition makes an id live. -/
theorem live_of_live_replayOp (h : (a.replayOp policy op).Live oid) :
    a.Live oid ∨ ∃ order, op = .add order ∧ order.id = oid ∧ order.qty ≠ 0 := by
  rcases replayOp_cases a policy op with heq | ⟨id, newQty, heq, -⟩ | ⟨order, hq, hl, hop, heq⟩
  · rw [heq] at h
    exact Or.inl h
  · rw [heq] at h
    exact Or.inl (KeyedQueues.live_of_live_filterMap h)
  · rw [heq] at h
    rcases KeyedQueues.live_push.mp h with h | h
    · exact Or.inl h
    · exact Or.inr ⟨order, hop, h, hq⟩

/-- An operation that does not take an order off the book leaves it live. -/
theorem live_replayOp (h : a.Live oid) (hop : op.Keeps oid) : (a.replayOp policy op).Live oid := by
  rcases replayOp_cases a policy op with heq | ⟨id, newQty, heq, hkeeps⟩ | ⟨order, hq, hl, -, heq⟩
  · rw [heq]
    exact h
  · obtain ⟨o, ho, rfl⟩ := h
    rw [heq]
    by_cases hid : id = o.id
    · refine ⟨o.withQty newQty, ?_, rfl⟩
      exact KeyedQueues.mem_filterMap.mpr
        ⟨o, ho, AbstractBook.resizeAt_of_eq hid.symm (hkeeps o.id hop hid)⟩
    · exact ⟨o, KeyedQueues.mem_filterMap.mpr
        ⟨o, ho, AbstractBook.resizeAt_of_ne (Ne.symm hid)⟩, rfl⟩
  · rw [heq]
    exact KeyedQueues.live_push.mpr (Or.inl h)

theorem replayOp_add (hq : order.qty ≠ 0) (hl : ¬ a.Live order.id) :
    a.replayOp policy (.add order) = a.push order hq hl := by
  unfold AbstractBook.replayOp AbstractBook.applyOpWithPolicy
  simp only [if_neg hl, applyStrictly_snd, AbstractBook.applyOp,
    AbstractBook.add_of_not_live hq hl]

theorem replayOp_remove : a.replayOp policy (.remove oid) = a.resize oid 0 := by
  unfold AbstractBook.replayOp AbstractBook.applyOpWithPolicy
  by_cases hl : a.Live oid
  · obtain ⟨o, ho⟩ := KeyedQueues.live_iff_find.mp hl
    simp only [if_pos hl, applyStrictly_snd, AbstractBook.applyOp, AbstractBook.remove, ho]
  · simp only [if_neg hl, AbstractBook.resize_zero_of_not_live hl]

/-- A replayed addition of a nonzero order leaves its id live, whether it was before or not. -/
theorem live_replayOp_add (hq : order.qty ≠ 0) :
    (a.replayOp policy (.add order)).Live order.id := by
  by_cases hl : a.Live order.id
  · exact live_replayOp hl trivial
  · rw [replayOp_add hq hl]
    exact KeyedQueues.live_push.mpr (Or.inr rfl)

/-- A replayed removal leaves its id not live. -/
theorem not_live_replayOp_remove : ¬ (a.replayOp policy (.remove oid)).Live oid := by
  rw [replayOp_remove]
  exact AbstractBook.not_live_resize_zero a oid

/-! ### Without a removal that matters -/

/-- No id of `removed` is removed again while it is live, now or in what follows. -/
structure Harmless (a : AbstractBook) (removed : Finset OrderId) (ds : List Diff) : Prop where
  live : ∀ oid ∈ removed, a.Live oid → ∀ d ∈ ds, d.removes ≠ some oid
  opened : ∀ oid ∈ removed, ∀ n d, [n, d].Sublist ds → n.Opens oid → d.removes ≠ some oid
  fresh : ∀ oid, ¬ RemovedAgain ds oid

theorem harmless_start (h : ∀ oid, ¬ RemovedAgain ds oid) : Harmless a ∅ ds where
  live := fun _ hmem => absurd hmem (Finset.notMem_empty _)
  opened := fun _ hmem => absurd hmem (Finset.notMem_empty _)
  fresh := h

theorem removedAgain_cons (h : RemovedAgain ds oid) : RemovedAgain (d :: ds) oid := by
  obtain ⟨d₁, n, d₂, hsub, hrest⟩ := h
  exact ⟨d₁, n, d₂, hsub.cons d, hrest⟩

/-- An operation of a diff that removes nothing, replayed. -/
theorem Harmless.step (h : Harmless a removed (d :: ds)) (hop : op ∈ d.directOps)
    (hnone : d.removes = none) : Harmless (a.replayOp policy op) removed ds where
  live := by
    intro oid hmem hlive d' hd'
    rcases live_of_live_replayOp hlive with hlive | ⟨order, rfl, hid, hq⟩
    · exact h.live oid hmem hlive d' (List.mem_cons_of_mem _ hd')
    · -- the diff is a `new` of this order
      refine h.opened oid hmem d d' ((List.singleton_sublist.mpr hd').cons_cons d) ?_
      rcases directOps_of_none hnone hop with
        ⟨order', status, rfl, heq⟩ | ⟨id, newQty, -, heq | heq⟩
      · rw [BookOp.add.inj heq] at hid hq
        exact ⟨hid, hq⟩
      · cases heq
      · cases heq
  opened := fun oid hmem n d' hsub => h.opened oid hmem n d' (hsub.cons d)
  fresh := fun oid hagain => h.fresh oid (removedAgain_cons hagain)

/-- A removal, replayed. -/
theorem Harmless.remove (h : Harmless a removed (d :: ds)) (hd : d.removes = some oid) :
    Harmless (a.replayOp policy (.remove oid)) (insert oid removed) ds where
  live := by
    intro oid' hmem hlive d' hd'
    have hlive' : a.Live oid' := by
      rcases live_of_live_replayOp hlive with hlive | ⟨order, hop, -⟩
      · exact hlive
      · exact nomatch hop
    rcases Finset.mem_insert.mp hmem with rfl | hmem
    · exact absurd hlive not_live_replayOp_remove
    · exact h.live oid' hmem hlive' d' (List.mem_cons_of_mem _ hd')
  opened := by
    intro oid' hmem n d' hsub hopens hremoves
    rcases Finset.mem_insert.mp hmem with rfl | hmem
    · exact h.fresh oid' ⟨d, n, d', hsub.cons_cons d, hd, hopens, hremoves⟩
    · exact h.opened oid' hmem n d' (hsub.cons d) hopens hremoves
  fresh := fun oid' hagain => h.fresh oid' (removedAgain_cons hagain)

/-- A diff that does not touch the book. -/
theorem Harmless.tail (h : Harmless a removed (d :: ds)) : Harmless a removed ds where
  live := fun oid hmem hlive d' hd' => h.live oid hmem hlive d' (List.mem_cons_of_mem _ hd')
  opened := fun oid hmem n d' hsub => h.opened oid hmem n d' (hsub.cons d)
  fresh := fun oid hagain => h.fresh oid (removedAgain_cons hagain)

variable {π : Profile} {b b' : OrderBook}

theorem replay_cons {ops : List BookOp} : b.replay π policy (op :: ops) =
    (Prod.snd <$> b.applyOpWithPolicy π op policy) >>= fun b' => b'.replay π policy ops := rfl

theorem replayOp_spec (h : Represents π b a) (op : BookOp) (policy : ReplayPolicy) :
    Returns (OnlyOverflow π (ReplayOverflows a op policy))
      (Prod.snd <$> b.applyOpWithPolicy π op policy) fun b' =>
        Represents π b' (a.replayOp policy op) :=
  returns_snd (applyOpWithPolicy_spec h op policy) fun _ => And.right

/-- **A replay that returns has replayed every operation.** -/
theorem replay_represents (h : Represents π b a) {ops : List BookOp}
    (hr : b.replay π policy ops = .ok b') :
    Represents π b' (ops.foldl (AbstractBook.replayOp policy) a) := by
  have hstep : ∀ b a, ∀ op ∈ ops, Represents π b a →
      Returns (fun _ => True) (Prod.snd <$> b.applyOpWithPolicy π op policy)
        fun b' => Represents π b' (a.replayOp policy op) :=
    fun b a op _ hba => (replayOp_spec hba op policy).mono (fun _ _ => trivial) fun _ => id
  exact (Returns.foldlM_simulates (Represents π) hstep h).of_eq_ok hr

/-- A replay that is cut in two. -/
theorem replay_append (ops ops' : List BookOp) :
    b.replay π policy (ops ++ ops') =
      b.replay π policy ops >>= fun b' => b'.replay π policy ops' := List.foldlM_append

/-- Two replays that begin with the same operation. -/
theorem replay_cons_congr (h : Represents π b a) {ops ops' : List BookOp}
    (hrest : ∀ b', Represents π b' (a.replayOp policy op) →
      b'.replay π policy ops = b'.replay π policy ops') :
    b.replay π policy (op :: ops) = b.replay π policy (op :: ops') := by
  rw [replay_cons, replay_cons]
  cases hb' : Prod.snd <$> b.applyOpWithPolicy π op policy with
  | error e => rfl
  | ok b' => exact hrest b' ((replayOp_spec h op policy).of_eq_ok hb')

/-- A tolerated removal of nothing leaves the book alone. -/
theorem replay_remove_of_not_live (h : Represents π b a) (hl : ¬ a.Live oid) {ops : List BookOp} :
    b.replay π .dwellirTolerant (.remove oid :: ops) = b.replay π .dwellirTolerant ops := by
  have hkey : b.containsKey oid = false :=
    Bool.eq_false_iff.mpr (mt (containsKey_spec h oid).mp hl)
  rw [replay_cons]
  unfold OrderBook.applyOpWithPolicy
  simp only [hkey]
  rfl

/-- A tolerated addition of what is already there leaves the book alone. -/
theorem replay_add_of_live (h : Represents π b a) (hl : a.Live order.id) {ops : List BookOp} :
    b.replay π .dwellirTolerant (.add order :: ops) = b.replay π .dwellirTolerant ops := by
  have hkey : b.containsKey order.id = true := (containsKey_spec h order.id).mpr hl
  rw [replay_cons]
  unfold OrderBook.applyOpWithPolicy
  simp only [hkey]
  rfl

/-- **Without a removal that matters, the decoder drops only what does nothing.** -/
theorem replay_dedupe (h : Represents π b a) (hds : Harmless a removed ds) :
    b.replay π .dwellirTolerant (dedupe removed ds) =
      b.replay π .dwellirTolerant (ds.flatMap Diff.directOps) := by
  induction ds generalizing a b removed with
  | nil => rfl
  | cons d ds ih =>
    rw [List.flatMap_cons]
    cases hd : d.removes with
    | none =>
      rw [dedupe_cons_of_none hd]
      cases hops : d.directOps with
      | nil => exact ih h hds.tail
      | cons op ops =>
        obtain rfl : ops = [] := by
          cases d <;> simp_all [Diff.directOps]
        have hop : op ∈ d.directOps := hops ▸ List.mem_cons_self
        exact replay_cons_congr h fun b' hb' => ih hb' (hds.step hop hd)
    | some oid =>
      rw [directOps_of_removes hd]
      by_cases hmem : oid ∈ removed
      · have hl : ¬ a.Live oid := fun hlive =>
          hds.live oid hmem hlive d List.mem_cons_self hd
        rw [dedupe_cons_of_mem hd hmem]
        exact (ih h hds.tail).trans (replay_remove_of_not_live h hl).symm
      · rw [dedupe_cons_of_not_mem hd hmem]
        exact replay_cons_congr h fun b' hb' => ih hb' (hds.remove hd)

/-! ### With one -/

/-- What the decoder makes of diffs, once it has removed an id, does not remove it again. -/
theorem keeps_of_mem_dedupe (hmem : oid ∈ removed) (hop : op ∈ dedupe removed ds) :
    op.Keeps oid := by
  induction ds generalizing removed with
  | nil => exact absurd hop List.not_mem_nil
  | cons d ds ih =>
    cases hd : d.removes with
    | none =>
      rw [dedupe_cons_of_none hd, List.mem_append] at hop
      rcases hop with hop | hop
      · rcases directOps_of_none hd hop with ⟨order, status, -, rfl⟩ | ⟨id, newQty, hq, rfl | rfl⟩
        · trivial
        · exact fun _ => hq
        · exact fun _ => hq
      · exact ih hmem hop
    | some id =>
      by_cases hid : id ∈ removed
      · rw [dedupe_cons_of_mem hd hid] at hop
        exact ih hmem hop
      · rw [dedupe_cons_of_not_mem hd hid, List.mem_cons] at hop
        rcases hop with rfl | hop
        · rintro rfl
          exact hid hmem
        · exact ih (Finset.mem_insert_of_mem hmem) hop

theorem live_foldl_replayOp {ops : List BookOp} (h : a.Live oid) (hops : ∀ op ∈ ops, op.Keeps oid) :
    (ops.foldl (AbstractBook.replayOp policy) a).Live oid := by
  induction ops generalizing a with
  | nil => exact h
  | cons op ops ih =>
    rw [List.forall_mem_cons] at hops
    exact ih (live_replayOp h hops.1) hops.2

/-- Once the decoder has removed an id, an order that opens it stays. -/
theorem live_dedupe_of_mem (hmem : oid ∈ removed) {n : Diff} (hn : n ∈ ds) (hopens : n.Opens oid) :
    ((dedupe removed ds).foldl (AbstractBook.replayOp policy) a).Live oid := by
  induction ds generalizing a removed with
  | nil => exact absurd hn List.not_mem_nil
  | cons d ds ih =>
    rcases List.mem_cons.mp hn with rfl | hn
    · obtain ⟨order, status, rfl, rfl, hq⟩ := exists_new_of_opens hopens
      rw [dedupe_cons_of_none rfl, List.foldl_append]
      exact live_foldl_replayOp (live_replayOp_add hq) fun op => keeps_of_mem_dedupe hmem
    · cases hd : d.removes with
      | none =>
        rw [dedupe_cons_of_none hd, List.foldl_append]
        exact ih hmem hn
      | some id =>
        by_cases hid : id ∈ removed
        · rw [dedupe_cons_of_mem hd hid]
          exact ih hmem hn
        · rw [dedupe_cons_of_not_mem hd hid]
          exact ih (Finset.mem_insert_of_mem hmem) hn

/-- **An id that is removed and opened stays live**, whatever else the message says about it. -/
theorem live_dedupe {d₁ n : Diff} (hsub : [d₁, n].Sublist ds) (hd₁ : d₁.removes = some oid)
    (hopens : n.Opens oid) :
    ((dedupe removed ds).foldl (AbstractBook.replayOp policy) a).Live oid := by
  induction ds generalizing a removed with
  | nil => exact nomatch hsub
  | cons d ds ih =>
    rcases List.cons_sublist_cons'.mp hsub with htail | ⟨rfl, htail⟩
    · cases hd : d.removes with
      | none =>
        rw [dedupe_cons_of_none hd, List.foldl_append]
        exact ih htail
      | some id =>
        by_cases hid : id ∈ removed
        · rw [dedupe_cons_of_mem hd hid]
          exact ih htail
        · rw [dedupe_cons_of_not_mem hd hid]
          exact ih htail
    · have hn := List.singleton_sublist.mp htail
      by_cases hid : oid ∈ removed
      · rw [dedupe_cons_of_mem hd₁ hid]
        exact live_dedupe_of_mem hid hn hopens
      · rw [dedupe_cons_of_not_mem hd₁ hid]
        exact live_dedupe_of_mem (Finset.mem_insert_self _ _) hn hopens

/-- The direct translation of diffs that end in a removal leaves the id not live. -/
theorem not_live_direct (hd : d.removes = some oid) :
    ¬ (((ds ++ [d]).flatMap Diff.directOps).foldl (AbstractBook.replayOp policy) a).Live oid := by
  rw [List.flatMap_append, List.flatMap_singleton, directOps_of_removes hd, List.foldl_append]
  exact not_live_replayOp_remove

end L4Book
