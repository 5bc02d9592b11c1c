import L4Book.Foundation.Entrywise
import L4Book.Refinement.Statistics
import L4Book.Results.Dedupe

/-!
# Feed accounting

The counters of the decoder balance: every diff of an accepted message is an operation, a dropped
removal, an unresolved `new`, or of unknown shape. Of the removals of an order the first one is
kept, where it stands. The statistics of a capture are the sums over its messages.

Diffs are classified here by the JSON of the message.

## Main definitions

* `namesRemove`, `unknownShape`, `removedBy`: what a diff of a message is
* `AccountsFor`: the operations and counters of a message

## Main results

* `feed_accounting`
-/

namespace L4Book

/-! ### Diffs of a message -/

/-- The diff is the plain string `remove`. -/
def namesRemove (d : Json) : Bool :=
  (d.get "raw_book_diff").bind Json.asStr = some "remove"

/-- The payload of the diff is an object with none of the keys that the decoder knows. -/
def unknownShape (d : Json) : Bool :=
  match d.get "raw_book_diff" with
  | none => false
  | some raw => raw.asObject.isSome && (raw.get "new").isNone && (raw.get "update").isNone &&
      (raw.get "modified").isNone

/-- The order that the diff takes off the book, by a `remove` or by a size of zero. -/
def removedBy (scales : Scales) (d : Json) : Option OrderId :=
  if namesRemove d ∨ statedQty scales d = some 0 then (d.get "oid").bind Json.asU64 else none

/-- The diff is made into this operation. -/
def MadeInto (scales : Scales) (updates d : Json) (r : ReasonedBookOp) : Prop :=
  ∃ diff, readDiff scales (statusByOid updates) d = .ok diff ∧
    diff.reasonedOp (statusByOid updates) = some r

/-- The operations and counters of an accepted message account for all its diffs. -/
structure AccountsFor (scales : Scales) (updates : Json) (batch : ReasonedUpdateBatch) : Prop where
  balance : (bookDiffs updates).length = batch.ops.length + batch.droppedDuplicateRemoves +
    batch.unresolvedNew + (bookDiffs updates).countP unknownShape
  /-- The operations stand in the order of the diffs they were made of. -/
  inOrder : ∃ sources, sources.Sublist (bookDiffs updates) ∧
    List.Forall₂ (MadeInto scales updates) sources batch.ops
  once : ∀ oid, (batch.ops.map ReasonedBookOp.op).count (.remove oid) ≤ 1
  present : ∀ oid, BookOp.remove oid ∈ batch.ops.map ReasonedBookOp.op ↔
    ∃ d ∈ bookDiffs updates, removedBy scales d = some oid
  /-- The first diff that removes an order is made into the removal, right behind what is decoded
  from the diffs before it. -/
  placed : ∀ oid before d after, bookDiffs updates = before ++ d :: after →
    removedBy scales d = some oid → (∀ x ∈ before, removedBy scales x ≠ some oid) →
    ∃ batchBefore r rest,
      decodeUpdatesWithMeta scales (updates.cutDiffs before.length) = .ok batchBefore ∧
        MadeInto scales updates d r ∧ r.op = .remove oid ∧
        batch.ops = batchBefore.ops ++ r :: rest
  collapsed : batch.collapsedCompleteFills =
    (bookDiffs updates).countP fun d => statedQty scales d = some 0
  removals : batch.ops.countP (fun r => r.op.isRemove) + batch.droppedDuplicateRemoves =
    (bookDiffs updates).countP namesRemove + batch.collapsedCompleteFills

variable {scales : Scales} {updates : Json} {batch : ReasonedUpdateBatch} {ds : List Diff}
  {oid : OrderId} {statuses : Statuses} {d : Json} {diff : Diff}

/-! ### Diffs as they are read -/

/-- A payload with a key is not the string `remove`. -/
theorem not_remove_of_get {raw v : Json} {key : String} (h : raw.get key = some v) :
    raw.asStr ≠ some "remove" := by
  intro hremove
  rw [get_of_asStr hremove] at h
  cases h

/-- **What a diff is read as shows in its JSON.** -/
theorem shape_of_readDiff (h : readDiff scales statuses d = .ok diff) :
    diff.isRemove = namesRemove d ∧ diff.isUnknown = unknownShape d ∧
      diff.collapses = decide (statedQty scales d = some 0) ∧
      diff.removes = removedBy scales d := by
  obtain ⟨oid, raw, hoid, hraw, hreads⟩ := readsAs_of_readDiff h
  have hname : namesRemove d = decide (raw.asStr = some "remove") := by
    rw [namesRemove, hraw]
    rfl
  have hshape : unknownShape d = (raw.asObject.isSome && (raw.get "new").isNone &&
      (raw.get "update").isNone && (raw.get "modified").isNone) := by
    rw [unknownShape, hraw]
  rw [removedBy, hoid, statedQty_of_readDiff h, hname, hshape]
  cases hreads with
  | remove hremove =>
    simp [Diff.isRemove, Diff.isUnknown, Diff.collapses, Diff.removes, Diff.statedQty, hremove,
      asObject_of_asStr hremove]
  | new hnew hread =>
    rcases readNew_cases hread with ⟨-, rfl⟩ | ⟨order, text, rfl, -⟩
    all_goals
      simp [Diff.isRemove, Diff.isUnknown, Diff.collapses, Diff.removes, Diff.statedQty, hnew,
        not_remove_of_get hnew]
  | update hnew hupdate hsz hqty =>
    simp [Diff.isRemove, Diff.isUnknown, Diff.collapses, Diff.removes, Diff.statedQty, hupdate,
      not_remove_of_get hupdate]
  | modified hnew hupdate hmodified hsz hqty =>
    simp [Diff.isRemove, Diff.isUnknown, Diff.collapses, Diff.removes, Diff.statedQty, hmodified,
      not_remove_of_get hmodified]
  | unknown hfields hnew hupdate hmodified =>
    have hremove : raw.asStr ≠ some "remove" := by
      intro hremove
      rw [asObject_of_asStr hremove] at hfields
      cases hfields
    simp [Diff.isRemove, Diff.isUnknown, Diff.collapses, Diff.removes, Diff.statedQty, hfields,
      hnew, hupdate, hmodified, hremove]

/-! ### An accepted message -/

/-- The diffs of a message, next to what they are read as. -/
theorem forall₂_of_readDiffs (h : readDiffs scales updates = .ok ds) :
    List.Forall₂ (fun d diff => readDiff scales (statusByOid updates) d = .ok diff)
      (bookDiffs updates) ds := mapM_eq_ok_iff.mp h

/-- What the diffs say that remove an order. -/
theorem exists_removes_iff {cs : List Json}
    (h : List.Forall₂ (fun d diff => readDiff scales statuses d = .ok diff) cs ds) :
    (∃ diff ∈ ds, diff.removes = some oid) ↔ ∃ d ∈ cs, removedBy scales d = some oid := by
  refine exists_mem_iff_of_forall₂ h fun d diff hread => ?_
  rw [(shape_of_readDiff hread).2.2.2]

/-- **The first removal of an order stands where its diff does.** -/
theorem placed_of_readDiffs (h : decodeUpdatesWithMeta scales updates = .ok batch)
    {before after : List Json} (hdiffs : bookDiffs updates = before ++ d :: after)
    (hd : removedBy scales d = some oid) (hfirst : ∀ x ∈ before, removedBy scales x ≠ some oid) :
    ∃ batchBefore r rest,
      decodeUpdatesWithMeta scales (updates.cutDiffs before.length) = .ok batchBefore ∧
        MadeInto scales updates d r ∧ r.op = .remove oid ∧
        batch.ops = batchBefore.ops ++ r :: rest := by
  obtain ⟨ds, hds, hbatch⟩ := exists_decoding h
  have hread := forall₂_of_readDiffs hds
  rw [hdiffs] at hread
  obtain ⟨ys, x, zs, rfl, hys, hx, -⟩ := exists_split hread
  have hremoves : x.removes = some oid := (shape_of_readDiff hx).2.2.2.trans hd
  have hfirst' : ∀ y ∈ ys, y.removes ≠ some oid := by
    intro y hy hyremoves
    obtain ⟨c, hc, hoid⟩ := (exists_removes_iff hys).mp ⟨y, hy, hyremoves⟩
    exact hfirst c hc hoid
  -- what is decoded from the diffs before it
  have hbefore : decodeUpdatesWithMeta scales (updates.cutDiffs before.length) =
      .ok (ys.foldl (Decoding.account (statusByOid updates)) Decoding.start).batch := by
    have hcut := readDiffs_cutDiffs hds before.length
    rw [hys.length_eq, List.take_left] at hcut
    rw [decodeUpdatesWithMeta_eq, hys.length_eq, hcut, statusByOid_cutDiffs]
    rfl
  obtain ⟨r, hr, hop⟩ := exists_reasonedOp (statusByOid updates) hremoves
  obtain ⟨removed', -, hkept⟩ :=
    kept_append_cons hremoves hfirst' (Finset.notMem_empty oid) zs
  refine ⟨_, r, (kept removed' zs).filterMap (Diff.reasonedOp (statusByOid updates)), hbefore,
    ⟨x, hx, hr⟩, hop, ?_⟩
  rw [(Decoding.account_start _ _ hbatch).1, (Decoding.account_start _ _ rfl).1, hkept,
    List.filterMap_append, List.filterMap_cons_some hr]

/-- **No diff of an accepted message is lost.** -/
theorem accountsFor (h : decodeUpdatesWithMeta scales updates = .ok batch) :
    AccountsFor scales updates batch := by
  obtain ⟨ds, hds, hbatch⟩ := exists_decoding h
  have hread := forall₂_of_readDiffs hds
  obtain ⟨hops, hdropped, hcollapsed, hunresolved⟩ := Decoding.account_start _ _ hbatch
  have hcollapses : ds.countP Diff.collapses =
      (bookDiffs updates).countP fun d => statedQty scales d = some 0 :=
    countP_eq_of_forall₂ hread fun c x hx => (shape_of_readDiff hx).2.2.1
  constructor
  case balance =>
    have hunknown : ds.countP Diff.isUnknown = (bookDiffs updates).countP unknownShape :=
      countP_eq_of_forall₂ hread fun c x hx => (shape_of_readDiff hx).2.1
    have hlength := length_filterMap_reasonedOp (statusByOid updates) (kept ∅ ds)
    rw [← hops, countP_kept (p := Diff.isUnresolvedNew) fun _ => removes_of_isUnresolvedNew,
      countP_kept (p := Diff.isUnknown) fun _ => removes_of_isUnknown] at hlength
    rw [hread.length_eq, hunresolved]
    omega
  case inOrder =>
    obtain ⟨picked, hpicked, hforall⟩ := exists_sublist_of_forall₂ hread
      (kept_sublist ∅ ds)
    obtain ⟨sources, hsources, hmade⟩ :=
      exists_sources (g := Diff.reasonedOp (statusByOid updates)) hforall
    rw [hops]
    exact ⟨sources, hsources.trans hpicked, hmade⟩
  case once =>
    intro oid
    rw [hops, count_remove, countP_kept_eq (Finset.notMem_empty oid)]
    split <;> omega
  case present =>
    intro oid
    rw [← exists_removes_iff hread, ← List.count_pos_iff, hops, count_remove,
      countP_kept_eq (Finset.notMem_empty oid)]
    split
    case isTrue hex => exact iff_of_true Nat.one_pos hex
    case isFalse hex => exact iff_of_false (Nat.lt_irrefl 0) hex
  case placed =>
    intro oid before d after hdiffs hd hfirst
    exact placed_of_readDiffs h hdiffs hd hfirst
  case collapsed => exact hcollapsed.trans hcollapses
  case removals =>
    have hremoves : ds.countP Diff.isRemove = (bookDiffs updates).countP namesRemove :=
      countP_eq_of_forall₂ hread fun c x hx => (shape_of_readDiff hx).1
    have hkept := countP_removes_kept ∅ ds
    rw [countP_removes ds] at hkept
    rw [hops, countP_isRemove]
    omega

/-- **Feed accounting.** Every message that is accepted accounts for all its diffs, and the
statistics of every capture that is loaded are the sums over its messages. -/
theorem feed_accounting (parseJson : String → Except String Json) (scales : Scales) :
    (∀ updates batch, decodeUpdatesWithMeta scales updates = .ok batch →
      AccountsFor scales updates batch) ∧
    (∀ lines capture, loadCapture parseJson scales lines = .ok capture →
      SumsUp ReasonedBookOp.op lines (batchesOf parseJson scales lines) capture) ∧
    (∀ lines capture, loadCaptureWithMeta parseJson scales lines = .ok capture →
      SumsUp id lines (batchesOf parseJson scales lines) capture) ∧
    ∀ lines, ∀ batch ∈ batchesOf parseJson scales lines, ∃ line ∈ lines, ∃ v updates,
      parseJson line = .ok v ∧ v.payload "Updates" = some updates ∧
        AccountsFor scales updates batch := by
  refine ⟨fun updates batch => accountsFor, fun lines capture => sumsUp_of_foldlM,
    fun lines capture => sumsUp_of_foldlM, fun lines batch hbatch => ?_⟩
  obtain ⟨line, hline, v, updates, hv, hpayload, hok⟩ := exists_of_mem_batchesOf hbatch
  exact ⟨line, hline, v, updates, hv, hpayload, accountsFor hok⟩

/-- A line with a complete fill. -/
def completeFillLine : Json :=
  .object [("channel", .string "l4Book"),
    ("data", .object [("Updates", completeFillMessage)])]

/-- A complete fill in a capture of one line. -/
theorem feed_accounting_sample :
    (∃ batch, AccountsFor .btcDefault completeFillMessage batch) ∧
    (∃ capture : Capture, SumsUp ReasonedBookOp.op ["line"]
      (batchesOf (fun _ => .ok completeFillLine) .btcDefault ["line"]) capture) ∧
    (∃ capture : ReasonedCapture, SumsUp id ["line"]
      (batchesOf (fun _ => .ok completeFillLine) .btcDefault ["line"]) capture) ∧
    ∃ line ∈ ["line"], ∃ v updates batch,
      (.ok completeFillLine : Except String Json) = .ok v ∧
        v.payload "Updates" = some updates ∧ AccountsFor .btcDefault updates batch := by
  obtain ⟨hmessage, hcapture, hreasoned, hbatches⟩ :=
    feed_accounting (fun _ => .ok completeFillLine) .btcDefault
  refine ⟨?_, ?_, ?_, ?_⟩
  · refine ⟨⟨[⟨.remove 7, .venue "dwellir" .completeFillCollapsed (some "open")⟩], 1, 1, 0⟩,
      hmessage _ _ ?_⟩
    decide +kernel
  · refine ⟨⟨[], [[.remove 7]], ⟨1, 1, 1, 0, 1, 0, 0, 0, 1, 1⟩⟩, hcapture _ _ ?_⟩
    decide +kernel
  · refine ⟨⟨[], [[⟨.remove 7, .venue "dwellir" .completeFillCollapsed (some "open")⟩]],
      ⟨1, 1, 1, 0, 1, 0, 0, 0, 1, 1⟩⟩, hreasoned _ _ ?_⟩
    decide +kernel
  · obtain ⟨line, hline, v, updates, hv, hpayload, haccounts⟩ := hbatches ["line"]
      ⟨[⟨.remove 7, .venue "dwellir" .completeFillCollapsed (some "open")⟩], 1, 1, 0⟩
      (by decide +kernel)
    exact ⟨line, hline, v, updates, _, hv, hpayload, haccounts⟩

end L4Book
