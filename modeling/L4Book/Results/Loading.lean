import L4Book.Refinement.Statistics

/-!
# What a capture file loads to

The loader goes through a file line by line, appending to the snapshot and to the updates and
counting as it goes. What it returns can be said at once: the lines that are not empty are decoded,
the first one that does not decode ends it with its error, and otherwise every figure of the result
is a count of something decoded. The two loaders differ in the causes of the operations only, and a
file in two parts loads to the two parts put together.

## Main definitions

* `CaptureOf.collect`: a capture from its decoded lines

## Main results

* `loadCapture_collects`
-/

namespace L4Book

variable {α : Type} {keep : ReasonedBookOp → α} {parseJson : String → Except String Json}
  {scales : Scales} {lines : List String}

/-! ### A capture at once -/

/-- The orders of a snapshot. -/
def DecodedWithMeta.orders : DecodedWithMeta → List Order
  | .snapshot orders _ => orders
  | _ => []

/-- The payload of an update. -/
def DecodedWithMeta.batch : DecodedWithMeta → Option ReasonedUpdateBatch
  | .updates batch => some batch
  | _ => none

/-- The figures of a file with so many lines and these updates. -/
def CaptureStats.collect (lines : ℕ) (batches : List ReasonedUpdateBatch) : CaptureStats where
  lines := lines
  updatesMessages := batches.length
  totalOps := (batches.flatMap ReasonedUpdateBatch.ops).length
  adds := (batches.flatMap ReasonedUpdateBatch.ops).countP fun r => r.op.isAdd
  removes := (batches.flatMap ReasonedUpdateBatch.ops).countP fun r => r.op.isRemove
  sizeUpdates := (batches.flatMap ReasonedUpdateBatch.ops).countP fun r => r.op.isSizeUpdate
  sizeAmends := (batches.flatMap ReasonedUpdateBatch.ops).countP fun r => r.op.isSizeAmend
  unresolvedNew := (batches.map ReasonedUpdateBatch.unresolvedNew).sum
  collapsedCompleteFills := (batches.map ReasonedUpdateBatch.collapsedCompleteFills).sum
  droppedDuplicateRemoves := (batches.map ReasonedUpdateBatch.droppedDuplicateRemoves).sum

/-- The capture with these lines. -/
def CaptureOf.collect (keep : ReasonedBookOp → α) (ds : List DecodedWithMeta) : CaptureOf α where
  snapshot := ds.flatMap DecodedWithMeta.orders
  updates := (ds.filterMap DecodedWithMeta.batch).map fun batch => batch.ops.map keep
  stats := .collect ds.length (ds.filterMap DecodedWithMeta.batch)

/-- Two captures, one after the other. -/
def CaptureOf.append (c c' : CaptureOf α) : CaptureOf α where
  snapshot := c.snapshot ++ c'.snapshot
  updates := c.updates ++ c'.updates
  stats := {
    lines := c.stats.lines + c'.stats.lines
    updatesMessages := c.stats.updatesMessages + c'.stats.updatesMessages
    totalOps := c.stats.totalOps + c'.stats.totalOps
    adds := c.stats.adds + c'.stats.adds
    removes := c.stats.removes + c'.stats.removes
    sizeUpdates := c.stats.sizeUpdates + c'.stats.sizeUpdates
    sizeAmends := c.stats.sizeAmends + c'.stats.sizeAmends
    unresolvedNew := c.stats.unresolvedNew + c'.stats.unresolvedNew
    collapsedCompleteFills := c.stats.collapsedCompleteFills + c'.stats.collapsedCompleteFills
    droppedDuplicateRemoves :=
      c.stats.droppedDuplicateRemoves + c'.stats.droppedDuplicateRemoves }

/-! ### The loading loop -/

/-- An update more. -/
theorem CaptureStats.accumulate_collect (n : ℕ) (batches : List ReasonedUpdateBatch)
    (batch : ReasonedUpdateBatch) :
    (CaptureStats.collect n batches).accumulate batch = .collect n (batches ++ [batch]) := by
  rw [accumulate_eq]
  simp only [CaptureStats.collect, List.flatMap_append, List.flatMap_singleton,
    List.length_append, List.length_singleton, List.map_append, List.map_cons, List.map_nil,
    List.sum_append, List.sum_singleton, List.countP_append]

/-- A line more. -/
theorem CaptureOf.push_collect (ds : List DecodedWithMeta) (d : DecodedWithMeta) :
    CaptureOf.push keep
        { CaptureOf.collect keep ds with
          stats.lines := (CaptureOf.collect keep ds).stats.lines + 1 } d =
      .collect keep (ds ++ [d]) := by
  have hlines : ∀ batches, ({ CaptureStats.collect ds.length batches with
      lines := (CaptureStats.collect ds.length batches).lines + 1 } : CaptureStats) =
        .collect (ds.length + 1) batches := fun _ => rfl
  cases d with
  | skip =>
    simp [push, collect, hlines, List.filterMap_cons, DecodedWithMeta.orders,
      DecodedWithMeta.batch]
  | snapshot orders cause =>
    simp [push, collect, hlines, List.filterMap_cons, DecodedWithMeta.orders,
      DecodedWithMeta.batch]
  | updates batch =>
    simp [push, collect, hlines, CaptureStats.accumulate_collect, DecodedWithMeta.orders,
      DecodedWithMeta.batch]

/-- The loop after the lines `ds`. -/
theorem foldlM_readLine (ds : List DecodedWithMeta) (lines : List String) :
    lines.foldlM (CaptureOf.readLine keep parseJson scales) (.collect keep ds) =
      ((lines.filter (· ≠ "")).mapM (decodeLineWithMeta parseJson scales)).map fun ds' =>
        .collect keep (ds ++ ds') := by
  induction lines generalizing ds with
  | nil =>
    rw [List.filter_nil, List.mapM_nil, List.foldlM_nil]
    exact congrArg (fun ds => Except.ok (CaptureOf.collect keep ds)) (List.append_nil ds).symm
  | cons line lines ih =>
    rw [List.foldlM_cons, CaptureOf.readLine]
    by_cases hline : line = ""
    · rw [if_pos hline, List.filter_cons_of_neg (by simpa using hline), ok_bind, ih]
    · rw [if_neg hline, List.filter_cons_of_pos (by simpa using hline), List.mapM_cons]
      cases decodeLineWithMeta parseJson scales line with
      | error e => rfl
      | ok d =>
        rw [ok_bind, ok_bind]
        show lines.foldlM _ (CaptureOf.push keep _ d) = _
        rw [CaptureOf.push_collect, ih]
        cases (lines.filter (· ≠ "")).mapM (decodeLineWithMeta parseJson scales) with
        | error e => rfl
        | ok ds' => simp [Except.map]

/-- The same capture without the causes. -/
def ReasonedCapture.strip (c : ReasonedCapture) : Capture where
  snapshot := c.snapshot
  updates := c.updates.map fun ops => ops.map ReasonedBookOp.op
  stats := c.stats

/-- Two files' lines, one after the other. -/
theorem CaptureOf.collect_append (ds ds' : List DecodedWithMeta) :
    CaptureOf.collect keep (ds ++ ds') = (collect keep ds).append (collect keep ds') := by
  simp only [collect, append, CaptureStats.collect, List.flatMap_append, List.filterMap_append,
    List.map_append, List.length_append, List.sum_append, List.countP_append]

/-- What the loader without causes returns. -/
theorem loadCapture_eq (parseJson : String → Except String Json) (scales : Scales)
    (lines : List String) : loadCapture parseJson scales lines =
      ((lines.filter (· ≠ "")).mapM (decodeLineWithMeta parseJson scales)).map
        (.collect ReasonedBookOp.op) :=
  foldlM_readLine [] lines

/-- What the loader with causes returns. -/
theorem loadCaptureWithMeta_eq (parseJson : String → Except String Json) (scales : Scales)
    (lines : List String) : loadCaptureWithMeta parseJson scales lines =
      ((lines.filter (· ≠ "")).mapM (decodeLineWithMeta parseJson scales)).map (.collect id) :=
  foldlM_readLine [] lines

/-- **What a capture file loads to**, by either loader: the lines that are not empty are decoded,
and the first that does not decode decides the error; otherwise the snapshot orders and the
operations stand in the order of the lines, and every figure counts what it says. A file in two
parts loads to what its parts load to. -/
theorem loadCapture_collects (parseJson : String → Except String Json) (scales : Scales)
    (lines : List String) :
    loadCaptureWithMeta parseJson scales lines =
      ((lines.filter (· ≠ "")).mapM (decodeLineWithMeta parseJson scales)).map (.collect id) ∧
    loadCapture parseJson scales lines =
      (loadCaptureWithMeta parseJson scales lines).map ReasonedCapture.strip ∧
    ∀ more, loadCapture parseJson scales (lines ++ more) = (do
      let c ← loadCapture parseJson scales lines
      let c' ← loadCapture parseJson scales more
      return c.append c') := by
  refine ⟨loadCaptureWithMeta_eq parseJson scales lines, ?_, fun more => ?_⟩
  · rw [loadCaptureWithMeta_eq, loadCapture_eq]
    cases (lines.filter (· ≠ "")).mapM (decodeLineWithMeta parseJson scales) with
    | error e => rfl
    | ok ds => simp [Except.map, ReasonedCapture.strip, CaptureOf.collect]
  · rw [loadCapture_eq, loadCapture_eq, loadCapture_eq, List.filter_append, List.mapM_append]
    cases (lines.filter (· ≠ "")).mapM (decodeLineWithMeta parseJson scales) with
    | error e => rfl
    | ok ds =>
      cases (more.filter (· ≠ "")).mapM (decodeLineWithMeta parseJson scales) with
      | error e => rfl
      | ok ds' => exact congrArg Except.ok (CaptureOf.collect_append ds ds')

/-- The operations that a capture counts are those it holds, and each is counted once by kind. -/
theorem totalOps_eq {c : Capture} (h : loadCapture parseJson scales lines = .ok c) :
    c.stats.totalOps = c.updates.flatten.length ∧
      c.stats.adds + c.stats.removes + c.stats.sizeUpdates + c.stats.sizeAmends =
        c.stats.totalOps := by
  rw [loadCapture_eq] at h
  cases hds : (lines.filter (· ≠ "")).mapM (decodeLineWithMeta parseJson scales) with
  | error e =>
    rw [hds] at h
    cases h
  | ok ds =>
    rw [hds] at h
    obtain rfl := Except.ok.inj h
    refine ⟨?_, (countP_kinds _).symm⟩
    simp [CaptureOf.collect, CaptureStats.collect, List.length_flatMap, List.length_flatten,
      Function.comp_def]

end L4Book
