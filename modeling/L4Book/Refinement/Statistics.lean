import L4Book.Refinement.Accounting
import L4Book.Refinement.Reading

/-!
# The statistics of a capture

Loading a capture adds up what its messages count. The run is followed line by line: a line that is
not empty is counted, and one that is decoded into updates adds a list of operations and its
counters.

## Main definitions

* `batchOf`, `batchesOf`: the updates of a line, and of a capture
* `SumsUp`: the statistics are the sums over the updates

## Main results

* `SumsUp.readLine`: the step lemma
* `sumsUp_of_foldlM`: the run lemma
-/

namespace L4Book

namespace BookOp

/-- The operation adds an order. -/
def isAdd : BookOp → Bool
  | .add _ => true
  | _ => false

/-- The operation is a size update. -/
def isSizeUpdate : BookOp → Bool
  | .updateSize _ _ => true
  | _ => false

/-- The operation is a size amend. -/
def isSizeAmend : BookOp → Bool
  | .amendSize _ _ => true
  | _ => false

end BookOp

section

variable (parseJson : String → Except String Json) (scales : Scales)

/-- The updates that a line is decoded as. Empty lines are not decoded. -/
def batchOf (line : String) : Option ReasonedUpdateBatch :=
  if line = "" then none
  else
    match decodeLineWithMeta parseJson scales line with
    | .ok (.updates batch) => some batch
    | _ => none

/-- The updates of a capture, in the order of its lines. -/
def batchesOf (lines : List String) : List ReasonedUpdateBatch :=
  lines.filterMap (batchOf parseJson scales)

end

/-- What is loaded, and what is counted, when these are the updates of the lines. -/
structure SumsUp {α : Type} (keep : ReasonedBookOp → α) (lines : List String)
    (batches : List ReasonedUpdateBatch) (capture : CaptureOf α) : Prop where
  updates : capture.updates = batches.map fun batch => batch.ops.map keep
  lines : capture.stats.lines = lines.countP (· ≠ "")
  updatesMessages : capture.stats.updatesMessages = capture.updates.length
  totalOps : capture.stats.totalOps = (capture.updates.map List.length).sum
  kinds : capture.stats.totalOps = capture.stats.adds + capture.stats.removes +
    capture.stats.sizeUpdates + capture.stats.sizeAmends
  adds : capture.stats.adds = (batches.map fun batch =>
    batch.ops.countP fun r => r.op.isAdd).sum
  removes : capture.stats.removes = (batches.map fun batch =>
    batch.ops.countP fun r => r.op.isRemove).sum
  sizeUpdates : capture.stats.sizeUpdates = (batches.map fun batch =>
    batch.ops.countP fun r => r.op.isSizeUpdate).sum
  sizeAmends : capture.stats.sizeAmends = (batches.map fun batch =>
    batch.ops.countP fun r => r.op.isSizeAmend).sum
  unresolvedNew : capture.stats.unresolvedNew =
    (batches.map ReasonedUpdateBatch.unresolvedNew).sum
  collapsedCompleteFills : capture.stats.collapsedCompleteFills =
    (batches.map ReasonedUpdateBatch.collapsedCompleteFills).sum
  droppedDuplicateRemoves : capture.stats.droppedDuplicateRemoves =
    (batches.map ReasonedUpdateBatch.droppedDuplicateRemoves).sum

variable {α : Type} {keep : ReasonedBookOp → α} {parseJson : String → Except String Json}
  {scales : Scales} {lines : List String} {line : String} {batch : ReasonedUpdateBatch}
  {batches : List ReasonedUpdateBatch} {capture capture' : CaptureOf α}

/-! ### Counting -/

/-- An operation is of one of four kinds. -/
theorem countP_kinds (ops : List ReasonedBookOp) :
    ops.length = ops.countP (fun r => r.op.isAdd) + ops.countP (fun r => r.op.isRemove) +
      ops.countP (fun r => r.op.isSizeUpdate) + ops.countP (fun r => r.op.isSizeAmend) := by
  induction ops with
  | nil => rfl
  | cons r ops ih =>
    simp only [List.length_cons, List.countP_cons, ih]
    cases r.op <;> simp [BookOp.isAdd, BookOp.isRemove, BookOp.isSizeUpdate, BookOp.isSizeAmend] <;>
      omega

/-- Each operation is counted in the counter of its kind. -/
theorem foldl_countOp (ops : List ReasonedBookOp) (stats : CaptureStats) :
    ops.foldl (fun stats reasoned => stats.countOp reasoned.op) stats =
      { stats with
        adds := stats.adds + ops.countP fun r => r.op.isAdd
        removes := stats.removes + ops.countP fun r => r.op.isRemove
        sizeUpdates := stats.sizeUpdates + ops.countP fun r => r.op.isSizeUpdate
        sizeAmends := stats.sizeAmends + ops.countP fun r => r.op.isSizeAmend } := by
  induction ops generalizing stats with
  | nil => rfl
  | cons r ops ih =>
    rw [List.foldl_cons, ih]
    simp only [List.countP_cons]
    cases r.op <;> simp [CaptureStats.countOp, BookOp.isAdd, BookOp.isRemove, BookOp.isSizeUpdate,
      BookOp.isSizeAmend] <;> omega

/-- What the updates of one message add to the statistics. -/
theorem accumulate_eq (stats : CaptureStats) (batch : ReasonedUpdateBatch) :
    stats.accumulate batch =
      { lines := stats.lines
        updatesMessages := stats.updatesMessages + 1
        totalOps := stats.totalOps + batch.ops.length
        adds := stats.adds + batch.ops.countP fun r => r.op.isAdd
        removes := stats.removes + batch.ops.countP fun r => r.op.isRemove
        sizeUpdates := stats.sizeUpdates + batch.ops.countP fun r => r.op.isSizeUpdate
        sizeAmends := stats.sizeAmends + batch.ops.countP fun r => r.op.isSizeAmend
        unresolvedNew := stats.unresolvedNew + batch.unresolvedNew
        collapsedCompleteFills := stats.collapsedCompleteFills + batch.collapsedCompleteFills
        droppedDuplicateRemoves :=
          stats.droppedDuplicateRemoves + batch.droppedDuplicateRemoves } := by
  rw [CaptureStats.accumulate, foldl_countOp]

/-! ### Loading -/

namespace SumsUp

theorem empty : SumsUp keep [] [] (.empty : CaptureOf α) := by
  constructor <;> rfl

/-- A line that is not read. -/
theorem skip_line (h : SumsUp keep lines batches capture) :
    SumsUp keep (lines ++ [""]) batches capture :=
  { h with lines := by simpa using h.lines }

/-- A line that is counted. -/
theorem count_line (h : SumsUp keep lines batches capture) (hne : line ≠ "") :
    SumsUp keep (lines ++ [line]) batches
      { capture with stats.lines := capture.stats.lines + 1 } :=
  { h with lines := by simp [h.lines, hne] }

/-- A line that brings no updates. -/
theorem push_skip (h : SumsUp keep lines batches capture) (orders : List Order) :
    SumsUp keep lines batches { capture with snapshot := capture.snapshot ++ orders } :=
  { h with }

/-- A line that brings updates. -/
theorem push_updates (h : SumsUp keep lines batches capture) (batch : ReasonedUpdateBatch) :
    SumsUp keep lines (batches ++ [batch]) (capture.push keep (.updates batch)) := by
  rw [CaptureOf.push, accumulate_eq]
  constructor
  case updates => simp [h.updates]
  case lines => exact h.lines
  case updatesMessages => simp [h.updatesMessages]
  case totalOps => simp [h.totalOps]
  case kinds =>
    have hkinds := h.kinds
    have hbatch := countP_kinds batch.ops
    dsimp only
    omega
  case adds => simp [h.adds]
  case removes => simp [h.removes]
  case sizeUpdates => simp [h.sizeUpdates]
  case sizeAmends => simp [h.sizeAmends]
  case unresolvedNew => simp [h.unresolvedNew]
  case collapsedCompleteFills => simp [h.collapsedCompleteFills]
  case droppedDuplicateRemoves => simp [h.droppedDuplicateRemoves]

/-- **One line more.** -/
theorem readLine (h : SumsUp keep lines batches capture)
    (hread : capture.readLine keep parseJson scales line = .ok capture') :
    SumsUp keep (lines ++ [line]) (batches ++ (batchOf parseJson scales line).toList) capture' := by
  rw [CaptureOf.readLine] at hread
  rw [batchOf]
  by_cases hne : line = ""
  · rw [if_pos hne] at hread
    obtain rfl := Except.ok.inj hread
    rw [if_pos hne, Option.toList_none, List.append_nil, hne]
    exact h.skip_line
  · rw [if_neg hne] at hread
    rw [if_neg hne]
    obtain ⟨decoded, hdecoded, hread⟩ := bind_eq_ok_iff.mp hread
    obtain rfl := Except.ok.inj hread
    rw [hdecoded]
    have hcount := h.count_line hne
    cases decoded with
    | skip =>
      rw [Option.toList_none, List.append_nil]
      exact hcount
    | snapshot orders cause =>
      rw [Option.toList_none, List.append_nil]
      exact hcount.push_skip orders
    | updates batch => exact hcount.push_updates batch

end SumsUp

/-- **A capture that is loaded sums up its lines.** -/
theorem sumsUp_of_foldlM
    (h : lines.foldlM (CaptureOf.readLine keep parseJson scales) .empty = .ok capture) :
    SumsUp keep lines (batchesOf parseJson scales lines) capture := by
  induction lines using List.reverseRecOn generalizing capture with
  | nil =>
    obtain rfl := Except.ok.inj h
    exact SumsUp.empty
  | append_singleton lines line ih =>
    rw [List.foldlM_append] at h
    obtain ⟨before, hbefore, h⟩ := bind_eq_ok_iff.mp h
    rw [List.foldlM_cons] at h
    obtain ⟨after, hread, h⟩ := bind_eq_ok_iff.mp h
    obtain rfl := Except.ok.inj h
    have hstep := (ih hbefore).readLine hread
    rw [batchesOf, List.filterMap_append]
    cases hbatch : batchOf parseJson scales line <;> simpa [hbatch, batchesOf] using hstep

/-- Updates are decoded from the payload of a line. -/
theorem exists_of_mem_batchesOf (h : batch ∈ batchesOf parseJson scales lines) :
    ∃ line ∈ lines, ∃ v updates, parseJson line = .ok v ∧ v.payload "Updates" = some updates ∧
      decodeUpdatesWithMeta scales updates = .ok batch := by
  obtain ⟨line, hline, hbatch⟩ := List.mem_filterMap.mp h
  rw [batchOf] at hbatch
  split at hbatch
  · cases hbatch
  split at hbatch
  case h_1 hdecode =>
    obtain rfl := Option.some.inj hbatch
    obtain ⟨v, hv, hcases⟩ := decodeLineWithMeta_cases hdecode
    rcases hcases with hskip | ⟨snap, orders, -, -, hsnap⟩ | ⟨updates, batch', hpayload, hok, heq⟩
    · cases hskip
    · cases hsnap
    · cases heq
      exact ⟨line, hline, v, updates, hv, hpayload, hok⟩
  case h_2 => cases hbatch

end L4Book
