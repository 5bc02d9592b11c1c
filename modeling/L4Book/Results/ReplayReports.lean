import L4Book.ReplayReport
import L4Book.Results.Captures
import L4Book.Results.Loading
import L4Book.Results.Sessions

/-!
# What the replay programs report

The replay program counts what became of the operations of a capture, under either policy. Its
counters say that exactly; it stops early only for a capture that does not load, a snapshot that the
book refuses or an overflow, and never because an assertion fails.

## Main definitions

* `ReplayCounts.Tells`: the counters are those of a list of outcomes

## Main results

* `replayReport_accounts`, `replayCapture_stops`
-/

namespace L4Book

variable {π : Profile} {policy : ReplayPolicy} {b b' : OrderBook} {a : AbstractBook}
  {s s' : ReplayCounts} {op : BookOp} {outcome : ReplayApplyOutcome}

/-! ### Counting -/

namespace ReplayCounts

/-- `Skipped`. -/
def isSkipped : ReplayApplyOutcome → Bool
  | .skipped _ _ => true
  | _ => false

/-- `Coerced`. -/
def isCoerced : ReplayApplyOutcome → Bool
  | .coerced _ _ _ => true
  | _ => false

/-- `Error`. -/
def isError : ReplayApplyOutcome → Bool
  | .error _ _ => true
  | _ => false

/-- The counters after these outcomes. -/
structure Tells (s : ReplayCounts) (outcomes : List ReplayApplyOutcome) : Prop where
  applied : s.applied = outcomes.countP isApplied
  skipped : s.skipped = outcomes.countP isSkipped
  coerced : s.coerced = outcomes.countP isCoerced
  errors : s.errors = outcomes.countP isError
  /-- The samples are the first five outcomes that are not `Applied`. -/
  samples : s.samples = (outcomes.filter fun o => !isApplied o).take 5

theorem tells_start : start.Tells [] := ⟨rfl, rfl, rfl, rfl, rfl⟩

/-- Every outcome is counted once. -/
theorem Tells.total {outcomes : List ReplayApplyOutcome} (h : s.Tells outcomes) :
    s.applied + s.skipped + s.coerced + s.errors = outcomes.length := by
  rw [h.applied, h.skipped, h.coerced, h.errors]
  clear h
  induction outcomes with
  | nil => rfl
  | cons o outcomes ih =>
    rw [List.length_cons, ← ih]
    simp only [List.countP_cons]
    cases o <;> simp [isApplied, isSkipped, isCoerced, isError] <;> omega

theorem samples_sample (s : ReplayCounts) (hs : s.samples.length ≤ 5)
    (outcome : ReplayApplyOutcome) : (s.sample outcome).samples =
      (s.samples ++ [outcome].filter fun o => !isApplied o).take 5 := by
  rw [sample]
  cases hanomaly : !isApplied outcome with
  | false =>
    rw [if_neg (fun h => Bool.false_ne_true h.2), List.filter_cons_of_neg (by simp [hanomaly]),
      List.filter_nil, List.append_nil, List.take_of_length_le hs]
  | true =>
    rw [List.filter_cons_of_pos (by simp [hanomaly]), List.filter_nil]
    by_cases hroom : s.samples.length < 5
    · rw [if_pos ⟨hroom, rfl⟩, List.take_of_length_le (by simp; omega)]
    · rw [if_neg (fun h => hroom h.1), List.take_append_of_le_length (by omega),
        List.take_of_length_le hs]

theorem visit_applied (s : ReplayCounts) (outcome : ReplayApplyOutcome) :
    (s.visit outcome).applied = s.applied + [outcome].countP isApplied := by
  cases outcome <;> simp only [visit, sample] <;> split <;> rfl

theorem visit_skipped (s : ReplayCounts) (outcome : ReplayApplyOutcome) :
    (s.visit outcome).skipped = s.skipped + [outcome].countP isSkipped := by
  cases outcome <;> simp only [visit, sample] <;> split <;> rfl

theorem visit_coerced (s : ReplayCounts) (outcome : ReplayApplyOutcome) :
    (s.visit outcome).coerced = s.coerced + [outcome].countP isCoerced := by
  cases outcome <;> simp only [visit, sample] <;> split <;> rfl

theorem visit_errors (s : ReplayCounts) (outcome : ReplayApplyOutcome) :
    (s.visit outcome).errors = s.errors + [outcome].countP isError := by
  cases outcome <;> simp only [visit, sample] <;> split <;> rfl

/-- An outcome more. -/
theorem Tells.visit {outcomes : List ReplayApplyOutcome} (h : s.Tells outcomes)
    (outcome : ReplayApplyOutcome) : (s.visit outcome).Tells (outcomes ++ [outcome]) where
  applied := by rw [visit_applied, List.countP_append, h.applied]
  skipped := by rw [visit_skipped, List.countP_append, h.skipped]
  coerced := by rw [visit_coerced, List.countP_append, h.coerced]
  errors := by rw [visit_errors, List.countP_append, h.errors]
  samples := by
    have hcount : (s.count outcome).samples = s.samples := by cases outcome <;> rfl
    have hlength : (s.count outcome).samples.length ≤ 5 := by
      rw [hcount, h.samples]
      exact List.length_take_le _ _
    rw [ReplayCounts.visit, samples_sample _ hlength, List.filter_append, hcount, h.samples,
      List.take_append, List.take_take, List.take_append, Nat.min_self, List.length_take]
    congr 2
    omega

end ReplayCounts

/-! ### Replaying -/

/-- The operations as calls. -/
def replayCalls (policy : ReplayPolicy) (ops : List BookOp) : List Call :=
  ops.map fun op => .applyOpWithPolicy op policy

/-- Update by update is operation by operation. -/
theorem foldlM_replayCounting (policy : ReplayPolicy) (updates : List (List BookOp))
    (s : OrderBook × ReplayCounts) :
    updates.foldlM (OrderBook.replayCounting π policy) s =
      OrderBook.replayCounting π policy s updates.flatten := by
  induction updates generalizing s with
  | nil => rfl
  | cons ops updates ih =>
    rw [List.foldlM_cons, List.flatten_cons, OrderBook.replayCounting, OrderBook.replayCounting,
      List.foldlM_append]
    exact bind_congr fun s => ih s

theorem replayCounting_cons (policy : ReplayPolicy) (s : OrderBook × ReplayCounts) (op : BookOp)
    (ops : List BookOp) : OrderBook.replayCounting π policy s (op :: ops) =
      s.1.applyOpWithPolicy π op policy >>= fun r =>
        OrderBook.replayCounting π policy (r.2, s.2.visit r.1) ops := by
  rw [OrderBook.replayCounting, List.foldlM_cons]
  cases s.1.applyOpWithPolicy π op policy <;> rfl

/-- **The counters of a replay** are those of its outcomes. -/
theorem replayCounting_tells {ops : List BookOp} {before : List ReplayApplyOutcome}
    (hs : s.Tells before) (h : OrderBook.replayCounting π policy (b, s) ops = .ok (b', s')) :
    ∃ outcomes, b.respondAll π (replayCalls policy ops) =
      .ok (outcomes.map CallReply.replayed, b') ∧ outcomes.length = ops.length ∧
        s'.Tells (before ++ outcomes) := by
  induction ops generalizing b s before with
  | nil =>
    obtain ⟨rfl, rfl⟩ := Prod.mk.inj (Except.ok.inj h)
    exact ⟨[], rfl, rfl, by rwa [List.append_nil]⟩
  | cons op ops ih =>
    rw [replayCounting_cons] at h
    obtain ⟨⟨outcome, b₁⟩, hop, h⟩ := bind_eq_ok_iff.mp h
    obtain ⟨outcomes, hrest, hlength, htells⟩ := ih (hs.visit outcome) h
    refine ⟨outcome :: outcomes, ?_, congrArg (· + 1) hlength,
      by rwa [List.append_assoc] at htells⟩
    rw [replayCalls, List.map_cons, OrderBook.respondAll, OrderBook.respond]
    dsimp only at hop
    rw [hop]
    show (b₁.respondAll π (replayCalls policy ops) >>= _) = _
    rw [hrest]
    rfl

/-- A replay stays with the book it represents, and can only overflow. -/
theorem replayCounting_spec (h : Represents π b a) (policy : ReplayPolicy) (s : ReplayCounts)
    (ops : List BookOp) :
    Returns (fun e => e = .overflow ∧ π = .dev)
      (OrderBook.replayCounting π policy (b, s) ops) fun r => ∃ a', Represents π r.1 a' := by
  induction ops generalizing b a s with
  | nil => exact ⟨a, h⟩
  | cons op ops ih =>
    rw [replayCounting_cons]
    refine ((applyOpWithPolicy_spec h op policy).mono (fun e he => ⟨he.1, he.2.1⟩)
      fun _ hr => hr).bind ?_
    rintro ⟨outcome, b₁⟩ ⟨-, hb₁⟩
    exact ih hb₁ _

/-! ### The program -/

theorem mapError_eq_ok_iff {ε ε' α : Type} {f : ε → ε'} {v : Except ε α} {x : α} :
    v.mapError f = .ok x ↔ v = .ok x := by
  cases v <;> simp [Except.mapError]

theorem replayed_eq_ok_iff {α : Type} {v : Except Fault α} {x : α} :
    replayed v = .ok x ↔ v = .ok x := mapError_eq_ok_iff

/-- The book after the snapshot. -/
theorem openBook_eq_ok_iff {snapshot : List Order} :
    openBook π snapshot = .ok b ↔ OrderBook.new.applySnapshot π snapshot = .ok (.ok (), b) := by
  rw [openBook, OrderBook.withCapacity]
  cases OrderBook.new.applySnapshot π snapshot with
  | error e => simp [replayed, Except.mapError, bind, Except.bind]
  | ok r =>
    obtain ⟨r, b₁⟩ := r
    cases r <;> simp [replayed, Except.mapError, bind, Except.bind, pure, Except.pure]

theorem represents_of_openBook {snapshot : List Order} (h : openBook π snapshot = .ok b) :
    ∃ a, Represents π b a :=
  ⟨_, ((applySnapshot_spec (represents_new π) snapshot).of_eq_ok (openBook_eq_ok_iff.mp h)).2⟩

/-- **The program**, for captures that it replays. -/
theorem replayCapture_eq_ok_iff {parseJson : String → Except String Json} {strict : Option String}
    {lines : List String} {report : ReplayReport} :
    replayCapture parseJson π strict lines = .ok (report, b) ↔
      ∃ cap first counts, loadCapture parseJson .btcDefault lines = .ok cap ∧
        openBook π cap.snapshot = .ok first ∧
        OrderBook.replayCounting π (replayPolicy strict) (first, .start) cap.updates.flatten =
          .ok (b, counts) ∧
        report = .of cap first counts b := by
  constructor
  · intro h
    obtain ⟨cap, hload, h⟩ := bind_eq_ok_iff.mp h
    obtain ⟨first, hfirst, h⟩ := bind_eq_ok_iff.mp h
    obtain ⟨-, -, h⟩ := bind_eq_ok_iff.mp h
    obtain ⟨⟨book, counts⟩, hrun, h⟩ := bind_eq_ok_iff.mp h
    obtain ⟨-, -, h⟩ := bind_eq_ok_iff.mp h
    obtain ⟨rfl, rfl⟩ := Prod.mk.inj (Except.ok.inj h)
    rw [replayed_eq_ok_iff, foldlM_replayCounting] at hrun
    exact ⟨cap, first, counts, mapError_eq_ok_iff.mp hload, hfirst, hrun, rfl⟩
  · rintro ⟨cap, first, counts, hload, hfirst, hrun, rfl⟩
    obtain ⟨a, ha⟩ := represents_of_openBook hfirst
    obtain ⟨a', ha'⟩ := (replayCounting_spec ha _ _ _).of_eq_ok hrun
    rw [replayCapture, mapError_eq_ok_iff.mpr hload, ok_bind, hfirst, ok_bind,
      debugAssertInvariants_spec ha, foldlM_replayCounting, hrun]
    show (replayed (b.debugAssertInvariants π) >>= _) = _
    rw [debugAssertInvariants_spec ha']
    rfl

/-- **What a report says**: it is about the capture that was loaded, every operation of which is
counted once, by what became of it when it was applied in its turn. -/
theorem replayReport_accounts {parseJson : String → Except String Json} {strict : Option String}
    {lines : List String} {report : ReplayReport}
    (h : replayCapture parseJson π strict lines = .ok (report, b)) :
    loadCapture parseJson .btcDefault lines = .ok report.capture ∧
    ∃ first outcomes,
      OrderBook.new.applySnapshot π report.capture.snapshot = .ok (.ok (), first) ∧
      first.respondAll π (replayCalls (replayPolicy strict) report.capture.updates.flatten) =
        .ok (outcomes.map CallReply.replayed, b) ∧
      report.counts.Tells outcomes ∧
      report.counts.applied + report.counts.skipped + report.counts.coerced +
        report.counts.errors = report.capture.stats.totalOps := by
  obtain ⟨cap, first, counts, hload, hfirst, hrun, rfl⟩ := replayCapture_eq_ok_iff.mp h
  obtain ⟨outcomes, hcalls, hlength, htells⟩ :=
    replayCounting_tells ReplayCounts.tells_start hrun
  refine ⟨hload, first, outcomes, openBook_eq_ok_iff.mp hfirst, hcalls, htells, ?_⟩
  show counts.applied + counts.skipped + counts.coerced + counts.errors = cap.stats.totalOps
  rw [htells.total, (totalOps_eq hload).1, List.nil_append, hlength]

/-- A snapshot and twice the same update. -/
def sampleCaptureLines : List String := [snapshotLine "1", updatesLine, updatesLine]

/-- What is loaded from these lines. -/
def sampleCapture : Capture :=
  ⟨[snapshotBid 1], [[.add openedOrder], [.add openedOrder]], ⟨3, 2, 2, 2, 0, 0, 0, 0, 0, 0⟩⟩

theorem loadCapture_sample :
    loadCapture parseSample .btcDefault sampleCaptureLines = .ok sampleCapture := by
  decide +kernel

/-- The second update is skipped. -/
def sampleCounts : ReplayCounts where
  applied := 1
  skipped := 1
  coerced := 0
  errors := 0
  samples := [.skipped (.add openedOrder) (.duplicateAdd 7)]

theorem exists_replayCapture_sample : ∃ first book,
    replayCapture parseSample .dev none sampleCaptureLines =
      .ok (.of sampleCapture first sampleCounts book, book) :=
  ⟨_, _, replayCapture_eq_ok_iff.mpr
    ⟨sampleCapture, _, sampleCounts, loadCapture_sample, by rfl, by rfl, rfl⟩⟩

/-- The sample capture under the tolerant policy. -/
theorem replayReport_accounts_sample : ∃ report book outcomes,
    replayCapture parseSample .dev none sampleCaptureLines = .ok (report, book) ∧
      report.counts.Tells outcomes ∧ outcomes.length = 2 ∧
      report.counts.samples = [.skipped (.add openedOrder) (.duplicateAdd 7)] := by
  obtain ⟨first, book, h⟩ := exists_replayCapture_sample
  obtain ⟨-, -, outcomes, -, -, htells, htotal⟩ := replayReport_accounts h
  exact ⟨_, book, outcomes, h, htells, htells.total.symm.trans htotal, rfl⟩

/-- A snapshot that is refused holds an empty order or an id twice. -/
theorem refused_of_applySnapshot {snapshot : List Order} {e : BookError}
    (h : b.applySnapshot π snapshot = .ok (.error e, b')) :
    (∃ o ∈ snapshot, o.qty = 0) ∨ ¬ (snapshot.map Order.id).Nodup := by
  by_contra hnot
  rw [not_or, not_exists, not_not] at hnot
  have hfresh := AbstractBook.fresh_empty (fun o ho hq => hnot.1 o ⟨ho, hq⟩) hnot.2
  have hqueue : ∀ k, AbstractBook.atPlace snapshot k =
      (AbstractBook.addAll KeyedQueues.empty snapshot).2.queue k := by
    intro k
    rw [(AbstractBook.addAll_of_fresh hfresh).2, KeyedQueues.queue_empty, List.nil_append]
  cases ((applySnapshot_fresh b hfresh hqueue).of_eq_ok h).1

/-- **What can stop the program**: a line that does not decode, a snapshot that no book accepts, or
an overflow where overflow is checked. Its assertions never fail. -/
theorem replayCapture_stops {parseJson : String → Except String Json} {strict : Option String}
    {lines : List String} {fault : ReplayFault}
    (h : replayCapture parseJson π strict lines = .error fault) :
    (∃ e, fault = .loadCapture e ∧ loadCapture parseJson .btcDefault lines = .error e) ∨
    (∃ e cap, fault = .snapshot e ∧ loadCapture parseJson .btcDefault lines = .ok cap ∧
      ((∃ o ∈ cap.snapshot, o.qty = 0) ∨ ¬ (cap.snapshot.map Order.id).Nodup)) ∨
    (fault = .book .overflow ∧ π = .dev) := by
  rw [replayCapture] at h
  cases hload : loadCapture parseJson .btcDefault lines with
  | error e =>
    rw [hload] at h
    obtain rfl := Except.error.inj h
    exact Or.inl ⟨e, rfl, rfl⟩
  | ok cap =>
    rw [hload] at h
    change (openBook π cap.snapshot >>= _) = _ at h
    right
    cases hopen : OrderBook.new.applySnapshot π cap.snapshot with
    | error f =>
      have hf := (applySnapshot_spec (represents_new π) cap.snapshot).of_eq_error hopen
      rw [openBook, OrderBook.withCapacity, hopen] at h
      obtain rfl := Except.error.inj h
      exact Or.inr ⟨congrArg _ hf.1, hf.2.1⟩
    | ok r =>
      obtain ⟨e | u, first⟩ := r
      · rw [openBook, OrderBook.withCapacity, hopen] at h
        obtain rfl := Except.error.inj h
        exact Or.inl ⟨e, cap, rfl, rfl, refused_of_applySnapshot hopen⟩
      · have hfirst := openBook_eq_ok_iff.mpr hopen
        obtain ⟨a, ha⟩ := represents_of_openBook hfirst
        rw [hfirst, ok_bind, debugAssertInvariants_spec ha] at h
        change (replayed (List.foldlM _ _ _) >>= _) = _ at h
        rw [foldlM_replayCounting] at h
        have hspec := replayCounting_spec ha (replayPolicy strict) .start cap.updates.flatten
        cases hrun : OrderBook.replayCounting π (replayPolicy strict) (first, .start)
            cap.updates.flatten with
        | error f =>
          rw [hrun] at h
          obtain rfl := Except.error.inj h
          have hf := hspec.of_eq_error hrun
          exact Or.inr ⟨congrArg _ hf.1, hf.2⟩
        | ok r =>
          obtain ⟨a', ha'⟩ := hspec.of_eq_ok hrun
          rw [hrun] at h
          change (replayed (r.1.debugAssertInvariants π) >>= _) = _ at h
          rw [debugAssertInvariants_spec ha'] at h
          cases h

/-- A capture with the same snapshot twice. -/
theorem replayCapture_stops_sample : ∃ e,
    replayCapture parseSample .dev none [snapshotLine "1", snapshotLine "1"] =
      .error (.snapshot e) ∧
    ∃ cap, loadCapture parseSample .btcDefault [snapshotLine "1", snapshotLine "1"] = .ok cap ∧
      ((∃ o ∈ cap.snapshot, o.qty = 0) ∨ ¬ (cap.snapshot.map Order.id).Nodup) := by
  have hload : loadCapture parseSample .btcDefault [snapshotLine "1", snapshotLine "1"] =
      .ok ⟨[snapshotBid 1, snapshotBid 1], [], ⟨2, 0, 0, 0, 0, 0, 0, 0, 0, 0⟩⟩ := by
    decide +kernel
  have h : replayCapture parseSample .dev none [snapshotLine "1", snapshotLine "1"] =
      .error (.snapshot (.duplicateOrderId 1)) := by
    rw [replayCapture, hload]
    rfl
  refine ⟨_, h, ?_⟩
  rcases replayCapture_stops h with ⟨_, hfault, -⟩ | ⟨_, cap, -, hcap, hrefused⟩ | ⟨hfault, -⟩
  · cases hfault
  · exact ⟨cap, hcap, hrefused⟩
  · cases hfault

end L4Book
