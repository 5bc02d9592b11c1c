import L4Book.Results.Policies
import L4Book.Results.ReplayReports

/-!
# Strict, tolerant and benchmarked replays

The two replay policies part only where the tolerant one coerces an update. As long as it does not,
the strict replay of the same capture has the same book all along, and an error for everything that
is skipped; so a capture is replayed without anomalies under both policies or under neither. The
benchmark does not look at the replies of the book: what it measures is the strict replay.

## Main results

* `policies_part_byCoercion`
* `bench_replaysStrictly`
-/

namespace L4Book

open ReplayCounts

variable {π : Profile} {b b' : OrderBook} {a : AbstractBook} {s s' t t' : ReplayCounts}
  {op : BookOp} {outcome : ReplayApplyOutcome} {ops : List BookOp}
  {parseJson : String → Except String Json} {lines : List String} {v v' : Option String}

/-! ### One operation -/

/-- An operation that `apply_op` refuses is an error under the strict policy. -/
theorem strict_of_refused (h : Represents π b a) {e : BookError}
    (hop : b.applyOp π op = .ok (.error e, b)) :
    ∃ e', b.applyOpWithPolicy π op .strict = .ok (.error op e', b) := by
  by_cases hdup : EmptyDuplicate b op
  · obtain ⟨order, rfl, hq, hl⟩ := hdup
    exact ⟨_, (applyOp_emptyDuplicate π hq hl).2⟩
  · refine ⟨e, ?_⟩
    rw [applyOpWithPolicy_strict h hdup, OrderBook.applyStrictly, hop]
    rfl

/-- An outcome that reports a refusal comes with the same book. -/
theorem eq_of_refuses {policy : ReplayPolicy} (h : Represents π b a)
    (hr : b.applyOpWithPolicy π op policy = .ok (outcome, b')) (hrefuses : outcome.Refuses) :
    b' = b := by
  obtain ⟨rfl, -⟩ := (applyOpWithPolicy_spec h op policy).of_eq_ok hr
  have hsame := applyOpWithPolicy_of_refuses h hrefuses
  exact (Prod.mk.inj (Except.ok.inj (hr.symm.trans hsame))).2

/-- **The strict policy beside the tolerant one.** -/
theorem strict_of_tolerant (h : Represents π b a)
    (ht : b.applyOpWithPolicy π op .dwellirTolerant = .ok (outcome, b')) :
    (outcome = .applied op ∧ b.applyOpWithPolicy π op .strict = .ok (.applied op, b')) ∨
    ∃ e, b.applyOpWithPolicy π op .strict = .ok (.error op e, b) ∧
      (isCoerced outcome = true ∨
        b' = b ∧ (isSkipped outcome = true ∨ isError outcome = true)) := by
  have hother : ∀ e, b.applyOp π op = .ok (.error e, b) →
      isCoerced outcome = true ∨ b' = b ∧ (isSkipped outcome = true ∨ isError outcome = true) := by
    intro e he
    cases outcome with
    | applied op' =>
      have hop := applyOp_of_applied h ht
      rw [he] at hop
      cases hop
    | skipped op' reason => exact Or.inr ⟨eq_of_refuses h ht trivial, Or.inl rfl⟩
    | coerced original applied reason => exact Or.inl rfl
    | error op' error => exact Or.inr ⟨eq_of_refuses h ht trivial, Or.inr rfl⟩
  have hrefused : ∀ e, b.applyOp π op = .ok (.error e, b) →
      ∃ e, b.applyOpWithPolicy π op .strict = .ok (.error op e, b) ∧
        (isCoerced outcome = true ∨
          b' = b ∧ (isSkipped outcome = true ∨ isError outcome = true)) := by
    intro e he
    obtain ⟨e', hstrict⟩ := strict_of_refused h he
    exact ⟨e', hstrict, hother e he⟩
  rcases applyOpWithPolicy_eq h op .dwellirTolerant with heq | ⟨e, he⟩
  · have hstrictly := ht
    rw [heq] at hstrictly
    rcases applyStrictly_cases hstrictly with ⟨rfl, hop⟩ | ⟨e, rfl, hop⟩
    · exact Or.inl ⟨rfl, (tolerates h).applied op .strict b' hop⟩
    · obtain rfl := eq_of_refuses h ht trivial
      exact Or.inr (hrefused e hop)
  · exact Or.inr (hrefused e he)

/-- What the strict policy applies, the tolerant one applies; it never skips or coerces. -/
theorem tolerant_of_strict (h : Represents π b a)
    (hs : b.applyOpWithPolicy π op .strict = .ok (outcome, b')) :
    (outcome = .applied op ∧
      b.applyOpWithPolicy π op .dwellirTolerant = .ok (.applied op, b')) ∨
    ∃ e, outcome = .error op e := by
  by_cases hdup : EmptyDuplicate b op
  · obtain ⟨order, rfl, hq, hl⟩ := hdup
    rw [(applyOp_emptyDuplicate π hq hl).2] at hs
    obtain ⟨rfl, -⟩ := Prod.mk.inj (Except.ok.inj hs)
    exact Or.inr ⟨_, rfl⟩
  · rw [applyOpWithPolicy_strict h hdup] at hs
    rcases applyStrictly_cases hs with ⟨rfl, hop⟩ | ⟨e, rfl, -⟩
    · exact Or.inl ⟨rfl, (tolerates h).applied op .dwellirTolerant b' hop⟩
    · exact Or.inr ⟨e, rfl⟩

/-- The strict policy does to the book what `apply_op` does. -/
theorem snd_applyOpWithPolicy_strict (h : Represents π b a) (op : BookOp) :
    Prod.snd <$> b.applyOpWithPolicy π op .strict = Prod.snd <$> b.applyOp π op := by
  by_cases hdup : EmptyDuplicate b op
  · obtain ⟨order, rfl, hq, hl⟩ := hdup
    obtain ⟨hadd, hpolicy⟩ := applyOp_emptyDuplicate π hq hl
    rw [hadd, hpolicy]
    rfl
  · rw [applyOpWithPolicy_strict h hdup, OrderBook.applyStrictly]
    cases b.applyOp π op with
    | error f => rfl
    | ok r =>
      obtain ⟨r, b₁⟩ := r
      cases r <;> rfl

/-! ### Whole replays -/

/-- Counters never fall. -/
theorem le_of_replayCounting {policy : ReplayPolicy}
    (h : OrderBook.replayCounting π policy (b, s) ops = .ok (b', s')) :
    s.skipped ≤ s'.skipped ∧ s.coerced ≤ s'.coerced ∧ s.errors ≤ s'.errors := by
  induction ops generalizing b s with
  | nil =>
    obtain ⟨rfl, rfl⟩ := Prod.mk.inj (Except.ok.inj h)
    exact ⟨le_rfl, le_rfl, le_rfl⟩
  | cons op ops ih =>
    rw [replayCounting_cons] at h
    obtain ⟨⟨outcome, b₁⟩, -, h⟩ := bind_eq_ok_iff.mp h
    obtain ⟨hskipped, hcoerced, herrors⟩ := ih h
    simp only [visit_skipped, visit_coerced, visit_errors] at hskipped hcoerced herrors
    omega

/-- **A tolerant replay that coerces nothing** has the strict one beside it: the same book, and an
error for all that is skipped. -/
theorem strictReplay_of_tolerant (h : Represents π b a)
    (ht : OrderBook.replayCounting π .dwellirTolerant (b, s) ops = .ok (b', s'))
    (hnone : s'.coerced = s.coerced) (t : ReplayCounts) :
    ∃ t', OrderBook.replayCounting π .strict (b, t) ops = .ok (b', t') ∧
      t'.applied + s.applied = t.applied + s'.applied ∧
      t'.errors + s.skipped + s.errors = t.errors + s'.skipped + s'.errors := by
  induction ops generalizing b a s t with
  | nil =>
    obtain ⟨rfl, rfl⟩ := Prod.mk.inj (Except.ok.inj ht)
    exact ⟨t, rfl, rfl, rfl⟩
  | cons op ops ih =>
    rw [replayCounting_cons] at ht
    obtain ⟨⟨outcome, b₁⟩, hop, htail⟩ := bind_eq_ok_iff.mp ht
    dsimp only at hop htail
    have hb₁ := ((applyOpWithPolicy_spec h op _).of_eq_ok hop).2
    have hle := (le_of_replayCounting htail).2.1
    rw [visit_coerced, hnone] at hle
    have hzero : [outcome].countP isCoerced = 0 := by omega
    have hnone₁ : s'.coerced = (s.visit outcome).coerced := by
      rw [visit_coerced, hzero, hnone, Nat.add_zero]
    rcases strict_of_tolerant h hop with ⟨rfl, hstrict⟩ | ⟨e, hstrict, hcoerced | ⟨rfl, hcase⟩⟩
    · obtain ⟨t', hrest, happlied, herrors⟩ := ih hb₁ htail hnone₁ (t.visit (.applied op))
      simp only [visit_applied, visit_skipped, visit_errors] at happlied herrors
      refine ⟨t', ?_, by omega, ?_⟩
      · rw [replayCounting_cons, hstrict]
        exact hrest
      · have hskipped : [ReplayApplyOutcome.applied op].countP isSkipped = 0 := rfl
        have herror : [ReplayApplyOutcome.applied op].countP isError = 0 := rfl
        omega
    · rw [List.countP_singleton, hcoerced] at hzero
      cases hzero
    · obtain ⟨t', hrest, happlied, herrors⟩ := ih hb₁ htail hnone₁ (t.visit (.error op e))
      simp only [visit_applied, visit_skipped, visit_errors] at happlied herrors
      have hone : [ReplayApplyOutcome.error op e].countP isError = 1 := rfl
      have hnot : [ReplayApplyOutcome.error op e].countP isApplied = 0 := rfl
      -- what is not applied was skipped or is an error, and not both
      have hcount : [outcome].countP isApplied = 0 ∧
          [outcome].countP isSkipped + [outcome].countP isError = 1 := by
        cases outcome with
        | skipped op' reason => exact ⟨rfl, rfl⟩
        | error op' error => exact ⟨rfl, rfl⟩
        | applied op' => rcases hcase with hcase | hcase <;> cases hcase
        | coerced original applied reason => rcases hcase with hcase | hcase <;> cases hcase
      refine ⟨t', ?_, by omega, by omega⟩
      rw [replayCounting_cons, hstrict]
      exact hrest

/-- **A strict replay without errors** has the tolerant one beside it, without anomalies. -/
theorem tolerantReplay_of_strict (h : Represents π b a)
    (hs : OrderBook.replayCounting π .strict (b, t) ops = .ok (b', t'))
    (hnone : t'.errors = t.errors) (s : ReplayCounts) :
    ∃ s', OrderBook.replayCounting π .dwellirTolerant (b, s) ops = .ok (b', s') ∧
      s'.applied = s.applied + ops.length := by
  induction ops generalizing b a s t with
  | nil =>
    obtain ⟨rfl, rfl⟩ := Prod.mk.inj (Except.ok.inj hs)
    exact ⟨s, rfl, rfl⟩
  | cons op ops ih =>
    rw [replayCounting_cons] at hs
    obtain ⟨⟨outcome, b₁⟩, hop, hs⟩ := bind_eq_ok_iff.mp hs
    dsimp only at hop hs
    have hb₁ := ((applyOpWithPolicy_spec h op _).of_eq_ok hop).2
    have hle := (le_of_replayCounting hs).2.2
    rw [visit_errors, hnone] at hle
    rcases tolerant_of_strict h hop with ⟨rfl, htolerant⟩ | ⟨e, rfl⟩
    · have hnone₁ : t'.errors = (t.visit (.applied op)).errors := by
        rw [visit_errors, hnone]
        rfl
      obtain ⟨s', hrest, happlied⟩ := ih hb₁ hs hnone₁ (s.visit (.applied op))
      refine ⟨s', ?_, ?_⟩
      · rw [replayCounting_cons, htolerant]
        exact hrest
      · have hone : [ReplayApplyOutcome.applied op].countP isApplied = 1 := rfl
        rw [happlied, visit_applied, hone, List.length_cons]
        omega
    · have hone : [ReplayApplyOutcome.error op e].countP isError = 1 := rfl
      omega

/-- The benchmark's loop is the strict replay. -/
theorem foldlM_benchApplyOps (h : Represents π b a) (updates : List (List BookOp))
    (s : ReplayCounts) :
    updates.foldlM (OrderBook.benchApplyOps π) b =
      Prod.fst <$> OrderBook.replayCounting π .strict (b, s) updates.flatten := by
  have hops : ∀ (ops : List BookOp) {b : OrderBook} {a : AbstractBook} (s : ReplayCounts),
      Represents π b a → b.benchApplyOps π ops =
        Prod.fst <$> OrderBook.replayCounting π .strict (b, s) ops := by
    intro ops
    induction ops with
    | nil => exact fun _ _ => rfl
    | cons op ops ih =>
      intro b a s h
      have hsnd := snd_applyOpWithPolicy_strict h op
      rw [replayCounting_cons, OrderBook.benchApplyOps, List.foldlM_cons, ← hsnd]
      cases hop : b.applyOpWithPolicy π op .strict with
      | error f => rfl
      | ok r => exact ih _ ((applyOpWithPolicy_spec h op _).of_eq_ok hop).2
  have hflat : ∀ (updates : List (List BookOp)) (b : OrderBook),
      updates.foldlM (OrderBook.benchApplyOps π) b = b.benchApplyOps π updates.flatten := by
    intro updates
    induction updates with
    | nil => exact fun _ => rfl
    | cons ops updates ih =>
      intro b
      rw [List.foldlM_cons, List.flatten_cons, OrderBook.benchApplyOps, OrderBook.benchApplyOps,
        List.foldlM_append]
      exact bind_congr fun b => ih b
  rw [hflat]
  exact hops _ s h

/-! ### The programs -/

theorem replayPolicy_of_strict (hv : asksForStrict v = true) : replayPolicy v = .strict :=
  if_pos hv

theorem replayPolicy_of_tolerant (hv : asksForStrict v = false) :
    replayPolicy v = .dwellirTolerant := if_neg (ne_true_of_eq_false hv)

/-- **The policies part only by coercion.** Where the tolerant replay of a capture coerces nothing,
the strict replay ends in the same book, applies as much and reports an error for everything that
was skipped. So one replay is free of anomalies exactly if the other is. -/
theorem policies_part_byCoercion (hv : asksForStrict v = false) (hv' : asksForStrict v' = true)
    {report : ReplayReport} (h : replayCapture parseJson π v lines = .ok (report, b)) :
    (report.counts.coerced = 0 → ∃ report', replayCapture parseJson π v' lines = .ok (report', b) ∧
      report'.counts.applied = report.counts.applied ∧
      report'.counts.errors = report.counts.skipped + report.counts.errors) ∧
    (report.counts.applied = report.capture.stats.totalOps ↔
      ∃ report' b', replayCapture parseJson π v' lines = .ok (report', b') ∧
        report'.counts.errors = 0) := by
  obtain ⟨cap, first, counts, hload, hfirst, hrun, rfl⟩ := replayCapture_eq_ok_iff.mp h
  obtain ⟨a, ha⟩ := represents_of_openBook hfirst
  rw [replayPolicy_of_tolerant hv] at hrun
  have hstrict : counts.coerced = 0 → ∃ report',
      replayCapture parseJson π v' lines = .ok (report', b) ∧
      report'.counts.applied = counts.applied ∧
      report'.counts.errors = counts.skipped + counts.errors := by
    intro hnone
    obtain ⟨t, hrun', happlied, herrors⟩ := strictReplay_of_tolerant ha hrun hnone .start
    refine ⟨.of cap first t b, replayCapture_eq_ok_iff.mpr ⟨cap, first, t, hload, hfirst, ?_, rfl⟩,
      ?_, ?_⟩
    · rw [replayPolicy_of_strict hv']
      exact hrun'
    · exact happlied.trans (Nat.zero_add _)
    · show t.errors = counts.skipped + counts.errors
      have hzero : ReplayCounts.start.skipped = 0 ∧ ReplayCounts.start.errors = 0 := ⟨rfl, rfl⟩
      omega
  refine ⟨hstrict, ?_⟩
  obtain ⟨outcomes, -, hlength, htells⟩ := replayCounting_tells ReplayCounts.tells_start hrun
  have htotal : counts.applied + counts.skipped + counts.coerced + counts.errors =
      cap.stats.totalOps := by
    rw [htells.total, (totalOps_eq hload).1, List.nil_append, hlength]
  constructor
  · intro happlied
    have happlied : counts.applied = cap.stats.totalOps := happlied
    obtain ⟨report', hreport, -, herrors⟩ := hstrict (by omega)
    exact ⟨report', b, hreport, by omega⟩
  · rintro ⟨report', b', hreport, herrors⟩
    obtain ⟨cap', first', t, hload', hfirst', hrun', rfl⟩ := replayCapture_eq_ok_iff.mp hreport
    obtain rfl := Except.ok.inj (hload.symm.trans hload')
    obtain rfl := Except.ok.inj (hfirst.symm.trans hfirst')
    rw [replayPolicy_of_strict hv'] at hrun'
    obtain ⟨s, hsame, happlied⟩ := tolerantReplay_of_strict ha hrun' herrors .start
    obtain ⟨-, rfl⟩ := Prod.mk.inj (Except.ok.inj (hrun.symm.trans hsame))
    show counts.applied = cap.stats.totalOps
    rw [happlied, (totalOps_eq hload).1]
    exact Nat.zero_add _

/-- The sample capture: what the tolerant replay skips is an error of the strict one. -/
theorem policies_part_byCoercion_sample : ∃ report b report',
    replayCapture parseSample .dev none sampleCaptureLines = .ok (report, b) ∧
      replayCapture parseSample .dev (some "yes") sampleCaptureLines = .ok (report', b) ∧
      report'.counts.applied = 1 ∧ report'.counts.errors = 1 := by
  obtain ⟨first, b, h⟩ := exists_replayCapture_sample
  obtain ⟨report', h', happlied, herrors⟩ :=
    (policies_part_byCoercion rfl (show asksForStrict (some "yes") = true by decide) h).1 rfl
  exact ⟨_, b, report', h, h', happlied, herrors⟩

/-- **The benchmark measures the strict replay**: a measurement of the whole stream ends like the
strict replay program, panics included, and a measurement of the update in the middle ends with the
book that the stream up to it leaves. -/
theorem bench_replaysStrictly (hv : asksForStrict v = true) {cap : Capture}
    (hload : loadCapture parseJson .btcDefault lines = .ok cap) :
    benchStreamReplay π cap = Prod.snd <$> replayCapture parseJson π v lines ∧
    (cap.updates ≠ [] → benchPerUpdate π cap =
      warmBook π cap.snapshot (cap.updates.take (cap.updates.length / 2 + 1))) := by
  constructor
  · rw [benchStreamReplay, replayCapture, mapError_eq_ok_iff.mpr hload, ok_bind]
    cases hfirst : openBook π cap.snapshot with
    | error f => rfl
    | ok first =>
      obtain ⟨a, ha⟩ := represents_of_openBook hfirst
      rw [ok_bind, ok_bind, debugAssertInvariants_spec ha, foldlM_benchApplyOps ha _ .start,
        foldlM_replayCounting, replayPolicy_of_strict hv]
      have hspec := replayCounting_spec ha .strict .start cap.updates.flatten
      cases hrun : OrderBook.replayCounting π .strict (first, .start) cap.updates.flatten with
      | error f => rfl
      | ok r =>
        obtain ⟨a', ha'⟩ := hspec.of_eq_ok hrun
        show Except.ok r.1 =
          Prod.snd <$> (replayed (r.1.debugAssertInvariants π) >>= fun _ => Except.ok _)
        rw [debugAssertInvariants_spec ha']
        rfl
  · intro hne
    have hmid : cap.updates.length / 2 < cap.updates.length :=
      Nat.div_lt_self (List.length_pos_of_ne_nil hne) (by decide)
    rw [benchPerUpdate, List.getElem?_eq_getElem hmid, List.take_add_one,
      List.getElem?_eq_getElem hmid, warmBook, warmBook]
    cases openBook π cap.snapshot with
    | error f => rfl
    | ok first =>
      change (replayed (List.foldlM _ first _) >>= _) = replayed (List.foldlM _ first (_ ++ _))
      rw [List.foldlM_append]
      cases (cap.updates.take (cap.updates.length / 2)).foldlM (OrderBook.benchApplyOps π)
        first with
      | error f => rfl
      | ok book =>
        show replayed (book.benchApplyOps π _) = replayed (book.benchApplyOps π _ >>= pure)
        rw [bind_pure]

/-- The sample capture has two updates, of which the second is measured. -/
theorem bench_replaysStrictly_sample :
    benchPerUpdate .release sampleCapture =
      warmBook .release sampleCapture.snapshot sampleCapture.updates ∧
    benchStreamReplay .release sampleCapture =
      Prod.snd <$> replayCapture parseSample .release (some "1") sampleCaptureLines := by
  obtain ⟨hstream, hmid⟩ := bench_replaysStrictly (π := .release)
    (show asksForStrict (some "1") = true by decide) loadCapture_sample
  exact ⟨hmid (by decide), hstream⟩

end L4Book
