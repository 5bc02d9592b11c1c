import L4Book.Refinement.DebugLog
import L4Book.Results.Captures

/-!
# The counters of the debug log

The errors in a debug log are numbered without gaps, and there are never more than ten of them; the
tenth ends the run, and so does the end of the connection, but nothing else does. The other counters
count records too: one for each operation that was applied, and one for each of the first updates.

## Main definitions

* `Counted`: the counters count the records

## Main results

* `debugLog_counts`
-/

namespace L4Book

variable {lib : Library} {π : Profile} {updatesToLog : ℕ} {s s' : DebugState}
  {r : Except String Message} {reads : List (Except String Message)}

/-- The record is of this event. -/
def IsEvent (event : String) (v : Json) : Prop := v.event = some event

instance (event : String) : DecidablePred (IsEvent event) := fun _ =>
  inferInstanceAs (Decidable (_ = _))

/-- How many records of an event there are. -/
def countEvents (event : String) (log : List Json) : ℕ := log.countP fun v => IsEvent event v

/-- The counters count the records. -/
structure Counted (updatesToLog : ℕ) (s : DebugState) : Prop where
  errors_le : s.errors ≤ errorLimit
  /-- The errors are numbered. -/
  numbered : s.log.filterMap Json.errorIndex = (List.range' 1 s.errors).map UInt64.ofNat
  applied : countEvents "applied_book_diff" s.log = s.opsApplied
  /-- The first updates are logged in full. -/
  inFull : countEvents "raw_update" s.log = min s.updateMessages updatesToLog

theorem countEvents_append (event : String) (l r : List Json) :
    countEvents event (l ++ r) = countEvents event l + countEvents event r :=
  List.countP_append

/-- Some records are written, of which at most one reports an error. -/
theorem Counted.append (h : Counted updatesToLog s) {vs : List Json} (hlog : s'.log = s.log ++ vs)
    (hle : s'.errors ≤ errorLimit)
    (hindex : (s'.errors = s.errors ∧ vs.filterMap Json.errorIndex = []) ∨
      (s'.errors = s.errors + 1 ∧ vs.filterMap Json.errorIndex = [UInt64.ofNat (s.errors + 1)]))
    (happlied : s'.opsApplied = s.opsApplied + countEvents "applied_book_diff" vs)
    (hfull : min s'.updateMessages updatesToLog =
      min s.updateMessages updatesToLog + countEvents "raw_update" vs) :
    Counted updatesToLog s' where
  errors_le := hle
  numbered := by
    rw [hlog, List.filterMap_append, h.numbered]
    rcases hindex with ⟨herrors, hvs⟩ | ⟨herrors, hvs⟩
    · rw [hvs, herrors, List.append_nil]
    · rw [hvs, herrors, List.range'_concat, List.map_append]
      simp [Nat.add_comm]
  applied := by rw [hlog, countEvents_append, h.applied, happlied]
  inFull := by rw [hlog, countEvents_append, h.inFull, hfull]

/-- **What every step keeps.** -/
theorem Counted.step (h : Counted updatesToLog s) (hstep : DebugStep π updatesToLog s s') :
    Counted updatesToLog s' := by
  have hle := h.errors_le
  cases hstep with
  | message => exact h.append (List.append_nil _).symm hle (Or.inl ⟨rfl, rfl⟩) rfl rfl
  | closed fields hfields =>
    exact h.append rfl hle (Or.inl ⟨rfl, by simp [errorIndex_record, hfields.1]⟩) rfl rfl
  | unreadable event fields hevent hfields hlt =>
    have hother : ∀ fields, countEvents "applied_book_diff" [record event fields] = 0 ∧
        countEvents "raw_update" [record event fields] = 0 := by
      simp only [List.mem_cons, List.not_mem_nil, or_false] at hevent
      rcases hevent with rfl | rfl | rfl <;> exact fun _ => ⟨rfl, rfl⟩
    exact h.append rfl hlt (Or.inr ⟨rfl, rfl⟩) (congrArg (s.opsApplied + ·) (hother _).1.symm)
      (congrArg (_ + ·) (hother _).2.symm)
  | snapshot text orders cause hlt hs' =>
    rw [DebugState.onSnapshot] at hs'
    obtain ⟨⟨r, book⟩, -, hs'⟩ := bind_eq_ok_iff.mp hs'
    rcases r with err | _
    · obtain rfl := Except.ok.inj hs'
      exact h.append (List.append_assoc ..) hlt (Or.inr ⟨rfl, rfl⟩) rfl rfl
    · obtain ⟨v, -, hs'⟩ := bind_eq_ok_iff.mp hs'
      obtain rfl := Except.ok.inj hs'
      exact h.append (List.append_assoc ..) hle (Or.inl ⟨rfl, rfl⟩) rfl rfl
  | update text batch hle' =>
    refine h.append (List.append_assoc ..) hle (Or.inl ⟨rfl, rfl⟩) rfl ?_
    show min (s.updateMessages + 1) updatesToLog = min s.updateMessages updatesToLog + 1
    omega
  | silentUpdate batch hlt =>
    refine h.append (List.append_nil _).symm hle (Or.inl ⟨rfl, rfl⟩) rfl ?_
    show min (s.updateMessages + 1) updatesToLog = min s.updateMessages updatesToLog
    omega
  | applied opIndex op book hop => exact h.append rfl hle (Or.inl ⟨rfl, rfl⟩) rfl rfl
  | refused text parsedUpdate opIndex op err book v hlt hop hv =>
    exact h.append ((List.append_assoc ..).trans (List.append_assoc ..)) hlt (Or.inr ⟨rfl, rfl⟩)
      rfl rfl
  | summary opResults v hv =>
    exact h.append ((List.append_assoc ..).trans (List.append_assoc ..)) hle (Or.inl ⟨rfl, rfl⟩)
      rfl rfl

theorem counted_start (updatesToLog : ℕ) : Counted updatesToLog (.start updatesToLog) where
  errors_le := Nat.zero_le _
  numbered := rfl
  applied := rfl
  inFull := (Nat.zero_min updatesToLog).symm

theorem Counted.steps (h : Counted updatesToLog s) (hsteps : DebugSteps π updatesToLog s s') :
    Counted updatesToLog s' := by
  induction hsteps with
  | refl => exact h
  | tail _ hstep ih => exact ih.step hstep

/-- The last record is written in every build. -/
theorem exists_logDone (s : DebugState) :
    ∃ bestBid bestAsk, s.logDone π = .ok (s.write (s.doneRecord bestBid bestAsk)) := by
  have hprice : ∀ price, jsonPriceOpt π .sp500 price = .ok (shownPrice .sp500 price) :=
    jsonPriceOpt_spec Scales.showable_sp500
  refine ⟨shownPrice .sp500 s.book.bestBid, shownPrice .sp500 s.book.bestAsk, ?_⟩
  rw [DebugState.logDone, hprice, hprice]
  rfl

/-- **The counters of a debug log count its records.** In every run the errors are numbered from
one on and there are at most ten; there is a record for each operation applied, and for each of the
first updates. The loop is left at the tenth error or when the connection ends, and then nothing
more is read; what is written last are the counters. -/
theorem debugLog_counts {left : Bool}
    (h : (DebugState.start updatesToLog).loop lib π updatesToLog reads = .ok (s, left)) :
    Counted updatesToLog s ∧
      (left = true ↔ s.errors = errorLimit ∨ ∃ r ∈ reads, EndsRun r) ∧
      (left = false → debugLog lib π updatesToLog reads = .ok s.log) ∧
      (left = true → ∃ bestBid bestAsk, ∀ more,
        debugLog lib π updatesToLog (reads ++ more) =
          .ok (s.log ++ [s.doneRecord bestBid bestAsk])) := by
  have hcounted := (counted_start updatesToLog).steps (run_steps h)
  refine ⟨hcounted, ?_, ?_, ?_⟩
  · rw [left_iff (errors_start updatesToLog) h]
    refine or_congr_left ⟨fun hle => Nat.le_antisymm hcounted.errors_le hle, fun heq => heq ▸ ?_⟩
    exact Nat.le_refl _
  · rintro rfl
    rw [debugLog, h]
    rfl
  · rintro rfl
    obtain ⟨bestBid, bestAsk, hdone⟩ := exists_logDone (π := π) s
    refine ⟨bestBid, bestAsk, fun more => ?_⟩
    rw [debugLog, loop_append_of_left h more, ok_bind]
    show DebugState.log <$> s.logDone π = _
    rw [hdone]
    rfl

/-! ### A sample run -/

/-- Libraries that know the sample lines. -/
def sampleLibrary : Library where
  parseJson := parseSample
  quoted s := "\"" ++ s ++ "\""
  utf8Error _ := "invalid utf-8 sequence of 1 bytes from index 0"

/-- A snapshot, an update that opens an order, the same again, and an empty text. -/
def sampleReads : List (Except String Message) :=
  [.ok (.text (snapshotLine "1")), .ok .ping, .ok (.text updatesLine), .ok (.text updatesLine),
    .ok (.text "")]

/-- The state of the logger after these messages, of which the first update is logged in full. -/
def sampleState : DebugState :=
  match (DebugState.start 1).loop sampleLibrary .dev 1 sampleReads with
  | .ok (s, _) => s
  | .error _ => .start 1

set_option maxRecDepth 10000 in
theorem sampleState_eq :
    (DebugState.start 1).loop sampleLibrary .dev 1 sampleReads = .ok (sampleState, false) := rfl

/-- In the sample run an operation is refused and a text does not decode. -/
theorem debugLog_counts_sample : debugLog sampleLibrary .dev 1 sampleReads = .ok sampleState.log ∧
    sampleState.log.filterMap Json.errorIndex = [1, 2] ∧
    countEvents "applied_book_diff" sampleState.log = 1 ∧
    countEvents "raw_update" sampleState.log = 1 := by
  obtain ⟨hcounted, -, hlog, -⟩ := debugLog_counts sampleState_eq
  have herrors : sampleState.errors = 2 := by decide +kernel
  have happlied : sampleState.opsApplied = 1 := by decide +kernel
  have hupdates : sampleState.updateMessages = 2 := by decide +kernel
  refine ⟨hlog rfl, ?_, hcounted.applied.trans happlied, ?_⟩
  · rw [hcounted.numbered, herrors]
    rfl
  · rw [hcounted.inFull, hupdates]
    rfl

end L4Book
