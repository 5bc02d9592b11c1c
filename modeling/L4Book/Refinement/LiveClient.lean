import L4Book.LiveClient
import L4Book.Refinement.DebugLog

/-!
# The live client next to the debug logger

On the same messages the two clients do the same to their books, as long as the live client has not
returned an error and the debug logger has not reached its limit. The logger has more to do in a
round, and none of it can stop it.

## Main definitions

* `Alongside`: the two clients are at the same point

## Main results

* `catchUp_eq_ok`: what reporting changes
* `Alongside.step`: a round of the one is a message of the other
* `onRound_messages`, `not_done_of_yield`: what both clients read
-/

namespace L4Book

/-- The two clients are at the same point. -/
structure Alongside (l : LiveState) (s : DebugState) : Prop where
  book : l.book = s.book
  messages : l.messages = s.messages
  updates : l.updates = s.updateMessages
  applied : l.opsApplied = s.opsApplied
  errors : l.opErrors = s.errors

variable {lib : Library} {π : Profile} {updatesToLog : ℕ} {l l' : LiveState} {s s' : DebugState}
  {a : AbstractBook} {round : Round} {now reportAt reportAt' : ℕ}

/-- Reporting changes the reports only. -/
structure SameButReports (l l' : LiveState) : Prop where
  book : l'.book = l.book
  messages : l'.messages = l.messages
  updates : l'.updates = l.updates
  applied : l'.opsApplied = l.opsApplied
  errors : l'.opErrors = l.opErrors

theorem SameButReports.trans {l'' : LiveState} (h : SameButReports l l')
    (h' : SameButReports l' l'') : SameButReports l l'' :=
  ⟨h'.book.trans h.book, h'.messages.trans h.messages, h'.updates.trans h.updates,
    h'.applied.trans h.applied, h'.errors.trans h.errors⟩

/-- One report is made. -/
theorem logReport_eq_ok (h : l.logReport π = .ok l') : SameButReports l l' ∧
    l'.schedule = l.schedule ∧ l'.reports.length = l.reports.length + 1 := by
  rw [LiveState.logReport] at h
  obtain ⟨unaggregated, -, h⟩ := bind_eq_ok_iff.mp h
  obtain ⟨slippage, -, h⟩ := bind_eq_ok_iff.mp h
  obtain rfl := Except.ok.inj h
  exact ⟨⟨rfl, rfl, rfl, rfl, rfl⟩, rfl, List.length_append⟩

/-- **The reports that are due are made**, one for every period that has passed. -/
theorem catchUp_eq_ok (h : l.catchUp π now reportAt = .ok (l', reportAt')) : SameButReports l l' ∧
    l'.schedule = l.schedule ∧ now < reportAt' ∧ ∃ n,
      l'.reports.length = l.reports.length + n ∧ reportAt' = reportAt + n * reportEvery ∧
        (n ≠ 0 → reportAt' ≤ now + reportEvery) := by
  fun_induction LiveState.catchUp π now reportAt l with
  | case1 reportAt l hlt =>
    obtain ⟨rfl, rfl⟩ := Prod.mk.inj (Except.ok.inj h)
    exact ⟨⟨rfl, rfl, rfl, rfl, rfl⟩, rfl, hlt, 0, rfl, by omega, fun h => absurd rfl h⟩
  | case2 reportAt l hle ih =>
    obtain ⟨l₁, hreport, h⟩ := bind_eq_ok_iff.mp h
    obtain ⟨hsame, hschedule, hlen⟩ := logReport_eq_ok hreport
    obtain ⟨hsame', hschedule', hlt, n, hlen', hat, hle'⟩ := ih l₁ h
    refine ⟨hsame.trans hsame', hschedule'.trans hschedule, hlt, n + 1, by omega, ?_, fun _ => ?_⟩
    · rw [hat, Nat.succ_mul]
      omega
    · by_cases hn : n = 0
      · subst hn
        omega
      · exact hle' hn

/-! ### Side by side -/

theorem Alongside.reported (h : Alongside l s) (hsame : SameButReports l l') : Alongside l' s :=
  ⟨hsame.book.trans h.book, hsame.messages.trans h.messages, hsame.updates.trans h.updates,
    hsame.applied.trans h.applied, hsame.errors.trans h.errors⟩

theorem endRound_eq_ok {x : ForInStep LiveState} (h : l.endRound π now = .ok x) :
    SameButReports l (match x with | .done l => l | .yield l => l) := by
  rw [LiveState.endRound] at h
  split at h
  · obtain rfl := Except.ok.inj h
    exact ⟨rfl, rfl, rfl, rfl, rfl⟩
  · obtain ⟨⟨l₁, nextReport⟩, hcatch, h⟩ := bind_eq_ok_iff.mp h
    obtain ⟨hb, hm, hu, ha, he⟩ := (catchUp_eq_ok hcatch).1
    dsimp only at h
    split at h <;> obtain rfl := Except.ok.inj h <;> exact ⟨hb, hm, hu, ha, he⟩

/-- **The operations of an update**: the logger gets through them, alongside up to its limit. -/
theorem Alongside.applyOps {ops : List ReasonedBookOp} (h : Alongside l s)
    (hb : Represents π s.book a) (hl : l.applyOps π (ops.map ReasonedBookOp.op) = .ok l')
    (text : String) (parsedUpdate : Json) (opResults : List Json) (opIndex : ℕ) :
    ∃ s' opResults', s.applyOps π text parsedUpdate opResults opIndex ops = .ok (s', opResults') ∧
      (∃ a', Represents π s'.book a') ∧ (s'.errors < errorLimit → Alongside l' s') := by
  induction ops generalizing l s a opResults opIndex with
  | nil =>
    obtain rfl := Except.ok.inj hl
    exact ⟨s, opResults, rfl, ⟨a, hb⟩, fun _ => h⟩
  | cons op ops ih =>
    obtain ⟨hbook, hm, hu, ha, he⟩ := h
    rw [List.map_cons, LiveState.applyOps, List.foldlM_cons] at hl
    obtain ⟨l₁, hop, hl⟩ := bind_eq_ok_iff.mp hl
    obtain ⟨⟨r, book⟩, hop, hl₁⟩ := bind_eq_ok_iff.mp hop
    rw [hbook] at hop
    have hrep := ((applyOp_spec hb op.op).of_eq_ok hop).2
    rw [DebugState.applyOps, reported_eq_ok_iff.mpr hop, ok_bind]
    rcases r with err | _
    · obtain rfl := Except.ok.inj hl₁
      dsimp only
      rw [bookSnapshot_spec hrep Scales.showable_sp500, ok_bind]
      split
      · -- the logger has reached its limit
        next hlimit => exact ⟨_, _, rfl, ⟨_, hrep⟩, fun hlt => absurd hlt (Nat.not_lt.mpr hlimit)⟩
      · refine ih (l := { l with book := book, opErrors := l.opErrors + 1 }) ?_ hrep hl _ _
        exact ⟨rfl, hm, hu, ha, congrArg (· + 1) he⟩
    · obtain rfl := Except.ok.inj hl₁
      refine ih (l := { l with book := book, opsApplied := l.opsApplied + 1 }) ?_ hrep hl _ _
      exact ⟨rfl, hm, hu, congrArg (· + 1) ha, he⟩

theorem Alongside.updates_applied {batch : ReasonedUpdateBatch} (h : Alongside l s)
    (hrep : Represents π s.book a)
    (hl : ({ l with updates := l.updates + 1 }).applyOps π (batch.ops.map ReasonedBookOp.op) =
      .ok l') (updatesToLog : ℕ) (text : String) :
    ∃ s', s.onUpdates π updatesToLog text batch = .ok s' ∧
      (s'.errors < errorLimit → Alongside l' s') := by
  obtain ⟨hb, hm, hu, ha, he⟩ := h
  have hcount : ∀ log, Alongside { l with updates := l.updates + 1 }
      { s with
        updateMessages := s.updateMessages + 1
        collapsedCompleteFills := s.collapsedCompleteFills + batch.collapsedCompleteFills
        droppedDuplicateRemoves := s.droppedDuplicateRemoves + batch.droppedDuplicateRemoves
        log := log } := fun _ => ⟨hb, hm, congrArg (· + 1) hu, ha, he⟩
  rw [DebugState.onUpdates]
  dsimp only
  split
  · obtain ⟨s₁, opResults, hops, ⟨a', hrep'⟩, halong⟩ :=
      (hcount _).applyOps hrep hl text (opsToValue batch.ops) [] 0
    rw [DebugState.logRawUpdate]
    dsimp only [DebugState.logMarker, DebugState.write]
    rw [hops, ok_bind, bookSnapshot_spec hrep' Scales.showable_sp500, ok_bind]
    refine ⟨_, rfl, fun hlt => ?_⟩
    obtain ⟨hb', hm', hu', ha', he'⟩ := halong hlt
    exact ⟨hb', hm', hu', ha', he'⟩
  · obtain ⟨s₁, opResults, hops, -, halong⟩ :=
      (hcount _).applyOps hrep hl text (opsToValue batch.ops) [] 0
    rw [hops]
    exact ⟨s₁, rfl, halong⟩

theorem Alongside.decoded {d : DecodedWithMeta} {snapshotAt : ℕ} (h : Alongside l s)
    (hrep : Represents π s.book a)
    (hl : l.onDecoded π snapshotAt (stripDecoded d) = .ok (.ok l')) (updatesToLog : ℕ)
    (text : String) :
    ∃ s', s.onDecoded π updatesToLog text d = .ok s' ∧
      (s'.errors < errorLimit → Alongside l' s') := by
  cases d with
  | skip =>
    obtain rfl := Except.ok.inj (Except.ok.inj hl)
    exact ⟨s, rfl, fun _ => h⟩
  | snapshot orders cause =>
    obtain ⟨hb, hm, hu, ha, he⟩ := h
    obtain ⟨⟨r, book⟩, hop, hl⟩ := bind_eq_ok_iff.mp hl
    rw [hb] at hop
    have hrep' := ((applySnapshot_spec hrep orders).of_eq_ok hop).2
    rw [DebugState.onDecoded, DebugState.onSnapshot, reported_eq_ok_iff.mpr hop, ok_bind]
    rcases r with err | _
    · cases hl
    · obtain rfl := Except.ok.inj (Except.ok.inj hl)
      dsimp only [DebugState.logMarker, DebugState.write]
      rw [bookSnapshot_spec hrep' Scales.showable_sp500]
      exact ⟨_, rfl, fun _ => ⟨rfl, hm, hu, ha, he⟩⟩
  | updates batch =>
    have hl : (Except.ok <$> ({ l with updates := l.updates + 1 } : LiveState).applyOps π
      (stripUpdateBatch batch).ops : Except Fault (Except LiveError LiveState)) =
        .ok (.ok l') := hl
    cases hops : ({ l with updates := l.updates + 1 } : LiveState).applyOps π
        (stripUpdateBatch batch).ops with
    | error e =>
      rw [hops] at hl
      cases hl
    | ok l₁ =>
      rw [hops] at hl
      obtain rfl := Except.ok.inj (Except.ok.inj hl)
      exact h.updates_applied hrep hops updatesToLog text

/-- Where the live client goes on or stops. -/
def liveStateOf : ForInStep LiveState → LiveState
  | .done l => l
  | .yield l => l

/-- **A text**, which both clients decode. -/
theorem Alongside.text {text : String} {x : ForInStep LiveState} (h : Alongside l s)
    (hrep : Represents π s.book a) (hl : l.onText lib π round text = .ok (.ok x))
    (updatesToLog : ℕ) :
    ∃ y, s.onText lib π updatesToLog text = .ok y ∧
      ((stateOf y).errors < errorLimit → Alongside (liveStateOf x) (stateOf y)) := by
  rw [LiveState.onText, decodeLine] at hl
  rw [DebugState.onText]
  cases hd : decodeLineWithMeta lib.parseJson .sp500 text with
  | error e =>
    rw [hd] at hl
    cases hl
  | ok d =>
    rw [hd] at hl
    obtain ⟨r, hl₁, hl⟩ := bind_eq_ok_iff.mp hl
    cases r with
    | error e => cases hl
    | ok l₁ =>
      obtain ⟨s₁, hs₁, halong⟩ := h.decoded hrep hl₁ updatesToLog text
      refine ⟨s₁.unlessLimit, ?_, fun hlt => ?_⟩
      · dsimp only
        rw [hs₁]
        rfl
      rw [stateOf_unlessLimit] at hlt ⊢
      cases hend : l₁.endRound π round.now with
      | error e =>
        dsimp only at hl
        rw [hend] at hl
        cases hl
      | ok x' =>
        dsimp only at hl
        rw [hend] at hl
        obtain rfl := Except.ok.inj (Except.ok.inj hl)
        refine (halong hlt).reported ?_
        have hsame := endRound_eq_ok hend
        cases x' <;> exact hsame

/-- **A round of the one client is a message of the other.** -/
theorem Alongside.step {x : ForInStep LiveState} (h : Alongside l s)
    (hrep : Represents π s.book a) (hl : l.onRound lib π round = .ok (.ok x))
    (updatesToLog : ℕ) :
    ∃ y, s.onRead lib π updatesToLog round.read = .ok y ∧
      ((stateOf y).errors < errorLimit → Alongside (liveStateOf x) (stateOf y)) := by
  obtain ⟨hb, hm, hu, ha, he⟩ := h
  have hcount : Alongside { l with messages := l.messages + 1 }
      { s with messages := s.messages + 1 } := ⟨hb, congrArg (· + 1) hm, hu, ha, he⟩
  rw [LiveState.onRound] at hl
  cases hread : round.read with
  | error err =>
    rw [hread] at hl
    cases hl
  | ok msg =>
    rw [hread] at hl
    cases msg with
    | text text => exact hcount.text hrep hl updatesToLog
    | binary bytes =>
      rw [DebugState.onRead]
      dsimp only at hl ⊢
      cases hutf8 : String.fromUTF8? bytes with
      | none =>
        rw [hutf8] at hl
        cases hl
      | some text =>
        rw [hutf8] at hl
        exact hcount.text hrep hl updatesToLog
    | ping | pong | frame =>
      obtain rfl := Except.ok.inj (Except.ok.inj hl)
      exact ⟨_, rfl, fun _ => hcount⟩
    | close frame =>
      obtain rfl := Except.ok.inj (Except.ok.inj hl)
      exact ⟨_, rfl, fun _ => ⟨hb, congrArg (· + 1) hm, hu, ha, he⟩⟩

/-! ### Runs -/

theorem applyOps_messages {ops : List BookOp} (h : l.applyOps π ops = .ok l') :
    l'.messages = l.messages := by
  induction ops generalizing l with
  | nil =>
    obtain rfl := Except.ok.inj h
    rfl
  | cons op ops ih =>
    rw [LiveState.applyOps, List.foldlM_cons] at h
    obtain ⟨l₁, hop, h⟩ := bind_eq_ok_iff.mp h
    obtain ⟨⟨r, book⟩, -, hl₁⟩ := bind_eq_ok_iff.mp hop
    refine (ih h).trans ?_
    rcases r with err | _ <;> obtain rfl := Except.ok.inj hl₁ <;> rfl

theorem onDecoded_messages {d : Decoded} {snapshotAt : ℕ}
    (h : l.onDecoded π snapshotAt d = .ok (.ok l')) : l'.messages = l.messages := by
  cases d with
  | skip =>
    obtain rfl := Except.ok.inj (Except.ok.inj h)
    rfl
  | snapshot orders =>
    obtain ⟨⟨r, book⟩, -, h⟩ := bind_eq_ok_iff.mp h
    rcases r with err | _
    · cases h
    · obtain rfl := Except.ok.inj (Except.ok.inj h)
      rfl
  | updates batch =>
    cases hops : ({ l with updates := l.updates + 1 } : LiveState).applyOps π batch.ops with
    | error e =>
      rw [LiveState.onDecoded, hops] at h
      cases h
    | ok l₁ =>
      rw [LiveState.onDecoded, hops] at h
      obtain rfl := Except.ok.inj (Except.ok.inj h)
      exact (applyOps_messages hops).trans rfl

theorem onText_messages {text : String} {x : ForInStep LiveState}
    (h : l.onText lib π round text = .ok (.ok x)) : (liveStateOf x).messages = l.messages := by
  rw [LiveState.onText] at h
  split at h
  · cases h
  · obtain ⟨r, hr, h⟩ := bind_eq_ok_iff.mp h
    cases r with
    | error e => cases h
    | ok l₁ =>
      cases hend : l₁.endRound π round.now with
      | error e =>
        dsimp only at h
        rw [hend] at h
        cases h
      | ok x' =>
        dsimp only at h
        rw [hend] at h
        obtain rfl := Except.ok.inj (Except.ok.inj h)
        refine Eq.trans ?_ (onDecoded_messages hr)
        have hsame := (endRound_eq_ok hend).messages
        cases x' <;> exact hsame

/-- Every round that does not end in an error is counted. -/
theorem onRound_messages {x : ForInStep LiveState} (h : l.onRound lib π round = .ok (.ok x)) :
    (liveStateOf x).messages = l.messages + 1 := by
  rw [LiveState.onRound] at h
  split at h
  · cases h
  · dsimp only at h
    split at h
    · exact onText_messages h
    · split at h
      · exact onText_messages h
      · cases h
    all_goals
      obtain rfl := Except.ok.inj (Except.ok.inj h)
      rfl

/-- The live client goes on after every message that does not end the connection. -/
theorem not_done_of_yield {x : LiveState} {y : DebugState}
    (hl : l.onRound lib π round = .ok (.ok (.yield x)))
    (hs : s.onRead lib π updatesToLog round.read = .ok (.done y)) : errorLimit ≤ y.errors := by
  refine (onRead_done hs).resolve_right ?_
  intro hends
  rw [LiveState.onRound] at hl
  cases hread : round.read with
  | error err =>
    rw [hread] at hl
    cases hl
  | ok msg =>
    rw [hread] at hl hends
    cases msg with
    | close frame => cases hl
    | _ => exact hends

end L4Book
