import L4Book.DebugLog
import L4Book.Refinement.Export
import L4Book.Refinement.Run
import Mathlib.Logic.Relation

/-!
# What the debug logger does, one record at a time

Between two messages the logger does many things, but only a few kinds of them: it notes something,
opens an update, counts an error, takes over a snapshot or an operation, has one of them refused, or
writes down the book. Every step writes its records at the end of the log. A message is a chain of
such steps, so that what every step keeps holds of every run.

## Main definitions

* `Json.event`, `Json.errorIndex`: what is read of a record
* `DebugStep`: the steps
* `EndsRun`: the connection ends

## Main results

* `applyOps_steps`, `onRead_steps`: a message is a chain of steps
* `loop_steps`: and so is a run
* `left_iff`, `loop_append_of_left`: the end of a run
-/

namespace L4Book

theorem Scales.showable_sp500 : Scales.sp500.Showable := ⟨by decide, by decide⟩

/-- The event of a record. -/
def Json.event (v : Json) : Option String := (v.get "event").bind Json.asStr

/-- The number of the error that a record reports. -/
def Json.errorIndex (v : Json) : Option UInt64 := (v.get "error_index").bind Json.asU64

@[simp] theorem event_record (event : String) (fields : List (String × Json)) :
    (record event fields).event = some event := rfl

theorem errorIndex_record (event : String) (fields : List (String × Json)) :
    (record event fields).errorIndex = (fields.lookup "error_index").bind Json.asU64 := rfl

/-- The fields hold neither a book nor the number of an error. -/
def Plain (fields : List (String × Json)) : Prop :=
  fields.lookup "error_index" = none ∧ fields.lookup "book" = none ∧
    fields.lookup "book_after_failed_op" = none

/-- What the logger does between two records. -/
inductive DebugStep (π : Profile) (updatesToLog : ℕ) (s : DebugState) : DebugState → Prop
  /-- A message is counted. -/
  | message : DebugStep π updatesToLog s { s with messages := s.messages + 1 }
  | closed (fields : List (String × Json)) (hfields : Plain fields) :
    DebugStep π updatesToLog s (s.write (record "websocket_closed" fields))
  /-- A message that cannot be read. -/
  | unreadable (event : String) (fields : List (String × Json))
      (hevent : event ∈ ["websocket_read_error", "binary_utf8_error", "decode_error"])
      (hfields : Plain fields) (hlt : s.errors < errorLimit) :
    DebugStep π updatesToLog s (s.countError.write
      (record event (("error_index", jsonCount (s.errors + 1)) :: fields)))
  | snapshot (text : String) (orders : List Order) (cause : OperationCause) {s' : DebugState}
      (hlt : s.errors < errorLimit) (hs' : s.onSnapshot π text orders cause = .ok s') :
    DebugStep π updatesToLog s s'
  /-- An update that is logged in full. -/
  | update (text : String) (batch : ReasonedUpdateBatch)
      (hle : s.updateMessages + 1 ≤ updatesToLog) :
    DebugStep π updatesToLog s (DebugState.logRawUpdate { s with
      updateMessages := s.updateMessages + 1
      collapsedCompleteFills := s.collapsedCompleteFills + batch.collapsedCompleteFills
      droppedDuplicateRemoves := s.droppedDuplicateRemoves + batch.droppedDuplicateRemoves }
        text batch)
  /-- An update that is not. -/
  | silentUpdate (batch : ReasonedUpdateBatch) (hlt : updatesToLog < s.updateMessages + 1) :
    DebugStep π updatesToLog s { s with
      updateMessages := s.updateMessages + 1
      collapsedCompleteFills := s.collapsedCompleteFills + batch.collapsedCompleteFills
      droppedDuplicateRemoves := s.droppedDuplicateRemoves + batch.droppedDuplicateRemoves }
  | applied (opIndex : ℕ) (op : ReasonedBookOp) (book : OrderBook)
      (hop : s.book.applyOp π op.op = .ok (.ok (), book)) :
    DebugStep π updatesToLog s (DebugState.logApplied { s with
      book := book
      opsApplied := s.opsApplied + 1 } opIndex op)
  | refused (text : String) (parsedUpdate : Json) (opIndex : ℕ) (op : ReasonedBookOp)
      (err : BookError) (book : OrderBook) (v : Json) (hlt : s.errors < errorLimit)
      (hop : s.book.applyOp π op.op = .ok (.error err, book))
      (hv : bookSnapshot π .sp500 book = .ok v) :
    DebugStep π updatesToLog s (({ s with book := book }).countError.logRefused text parsedUpdate v
      opIndex op err)
  | summary (opResults : List Json) (v : Json) (hv : bookSnapshot π .sp500 s.book = .ok v) :
    DebugStep π updatesToLog s (s.logSummary opResults v)

/-- A chain of steps. -/
abbrev DebugSteps (π : Profile) (updatesToLog : ℕ) : DebugState → DebugState → Prop :=
  Relation.ReflTransGen (DebugStep π updatesToLog)

variable {lib : Library} {π : Profile} {updatesToLog : ℕ} {s s' : DebugState}
  {r : Except String Message} {reads : List (Except String Message)}

theorem reported_eq_ok_iff {α : Type} {v : Except Fault α} {x : α} :
    reported v = .ok x ↔ v = .ok x := by
  cases v with
  | error e => exact iff_of_false (fun h => by cases h) (fun h => by cases h)
  | ok y => exact ⟨fun h => congrArg Except.ok (Except.ok.inj h),
      fun h => congrArg Except.ok (Except.ok.inj h)⟩

/-! ### Chains -/

/-- The operations of an update, one after the other. -/
theorem applyOps_steps {text : String} {parsedUpdate : Json} {opResults opResults' : List Json}
    {opIndex : ℕ} {ops : List ReasonedBookOp} (hlt : s.errors < errorLimit)
    (h : s.applyOps π text parsedUpdate opResults opIndex ops = .ok (s', opResults')) :
    DebugSteps π updatesToLog s s' := by
  induction ops generalizing s opResults opIndex with
  | nil =>
    obtain rfl : s = s' := congrArg Prod.fst (Except.ok.inj h)
    exact .refl
  | cons op ops ih =>
    rw [DebugState.applyOps] at h
    obtain ⟨⟨r, book⟩, hop, h⟩ := bind_eq_ok_iff.mp h
    have hop := reported_eq_ok_iff.mp hop
    rcases r with err | _
    · obtain ⟨v, hv, h⟩ := bind_eq_ok_iff.mp h
      have hstep : DebugStep π updatesToLog s _ :=
        .refused text parsedUpdate opIndex op err book v hlt hop hv
      dsimp only at h
      split at h
      · obtain rfl := congrArg Prod.fst (Except.ok.inj h)
        exact .single hstep
      · next hlimit => exact .head hstep (ih (Nat.lt_of_not_le hlimit) h)
    · exact .head (.applied opIndex op book hop) (ih hlt h)

theorem onUpdates_steps {text : String} {batch : ReasonedUpdateBatch} (hlt : s.errors < errorLimit)
    (h : s.onUpdates π updatesToLog text batch = .ok s') : DebugSteps π updatesToLog s s' := by
  rw [DebugState.onUpdates] at h
  dsimp only at h
  split at h
  · next hle =>
    obtain ⟨⟨s₁, opResults⟩, hops, h⟩ := bind_eq_ok_iff.mp h
    obtain ⟨v, hv, h⟩ := bind_eq_ok_iff.mp h
    obtain rfl := Except.ok.inj h
    have hsteps : DebugSteps π updatesToLog _ s₁ := applyOps_steps (by exact hlt) hops
    exact .head (.update text batch hle) (hsteps.tail (.summary opResults v hv))
  · next hlt' =>
    obtain ⟨⟨s₁, opResults⟩, hops, h⟩ := bind_eq_ok_iff.mp h
    obtain rfl := Except.ok.inj h
    exact .head (.silentUpdate batch (Nat.lt_of_not_le hlt')) (applyOps_steps hlt hops)

theorem onDecoded_steps {text : String} {d : DecodedWithMeta} (hlt : s.errors < errorLimit)
    (h : s.onDecoded π updatesToLog text d = .ok s') : DebugSteps π updatesToLog s s' := by
  cases d with
  | skip =>
    obtain rfl := Except.ok.inj h
    exact .refl
  | snapshot orders cause => exact .single (.snapshot text orders cause hlt h)
  | updates batch => exact onUpdates_steps hlt h

/-- **A step writes at the end of the log.** -/
theorem DebugStep.log_grows (h : DebugStep π updatesToLog s s') : s.log <+: s'.log := by
  cases h with
  | message => exact List.prefix_rfl
  | closed fields hfields => exact List.prefix_append _ _
  | unreadable event fields hevent hfields hlt => exact List.prefix_append _ _
  | snapshot text orders cause hlt hs' =>
    rw [DebugState.onSnapshot] at hs'
    obtain ⟨⟨r, book⟩, -, hs'⟩ := bind_eq_ok_iff.mp hs'
    rcases r with err | _
    · obtain rfl := Except.ok.inj hs'
      exact ⟨_, (List.append_assoc ..).symm⟩
    · obtain ⟨v, -, hs'⟩ := bind_eq_ok_iff.mp hs'
      obtain rfl := Except.ok.inj hs'
      exact ⟨_, (List.append_assoc ..).symm⟩
  | update text batch hle => exact ⟨_, (List.append_assoc ..).symm⟩
  | silentUpdate batch hlt => exact List.prefix_rfl
  | applied opIndex op book hop => exact List.prefix_append _ _
  | refused text parsedUpdate opIndex op err book v hlt hop hv =>
    exact ⟨_, ((List.append_assoc ..).trans (List.append_assoc ..)).symm⟩
  | summary opResults v hv =>
    exact ⟨_, ((List.append_assoc ..).trans (List.append_assoc ..)).symm⟩

theorem DebugSteps.log_grows (h : DebugSteps π updatesToLog s s') : s.log <+: s'.log := by
  induction h with
  | refl => exact List.prefix_rfl
  | tail _ hstep ih => exact ih.trans hstep.log_grows

/-- A step leaves a book that stores something. -/
theorem DebugStep.represents (h : DebugStep π updatesToLog s s')
    (hb : ∃ a, Represents π s.book a) : ∃ a, Represents π s'.book a := by
  obtain ⟨a, hb⟩ := hb
  cases h with
  | snapshot text orders cause hlt hs' =>
    rw [DebugState.onSnapshot] at hs'
    obtain ⟨⟨r, book⟩, hop, hs'⟩ := bind_eq_ok_iff.mp hs'
    have hbook := ((applySnapshot_spec hb orders).of_eq_ok (reported_eq_ok_iff.mp hop)).2
    rcases r with err | _
    · obtain rfl := Except.ok.inj hs'
      exact ⟨_, hbook⟩
    · obtain ⟨v, -, hs'⟩ := bind_eq_ok_iff.mp hs'
      obtain rfl := Except.ok.inj hs'
      exact ⟨_, hbook⟩
  | applied opIndex op book hop => exact ⟨_, ((applyOp_spec hb op.op).of_eq_ok hop).2⟩
  | refused text parsedUpdate opIndex op err book v hlt hop hv =>
    exact ⟨_, ((applyOp_spec hb op.op).of_eq_ok hop).2⟩
  | _ => exact ⟨a, hb⟩

theorem DebugSteps.represents (h : DebugSteps π updatesToLog s s')
    (hb : ∃ a, Represents π s.book a) : ∃ a, Represents π s'.book a := by
  induction h with
  | refl => exact hb
  | tail _ hstep ih => exact hstep.represents ih

/-- Where the loop goes on or is left. -/
def stateOf : ForInStep DebugState → DebugState
  | .done s => s
  | .yield s => s

@[simp] theorem stateOf_unlessLimit (s : DebugState) : stateOf s.unlessLimit = s := by
  unfold DebugState.unlessLimit
  split <;> rfl

theorem onText_steps {text : String} {x : ForInStep DebugState} (hlt : s.errors < errorLimit)
    (h : s.onText lib π updatesToLog text = .ok x) : DebugSteps π updatesToLog s (stateOf x) := by
  rw [DebugState.onText] at h
  split at h
  · obtain rfl := Except.ok.inj h
    rw [stateOf_unlessLimit]
    exact .single (.unreadable "decode_error" _ (by decide) ⟨rfl, rfl, rfl⟩ hlt)
  · next d _ =>
    cases hd : s.onDecoded π updatesToLog text d with
    | error e =>
      rw [hd] at h
      cases h
    | ok s₁ =>
      rw [hd] at h
      obtain rfl := Except.ok.inj h
      rw [stateOf_unlessLimit]
      exact onDecoded_steps hlt hd

/-- **A message is a chain of steps.** -/
theorem onRead_steps {x : ForInStep DebugState} (hlt : s.errors < errorLimit)
    (h : s.onRead lib π updatesToLog r = .ok x) : DebugSteps π updatesToLog s (stateOf x) := by
  cases r with
  | error err =>
    obtain rfl := Except.ok.inj h
    exact .single (.unreadable "websocket_read_error" _ (by decide) ⟨rfl, rfl, rfl⟩ hlt)
  | ok msg =>
    refine .head .message ?_
    cases msg with
    | text text => exact onText_steps hlt h
    | binary bytes =>
      rw [DebugState.onRead] at h
      dsimp only at h
      split at h
      · exact onText_steps hlt h
      · obtain rfl := Except.ok.inj h
        rw [stateOf_unlessLimit]
        exact .single (.unreadable "binary_utf8_error" _ (by decide) ⟨rfl, rfl, rfl⟩ hlt)
    | ping =>
      obtain rfl := Except.ok.inj h
      exact .refl
    | pong =>
      obtain rfl := Except.ok.inj h
      exact .refl
    | frame =>
      obtain rfl := Except.ok.inj h
      exact .refl
    | close frame =>
      obtain rfl := Except.ok.inj h
      exact .single (.closed _ ⟨rfl, rfl, rfl⟩)

/-- The loop only goes on below the limit. -/
theorem errors_lt_of_yield (hlt : s.errors < errorLimit)
    (h : s.onRead lib π updatesToLog r = .ok (.yield s')) : s'.errors < errorLimit := by
  have hunless : ∀ t : DebugState, t.unlessLimit = .yield s' → s'.errors < errorLimit := by
    intro t ht
    unfold DebugState.unlessLimit at ht
    split at ht
    · cases ht
    · next hlimit =>
      obtain rfl := ForInStep.yield.inj ht
      exact Nat.lt_of_not_le hlimit
  have htext : ∀ (t : DebugState) text,
      t.onText lib π updatesToLog text = .ok (.yield s') → s'.errors < errorLimit := by
    intro t text ht
    rw [DebugState.onText] at ht
    split at ht
    · exact hunless _ (Except.ok.inj ht)
    · next d _ =>
      cases hd : t.onDecoded π updatesToLog text d with
      | error e =>
        rw [hd] at ht
        cases ht
      | ok s₁ =>
        rw [hd] at ht
        exact hunless s₁ (Except.ok.inj ht)
  cases r with
  | error err => cases h
  | ok msg =>
    cases msg with
    | text text => exact htext _ text h
    | binary bytes =>
      rw [DebugState.onRead] at h
      dsimp only at h
      split at h
      · exact htext _ _ h
      · exact hunless _ (Except.ok.inj h)
    | ping | pong | frame =>
      obtain rfl := ForInStep.yield.inj (Except.ok.inj h)
      exact hlt
    | close frame => cases h

/-- **A run is a chain of steps.** -/
theorem loop_steps {left : Bool} (hlt : s.errors < errorLimit)
    (h : s.loop lib π updatesToLog reads = .ok (s', left)) : DebugSteps π updatesToLog s s' := by
  induction reads generalizing s with
  | nil =>
    obtain rfl := congrArg Prod.fst (Except.ok.inj h)
    exact .refl
  | cons r reads ih =>
    rw [DebugState.loop] at h
    obtain ⟨x, hx, h⟩ := bind_eq_ok_iff.mp h
    cases x with
    | done s₁ =>
      obtain rfl := congrArg Prod.fst (Except.ok.inj h)
      exact onRead_steps hlt hx
    | yield s₁ => exact (onRead_steps hlt hx).trans (ih (errors_lt_of_yield hlt hx) h)

theorem errors_start (updatesToLog : ℕ) : (DebugState.start updatesToLog).errors < errorLimit :=
  show 0 < errorLimit by decide

theorem run_steps {left : Bool}
    (h : (DebugState.start updatesToLog).loop lib π updatesToLog reads = .ok (s, left)) :
    DebugSteps π updatesToLog (.start updatesToLog) s :=
  loop_steps (errors_start updatesToLog) h

/-! ### The end of a run -/

/-- The connection ends. -/
def EndsRun : Except String Message → Prop
  | .error _ => True
  | .ok (.close _) => True
  | _ => False

theorem unlessLimit_eq_done_iff {t : DebugState} :
    t.unlessLimit = .done s ↔ t = s ∧ errorLimit ≤ s.errors := by
  unfold DebugState.unlessLimit
  split
  · next hle => exact ⟨fun h => ForInStep.done.inj h ▸ ⟨rfl, hle⟩, fun h => h.1 ▸ rfl⟩
  · next hlt => exact ⟨fun h => (by cases h), fun ⟨h, hle⟩ => absurd (h ▸ hle) hlt⟩

theorem errors_of_onText_done {t : DebugState} {text : String}
    (h : t.onText lib π updatesToLog text = .ok (.done s)) : errorLimit ≤ s.errors := by
  rw [DebugState.onText] at h
  split at h
  · exact (unlessLimit_eq_done_iff.mp (Except.ok.inj h)).2
  · next d _ =>
    cases hd : t.onDecoded π updatesToLog text d with
    | error e =>
      rw [hd] at h
      cases h
    | ok s₁ =>
      rw [hd] at h
      exact (unlessLimit_eq_done_iff.mp (Except.ok.inj h)).2

/-- The loop is left at the limit, or at the end of the connection. -/
theorem onRead_done (h : s.onRead lib π updatesToLog r = .ok (.done s')) :
    errorLimit ≤ s'.errors ∨ EndsRun r := by
  cases r with
  | error err => exact Or.inr trivial
  | ok msg =>
    cases msg with
    | text text => exact Or.inl (errors_of_onText_done h)
    | binary bytes =>
      rw [DebugState.onRead] at h
      dsimp only at h
      split at h
      · exact Or.inl (errors_of_onText_done h)
      · exact Or.inl (unlessLimit_eq_done_iff.mp (Except.ok.inj h)).2
    | ping | pong | frame => cases h
    | close frame => exact Or.inr trivial

/-- Nothing is read after the end of the connection. -/
theorem not_endsRun_of_yield (h : s.onRead lib π updatesToLog r = .ok (.yield s')) :
    ¬ EndsRun r := by
  cases r with
  | error err => cases h
  | ok msg =>
    cases msg with
    | close frame => cases h
    | _ => exact id

/-- When the loop is left. -/
theorem left_iff {left : Bool} (hlt : s.errors < errorLimit)
    (h : s.loop lib π updatesToLog reads = .ok (s', left)) :
    left = true ↔ errorLimit ≤ s'.errors ∨ ∃ r ∈ reads, EndsRun r := by
  induction reads generalizing s with
  | nil =>
    obtain ⟨rfl, rfl⟩ := Prod.mk.inj (Except.ok.inj h)
    refine iff_of_false Bool.false_ne_true ?_
    rintro (hle | ⟨r, hr, -⟩)
    · omega
    · cases hr
  | cons r reads ih =>
    rw [DebugState.loop] at h
    obtain ⟨x, hx, h⟩ := bind_eq_ok_iff.mp h
    cases x with
    | done s₁ =>
      obtain ⟨rfl, rfl⟩ := Prod.mk.inj (Except.ok.inj h)
      exact iff_of_true rfl ((onRead_done hx).imp_right fun hr => ⟨r, List.mem_cons_self, hr⟩)
    | yield s₁ =>
      rw [ih (errors_lt_of_yield hlt hx) h]
      simp [not_endsRun_of_yield hx]

/-- **Nothing is read after the loop is left.** -/
theorem loop_append_of_left (h : s.loop lib π updatesToLog reads = .ok (s', true))
    (more : List (Except String Message)) :
    s.loop lib π updatesToLog (reads ++ more) = .ok (s', true) := by
  induction reads generalizing s with
  | nil => cases h
  | cons r reads ih =>
    rw [DebugState.loop] at h
    obtain ⟨x, hx, h⟩ := bind_eq_ok_iff.mp h
    rw [List.cons_append, DebugState.loop, hx, ok_bind]
    cases x with
    | done s₁ => exact h
    | yield s₁ => exact ih h

end L4Book
