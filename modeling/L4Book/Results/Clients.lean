import L4Book.Refinement.LiveClient
import L4Book.Results.DebugCounts
import L4Book.Results.Policies

/-!
# The clients agree

The live client, the debug logger and the application loop of the documentation are three loops
over one feed. On the same messages they hold the same book, up to the first thing that one of them
does not survive: the live client returns at a message that does not decode, the logger gives up at
its tenth error, and the application loop returns at both a line that does not decode and a snapshot
that is refused.

## Main definitions

* `textOf`, `received`: the texts that a run receives

## Main results

* `live_agrees_debugLog`
* `debugLog_streams`: the logger against the application loop
-/

namespace L4Book

variable {lib : Library} {π : Profile} {updatesToLog : ℕ} {l l' : LiveState} {s s' : DebugState}
  {rounds : List Round} {reads : List (Except String Message)} {left left' : Bool}
  {b b' : OrderBook} {a : AbstractBook} {op : BookOp}

/-! ### The two clients -/

theorem messages_le_of_loop (h : l.loop lib π rounds = .ok (.ok (l', left))) :
    l.messages ≤ l'.messages := by
  induction rounds generalizing l with
  | nil =>
    obtain rfl := congrArg Prod.fst (Except.ok.inj (Except.ok.inj h))
    exact Nat.le_refl _
  | cons round rounds ih =>
    rw [LiveState.loop] at h
    obtain ⟨x, hx, h⟩ := bind_eq_ok_iff.mp h
    rcases x with e | x | x
    · cases h
    · obtain rfl := congrArg Prod.fst (Except.ok.inj (Except.ok.inj h))
      have hcount := onRound_messages hx
      exact Nat.le_of_lt (hcount ▸ Nat.lt_succ_self _)
    · have hcount : x.messages = l.messages + 1 := onRound_messages hx
      have := ih h
      omega

/-- **Runs of the two clients**, over the messages that the live client reads. -/
theorem Alongside.loop (h : Alongside l s) (hrep : ∃ a, Represents π s.book a)
    (hstart : s.errors < errorLimit) (hl : l.loop lib π rounds = .ok (.ok (l', left)))
    (updatesToLog : ℕ) :
    ∃ s' left', s.loop lib π updatesToLog
        ((rounds.map Round.read).take (l'.messages - l.messages)) = .ok (s', left') ∧
      (s'.errors < errorLimit → Alongside l' s') := by
  induction rounds generalizing l s with
  | nil =>
    obtain rfl := congrArg Prod.fst (Except.ok.inj (Except.ok.inj hl))
    rw [List.map_nil, List.take_nil]
    exact ⟨s, false, rfl, fun _ => h⟩
  | cons round rounds ih =>
    obtain ⟨a, hrep⟩ := hrep
    rw [LiveState.loop] at hl
    obtain ⟨x, hx, hl⟩ := bind_eq_ok_iff.mp hl
    rcases x with e | x | x
    · cases hl
    · -- the live client leaves its loop
      obtain rfl := congrArg Prod.fst (Except.ok.inj (Except.ok.inj hl))
      obtain ⟨y, hy, halong⟩ := h.step hrep hx updatesToLog
      have hcount : x.messages = l.messages + 1 := onRound_messages hx
      have htake : x.messages - l.messages = 1 := by omega
      rw [htake, List.map_cons, List.take_succ_cons, List.take_zero, DebugState.loop, hy, ok_bind]
      cases y with
      | done s₁ => exact ⟨s₁, true, rfl, halong⟩
      | yield s₁ => exact ⟨s₁, false, rfl, halong⟩
    · obtain ⟨y, hy, halong⟩ := h.step hrep hx updatesToLog
      have hcount : x.messages = l.messages + 1 := onRound_messages hx
      have hle := messages_le_of_loop hl
      have hn : l'.messages - l.messages = l'.messages - x.messages + 1 := by omega
      rw [hn, List.map_cons, List.take_succ_cons, DebugState.loop, hy, ok_bind]
      cases y with
      | done s₁ =>
        have hlimit := not_done_of_yield hx hy
        exact ⟨s₁, true, rfl, fun hlt => absurd hlt (Nat.not_lt.mpr hlimit)⟩
      | yield s₁ =>
        have hstart' := errors_lt_of_yield hstart hy
        exact ih (halong hstart') ((onRead_steps hstart hy).represents ⟨a, hrep⟩) hstart' hl

/-- **The live client and the debug logger agree.** On the messages that the live client reads in a
run that does not end in an error, the logger comes to its end too, and holds the same book and has
counted the same messages, updates and operations, and as many errors as the live client has counted
refused operations; unless it has given up. -/
theorem live_agrees_debugLog
    (hl : LiveState.start.loop lib π rounds = .ok (.ok (l, left))) (updatesToLog : ℕ) :
    ∃ s left', (DebugState.start updatesToLog).loop lib π updatesToLog
        ((rounds.map Round.read).take l.messages) = .ok (s, left') ∧
      (s.errors = errorLimit ∨
        (l.book = s.book ∧ l.messages = s.messages ∧ l.updates = s.updateMessages ∧
          l.opsApplied = s.opsApplied ∧ l.opErrors = s.errors)) := by
  have hstart : Alongside .start (.start updatesToLog) := ⟨rfl, rfl, rfl, rfl, rfl⟩
  obtain ⟨s, left', hs, halong⟩ := hstart.loop ⟨_, represents_new π⟩ (errors_start updatesToLog)
    hl updatesToLog
  refine ⟨s, left', hs, ?_⟩
  have hle := ((counted_start updatesToLog).steps (run_steps hs)).errors_le
  rcases Nat.lt_or_eq_of_le hle with hlt | heq
  · have h := halong hlt
    exact Or.inr ⟨h.book, h.messages, h.updates, h.applied, h.errors⟩
  · exact Or.inl heq

/-- The sample update twice, before any snapshot. -/
def sampleRounds : List Round :=
  [.ok .ping, .ok (.text updatesLine), .ok (.text updatesLine)].map fun read => ⟨read, 0, 0⟩

/-- The state of the live client after these messages. -/
def sampleLive : LiveState :=
  match LiveState.start.loop sampleLibrary .dev sampleRounds with
  | .ok (.ok (l, _)) => l
  | _ => .start

/-- The state of the logger after these messages. -/
def sampleLogged : DebugState :=
  match (DebugState.start 0).loop sampleLibrary .dev 0 (sampleRounds.map Round.read) with
  | .ok (s, _) => s
  | .error _ => .start 0

set_option maxRecDepth 10000 in
theorem sampleLive_eq :
    LiveState.start.loop sampleLibrary .dev sampleRounds = .ok (.ok (sampleLive, false)) := rfl

set_option maxRecDepth 10000 in
theorem sampleLogged_eq : (DebugState.start 0).loop sampleLibrary .dev 0
    ((sampleRounds.map Round.read).take sampleLive.messages) = .ok (sampleLogged, false) := rfl

/-- Both clients have refused one operation. -/
theorem live_agrees_debugLog_sample : sampleLive.book = sampleLogged.book ∧
    sampleLive.opErrors = 1 := by
  have herrors : sampleLogged.errors = 1 := by decide +kernel
  obtain ⟨s, left', hs, hagree⟩ := live_agrees_debugLog sampleLive_eq 0
  obtain ⟨rfl, -⟩ := Prod.mk.inj (Except.ok.inj (sampleLogged_eq.symm.trans hs))
  rcases hagree with hlimit | ⟨hbook, -, -, -, heq⟩
  · rw [herrors] at hlimit
    exact absurd hlimit (by decide)
  · exact ⟨hbook, heq.trans herrors⟩

/-! ### The application loop -/

/-- The text of a message, if it has one. -/
def textOf : Except String Message → Option String
  | .ok (.text text) => some text
  | .ok (.binary bytes) => String.fromUTF8? bytes
  | _ => none

instance : DecidablePred EndsRun := fun r =>
  match r with
  | .error _ => .isTrue trivial
  | .ok (.close _) => .isTrue trivial
  | .ok (.text _) => .isFalse id
  | .ok (.binary _) => .isFalse id
  | .ok .ping => .isFalse id
  | .ok .pong => .isFalse id
  | .ok .frame => .isFalse id

/-- The line decodes. -/
def decodes (lib : Library) (line : String) : Bool :=
  (decodeLine lib.parseJson .sp500 line).isOk

/-- The texts received before the connection ends, less those that do not decode. -/
def received (lib : Library) (reads : List (Except String Message)) : List String :=
  ((reads.takeWhile fun r => ¬ EndsRun r).filterMap textOf).filter (decodes lib)

/-- Under the strict policy an operation does what `apply_op` does. -/
theorem applyOpWithPolicy_strict_snd (h : Represents π b a) {reply : Except BookError Unit}
    (hop : b.applyOp π op = .ok (reply, b')) :
    Prod.snd <$> b.applyOpWithPolicy π op .strict = .ok b' := by
  by_cases hdup : EmptyDuplicate b op
  · obtain ⟨order, rfl, hq, hl⟩ := hdup
    obtain ⟨hadd, hpolicy⟩ := applyOp_emptyDuplicate π hq hl
    obtain ⟨-, rfl⟩ := Prod.mk.inj (Except.ok.inj (hadd.symm.trans hop))
    rw [hpolicy]
    rfl
  · rw [applyOpWithPolicy_strict h hdup, OrderBook.applyStrictly, hop]
    cases reply <;> rfl

/-- The operations of an update, below the limit, are a strict replay. -/
theorem replay_of_applyOps {ops : List ReasonedBookOp} {text : String} {parsedUpdate : Json}
    {opResults opResults' : List Json} {opIndex : ℕ} (hb : Represents π s.book a)
    (hs : s.applyOps π text parsedUpdate opResults opIndex ops = .ok (s', opResults'))
    (hlt : s'.errors < errorLimit) :
    s.book.replay π .strict (ops.map ReasonedBookOp.op) = .ok s'.book := by
  induction ops generalizing s opResults opIndex a with
  | nil =>
    obtain rfl := congrArg Prod.fst (Except.ok.inj hs)
    rfl
  | cons op ops ih =>
    rw [DebugState.applyOps] at hs
    obtain ⟨⟨r, book⟩, hop, hs⟩ := bind_eq_ok_iff.mp hs
    have hop := reported_eq_ok_iff.mp hop
    have hbook := ((applyOp_spec hb op.op).of_eq_ok hop).2
    rw [List.map_cons, OrderBook.replay, List.foldlM_cons, applyOpWithPolicy_strict_snd hb hop,
      ok_bind]
    rcases r with err | _
    · obtain ⟨v, -, hs⟩ := bind_eq_ok_iff.mp hs
      dsimp only at hs
      split at hs
      · next hlimit =>
        obtain rfl := congrArg Prod.fst (Except.ok.inj hs)
        exact absurd hlt (Nat.not_lt.mpr hlimit)
      · exact ih hbook hs
    · exact ih hbook hs

/-- No snapshot message was refused. -/
def NoneRefused (log : List Json) : Prop := ∀ v ∈ log, ¬ IsEvent "snapshot_apply_error" v

/-- **A message that decodes** is applied as in the application loop. -/
theorem applyDecoded_of_onDecoded {d : DecodedWithMeta} {text : String}
    (hb : Represents π s.book a) (hs : s.onDecoded π updatesToLog text d = .ok s')
    (hlt : s'.errors < errorLimit) (hnone : NoneRefused s'.log) :
    s.book.applyDecoded π .strict (stripDecoded d) = .ok (.ok (), s'.book) := by
  cases d with
  | skip =>
    obtain rfl := Except.ok.inj hs
    rfl
  | snapshot orders cause =>
    rw [DebugState.onDecoded, DebugState.onSnapshot] at hs
    obtain ⟨⟨r, book⟩, hop, hs⟩ := bind_eq_ok_iff.mp hs
    have hop := reported_eq_ok_iff.mp hop
    rcases r with err | _
    · -- the record of the refusal is in the log
      obtain rfl := Except.ok.inj hs
      refine absurd rfl (hnone _ (List.mem_append_right _ (List.mem_singleton_self _)))
    · obtain ⟨v, -, hs⟩ := bind_eq_ok_iff.mp hs
      obtain rfl := Except.ok.inj hs
      exact hop
  | updates batch =>
    have hreplay : s.book.replay π .strict (batch.ops.map ReasonedBookOp.op) = .ok s'.book := by
      rw [DebugState.onDecoded, DebugState.onUpdates] at hs
      dsimp only at hs
      split at hs
      · obtain ⟨⟨s₁, opResults⟩, hops, hs⟩ := bind_eq_ok_iff.mp hs
        obtain ⟨v, -, hs⟩ := bind_eq_ok_iff.mp hs
        obtain rfl := Except.ok.inj hs
        have hreplay := replay_of_applyOps (a := a) (by exact hb) hops hlt
        exact hreplay
      · obtain ⟨⟨s₁, opResults⟩, hops, hs⟩ := bind_eq_ok_iff.mp hs
        obtain rfl := Except.ok.inj hs
        have hreplay := replay_of_applyOps (a := a) (by exact hb) hops hlt
        exact hreplay
    show (s.book.replay π .strict (batch.ops.map ReasonedBookOp.op) >>= _) = _
    rw [hreplay]
    rfl

/-- **A text** is skipped, or applied as in the application loop. -/
theorem stream_of_onText {text : String} {y : ForInStep DebugState} (hb : Represents π s.book a)
    (hs : s.onText lib π updatesToLog text = .ok y) (hlt : (stateOf y).errors < errorLimit)
    (hnone : NoneRefused (stateOf y).log) (lines : List String) :
    s.book.stream lib.parseJson .sp500 π .strict ([text].filter (decodes lib) ++ lines) =
      (stateOf y).book.stream lib.parseJson .sp500 π .strict lines := by
  rw [DebugState.onText] at hs
  cases hd : decodeLineWithMeta lib.parseJson .sp500 text with
  | error e =>
    rw [hd] at hs
    obtain rfl := Except.ok.inj hs
    have hline : decodes lib text = false := by
      rw [decodes, decodeLine, hd]
      rfl
    rw [List.filter_cons_of_neg (by rw [hline]; exact Bool.false_ne_true), stateOf_unlessLimit]
    rfl
  | ok d =>
    rw [hd] at hs
    dsimp only at hs
    have hline : decodeLine lib.parseJson .sp500 text = .ok (stripDecoded d) := by
      rw [decodeLine, hd]
      rfl
    have hdecodes : decodes lib text = true := by
      rw [decodes, hline]
      rfl
    cases hs₁ : s.onDecoded π updatesToLog text d with
    | error e =>
      rw [hs₁] at hs
      cases hs
    | ok s₁ =>
      rw [hs₁] at hs
      obtain rfl := Except.ok.inj hs
      rw [stateOf_unlessLimit] at hlt hnone ⊢
      rw [List.filter_cons_of_pos hdecodes, List.filter_nil, List.singleton_append,
        OrderBook.stream, hline]
      show (s.book.applyDecoded π .strict (stripDecoded d) >>= _) = _
      rw [applyDecoded_of_onDecoded hb hs₁ hlt hnone]
      rfl

theorem stream_of_onRead {r : Except String Message} {y : ForInStep DebugState}
    (hb : Represents π s.book a) (hs : s.onRead lib π updatesToLog r = .ok y)
    (hlt : (stateOf y).errors < errorLimit) (hnone : NoneRefused (stateOf y).log)
    (hends : ¬ EndsRun r) (lines : List String) :
    s.book.stream lib.parseJson .sp500 π .strict
        ((textOf r).toList.filter (decodes lib) ++ lines) =
      (stateOf y).book.stream lib.parseJson .sp500 π .strict lines := by
  cases r with
  | error err => exact absurd trivial hends
  | ok msg =>
    cases msg with
    | text text =>
      exact stream_of_onText (s := { s with messages := s.messages + 1 }) hb hs hlt hnone lines
    | binary bytes =>
      rw [DebugState.onRead] at hs
      dsimp only at hs
      show s.book.stream _ _ _ _ ((String.fromUTF8? bytes).toList.filter (decodes lib) ++ lines) = _
      cases hutf8 : String.fromUTF8? bytes with
      | some text =>
        rw [hutf8] at hs
        exact stream_of_onText (s := { s with messages := s.messages + 1 }) hb hs hlt hnone lines
      | none =>
        rw [hutf8] at hs
        obtain rfl := Except.ok.inj hs
        rw [stateOf_unlessLimit]
        rfl
    | ping | pong | frame =>
      obtain rfl := Except.ok.inj hs
      rfl
    | close frame => exact absurd trivial hends

theorem book_of_endsRun {r : Except String Message} {y : ForInStep DebugState}
    (hs : s.onRead lib π updatesToLog r = .ok y) (hends : EndsRun r) :
    ∃ s₁, y = .done s₁ ∧ s₁.book = s.book := by
  cases r with
  | error err =>
    obtain rfl := Except.ok.inj hs
    exact ⟨_, rfl, rfl⟩
  | ok msg =>
    cases msg with
    | close frame =>
      obtain rfl := Except.ok.inj hs
      exact ⟨_, rfl, rfl⟩
    | _ => exact absurd hends id

theorem received_cons {r : Except String Message} (hends : ¬ EndsRun r)
    (reads : List (Except String Message)) :
    received lib (r :: reads) = (textOf r).toList.filter (decodes lib) ++ received lib reads := by
  have hgo : (r :: reads).takeWhile (fun r => ¬ EndsRun r) =
      r :: reads.takeWhile fun r => ¬ EndsRun r :=
    List.takeWhile_cons_of_pos (decide_eq_true hends)
  rw [received, hgo]
  cases htext : textOf r with
  | none =>
    rw [List.filterMap_cons_none htext]
    rfl
  | some text =>
    rw [List.filterMap_cons_some htext, List.filter_cons]
    cases hline : decodes lib text <;> simp [hline, received]

/-- What the loop leaves in the book. -/
theorem stream_of_loop (hb : ∃ a, Represents π s.book a) (hstart : s.errors < errorLimit)
    (h : s.loop lib π updatesToLog reads = .ok (s', left)) (hlt : s'.errors < errorLimit)
    (hnone : NoneRefused s'.log) :
    s.book.stream lib.parseJson .sp500 π .strict (received lib reads) =
      .ok (.ok (), s'.book) := by
  induction reads generalizing s with
  | nil =>
    obtain rfl := congrArg Prod.fst (Except.ok.inj h)
    rfl
  | cons r reads ih =>
    rw [DebugState.loop] at h
    obtain ⟨y, hy, h⟩ := bind_eq_ok_iff.mp h
    obtain ⟨a, hrep⟩ := hb
    by_cases hends : EndsRun r
    · obtain ⟨s₁, rfl, hbook⟩ := book_of_endsRun hy hends
      obtain rfl := congrArg Prod.fst (Except.ok.inj h)
      have hnil : received lib (r :: reads) = [] := by
        rw [received, List.takeWhile_cons_of_neg (by simpa using hends)]
        rfl
      rw [hnil, ← hbook]
      rfl
    · rw [received_cons hends]
      cases y with
      | done s₁ =>
        obtain rfl := congrArg Prod.fst (Except.ok.inj h)
        exact absurd hlt (Nat.not_lt.mpr ((onRead_done hy).resolve_right hends))
      | yield s₁ =>
        have hstart' := errors_lt_of_yield hstart hy
        -- what is not in the whole log was not in the log so far
        have hnone' : NoneRefused s₁.log := fun v hv =>
          hnone v ((loop_steps hstart' h).log_grows.subset hv)
        rw [stream_of_onRead hrep hy hstart' hnone' hends]
        exact ih ((onRead_steps hstart hy).represents ⟨a, hrep⟩) hstart' h

/-- **The debug logger is the application loop with patience.** Unless it has given up or a snapshot
was refused, its book is the one that the application loop gets under the strict policy from the
texts that it received and that decode. -/
theorem debugLog_streams
    (h : (DebugState.start updatesToLog).loop lib π updatesToLog reads = .ok (s, left))
    (hlimit : s.errors ≠ errorLimit) (hnone : NoneRefused s.log) :
    OrderBook.new.stream lib.parseJson .sp500 π .strict (received lib reads) =
      .ok (.ok (), s.book) := by
  have hle := ((counted_start updatesToLog).steps (run_steps h)).errors_le
  exact stream_of_loop ⟨_, represents_new π⟩ (errors_start updatesToLog) h
    (Nat.lt_of_le_of_ne hle hlimit) hnone

/-- Of the sample texts the last one does not decode. -/
theorem debugLog_streams_sample :
    OrderBook.new.stream sampleLibrary.parseJson .sp500 .dev .strict
      [snapshotLine "1", updatesLine, updatesLine] = .ok (.ok (), sampleState.book) := by
  have hreceived : received sampleLibrary sampleReads =
      [snapshotLine "1", updatesLine, updatesLine] := by decide +kernel
  have herrors : sampleState.errors ≠ errorLimit := by decide +kernel
  have hnone : NoneRefused sampleState.log := by
    unfold NoneRefused
    decide +kernel
  exact hreceived ▸ debugLog_streams sampleState_eq herrors hnone

end L4Book
