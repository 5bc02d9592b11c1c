import L4Book.Results.LiveReports
import L4Book.Results.Recording
import L4Book.Results.ReplayPolicies

/-!
# Recorded sessions

The live client, the capture script and the replay program are three programs in two languages. Put
one after another they are the documented way to look at a session again: the script records what
the venue sends, and the program replays the file. If nothing comes before the snapshot, the replay
ends with the very book that a live client has which received the same texts, down to its slots, and
with its counters.

Under the tolerant policy, which is the default of the program, this needs a session in which no
operation was refused.

## Main definitions

* `textsRead`: what a run of the live client has received
* `Beside`, `Rehearsed`: a replay next to the live client

## Main results

* `Rehearsed.onRound`: a round more
* `recording_replaysLive`
-/

namespace L4Book

open ReplayCounts

variable {lib : Library} {py : PythonJson} {π : Profile} {l l' : LiveState} {round : Round}
  {rounds : List Round} {left : Bool} {b b' c : OrderBook} {a : AbstractBook}
  {s : OrderBook × ReplayCounts} {d : DecodedWithMeta} {ds : List DecodedWithMeta}
  {done : List String}

/-- The texts of the messages that a run of the live client has counted. -/
def textsRead (rounds : List Round) (messages : ℕ) : List String :=
  ((rounds.map Round.read).take messages).filterMap textOf

/-- What these messages load to. -/
def loadedOf (ds : List DecodedWithMeta) : Capture := .collect ReasonedBookOp.op ds

/-! ### Operations -/

/-- A replay next to the live client: they have the same book, down to its slots, and have counted
the same. -/
structure Beside (π : Profile) (s : OrderBook × ReplayCounts) (l : LiveState) : Prop where
  represents : ∃ a, Represents π l.book a
  book : s.1 = l.book
  applied : s.2.applied = l.opsApplied
  errors : s.2.errors = l.opErrors

/-- An operation under the strict policy, next to `apply_op`. -/
theorem strict_beside (h : Represents π b a) {op : BookOp} {reply : Except BookError Unit}
    (hop : b.applyOp π op = .ok (reply, b')) :
    ∃ outcome, b.applyOpWithPolicy π op .strict = .ok (outcome, b') ∧
      (reply = .ok () → outcome = .applied op) ∧
      ∀ e, reply = .error e → ∃ e', outcome = .error op e' := by
  cases reply with
  | ok u =>
    refine ⟨_, (tolerates h).applied op .strict b' hop, fun _ => rfl, ?_⟩
    rintro e ⟨⟩
  | error e =>
    have hrefused := applyOp_of_refused h ((applyOp_spec h op).of_eq_ok hop).1.symm
    obtain rfl : b' = b := (Prod.mk.inj (Except.ok.inj (hop.symm.trans hrefused))).2
    obtain ⟨e', hstrict⟩ := strict_of_refused h hop
    refine ⟨_, hstrict, ?_, fun _ _ => ⟨e', rfl⟩⟩
    rintro ⟨⟩

/-- **The operations of an update.** -/
theorem Beside.applyOps {ops : List BookOp} (h : Beside π s l) (hl : l.applyOps π ops = .ok l') :
    ∃ s', OrderBook.replayCounting π .strict s ops = .ok s' ∧ Beside π s' l' ∧
      l'.updates = l.updates := by
  induction ops generalizing s l with
  | nil =>
    obtain rfl := Except.ok.inj hl
    exact ⟨s, rfl, h, rfl⟩
  | cons op ops ih =>
    rw [LiveState.applyOps, List.foldlM_cons] at hl
    obtain ⟨l₁, hop, hl⟩ := bind_eq_ok_iff.mp hl
    obtain ⟨⟨reply, book⟩, hop, hl₁⟩ := bind_eq_ok_iff.mp hop
    obtain ⟨a, hrep⟩ := h.represents
    obtain ⟨outcome, hstrict, happlied, herror⟩ := strict_beside hrep hop
    have hbook : ∃ a', Represents π book a' := ⟨_, ((applyOp_spec hrep op).of_eq_ok hop).2⟩
    have hbeside : Beside π (book, s.2.visit outcome) l₁ ∧ l₁.updates = l.updates := by
      cases reply with
      | ok u =>
        obtain rfl := happlied rfl
        obtain rfl := Except.ok.inj hl₁
        refine ⟨⟨hbook, rfl, ?_, ?_⟩, rfl⟩
        · rw [visit_applied, h.applied]
          rfl
        · rw [visit_errors, h.errors]
          rfl
      | error e =>
        obtain ⟨e', rfl⟩ := herror e rfl
        obtain rfl := Except.ok.inj hl₁
        refine ⟨⟨hbook, rfl, ?_, ?_⟩, rfl⟩
        · rw [visit_applied, h.applied]
          rfl
        · rw [visit_errors, h.errors]
          rfl
    obtain ⟨s', hrest, hs', hupdates⟩ := ih hbeside.1 hl
    refine ⟨s', ?_, hs', hupdates.trans hbeside.2⟩
    rw [replayCounting_cons, h.book, hstrict]
    exact hrest

/-! ### Messages -/

/-- The strict replay of what these messages load to, next to the live client that received
them. -/
structure Rehearsed (π : Profile) (ds : List DecodedWithMeta) (l : LiveState) : Prop where
  updates : (loadedOf ds).stats.updatesMessages = l.updates
  replays : ∃ first s, openBook π (loadedOf ds).snapshot = .ok first ∧
    OrderBook.replayCounting π .strict (first, .start) (loadedOf ds).updates.flatten = .ok s ∧
    Beside π s l

theorem loadedOf_append (ds ds' : List DecodedWithMeta) :
    loadedOf (ds ++ ds') = (loadedOf ds).append (loadedOf ds') := CaptureOf.collect_append ds ds'

/-- Nothing has been received. -/
theorem rehearsed_start (π : Profile) : Rehearsed π [] .start := by
  have hfirst : OrderBook.new.applySnapshot π [] = .ok (.ok (), .new) := rfl
  exact ⟨rfl, .new, (.new, .start), openBook_eq_ok_iff.mpr hfirst, rfl, ⟨_, represents_new π⟩,
    rfl, rfl, rfl⟩

/-- A snapshot clears the book first, so what it makes does not depend on the book. -/
theorem openBook_of_applySnapshot {orders : List Order}
    (hop : b.applySnapshot π orders = .ok (.ok (), c)) : openBook π orders = .ok c := by
  have hsame : OrderBook.new.applySnapshot π orders = b.applySnapshot π orders := rfl
  exact openBook_eq_ok_iff.mpr (hsame.trans hop)

/-- Nothing has been loaded yet. -/
def LoadsNothing (ds : List DecodedWithMeta) : Prop :=
  (loadedOf ds).snapshot = [] ∧ (loadedOf ds).updates.flatten = []

theorem applyOps_of_onDecoded {snapshotAt : ℕ} {batch : UpdateBatch}
    (h : l.onDecoded π snapshotAt (.updates batch) = .ok (.ok l')) :
    ({ l with updates := l.updates + 1 } : LiveState).applyOps π batch.ops = .ok l' := by
  rw [LiveState.onDecoded] at h
  cases hops : ({ l with updates := l.updates + 1 } : LiveState).applyOps π batch.ops with
  | error e =>
    rw [hops] at h
    cases h
  | ok l₁ =>
    rw [hops] at h
    obtain rfl := Except.ok.inj (Except.ok.inj h)
    rfl

/-- **A message that decodes.** -/
theorem Rehearsed.onDecoded {snapshotAt : ℕ} (h : Rehearsed π ds l)
    (hl : l.onDecoded π snapshotAt (stripDecoded d) = .ok (.ok l'))
    (hfirst : d.isSnapshot → LoadsNothing ds) : Rehearsed π (ds ++ [d]) l' := by
  obtain ⟨hupdates, first, s, hopen, hrun, hbeside⟩ := h
  cases d with
  | skip =>
    obtain rfl := Except.ok.inj (Except.ok.inj hl)
    refine ⟨?_, first, s, ?_, ?_, hbeside⟩
    · rw [loadedOf_append]
      exact hupdates
    · rw [loadedOf_append]
      exact (congrArg (openBook π) (List.append_nil _)).trans hopen
    · rw [loadedOf_append]
      refine Eq.trans (congrArg _ ?_) hrun
      exact congrArg List.flatten (List.append_nil _)
  | snapshot orders cause =>
    -- all that is loaded is this snapshot
    obtain ⟨hnoOrders, hnoOps⟩ := hfirst rfl
    rw [hnoOps] at hrun
    obtain rfl := Except.ok.inj hrun
    obtain ⟨⟨r, book⟩, hop, hl⟩ := bind_eq_ok_iff.mp hl
    rcases r with err | u
    · cases hl
    obtain rfl := Except.ok.inj (Except.ok.inj hl)
    obtain ⟨a, hrep⟩ := hbeside.represents
    have hbook : ∃ a', Represents π book a' :=
      ⟨_, ((applySnapshot_spec hrep orders).of_eq_ok hop).2⟩
    refine ⟨?_, book, (book, .start), ?_, ?_, hbook, rfl, hbeside.applied, hbeside.errors⟩
    · rw [loadedOf_append]
      exact hupdates
    · have horders : (loadedOf (ds ++ [.snapshot orders cause])).snapshot = orders := by
        rw [loadedOf_append]
        show (loadedOf ds).snapshot ++ (orders ++ []) = orders
        rw [hnoOrders, List.nil_append, List.append_nil]
      rw [horders, openBook_of_applySnapshot hop]
    · have hops : (loadedOf (ds ++ [.snapshot orders cause])).updates.flatten = [] := by
        rw [loadedOf_append]
        show ((loadedOf ds).updates ++ []).flatten = []
        rw [List.append_nil, hnoOps]
      rw [hops]
      rfl
  | updates batch =>
    have hops := applyOps_of_onDecoded hl
    obtain ⟨s', hrest, hbeside', hcount⟩ := Beside.applyOps
      (l := { l with updates := l.updates + 1 })
      ⟨hbeside.represents, hbeside.book, hbeside.applied, hbeside.errors⟩ hops
    refine ⟨?_, first, s', ?_, ?_, hbeside'⟩
    · rw [loadedOf_append, hcount]
      exact congrArg (· + 1) hupdates
    · rw [loadedOf_append]
      exact (congrArg (openBook π) (List.append_nil _)).trans hopen
    · have hflatten : (loadedOf (ds ++ [.updates batch])).updates.flatten =
          (loadedOf ds).updates.flatten ++ batch.ops.map ReasonedBookOp.op := by
        rw [loadedOf_append]
        show ((loadedOf ds).updates ++ [batch.ops.map ReasonedBookOp.op]).flatten = _
        rw [List.flatten_append, List.flatten_singleton]
      rw [hflatten, OrderBook.replayCounting, List.foldlM_append]
      exact bind_eq_ok_iff.mpr ⟨s, hrun, hrest⟩

/-- Reporting changes nothing that is compared. -/
theorem Rehearsed.reported (h : Rehearsed π ds l) (hsame : SameButReports l l') :
    Rehearsed π ds l' := by
  obtain ⟨hupdates, first, s, hopen, hrun, hrep, hbook, happlied, herrors⟩ := h
  refine ⟨hupdates.trans hsame.updates.symm, first, s, hopen, hrun, ?_,
    hbook.trans hsame.book.symm, happlied.trans hsame.applied.symm,
    herrors.trans hsame.errors.symm⟩
  rwa [hsame.book]

/-- A text that the live client survives decodes. -/
theorem Rehearsed.onText {text : String} {x : ForInStep LiveState} (h : Rehearsed π ds l)
    (hl : l.onText lib π round text = .ok (.ok x))
    (hfirst : ∀ orders, decodeLine lib.parseJson .sp500 text = .ok (.snapshot orders) →
      LoadsNothing ds) :
    ∃ d, decodeLineWithMeta lib.parseJson .sp500 text = .ok d ∧
      Rehearsed π (ds ++ [d]) (liveStateOf x) := by
  rw [LiveState.onText] at hl
  rw [decodeLine] at hl hfirst
  cases hd : decodeLineWithMeta lib.parseJson .sp500 text with
  | error e =>
    rw [hd] at hl
    cases hl
  | ok d =>
    rw [hd] at hl hfirst
    obtain ⟨r, hr, hl⟩ := bind_eq_ok_iff.mp hl
    cases r with
    | error e => cases hl
    | ok l₁ =>
      dsimp only at hl
      cases hend : l₁.endRound π round.now with
      | error e =>
        rw [hend] at hl
        cases hl
      | ok x' =>
        rw [hend] at hl
        obtain rfl := Except.ok.inj (Except.ok.inj hl)
        have hsnapshot : d.isSnapshot → LoadsNothing ds := by
          intro hd
          cases d with
          | snapshot orders cause => exact hfirst orders rfl
          | skip => cases hd
          | updates batch => cases hd
        refine ⟨d, rfl, (h.onDecoded hr hsnapshot).reported ?_⟩
        have hsame := endRound_eq_ok hend
        cases x' <;> exact hsame

/-! ### Rounds -/

/-- **A round**, and what it receives. -/
theorem Rehearsed.onRound {x : ForInStep LiveState} (h : Rehearsed π ds l)
    (hx : l.onRound lib π round = .ok (.ok x))
    (hfirst : ∀ text orders, textOf round.read = some text →
      decodeLine lib.parseJson .sp500 text = .ok (.snapshot orders) → LoadsNothing ds) :
    ∃ ds', (textOf round.read).toList.mapM (decodeLineWithMeta lib.parseJson .sp500) = .ok ds' ∧
      Rehearsed π (ds ++ ds') (liveStateOf x) := by
  have hcount : Rehearsed π ds { l with messages := l.messages + 1 } := by
    obtain ⟨hupdates, first, s, hopen, hrun, hrep, hbook, happlied, herrors⟩ := h
    exact ⟨hupdates, first, s, hopen, hrun, hrep, hbook, happlied, herrors⟩
  have hquiet : textOf round.read = none → liveStateOf x = { l with messages := l.messages + 1 } →
      ∃ ds', (textOf round.read).toList.mapM (decodeLineWithMeta lib.parseJson .sp500) = .ok ds' ∧
        Rehearsed π (ds ++ ds') (liveStateOf x) := by
    intro hnone hsame
    refine ⟨[], by rw [hnone]; rfl, ?_⟩
    rwa [hsame, List.append_nil]
  have htext : ∀ text, textOf round.read = some text →
      ({ l with messages := l.messages + 1 } : LiveState).onText lib π round text =
        .ok (.ok x) →
      ∃ ds', (textOf round.read).toList.mapM (decodeLineWithMeta lib.parseJson .sp500) = .ok ds' ∧
        Rehearsed π (ds ++ ds') (liveStateOf x) := by
    intro text hread hl
    obtain ⟨d, hd, hnext⟩ := hcount.onText hl fun orders => hfirst text orders hread
    refine ⟨[d], ?_, hnext⟩
    rw [hread, Option.toList_some, List.mapM_cons, hd]
    rfl
  rw [LiveState.onRound] at hx
  cases hread : round.read with
  | error err =>
    rw [hread] at hx
    cases hx
  | ok msg =>
    rw [hread] at hx hquiet htext
    cases msg with
    | text text => exact htext text rfl hx
    | binary bytes =>
      dsimp only at hx
      cases hutf8 : String.fromUTF8? bytes with
      | none =>
        rw [hutf8] at hx
        cases hx
      | some text =>
        rw [hutf8] at hx
        exact htext text hutf8 hx
    | ping | pong | frame =>
      obtain rfl := Except.ok.inj (Except.ok.inj hx)
      exact hquiet rfl rfl
    | close frame =>
      obtain rfl := Except.ok.inj (Except.ok.inj hx)
      exact hquiet rfl rfl

theorem textsRead_cons (round : Round) (rounds : List Round) (n : ℕ) :
    textsRead (round :: rounds) (n + 1) = (textOf round.read).toList ++ textsRead rounds n := by
  rw [textsRead, List.map_cons, List.take_succ_cons, textsRead]
  cases htext : textOf round.read with
  | none =>
    rw [List.filterMap_cons_none htext]
    rfl
  | some text =>
    rw [List.filterMap_cons_some htext]
    rfl

/-- Lines that bring nothing load to nothing. -/
theorem loadsNothing_of_lines {parseJson : String → Except String Json} {scales : Scales}
    (hdone : done.mapM (decodeLineWithMeta parseJson scales) = .ok ds)
    (hnothing : ∀ line ∈ done, ∀ d, decodeLine parseJson scales line = .ok d →
      d.orders = [] ∧ d.ops = []) : LoadsNothing ds := by
  have hall : ∀ d ∈ ds, (stripDecoded d).orders = [] ∧ (stripDecoded d).ops = [] := by
    intro d hd
    obtain ⟨line, hline, hdecode⟩ := exists_of_mem_forall₂ (mapM_eq_ok_iff.mp hdone) hd
    refine hnothing line hline _ ?_
    rw [decodeLine, hdecode]
    rfl
  constructor
  · refine List.flatMap_eq_nil_iff.mpr fun d hd => ?_
    have horders := (hall d hd).1
    cases d <;> exact horders
  · refine List.flatten_eq_nil_iff.mpr fun ops hops => ?_
    obtain ⟨batch, hbatch, rfl⟩ := List.mem_map.mp hops
    obtain ⟨d, hd, hdbatch⟩ := List.mem_filterMap.mp hbatch
    have hnone := (hall d hd).2
    cases d with
    | updates batch' =>
      obtain rfl := Option.some.inj hdbatch
      exact hnone
    | skip => cases hdbatch
    | snapshot orders cause => cases hdbatch

/-- **A run.** -/
theorem Rehearsed.loop (h : Rehearsed π ds l)
    (hdone : done.mapM (decodeLineWithMeta lib.parseJson .sp500) = .ok ds)
    (hrun : l.loop lib π rounds = .ok (.ok (l', left)))
    (hfirst : SnapshotsFirst lib.parseJson .sp500
      (done ++ textsRead rounds (l'.messages - l.messages))) :
    ∃ ds', (textsRead rounds (l'.messages - l.messages)).mapM
      (decodeLineWithMeta lib.parseJson .sp500) = .ok ds' ∧ Rehearsed π (ds ++ ds') l' := by
  induction rounds generalizing l done ds with
  | nil =>
    obtain rfl := congrArg Prod.fst (Except.ok.inj (Except.ok.inj hrun))
    refine ⟨[], ?_, by rwa [List.append_nil]⟩
    rw [textsRead, List.map_nil, List.take_nil]
    rfl
  | cons round rounds ih =>
    obtain ⟨x, hx, hrest⟩ := loop_cons_cases hrun
    have hmessages := onRound_messages hx
    have hle : (liveStateOf x).messages ≤ l'.messages := by
      rcases hrest with ⟨rfl, -⟩ | ⟨l₁, rfl, hloop⟩
      · exact Nat.le_refl _
      · exact messages_le_of_loop hloop
    have hn : l'.messages - l.messages = l'.messages - (liveStateOf x).messages + 1 := by omega
    rw [hn, textsRead_cons] at hfirst ⊢
    obtain ⟨ds₁, hds₁, h₁⟩ := h.onRound hx fun text orders htext hd => by
      rw [htext] at hfirst
      exact loadsNothing_of_lines hdone (hfirst done text _ orders rfl hd)
    have hdone₁ : (done ++ (textOf round.read).toList).mapM
        (decodeLineWithMeta lib.parseJson .sp500) = .ok (ds ++ ds₁) := by
      rw [List.mapM_append, hdone, ok_bind, hds₁]
      rfl
    obtain ⟨ds₂, hds₂, h₂⟩ : ∃ ds₂, (textsRead rounds (l'.messages - (liveStateOf x).messages)).mapM
        (decodeLineWithMeta lib.parseJson .sp500) = .ok ds₂ ∧
        Rehearsed π (ds ++ ds₁ ++ ds₂) l' := by
      rcases hrest with ⟨rfl, -⟩ | ⟨l₁, rfl, hloop⟩
      · -- the client has left its loop
        refine ⟨[], ?_, by rwa [List.append_nil]⟩
        rw [show liveStateOf (.done l') = l' from rfl, Nat.sub_self, textsRead, List.take_zero]
        rfl
      · refine ih h₁ hdone₁ hloop ?_
        rwa [List.append_assoc]
    refine ⟨ds₁ ++ ds₂, ?_, by rwa [← List.append_assoc]⟩
    rw [List.mapM_append, hds₁, ok_bind, hds₂]
    rfl

/-! ### Replaying a recording -/

/-- A strict replay without errors, and the tolerant one. -/
theorem tolerant_beside (h : Represents π b a) {ops : List BookOp}
    (hrun : OrderBook.replayCounting π .strict (b, .start) ops = .ok s) (hnone : s.2.errors = 0) :
    ∃ counts, OrderBook.replayCounting π .dwellirTolerant (b, .start) ops = .ok (s.1, counts) ∧
      counts.applied = s.2.applied ∧ counts.errors = 0 := by
  obtain ⟨counts, htolerant, happlied⟩ := tolerantReplay_of_strict h hrun hnone .start
  obtain ⟨outcomes, -, hlength, htells⟩ := replayCounting_tells ReplayCounts.tells_start htolerant
  have htotal := htells.total
  rw [List.nil_append, hlength] at htotal
  have hzero : ReplayCounts.start.applied = 0 := rfl
  have hcoerced : counts.coerced = 0 := by omega
  obtain ⟨strict, hstrict, hsame, -⟩ := strictReplay_of_tolerant h htolerant hcoerced .start
  obtain rfl := congrArg Prod.snd (Except.ok.inj (hrun.symm.trans hstrict))
  exact ⟨counts, htolerant, by omega, by omega⟩

/-- **A recorded session can be replayed.** What a live client has received, recorded by the script
and replayed by the program, gives the book of the client and its counters: under the strict policy,
and under the tolerant one if the client's book refused nothing. -/
theorem recording_replaysLive (hrun : LiveState.start.loop lib π rounds = .ok (.ok (l, left)))
    {received : List (ℕ × String)}
    (hreceived : received.map Prod.snd = textsRead rounds l.messages)
    (hfirst : SnapshotsFirst lib.parseJson .sp500 (received.map Prod.snd))
    (hempty : ∃ e, lib.parseJson "" = .error e)
    (hloads : ∀ r ∈ received, ∀ msg, lib.parseJson r.2 = .ok msg → py.loads r.2 = some msg)
    (hvenue : FromVenue py received) (args : CaptureArgs)
    (hdumps : ∀ v ∈ captureRecords py args received, lib.parseJson (py.dumps v) = .ok v)
    {strict : Option String} (hpolicy : asksForStrict strict = true ∨ l.opErrors = 0) :
    ∃ report b, replayCapture lib.parseJson π strict (captureFile py args received) =
        .ok (report, b) ∧
      report.capture.stats.updatesMessages = l.updates ∧
      report.counts.applied = l.opsApplied ∧ report.counts.errors = l.opErrors ∧
      b = l.book := by
  have hzero : l.messages - LiveState.start.messages = l.messages := Nat.sub_zero _
  rw [hreceived] at hfirst
  have hnothing : ([] : List String).mapM (decodeLineWithMeta lib.parseJson .sp500) = .ok [] := rfl
  obtain ⟨ds, hds, hupdates, first, s, hopen, hreplay, -, hbook, happlied, herrors⟩ :=
    (rehearsed_start π).loop hnothing hrun (by rwa [hzero])
  rw [hzero, ← hreceived] at hds
  have hboth : ∀ r ∈ received, ∃ msg, py.loads r.2 = some msg ∧ lib.parseJson r.2 = .ok msg := by
    intro r hr
    -- every text has been decoded
    obtain ⟨d, -, hd⟩ :=
      exists_of_mem_forall₂ (mapM_eq_ok_iff.mp hds).flip (List.mem_map_of_mem hr)
    obtain ⟨msg, hmsg, -⟩ := decodeLineWithMeta_cases hd
    exact ⟨msg, hloads r hr msg hmsg, hmsg⟩
  have hload : loadCapture lib.parseJson .btcDefault (captureFile py args received) =
      .ok (loadedOf (.skip :: ds)) := by
    have hscales : Scales.btcDefault = .sp500 := rfl
    rw [loadCapture_eq, mapM_recording hempty _ args hvenue hdumps, mapM_decodeReceived hboth,
      hscales, hds]
    rfl
  obtain ⟨counts, hcounts, happlied', herrors'⟩ : ∃ counts,
      OrderBook.replayCounting π (replayPolicy strict) (first, .start)
        (loadedOf ds).updates.flatten = .ok (s.1, counts) ∧
      counts.applied = s.2.applied ∧ counts.errors = s.2.errors := by
    cases hv : asksForStrict strict with
    | true =>
      rw [replayPolicy_of_strict hv]
      exact ⟨s.2, hreplay, rfl, rfl⟩
    | false =>
      rw [replayPolicy_of_tolerant hv]
      have hnone : s.2.errors = 0 :=
        herrors.trans (hpolicy.resolve_left (by rw [hv]; exact Bool.false_ne_true))
      obtain ⟨a₁, h₁⟩ := represents_of_openBook hopen
      obtain ⟨counts, htolerant, happlied, hzero⟩ := tolerant_beside h₁ hreplay hnone
      exact ⟨counts, htolerant, happlied, hzero.trans hnone.symm⟩
  exact ⟨_, s.1, replayCapture_eq_ok_iff.mpr ⟨_, first, counts, hload, hopen, hcounts, rfl⟩,
    hupdates, happlied'.trans happlied, herrors'.trans herrors, hbook⟩

/-- A library that reads what the sample venue sends and what the sample script writes. -/
def recordedLibrary : Library :=
  { sampleLibrary with
    parseJson := fun text =>
      if text = "snapshot" then .ok (snapshotValue 1)
      else if text = "updates" then .ok updatesValue
      else parseRecorded text }

/-- A ping, and what the sample script receives. -/
def recordedRounds : List Round :=
  [.ok .ping, .ok (.text "snapshot"), .ok (.text "updates")].map fun read => ⟨read, 0, 0⟩

theorem snapshotsFirst_recorded :
    SnapshotsFirst recordedLibrary.parseJson .sp500 (sampleReceived.map Prod.snd) := by
  intro before line after orders heq hline
  rcases before with _ | ⟨l, _ | ⟨l', before⟩⟩
  · exact fun l hl => absurd hl List.not_mem_nil
  · obtain rfl : "updates" = line := (List.cons.inj (List.cons.inj heq).2).1
    have hupdates : decodeLine recordedLibrary.parseJson .sp500 "updates" =
        .ok (.updates ⟨[.add openedOrder], 0, 0⟩) := by decide +kernel
    rw [hupdates] at hline
    cases hline
  · have hlength := congrArg List.length heq
    simp [sampleReceived] at hlength

/-- The client counts three messages, and an operation that is not refused. -/
theorem exists_loop_recorded : ∃ l, LiveState.start.loop recordedLibrary .dev recordedRounds =
    .ok (.ok (l, false)) ∧ l.messages = 3 ∧ l.opsApplied = 1 ∧ l.opErrors = 0 := by
  have hcounts : ((LiveState.start.loop recordedLibrary .dev
      recordedRounds).toOption.bind Except.toOption).map
        (fun r => (r.1.messages, r.1.opsApplied, r.1.opErrors, r.2)) = some (3, 1, 0, false) := by
    decide +kernel
  cases hrun : LiveState.start.loop recordedLibrary .dev recordedRounds with
  | error e =>
    rw [hrun] at hcounts
    cases hcounts
  | ok r =>
    rw [hrun] at hcounts
    cases r with
    | error e => cases hcounts
    | ok r =>
      obtain ⟨l, left⟩ := r
      obtain ⟨hmessages, happlied, herrors, hleft⟩ :
          l.messages = 3 ∧ l.opsApplied = 1 ∧ l.opErrors = 0 ∧ left = false := by
        simpa using Option.some.inj hcounts
      exact ⟨l, by rw [hleft], hmessages, happlied, herrors⟩

/-- The tolerant replay of the recorded session. -/
theorem recording_replaysLive_sample : ∃ l report b,
    LiveState.start.loop recordedLibrary .dev recordedRounds = .ok (.ok (l, false)) ∧
    replayCapture recordedLibrary.parseJson .dev none
      (captureFile samplePython sampleArgs sampleReceived) = .ok (report, b) ∧
    report.counts.applied = 1 ∧ b = l.book := by
  obtain ⟨l, hrun, hmessages, happlied, herrors⟩ := exists_loop_recorded
  have hreceived : sampleReceived.map Prod.snd = textsRead recordedRounds l.messages := by
    rw [hmessages]
    rfl
  have hempty : ∃ e, recordedLibrary.parseJson "" = .error e := ⟨_, by rfl⟩
  have hloads : ∀ r ∈ sampleReceived, ∀ msg, recordedLibrary.parseJson r.2 = .ok msg →
      samplePython.loads r.2 = some msg := by
    intro r hr msg hmsg
    rcases List.mem_pair.mp hr with rfl | rfl
    · obtain rfl := Except.ok.inj hmsg
      rfl
    · obtain rfl := Except.ok.inj hmsg
      rfl
  have hrecords : captureRecords samplePython sampleArgs sampleReceived =
    [captureHeader sampleArgs, Recorder.record 5 0 "Snapshot" (snapshotValue 1),
      Recorder.record 6 1 "Updates" updatesValue] := by rfl
  have hdumps : ∀ v ∈ captureRecords samplePython sampleArgs sampleReceived,
      recordedLibrary.parseJson (samplePython.dumps v) = .ok v := by
    rw [hrecords, List.forall_mem_cons, List.forall_mem_cons, List.forall_mem_singleton]
    exact ⟨rfl, rfl, rfl⟩
  have hpolicy : asksForStrict none = true ∨ l.opErrors = 0 := Or.inr herrors
  obtain ⟨report, b, hreplay, -, hcounts, -, hsame⟩ :=
    recording_replaysLive hrun hreceived snapshotsFirst_recorded hempty hloads
      fromVenue_sample sampleArgs hdumps hpolicy
  exact ⟨l, report, b, hrun, hreplay, hcounts.trans happlied, hsame⟩

end L4Book
