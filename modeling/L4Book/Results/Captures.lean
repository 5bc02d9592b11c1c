import L4Book.Capture
import L4Book.Refinement.Snapshot
import L4Book.Results.Dedupe

/-!
# Loading a capture and streaming it

Streaming a capture applies every line when its turn comes, and a snapshot takes the place of all
that came before it. Loading it keeps the orders of all snapshots apart from the operations of all
updates, and loses where the snapshots stood. So the two can only part at a line with a snapshot:
they agree on every capture that brings neither an order nor an operation before its snapshots, and
not on every other.

## Main definitions

* `LoadStreams`: loading and streaming leave the same orders
* `SnapshotsFirst`: nothing comes before a snapshot

## Main results

* `capture_loadStreams`
* `not_forall_loadStreams`: updates before a snapshot, and a second snapshot
-/

namespace L4Book

/-- The orders that a line brings. -/
def Decoded.orders : Decoded → List Order
  | .snapshot orders => orders
  | _ => []

/-- The operations that a line brings. -/
def Decoded.ops : Decoded → List BookOp
  | .updates batch => batch.ops
  | _ => []

section

variable (π : Profile) (parseJson : String → Except String Json) (scales : Scales)
  (lines : List String)

/-- Every line decodes. -/
def Decodes : Prop := ∀ line ∈ lines, ∃ d, decodeLine parseJson scales line = .ok d

/-- The capture loads, and what is loaded, replayed, leaves the orders that the lines do when they
are streamed, unless a snapshot is refused in one of the two. -/
def LoadStreams : Prop :=
  ∃ capture, loadCapture parseJson scales lines = .ok capture ∧
    ∀ b b', capture.replay π .dwellirTolerant = .ok (.ok (), b) →
      OrderBook.new.stream parseJson scales π .dwellirTolerant lines = .ok (.ok (), b') →
      SameOrders b b'

/-- No line before a snapshot brings an order or an operation. -/
def SnapshotsFirst : Prop :=
  ∀ before line after orders, lines = before ++ line :: after →
    decodeLine parseJson scales line = .ok (.snapshot orders) →
    ∀ l ∈ before, ∀ d, decodeLine parseJson scales l = .ok d → d.orders = [] ∧ d.ops = []

end

variable {π : Profile} {policy : ReplayPolicy} {parseJson : String → Except String Json}
  {scales : Scales} {lines before after : List String} {line : String} {d : Decoded}
  {b b' : OrderBook} {a : AbstractBook}

/-! ### What a line says -/

/-- What a line says that decodes. -/
def contentOf (parseJson : String → Except String Json) (scales : Scales) (line : String) :
    Decoded := ((decodeLine parseJson scales line).toOption).getD .skip

theorem contentOf_eq (h : decodeLine parseJson scales line = .ok d) :
    contentOf parseJson scales line = d := by
  rw [contentOf, h]
  rfl

/-- The orders of all snapshots. -/
def allOrders (parseJson : String → Except String Json) (scales : Scales) (lines : List String) :
    List Order := lines.flatMap fun line => (contentOf parseJson scales line).orders

/-- The operations of all updates. -/
def allOps (parseJson : String → Except String Json) (scales : Scales) (lines : List String) :
    List BookOp := lines.flatMap fun line => (contentOf parseJson scales line).ops

/-! ### What is loaded -/

/-- A round of the loading loop. -/
theorem exists_readLine (hempty : ∃ e, parseJson "" = .error e)
    (hline : decodeLine parseJson scales line = .ok d) (capture : Capture) :
    ∃ capture', capture.readLine ReasonedBookOp.op parseJson scales line = .ok capture' ∧
      capture'.snapshot = capture.snapshot ++ d.orders ∧
      capture'.updates.flatten = capture.updates.flatten ++ d.ops := by
  -- an empty line does not decode
  have hne : line ≠ "" := by
    rintro rfl
    obtain ⟨e, he⟩ := hempty
    rw [decodeLine, decodeLineWithMeta, he] at hline
    cases hline
  rw [CaptureOf.readLine, if_neg hne]
  rw [decodeLine] at hline
  cases hmeta : decodeLineWithMeta parseJson scales line with
  | error e =>
    rw [hmeta] at hline
    cases hline
  | ok m =>
    rw [hmeta] at hline
    obtain rfl : stripDecoded m = d := Except.ok.inj hline
    refine ⟨_, rfl, ?_⟩
    rcases m with _ | ⟨orders, cause⟩ | batch
    · exact ⟨(List.append_nil _).symm, (List.append_nil _).symm⟩
    · exact ⟨rfl, (List.append_nil _).symm⟩
    · refine ⟨(List.append_nil _).symm, ?_⟩
      simp [CaptureOf.push, stripDecoded, stripUpdateBatch, Decoded.ops]

/-- **What is loaded**: the orders of all snapshots, and the operations of all updates. -/
theorem exists_loadCapture (hempty : ∃ e, parseJson "" = .error e)
    (hlines : Decodes parseJson scales lines) :
    ∃ capture, loadCapture parseJson scales lines = .ok capture ∧
      capture.snapshot = allOrders parseJson scales lines ∧
      capture.updates.flatten = allOps parseJson scales lines := by
  have hloop : ∀ capture : Capture, ∃ capture',
      lines.foldlM (CaptureOf.readLine ReasonedBookOp.op parseJson scales) capture =
        .ok capture' ∧
      capture'.snapshot = capture.snapshot ++ allOrders parseJson scales lines ∧
      capture'.updates.flatten = capture.updates.flatten ++ allOps parseJson scales lines := by
    induction lines with
    | nil =>
      intro capture
      exact ⟨capture, rfl, (List.append_nil _).symm, (List.append_nil _).symm⟩
    | cons line lines ih =>
      intro capture
      rw [Decodes, List.forall_mem_cons] at hlines
      obtain ⟨⟨d, hd⟩, hlines⟩ := hlines
      obtain ⟨c₁, hread, horders₁, hops₁⟩ := exists_readLine hempty hd capture
      obtain ⟨c₂, hrest, horders₂, hops₂⟩ := ih hlines c₁
      refine ⟨c₂, ?_, ?_, ?_⟩
      · rw [List.foldlM_cons, hread, ok_bind, hrest]
      · rw [horders₂, horders₁, allOrders, allOrders, List.flatMap_cons, contentOf_eq hd,
          List.append_assoc]
      · rw [hops₂, hops₁, allOps, allOps, List.flatMap_cons, contentOf_eq hd, List.append_assoc]
  obtain ⟨capture, hload, horders, hops⟩ := hloop .empty
  exact ⟨capture, hload, horders, hops⟩

theorem foldlM_replay (updates : List (List BookOp)) :
    updates.foldlM (OrderBook.replay π policy) b = b.replay π policy updates.flatten := by
  induction updates generalizing b with
  | nil => rfl
  | cons ops updates ih =>
    rw [List.foldlM_cons, List.flatten_cons, replay_append]
    refine congrArg (b.replay π policy ops >>= ·) ?_
    funext b₁
    exact ih

/-- Replaying a capture is a snapshot and one long replay. -/
theorem replay_eq_ok_iff {capture : Capture} :
    capture.replay π policy = .ok (.ok (), b) ↔
      ∃ b₁, OrderBook.new.applySnapshot π capture.snapshot = .ok (.ok (), b₁) ∧
        b₁.replay π policy capture.updates.flatten = .ok b := by
  rw [Capture.replay, bind_eq_ok_iff]
  simp only [foldlM_replay]
  constructor
  · rintro ⟨⟨r, b₁⟩, hsnapshot, hrest⟩
    rcases r with e | u
    · cases hrest
    · obtain ⟨b₂, hreplay, hb₂⟩ := bind_eq_ok_iff.mp hrest
      obtain rfl : b₂ = b := by
        cases hb₂
        rfl
      exact ⟨b₁, hsnapshot, hreplay⟩
  · rintro ⟨b₁, hsnapshot, hreplay⟩
    refine ⟨_, hsnapshot, ?_⟩
    dsimp only
    rw [hreplay]
    rfl

/-! ### What is streamed -/

/-- The abstract book after a line. -/
noncomputable def AbstractBook.applyDecoded (policy : ReplayPolicy) (a : AbstractBook) :
    Decoded → AbstractBook
  | .skip => a
  | .snapshot orders => (addAll KeyedQueues.empty orders).2
  | .updates batch => batch.ops.foldl (replayOp policy) a

/-- A snapshot that is accepted takes the place of whatever was there. -/
theorem applySnapshot_represents (h : Represents π b a) {orders : List Order}
    (hr : b.applySnapshot π orders = .ok (.ok (), b')) :
    AbstractBook.Fresh KeyedQueues.empty orders ∧
      Represents π b' (AbstractBook.addAll KeyedQueues.empty orders).2 := by
  obtain ⟨hok, hrep⟩ := (applySnapshot_spec h orders).of_eq_ok hr
  rw [AbstractBook.applySnapshotWithPolicy, AbstractBook.rebuild] at hok hrep
  rcases AbstractBook.fresh_or_refused KeyedQueues.empty orders with
    hfresh | ⟨before, o, after, e, rfl, hbefore, hrefused⟩
  · rw [(AbstractBook.addAll_of_fresh hfresh).1] at hrep
    exact ⟨hfresh, hrep⟩
  · rw [AbstractBook.addAll_of_refused hbefore hrefused] at hok
    cases hok

/-- What a loaded capture leaves: its snapshot, then its operations. -/
theorem represents_of_capture {capture : Capture}
    (hr : capture.replay π policy = .ok (.ok (), b)) :
    Represents π b (capture.updates.flatten.foldl (AbstractBook.replayOp policy)
      (AbstractBook.addAll KeyedQueues.empty capture.snapshot).2) := by
  obtain ⟨b₁, hsnapshot, hreplay⟩ := replay_eq_ok_iff.mp hr
  exact replay_represents (applySnapshot_represents (represents_new π) hsnapshot).2 hreplay

/-- A line that does not fail. -/
theorem applyDecoded_represents (h : Represents π b a)
    (hr : b.applyDecoded π policy d = .ok (.ok (), b')) :
    Represents π b' (a.applyDecoded policy d) := by
  rcases d with _ | orders | batch
  · cases hr
    exact h
  · exact (applySnapshot_represents h hr).2
  · obtain ⟨b₁, hreplay, hb₁⟩ := bind_eq_ok_iff.mp hr
    cases hb₁
    exact replay_represents h hreplay

theorem stream_cons (hline : decodeLine parseJson scales line = .ok d) :
    b.stream parseJson scales π policy (line :: lines) = .ok (.ok (), b') ↔
      ∃ b₁, b.applyDecoded π policy d = .ok (.ok (), b₁) ∧
        b₁.stream parseJson scales π policy lines = .ok (.ok (), b') := by
  rw [OrderBook.stream, hline]
  dsimp only
  rw [bind_eq_ok_iff]
  constructor
  · rintro ⟨⟨r, b₁⟩, happly, hrest⟩
    rcases r with e | u
    · cases hrest
    · exact ⟨b₁, happly, hrest⟩
  · rintro ⟨b₁, happly, hrest⟩
    exact ⟨_, happly, hrest⟩

/-- A stream that is cut in two. -/
theorem stream_append (hlines : Decodes parseJson scales before) :
    b.stream parseJson scales π policy (before ++ after) = .ok (.ok (), b') ↔
      ∃ b₁, b.stream parseJson scales π policy before = .ok (.ok (), b₁) ∧
        b₁.stream parseJson scales π policy after = .ok (.ok (), b') := by
  induction before generalizing b with
  | nil =>
    constructor
    · intro hrest
      exact ⟨b, rfl, hrest⟩
    · rintro ⟨b₁, hb₁, hrest⟩
      cases hb₁
      exact hrest
  | cons line before ih =>
    rw [Decodes, List.forall_mem_cons] at hlines
    obtain ⟨⟨d, hd⟩, hlines⟩ := hlines
    rw [List.cons_append, stream_cons hd]
    simp only [stream_cons hd]
    constructor
    · rintro ⟨b₁, happly, hrest⟩
      obtain ⟨b₂, hbefore, hafter⟩ := (ih hlines).mp hrest
      exact ⟨b₂, ⟨b₁, happly, hbefore⟩, hafter⟩
    · rintro ⟨b₂, ⟨b₁, happly, hbefore⟩, hafter⟩
      exact ⟨b₁, happly, (ih hlines).mpr ⟨b₂, hbefore, hafter⟩⟩

/-- **What is streamed**: every line in turn. -/
theorem stream_represents (h : Represents π b a) (hlines : Decodes parseJson scales lines)
    (hrun : b.stream parseJson scales π policy lines = .ok (.ok (), b')) :
    Represents π b'
      ((lines.map (contentOf parseJson scales)).foldl (AbstractBook.applyDecoded policy) a) := by
  induction lines generalizing a b with
  | nil =>
    cases hrun
    exact h
  | cons line lines ih =>
    rw [Decodes, List.forall_mem_cons] at hlines
    obtain ⟨⟨d, hd⟩, hlines⟩ := hlines
    obtain ⟨b₁, happly, hrest⟩ := (stream_cons hd).mp hrun
    rw [List.map_cons, List.foldl_cons, contentOf_eq hd]
    exact ih (applyDecoded_represents h happly) hlines hrest

/-! ### Where the two can part -/

/-- No line is a snapshot. -/
def NoSnapshot (parseJson : String → Except String Json) (scales : Scales)
    (lines : List String) : Prop :=
  ∀ line ∈ lines, ∀ orders, decodeLine parseJson scales line ≠ .ok (.snapshot orders)

theorem allOrders_of_noSnapshot (hlines : Decodes parseJson scales lines)
    (hnone : NoSnapshot parseJson scales lines) : allOrders parseJson scales lines = [] := by
  refine List.flatMap_eq_nil_iff.mpr fun line hline => ?_
  obtain ⟨d, hd⟩ := hlines line hline
  rw [contentOf_eq hd]
  rcases d with _ | orders | batch
  · rfl
  · exact absurd hd (hnone line hline orders)
  · rfl

/-- Without a snapshot, streaming replays the operations. -/
theorem foldl_applyDecoded_of_noSnapshot (hlines : Decodes parseJson scales lines)
    (hnone : NoSnapshot parseJson scales lines) :
    (lines.map (contentOf parseJson scales)).foldl (AbstractBook.applyDecoded policy) a =
      (allOps parseJson scales lines).foldl (AbstractBook.replayOp policy) a := by
  induction lines generalizing a with
  | nil => rfl
  | cons line lines ih =>
    rw [Decodes, List.forall_mem_cons] at hlines
    rw [NoSnapshot, List.forall_mem_cons] at hnone
    obtain ⟨⟨d, hd⟩, hlines⟩ := hlines
    rw [List.map_cons, List.foldl_cons, allOps, List.flatMap_cons, List.foldl_append,
      contentOf_eq hd, ih hlines hnone.2]
    rcases d with _ | orders | batch
    · rfl
    · exact absurd hd (hnone.1 orders)
    · rfl

theorem decodes_append :
    Decodes parseJson scales (before ++ after) ↔
      Decodes parseJson scales before ∧ Decodes parseJson scales after :=
  List.forall_mem_append

theorem allOrders_append : allOrders parseJson scales (before ++ after) =
    allOrders parseJson scales before ++ allOrders parseJson scales after := List.flatMap_append

theorem allOps_append : allOps parseJson scales (before ++ after) =
    allOps parseJson scales before ++ allOps parseJson scales after := List.flatMap_append

/-- **Lines without a snapshot never part the two.** -/
theorem loadStreams_append (hempty : ∃ e, parseJson "" = .error e)
    (hlines : Decodes parseJson scales (before ++ after))
    (hnone : NoSnapshot parseJson scales after) (hbefore : LoadStreams π parseJson scales before) :
    LoadStreams π parseJson scales (before ++ after) := by
  obtain ⟨hd, hd'⟩ := decodes_append.mp hlines
  obtain ⟨capture, hload, horders, hops⟩ := exists_loadCapture hempty hlines
  obtain ⟨capture₁, hload₁, horders₁, hops₁⟩ := exists_loadCapture hempty hd
  obtain ⟨c, hc, hsame⟩ := hbefore
  obtain rfl : c = capture₁ := Except.ok.inj (hc.symm.trans hload₁)
  refine ⟨capture, hload, fun b b' hreplay hstream => ?_⟩
  -- both runs pass through what they do to the lines before
  obtain ⟨b₀, hsnapshot, hops'⟩ := replay_eq_ok_iff.mp hreplay
  rw [horders, allOrders_append, allOrders_of_noSnapshot hd' hnone, List.append_nil,
    ← horders₁] at hsnapshot
  rw [hops, allOps_append, ← hops₁, replay_append] at hops'
  obtain ⟨b₁, hb₁, hrest⟩ := bind_eq_ok_iff.mp hops'
  obtain ⟨b₁', hb₁', hrest'⟩ := (stream_append hd).mp hstream
  have h₁ := replay_represents (applySnapshot_represents (represents_new π) hsnapshot).2 hb₁
  have h₁' := stream_represents (represents_new π) hd hb₁'
  have hagree : SameOrders b₁ b₁' :=
    hsame b₁ b₁' (replay_eq_ok_iff.mpr ⟨b₀, hsnapshot, hb₁⟩) hb₁'
  have heq := h₁.eq_of_ordersAt h₁' hagree.ordersAt
  -- and from there on they replay the same operations
  have h := replay_represents h₁ hrest
  have h' := stream_represents h₁' hd' hrest'
  rw [foldl_applyDecoded_of_noSnapshot hd' hnone, ← heq] at h'
  exact h.sameOrders h'

/-- After a snapshot, streaming has its orders, and no others. -/
theorem stream_concat_represents {orders : List Order} (hlines : Decodes parseJson scales before)
    (hline : decodeLine parseJson scales line = .ok (.snapshot orders))
    (hrun : OrderBook.new.stream parseJson scales π policy (before ++ [line]) =
      .ok (.ok (), b)) :
    AbstractBook.Fresh KeyedQueues.empty orders ∧
      Represents π b (AbstractBook.addAll KeyedQueues.empty orders).2 := by
  obtain ⟨b₁, hb₁, hrest⟩ := (stream_append hlines).mp hrun
  obtain ⟨b₂, hsnapshot, hb₂⟩ := (stream_cons hline).mp hrest
  cases hb₂
  exact applySnapshot_represents (stream_represents (represents_new π) hlines hb₁) hsnapshot

theorem allOrders_eq_nil (hlines : Decodes parseJson scales lines)
    (hnothing : ∀ l ∈ lines, ∀ d, decodeLine parseJson scales l = .ok d →
      d.orders = [] ∧ d.ops = []) :
    allOrders parseJson scales lines = [] ∧ allOps parseJson scales lines = [] := by
  constructor
  · refine List.flatMap_eq_nil_iff.mpr fun line hline => ?_
    obtain ⟨d, hd⟩ := hlines line hline
    rw [contentOf_eq hd]
    exact (hnothing line hline d hd).1
  · refine List.flatMap_eq_nil_iff.mpr fun line hline => ?_
    obtain ⟨d, hd⟩ := hlines line hline
    rw [contentOf_eq hd]
    exact (hnothing line hline d hd).2

/-- **Where nothing comes before a snapshot, loading and streaming agree.** -/
theorem loadStreams_of_snapshotsFirst (hempty : ∃ e, parseJson "" = .error e)
    (hlines : Decodes parseJson scales lines) (hfirst : SnapshotsFirst parseJson scales lines) :
    LoadStreams π parseJson scales lines := by
  induction lines using List.reverseRecOn with
  | nil =>
    obtain ⟨capture, hload, horders, hops⟩ := exists_loadCapture hempty hlines
    refine ⟨capture, hload, fun b b' hreplay hstream => ?_⟩
    have h := represents_of_capture hreplay
    rw [horders, hops] at h
    exact h.sameOrders (stream_represents (represents_new π) hlines hstream)
  | append_singleton init line ih =>
    obtain ⟨hinit, hline⟩ := decodes_append.mp hlines
    by_cases hsnapshot : ∃ orders, decodeLine parseJson scales line = .ok (.snapshot orders)
    · -- all that is loaded is this snapshot
      obtain ⟨orders, hd⟩ := hsnapshot
      obtain ⟨hnoOrders, hnoOps⟩ := allOrders_eq_nil hinit (hfirst init line [] orders rfl hd)
      obtain ⟨capture, hload, horders, hops⟩ := exists_loadCapture hempty hlines
      have horders' : capture.snapshot = orders := by
        rw [horders, allOrders_append, hnoOrders, List.nil_append, allOrders,
          List.flatMap_singleton, contentOf_eq hd]
        rfl
      have hops' : capture.updates.flatten = [] := by
        rw [hops, allOps_append, hnoOps, List.nil_append, allOps, List.flatMap_singleton,
          contentOf_eq hd]
        rfl
      refine ⟨capture, hload, fun b b' hreplay hstream => ?_⟩
      have h := represents_of_capture hreplay
      rw [horders', hops'] at h
      exact h.sameOrders (stream_concat_represents hinit hd hstream).2
    · have hbefore : LoadStreams π parseJson scales init := by
        refine ih hinit fun before l after orders heq hl => ?_
        refine hfirst before l (after ++ [line]) orders ?_ hl
        rw [heq, List.append_assoc, List.cons_append]
      refine loadStreams_append hempty hlines (fun l hl orders hd => hsnapshot ⟨orders, ?_⟩)
        hbefore
      rw [← List.mem_singleton.mp hl, hd]

/-- The book has these orders, in these places, and no others. -/
def Shows (b : OrderBook) (orders : List Order) : Prop :=
  ∀ side price, b.ordersAt side price = .ok (orders.filter fun o => o.place = (side, price))

/-- **Loading a capture and streaming it** leave the same orders in the same places when nothing
comes before a snapshot. In general they can only part at a snapshot, and there they agree when the
loaded book shows just the orders of that snapshot. -/
theorem capture_loadStreams (hempty : ∃ e, parseJson "" = .error e)
    (hlines : Decodes parseJson scales lines) :
    (SnapshotsFirst parseJson scales lines → LoadStreams π parseJson scales lines) ∧
    (∀ before after, lines = before ++ after → NoSnapshot parseJson scales after →
      LoadStreams π parseJson scales before → LoadStreams π parseJson scales lines) ∧
    ∀ before line orders, lines = before ++ [line] →
      decodeLine parseJson scales line = .ok (.snapshot orders) →
      ∃ capture, loadCapture parseJson scales lines = .ok capture ∧
        ∀ b b', capture.replay π .dwellirTolerant = .ok (.ok (), b) →
          OrderBook.new.stream parseJson scales π .dwellirTolerant lines = .ok (.ok (), b') →
          (SameOrders b b' ↔ Shows b orders) := by
  refine ⟨loadStreams_of_snapshotsFirst hempty hlines, ?_, ?_⟩
  · rintro before after rfl hnone hbefore
    exact loadStreams_append hempty hlines hnone hbefore
  · rintro before line orders rfl hd
    obtain ⟨capture, hload, -⟩ := exists_loadCapture hempty hlines
    refine ⟨capture, hload, fun b b' hreplay hstream => ?_⟩
    have h := represents_of_capture hreplay
    obtain ⟨hfresh, h'⟩ := stream_concat_represents (decodes_append.mp hlines).1 hd hstream
    have hshows : Shows b' orders := fun side price =>
      (ordersAt_spec h' side price).trans
        (congrArg Except.ok ((AbstractBook.addAll_of_fresh hfresh).2 (side, price)))
    constructor
    · intro hsame side price
      rw [hsame.ordersAt, hshows]
    · intro hb
      have heq := h.eq_of_ordersAt h' fun side price => (hb side price).trans
        (hshows side price).symm
      exact h.sameOrders (heq ▸ h')

/-- A line with a snapshot of one bid. -/
def snapshotLine (oid : String) : String :=
  "\x7b\"channel\":\"l4Book\",\"data\":\x7b\"Snapshot\":\x7b\"levels\":[[\x7b\"user\":" ++
    "\"0xaaaaaaaaaaaaaaaaaaaaaaaaaaaaaaaaaaaaaaaa\",\"side\":\"B\",\"limitPx\":\"1\"," ++
    "\"sz\":\"2\",\"oid\":" ++ oid ++ "\x7d],[]]\x7d\x7d\x7d"

/-- Its value. -/
def snapshotValue (oid : UInt64) : Json :=
  .object [("channel", .string "l4Book"), ("data", .object [("Snapshot", .object [("levels",
    .array [.array [.object [("user", .string "0xaaaaaaaaaaaaaaaaaaaaaaaaaaaaaaaaaaaaaaaa"),
      ("side", .string "B"), ("limitPx", .string "1"), ("sz", .string "2"),
      ("oid", .number (.posInt oid))]], .array []])])])]

/-- A line that opens order 7. -/
def updatesLine : String :=
  "\x7b\"channel\":\"l4Book\",\"data\":\x7b\"Updates\":\x7b\"order_statuses\":[" ++
    "\x7b\"status\":\"open\",\"order\":\x7b\"side\":\"B\",\"oid\":7,\"timestamp\":123" ++
    "\x7d\x7d],\"book_diffs\":[\x7b\"user\":\"0xaaaaaaaaaaaaaaaaaaaaaaaaaaaaaaaaaaaaaaaa\"," ++
    "\"oid\":7,\"px\":\"1\",\"coin\":\"X\"," ++
    "\"raw_book_diff\":\x7b\"new\":\x7b\"sz\":\"2\"\x7d\x7d\x7d]\x7d\x7d\x7d"

/-- Its value. -/
def updatesValue : Json :=
  .object [("channel", .string "l4Book"), ("data", .object [("Updates",
    sampleMessage [.object [("new", .object [("sz", .string "2")])]])])]

/-- A parser of these lines. -/
def parseSample (line : String) : Except String Json :=
  if line = snapshotLine "1" then .ok (snapshotValue 1)
  else if line = snapshotLine "2" then .ok (snapshotValue 2)
  else if line = updatesLine then .ok updatesValue
  else .error "EOF while parsing a value at line 1 column 0"

/-- The bid of a sample snapshot. -/
def snapshotBid (id : OrderId) : Order :=
  ⟨id, ⟨Vector.replicate 20 170⟩, .bid, 1000000, 200000000, 0⟩

theorem exists_parseSample_empty : ∃ e, parseSample "" = .error e := ⟨_, by rfl⟩

theorem decodeLine_snapshotLine :
    decodeLine parseSample .btcDefault (snapshotLine "1") = .ok (.snapshot [snapshotBid 1]) ∧
      decodeLine parseSample .btcDefault (snapshotLine "2") = .ok (.snapshot [snapshotBid 2]) := by
  decide +kernel

theorem decodeLine_updatesLine : decodeLine parseSample .btcDefault updatesLine =
    .ok (.updates ⟨[.add openedOrder], 0, 0⟩) := by
  decide +kernel

/-- A snapshot and an update behind it. -/
theorem capture_loadStreams_sample : ∃ capture b b',
    loadCapture parseSample .btcDefault [snapshotLine "1", updatesLine] = .ok capture ∧
      capture.replay .dev .dwellirTolerant = .ok (.ok (), b) ∧
      OrderBook.new.stream parseSample .btcDefault .dev .dwellirTolerant
        [snapshotLine "1", updatesLine] = .ok (.ok (), b') ∧
      SameOrders b b' := by
  have hd := decodeLine_snapshotLine.1
  have hd' := decodeLine_updatesLine
  have hlines : Decodes parseSample .btcDefault [snapshotLine "1", updatesLine] := by
    simp [Decodes, hd, hd']
  have hfirst : SnapshotsFirst parseSample .btcDefault [snapshotLine "1", updatesLine] := by
    intro before line after orders heq hline
    rcases before with _ | ⟨l, _ | ⟨l', before⟩⟩
    · simp
    · obtain rfl : updatesLine = line := by simp_all
      rw [hd'] at hline
      cases hline
    · simp at heq
  obtain ⟨capture, hcapture, hsame⟩ :=
    (capture_loadStreams (π := .dev) exists_parseSample_empty hlines).1 hfirst
  have hload : loadCapture parseSample .btcDefault [snapshotLine "1", updatesLine] =
      .ok ⟨[snapshotBid 1], [[.add openedOrder]], ⟨2, 1, 1, 1, 0, 0, 0, 0, 0, 0⟩⟩ := by
    decide +kernel
  obtain rfl := Except.ok.inj (hload.symm.trans hcapture)
  have hstream : ∃ b', OrderBook.new.stream parseSample .btcDefault .dev .dwellirTolerant
      [snapshotLine "1", updatesLine] = .ok (.ok (), b') :=
    ⟨_, (stream_cons hd).mpr ⟨_, by rfl, (stream_cons hd').mpr ⟨_, by rfl, by rfl⟩⟩⟩
  obtain ⟨b', hb'⟩ := hstream
  exact ⟨_, _, b', hload, by rfl, hb', hsame _ b' (by rfl) hb'⟩

/-! ### Where they part -/

/-- Both ways to replay the lines return, and leave different orders. -/
def Parts (π : Profile) (parseJson : String → Except String Json) (scales : Scales)
    (lines : List String) : Prop :=
  Decodes parseJson scales lines ∧
    ∃ capture b b', loadCapture parseJson scales lines = .ok capture ∧
      capture.replay π .dwellirTolerant = .ok (.ok (), b) ∧
      OrderBook.new.stream parseJson scales π .dwellirTolerant lines = .ok (.ok (), b') ∧
      ¬ SameOrders b b'

theorem not_loadStreams_of_parts (h : Parts π parseJson scales lines) :
    ¬ LoadStreams π parseJson scales lines := by
  obtain ⟨-, capture, b, b', hload, hreplay, hstream, hnot⟩ := h
  rintro ⟨capture', hload', hsame⟩
  obtain rfl : capture = capture' := Except.ok.inj (hload.symm.trans hload')
  exact hnot (hsame b b' hreplay hstream)

/-- A second snapshot takes the first one's order off the streamed book only. -/
theorem parts_snapshots :
    Parts .dev parseSample .btcDefault [snapshotLine "1", snapshotLine "2"] := by
  obtain ⟨hd, hd'⟩ := decodeLine_snapshotLine
  have hload : loadCapture parseSample .btcDefault [snapshotLine "1", snapshotLine "2"] =
      .ok ⟨[snapshotBid 1, snapshotBid 2], [], ⟨2, 0, 0, 0, 0, 0, 0, 0, 0, 0⟩⟩ := by
    decide +kernel
  refine ⟨by simp [Decodes, hd, hd'], _, _, _, hload, by rfl,
    (stream_cons hd).mpr ⟨_, by rfl, (stream_cons hd').mpr ⟨_, by rfl, by rfl⟩⟩, fun hsame => ?_⟩
  have hget := hsame.get 1
  cases hget

/-- A snapshot takes an order that was opened before it off the streamed book only. -/
theorem parts_updates :
    Parts .dev parseSample .btcDefault [updatesLine, snapshotLine "2"] := by
  have hd := decodeLine_updatesLine
  have hd' := decodeLine_snapshotLine.2
  have hload : loadCapture parseSample .btcDefault [updatesLine, snapshotLine "2"] =
      .ok ⟨[snapshotBid 2], [[.add openedOrder]], ⟨2, 1, 1, 1, 0, 0, 0, 0, 0, 0⟩⟩ := by
    decide +kernel
  refine ⟨by simp [Decodes, hd, hd'], _, _, _, hload, by rfl,
    (stream_cons hd).mpr ⟨_, by rfl, (stream_cons hd').mpr ⟨_, by rfl, by rfl⟩⟩, fun hsame => ?_⟩
  have hget := hsame.get 7
  cases hget

/-- **The two part** at a second snapshot, and at a snapshot behind updates. -/
theorem not_forall_loadStreams :
    Parts .dev parseSample .btcDefault [snapshotLine "1", snapshotLine "2"] ∧
    Parts .dev parseSample .btcDefault [updatesLine, snapshotLine "2"] ∧
    ¬ ∀ π parseJson scales lines, (∃ e, parseJson "" = .error e) →
      Decodes parseJson scales lines → LoadStreams π parseJson scales lines := by
  refine ⟨parts_snapshots, parts_updates, fun h => ?_⟩
  exact not_loadStreams_of_parts parts_snapshots
    (h .dev parseSample .btcDefault _ exists_parseSample_empty parts_snapshots.1)

end L4Book
