import L4Book.Capture
import L4Book.Query

/-!
# The replay programs

`examples/replay_capture.rs` loads a capture, applies its snapshot and its updates, and prints what
became of the operations. The benchmark of `benches/replay.rs` replays the same captures without
looking at the replies: the whole stream in one of its measurements, a single update in the middle
of it in another.

## What is left out

Times, and the texts that are printed. The samples are kept as outcomes, not as their `Debug` texts.

## Main definitions

* `ReplayCounts`: what the program counts
* `replayCapture`: the program
* `warmBook`, `benchStreamReplay`, `benchPerUpdate`: the benchmark
-/

namespace L4Book

/-- How the programs stop early. -/
inductive ReplayFault
  | book (e : Fault)
  /-- `expect("load capture")`. -/
  | loadCapture (e : AdapterError)
  /-- `expect("snapshot")`. -/
  | snapshot (e : BookError)
deriving DecidableEq, Repr

/-- The panics of the book are panics of the program. -/
def replayed {α : Type} (v : Except Fault α) : Except ReplayFault α := v.mapError .book

/-! ### Counting outcomes -/

/-- `applied`, `skipped`, `coerced`, `errors` and `anomaly_samples`. -/
structure ReplayCounts where
  applied : ℕ
  skipped : ℕ
  coerced : ℕ
  errors : ℕ
  samples : List ReplayApplyOutcome
deriving DecidableEq, Repr

namespace ReplayCounts

/-- Nothing counted yet. -/
def start : ReplayCounts := ⟨0, 0, 0, 0, []⟩

/-- `match &outcome { .. }`. -/
def count (s : ReplayCounts) : ReplayApplyOutcome → ReplayCounts
  | .applied _ => { s with applied := s.applied + 1 }
  | .skipped _ _ => { s with skipped := s.skipped + 1 }
  | .coerced _ _ _ => { s with coerced := s.coerced + 1 }
  | .error _ _ => { s with errors := s.errors + 1 }

/-- `matches!(outcome, ReplayApplyOutcome::Applied { .. })`. -/
def isApplied : ReplayApplyOutcome → Bool
  | .applied _ => true
  | _ => false

/-- The first five outcomes that are not `Applied` are kept. -/
def sample (s : ReplayCounts) (outcome : ReplayApplyOutcome) : ReplayCounts :=
  if s.samples.length < 5 ∧ !isApplied outcome then
    { s with samples := s.samples ++ [outcome] }
  else s

/-- What is done with an outcome. -/
def visit (s : ReplayCounts) (outcome : ReplayApplyOutcome) : ReplayCounts :=
  (s.count outcome).sample outcome

end ReplayCounts

namespace OrderBook

/-- `for op in ops`, with the counters. -/
def replayCounting (π : Profile) (policy : ReplayPolicy) (s : OrderBook × ReplayCounts)
    (ops : List BookOp) : Except Fault (OrderBook × ReplayCounts) :=
  ops.foldlM (fun s op => do
    let (outcome, book) ← s.1.applyOpWithPolicy π op policy
    return (book, s.2.visit outcome)) s

/-- `best_ask.and_then(|a| best_bid.map(|b| a.saturating_sub(b)))`. -/
def spread (b : OrderBook) : Option Price :=
  b.bestAsk.bind fun ask => b.bestBid.map fun bid => if bid ≤ ask then ask - bid else 0

end OrderBook

/-! ### The program -/

/-- What the program has to say. -/
structure ReplayReport where
  /-- What was loaded; the program prints its sizes and its statistics. -/
  capture : Capture
  bestBid : Option Price
  bestAsk : Option Price
  spread : Option Price
  counts : ReplayCounts
  len : ℕ
  bidsLevels : ℕ
  asksLevels : ℕ
  finalBestBid : Option Price
  finalBestAsk : Option Price

/-- Whether `L4_REPLAY_STRICT` asks for the strict policy. -/
def asksForStrict (value : Option String) : Bool :=
  value.any fun v => v ∈ ["1", "true", "TRUE", "yes", "YES"]

/-- The policy of a run. -/
def replayPolicy (value : Option String) : ReplayPolicy :=
  if asksForStrict value then .strict else .dwellirTolerant

/-- A new book with a snapshot applied. -/
def openBook (π : Profile) (snapshot : List Order) : Except ReplayFault OrderBook := do
  let (r, book) ← replayed
    ((OrderBook.withCapacity (snapshot.length + 65536)).applySnapshot π snapshot)
  match r with
  | .error e => .error (.snapshot e)
  | .ok () => return book

/-- The figures of a run: what was loaded, the book after the snapshot, the counters and the book in
the end. -/
def ReplayReport.of (cap : Capture) (first : OrderBook) (counts : ReplayCounts)
    (book : OrderBook) : ReplayReport where
  capture := cap
  bestBid := first.bestBid
  bestAsk := first.bestAsk
  spread := first.spread
  counts := counts
  len := book.len
  bidsLevels := (book.depth .bid).length
  asksLevels := (book.depth .ask).length
  finalBestBid := book.bestBid
  finalBestAsk := book.bestAsk

/-- `main`, and the book it has in the end. -/
def replayCapture (parseJson : String → Except String Json) (π : Profile)
    (strict : Option String) (lines : List String) :
    Except ReplayFault (ReplayReport × OrderBook) := do
  let cap ← (loadCapture parseJson .btcDefault lines).mapError .loadCapture
  let first ← openBook π cap.snapshot
  replayed (first.debugAssertInvariants π)
  let (book, counts) ← replayed (cap.updates.foldlM
    (OrderBook.replayCounting π (replayPolicy strict)) (first, .start))
  replayed (book.debugAssertInvariants π)
  return (.of cap first counts book, book)

/-! ### The benchmark -/

/-- `apply_ops`: the replies are ignored. -/
def OrderBook.benchApplyOps (π : Profile) (b : OrderBook) (ops : List BookOp) :
    Except Fault OrderBook :=
  ops.foldlM (fun b op => Prod.snd <$> b.applyOp π op) b

/-- `warm_book`. -/
def warmBook (π : Profile) (snapshot : List Order) (updates : List (List BookOp)) :
    Except ReplayFault OrderBook := do
  let book ← openBook π snapshot
  replayed (updates.foldlM (OrderBook.benchApplyOps π) book)

/-- An iteration of `stream_300s`. -/
def benchStreamReplay (π : Profile) (cap : Capture) : Except ReplayFault OrderBook := do
  let book ← openBook π cap.snapshot
  replayed (cap.updates.foldlM (OrderBook.benchApplyOps π) book)

/-- An iteration of `mid_update`: the update in the middle, after all before it. -/
def benchPerUpdate (π : Profile) (cap : Capture) : Except ReplayFault OrderBook :=
  let mid := cap.updates.length / 2
  match cap.updates[mid]? with
  | none => .error (.book .indexOutOfBounds)
  | some sample => do
    let book ← warmBook π cap.snapshot (cap.updates.take mid)
    replayed (book.benchApplyOps π sample)

end L4Book
