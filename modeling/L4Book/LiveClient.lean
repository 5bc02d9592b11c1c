import L4Book.DebugLog

/-!
# The live client

`examples/dwellir_live_sp500.rs`: a client that feeds what it receives to a book and reports on it
every fifteen seconds, for two minutes from the latest snapshot on. Unlike the debug logger it ends
with an error when a message does not decode or a snapshot is refused; operations that are refused
it only counts.

The readings of the clock come from outside, like the messages: one after a snapshot was applied,
and one at the end of every round.

## What is left out

What is printed besides the reports, the texts of the reports, and in them the elapsed time and the
averages, which are `f64`.

## Main definitions

* `Round`, `LiveState`
* `catchUp`: the reports that are due
* `LiveState.onRound`, `LiveState.loop`
-/

namespace L4Book

/-- What one round of the loop gets from outside; instants are in nanoseconds. -/
structure Round where
  read : Except String Message
  /-- `Instant::now()` after a snapshot. -/
  snapshotAt : ℕ
  /-- `Instant::now()` at the end of the round. -/
  now : ℕ

/-- `REPORT_EVERY`. -/
def reportEvery : ℕ := 15 * 10 ^ 9

/-- `RUN_FOR`. -/
def runFor : ℕ := 120 * 10 ^ 9

/-- `NOTIONALS_USD`. -/
def notionalsUsd : List UInt64 := [1000, 100000]

/-- What `log_report` has to say. -/
structure LiveReport where
  messages : ℕ
  updates : ℕ
  opsApplied : ℕ
  opErrors : ℕ
  len : ℕ
  bestBid : Option Price
  bestAsk : Option Price
  unaggregated : List OrderBook.UnaggregatedLevel × List OrderBook.UnaggregatedLevel
  aggregated : List OrderBook.AggregatedLevel × List OrderBook.AggregatedLevel
  slippage : List SlippageReport

/-- Why `main` returns an error. -/
inductive LiveError
  | websocket (err : String)
  | utf8 (err : String)
  | adapter (e : AdapterError)
  | book (e : BookError)
deriving DecidableEq, Repr

/-- The variables of `main`, and the reports made so far. The instants that a snapshot sets are set
together. -/
structure LiveState where
  book : OrderBook
  /-- `snapshot_at`, `next_report` and `deadline`. -/
  schedule : Option (ℕ × ℕ × ℕ)
  messages : ℕ
  updates : ℕ
  opsApplied : ℕ
  opErrors : ℕ
  reports : List LiveReport

namespace LiveState

/-- The state before the first message. -/
def start : LiveState := ⟨.new, none, 0, 0, 0, 0, []⟩

/-- `log_report`. -/
def logReport (π : Profile) (s : LiveState) : Except Fault LiveState := do
  let unaggregated ← s.book.topNLevels 5
  let slippage ← notionalsUsd.mapM fun notional => do
    let buy ← s.book.slippageReport π .sp500 .bid notional
    let sell ← s.book.slippageReport π .sp500 .ask notional
    return [buy, sell]
  let report : LiveReport := {
    messages := s.messages
    updates := s.updates
    opsApplied := s.opsApplied
    opErrors := s.opErrors
    len := s.book.len
    bestBid := s.book.bestBid
    bestAsk := s.book.bestAsk
    unaggregated := unaggregated
    aggregated := s.book.topNLevelsAggregated 5
    slippage := slippage.flatten }
  return { s with reports := s.reports ++ [report] }

/-- `while let Some(report_at) = next_report { .. }`: the reports that are due, and when the next
one will be. -/
def catchUp (π : Profile) (now reportAt : ℕ) (s : LiveState) : Except Fault (LiveState × ℕ) :=
  if now < reportAt then .ok (s, reportAt)
  else do
    let s ← s.logReport π
    catchUp π now (reportAt + reportEvery) s
termination_by now + 1 - reportAt
decreasing_by
  have : 0 < reportEvery := by decide
  omega

/-- `for op in batch.ops`. -/
def applyOps (π : Profile) (s : LiveState) (ops : List BookOp) : Except Fault LiveState :=
  ops.foldlM (fun s op => do
    let (r, book) ← s.book.applyOp π op
    match r with
    | .ok () => return { s with book := book, opsApplied := s.opsApplied + 1 }
    | .error _ => return { s with book := book, opErrors := s.opErrors + 1 }) s

/-- What is done with a message that decodes. -/
def onDecoded (π : Profile) (snapshotAt : ℕ) (s : LiveState) :
    Decoded → Except Fault (Except LiveError LiveState)
  | .skip => .ok (.ok s)
  | .snapshot orders => do
    let (r, book) ← s.book.applySnapshot π orders
    match r with
    | .error e => return .error (.book e)
    | .ok () => return .ok { s with
        book := book
        schedule := some (snapshotAt, snapshotAt + reportEvery, snapshotAt + runFor) }
  | .updates batch => .ok <$> ({ s with updates := s.updates + 1 }).applyOps π batch.ops

/-- The end of a round: reports, and whether the loop is left. -/
def endRound (π : Profile) (now : ℕ) (s : LiveState) : Except Fault (ForInStep LiveState) :=
  match s.schedule with
  | none => .ok (.yield s)
  | some (snapshotAt, nextReport, deadline) => do
    let (s, nextReport) ← s.catchUp π now nextReport
    let s := { s with schedule := some (snapshotAt, nextReport, deadline) }
    if deadline ≤ now then return .done s else return .yield s

/-- What is done with a text. -/
def onText (lib : Library) (π : Profile) (round : Round) (s : LiveState) (text : String) :
    Except Fault (Except LiveError (ForInStep LiveState)) :=
  match decodeLine lib.parseJson .sp500 text with
  | .error e => .ok (.error (.adapter e))
  | .ok decoded => do
    match ← s.onDecoded π round.snapshotAt decoded with
    | .error e => return .error e
    | .ok s => .ok <$> s.endRound π round.now

/-- The body of the loop. -/
def onRound (lib : Library) (π : Profile) (s : LiveState) (round : Round) :
    Except Fault (Except LiveError (ForInStep LiveState)) :=
  match round.read with
  | .error err => .ok (.error (.websocket err))
  | .ok msg =>
    let s := { s with messages := s.messages + 1 }
    match msg with
    | .text text => s.onText lib π round text
    | .binary bytes =>
      match String.fromUTF8? bytes with
      | some text => s.onText lib π round text
      | none => .ok (.error (.utf8 (lib.utf8Error bytes)))
    | .ping | .pong | .frame => .ok (.ok (.yield s))
    | .close _ => .ok (.ok (.done s))

/-- The loop, and whether it was left. -/
def loop (lib : Library) (π : Profile) (s : LiveState) :
    List Round → Except Fault (Except LiveError (LiveState × Bool))
  | [] => .ok (.ok (s, false))
  | round :: rounds => do
    match ← s.onRound lib π round with
    | .error e => return .error e
    | .ok (.done s) => return .ok (s, true)
    | .ok (.yield s) => s.loop lib π rounds

end LiveState

end L4Book
