import L4Book.Dwellir
import L4Book.Replay

/-!
# Captures

The rest of `src/dwellir.rs`: decoding a line of a capture file, and loading a whole file. Reading
the file gives its lines, and `parseJson` stands for `serde_json::from_str`, which turns the text of
a line into a JSON value or an error.

A capture can be replayed in two ways. The application loop of `docs/api.md` applies every line as
it comes. The loader decodes the whole file first, and keeps the orders of all snapshots apart from
the operations of all updates; `examples/replay_capture.rs` applies the former, then the latter.

## Main definitions

* `parseOrder`, `decodeLineWithMeta`, `decodeLine`
* `CaptureStats`, `CaptureOf`, `loadCapture`, `loadCaptureWithMeta`
* `Capture.replay`, `OrderBook.stream`: the two ways to replay
-/

namespace L4Book

/-! ### Decoding a line -/

/-- One line of the capture file decoded with cause metadata. -/
inductive DecodedWithMeta
  /-- Capture header, subscription response or unrecognized: nothing to apply. -/
  | skip
  | snapshot (orders : List Order) (cause : OperationCause)
  | updates (batch : ReasonedUpdateBatch)
deriving DecidableEq, Repr

/-- Decoded `Updates` payload. -/
structure UpdateBatch where
  ops : List BookOp
  collapsedCompleteFills : ℕ
  droppedDuplicateRemoves : ℕ
deriving DecidableEq, Repr

/-- One line of the capture file, decoded. -/
inductive Decoded
  | skip
  | snapshot (orders : List Order)
  | updates (batch : UpdateBatch)
deriving DecidableEq, Repr

/-- `strip_update_batch`. -/
def stripUpdateBatch (batch : ReasonedUpdateBatch) : UpdateBatch where
  ops := batch.ops.map ReasonedBookOp.op
  collapsedCompleteFills := batch.collapsedCompleteFills
  droppedDuplicateRemoves := batch.droppedDuplicateRemoves

/-- `strip_decoded`. -/
def stripDecoded : DecodedWithMeta → Decoded
  | .skip => .skip
  | .snapshot orders _ => .snapshot orders
  | .updates batch => .updates (stripUpdateBatch batch)

/-- `parse_order`: an order of a snapshot. -/
def parseOrder (scales : Scales) (o : Json) (defaultSide : Option Side) :
    Except AdapterError Order := do
  let oid ← require "oid" ((o.get "oid").bind Json.asU64)
  let userStr ← require "user" ((o.get "user").bind Json.asStr)
  let side ← match (o.get "side").bind Json.asStr with
    | some s => parseSide s
    | none => require "side" defaultSide
  let pxStr ← require "limitPx" ((o.get "limitPx").bind Json.asStr)
  let szStr ← require "sz" ((o.get "sz").bind Json.asStr)
  let ts := ((o.get "timestamp").bind Json.asU64).getD 0
  let wallet ← parseWallet userStr
  let price ← parsePrice scales pxStr
  let qty ← parseQty scales szStr
  return ⟨oid, wallet, side, price, qty, ts⟩

/-- The `Snapshot` branch: the orders of every entry of `levels` that is an array. -/
def decodeSnapshot (scales : Scales) (snap : Json) : Except AdapterError (List Order) := do
  let levels ← require "levels" (snap.get "levels")
  let arr ← require "levels[]" levels.asArray
  (arr.filterMap Json.asArray).flatten.mapM fun o => parseOrder scales o none

/-- `decode_l4_with_meta`. -/
def decodeL4WithMeta (scales : Scales) (msg : Json) : Except AdapterError DecodedWithMeta := do
  let data ← require "data" (msg.get "data")
  match data.get "Snapshot" with
  | some snap => return .snapshot (← decodeSnapshot scales snap) .snapshot
  | none =>
    match data.get "Updates" with
    | some updates => return .updates (← decodeUpdatesWithMeta scales updates)
    | none => return .skip

/-- What `decode_line_with_meta` makes of the value of a line. -/
def decodeValueWithMeta (scales : Scales) (v : Json) : Except AdapterError DecodedWithMeta :=
  -- the header of the capture script
  if (v.get "type").bind Json.asStr = some "capture_header" then .ok .skip
  else
    -- a record wraps the wire message
    let msg := (v.get "msg").getD v
    let channel := (msg.get "channel").bind Json.asStr
    if channel = some "subscriptionResponse" then .ok .skip
    else if channel = some "l4Book" then decodeL4WithMeta scales msg
    else .ok .skip

section

variable (parseJson : String → Except String Json) (scales : Scales)

/-- `decode_line_with_meta`. -/
def decodeLineWithMeta (line : String) : Except AdapterError DecodedWithMeta := do
  let v ← (parseJson line).mapError .json
  decodeValueWithMeta scales v

/-- `decode_line`. -/
def decodeLine (line : String) : Except AdapterError Decoded :=
  (decodeLineWithMeta parseJson scales line).map stripDecoded

end

/-! ### Loading a capture -/

/-- `CaptureStats`. -/
structure CaptureStats where
  lines : ℕ
  updatesMessages : ℕ
  totalOps : ℕ
  adds : ℕ
  removes : ℕ
  sizeUpdates : ℕ
  sizeAmends : ℕ
  unresolvedNew : ℕ
  collapsedCompleteFills : ℕ
  droppedDuplicateRemoves : ℕ
deriving DecidableEq, Repr

namespace CaptureStats

/-- `CaptureStats::default()`. -/
def empty : CaptureStats := ⟨0, 0, 0, 0, 0, 0, 0, 0, 0, 0⟩

/-- The counter an operation is counted in. -/
def countOp (stats : CaptureStats) : BookOp → CaptureStats
  | .add _ => { stats with adds := stats.adds + 1 }
  | .remove _ => { stats with removes := stats.removes + 1 }
  | .updateSize _ _ => { stats with sizeUpdates := stats.sizeUpdates + 1 }
  | .amendSize _ _ => { stats with sizeAmends := stats.sizeAmends + 1 }

/-- `accumulate_stats`. -/
def accumulate (stats : CaptureStats) (batch : ReasonedUpdateBatch) : CaptureStats :=
  let counted := batch.ops.foldl (fun stats reasoned => stats.countOp reasoned.op) stats
  { counted with
    totalOps := counted.totalOps + batch.ops.length
    unresolvedNew := counted.unresolvedNew + batch.unresolvedNew
    collapsedCompleteFills := counted.collapsedCompleteFills + batch.collapsedCompleteFills
    droppedDuplicateRemoves := counted.droppedDuplicateRemoves + batch.droppedDuplicateRemoves
    updatesMessages := counted.updatesMessages + 1 }

end CaptureStats

/-- Whole-file decode result, with one list of operations for each `Updates` message. -/
structure CaptureOf (α : Type) where
  snapshot : List Order
  updates : List (List α)
  stats : CaptureStats
deriving DecidableEq, Repr

/-- `Capture`. -/
abbrev Capture := CaptureOf BookOp

/-- `ReasonedCapture`, which keeps the causes. -/
abbrev ReasonedCapture := CaptureOf ReasonedBookOp

namespace CaptureOf

variable {α : Type} (keep : ReasonedBookOp → α)

/-- Nothing loaded yet. -/
def empty : CaptureOf α := ⟨[], [], .empty⟩

/-- What a round of the loading loop does with the line it has decoded. -/
def push (capture : CaptureOf α) : DecodedWithMeta → CaptureOf α
  | .skip => capture
  | .snapshot orders _ => { capture with snapshot := capture.snapshot ++ orders }
  | .updates batch =>
    { capture with
      stats := capture.stats.accumulate batch
      updates := capture.updates ++ [batch.ops.map keep] }

/-- A round of the loading loop. -/
def readLine (parseJson : String → Except String Json) (scales : Scales) (capture : CaptureOf α)
    (line : String) : Except AdapterError (CaptureOf α) :=
  if line = "" then .ok capture
  else do
    let capture := { capture with stats.lines := capture.stats.lines + 1 }
    let decoded ← decodeLineWithMeta parseJson scales line
    return capture.push keep decoded

end CaptureOf

section

variable (parseJson : String → Except String Json) (scales : Scales)

/-- `load_capture`, given the lines of the file. -/
def loadCapture (lines : List String) : Except AdapterError Capture :=
  lines.foldlM (CaptureOf.readLine ReasonedBookOp.op parseJson scales) .empty

/-- `load_capture_with_meta`, given the lines of the file. -/
def loadCaptureWithMeta (lines : List String) : Except AdapterError ReasonedCapture :=
  lines.foldlM (CaptureOf.readLine id parseJson scales) .empty

end

/-! ### Replaying a capture -/

/-- Apply the snapshot to a new book, then every update in order. -/
def Capture.replay (π : Profile) (policy : ReplayPolicy) (capture : Capture) :
    Except Fault (Reply Unit) := do
  let (r, b) ← OrderBook.new.applySnapshot π capture.snapshot
  match r with
  | .error e => return (.error e, b)
  | .ok () =>
    let b ← capture.updates.foldlM (OrderBook.replay π policy) b
    return (.ok (), b)

/-- What ends the application loop early. -/
inductive StreamError
  | adapter (e : AdapterError)
  | book (e : BookError)
deriving DecidableEq, Repr

namespace OrderBook

/-- The body of the application loop, with its line decoded. -/
def applyDecoded (π : Profile) (policy : ReplayPolicy) (b : OrderBook) :
    Decoded → Except Fault (Reply Unit)
  | .skip => .ok (.ok (), b)
  | .snapshot orders => b.applySnapshot π orders
  | .updates batch => do
    let b ← b.replay π policy batch.ops
    return (.ok (), b)

/-- The application loop: decode a line, apply it, go on with the next. -/
def stream (parseJson : String → Except String Json) (scales : Scales) (π : Profile)
    (policy : ReplayPolicy) (b : OrderBook) :
    List String → Except Fault (Except StreamError Unit × OrderBook)
  | [] => .ok (.ok (), b)
  | line :: lines =>
    match decodeLine parseJson scales line with
    | .error e => .ok (.error (.adapter e), b)
    | .ok decoded => do
      let (r, b) ← b.applyDecoded π policy decoded
      match r with
      | .error e => return (.error (.book e), b)
      | .ok () => b.stream parseJson scales π policy lines

end OrderBook

end L4Book
