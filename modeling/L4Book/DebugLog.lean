import L4Book.Reporting

/-!
# The debug logger

`examples/dwellir_debug_log_sp500.rs`: a client that feeds what it receives to a book and writes a
log of JSON records as it goes. It survives messages that do not decode and operations that the book
refuses, and gives up at the tenth error.

The messages are a list, of which the client reads as many as it wants; when the list ends the
client waits. What the client takes from other libraries is a parameter: the JSON parser, and two
texts of the standard library that only show up in error messages.

## What is left out

The environment variables, the connection and its subscription, what is printed, and the failures of
writing the log, each of which ends the program. The counters are `usize` and do not overflow.

## Main definitions

* `Library`, `Message`, `DebugState`
* `DebugState.applyOps`, `DebugState.onDecoded`, `DebugState.onRead`: the body of the loop
* `DebugState.loop`, `debugLog`
-/

namespace L4Book

/-- What the clients take from other libraries. -/
structure Library where
  /-- `serde_json::from_str`. -/
  parseJson : String → Except String Json
  /-- `{:?}` of a string. -/
  quoted : String → String
  /-- The text of a `FromUtf8Error`. -/
  utf8Error : ByteArray → String

/-- `tungstenite::Message`, the frame of a `Close` by its text. -/
inductive Message
  | text (text : String)
  | binary (bytes : ByteArray)
  | ping
  | pong
  | frame
  | close (frame : String)

/-- `SYMBOL`. -/
def symbol : String := "xyz:SP500"

/-- `PRICE_DIGITS` and `QTY_DIGITS`. -/
def Scales.sp500 : Scales where
  priceDigits := 6
  qtyDigits := 8

/-- `ERROR_LIMIT`. -/
def errorLimit : ℕ := 10

/-! ### Errors as text -/

/-- `Display for BookError`. -/
def BookError.display : BookError → String
  | .duplicateOrderId oid => s!"duplicate order id {oid}"
  | .unknownOrderId oid => s!"unknown order id {oid}"
  | .zeroQty => "order qty must be nonzero"
  | .syntheticOrderIdInSnapshot oid => s!"snapshot order id {oid} is in the synthetic namespace"
  | .nonDecreasingSize current proposed =>
    s!"update_size must shrink: current={current} proposed={proposed}"
  | .invalidWalletHex => "invalid wallet hex"

/-- `Display for AdapterError`. -/
def AdapterError.display (lib : Library) : AdapterError → String
  | .json e => s!"json: {e}"
  | .badPrice s => s!"bad price {lib.quoted s}"
  | .badQty s => s!"bad qty {lib.quoted s}"
  | .badWallet s => s!"bad wallet {lib.quoted s}"
  | .badSide s => s!"bad side {lib.quoted s}"
  | .missingField field => s!"missing field {field}"

/-! ### Operations as JSON values -/

/-- `venue_diff_kind_name`. -/
def venueDiffKindName : VenueDiffKind → String
  | .new => "new"
  | .remove => "remove"
  | .update => "update"
  | .modified => "modified"
  | .completeFillCollapsed => "complete_fill_collapsed"

/-- `simulator_cause_name`. -/
def simulatorCauseName : SimulatorCause → String
  | .takerFill => "taker_fill"
  | .limitOrderRest => "limit_order_rest"
  | .snapshotPreserve => "snapshot_preserve"

/-- `operation_cause_to_value`. -/
def operationCauseToValue : OperationCause → Json
  | .venue source diff status => .object [
      ("source", .string source),
      ("diff", .string (venueDiffKindName diff)),
      ("status", match status with
        | some status => .string status
        | none => .null)]
  | .simulator cause => .object [
      ("source", .string "simulator"),
      ("cause", .string (simulatorCauseName cause))]
  | .snapshot => .object [("source", .string "snapshot")]
  | .user => .object [("source", .string "user")]
  | .unknown => .object [("source", .string "unknown")]

/-- `book_op_to_value`. -/
def bookOpToValue : BookOp → Json
  | .add order => .object [
      ("type", .string "add"),
      ("order", .object [
        ("id", jsonU64 order.id),
        ("wallet", .string order.wallet.debugFmt),
        ("side", .string (sideName order.side)),
        ("raw_price", jsonU64 order.price),
        ("raw_qty", jsonU64 order.qty),
        ("ts", jsonU64 order.ts)])]
  | .remove id => .object [
      ("type", .string "remove"),
      ("id", jsonU64 id)]
  | .updateSize id newQty => .object [
      ("type", .string "update_size"),
      ("id", jsonU64 id),
      ("raw_new_qty", jsonU64 newQty)]
  | .amendSize id newQty => .object [
      ("type", .string "amend_size"),
      ("id", jsonU64 id),
      ("raw_new_qty", jsonU64 newQty)]

/-- `reasoned_book_op_to_value`. -/
def reasonedBookOpToValue (reasoned : ReasonedBookOp) : Json :=
  .object [
    ("op", bookOpToValue reasoned.op),
    ("cause", operationCauseToValue reasoned.cause)]

/-- `ops_to_value`. -/
def opsToValue (ops : List ReasonedBookOp) : Json := .array (ops.map reasonedBookOpToValue)

/-- `op_kind`. -/
def opKind : BookOp → String
  | .add _ => "add"
  | .remove _ => "remove"
  | .updateSize _ _ => "update_size"
  | .amendSize _ _ => "amend_size"

/-- `op_order_id`. -/
def opOrderId : BookOp → OrderId
  | .add order => order.id
  | .remove id => id
  | .updateSize id _ => id
  | .amendSize id _ => id

/-! ### The log -/

/-- The variables of `main`, and the records written so far. -/
structure DebugState where
  book : OrderBook
  messages : ℕ
  updateMessages : ℕ
  opsApplied : ℕ
  errors : ℕ
  collapsedCompleteFills : ℕ
  droppedDuplicateRemoves : ℕ
  log : List Json

/-- A record of the log. -/
def record (event : String) (fields : List (String × Json)) : Json :=
  .object (("event", .string event) :: fields)

namespace DebugState

/-- The state before the first message. -/
def start (updatesToLog : ℕ) : DebugState where
  book := .new
  messages := 0
  updateMessages := 0
  opsApplied := 0
  errors := 0
  collapsedCompleteFills := 0
  droppedDuplicateRemoves := 0
  log := [record "start" [
    ("symbol", .string symbol),
    ("updates_to_log", jsonCount updatesToLog),
    ("error_limit", jsonCount errorLimit),
    ("price_digits", jsonCount Scales.sp500.priceDigits),
    ("qty_digits", jsonCount Scales.sp500.qtyDigits)]]

/-- `log.write(..)`. -/
def write (s : DebugState) (v : Json) : DebugState := { s with log := s.log ++ [v] }

/-- `log_marker`. -/
def logMarker (s : DebugState) (marker : String) : DebugState :=
  s.write (record "grep_marker" [("marker", .string marker)])

/-- `errors += 1`. -/
def countError (s : DebugState) : DebugState := { s with errors := s.errors + 1 }

/-! ### One update -/

/-- The records of an operation that was applied. -/
def logApplied (s : DebugState) (opIndex : ℕ) (op : ReasonedBookOp) : DebugState :=
  let kind := opKind op.op
  let orderId := opOrderId op.op
  s.write (record "applied_book_diff" [
    ("marker", .string (s!"APPLIED BOOK DIFF update={s.updateMessages} op_index={opIndex} " ++
      s!"kind={kind} order_id={orderId}")),
    ("update_index", jsonCount s.updateMessages),
    ("op_index", jsonCount opIndex),
    ("kind", .string kind),
    ("order_id", jsonU64 orderId),
    ("op", reasonedBookOpToValue op)])

/-- The records of an operation that was refused: two markers, and the error with the book. -/
def logRefused (s : DebugState) (text : String) (parsedUpdate book : Json) (opIndex : ℕ)
    (op : ReasonedBookOp) (err : BookError) : DebugState :=
  let kind := opKind op.op
  let orderId := opOrderId op.op
  let error := err.display
  let marker := s!"ERROR update={s.updateMessages} op_index={opIndex} kind={kind} " ++
    s!"order_id={orderId} error={error}"
  let snapshotMarker := s!"FULL SNAPSHOT AS OF ERROR update={s.updateMessages} " ++
    s!"op_index={opIndex} order_id={orderId}"
  ((s.logMarker marker).logMarker snapshotMarker).write (record "op_apply_error" [
    ("marker", .string marker),
    ("error_index", jsonCount s.errors),
    ("update_index", jsonCount s.updateMessages),
    ("op_index", jsonCount opIndex),
    ("kind", .string kind),
    ("order_id", jsonU64 orderId),
    ("error", .string error),
    ("raw_update", .string text),
    ("parsed_update", parsedUpdate),
    ("parsed_op", reasonedBookOpToValue op),
    ("snapshot_marker", .string snapshotMarker),
    ("book_after_failed_op", book)])

/-- An entry of `op_results`. -/
def opResult (opIndex : ℕ) (op : ReasonedBookOp) : Except BookError Unit → Json
  | .ok () => .object [
      ("op_index", jsonCount opIndex),
      ("status", .string "applied"),
      ("kind", .string (opKind op.op)),
      ("order_id", jsonU64 (opOrderId op.op)),
      ("op", reasonedBookOpToValue op)]
  | .error err => .object [
      ("op_index", jsonCount opIndex),
      ("status", .string "error"),
      ("kind", .string (opKind op.op)),
      ("order_id", jsonU64 (opOrderId op.op)),
      ("error", .string err.display),
      ("op", reasonedBookOpToValue op)]

/-- The loop over the operations of an update, with `op_results`. -/
def applyOps (π : Profile) (text : String) (parsedUpdate : Json) (s : DebugState)
    (opResults : List Json) (opIndex : ℕ) :
    List ReasonedBookOp → Except ReportFault (DebugState × List Json)
  | [] => .ok (s, opResults)
  | op :: ops => do
    let (r, book) ← reported (s.book.applyOp π op.op)
    let s := { s with book := book }
    let opResults := opResults ++ [opResult opIndex op r]
    match r with
    | .ok () =>
      let s := { s with opsApplied := s.opsApplied + 1 }.logApplied opIndex op
      s.applyOps π text parsedUpdate opResults (opIndex + 1) ops
    | .error err =>
      let book ← bookSnapshot π .sp500 s.book
      let s := s.countError.logRefused text parsedUpdate book opIndex op err
      if errorLimit ≤ s.errors then return (s, opResults)
      else s.applyOps π text parsedUpdate opResults (opIndex + 1) ops

/-- The records before the operations of an update that is logged in full. -/
def logRawUpdate (s : DebugState) (text : String) (batch : ReasonedUpdateBatch) : DebugState :=
  let ops := batch.ops.length
  let collapsed := batch.collapsedCompleteFills
  let dropped := batch.droppedDuplicateRemoves
  let marker := s!"RAW UPDATE update={s.updateMessages} message={s.messages} ops={ops} " ++
    s!"collapsed_complete_fills={collapsed} dropped_duplicate_removes={dropped}"
  (s.logMarker marker).write (record "raw_update" [
    ("marker", .string s!"RAW UPDATE update={s.updateMessages}"),
    ("update_index", jsonCount s.updateMessages),
    ("messages", jsonCount s.messages),
    ("raw_update", .string text),
    ("parsed_update", opsToValue batch.ops),
    ("collapsed_complete_fills", jsonCount collapsed),
    ("dropped_duplicate_removes", jsonCount dropped)])

/-- The records after the operations of an update that is logged in full. -/
def logSummary (s : DebugState) (opResults : List Json) (book : Json) : DebugState :=
  let snapshotMarker := s!"FULL SNAPSHOT AS OF UPDATE {s.updateMessages}"
  ((s.write (record "parsed_update_summary" [
    ("marker", .string s!"PARSED UPDATE SUMMARY update={s.updateMessages}"),
    ("update_index", jsonCount s.updateMessages),
    ("messages", jsonCount s.messages),
    ("op_results", .array opResults)])).logMarker snapshotMarker).write (record "full_snapshot" [
    ("marker", .string snapshotMarker),
    ("update_index", jsonCount s.updateMessages),
    ("messages", jsonCount s.messages),
    ("book", book)])

/-- The `Updates` branch. -/
def onUpdates (π : Profile) (updatesToLog : ℕ) (text : String) (s : DebugState)
    (batch : ReasonedUpdateBatch) : Except ReportFault DebugState := do
  let s := { s with
    updateMessages := s.updateMessages + 1
    collapsedCompleteFills := s.collapsedCompleteFills + batch.collapsedCompleteFills
    droppedDuplicateRemoves := s.droppedDuplicateRemoves + batch.droppedDuplicateRemoves }
  let parsedUpdate := opsToValue batch.ops
  if s.updateMessages ≤ updatesToLog then
    let (s, opResults) ← (s.logRawUpdate text batch).applyOps π text parsedUpdate [] 0 batch.ops
    let book ← bookSnapshot π .sp500 s.book
    return s.logSummary opResults book
  else
    -- the source collects no results here, and nothing looks at them
    let (s, _) ← s.applyOps π text parsedUpdate [] 0 batch.ops
    return s

/-! ### One message -/

/-- The `Snapshot` branch. -/
def onSnapshot (π : Profile) (text : String) (s : DebugState) (orders : List Order)
    (cause : OperationCause) : Except ReportFault DebugState := do
  let orderCount := orders.length
  let (r, book) ← reported (s.book.applySnapshot π orders)
  let s := { s with book := book }
  match r with
  | .ok () =>
    let s := s.logMarker s!"FULL SNAPSHOT INITIAL messages={s.messages} orders={orderCount}"
    let book ← bookSnapshot π .sp500 s.book
    return s.write (record "full_snapshot" [
      ("marker", .string "FULL SNAPSHOT INITIAL"),
      ("messages", jsonCount s.messages),
      ("order_count", jsonCount orderCount),
      ("cause", operationCauseToValue cause),
      ("book", book)])
  | .error err =>
    let s := s.countError
    let error := err.display
    let marker := s!"ERROR snapshot_apply error_index={s.errors} error={error}"
    return (s.logMarker marker).write (record "snapshot_apply_error" [
      ("marker", .string marker),
      ("error_index", jsonCount s.errors),
      ("error", .string error),
      ("raw_message", .string text)])

/-- What is done with a message that decodes. -/
def onDecoded (π : Profile) (updatesToLog : ℕ) (text : String) (s : DebugState) :
    DecodedWithMeta → Except ReportFault DebugState
  | .skip => .ok s
  | .snapshot orders cause => s.onSnapshot π text orders cause
  | .updates batch => s.onUpdates π updatesToLog text batch

/-- `if errors >= ERROR_LIMIT { break; }`. -/
def unlessLimit (s : DebugState) : ForInStep DebugState :=
  if errorLimit ≤ s.errors then .done s else .yield s

/-- What is done with a text. -/
def onText (lib : Library) (π : Profile) (updatesToLog : ℕ) (s : DebugState) (text : String) :
    Except ReportFault (ForInStep DebugState) :=
  match decodeLineWithMeta lib.parseJson .sp500 text with
  | .error err =>
    let s := s.countError
    .ok (s.write (record "decode_error" [
      ("error_index", jsonCount s.errors),
      ("error", .string (err.display lib)),
      ("raw_message", .string text)])).unlessLimit
  | .ok decoded => unlessLimit <$> s.onDecoded π updatesToLog text decoded

/-- The body of the loop, with what `ws.read()` returned. -/
def onRead (lib : Library) (π : Profile) (updatesToLog : ℕ) (s : DebugState) :
    Except String Message → Except ReportFault (ForInStep DebugState)
  | .error err =>
    let s := s.countError
    .ok (.done (s.write (record "websocket_read_error" [
      ("error_index", jsonCount s.errors),
      ("error", .string err)])))
  | .ok msg =>
    let s := { s with messages := s.messages + 1 }
    match msg with
    | .text text => s.onText lib π updatesToLog text
    | .binary bytes =>
      match String.fromUTF8? bytes with
      | some text => s.onText lib π updatesToLog text
      | none =>
        let s := s.countError
        .ok (s.write (record "binary_utf8_error" [
          ("error_index", jsonCount s.errors),
          ("error", .string (lib.utf8Error bytes))])).unlessLimit
    | .ping | .pong | .frame => .ok (.yield s)
    | .close frame =>
      .ok (.done (s.write (record "websocket_closed" [
        ("frame", .string frame),
        ("messages", jsonCount s.messages),
        ("update_messages", jsonCount s.updateMessages),
        ("ops_applied", jsonCount s.opsApplied),
        ("errors", jsonCount s.errors)])))

/-! ### The run -/

/-- The loop, and whether it was left. -/
def loop (lib : Library) (π : Profile) (updatesToLog : ℕ) (s : DebugState) :
    List (Except String Message) → Except ReportFault (DebugState × Bool)
  | [] => .ok (s, false)
  | r :: rs => do
    match ← s.onRead lib π updatesToLog r with
    | .done s => return (s, true)
    | .yield s => s.loop lib π updatesToLog rs

/-- The last record. -/
def doneRecord (s : DebugState) (bestBid bestAsk : Json) : Json :=
  record "done" [
    ("messages", jsonCount s.messages),
    ("update_messages", jsonCount s.updateMessages),
    ("ops_applied", jsonCount s.opsApplied),
    ("errors", jsonCount s.errors),
    ("collapsed_complete_fills", jsonCount s.collapsedCompleteFills),
    ("dropped_duplicate_removes", jsonCount s.droppedDuplicateRemoves),
    ("book_len", jsonCount s.book.len),
    ("best_bid", bestBid),
    ("best_ask", bestAsk)]

/-- The end of `main`. -/
def logDone (π : Profile) (s : DebugState) : Except ReportFault DebugState := do
  let bestBid ← jsonPriceOpt π .sp500 s.book.bestBid
  let bestAsk ← jsonPriceOpt π .sp500 s.book.bestAsk
  return s.write (s.doneRecord bestBid bestAsk)

end DebugState

/-- `main`: the log after reading some messages, complete if the loop was left. -/
def debugLog (lib : Library) (π : Profile) (updatesToLog : ℕ)
    (reads : List (Except String Message)) : Except ReportFault (List Json) := do
  let (s, left) ← (DebugState.start updatesToLog).loop lib π updatesToLog reads
  if left then DebugState.log <$> s.logDone π else return s.log

end L4Book
