import L4Book.Wire
import Mathlib.Data.Finmap

/-!
# Decoding feed updates

`decode_updates_with_meta` of `src/dwellir.rs`: an `Updates` message lists order statuses and book
diffs, and the decoder turns the diffs into book operations, one after the other. Each round of its
loop first reads one diff, which can fail, and then accounts for it, which cannot; the two are
separate functions here.

A complete fill is encoded as an update to size zero followed by a removal of the same order. The
decoder collapses the two into one removal: it remembers the ids it has removed in this message and
drops every further removal of them.

## Main definitions

* `Scales`, `AdapterError`, `ReasonedUpdateBatch`
* `Diff`, `readDiff`: what one diff says
* `Decoding.account`: what the decoder makes of it
* `decodeUpdatesWithMeta`
-/

namespace L4Book

/-- Number of fractional decimal digits preserved when converting wire strings. -/
structure Scales where
  priceDigits : ℕ
  qtyDigits : ℕ
deriving DecidableEq, Repr

/-- `Scales::BTC_DEFAULT`. -/
def Scales.btcDefault : Scales where
  priceDigits := 6
  qtyDigits := 8

/-- What the adapter refuses, in a line of text or in its JSON value. The source has one constructor
more, `Io`, for a file that cannot be opened or read; here the lines of a file are given. -/
inductive AdapterError
  /-- `serde_json`'s own error, with its text. -/
  | json (e : String)
  | badPrice (s : String)
  | badQty (s : String)
  | badWallet (s : String)
  | badSide (s : String)
  | missingField (field : String)
deriving DecidableEq, Repr

/-- Decoded `Updates` payload with per-op cause metadata. -/
structure ReasonedUpdateBatch where
  ops : List ReasonedBookOp
  collapsedCompleteFills : ℕ
  droppedDuplicateRemoves : ℕ
  unresolvedNew : ℕ
deriving DecidableEq, Repr

/-- `ReasonedUpdateBatch::default()`. -/
def ReasonedUpdateBatch.empty : ReasonedUpdateBatch := ⟨[], 0, 0, 0⟩

/-! ### Statuses -/

/-- The order statuses of a message by order id. -/
abbrev Statuses := Finmap fun _ : OrderId => Json

/-- `HashMap::insert` of one status, if it names an order. -/
def Statuses.stash (statuses : Statuses) (s : Json) : Statuses :=
  match (s.get "order").bind fun order => (order.get "oid").bind Json.asU64 with
  | none => statuses
  | some oid => statuses.insert oid s

/-- `status_by_oid`: of several statuses of an order the last one counts. -/
def statusByOid (updates : Json) : Statuses :=
  match (updates.get "order_statuses").bind Json.asArray with
  | none => ∅
  | some arr => arr.foldl Statuses.stash ∅

/-- The text of a status: `status.get("status").and_then(Value::as_str)`. -/
def statusOf (status : Json) : Option String := (status.get "status").bind Json.asStr

/-- `status_text`. -/
def statusText (statuses : Statuses) (oid : OrderId) : Option String :=
  (statuses.lookup oid).bind statusOf

/-! ### Reading a diff -/

/-- `.ok_or(AdapterError::MissingField(field))`. -/
def require {α : Type} (field : String) : Option α → Except AdapterError α
  | some x => .ok x
  | none => .error (.missingField field)

/-- `parse_side`. -/
def parseSide (s : String) : Except AdapterError Side :=
  if s = "B" then .ok .bid else if s = "A" then .ok .ask else .error (.badSide s)

/-- `WalletId::from_hex(s).map_err(..)`. -/
def parseWallet (s : String) : Except AdapterError WalletId :=
  match WalletId.fromHex s with
  | .ok wallet => .ok wallet
  | .error _ => .error (.badWallet s)

/-- `parse_fixed(s, scales.price_digits).ok_or_else(..)`. -/
def parsePrice (scales : Scales) (s : String) : Except AdapterError Price :=
  match parseFixed s scales.priceDigits with
  | some price => .ok price
  | none => .error (.badPrice s)

/-- `parse_fixed(s, scales.qty_digits).ok_or_else(..)`. -/
def parseQty (scales : Scales) (s : String) : Except AdapterError Qty :=
  match parseFixed s scales.qtyDigits with
  | some qty => .ok qty
  | none => .error (.badQty s)

/-- What one diff says. -/
inductive Diff
  | remove (oid : OrderId)
  /-- A `new` with its order, and the text of the status the order was recovered from. -/
  | new (order : Order) (status : Option String)
  /-- A `new` without a matching status. -/
  | unresolvedNew (oid : OrderId)
  | update (oid : OrderId) (newQty : Qty)
  | modified (oid : OrderId) (newQty : Qty)
  /-- A diff of unknown shape. -/
  | unknown (oid : OrderId)
deriving DecidableEq, Repr

/-- The `new` branch: an order from the diff (user, price), its payload (size) and the matching
status (side, timestamp). -/
def readNew (scales : Scales) (statuses : Statuses) (d : Json) (oid : OrderId) (newObj : Json) :
    Except AdapterError Diff := do
  let szStr ← require "new.sz" ((newObj.get "sz").bind Json.asStr)
  let pxStr ← require "book_diff.px" ((d.get "px").bind Json.asStr)
  let userStr ← require "book_diff.user" ((d.get "user").bind Json.asStr)
  match statuses.lookup oid with
  | none => return .unresolvedNew oid
  | some status =>
    let orderObj ← require "order" (status.get "order")
    let side ← parseSide (((orderObj.get "side").bind Json.asStr).getD "")
    let ts := ((orderObj.get "timestamp").bind Json.asU64).getD 0
    let wallet ← parseWallet userStr
    let price ← parsePrice scales pxStr
    let qty ← parseQty scales szStr
    return .new ⟨oid, wallet, side, price, qty, ts⟩ (statusOf status)

/-- The new size in the payload of an `update` or a `modified`. -/
def readSize (scales : Scales) (field key : String) (payload : Json) : Except AdapterError Qty := do
  let sz ← require field ((payload.get key).bind Json.asStr)
  parseQty scales sz

/-- Read one diff. -/
def readDiff (scales : Scales) (statuses : Statuses) (d : Json) : Except AdapterError Diff := do
  let oid ← require "book_diff.oid" ((d.get "oid").bind Json.asU64)
  let raw ← require "raw_book_diff" (d.get "raw_book_diff")
  if raw.asStr = some "remove" then return .remove oid
  let rawObj ← require "raw_book_diff\x7b\x7d" raw.asObject
  match rawObj.lookup "new" with
  | some newObj => readNew scales statuses d oid newObj
  | none =>
    match rawObj.lookup "update" with
    | some upd => return .update oid (← readSize scales "update.newSz" "newSz" upd)
    | none =>
      match rawObj.lookup "modified" with
      | some m => return .modified oid (← readSize scales "modified.sz" "sz" m)
      | none => return .unknown oid

/-! ### Accounting for a diff -/

/-- The state of the decoder's loop: what it returns, and the ids it has removed. -/
structure Decoding where
  batch : ReasonedUpdateBatch
  removed : Finset OrderId

namespace Decoding

/-- The state before the first diff. -/
def start : Decoding := ⟨.empty, ∅⟩

/-- `ops.push(reasoned_venue_op(op, diff, status))`. -/
def push (s : Decoding) (op : BookOp) (diff : VenueDiffKind) (status : Option String) : Decoding :=
  { s with batch.ops := s.batch.ops ++ [⟨op, .venue "dwellir" diff status⟩] }

/-- `if removed.insert(oid) { ops.push(..) } else { dropped_duplicate_removes += 1 }`. -/
def pushRemove (s : Decoding) (oid : OrderId) (diff : VenueDiffKind) (status : Option String) :
    Decoding :=
  if oid ∈ s.removed then
    { s with batch.droppedDuplicateRemoves := s.batch.droppedDuplicateRemoves + 1 }
  else ({ s with removed := insert oid s.removed }).push (.remove oid) diff status

/-- An `update` or a `modified`: a size of zero is a removal. -/
def pushSize (s : Decoding) (oid : OrderId) (newQty : Qty) (op : BookOp) (diff : VenueDiffKind)
    (status : Option String) : Decoding :=
  if newQty = 0 then
    ({ s with batch.collapsedCompleteFills := s.batch.collapsedCompleteFills + 1 }).pushRemove oid
      .completeFillCollapsed status
  else s.push op diff status

/-- What a round of the loop does with the diff it has read. -/
def account (statuses : Statuses) (s : Decoding) : Diff → Decoding
  | .remove oid => s.pushRemove oid .remove (statusText statuses oid)
  | .new order status => s.push (.add order) .new status
  | .unresolvedNew _ => { s with batch.unresolvedNew := s.batch.unresolvedNew + 1 }
  | .update oid newQty =>
    s.pushSize oid newQty (.updateSize oid newQty) .update (statusText statuses oid)
  | .modified oid newQty =>
    s.pushSize oid newQty (.amendSize oid newQty) .modified (statusText statuses oid)
  | .unknown _ => s

end Decoding

/-- The loop over the diffs. -/
def decodeDiffs (scales : Scales) (statuses : Statuses) (diffs : List Json) :
    Except AdapterError ReasonedUpdateBatch := do
  let s ← diffs.foldlM (fun (s : Decoding) d => do
    let diff ← readDiff scales statuses d
    return s.account statuses diff) Decoding.start
  return s.batch

/-- `decode_updates_with_meta`. -/
def decodeUpdatesWithMeta (scales : Scales) (updates : Json) :
    Except AdapterError ReasonedUpdateBatch :=
  match (updates.get "book_diffs").bind Json.asArray with
  | none => .ok .empty
  | some diffs => decodeDiffs scales (statusByOid updates) diffs

end L4Book
