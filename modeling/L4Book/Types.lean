import Mathlib.Data.Finset.Basic
import Mathlib.Data.UInt
import Mathlib.Order.Basic

/-!
# Order book types

The public data of `src/types.rs`: identifiers, orders, operations, policies, outcomes and
errors. Every `u64` of the source is a `UInt64` here, so an order whose quantity does not fit a
machine word cannot be written down.

## What is left out

The `f64` fields `average_price`, `slippage` and `slippage_pct` of the match and slippage results:
they are computed from the integer fields and no other function reads them. `OperationSource`,
which no modelled function uses.

## Main definitions

* `Order`, `Side`, `WalletId`: a resting order and what it is made of
* `BookOp`: the venue-neutral mutation command
* `BookError`: what a book operation refuses
* `TakerMatch`, `FillDelta`: the result of walking the book
* `ReplayPolicy`, `ReplayApplyOutcome`: tolerant replay
-/

namespace L4Book

abbrev OrderId := UInt64
abbrev Price := UInt64
abbrev Qty := UInt64
abbrev Ts := UInt64

/-- Bids and asks. -/
inductive Side
  | bid
  | ask
deriving DecidableEq, Repr

/-- The side a taker on `s` consumes: `match taker_side { Bid => Ask, Ask => Bid }`. -/
def Side.opposite : Side → Side
  | .bid => .ask
  | .ask => .bid

/-- What a book operation, or the wallet parser, refuses. -/
inductive BookError
  | duplicateOrderId (id : OrderId)
  | unknownOrderId (id : OrderId)
  | zeroQty
  | syntheticOrderIdInSnapshot (id : OrderId)
  | nonDecreasingSize (current proposed : Qty)
  | invalidWalletHex
deriving DecidableEq, Repr

/-! ### Wallets -/

/-- A 20-byte wallet address. -/
structure WalletId where
  bytes : Vector UInt8 20
deriving DecidableEq, Repr

/-- The value of one hexadecimal digit given as an ASCII byte. -/
def hexNib (b : UInt8) : Except BookError UInt8 :=
  if 48 ≤ b ∧ b ≤ 57 then .ok (b - 48)
  else if 97 ≤ b ∧ b ≤ 102 then .ok (b - 97 + 10)
  else if 65 ≤ b ∧ b ≤ 70 then .ok (b - 65 + 10)
  else .error .invalidWalletHex

/-- The bytes of a string: `s.as_bytes()`. -/
def asBytes (s : String) : List UInt8 := s.toUTF8.data.toList

/-- `s.strip_prefix("0x").unwrap_or(s)`, on bytes. -/
def stripHexPrefix : List UInt8 → List UInt8
  | 48 :: 120 :: rest => rest
  | s => s

/-- The two nibbles of every output byte in turn, left to right. -/
def hexBytes : List UInt8 → Except BookError (List UInt8)
  | hi :: lo :: rest => do
    let hi ← hexNib hi
    let lo ← hexNib lo
    let out ← hexBytes rest
    return ((hi <<< 4) ||| lo) :: out
  | _ => .ok []

/-- `WalletId::from_hex`: exactly forty hexadecimal digits after an optional `0x`. The `[u8; 20]`
the source fills in place is the vector of the twenty bytes the digits give. -/
def WalletId.fromHex (s : String) : Except BookError WalletId :=
  let s := stripHexPrefix (asBytes s)
  if s.length ≠ 40 then .error .invalidWalletHex
  else do
    let out ← hexBytes s
    return ⟨Vector.ofFn fun i => out.getD i 0⟩

/-! ### Orders and operations -/

/-- An order resting on the book. -/
structure Order where
  id : OrderId
  wallet : WalletId
  side : Side
  price : Price
  qty : Qty
  ts : Ts
deriving DecidableEq, Repr

/-- Venue-neutral mutation operation for a resting-order book. -/
inductive BookOp
  | add (order : Order)
  | remove (id : OrderId)
  | updateSize (id : OrderId) (newQty : Qty)
  | amendSize (id : OrderId) (newQty : Qty)
deriving DecidableEq, Repr

/-- Venue diff category when an adapter can preserve cause metadata. -/
inductive VenueDiffKind
  | new
  | remove
  | update
  | modified
  | completeFillCollapsed
deriving DecidableEq, Repr

/-- Local simulator cause for generated operations. -/
inductive SimulatorCause
  | takerFill
  | limitOrderRest
  | snapshotPreserve
deriving DecidableEq, Repr

/-- Optional reason or cause metadata for an operation. -/
inductive OperationCause
  | venue (source : String) (diff : VenueDiffKind) (status : Option String)
  | simulator (cause : SimulatorCause)
  | snapshot
  | user
  | unknown
deriving DecidableEq, Repr

/-- A book operation bundled with reason or cause metadata. -/
structure ReasonedBookOp where
  op : BookOp
  cause : OperationCause
deriving DecidableEq, Repr

/-- High-bit namespace convention for local simulator orders. -/
def syntheticOrderIdFlag : UInt64 := (1 : UInt64) <<< 63

/-- Is `id` in the advisory synthetic-order namespace? -/
def isSyntheticOrderId (id : OrderId) : Bool := id &&& syntheticOrderIdFlag ≠ 0

/-- The synthetic id of a local id, if the local id is not one already. -/
def syntheticOrderId (localId : UInt64) : Option OrderId :=
  if isSyntheticOrderId localId then none else some (localId ||| syntheticOrderIdFlag)

/-- Priority behaviour to apply when amending a resting order's size. -/
inductive AmendPriorityPolicy
  | preserve
  | losePriorityOnIncrease
deriving DecidableEq, Repr

/-! ### Results -/

/-- Queue statistics for a live order, or for a hypothetical new one. The counters are natural
numbers; the quantities are machine words. -/
structure QueuePosition where
  id : Option OrderId
  side : Side
  price : Price
  ordersAhead : ℕ
  qtyAhead : Qty
  ordersBehind : ℕ
  qtyBehind : Qty
  levelOrderCount : ℕ
  levelTotalQty : Qty
deriving DecidableEq, Repr

/-- Per-resting-order fill produced by a deterministic taker match. -/
structure FillDelta where
  makerOrderId : OrderId
  makerWallet : WalletId
  makerSide : Side
  price : Price
  filledQty : Qty
  makerQtyBefore : Qty
  makerQtyAfter : Qty
  makerRemoved : Bool
deriving DecidableEq, Repr

/-- Detailed result for a hypothetical or applied taker order. `filledNotional` is a `u128`. -/
structure TakerMatch where
  takerSide : Side
  requestedQty : Qty
  filledQty : Qty
  unfilledQty : Qty
  filledNotional : ℕ
  limitPrice : Price
  referencePrice : Option Price
  fills : List FillDelta
  limitStopped : Bool
  exhaustedBook : Bool
deriving DecidableEq, Repr

def TakerMatch.isComplete (m : TakerMatch) : Bool := m.unfilledQty == 0

/-- Slippage estimate for a hypothetical taker order. The two notionals are `u128`s. -/
structure SlippageEstimate where
  takerSide : Side
  requestedQty : Qty
  filledQty : Qty
  unfilledQty : Qty
  filledNotional : ℕ
  limitPrice : Price
  referencePrice : Option Price
  slippageNotional : Option ℕ
  limitStopped : Bool
  exhaustedBook : Bool
deriving DecidableEq, Repr

/-- Time-in-force and crossing behaviour of a submitted limit order. -/
inductive LimitOrderPolicy
  | gtc
  | ioc
  | fok
  | postOnly
deriving DecidableEq, Repr

/-- Why a submitted limit order performed no mutation. -/
inductive SubmitRejectReason
  | postOnlyWouldCross
  | fillOrKillWouldNotFill
deriving DecidableEq, Repr

/-- Outcome of submitting a limit order. -/
structure SubmitLimitOrderOutcome where
  policy : LimitOrderPolicy
  rejected : Option SubmitRejectReason
  takerMatch : TakerMatch
  restedOrder : Option Order
deriving DecidableEq, Repr

/-- Policy for applying a replacement snapshot. -/
inductive SnapshotPolicy
  | replace
  | preserveSynthetic
deriving DecidableEq, Repr

/-- Counts produced by snapshot application. -/
structure SnapshotOutcome where
  inserted : ℕ
  preserved : ℕ
deriving DecidableEq, Repr

/-! ### Replay policies -/

inductive MissingOrderPolicy
  | error
  | skip
deriving DecidableEq, Repr

inductive DuplicateAddPolicy
  | error
  | skip
deriving DecidableEq, Repr

inductive NonDecreasingUpdatePolicy
  | error
  | treatAsAmend
deriving DecidableEq, Repr

/-- Replay behaviour for applying venue operations. -/
structure ReplayPolicy where
  missingOrder : MissingOrderPolicy
  duplicateAdd : DuplicateAddPolicy
  nonDecreasingUpdate : NonDecreasingUpdatePolicy
deriving DecidableEq, Repr

/-- `ReplayPolicy::STRICT`. -/
def ReplayPolicy.strict : ReplayPolicy where
  missingOrder := .error
  duplicateAdd := .error
  nonDecreasingUpdate := .error

/-- `ReplayPolicy::DWELLIR_TOLERANT`. -/
def ReplayPolicy.dwellirTolerant : ReplayPolicy where
  missingOrder := .skip
  duplicateAdd := .skip
  nonDecreasingUpdate := .treatAsAmend

/-- Why an operation was skipped or coerced under a tolerant replay policy. -/
inductive ToleratedReplayReason
  | missingOrder (id : OrderId)
  | duplicateAdd (id : OrderId)
  | nonDecreasingUpdate (id : OrderId) (current proposed : Qty)
deriving DecidableEq, Repr

/-- Result of applying a single operation under a replay policy. -/
inductive ReplayApplyOutcome
  | applied (op : BookOp)
  | skipped (op : BookOp) (reason : ToleratedReplayReason)
  | coerced (original applied : BookOp) (reason : ToleratedReplayReason)
  | error (op : BookOp) (error : BookError)
deriving DecidableEq, Repr

end L4Book
