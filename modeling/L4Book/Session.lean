import L4Book.Replay
import Mathlib.Data.Finset.Sort

/-!
# Sessions

The public interface of a book as a machine that answers: a request is a call of a mutating method
or of a read-only one, and what comes back is what the method returns. A session is a sequence of
requests with the replies to them.

Two things that can be seen from outside are left out. `slab_len` tells how many slots the book has
used, and is no request here. `orders_by_wallet` hands out the orders of a wallet in the order of a
hash table, and is answered with their set.

## Main definitions

* `CallReply`, `OrderBook.respond`, `respondAll`: what mutating methods reply
* `Query`, `Answer`, `OrderBook.answer`: the read-only methods
* `Request`, `OrderBook.serve`, `responses`: sessions
-/

namespace L4Book

/-- What a call of a public mutating method replies. -/
inductive CallReply
  | done (r : Except BookError Unit)
  | removed (r : Except BookError Order)
  | replayed (outcome : ReplayApplyOutcome)
  | taken (r : Except BookError TakerMatch)
  | submitted (r : Except BookError SubmitLimitOrderOutcome)
  | replaced (r : Except BookError SnapshotOutcome)
  | cleared

/-- A read-only method with its arguments: every public one but `slab_len`. -/
inductive Query
  | len
  | isEmpty
  | get (id : OrderId)
  | bestBid
  | bestAsk
  | bestBidAsk
  | depth (side : Side)
  | levelSummary (side : Side) (price : Price)
  | ordersAt (side : Side) (price : Price)
  | queuePosition (id : OrderId)
  | queuePositionForNewOrder (side : Side) (price : Price)
  | topNLevels (n : ℕ)
  | topNLevelsAggregated (n : ℕ)
  | estimateSlippage (takerSide : Side) (qty : Qty) (limitPrice : Price)
  | matchTakerOrder (takerSide : Side) (qty : Qty) (limitPrice : Price)
  | ordersByWallet (wallet : WalletId)
  | assertInvariants

open OrderBook (AggregatedLevel UnaggregatedLevel)

/-- What a read-only method returns. -/
inductive Answer
  | len (n : ℕ)
  | empty (e : Bool)
  | order (o : Option Order)
  | price (p : Option Price)
  | prices (p : Option Price × Option Price)
  | levels (entries : List (Price × Qty × ℕ))
  | summary (s : Option (Qty × ℕ))
  | orders (l : List Order)
  | position (r : Except BookError QueuePosition)
  | newPosition (pos : QueuePosition)
  | top (levels : List UnaggregatedLevel × List UnaggregatedLevel)
  | topAggregated (levels : List AggregatedLevel × List AggregatedLevel)
  | estimate (e : SlippageEstimate)
  | fills (m : TakerMatch)
  | wallet (orders : Finset Order)
  | checked

/-- What a request gets back. -/
inductive Response
  | reply (r : CallReply)
  | answer (a : Answer)

/-- A request of a client: to change the book, or to read it. -/
inductive Request
  | call (c : Call)
  | query (q : Query)

namespace OrderBook

/-- A reply under the name of its method. -/
def named {α : Type} (name : α → CallReply) (r : α × OrderBook) : CallReply × OrderBook :=
  (name r.1, r.2)

/-- A call with its reply. -/
def respond (π : Profile) (b : OrderBook) : Call → Except Fault (CallReply × OrderBook)
  | .add order => named .done <$> b.add π order
  | .remove id => named .removed <$> b.remove π id
  | .updateSize id newQty => named .done <$> b.updateSize π id newQty
  | .amendSize id newQty => named .done <$> b.amendSize π id newQty
  | .amendSizeWithPolicy id newQty policy =>
    named .done <$> b.amendSizeWithPolicy π id newQty policy
  | .applyOp op => named .done <$> b.applyOp π op
  | .applyOpWithPolicy op policy => named .replayed <$> b.applyOpWithPolicy π op policy
  | .applyTakerOrder takerSide qty limitPrice =>
    named .taken <$> b.applyTakerOrder π takerSide qty limitPrice
  | .submitLimitOrder order policy => named .submitted <$> b.submitLimitOrder π order policy
  | .applySnapshot orders => named .done <$> b.applySnapshot π orders
  | .applySnapshotWithPolicy orders policy =>
    named .replaced <$> b.applySnapshotWithPolicy π orders policy
  | .clear => .ok (.cleared, b.clear)

/-- A sequence of calls with their replies. -/
def respondAll (π : Profile) (b : OrderBook) : List Call → Except Fault (List CallReply × OrderBook)
  | [] => .ok ([], b)
  | c :: calls => do
    let (r, b) ← b.respond π c
    let (rs, b) ← b.respondAll π calls
    return (r :: rs, b)

/-- The orders of a wallet, whatever the order in which the hash set hands them out. -/
def walletSet (b : OrderBook) (wallet : WalletId) : Except Fault (Finset Order) :=
  List.toFinset <$> b.ordersByWallet (fun ids => ids.sort) wallet

/-- What a read-only method returns. -/
def answer (π : Profile) (b : OrderBook) : Query → Except Fault Answer
  | .len => .ok (.len b.len)
  | .isEmpty => .ok (.empty b.isEmpty)
  | .get id => .order <$> b.get id
  | .bestBid => .ok (.price b.bestBid)
  | .bestAsk => .ok (.price b.bestAsk)
  | .bestBidAsk => .ok (.prices b.bestBidAsk)
  | .depth side => .ok (.levels (b.depth side))
  | .levelSummary side price => .ok (.summary (b.levelSummary side price))
  | .ordersAt side price => .orders <$> b.ordersAt side price
  | .queuePosition id => .position <$> b.queuePosition π id
  | .queuePositionForNewOrder side price =>
    .ok (.newPosition (b.queuePositionForNewOrder side price))
  | .topNLevels n => .top <$> b.topNLevels n
  | .topNLevelsAggregated n => .ok (.topAggregated (b.topNLevelsAggregated n))
  | .estimateSlippage takerSide qty limitPrice =>
    .estimate <$> b.estimateSlippage π takerSide qty limitPrice
  | .matchTakerOrder takerSide qty limitPrice =>
    .fills <$> b.matchTakerOrder π takerSide qty limitPrice
  | .ordersByWallet wallet => .wallet <$> b.walletSet wallet
  | .assertInvariants => (fun _ => .checked) <$> b.debugAssertInvariants π

/-- One request. -/
def handle (π : Profile) (b : OrderBook) : Request → Except Fault (Response × OrderBook)
  | .call c => do
    let (r, b) ← b.respond π c
    return (.reply r, b)
  | .query q => do
    let a ← b.answer π q
    return (.answer a, b)

/-- A session: the responses to a sequence of requests, and the book after it. -/
def serve (π : Profile) (b : OrderBook) : List Request → Except Fault (List Response × OrderBook)
  | [] => .ok ([], b)
  | request :: requests => do
    let (r, b) ← b.handle π request
    let (rs, b) ← b.serve π requests
    return (r :: rs, b)

/-- What a session shows. -/
def responses (π : Profile) (b : OrderBook) (requests : List Request) :
    Except Fault (List Response) :=
  Prod.fst <$> b.serve π requests

end OrderBook

end L4Book
