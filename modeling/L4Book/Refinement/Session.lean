import L4Book.Results.Replacing
import L4Book.Session

/-!
# What a session shows

The reply to a call and the answer to a query depend on the abstract book that is stored, and not on
how: not on the slots, on the free list or on the order in which the maps were filled. A session
also stops on an overflow panic at the same request whatever the layout, since where overflow is
checked a call panics exactly when the totals of the abstract book after it do not fit.

## Main definitions

* `AbstractBook.respond`: the reply to a call

## Main results

* `respond_spec`: a call with its reply
* `answer_congr`, `exists_answer`: queries read the abstract book and always answer
* `responses_congr`: sessions of books that store the same abstract book
* `responses_append`: one session after another
-/

namespace L4Book

/-- The reply to a call. -/
noncomputable def AbstractBook.respond (a : AbstractBook) : Call → CallReply
  | .add order => .done (a.add order).1
  | .remove id => .removed (a.remove id).1
  | .updateSize id newQty => .done (a.updateSize id newQty).1
  | .amendSize id newQty => .done (a.amendSize id newQty).1
  | .amendSizeWithPolicy id newQty policy => .done (a.amendSizeWithPolicy id newQty policy).1
  | .applyOp op => .done (a.applyOp op).1
  | .applyOpWithPolicy op policy => .replayed (a.applyOpWithPolicy op policy).1
  | .applyTakerOrder takerSide qty limitPrice =>
    .taken (a.applyTakerOrder takerSide qty limitPrice).1
  | .submitLimitOrder order policy => .submitted (a.submitLimitOrder order policy).1
  | .applySnapshot orders =>
    .done ((a.applySnapshotWithPolicy orders .replace).1.map fun _ => ())
  | .applySnapshotWithPolicy orders policy =>
    .replaced (a.applySnapshotWithPolicy orders policy).1
  | .clear => .cleared

/-- A call with its reply, on the abstract book. -/
noncomputable def AbstractBook.respondExec (a : AbstractBook) (c : Call) :
    CallReply × AbstractBook := (a.respond c, a.exec c)

variable {π : Profile} {b b' : OrderBook} {a : AbstractBook}

/-! ### Calls -/

theorem returns_named {α : Type} {bad : Fault → Prop} {v : Except Fault (α × OrderBook)}
    {reply : α} {after : AbstractBook} (name : α → CallReply)
    (h : Returns bad v fun r => r.1 = reply ∧ Represents π r.2 after) :
    Returns bad (OrderBook.named name <$> v) fun r =>
      r.1 = name reply ∧ Represents π r.2 after :=
  Returns.map (h.imp fun _ hr => ⟨congrArg name hr.1, hr.2⟩)

/-- **A call with its reply.** -/
theorem respond_spec (h : Represents π b a) (c : Call) :
    Returns (OnlyOverflow π (CallOverflows a c)) (b.respond π c) fun r =>
      r.1 = a.respond c ∧ Represents π r.2 (a.exec c) := by
  cases c with
  | add order => exact returns_named .done (add_spec h order)
  | remove id => exact returns_named .removed (remove_spec h id)
  | updateSize id newQty => exact returns_named .done (updateSize_spec h id newQty)
  | amendSize id newQty => exact returns_named .done (amendSize_spec h id newQty)
  | amendSizeWithPolicy id newQty policy =>
    exact returns_named .done (amendSizeWithPolicy_spec h id newQty policy)
  | applyOp op => exact returns_named .done (applyOp_spec h op)
  | applyOpWithPolicy op policy =>
    exact returns_named .replayed (applyOpWithPolicy_spec h op policy)
  | applyTakerOrder taker qty limit =>
    exact returns_named .taken (applyTakerOrder_spec h taker qty limit)
  | submitLimitOrder order policy =>
    exact returns_named .submitted (submitLimitOrder_spec h order policy)
  | applySnapshot orders => exact returns_named .done (applySnapshot_spec h orders)
  | applySnapshotWithPolicy orders policy =>
    exact returns_named .replaced (applySnapshotWithPolicy_spec h orders policy)
  | clear => exact ⟨rfl, represents_clear π b⟩

/-- A call is what is left of it when its reply is thrown away. -/
theorem exec_eq_respond (b : OrderBook) (c : Call) :
    b.exec π c = Prod.snd <$> b.respond π c := by
  have hnamed : ∀ {α : Type} (name : α → CallReply) (v : Except Fault (α × OrderBook)),
      Prod.snd <$> v = Prod.snd <$> (OrderBook.named name <$> v) := by
    intro α name v
    cases v <;> rfl
  cases c <;> first | exact hnamed _ _ | rfl

open AbstractBook in
/-- A sequence of calls is a run of the abstract book with its outputs. -/
theorem respondAll_spec (h : Represents π b a) (calls : List Call) :
    Returns (fun e => e = .overflow ∧ π = .dev) (b.respondAll π calls) fun r =>
      r.1 = (outputs respondExec a calls).1 ∧ Represents π r.2 (outputs respondExec a calls).2 := by
  induction calls generalizing a b with
  | nil => exact ⟨rfl, h⟩
  | cons c calls ih =>
    rw [OrderBook.respondAll]
    refine ((respond_spec h c).mono (fun e he => ⟨he.1, he.2.1⟩) fun _ hr => hr).bind ?_
    rintro ⟨r, b₁⟩ ⟨rfl, hb₁⟩
    refine (ih hb₁).bind ?_
    rintro ⟨rs, b₂⟩ ⟨rfl, hb₂⟩
    exact ⟨rfl, hb₂⟩

/-! ### Queries -/

/-- The estimate reads the depth and the best price of the other side. -/
theorem estimateSlippage_congr (h : Represents π b a) (h' : Represents π b' a) (taker : Side)
    (qty : Qty) (limit : Price) :
    b.estimateSlippage π taker qty limit = b'.estimateSlippage π taker qty limit := by
  rw [OrderBook.estimateSlippage, OrderBook.estimateSlippage, OrderBook.slippageWalk,
    OrderBook.slippageWalk, depth_spec h, depth_spec h', referencePrice_spec h,
    referencePrice_spec h']

theorem queuePosition_congr (h : Represents π b a) (h' : Represents π b' a) (id : OrderId) :
    b.queuePosition π id = b'.queuePosition π id := by
  by_cases hlive : a.Live id
  · obtain ⟨o, ho, rfl⟩ := hlive
    obtain ⟨ol, or, hqueue⟩ := List.append_of_mem (KeyedQueues.mem_def.mp ho)
    rw [queuePosition_spec h hqueue, queuePosition_spec h' hqueue]
  · rw [queuePosition_unknown h hlive, queuePosition_unknown h' hlive]

/-- A list in ascending order has every element of the set once. -/
theorem enumerates_sort : Enumerates fun ids => ids.sort :=
  fun s => ⟨s.sort_nodup _, fun _ => Finset.mem_sort _⟩

theorem walletSet_spec (h : Represents π b a) (wallet : WalletId) :
    b.walletSet wallet = .ok (a.orders.filter fun o => o.wallet = wallet).toFinset :=
  toFinset_ordersByWallet h enumerates_sort wallet

/-- **Queries read the abstract book.** -/
theorem answer_congr (h : Represents π b a) (h' : Represents π b' a) (q : Query) :
    b.answer π q = b'.answer π q := by
  cases q with
  | len => simp only [OrderBook.answer, len_spec h, len_spec h']
  | isEmpty => simp only [OrderBook.answer, OrderBook.isEmpty, len_spec h, len_spec h']
  | get id => simp only [OrderBook.answer, get_spec h, get_spec h']
  | bestBid => simp only [OrderBook.answer, bestBid_spec h, bestBid_spec h']
  | bestAsk => simp only [OrderBook.answer, bestAsk_spec h, bestAsk_spec h']
  | bestBidAsk =>
    simp only [OrderBook.answer, OrderBook.bestBidAsk, bestBid_spec h, bestBid_spec h',
      bestAsk_spec h, bestAsk_spec h']
  | depth side => simp only [OrderBook.answer, depth_spec h, depth_spec h']
  | levelSummary side price =>
    simp only [OrderBook.answer, levelSummary_spec h, levelSummary_spec h']
  | ordersAt side price => simp only [OrderBook.answer, ordersAt_spec h, ordersAt_spec h']
  | queuePosition id => simp only [OrderBook.answer, queuePosition_congr h h']
  | queuePositionForNewOrder side price =>
    simp only [OrderBook.answer, OrderBook.queuePositionForNewOrder, levelSummary_spec h,
      levelSummary_spec h']
  | topNLevels n => simp only [OrderBook.answer, topNLevels_spec h, topNLevels_spec h']
  | topNLevelsAggregated n =>
    simp only [OrderBook.answer, OrderBook.topNLevelsAggregated,
      OrderBook.topNLevelsAggregatedForSide, depth_spec h, depth_spec h']
  | estimateSlippage taker qty limit =>
    simp only [OrderBook.answer, estimateSlippage_congr h h']
  | matchTakerOrder taker qty limit =>
    simp only [OrderBook.answer, matchTakerOrder_spec h, matchTakerOrder_spec h']
  | ordersByWallet wallet => simp only [OrderBook.answer, walletSet_spec h, walletSet_spec h']
  | assertInvariants =>
    simp only [OrderBook.answer, debugAssertInvariants_spec h, debugAssertInvariants_spec h']

/-- **Queries always answer.** -/
theorem exists_answer (h : Represents π b a) (q : Query) : ∃ x, b.answer π q = .ok x := by
  have hok := h.neverPanics
  have hmap : ∀ {α : Type} {v : Except Fault α} (name : α → Answer),
      (∃ x, v = .ok x) → ∃ x, name <$> v = .ok x := by
    rintro α v name ⟨x, rfl⟩
    exact ⟨name x, rfl⟩
  cases q with
  | len => exact ⟨_, rfl⟩
  | isEmpty => exact ⟨_, rfl⟩
  | get id => exact hmap .order (hok.get id)
  | bestBid => exact ⟨_, rfl⟩
  | bestAsk => exact ⟨_, rfl⟩
  | bestBidAsk => exact ⟨_, rfl⟩
  | depth side => exact ⟨_, rfl⟩
  | levelSummary side price => exact ⟨_, rfl⟩
  | ordersAt side price => exact hmap .orders (hok.ordersAt side price)
  | queuePosition id => exact hmap .position (hok.queuePosition id)
  | queuePositionForNewOrder side price => exact ⟨_, rfl⟩
  | topNLevels n => exact hmap .top (hok.topNLevels n)
  | topNLevelsAggregated n => exact ⟨_, rfl⟩
  | estimateSlippage taker qty limit => exact hmap .estimate (hok.estimateSlippage taker qty limit)
  | matchTakerOrder taker qty limit => exact hmap .fills (hok.matchTakerOrder taker qty limit)
  | ordersByWallet wallet => exact hmap .wallet ⟨_, walletSet_spec h wallet⟩
  | assertInvariants => exact hmap (fun _ => .checked) ⟨_, debugAssertInvariants_spec h⟩

/-! ### Sessions -/

/-- **The step lemma**: books that store the same abstract book respond alike, and go on storing
the same one; or both stop on an overflow. -/
theorem handle_congr (h : Represents π b a) (h' : Represents π b' a) (request : Request) :
    (∃ r c c' a', b.handle π request = .ok (r, c) ∧ b'.handle π request = .ok (r, c') ∧
      Represents π c a' ∧ Represents π c' a') ∨
    (b.handle π request = .error .overflow ∧ b'.handle π request = .error .overflow) := by
  cases request with
  | call c =>
    rcases both_return_or_overflow (respond_spec h c) (respond_spec h' c)
      (fun r hr => ⟨r.2, hr.2⟩) (fun r hr => ⟨r.2, hr.2⟩) not_callOverflows not_callOverflows with
      ⟨⟨r, b₁⟩, ⟨r', b₁'⟩, hc, hc', ⟨hr, hrep⟩, ⟨hr', hrep'⟩⟩ | ⟨-, hc, hc', -⟩
    · obtain rfl : r = r' := hr.trans hr'.symm
      refine Or.inl ⟨.reply r, b₁, b₁', _, ?_, ?_, hrep, hrep'⟩
      · rw [OrderBook.handle, hc]
        rfl
      · rw [OrderBook.handle, hc']
        rfl
    · refine Or.inr ⟨?_, ?_⟩
      · rw [OrderBook.handle, hc]
        rfl
      · rw [OrderBook.handle, hc']
        rfl
  | query q =>
    obtain ⟨x, hx⟩ := exists_answer h q
    refine Or.inl ⟨.answer x, b, b', a, ?_, ?_, h, h'⟩
    · rw [OrderBook.handle, hx]
      rfl
    · rw [OrderBook.handle, ← answer_congr h h', hx]
      rfl

theorem responses_cons {request : Request} {r : Response} {c : OrderBook}
    (hc : b.handle π request = .ok (r, c)) (requests : List Request) :
    b.responses π (request :: requests) = (r :: ·) <$> c.responses π requests := by
  rw [OrderBook.responses, OrderBook.responses, OrderBook.serve, hc, ok_bind]
  show Prod.fst <$> (c.serve π requests >>= _) = _
  cases c.serve π requests <;> rfl

theorem responses_cons_error {request : Request} {e : Fault}
    (hc : b.handle π request = .error e) (requests : List Request) :
    b.responses π (request :: requests) = .error e := by
  rw [OrderBook.responses, OrderBook.serve, hc]
  rfl

/-- **The run lemma**: sessions of books that store the same abstract book show the same. -/
theorem responses_congr (h : Represents π b a) (h' : Represents π b' a)
    (requests : List Request) : b.responses π requests = b'.responses π requests := by
  induction requests generalizing b b' a with
  | nil => rfl
  | cons request requests ih =>
    rcases handle_congr h h' request with ⟨r, c, c', a', hc, hc', hrep, hrep'⟩ | ⟨hc, hc'⟩
    · rw [responses_cons hc, responses_cons hc', ih hrep hrep']
    · rw [responses_cons_error hc, responses_cons_error hc']

/-! ### One session after another -/

/-- A book at the end of a session is reachable. -/
theorem Reachable.serve (hb : Reachable π b) {requests : List Request} {rs : List Response}
    (hserve : b.serve π requests = .ok (rs, b')) : Reachable π b' := by
  induction requests generalizing b rs with
  | nil =>
    cases hserve
    exact hb
  | cons request requests ih =>
    obtain ⟨⟨r, c⟩, hc, hrest⟩ := bind_eq_ok_iff.mp hserve
    obtain ⟨⟨rs', c'⟩, hc', heq⟩ := bind_eq_ok_iff.mp hrest
    cases heq
    refine ih ?_ hc'
    cases request with
    | call call =>
      obtain ⟨⟨r', c'⟩, hrespond, heq⟩ := bind_eq_ok_iff.mp hc
      cases heq
      refine hb.exec (c := call) ?_
      rw [exec_eq_respond, hrespond]
      rfl
    | query q =>
      obtain ⟨x, -, heq⟩ := bind_eq_ok_iff.mp hc
      cases heq
      exact hb

/-- What one session after another shows. -/
theorem responses_append {first : List Request} {rs : List Response}
    (hfirst : b.serve π first = .ok (rs, b')) (rest : List Request) :
    b.responses π (first ++ rest) = (rs ++ ·) <$> b'.responses π rest := by
  induction first generalizing b rs with
  | nil =>
    cases hfirst
    show b'.responses π rest = id <$> b'.responses π rest
    rw [id_map]
  | cons request first ih =>
    obtain ⟨⟨r, c⟩, hc, hrest⟩ := bind_eq_ok_iff.mp hfirst
    obtain ⟨⟨rs', c'⟩, hc', heq⟩ := bind_eq_ok_iff.mp hrest
    cases heq
    rw [List.cons_append, responses_cons hc, ih hc', Functor.map_map]
    rfl

end L4Book
