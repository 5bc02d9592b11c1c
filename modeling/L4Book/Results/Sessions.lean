import L4Book.Refinement.Session
import L4Book.Results.Rebuilding

/-!
# Books that no session tells apart

Two reachable books with the same lists of orders give the same responses to every sequence of
requests, the panics of a build with overflow checks included; and a session that only reads the
lists tells all others apart. So the lists are all there is to a book: in what order levels came and
went, in what order a hash table was filled and what the free list looks like never shows, and how
often a slot was reused shows in nothing but `slab_len`, which is no request of a session.

In particular a book can be taken down and put up again from its own export at any point of a
session, and the client does not notice.

## Main results

* `sessions_agree_iff`: what sessions can tell apart
* `session_survives_restore`: a session that is interrupted by an export and an import
-/

namespace L4Book

variable {π : Profile} {b b' : OrderBook} {a a' : AbstractBook}

/-- Abstract books with the same lists are the same. -/
theorem eq_of_ordersAt (h : Represents π b a) (h' : Represents π b' a')
    (hlists : ∀ side price, b.ordersAt side price = b'.ordersAt side price) : a = a' := by
  apply KeyedQueues.ext
  funext ⟨side, price⟩
  have hsame := hlists side price
  rw [ordersAt_spec h, ordersAt_spec h'] at hsame
  exact Except.ok.inj hsame

/-- A session that reads one list shows it. -/
theorem responses_ordersAt (b : OrderBook) (side : Side) (price : Price) {orders : List Order}
    (horders : b.ordersAt side price = .ok orders) :
    b.responses π [.query (.ordersAt side price)] = .ok [.answer (.orders orders)] := by
  rw [OrderBook.responses, OrderBook.serve, OrderBook.handle, OrderBook.answer, horders]
  rfl

/-- Books that no session tells apart store the same. -/
theorem eq_of_responses (h : Represents π b a) (h' : Represents π b' a')
    (hagree : ∀ requests, b.responses π requests = b'.responses π requests) : a = a' := by
  refine eq_of_ordersAt h h' fun side price => ?_
  have hsame := hagree [.query (.ordersAt side price)]
  rw [responses_ordersAt b side price (ordersAt_spec h side price),
    responses_ordersAt b' side price (ordersAt_spec h' side price)] at hsame
  simp only [Except.ok.injEq, List.cons.injEq, Response.answer.injEq, Answer.orders.injEq,
    and_true] at hsame
  rw [ordersAt_spec h, ordersAt_spec h', hsame]

/-- **Sessions tell two books apart exactly when some list of orders differs.** -/
theorem sessions_agree_iff (hb : Reachable π b) (hb' : Reachable π b') :
    (∀ requests, b.responses π requests = b'.responses π requests) ↔
      ∀ side price, b.ordersAt side price = b'.ordersAt side price := by
  obtain ⟨a, h⟩ := hb.represents
  obtain ⟨a', h'⟩ := hb'.represents
  constructor
  · intro hagree side price
    rw [ordersAt_spec h, ordersAt_spec h', eq_of_responses h h' hagree]
  · intro hlists requests
    obtain rfl := eq_of_ordersAt h h' hlists
    exact responses_congr h h' requests

/-- The orders of the sample book, added in another order: they stand in other slots. -/
def shuffledCalls : List Call :=
  [.add (sampleOrder 6 2 .ask 103 9), .add (sampleOrder 3 1 .bid 99 4),
    .add (sampleOrder 2 2 .bid 100 7), .add (sampleOrder 5 1 .ask 101 6),
    .add (sampleOrder 4 2 .bid 100 3)]

/-- The book after the shuffled calls. -/
def shuffledBook : OrderBook :=
  match OrderBook.new.run .dev shuffledCalls with
  | .ok b => b
  | .error _ => OrderBook.new

theorem shuffledBook_reachable : Reachable .dev shuffledBook := ⟨shuffledCalls, by rfl⟩

/-- Only the lists at the prices of `depth` have to be looked at. -/
theorem ordersAt_eq_of_depth (h : Represents π b a) (h' : Represents π b' a') {side : Side}
    (hdepth : b.depth side = b'.depth side)
    (hlists : ∀ price ∈ (b.depth side).map Prod.fst,
      b.ordersAt side price = b'.ordersAt side price) (price : Price) :
    b.ordersAt side price = b'.ordersAt side price := by
  have hprices : ∀ {b : OrderBook} {a : AbstractBook}, Represents π b a →
      (b.depth side).map Prod.fst = a.prices side := by
    intro b a h
    rw [depth_spec h, List.map_map]
    exact List.map_id _
  by_cases hmem : price ∈ (b.depth side).map Prod.fst
  · exact hlists price hmem
  · have hnil := hmem
    have hnil' := hmem
    rw [hprices h, AbstractBook.mem_prices, not_not] at hnil
    rw [hdepth, hprices h', AbstractBook.mem_prices, not_not] at hnil'
    rw [ordersAt_spec h, ordersAt_spec h', hnil, hnil']

/-- The two sample books differ in their slots only. -/
theorem sessions_agree_iff_sample :
    (sampleBook.slab.orderAt 0).map Order.id ≠ (shuffledBook.slab.orderAt 0).map Order.id ∧
    ∀ requests, sampleBook.responses .dev requests = shuffledBook.responses .dev requests := by
  refine ⟨by decide, (sessions_agree_iff sampleBook_reachable shuffledBook_reachable).mpr ?_⟩
  obtain ⟨a, h⟩ := sampleBook_reachable.represents
  obtain ⟨a', h'⟩ := shuffledBook_reachable.represents
  intro side
  refine ordersAt_eq_of_depth h h' ?_ ?_
  · cases side <;> rfl
  · cases side with
    | bid =>
      have hdepth : (sampleBook.depth .bid).map Prod.fst = [100, 99] := by rfl
      rw [hdepth, List.forall_mem_cons, List.forall_mem_singleton]
      exact ⟨rfl, rfl⟩
    | ask =>
      have hdepth : (sampleBook.depth .ask).map Prod.fst = [101, 103] := by rfl
      rw [hdepth, List.forall_mem_cons, List.forall_mem_singleton]
      exact ⟨rfl, rfl⟩

/-! ### Interrupted sessions -/

/-- The orders of a book restore it, into whatever book there is. -/
theorem applySnapshot_restores (h : Represents π b a) (other : OrderBook) :
    ∃ restored, other.applySnapshot π a.orders = .ok (.ok (), restored) ∧
      Represents π restored a := by
  obtain ⟨restored, hsnapshot, -⟩ := applySnapshot_orders h other
  have hfresh := AbstractBook.fresh_empty
    (fun o ho => a.valid (AbstractBook.mem_orders.mp ho)) a.orders_ids_nodup
  exact ⟨restored, hsnapshot,
    ((applySnapshot_fresh other hfresh (AbstractBook.atPlace_orders a)).of_eq_ok hsnapshot).2⟩

/-- **A session survives a restore.** At any point the book can be exported with `top_n_levels` and
imported with `apply_snapshot`, into whatever book there is: the rest of the session shows what it
would have shown without the interruption. -/
theorem session_survives_restore (hb : Reachable π b) {first : List Request} {rs : List Response}
    (hfirst : b.serve π first = .ok (rs, b')) {n : ℕ} (hn : ∀ side, (b'.depth side).length ≤ n)
    (other : OrderBook) :
    ∃ top restored, b'.topNLevels n = .ok top ∧
      other.applySnapshot π (restoreOrders top) = .ok (.ok (), restored) ∧
      ∀ rest, b.responses π (first ++ rest) = (rs ++ ·) <$> restored.responses π rest := by
  have hb' := hb.serve hfirst
  obtain ⟨a, h⟩ := hb'.represents
  obtain ⟨top, htop, hrestore⟩ := restoreOrders_spec h hn
  obtain ⟨restored, hsnapshot, hrestored⟩ := applySnapshot_restores h other
  refine ⟨top, restored, htop, hrestore ▸ hsnapshot, fun rest => ?_⟩
  rw [responses_append hfirst, responses_congr h hrestored]

/-- The sample book is taken down between two requests for its best bid. -/
theorem session_survives_restore_sample : ∃ top restored, sampleBook.topNLevels 2 = .ok top ∧
    OrderBook.new.applySnapshot .dev (restoreOrders top) = .ok (.ok (), restored) ∧
    restored.responses .dev [.query .bestBid] = .ok [.answer (.price (some 100))] := by
  have hn : ∀ side, (sampleBook.depth side).length ≤ 2 := by
    intro side
    cases side <;> decide
  have hfirst : sampleBook.serve .dev [.query .bestBid] =
      .ok ([.answer (.price (some 100))], sampleBook) := by rfl
  obtain ⟨top, restored, htop, hsnapshot, hrest⟩ :=
    session_survives_restore sampleBook_reachable hfirst hn OrderBook.new
  refine ⟨top, restored, htop, hsnapshot, ?_⟩
  have hboth : sampleBook.responses .dev ([.query .bestBid] ++ [.query .bestBid]) =
      .ok [.answer (.price (some 100)), .answer (.price (some 100))] := by rfl
  rw [hrest] at hboth
  cases hv : restored.responses .dev [.query .bestBid] with
  | error e =>
    rw [hv] at hboth
    cases hboth
  | ok rs =>
    rw [hv] at hboth
    injection hboth with hboth
    injection hboth with _ hboth
    exact congrArg Except.ok hboth

end L4Book
