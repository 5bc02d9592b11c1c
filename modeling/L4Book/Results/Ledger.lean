import L4Book.Refinement.Ledger
import L4Book.Results.Simulation

/-!
# Nothing is filled that was not there

The ledger of an order, kept from calls and replies over any run: added, filled by takers and by
crossing orders, shrunk, amended, coerced, replaced by snapshots, cleared. It always shows what the
book has under the id. So every fill ever reported for the order took something that was on the
book, and of what was brought nothing is lost.

## Main definitions

* `OrderBook.qtyUnder`: what `get` shows under an id
* `OrderAccount.enterAll`: the account after a run

## Main results

* `orderAccount_balances`
-/

namespace L4Book

/-- The quantity that `get` shows under an id. -/
def OrderBook.qtyUnder (b : OrderBook) (id : OrderId) : Except Fault ℕ :=
  AbstractBook.qtyOfOption <$> b.get id

/-- The account after a sequence of calls with their replies. -/
def OrderAccount.enterAll (id : OrderId) : OrderAccount → List Call → List CallReply → OrderAccount
  | s, c :: calls, r :: rs => (s.enter id c r).enterAll id calls rs
  | s, _, _ => s

variable {π : Profile} {b c : OrderBook} {a : AbstractBook} {id : OrderId} {opening : ℕ}
  {s : OrderAccount}

theorem qtyUnder_spec (h : Represents π b a) (id : OrderId) :
    b.qtyUnder id = .ok (a.qtyOf id) := by
  rw [OrderBook.qtyUnder, get_spec h]
  rfl

open AbstractBook in
/-- **The run lemma**: the account stays right. -/
theorem AbstractBook.Keeps.outputs (h : Keeps a id opening s) (calls : List Call) :
    Keeps (outputs respondExec a calls).2 id opening
      (s.enterAll id calls (L4Book.outputs respondExec a calls).1) := by
  induction calls generalizing a s with
  | nil => exact h
  | cons x calls ih => exact ih (h.exec x)

/-- **The account of an order is right, and balances.** After any run, what the calls and replies
say of an order is what the book has under its id, and all that was filled and withdrawn was there
at the opening, was brought, or was added by an amendment. -/
theorem orderAccount_balances (hb : Reachable π b) {calls : List Call} {rs : List CallReply}
    (hrun : b.respondAll π calls = .ok (rs, c)) (id : OrderId) :
    ∃ opening s, b.qtyUnder id = .ok opening ∧
      s = OrderAccount.enterAll id (.opened opening) calls rs ∧
      c.qtyUnder id = .ok s.stock ∧
      opening + s.received + s.raised = s.stock + s.issued + s.lowered ∧
      s.issued ≤ opening + s.received + s.raised := by
  obtain ⟨a, h⟩ := hb.represents
  obtain ⟨hrs, hc⟩ := (respondAll_spec h _).of_eq_ok hrun
  dsimp only at hrs
  have hopened : AbstractBook.Keeps a id (a.qtyOf id) (.opened (a.qtyOf id)) :=
    ⟨rfl, StockAccount.balances_opened _⟩
  have hkeeps := hopened.outputs calls
  rw [← hrs] at hkeeps
  refine ⟨a.qtyOf id, _, qtyUnder_spec h id, rfl, ?_, hkeeps.balances, hkeeps.balances.issued_le⟩
  rw [qtyUnder_spec hc, hkeeps.stock]

/-- The order 4 is hit behind its neighbour, grows, is hit again, and is withdrawn. -/
def ledgerCalls : List Call :=
  [.applyTakerOrder .ask 9 100, .amendSize 4 5, .submitLimitOrder (sampleOrder 8 1 .ask 100 2) .ioc,
    .submitLimitOrder (sampleOrder 9 1 .ask 100 50) .fok, .remove 4]

/-- Of three, two were filled; four were added, two filled, and three withdrawn. The fills of the
order that was killed do not count. -/
theorem orderAccount_balances_sample : ∃ rs c,
    sampleBook.respondAll .dev ledgerCalls = .ok (rs, c) ∧ sampleBook.qtyUnder 4 = .ok 3 ∧
    OrderAccount.enterAll 4 (.opened 3) ledgerCalls rs = ⟨0, 0, 4, 4, 3⟩ ∧
    c.qtyUnder 4 = .ok 0 := by
  have hrun : ∃ rs c, sampleBook.respondAll .dev ledgerCalls = .ok (rs, c) ∧
      OrderAccount.enterAll 4 (.opened 3) ledgerCalls rs = ⟨0, 0, 4, 4, 3⟩ :=
    ⟨_, _, by rfl, by rfl⟩
  have hopening : sampleBook.qtyUnder 4 = .ok 3 := by rfl
  obtain ⟨rs, c, hrun, haccount⟩ := hrun
  obtain ⟨opening, s, hopen, hs, hstock, -⟩ := orderAccount_balances sampleBook_reachable hrun 4
  obtain rfl : 3 = opening := Except.ok.inj (hopening.symm.trans hopen)
  rw [haccount] at hs
  subst hs
  exact ⟨rs, c, hrun, hopening, haccount, hstock⟩

end L4Book
