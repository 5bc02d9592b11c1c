import Mathlib.Algebra.Order.Sub.Basic
import Mathlib.Tactic.Abel

/-!
# Accounts of a stock

What lies in a store, with everything that ever came in, went out, or was corrected by counting:
after any sequence of entries, what there was at the opening and what came in is what is still there
and what went out. An entry of goods issued balances only if they were in the store.

## Main definitions

* `StockAccount`, `StockAccount.opened`
* `StockAccount.receive`, `issue`, `setTo`: the entries
* `StockAccount.Balances`: the equation

## Main results

* `StockAccount.Balances.receive`, `.issue`, `.setTo`: one lemma for each entry
* `StockAccount.Balances.issued_le`: nothing is issued that never came in
-/

namespace L4Book

/-- An account of a stock: what is there, what came in and went out, and by how much the stock was
raised or lowered when it was set. -/
structure StockAccount (M : Type*) where
  stock : M
  received : M
  issued : M
  raised : M
  lowered : M
deriving DecidableEq, Repr

namespace StockAccount

variable {M : Type*} [AddCommMonoid M]

/-- The account at its opening. -/
def opened (opening : M) : StockAccount M := ⟨opening, 0, 0, 0, 0⟩

/-- Goods come in. -/
def receive (s : StockAccount M) (n : M) : StockAccount M :=
  { s with stock := s.stock + n, received := s.received + n }

/-- Two entries of goods received are one. -/
theorem receive_receive (s : StockAccount M) (m n : M) :
    (s.receive m).receive n = s.receive (m + n) := by
  rw [receive, receive, receive, add_assoc, add_assoc]

variable [Sub M]

/-- Goods go out. -/
def issue (s : StockAccount M) (n : M) : StockAccount M :=
  { s with stock := s.stock - n, issued := s.issued + n }

/-- The stock is set to `n`. -/
def setTo (s : StockAccount M) (n : M) : StockAccount M :=
  { s with
    stock := n
    raised := s.raised + (n - s.stock)
    lowered := s.lowered + (s.stock - n) }

omit [Sub M] in
@[simp] theorem stock_receive (s : StockAccount M) (n : M) : (s.receive n).stock = s.stock + n :=
  rfl

@[simp] theorem stock_issue (s : StockAccount M) (n : M) : (s.issue n).stock = s.stock - n := rfl

@[simp] theorem stock_setTo (s : StockAccount M) (n : M) : (s.setTo n).stock = n := rfl

omit [Sub M] in
/-- What there was and what came in is what is there and what went out. -/
def Balances (s : StockAccount M) (opening : M) : Prop :=
  opening + s.received + s.raised = s.stock + s.issued + s.lowered

omit [Sub M] in
theorem balances_opened (opening : M) : (opened opening).Balances opening := rfl

variable {s : StockAccount M} {opening n : M}

omit [Sub M] in
theorem Balances.receive (h : s.Balances opening) (n : M) : (s.receive n).Balances opening := by
  show opening + (s.received + n) + s.raised = s.stock + n + s.issued + s.lowered
  calc opening + (s.received + n) + s.raised
      = opening + s.received + s.raised + n := by abel
    _ = s.stock + s.issued + s.lowered + n := congrArg (· + n) h
    _ = s.stock + n + s.issued + s.lowered := by abel

variable [LinearOrder M] [CanonicallyOrderedAdd M] [OrderedSub M]

/-- **Goods that are there can go out.** -/
theorem Balances.issue (h : s.Balances opening) (hn : n ≤ s.stock) :
    (s.issue n).Balances opening := by
  have hstock : s.stock - n + n = s.stock := tsub_add_cancel_of_le hn
  show opening + s.received + s.raised = s.stock - n + (s.issued + n) + s.lowered
  generalize s.stock - n = left at hstock ⊢
  calc opening + s.received + s.raised
      = s.stock + s.issued + s.lowered := h
    _ = left + n + s.issued + s.lowered := by rw [hstock]
    _ = left + (s.issued + n) + s.lowered := by abel

theorem Balances.setTo (h : s.Balances opening) (n : M) : (s.setTo n).Balances opening := by
  have hmax : s.stock + (n - s.stock) = n + (s.stock - n) := by
    rw [add_tsub_eq_max, add_tsub_eq_max, max_comm]
  show opening + s.received + (s.raised + (n - s.stock)) =
    n + s.issued + (s.lowered + (s.stock - n))
  generalize n - s.stock = up at hmax ⊢
  generalize s.stock - n = down at hmax ⊢
  calc opening + s.received + (s.raised + up)
      = opening + s.received + s.raised + up := by abel
    _ = s.stock + s.issued + s.lowered + up := congrArg (· + up) h
    _ = s.stock + up + s.issued + s.lowered := by abel
    _ = n + down + s.issued + s.lowered := by rw [hmax]
    _ = n + s.issued + (s.lowered + down) := by abel

omit [Sub M] [OrderedSub M] in
/-- **Nothing is issued that never came in.** -/
theorem Balances.issued_le (h : s.Balances opening) :
    s.issued ≤ opening + s.received + s.raised := by
  rw [h]
  exact le_add_right (le_add_self)

end StockAccount

end L4Book
