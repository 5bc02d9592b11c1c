import L4Book.Refinement.Replay

/-!
# Runs

Every call of a public mutating method, on a book that represents an abstract one, either stops
with an overflow panic in a build that checks for overflow, or leaves a book that represents the
abstract book after the call. By induction every reachable book represents an abstract book.

A run in which no call overflows returns in every build, and keeps the totals exact: the build
without overflow checks goes through the same states as the one with them.

## Main definitions

* `AbstractBook.exec`, `CallOverflows`, `RunFits`

## Main results

* `exec_spec`: the step lemma
* `run_represents`: the run lemma
* `Reachable.represents`
* `run_returns`, `totalsFit_of_runFits`: runs that fit return, and every level of them fits
-/

namespace L4Book

/-- The abstract book after a call. -/
noncomputable def AbstractBook.exec (a : AbstractBook) : Call → AbstractBook
  | .add order => (a.add order).2
  | .remove id => (a.remove id).2
  | .updateSize id newQty => (a.updateSize id newQty).2
  | .amendSize id newQty => (a.amendSize id newQty).2
  | .amendSizeWithPolicy id newQty policy => (a.amendSizeWithPolicy id newQty policy).2
  | .applyOp op => (a.applyOp op).2
  | .applyOpWithPolicy op policy => (a.applyOpWithPolicy op policy).2
  | .applyTakerOrder takerSide qty limitPrice => (a.applyTakerOrder takerSide qty limitPrice).2
  | .submitLimitOrder order policy => (a.submitLimitOrder order policy).2
  | .applySnapshot orders => (a.applySnapshotWithPolicy orders .replace).2
  | .applySnapshotWithPolicy orders policy => (a.applySnapshotWithPolicy orders policy).2
  | .clear => KeyedQueues.empty

/-- A `u64` level total would overflow in the course of the call: the true total of a level to
which the call adds would not fit. -/
def CallOverflows (a : AbstractBook) : Call → Prop
  | .add order => AddOverflows a order
  | .remove _ => False
  | .updateSize _ _ => False
  | .amendSize id newQty => AmendOverflows a id newQty
  | .amendSizeWithPolicy id newQty _ => AmendOverflows a id newQty
  | .applyOp op => OpOverflows a op
  | .applyOpWithPolicy op policy => ReplayOverflows a op policy
  | .applyTakerOrder _ _ _ => False
  | .submitLimitOrder order policy => SubmitOverflows a order policy
  | .applySnapshot orders => SnapshotOverflows a orders .replace
  | .applySnapshotWithPolicy orders policy => SnapshotOverflows a orders policy
  | .clear => False

variable {π : Profile} {b b' : OrderBook} {a : AbstractBook}

theorem returns_snd {α : Type} {bad : Fault → Prop} {v : Except Fault (α × OrderBook)}
    {post : α × OrderBook → Prop} {a : AbstractBook} (h : Returns bad v post)
    (hpost : ∀ r, post r → Represents π r.2 a) :
    Returns bad (Prod.snd <$> v) fun b' => Represents π b' a :=
  Returns.map (f := Prod.snd) (h.imp hpost)

/-- **What cannot overflow replies**, and leaves a book that represents the abstract one. -/
theorem exists_reply {α : Type} {bad : Fault → Prop} {v : Except Fault (Reply α)}
    {reply : Except BookError α} {a : AbstractBook}
    (hspec : Returns bad v fun r => r.1 = reply ∧ Represents π r.2 a) (hfits : ∀ e, ¬ bad e) :
    ∃ b', v = .ok (reply, b') ∧ Represents π b' a := by
  obtain ⟨⟨r, b'⟩, hv, rfl, hrep⟩ := (hspec.mono hfits fun _ hr => hr).exists_ok
  exact ⟨b', hv, hrep⟩

/-- **The step lemma**: what any one call does. -/
theorem exec_spec (h : Represents π b a) (c : Call) :
    Returns (OnlyOverflow π (CallOverflows a c)) (b.exec π c) fun b' =>
      Represents π b' (a.exec c) := by
  cases c with
  | add order => exact returns_snd (add_spec h order) fun _ => And.right
  | remove id => exact returns_snd (remove_spec h id) fun _ => And.right
  | updateSize id newQty => exact returns_snd (updateSize_spec h id newQty) fun _ => And.right
  | amendSize id newQty => exact returns_snd (amendSize_spec h id newQty) fun _ => And.right
  | amendSizeWithPolicy id newQty policy =>
    exact returns_snd (amendSizeWithPolicy_spec h id newQty policy) fun _ => And.right
  | applyOp op => exact returns_snd (applyOp_spec h op) fun _ => And.right
  | applyOpWithPolicy op policy =>
    exact returns_snd (applyOpWithPolicy_spec h op policy) fun _ => And.right
  | applyTakerOrder taker qty limit =>
    exact returns_snd (applyTakerOrder_spec h taker qty limit) fun _ => And.right
  | submitLimitOrder order policy =>
    exact returns_snd (submitLimitOrder_spec h order policy) fun _ => And.right
  | applySnapshot orders => exact returns_snd (applySnapshot_spec h orders) fun _ => And.right
  | applySnapshotWithPolicy orders policy =>
    exact returns_snd (applySnapshotWithPolicy_spec h orders policy) fun _ => And.right
  | clear => exact represents_clear π b

theorem run_cons_eq_ok {c : Call} {cs : List Call} :
    b.run π (c :: cs) = .ok b' ↔ ∃ b₁, b.exec π c = .ok b₁ ∧ b₁.run π cs = .ok b' := by
  show (b.exec π c >>= fun b₁ => b₁.run π cs) = .ok b' ↔ _
  exact bind_eq_ok_iff

/-- A run that returns, after its first call. -/
theorem represents_of_run_cons (h : Represents π b a) {c : Call} {cs : List Call}
    (hrun : b.run π (c :: cs) = .ok b') :
    ∃ b₁, b.exec π c = .ok b₁ ∧ Represents π b₁ (a.exec c) ∧ b₁.run π cs = .ok b' := by
  obtain ⟨b₁, hc, hrun⟩ := run_cons_eq_ok.mp hrun
  exact ⟨b₁, hc, (exec_spec h c).of_eq_ok hc, hrun⟩

/-- **The run lemma.** -/
theorem run_represents (h : Represents π b a) {calls : List Call}
    (hrun : b.run π calls = .ok b') : Represents π b' (calls.foldl AbstractBook.exec a) := by
  have hstep : ∀ b a, ∀ c ∈ calls, Represents π b a →
      Returns (fun _ => True) (b.exec π c) fun b' => Represents π b' (a.exec c) :=
    fun b a c _ hba => (exec_spec hba c).mono (fun _ _ => trivial) fun _ hr => hr
  exact (Returns.foldlM_simulates (Represents π) hstep h).of_eq_ok hrun

/-- **Every reachable book represents an abstract book.** -/
theorem Reachable.represents (h : Reachable π b) : ∃ a, Represents π b a := by
  obtain ⟨calls, hrun⟩ := h
  exact ⟨_, run_represents (represents_new π) hrun⟩

/-- What a reachable book is left in by a further call is reachable. -/
theorem Reachable.exec (h : Reachable π b) {c : Call} (hc : b.exec π c = .ok b') :
    Reachable π b' := by
  obtain ⟨calls, hrun⟩ := h
  refine ⟨calls ++ [c], ?_⟩
  show (calls ++ [c]).foldlM (OrderBook.exec π) OrderBook.new = _
  rw [List.foldlM_append]
  have hrun' : calls.foldlM (OrderBook.exec π) OrderBook.new = .ok b := hrun
  rw [hrun', ok_bind, List.foldlM_cons, hc]
  rfl

/-! ### Runs without overflow -/

/-- No call of the run overflows. -/
def RunFits (a : AbstractBook) : List Call → Prop
  | [] => True
  | c :: cs => ¬ CallOverflows a c ∧ RunFits (a.exec c) cs

/-- No true level total exceeds the largest `u64`. -/
def TotalsFit (a : AbstractBook) : Prop := ∀ k, restingQty (a.queue k) < UInt64.size

theorem Represents.totalsFit (h : Represents .dev b a) : TotalsFit a := by
  obtain ⟨slots, h⟩ := h
  exact h.exact rfl

/-- A run that fits returns. -/
theorem run_returns {calls : List Call} (h : Represents π b a) (hfits : RunFits a calls) :
    ∃ b', b.run π calls = .ok b' ∧ Represents π b' (calls.foldl AbstractBook.exec a) := by
  induction calls generalizing a b with
  | nil => exact ⟨b, rfl, h⟩
  | cons c cs ih =>
    obtain ⟨hc, hcs⟩ := hfits
    have hstep : Returns (fun _ => False) (b.exec π c) fun b' => Represents π b' (a.exec c) :=
      (exec_spec h c).mono (fun e he => hc he.2.2) fun _ hr => hr
    obtain ⟨b₁, hb₁, hrep⟩ := hstep.exists_ok
    obtain ⟨b', hrun, hrep'⟩ := ih hrep hcs
    exact ⟨b', run_cons_eq_ok.mpr ⟨b₁, hb₁, hrun⟩, hrep'⟩

/-- **A run that fits keeps the totals exact in every build**: the build with overflow checks goes
through the same abstract books. -/
theorem totalsFit_of_runFits {calls : List Call} (hfits : RunFits KeyedQueues.empty calls) :
    TotalsFit (calls.foldl AbstractBook.exec KeyedQueues.empty) := by
  obtain ⟨b', -, hrep⟩ := run_returns (represents_new .dev) hfits
  exact hrep.totalsFit

end L4Book
