import L4Book.Foundation.Reordering
import L4Book.Operations
import L4Book.Results.Submitting

/-!
# Independent operations commute

Two runs of the same operations, in orders that agree on every two operations on one order and on
every two additions to one line, answer every operation alike and end in books that no read view
can tell apart. Slots and free lists may differ, and levels may have come and gone in one run only.

The operations of a run carry a tag, so that one that occurs twice is told apart from itself.

## Main definitions

* `OrderBook.applyOps`: a run of `apply_op`, with the result of every operation
* `SameBook`: books that read alike

## Main results

* `independentOps_commute`
-/

namespace L4Book

/-- Apply tagged operations in order with `apply_op`, whatever becomes of each, and note the results
under the tags. -/
def OrderBook.applyOps (π : Profile) (b : OrderBook) :
    List (ℕ × BookOp) → Except Fault (List (ℕ × Except BookError Unit) × OrderBook)
  | [] => .ok ([], b)
  | op :: ops => do
    let (r, b) ← b.applyOp π op.2
    let (results, b) ← b.applyOps π ops
    return ((op.1, r) :: results, b)

/-- The two books hold the same orders in the same lists, and report the same levels and the same
orders for every wallet. Level totals are the machine words the levels store. -/
structure SameBook (b b' : OrderBook) : Prop extends SameOrders b b' where
  depth : ∀ side, b.depth side = b'.depth side
  levelSummary : ∀ side price, b.levelSummary side price = b'.levelSummary side price
  walletIndex : b.walletIndex = b'.walletIndex

variable {π : Profile} {b b' : OrderBook} {a : AbstractBook}

/-- The wallets of a book are those of its orders. -/
theorem Layout.lookup_wallet_eq {slots slots' : Side × Price → List ℕ}
    (h : Layout π b slots a) (h' : Layout π b' slots' a) (w : WalletId) :
    b.walletIndex.lookup w = b'.walletIndex.lookup w := by
  have hids : (b.walletIndex.lookup w).getD ∅ = (b'.walletIndex.lookup w).getD ∅ :=
    Finset.ext fun _ => h.wallets.trans h'.wallets.symm
  have hne := h.wallets_ne w
  have hne' := h'.wallets_ne w
  -- no wallet is kept with an empty set
  cases hlook : b.walletIndex.lookup w with
  | none =>
    cases hlook' : b'.walletIndex.lookup w with
    | none => rfl
    | some set' =>
      rw [hlook, hlook'] at hids
      rw [hlook'] at hne'
      exact absurd (congrArg some hids.symm) hne'
  | some set =>
    cases hlook' : b'.walletIndex.lookup w with
    | none =>
      rw [hlook, hlook'] at hids
      rw [hlook] at hne
      exact absurd (congrArg some hids) hne
    | some set' =>
      rw [hlook, hlook'] at hids
      exact congrArg some hids

/-- Books that represent the same abstract book read alike. -/
theorem Represents.sameBook (h : Represents π b a) (h' : Represents π b' a) : SameBook b b' where
  toSameOrders := h.sameOrders h'
  depth side := (depth_spec h side).trans (depth_spec h' side).symm
  levelSummary side price :=
    (levelSummary_spec h side price).trans (levelSummary_spec h' side price).symm
  walletIndex := by
    obtain ⟨slots, h⟩ := h
    obtain ⟨slots', h'⟩ := h'
    exact Finmap.ext_lookup (h.lookup_wallet_eq h')

namespace AbstractBook

/-- A tagged operation, answered under its tag. -/
noncomputable def applyTagged (a : AbstractBook) (op : ℕ × BookOp) :
    (ℕ × Except BookError Unit) × AbstractBook :=
  ((op.1, (a.applyOp op.2).1), (a.applyOp op.2).2)

/-- **Operations that do not compete commute**, whatever their tags. -/
theorem commutes_applyTagged {x y : ℕ × BookOp} (h : ¬ x.2.Dependent y.2) :
    Commutes applyTagged x y := by
  have hid : x.2.orderId ≠ y.2.orderId := fun heq => h (Or.inl heq)
  constructor
  case state => exact fun a => applyOp_snd_comm h
  case left => exact fun a => Prod.ext rfl (applyOp_fst_of_ne (Ne.symm hid))
  case right => exact fun a => Prod.ext rfl (applyOp_fst_of_ne hid)

end AbstractBook

open AbstractBook (applyTagged)

/-- A run of the book is a run of the abstract book. -/
theorem applyOps_spec (h : Represents π b a) (ops : List (ℕ × BookOp)) :
    Returns (fun e => e = .overflow ∧ π = .dev) (b.applyOps π ops) fun r =>
      r.1 = (outputs applyTagged a ops).1 ∧ Represents π r.2 (outputs applyTagged a ops).2 := by
  induction ops generalizing a b with
  | nil => exact ⟨rfl, h⟩
  | cons op ops ih =>
    rw [OrderBook.applyOps]
    refine ((applyOp_spec h op.2).mono (fun e he => ⟨he.1, he.2.1⟩) fun _ hr => hr).bind ?_
    rintro ⟨r, b₁⟩ ⟨hr, hb₁⟩
    refine (ih hb₁).bind ?_
    rintro ⟨results, b₂⟩ ⟨hresults, hb₂⟩
    refine ⟨?_, hb₂⟩
    rw [outputs]
    exact congrArg₂ List.cons (congrArg (Prod.mk op.1) hr) hresults

theorem map_fst_outputs (a : AbstractBook) (ops : List (ℕ × BookOp)) :
    (outputs applyTagged a ops).1.map Prod.fst = ops.map Prod.fst := by
  induction ops generalizing a with
  | nil => rfl
  | cons op ops ih => exact congrArg (op.1 :: ·) (ih _)

/-- **Independent operations commute.** The results of the two runs carry the tags of the
operations; a result under a tag in one run is the result under this tag in the other. Where
overflow is not checked, both runs return. -/
theorem independentOps_commute (hb : Reachable π b) {ops ops' : List (ℕ × BookOp)}
    (hnodup : (ops.map Prod.fst).Nodup) (hperm : ops.Perm ops')
    (horder : ∀ x y, x.2.Dependent y.2 → [x, y].Sublist ops → [x, y].Sublist ops') :
    (∀ results results' b₁ b₂,
      b.applyOps π ops = .ok (results, b₁) → b.applyOps π ops' = .ok (results', b₂) →
      (results.map Prod.fst = ops.map Prod.fst ∧ results'.map Prod.fst = ops'.map Prod.fst) ∧
        (∀ n r, (n, r) ∈ results ↔ (n, r) ∈ results') ∧ SameBook b₁ b₂) ∧
    (π = .release → ∃ r r', b.applyOps π ops = .ok r ∧ b.applyOps π ops' = .ok r') := by
  obtain ⟨a, h⟩ := hb.represents
  obtain ⟨hresults, hstate⟩ := outputs_reorder hnodup.of_map hperm
    (fun x y hnot => horder x y (not_not.mp (mt AbstractBook.commutes_applyTagged hnot))) a
  constructor
  · intro results results' b₁ b₂ hr hr'
    obtain ⟨heq, hb₁⟩ := (applyOps_spec h ops).of_eq_ok hr
    obtain ⟨heq', hb₂⟩ := (applyOps_spec h ops').of_eq_ok hr'
    have heq₁ : results = (outputs applyTagged a ops).1 := heq
    have heq₂ : results' = (outputs applyTagged a ops').1 := heq'
    rw [hstate] at hb₁
    rw [heq₁, heq₂]
    exact ⟨⟨map_fst_outputs a ops, map_fst_outputs a ops'⟩, fun n r => hresults.mem_iff,
      hb₁.sameBook hb₂⟩
  · rintro rfl
    have hok : ∀ ops, ∃ r, b.applyOps .release ops = .ok r := by
      intro ops
      have hspec : Returns (fun _ => False) (b.applyOps .release ops) fun _ => True :=
        (applyOps_spec h ops).mono (fun e he => absurd he.2 (by decide)) fun _ _ => trivial
      obtain ⟨r, hr, -⟩ := hspec.exists_ok
      exact ⟨r, hr⟩
    obtain ⟨r, hr⟩ := hok ops
    obtain ⟨r', hr'⟩ := hok ops'
    exact ⟨r, r', hr, hr'⟩

/-- In the sample book, a removal and an addition at the same price commute. -/
theorem independentOps_commute_sample : ∃ results results' b₁ b₂,
    sampleBook.applyOps .dev [(0, .remove 2), (1, .add (sampleOrder 7 1 .bid 100 4))] =
        .ok (results, b₁) ∧
      sampleBook.applyOps .dev [(1, .add (sampleOrder 7 1 .bid 100 4)), (0, .remove 2)] =
        .ok (results', b₂) ∧
      SameBook b₁ b₂ := by
  refine ⟨_, _, _, _, by rfl, by rfl, ?_⟩
  have horder : ∀ x y : ℕ × BookOp, x.2.Dependent y.2 →
      [x, y].Sublist [(0, .remove 2), (1, .add (sampleOrder 7 1 .bid 100 4))] →
      [x, y].Sublist [(1, .add (sampleOrder 7 1 .bid 100 4)), (0, .remove 2)] := by
    intro x y hdependent hsub
    have heq := hsub.eq_of_length rfl
    obtain ⟨rfl, rfl⟩ : x = (0, .remove 2) ∧ y = (1, .add (sampleOrder 7 1 .bid 100 4)) := by
      simpa using heq
    rcases hdependent with hid | ⟨o, o', hx, -, -⟩
    · exact absurd hid (by decide)
    · cases hx
  exact ((independentOps_commute sampleBook_reachable (by decide) (List.Perm.swap _ _ _)
    horder).1 _ _ _ _ (by rfl) (by rfl)).2.2

end L4Book
