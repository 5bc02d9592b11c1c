import L4Book.Refinement.Slab
import L4Book.Results.Simulation
import Mathlib.Order.Bounds.Basic

/-!
# Slots are reused

The slab never has more slots than it needed at some time: since the book was created or last
cleared, as many as there were orders in it at once. For a slot that is freed stays on the free list
until it is taken again, and a new slot is made only when there is none to take. Fills are carried
out before the remainder of a limit order rests, so the slots that they free can be taken in the
same call.

## Main definitions

* `OrderBook.clears`: the call gets to the point where it clears the book
* `lensTaken`: what `len` has been since then

## Main results

* `slab_highWater`
-/

namespace L4Book

/-- The call clears the book. A snapshot under `PreserveSynthetic` is checked before. -/
def OrderBook.clears (b : OrderBook) : Call → Bool
  | .clear => true
  | .applySnapshot _ => true
  | .applySnapshotWithPolicy _ .replace => true
  | .applySnapshotWithPolicy orders .preserveSynthetic =>
    match b.syntheticOrdersInBookOrder with
    | .ok preserved => (validatePreserveSyntheticSnapshot orders preserved).isOk
    | .error _ => false
  | _ => false

/-- The lengths that the book has had since it was last cleared, after some more calls. -/
def lensTaken (π : Profile) (b : OrderBook) (lens : Finset ℕ) : List Call → Finset ℕ
  | [] => lens
  | c :: cs =>
    match b.exec π c with
    | .ok b' => lensTaken π b' (insert b'.len (if b.clears c then ∅ else lens)) cs
    | .error _ => lens

variable {π : Profile} {start b b' : OrderBook} {a : AbstractBook} {c : Call} {calls : List Call}
  {lens : Finset ℕ}

/-! ### One call -/

/-- **A snapshot clears the book and fills it again**, unless it fails before. -/
theorem applySnapshotWithPolicy_cases (π : Profile) (b : OrderBook) (orders : List Order)
    (policy : SnapshotPolicy) :
    (b.clears (.applySnapshotWithPolicy orders policy) = true ∧
      ∃ preserved, b.applySnapshotWithPolicy π orders policy = b.rebuild π orders preserved) ∨
    (b.clears (.applySnapshotWithPolicy orders policy) = false ∧
      ((∃ f, b.applySnapshotWithPolicy π orders policy = .error f) ∨
        ∃ e, b.applySnapshotWithPolicy π orders policy = .ok (.error e, b))) := by
  cases policy with
  | replace => exact Or.inl ⟨rfl, [], rfl⟩
  | preserveSynthetic =>
    rw [OrderBook.clears, OrderBook.applySnapshotWithPolicy]
    cases b.syntheticOrdersInBookOrder with
    | error f => exact Or.inr ⟨rfl, Or.inl ⟨f, rfl⟩⟩
    | ok preserved =>
      dsimp only
      rw [ok_bind]
      cases OrderBook.validatePreserveSyntheticSnapshot orders preserved with
      | error e => exact Or.inr ⟨rfl, Or.inr ⟨e, rfl⟩⟩
      | ok _ => exact Or.inl ⟨rfl, preserved, rfl⟩

/-- **A call that does not clear the book takes one slot at most**, and frees others before. -/
theorem exec_growsFrom (π : Profile) (b : OrderBook) (hc : b.clears c = false) :
    Returns (fun _ => True) (b.exec π c) (GrowsFrom b) := by
  cases c with
  | add order => exact (add_growsFrom π b order).map
  | remove id => exact ((remove_frees π b id).imp fun _ h => h.growsFrom).map
  | updateSize id newQty => exact ((updateSize_frees π b id newQty).imp fun _ h => h.growsFrom).map
  | amendSize id newQty =>
    exact ((amendSizeWithPolicy_frees π b id newQty .preserve).imp fun _ h => h.growsFrom).map
  | amendSizeWithPolicy id newQty policy =>
    exact ((amendSizeWithPolicy_frees π b id newQty policy).imp fun _ h => h.growsFrom).map
  | applyOp op => exact (applyOp_growsFrom π b op).map
  | applyOpWithPolicy op policy => exact (applyOpWithPolicy_growsFrom π b op policy).map
  | applyTakerOrder takerSide qty limitPrice =>
    exact ((applyTakerOrder_frees π b takerSide qty limitPrice).imp fun _ h => h.growsFrom).map
  | submitLimitOrder order policy => exact (submitLimitOrder_growsFrom π b order policy).map
  | applySnapshot orders => cases hc
  | applySnapshotWithPolicy orders policy =>
    refine Returns.map ?_
    rcases applySnapshotWithPolicy_cases π b orders policy with ⟨hclears, -⟩ |
      ⟨-, ⟨f, hfails⟩ | ⟨e, hrefuses⟩⟩
    · rw [hc] at hclears
      cases hclears
    · rw [hfails]
      trivial
    · rw [hrefuses]
      exact (Frees.refl b).growsFrom
  | clear => cases hc

/-- **A call that clears the book leaves no free slot.** -/
theorem exec_freeList (π : Profile) (b : OrderBook) (hc : b.clears c = true) :
    Returns (fun _ => True) (b.exec π c) fun b' => b'.freeList = [] := by
  cases c with
  | applySnapshot orders =>
    refine Returns.map ?_
    rw [OrderBook.applySnapshot, OrderBook.applySnapshotWithPolicy]
    exact (rebuild_freeList π b orders []).bind fun _ h => h
  | applySnapshotWithPolicy orders policy =>
    refine Returns.map ?_
    rcases applySnapshotWithPolicy_cases π b orders policy with ⟨-, preserved, hrebuild⟩ |
      ⟨hkeeps, -⟩
    · rw [hrebuild]
      exact rebuild_freeList π b orders preserved
    · rw [hc] at hkeeps
      cases hkeeps
  | clear => exact rfl
  | add order => cases hc
  | remove id => cases hc
  | updateSize id newQty => cases hc
  | amendSize id newQty => cases hc
  | amendSizeWithPolicy id newQty policy => cases hc
  | applyOp op => cases hc
  | applyOpWithPolicy op policy => cases hc
  | applyTakerOrder takerSide qty limitPrice => cases hc
  | submitLimitOrder order policy => cases hc

/-- **The step lemma**: how many slots there are after a call. -/
theorem exec_slabLen (h : Represents π b a) (hb' : b.exec π c = .ok b') :
    b'.slabLen = if b.clears c then b'.len else max b'.len b.slabLen := by
  obtain ⟨slots, h'⟩ := (exec_spec h c).of_eq_ok hb'
  have hlen := h'.length_freeList
  cases hc : b.clears c with
  | true =>
    have hfree := (exec_freeList π b hc).of_eq_ok hb'
    rw [hfree, List.length_nil, Nat.zero_add] at hlen
    exact hlen.symm
  | false =>
    rw [if_neg (by decide)]
    rcases (exec_growsFrom π b hc).of_eq_ok hb' with hsame | ⟨hgrows, -, hfree⟩
    · rw [← hsame, Nat.max_eq_right (by omega)]
    · rw [hfree, List.length_nil, Nat.zero_add] at hlen
      rw [hlen, Nat.max_eq_left (by omega)]

/-! ### Runs -/

/-- **The run lemma.** -/
theorem run_isGreatest (h : Represents π b a) (hlens : IsGreatest (lens : Set ℕ) b.slabLen)
    (hrun : b.run π calls = .ok b') :
    IsGreatest (lensTaken π b lens calls : Set ℕ) b'.slabLen := by
  induction calls generalizing b a lens with
  | nil =>
    obtain rfl := Except.ok.inj hrun
    exact hlens
  | cons c cs ih =>
    obtain ⟨b₁, hb₁, h₁, hrun⟩ := represents_of_run_cons h hrun
    rw [lensTaken, hb₁]
    refine ih h₁ ?_ hrun
    have hlen := exec_slabLen h hb₁
    rw [Finset.coe_insert]
    cases hc : b.clears c with
    | true =>
      rw [hc, if_pos rfl] at hlen
      rw [if_pos rfl, Finset.coe_empty, hlen, insert_empty_eq]
      exact isGreatest_singleton
    | false =>
      rw [hc, if_neg (by decide)] at hlen
      rw [if_neg (by decide), hlen]
      exact hlens.insert _

/-- **The slab is as long as the book has been since it was last cleared.** So no slot is lost, it
grows only when all slots are taken, and an order that is added takes the slot that was freed
last, if there is one. -/
theorem slab_highWater (hstart : start = OrderBook.new ∨ ∃ n, start = OrderBook.withCapacity n)
    (hrun : start.run π calls = .ok b) :
    IsGreatest (lensTaken π start {start.len} calls : Set ℕ) b.slabLen ∧
    b.freeList.length + b.len = b.slabLen ∧
    (∀ c b', b.clears c = false → b.exec π c = .ok b' → b'.slabLen ≠ b.slabLen →
      b.len = b.slabLen ∧ b'.slabLen = b.slabLen + 1) ∧
    ∀ order b', b.add π order = .ok (.ok (), b') →
      ∃ slot, b'.orderIndex.lookup order.id = some slot ∧
        ((b.freeList.head? = some slot ∧ b'.slabLen = b.slabLen) ∨
          (b.len = b.slabLen ∧ slot = b.slabLen ∧ b'.slabLen = b.slabLen + 1)) := by
  obtain rfl : start = OrderBook.new := by
    rcases hstart with rfl | ⟨n, rfl⟩ <;> rfl
  obtain ⟨slots, h⟩ := run_represents (represents_new π) hrun
  have hlen := h.length_freeList
  have hfull : b.freeList = [] → b.len = b.slabLen := by
    intro hfree
    rwa [hfree, List.length_nil, Nat.zero_add] at hlen
  refine ⟨?_, hlen, fun c b' hc hb' hne => ?_, fun order b' hadd => ?_⟩
  · refine run_isGreatest (represents_new π) ?_ hrun
    rw [Finset.coe_singleton]
    exact isGreatest_singleton
  · rcases (exec_growsFrom π b hc).of_eq_ok hb' with hsame | ⟨hgrows, hfree, -⟩
    · exact absurd hsame hne
    · exact ⟨hfull hfree, hgrows⟩
  · rcases (add_arena π b order).of_eq_ok hadd with ⟨-, hrefused⟩ | htakes
    · exact absurd rfl hrefused
    · refine ⟨b.allocSlot.1, htakes.slot, ?_⟩
      rcases allocSlot_cases b with ⟨slot, rest, hfree, hslot, -, hlen'⟩ |
        ⟨hfree, hslot, -, hlen'⟩
      · exact Or.inl ⟨by rw [hfree, hslot]; rfl, htakes.slabLen.trans hlen'⟩
      · exact Or.inr ⟨hfull hfree, hslot, htakes.slabLen.trans hlen'⟩

/-- The sample calls, and a limit order that fills two asks, after which its remainder rests. -/
def reuseCalls : List Call :=
  sampleCalls ++ [.submitLimitOrder (sampleOrder 9 1 .bid 103 20) .gtc]

/-- The remainder takes the slot of one of the asks. -/
theorem slab_highWater_sample : ∃ b,
    (OrderBook.withCapacity 8).run .dev reuseCalls = .ok b ∧ b.len = 4 ∧ b.slabLen = 5 ∧
      IsGreatest (lensTaken .dev (OrderBook.withCapacity 8) {0} reuseCalls : Set ℕ) 5 := by
  obtain ⟨b, hrun, hlen, hfree⟩ : ∃ b, (OrderBook.withCapacity 8).run .dev reuseCalls = .ok b ∧
      b.len = 4 ∧ b.freeList.length = 1 := ⟨_, rfl, rfl, rfl⟩
  obtain ⟨hmax, hslots, -, -⟩ := slab_highWater (Or.inr ⟨8, rfl⟩) hrun
  rw [hlen, hfree] at hslots
  rw [← hslots] at hmax
  exact ⟨b, hrun, hlen, hslots.symm, hmax⟩

end L4Book
