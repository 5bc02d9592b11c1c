import L4Book.Results.Commuting
import L4Book.Results.Totals
import L4Book.Results.Views

/-!
# Growing an order is replacing it

`amend_size_with_policy` splices a growing order out of its chain and back in at the tail, in the
same slot and with the level total adjusted. `remove` frees the slot, and with it the level when the
order is alone there, and `add` starts again. The two leave books that nothing tells apart, neither
the views nor any further run.

## Main definitions

* `RunsAlike`: books that no run of calls tells apart

## Main results

* `Represents.runsAlike`: two books that store the same abstract book
* `amendUp_replaces`
-/

namespace L4Book

/-- Every run of calls does the same to both books: it leaves books that read alike, or overflows on
both. -/
def RunsAlike (π : Profile) (b b' : OrderBook) : Prop :=
  ∀ calls, (∃ c c', b.run π calls = .ok c ∧ b'.run π calls = .ok c' ∧ SameBook c c') ∨
    (π = .dev ∧ b.run π calls = .error .overflow ∧ b'.run π calls = .error .overflow)

variable {π : Profile} {b b' : OrderBook} {a a' : AbstractBook} {o : Order} {newQty : Qty}

/-! ### Books that no run tells apart -/

/-- With overflow checks, what returns leaves exact totals, and what overflows would not have. -/
theorem returns_or_overflows {α : Type} {v : Except Fault α} {overflows : Prop} {post : α → Prop}
    (hv : Returns (OnlyOverflow π overflows) v post)
    (hpost : ∀ x, post x → ∃ b', Represents π b' a') (hover : TotalsFit a' → ¬ overflows) :
    (∃ x, v = .ok x ∧ post x ∧ (π = .dev → TotalsFit a')) ∨
      (v = .error .overflow ∧ π = .dev ∧ overflows ∧ ¬ TotalsFit a') := by
  cases v with
  | ok x =>
    refine Or.inl ⟨x, rfl, hv, ?_⟩
    rintro rfl
    obtain ⟨b', hb'⟩ := hpost x hv
    exact hb'.totalsFit
  | error e =>
    obtain ⟨rfl, hπ, hcond⟩ := hv
    exact Or.inr ⟨rfl, hπ, hcond, fun hfits => hover hfits hcond⟩

/-- Two computations that overflow exactly when the book they aim at does not fit. -/
theorem both_return_or_overflow {α β : Type} {v : Except Fault α} {w : Except Fault β}
    {overflows overflows' : Prop} {post : α → Prop} {post' : β → Prop}
    (hv : Returns (OnlyOverflow π overflows) v post)
    (hw : Returns (OnlyOverflow π overflows') w post')
    (hpost : ∀ x, post x → ∃ b', Represents π b' a')
    (hpost' : ∀ x, post' x → ∃ b', Represents π b' a')
    (hover : TotalsFit a' → ¬ overflows) (hover' : TotalsFit a' → ¬ overflows') :
    (∃ x y, v = .ok x ∧ w = .ok y ∧ post x ∧ post' y) ∨
      (π = .dev ∧ v = .error .overflow ∧ w = .error .overflow ∧ overflows) := by
  rcases returns_or_overflows hv hpost hover with ⟨x, hx, hpx, hfits⟩ | ⟨hx, hπ, hcond, hfits⟩ <;>
    rcases returns_or_overflows hw hpost' hover' with ⟨y, hy, hpy, hfits'⟩ | ⟨hy, hπ', -, hfits'⟩
  · exact Or.inl ⟨x, y, hx, hy, hpx, hpy⟩
  · exact absurd (hfits hπ') hfits'
  · exact absurd (hfits' hπ) hfits
  · exact Or.inr ⟨hπ, hx, hy, hcond⟩

/-- **Books that store the same abstract book run alike.** -/
theorem Represents.runsAlike (h : Represents π b a) (h' : Represents π b' a) :
    RunsAlike π b b' := by
  intro calls
  induction calls generalizing b b' a with
  | nil => exact Or.inl ⟨b, b', rfl, rfl, h.sameBook h'⟩
  | cons c cs ih =>
    have hrun : ∀ b : OrderBook, b.run π (c :: cs) = b.exec π c >>= fun b₁ => b₁.run π cs :=
      fun _ => rfl
    rw [hrun, hrun]
    rcases both_return_or_overflow (exec_spec h c) (exec_spec h' c) (fun x hx => ⟨x, hx⟩)
      (fun x hx => ⟨x, hx⟩) not_callOverflows not_callOverflows with
      ⟨b₁, b₁', hexec, hexec', hrep, hrep'⟩ | ⟨hπ, hexec, hexec', -⟩
    · rw [hexec, hexec']
      exact ih hrep hrep'
    · rw [hexec, hexec']
      exact Or.inr ⟨hπ, rfl, rfl⟩

/-! ### Removing and adding again -/

namespace AbstractBook

/-- An order that grows and loses its priority moves to the tail. -/
theorem amendSizeWithPolicy_of_lt (ho : o ∈ a) (hlt : o.qty < newQty) (hq : newQty ≠ 0) :
    a.amendSizeWithPolicy o.id newQty .losePriorityOnIncrease =
      (.ok (), a.resizeToTail o newQty hq) := by
  rw [amendSizeWithPolicy, KeyedQueues.find_eq_some_iff.mpr ⟨ho, rfl⟩]
  exact (dif_neg hq).trans (if_pos ⟨hlt, rfl⟩)

/-- Moving to the tail is leaving the book and coming back. -/
theorem add_resize_zero (o : Order) (hq : newQty ≠ 0) :
    (a.resize o.id 0).add (o.withQty newQty) = (.ok (), a.resizeToTail o newQty hq) :=
  add_of_not_live _ _

end AbstractBook

/-- **An order that grows and loses its priority is replaced by a new one**, wherever it stands.
With overflow checks both ways stop alike, if the level total would not fit. -/
theorem amendUp_replaces (hb : Reachable π b) (ho : Rests b o) (hlt : o.qty < newQty) :
    ∃ b₁, b.remove π o.id = .ok (.ok o, b₁) ∧
      ((∃ b₂ b₃, b.amendSizeWithPolicy π o.id newQty .losePriorityOnIncrease = .ok (.ok (), b₂) ∧
          b₁.add π (o.withQty newQty) = .ok (.ok (), b₃) ∧ SameBook b₂ b₃ ∧ RunsAlike π b₂ b₃) ∨
        (π = .dev ∧
          b.amendSizeWithPolicy π o.id newQty .losePriorityOnIncrease = .error .overflow ∧
          b₁.add π (o.withQty newQty) = .error .overflow ∧
          ∃ orders, b.ordersAt o.side o.price = .ok orders ∧
            UInt64.size ≤ restingQty orders + (newQty.toNat - o.qty.toNat))) := by
  obtain ⟨a, h⟩ := hb.represents
  have hmem : o ∈ a := (rests_iff h).mp ho
  have hq : newQty ≠ 0 := by
    rintro rfl
    exact absurd hlt UInt64.not_lt_zero
  have hremove : a.remove o.id = (.ok o, a.resize o.id 0) := by
    rw [AbstractBook.remove, KeyedQueues.find_eq_some_iff.mpr ⟨hmem, rfl⟩]
  have hspec := remove_spec h o.id
  rw [hremove] at hspec
  obtain ⟨b₁, hb₁, hrep₁⟩ := exists_reply hspec fun _ he => he.2.2
  have hamended := AbstractBook.amendSizeWithPolicy_of_lt hmem hlt hq
  have hadded := AbstractBook.add_resize_zero (a := a) o hq
  have hamend := amendSizeWithPolicy_spec h o.id newQty .losePriorityOnIncrease
  have hadd := add_spec hrep₁ (o.withQty newQty)
  have hover : TotalsFit (a.resizeToTail o newQty hq) → ¬ AmendOverflows a o.id newQty := by
    intro hfits
    have hfits' : TotalsFit
        (a.amendSizeWithPolicy o.id newQty .losePriorityOnIncrease).2 := hamended ▸ hfits
    exact not_amendOverflows hfits'
  have hover' : TotalsFit (a.resizeToTail o newQty hq) →
      ¬ AddOverflows (a.resize o.id 0) (o.withQty newQty) := by
    intro hfits
    have hfits' : TotalsFit ((a.resize o.id 0).add (o.withQty newQty)).2 := hadded ▸ hfits
    exact not_addOverflows hfits'
  rw [hamended] at hamend
  rw [hadded] at hadd
  refine ⟨b₁, hb₁, ?_⟩
  rcases both_return_or_overflow hamend hadd (fun r hr => ⟨r.2, hr.2⟩) (fun r hr => ⟨r.2, hr.2⟩)
    hover hover' with ⟨⟨r, b₂⟩, ⟨r', b₃⟩, hb₂, hb₃, ⟨rfl, hrep₂⟩, rfl, hrep₃⟩ | hstops
  · exact Or.inl ⟨b₂, b₃, hb₂, hb₃, hrep₂.sameBook hrep₃, hrep₂.runsAlike hrep₃⟩
  · obtain ⟨hπ, hb₂, hb₃, x, hx, hid, -, hsize⟩ := hstops
    obtain rfl : x = o := KeyedQueues.eq_of_key_eq hx hmem hid
    exact Or.inr ⟨hπ, hb₂, hb₃, _, ordersAt_spec h x.side x.price, hsize⟩

/-- In the sample book, the bid for seven at the head of its level grows to nine. -/
theorem amendUp_replaces_sample : ∃ b₁ b₂ b₃,
    sampleBook.remove .dev 2 = .ok (.ok (sampleOrder 2 2 .bid 100 7), b₁) ∧
      sampleBook.amendSizeWithPolicy .dev 2 9 .losePriorityOnIncrease = .ok (.ok (), b₂) ∧
      b₁.add .dev (sampleOrder 2 2 .bid 100 9) = .ok (.ok (), b₃) ∧ RunsAlike .dev b₂ b₃ := by
  obtain ⟨b₁, hb₁, hboth⟩ := amendUp_replaces sampleBook_reachable
    (show Rests sampleBook (sampleOrder 2 2 .bid 100 7) by rfl) (show (7 : Qty) < 9 by decide)
  rcases hboth with ⟨b₂, b₃, hb₂, hb₃, -, halike⟩ | ⟨-, hamend, -⟩
  · exact ⟨b₁, b₂, b₃, hb₁, hb₂, hb₃, halike⟩
  · have hreturns : ∃ r, sampleBook.amendSizeWithPolicy .dev 2 9 .losePriorityOnIncrease = .ok r :=
      ⟨_, by rfl⟩
    obtain ⟨r, hr⟩ := hreturns
    exact nomatch hamend.symm.trans hr

end L4Book
