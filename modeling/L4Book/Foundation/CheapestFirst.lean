import L4Book.Foundation.Greedy
import Mathlib.Algebra.Order.BigOperators.Group.List
import Mathlib.Algebra.BigOperators.Group.List.Lemmas

/-!
# Cheapest first

Items that are listed by price, cheapest first, are best consumed in that order: no other way to
take as many units costs less. And the more is taken, the more a unit costs on average.

Both are facts about sorted lists: of all sublists of some length the front has the smallest sum,
and the averages of the fronts grow. An item that supplies `n` units is `n` entries of such a list.

Prices are from any ordered commutative monoid; in the dual order, "cheapest" is "dearest".

## Main definitions

* `cost`: what a list of uses costs
* `units`: the prices of all units that a list of items supplies

## Main results

* `sum_take_le_of_sublist`, `nsmul_sum_take_le`: sorted lists
* `cost_consume`: greedy consumption is a front of the units
* `cost_consume_le`: no other way to take as many units costs less
* `nsmul_cost_consume_le`: the average grows
-/

namespace L4Book

variable {α M : Type*} [AddCommMonoid M] {price : α → M} {cap f : α → ℕ} {l : List α} {q q' : ℕ}

/-- What a list of uses costs. -/
def cost (price : α → M) (uses : List (α × ℕ)) : M := (uses.map fun u => u.2 • price u.1).sum

@[simp] theorem cost_nil : cost price [] = 0 := rfl

@[simp] theorem cost_cons (u : α × ℕ) (us : List (α × ℕ)) :
    cost price (u :: us) = u.2 • price u.1 + cost price us := by
  simp [cost]

/-- The prices of all units that a list of items supplies. -/
def units (price : α → M) (cap : α → ℕ) (l : List α) : List M :=
  l.flatMap fun x => List.replicate (cap x) (price x)

omit [AddCommMonoid M] in
theorem units_cons (x : α) (l : List α) :
    units price cap (x :: l) = List.replicate (cap x) (price x) ++ units price cap l := rfl

omit [AddCommMonoid M] in
theorem units_append (l r : List α) :
    units price cap (l ++ r) = units price cap l ++ units price cap r := List.flatMap_append

omit [AddCommMonoid M] in
theorem length_units : (units price cap l).length = total cap l := by
  simp [units, total, List.length_flatMap]

theorem sum_units : (units price cap l).sum = (l.map fun x => cap x • price x).sum := by
  induction l with
  | nil => rfl
  | cons x l ih =>
    rw [units_cons, List.sum_append, ih, List.sum_replicate, List.map_cons, List.sum_cons]

/-- **Greedy consumption takes the units at the front.** -/
theorem cost_consume : cost price (consume cap l q) = ((units price cap l).take q).sum := by
  induction l generalizing q with
  | nil => simp [units]
  | cons x l ih =>
    by_cases hq : q = 0
    · simp [hq]
    have hrest : q - min q (cap x) = q - cap x := by omega
    rw [consume_cons hq, cost_cons, ih, hrest, units_cons, List.take_append, List.take_replicate,
      List.sum_append, List.sum_replicate, List.length_replicate]

omit [AddCommMonoid M] in
/-- Who takes no more of any item takes some of the units. -/
theorem units_sublist (hf : ∀ x ∈ l, f x ≤ cap x) :
    (units price f l).Sublist (units price cap l) := by
  induction l with
  | nil => exact List.Sublist.slnil
  | cons x l ih =>
    obtain ⟨hx, hl⟩ := List.forall_mem_cons.mp hf
    rw [units_cons, units_cons]
    exact (List.replicate_sublist_replicate _ |>.mpr hx).append (ih hl)

/-- One more entry of a list. -/
theorem sum_take_succ {us : List M} {k : ℕ} (hk : k < us.length) :
    (us.take (k + 1)).sum = (us.take k).sum + us[k] := by
  rw [List.take_succ_eq_append_getElem hk, List.sum_append, List.sum_singleton]

variable [PartialOrder M]

omit [AddCommMonoid M] in
/-- Items listed by price list their units by price. -/
theorem pairwise_units (hsorted : l.Pairwise fun x y => price x ≤ price y) :
    (units price cap l).Pairwise (· ≤ ·) := by
  rw [units, List.pairwise_flatMap]
  refine ⟨fun x _ => List.pairwise_replicate.mpr (Or.inr le_rfl), hsorted.imp fun hxy => ?_⟩
  intro u hu v hv
  rw [List.eq_of_mem_replicate hu, List.eq_of_mem_replicate hv]
  exact hxy

variable [IsOrderedAddMonoid M] {us vs : List M}

/-! ### Sorted lists -/

/-- **Of all sublists of a sorted list the front has the smallest sum.** -/
theorem sum_take_le_of_sublist (hsub : vs.Sublist us) (hsorted : us.Pairwise (· ≤ ·)) :
    (us.take vs.length).sum ≤ vs.sum := by
  induction hsub with
  | slnil => exact le_rfl
  | @cons vs us u hsub ih =>
    obtain ⟨hu, hsorted⟩ := List.pairwise_cons.mp hsorted
    have ih := ih hsorted
    cases hlen : vs.length with
    | zero =>
      rw [List.length_eq_zero_iff.mp hlen]
      exact le_rfl
    | succ k =>
      -- the head is no dearer than the entry that it displaces
      have hk : k < us.length := by
        have := hsub.length_le
        omega
      rw [hlen, sum_take_succ hk, add_comm] at ih
      rw [List.take_succ_cons, List.sum_cons]
      exact (add_le_add_left (hu _ (List.getElem_mem hk)) _).trans ih
  | @cons_cons vs us u hsub ih =>
    rw [List.length_cons, List.take_succ_cons, List.sum_cons, List.sum_cons]
    exact add_le_add_right (ih (List.pairwise_cons.mp hsorted).2) u

/-- The front of a sorted list is no dearer than what comes behind it. -/
theorem sum_take_le_nsmul {k n : ℕ} (hsorted : us.Pairwise (· ≤ ·)) (hkn : k ≤ n)
    (hn : n < us.length) : (us.take k).sum ≤ k • us[n] := by
  have hlen : (us.take k).length = k := List.length_take_of_le (hkn.trans hn.le)
  have hle : (us.take k).sum ≤ (us.take k).length • us[n] := by
    refine List.sum_le_card_nsmul _ _ fun u hu => ?_
    obtain ⟨i, hi, rfl⟩ := List.mem_take_iff_getElem.mp hu
    exact List.pairwise_iff_getElem.mp hsorted i n _ hn (by omega)
  rwa [hlen] at hle

/-- **The averages of the fronts of a sorted list grow.** -/
theorem nsmul_sum_take_le (hsorted : us.Pairwise (· ≤ ·)) (hqq' : q ≤ q')
    (hq' : q' ≤ us.length) : q' • (us.take q).sum ≤ q • (us.take q').sum := by
  induction q', hqq' using Nat.le_induction with
  | base => exact le_rfl
  | succ n hqn ih =>
    have hn : n < us.length := hq'
    rw [succ_nsmul, sum_take_succ hn, nsmul_add]
    exact add_le_add (ih hn.le) (sum_take_le_nsmul hsorted hqn hn)

/-! ### Greedy consumption -/

/-- **No other way to take as many units costs less.** -/
theorem cost_consume_le (hsorted : l.Pairwise fun x y => price x ≤ price y)
    (hf : ∀ x ∈ l, f x ≤ cap x) :
    cost price (consume cap l (total f l)) ≤ (l.map fun x => f x • price x).sum := by
  have hunits : (units price f l).Sublist (units price cap l) := units_sublist hf
  have hsum := sum_take_le_of_sublist hunits (pairwise_units hsorted)
  rwa [length_units, ← cost_consume, sum_units] at hsum

/-- **The more is taken, the more a unit costs.** -/
theorem nsmul_cost_consume_le (hsorted : l.Pairwise fun x y => price x ≤ price y) (hqq' : q ≤ q')
    (hq' : q' ≤ total cap l) :
    q' • cost price (consume cap l q) ≤ q • cost price (consume cap l q') := by
  rw [cost_consume, cost_consume]
  exact nsmul_sum_take_le (pairwise_units hsorted) hqq' (length_units.symm ▸ hq')

end L4Book
