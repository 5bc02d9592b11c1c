import Mathlib.Algebra.BigOperators.Group.List.Basic
import Mathlib.Algebra.GroupWithZero.Nat
import Mathlib.Data.List.Basic

/-!
# Greedy consumption of a list

A demand `q` is met from a list of items in order, each of which supplies at most its capacity.
`consume cap l q` lists the items used with the amount taken from each; it stops as soon as
nothing is left to take, so that it never lists an item with nothing taken from it.

Items are of any type, capacities are natural numbers; most results ask that no item has capacity
zero.

## Main definitions

* `total`: what a list can supply
* `consume`: the greedy consumption

## Main results

* `full_of_mem_dropLast`: every item but the last is used in full
* `sum_consume`: it takes the smaller of demand and supply
* `consume_append`: consumption of one list after another
* `sum_filter_consume`: how much of the demand reaches an item
-/

namespace L4Book

variable {α : Type*} {cap : α → ℕ} {l r : List α} {q n : ℕ} {x : α}

/-- What a list of items can supply. -/
def total (cap : α → ℕ) (l : List α) : ℕ := (l.map cap).sum

@[simp] theorem total_nil : total cap [] = 0 := rfl

@[simp] theorem total_cons : total cap (x :: l) = cap x + total cap l := by
  simp [total]

/-- Take as much as is wanted of every item in turn, until nothing more is wanted. -/
def consume (cap : α → ℕ) : List α → ℕ → List (α × ℕ)
  | [], _ => []
  | x :: l, q => if q = 0 then [] else (x, min q (cap x)) :: consume cap l (q - min q (cap x))

@[simp] theorem consume_nil : consume cap [] q = [] := rfl

@[simp] theorem consume_zero : consume cap l 0 = [] := by
  cases l <;> rfl

theorem consume_cons (hq : q ≠ 0) :
    consume cap (x :: l) q = (x, min q (cap x)) :: consume cap l (q - min q (cap x)) :=
  if_neg hq

/-- A demand that uses the first item up. -/
theorem consume_cons_of_le (hq : q ≠ 0) (hle : cap x ≤ q) :
    consume cap (x :: l) q = (x, cap x) :: consume cap l (q - cap x) := by
  rw [consume_cons hq, Nat.min_eq_right hle]

/-- A demand that the first item meets. -/
theorem consume_cons_of_lt (hq : q ≠ 0) (hlt : q < cap x) :
    consume cap (x :: l) q = [(x, q)] := by
  rw [consume_cons hq, Nat.min_eq_left (Nat.le_of_lt hlt), Nat.sub_self, consume_zero]

/-- **Greedy consumption takes the smaller of demand and supply.** -/
theorem sum_consume : ((consume cap l q).map Prod.snd).sum = min q (total cap l) := by
  induction l generalizing q with
  | nil => simp
  | cons x l ih =>
    by_cases hq : q = 0
    · simp [hq]
    · rw [consume_cons hq, List.map_cons, List.sum_cons, ih, total_cons]
      show min q (cap x) + _ = _
      omega

/-- The items used are a prefix of the list. -/
theorem consume_isPrefix : (consume cap l q).map Prod.fst <+: l := by
  induction l generalizing q with
  | nil => exact List.prefix_rfl
  | cons x l ih =>
    by_cases hq : q = 0
    · rw [hq, consume_zero]
      exact List.nil_prefix
    · rw [consume_cons hq, List.map_cons]
      exact (List.prefix_cons_inj x).mpr ih

theorem mem_of_mem_consume (h : (x, n) ∈ consume cap l q) : x ∈ l :=
  consume_isPrefix.subset (List.mem_map_of_mem (f := Prod.fst) h)

/-- Something is taken from every item used, and no more than there is. -/
theorem amount_of_mem_consume (hcap : ∀ x ∈ l, 0 < cap x) (h : (x, n) ∈ consume cap l q) :
    0 < n ∧ n ≤ cap x := by
  induction l generalizing q with
  | nil => exact absurd h List.not_mem_nil
  | cons y l ih =>
    by_cases hq : q = 0
    · rw [hq, consume_zero] at h
      exact absurd h List.not_mem_nil
    · rw [consume_cons hq] at h
      rcases List.mem_cons.mp h with heq | h
      · obtain ⟨rfl, rfl⟩ := Prod.mk.inj heq
        have := hcap x List.mem_cons_self
        omega
      · exact ih (fun z hz => hcap z (List.mem_cons_of_mem _ hz)) h

/-- Only the last item used can be used in part. -/
theorem full_of_mem_dropLast (h : (x, n) ∈ (consume cap l q).dropLast) : n = cap x := by
  induction l generalizing q with
  | nil => exact absurd h List.not_mem_nil
  | cons y l ih =>
    by_cases hq : q = 0
    · rw [hq, consume_zero] at h
      exact absurd h List.not_mem_nil
    rw [consume_cons hq] at h
    by_cases hrest : q - min q (cap y) = 0
    · rw [hrest, consume_zero] at h
      exact absurd h List.not_mem_nil
    · cases hc : consume cap l (q - min q (cap y)) with
      | nil =>
        rw [hc] at h
        exact absurd h List.not_mem_nil
      | cons u us =>
        rw [hc, List.dropLast_cons_cons] at h
        rcases List.mem_cons.mp h with heq | h
        · obtain ⟨rfl, rfl⟩ := Prod.mk.inj heq
          omega
        · exact ih (hc ▸ h)

/-- **Consumption of one list after another**: the second one meets what is left of the demand. -/
theorem consume_append (hcap : ∀ x ∈ l, 0 < cap x) :
    consume cap (l ++ r) q = consume cap l q ++ consume cap r (q - total cap l) := by
  induction l generalizing q with
  | nil => simp
  | cons x l ih =>
    by_cases hq : q = 0
    · simp [hq]
    · have hrest : q - min q (cap x) - total cap l = q - total cap (x :: l) := by
        rw [total_cons]
        omega
      rw [List.cons_append, consume_cons hq, consume_cons hq,
        ih fun z hz => hcap z (List.mem_cons_of_mem _ hz), hrest, List.cons_append]

/-- **How much of the demand reaches an item**: what the items in front of it leave. -/
theorem sum_filter_consume (p : α → Bool) (q : ℕ) (hcap : ∀ y ∈ l, 0 < cap y)
    (hl : ∀ y ∈ l, p y = false) (hx : p x = true) (hr : ∀ y ∈ r, p y = false) :
    (((consume cap (l ++ x :: r) q).filter fun u => p u.1).map Prod.snd).sum =
      min (q - total cap l) (cap x) := by
  have hnone : ∀ {ys q}, (∀ y ∈ ys, p y = false) →
      (consume cap ys q).filter (fun u => p u.1) = [] := by
    intro ys q hys
    refine List.filter_eq_nil_iff.mpr fun u hu => ?_
    rw [hys u.1 (mem_of_mem_consume (n := u.2) hu)]
    exact Bool.false_ne_true
  rw [consume_append hcap, List.filter_append, hnone hl, List.nil_append]
  by_cases hq : q - total cap l = 0
  · rw [hq, consume_zero, Nat.zero_min]
    rfl
  · rw [consume_cons hq, List.filter_cons, if_pos hx, hnone hr]
    simp

end L4Book
