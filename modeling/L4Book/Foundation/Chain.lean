import Mathlib.Data.List.Nodup
import Mathlib.Logic.Function.Basic

/-!
# Doubly linked chains in an arena

Nodes live in numbered cells and refer to their neighbours by number. `Chain cells p l n` says
that the cells of the list `l`, in this order, are linked to each other both ways, that the first
one points back to `p` and that the last one points on to `n`. Leaving both ends open is what makes
chains compose: a chain splits at any point into two, and the surgery lemmas below each rewrite
one link of one cell.

Nodes are any type with a `next` and a `prev` link that can be set independently.

## Main results

* `chain_append`: a chain splits and joins at any point
* `Chain.congr`: a chain depends on its own cells only
* `Chain.setNext`, `Chain.setPrev`: rewriting the last `next` and the first `prev`
* `Chain.snoc`: linking one more cell at the end
-/

namespace L4Book

/-- Nodes of a doubly linked list. -/
class LinkedNode (ν : Type*) where
  next : ν → Option ℕ
  prev : ν → Option ℕ
  setNext : Option ℕ → ν → ν
  setPrev : Option ℕ → ν → ν
  next_setNext : ∀ i x, next (setNext i x) = i
  prev_setNext : ∀ i x, prev (setNext i x) = prev x
  next_setPrev : ∀ i x, next (setPrev i x) = next x
  prev_setPrev : ∀ i x, prev (setPrev i x) = i

theorem update_of_not_mem {α : Type*} {f : ℕ → α} {l : List ℕ} {i : ℕ} (hi : i ∉ l) (x : α) :
    ∀ j ∈ l, Function.update f i x j = f j := by
  intro j hj
  refine Function.update_of_ne ?_ _ _
  rintro rfl
  exact hi hj

open LinkedNode (next prev setNext setPrev)

variable {ν : Type*} [LinkedNode ν]

/-- The cells of `l` are linked in this order, from `p` on the left to `n` on the right. -/
def Chain (cells : ℕ → Option ν) : Option ℕ → List ℕ → Option ℕ → Prop
  | _, [], _ => True
  | p, i :: l, n =>
    (∃ x, cells i = some x ∧ prev x = p ∧ next x = l.head?.or n) ∧ Chain cells (some i) l n

variable {cells cells' : ℕ → Option ν} {p n : Option ℕ} {l r : List ℕ} {i : ℕ}

theorem chain_cons :
    Chain cells p (i :: l) n ↔
      (∃ x, cells i = some x ∧ prev x = p ∧ next x = l.head?.or n) ∧
        Chain cells (some i) l n := Iff.rfl

/-- **A chain splits at any point**, each half ending where the other begins. -/
theorem chain_append :
    Chain cells p (l ++ r) n ↔
      Chain cells p l (r.head?.or n) ∧ Chain cells (l.getLast?.or p) r n := by
  induction l generalizing p with
  | nil => simp [Chain]
  | cons i l ih =>
    have hhead : (l ++ r).head?.or n = l.head?.or (r.head?.or n) := by
      cases l <;> rfl
    have hlast : l.getLast?.or (some i) = (i :: l).getLast?.or p := by
      rw [List.getLast?_cons, Option.some_or]
      cases l.getLast? <;> rfl
    rw [List.cons_append, chain_cons, chain_cons, ih, hhead, hlast, and_assoc]

/-- A chain depends on its own cells only. -/
theorem Chain.congr (h : Chain cells p l n) (hcells : ∀ i ∈ l, cells' i = cells i) :
    Chain cells' p l n := by
  induction l generalizing p with
  | nil => trivial
  | cons i l ih =>
    obtain ⟨⟨x, hx, hp, hn⟩, hl⟩ := h
    refine ⟨⟨x, ?_, hp, hn⟩, ih hl fun j hj => hcells j (List.mem_cons_of_mem _ hj)⟩
    rw [hcells i List.mem_cons_self, hx]

theorem Chain.exists_cell (h : Chain cells p l n) (hi : i ∈ l) : ∃ x, cells i = some x := by
  induction l generalizing p with
  | nil => exact absurd hi List.not_mem_nil
  | cons j l ih =>
    obtain ⟨⟨x, hx, -, -⟩, hl⟩ := h
    rcases List.mem_cons.mp hi with rfl | hi
    · exact ⟨x, hx⟩
    · exact ih hl hi

/-- The links of the cell at a given point of a chain. -/
theorem Chain.links {x : ν} (h : Chain cells p (l ++ i :: r) n) (hx : cells i = some x) :
    prev x = l.getLast?.or p ∧ next x = r.head?.or n := by
  obtain ⟨y, hy, hp, hn⟩ := (chain_append.mp h).2.1
  obtain rfl : x = y := Option.some.inj (hx.symm.trans hy)
  exact ⟨hp, hn⟩

/-- Rewrite the link on from the last cell. -/
theorem Chain.setNext {x : ν} (h : Chain cells p (l ++ [i]) n) (hi : i ∉ l)
    (hx : cells i = some x) (n' : Option ℕ) :
    Chain (Function.update cells i (some (setNext n' x))) p (l ++ [i]) n' := by
  obtain ⟨hl, ⟨y, hy, hp, -⟩, -⟩ := chain_append.mp h
  obtain rfl : x = y := Option.some.inj (hx.symm.trans hy)
  have hlast : next (LinkedNode.setNext n' x) = ([] : List ℕ).head?.or n' :=
    LinkedNode.next_setNext n' x
  refine chain_append.mpr ⟨hl.congr (update_of_not_mem hi _), ?_, trivial⟩
  exact ⟨_, Function.update_self .., (LinkedNode.prev_setNext n' x).trans hp, hlast⟩

/-- Rewrite the link back from the first cell. -/
theorem Chain.setPrev {x : ν} (h : Chain cells p (i :: r) n) (hi : i ∉ r)
    (hx : cells i = some x) (p' : Option ℕ) :
    Chain (Function.update cells i (some (setPrev p' x))) p' (i :: r) n := by
  obtain ⟨⟨y, hy, -, hn⟩, hr⟩ := h
  obtain rfl : x = y := Option.some.inj (hx.symm.trans hy)
  refine ⟨⟨_, Function.update_self .., LinkedNode.prev_setPrev p' x, ?_⟩,
    hr.congr (update_of_not_mem hi _)⟩
  exact (LinkedNode.next_setPrev p' x).trans hn

/-- **Link one more cell at the end**: the last cell already points on to it. -/
theorem Chain.snoc {x : ν} (h : Chain cells p l (some i)) (hx : cells i = some x)
    (hprev : prev x = l.getLast?.or p) (hnext : next x = n) : Chain cells p (l ++ [i]) n :=
  chain_append.mpr ⟨h, ⟨x, hx, hprev, hnext⟩, trivial⟩

end L4Book
