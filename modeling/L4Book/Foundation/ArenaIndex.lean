import Mathlib.Data.Finmap
import Mathlib.Logic.Function.Basic

/-!
# An index over an arena

Items live in the numbered cells of an arena, some of which are empty, and every item has a key.
`Indexes key index cells` says that the finite map `index` finds every item by its key and nothing
else, which makes keys unique.

An arena changes in three ways that keep an index right: an empty cell is filled with an item of a
new key, a cell is emptied, or an item is replaced by another with the same key.

## Main results

* `Indexes.cell_unique`: one cell for each key
* `Indexes.insert`, `Indexes.erase`, `Indexes.replace`
-/

namespace L4Book

variable {α ι : Type*} [DecidableEq ι] {key : α → ι} {index : Finmap fun _ : ι => ℕ}
  {cells : ℕ → Option α} {slot i j : ℕ} {x y : α}

/-- The index finds exactly the items of the arena, each by its key. -/
def Indexes (key : α → ι) (index : Finmap fun _ : ι => ℕ) (cells : ℕ → Option α) : Prop :=
  ∀ id i, index.lookup id = some i ↔ ∃ x, cells i = some x ∧ key x = id

namespace Indexes

/-- Two cells with the same key are one cell. -/
theorem cell_unique (h : Indexes key index cells) (hx : cells i = some x) (hy : cells j = some y)
    (hkey : key x = key y) : i = j := by
  have hi : index.lookup (key x) = some i := (h _ i).mpr ⟨x, hx, rfl⟩
  have hj : index.lookup (key y) = some j := (h _ j).mpr ⟨y, hy, rfl⟩
  rw [hkey, hj] at hi
  exact (Option.some.inj hi).symm

/-- A new item in an empty cell. -/
theorem insert (h : Indexes key index cells) (hempty : cells slot = none)
    (hnew : ∀ i y, cells i = some y → key y ≠ key x) :
    Indexes key (index.insert (key x) slot) (Function.update cells slot (some x)) := by
  intro id i
  by_cases hid : id = key x
  · subst hid
    rw [Finmap.lookup_insert]
    by_cases hi : i = slot
    · subst hi
      simp
    · rw [Function.update_of_ne hi]
      constructor
      · intro heq
        exact absurd (Option.some.inj heq).symm hi
      · rintro ⟨y, hy, hkey⟩
        exact absurd hkey (hnew i y hy)
  · rw [Finmap.lookup_insert_of_ne _ hid]
    by_cases hi : i = slot
    · subst hi
      rw [Function.update_self, h, hempty]
      constructor
      · rintro ⟨y, hy, -⟩
        exact nomatch hy
      · rintro ⟨y, hy, rfl⟩
        exact absurd (congrArg key (Option.some.inj hy).symm) hid
    · rw [Function.update_of_ne hi]
      exact h id i

/-- An item is taken out of its cell. -/
theorem erase (h : Indexes key index cells) (hx : cells slot = some x) :
    Indexes key (index.erase (key x)) (Function.update cells slot none) := by
  intro id i
  by_cases hid : id = key x
  · subst hid
    rw [Finmap.lookup_erase]
    constructor
    · exact fun hlook => nomatch hlook
    · rintro ⟨y, hy, hkey⟩
      by_cases hi : i = slot
      · rw [hi, Function.update_self] at hy
        exact nomatch hy
      · rw [Function.update_of_ne hi] at hy
        exact absurd (h.cell_unique hy hx hkey) hi
  · rw [Finmap.lookup_erase_ne hid]
    by_cases hi : i = slot
    · subst hi
      rw [Function.update_self, h, hx]
      constructor
      · rintro ⟨y, hy, rfl⟩
        exact absurd (congrArg key (Option.some.inj hy).symm) hid
      · rintro ⟨y, hy, -⟩
        exact nomatch hy
    · rw [Function.update_of_ne hi]
      exact h id i

/-- An item is replaced by one with the same key. -/
theorem replace (h : Indexes key index cells) (hx : cells slot = some x) (hkey : key y = key x) :
    Indexes key index (Function.update cells slot (some y)) := by
  intro id i
  rw [h]
  by_cases hi : i = slot
  · subst hi
    rw [Function.update_self, hx]
    simp [hkey]
  · rw [Function.update_of_ne hi]

end Indexes

end L4Book
