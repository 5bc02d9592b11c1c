import L4Book.Foundation.Fallible
import Mathlib.Data.List.Forall2

/-!
# Lists read entry by entry

A list that was made from another one, entry by entry, is related to it by `List.Forall₂`. What is
counted, picked out or found in the one can then be traced back to the other.

## Main results

* `mapM_eq_ok_iff`: a map that can fail
* `countP_eq_of_forall₂`: counting
* `exists_sources`: picking out, and making something else of what was picked
* `exists_split`, `exists_getLast?_of_forall₂`: finding
-/

namespace L4Book

universe u

variable {ε γ : Type*} {α β : Type u} {R : γ → α → Prop} {cs : List γ} {xs : List α}

/-- **What a map that can fail makes of a list, it makes of its entries.** -/
theorem mapM_eq_ok_iff {f : γ → Except ε α} :
    cs.mapM f = .ok xs ↔ List.Forall₂ (fun c x => f c = .ok x) cs xs := by
  constructor
  · intro h
    induction cs generalizing xs with
    | nil =>
      obtain rfl : [] = xs := Except.ok.inj h
      exact .nil
    | cons c cs ih =>
      rw [List.mapM_cons] at h
      obtain ⟨x, hx, h⟩ := bind_eq_ok_iff.mp h
      obtain ⟨ys, hys, h⟩ := bind_eq_ok_iff.mp h
      obtain rfl : x :: ys = xs := Except.ok.inj h
      exact .cons hx (ih hys)
  · intro h
    induction h with
    | nil => rfl
    | cons hx _ ih =>
      rw [List.mapM_cons, hx, ok_bind, ih]
      rfl

/-- Reading the beginning of what can be read. -/
theorem mapM_take {f : γ → Except ε α} (h : cs.mapM f = .ok xs) (n : ℕ) :
    (cs.take n).mapM f = .ok (xs.take n) :=
  mapM_eq_ok_iff.mpr (List.forall₂_take n (mapM_eq_ok_iff.mp h))

/-- Related entries are counted alike. -/
theorem countP_eq_of_forall₂ {p : γ → Bool} {q : α → Bool} (h : List.Forall₂ R cs xs)
    (hpq : ∀ c x, R c x → q x = p c) : xs.countP q = cs.countP p := by
  induction h with
  | nil => rfl
  | cons hx _ ih => rw [List.countP_cons, List.countP_cons, ih, hpq _ _ hx]

/-- An entry of the one comes from an entry of the other. -/
theorem exists_of_mem_forall₂ {x : α} (h : List.Forall₂ R cs xs) (hx : x ∈ xs) :
    ∃ c ∈ cs, R c x := by
  induction h with
  | nil => exact absurd hx List.not_mem_nil
  | cons hcx _ ih =>
    rcases List.mem_cons.mp hx with rfl | hx
    · exact ⟨_, List.mem_cons_self, hcx⟩
    · obtain ⟨c, hc, hcx⟩ := ih hx
      exact ⟨c, List.mem_cons_of_mem _ hc, hcx⟩

/-- What stands in the one stands in the other. -/
theorem exists_mem_iff_of_forall₂ {p : γ → Prop} {q : α → Prop} (h : List.Forall₂ R cs xs)
    (hpq : ∀ c x, R c x → (q x ↔ p c)) : (∃ x ∈ xs, q x) ↔ ∃ c ∈ cs, p c := by
  induction h with
  | nil => simp
  | cons hx _ ih => rw [List.exists_mem_cons_iff, List.exists_mem_cons_iff, ih, hpq _ _ hx]

/-- Related lists have related last entries. -/
theorem exists_getLast?_of_forall₂ {c : γ} (h : List.Forall₂ R cs xs) (hc : cs.getLast? = some c) :
    ∃ x, xs.getLast? = some x ∧ R c x := by
  induction h with
  | nil => cases hc
  | @cons d y cs xs hdy htail ih =>
    cases htail with
    | nil =>
      obtain rfl : d = c := Option.some.inj hc
      exact ⟨y, rfl, hdy⟩
    | cons _ _ =>
      rw [List.getLast?_cons_cons] at hc ⊢
      exact ih hc

/-- A map relates its entries to what it makes of them. -/
theorem forall₂_map {f : γ → α} (h : ∀ c, R c (f c)) (cs : List γ) :
    List.Forall₂ R cs (cs.map f) :=
  List.forall₂_map_right_iff.mpr (List.forall₂_same.mpr fun c _ => h c)

/-- What is left of the one is made from what is left of the other. -/
theorem exists_sublist_of_forall₂ {ys : List α} (h : List.Forall₂ R cs xs) (hys : ys.Sublist xs) :
    ∃ ds, ds.Sublist cs ∧ List.Forall₂ R ds ys := by
  induction h generalizing ys with
  | nil =>
    obtain rfl := List.sublist_nil.mp hys
    exact ⟨[], List.Sublist.refl [], .nil⟩
  | cons hx _ ih =>
    cases hys with
    | cons _ hys =>
      obtain ⟨ds, hsub, hds⟩ := ih hys
      exact ⟨ds, hsub.cons _, hds⟩
    | cons_cons _ hys =>
      obtain ⟨ds, hsub, hds⟩ := ih hys
      exact ⟨_ :: ds, hsub.cons_cons _, .cons hx hds⟩

/-- What is made of some entries is made, in order, of entries of the other list. -/
theorem exists_sources {g : α → Option β} (h : List.Forall₂ R cs xs) :
    ∃ ds, ds.Sublist cs ∧
      List.Forall₂ (fun c y => ∃ x, R c x ∧ g x = some y) ds (xs.filterMap g) := by
  induction h with
  | nil => exact ⟨[], List.Sublist.refl [], .nil⟩
  | @cons c x cs xs hx _ ih =>
    obtain ⟨ds, hsub, hds⟩ := ih
    cases hg : g x with
    | none =>
      rw [List.filterMap_cons_none hg]
      exact ⟨ds, hsub.cons c, hds⟩
    | some y =>
      rw [List.filterMap_cons_some hg]
      exact ⟨c :: ds, hsub.cons_cons c, .cons ⟨x, hx, hg⟩ hds⟩

/-- Where the one list is split, the other is split. -/
theorem exists_split {before after : List γ} {c : γ}
    (h : List.Forall₂ R (before ++ c :: after) xs) :
    ∃ ys x zs, xs = ys ++ x :: zs ∧ List.Forall₂ R before ys ∧ R c x ∧ List.Forall₂ R after zs := by
  induction before generalizing xs with
  | nil =>
    obtain ⟨x, zs, hx, hzs, rfl⟩ := List.forall₂_cons_left_iff.mp h
    exact ⟨[], x, zs, rfl, .nil, hx, hzs⟩
  | cons b before ih =>
    obtain ⟨y, xs, hy, hxs, rfl⟩ := List.forall₂_cons_left_iff.mp h
    obtain ⟨ys, x, zs, rfl, hys, hx, hzs⟩ := ih hxs
    exact ⟨y :: ys, x, zs, rfl, .cons hy hys, hx, hzs⟩

end L4Book
