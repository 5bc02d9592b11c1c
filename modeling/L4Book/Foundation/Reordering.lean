import Mathlib.Data.List.Nodup

/-!
# Reordering independent steps

A machine that answers every input with an output. Two inputs commute when each gets the same
output whether the other comes before it or not, and both orders lead to the same state. A run may
be reordered freely as long as inputs that do not commute keep their order: every input keeps its
output, and the run ends in the same state.

The inputs of a run are told apart by being different; a run that repeats an input is one whose
inputs carry a tag.

## Main definitions

* `outputs`: a run, with the output of every step
* `Commutes`: two inputs that do not see each other

## Main results

* `outputs_moveFront`: an input may overtake those it commutes with
* `outputs_reorder`: runs that differ in the order of commuting inputs
-/

namespace L4Book

variable {σ α ω : Type*} {step : σ → α → ω × σ} {s : σ} {x y : α} {xs ys l l' : List α}

/-- The outputs of a run, and the state it ends in. -/
def outputs (step : σ → α → ω × σ) : σ → List α → List ω × σ
  | s, [] => ([], s)
  | s, x :: xs =>
    ((step s x).1 :: (outputs step (step s x).2 xs).1, (outputs step (step s x).2 xs).2)

/-- From every state, the two inputs get the same outputs and lead to the same state in either
order. -/
structure Commutes (step : σ → α → ω × σ) (x y : α) : Prop where
  state : ∀ s, (step (step s x).2 y).2 = (step (step s y).2 x).2
  left : ∀ s, (step (step s y).2 x).1 = (step s x).1
  right : ∀ s, (step (step s x).2 y).1 = (step s y).1

/-- **An input may overtake those it commutes with.** -/
theorem outputs_moveFront (h : ∀ y ∈ xs, Commutes step y x) (ys : List α) (s : σ) :
    (outputs step s (xs ++ x :: ys)).1.Perm (outputs step s (x :: (xs ++ ys))).1 ∧
      (outputs step s (xs ++ x :: ys)).2 = (outputs step s (x :: (xs ++ ys))).2 := by
  induction xs generalizing s with
  | nil => exact ⟨List.Perm.refl _, rfl⟩
  | cons y xs ih =>
    have hy := h y List.mem_cons_self
    obtain ⟨hperm, hstate⟩ := ih (fun z hz => h z (List.mem_cons_of_mem _ hz)) (step s y).2
    simp only [outputs, hy.state, hy.right] at hperm hstate
    simp only [List.cons_append, outputs, hy.left]
    exact ⟨(hperm.cons _).trans (List.Perm.swap _ _ _), hstate⟩

/-- In a list without repetitions, nothing stands before the first element. -/
theorem not_sublist_head (hnodup : (x :: l).Nodup) : ¬ [y, x].Sublist (x :: l) := by
  intro hsub
  obtain ⟨hx, -⟩ := List.nodup_cons.mp hnodup
  rcases List.cons_sublist_cons'.mp hsub with hsub | ⟨-, hsub⟩
  · exact hx (hsub.subset (by simp))
  · exact hx (hsub.subset (by simp))

/-- **Runs that differ in the order of commuting inputs** give every input the same output, and end
in the same state. -/
theorem outputs_reorder (hnodup : l.Nodup) (hperm : l.Perm l')
    (horder : ∀ x y, ¬ Commutes step x y → [x, y].Sublist l → [x, y].Sublist l') (s : σ) :
    (outputs step s l).1.Perm (outputs step s l').1 ∧
      (outputs step s l).2 = (outputs step s l').2 := by
  induction l' generalizing l s with
  | nil =>
    obtain rfl := hperm.eq_nil
    exact ⟨List.Perm.refl _, rfl⟩
  | cons x t ih =>
    obtain ⟨xs, ys, rfl⟩ := List.append_of_mem (hperm.mem_iff.mpr List.mem_cons_self)
    have hnodup' : (x :: (xs ++ ys)).Nodup := List.perm_middle.nodup_iff.mp hnodup
    obtain ⟨hx, hrest⟩ := List.nodup_cons.mp hnodup'
    -- `x` comes first in `l'`, so it commutes with what it has to overtake in `l`
    have hcommutes : ∀ y ∈ xs, Commutes step y x := by
      intro y hy
      by_contra hnot
      have hsub : [y, x].Sublist (xs ++ x :: ys) :=
        (List.singleton_sublist.mpr hy).append (List.singleton_sublist.mpr List.mem_cons_self)
      exact not_sublist_head (hperm.nodup_iff.mp hnodup) (horder y x hnot hsub)
    obtain ⟨hfront, hfrontState⟩ := outputs_moveFront hcommutes ys s
    have hperm' : (xs ++ ys).Perm t :=
      List.Perm.cons_inv (List.perm_middle.symm.trans hperm)
    have horder' : ∀ u v, ¬ Commutes step u v → [u, v].Sublist (xs ++ ys) → [u, v].Sublist t := by
      intro u v hnot hsub
      have hwide : (xs ++ ys).Sublist (xs ++ x :: ys) :=
        (List.Sublist.refl xs).append (List.sublist_cons_self x ys)
      rcases List.cons_sublist_cons'.mp (horder u v hnot (hsub.trans hwide)) with hsub' | ⟨rfl, -⟩
      · exact hsub'
      · exact absurd (hsub.subset List.mem_cons_self) hx
    obtain ⟨htail, htailState⟩ := ih hrest hperm' horder' (step s x).2
    exact ⟨hfront.trans (htail.cons _), hfrontState.trans htailState⟩

end L4Book
