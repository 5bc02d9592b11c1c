import L4Book.Foundation.Fallible
import Mathlib.Data.List.Basic

/-!
# Checks that say what is wrong

A check can fail for one of several reasons. It can be trusted if it fails exactly when there is a
reason to, and gives as its error one of the reasons that there are. Checks of this kind can be put
one after another, and carried out for each entry of a list; the error is then a reason to refuse
the first entry that is to be refused.

## Main definitions

* `Blames`: a check that can be trusted
* `FirstFault`: a reason to refuse the first bad entry of a list

## Main results

* `Blames.bind`: one check after another
* `Blames.mapM`: a check of each entry
-/

namespace L4Book

universe u

variable {ε γ : Type*} {α β : Type u} {F G : ε → Prop} {v : Except ε α}

/-- The computation fails exactly if there is a fault, and its error is one. -/
def Blames (fault : ε → Prop) (v : Except ε α) : Prop := Returns fault v fun _ => ∀ e, ¬ fault e

theorem Blames.of_error {e : ε} (h : Blames F v) (hv : v = .error e) : F e := h.of_eq_error hv

theorem Blames.of_ok {a : α} (h : Blames F v) (hv : v = .ok a) : ∀ e, ¬ F e := h.of_eq_ok hv

/-- The faults may be described in another way, as long as there are some in the same cases. -/
theorem Blames.mono (h : Blames F v) (hFG : ∀ e, F e → G e) (hGF : ∀ e, G e → ∃ e', F e') :
    Blames G v := by
  refine Returns.mono h hFG fun _ hnone e he => ?_
  obtain ⟨e', he'⟩ := hGF e he
  exact hnone e' he'

theorem Blames.congr (h : Blames F v) (hFG : ∀ e, F e ↔ G e) : Blames G v :=
  h.mono (fun e => (hFG e).mp) fun e he => ⟨e, (hFG e).mpr he⟩

/-- **One check after another.** The second one may use what the first one found. -/
theorem Blames.bind {f : α → Except ε β} (hv : Blames F v) (hf : ∀ a, v = .ok a → Blames G (f a)) :
    Blames (fun e => F e ∨ G e) (v >>= f) := by
  cases v with
  | error e => exact Or.inl hv
  | ok a =>
    have hnone : ∀ e, ¬ F e := hv
    refine (hf a rfl).mono (fun e => Or.inr) ?_
    rintro e (he | he)
    · exact absurd he (hnone e)
    · exact ⟨e, he⟩

theorem Blames.map {f : α → β} (h : Blames F v) : Blames F (f <$> v) := by
  cases v <;> exact h

/-- The entry is the first one with a fault, and this is one of its faults. -/
def FirstFault (fault : γ → ε → Prop) (cs : List γ) (e : ε) : Prop :=
  ∃ before c after, cs = before ++ c :: after ∧ (∀ b ∈ before, ∀ e, ¬ fault b e) ∧ fault c e

variable {fault : γ → ε → Prop} {c : γ} {cs : List γ} {e : ε}

theorem not_firstFault_nil : ¬ FirstFault fault [] e := by
  rintro ⟨before, c, after, heq, -, -⟩
  exact List.append_ne_nil_of_right_ne_nil before (List.cons_ne_nil c after) heq.symm

theorem firstFault_cons : FirstFault fault (c :: cs) e ↔
    fault c e ∨ (∀ e, ¬ fault c e) ∧ FirstFault fault cs e := by
  constructor
  · rintro ⟨before, b, after, heq, hbefore, hb⟩
    cases before with
    | nil =>
      obtain ⟨rfl, -⟩ := List.cons.inj heq
      exact Or.inl hb
    | cons b' before =>
      obtain ⟨rfl, rfl⟩ := List.cons.inj heq
      obtain ⟨hc, hbefore⟩ := List.forall_mem_cons.mp hbefore
      exact Or.inr ⟨hc, before, b, after, rfl, hbefore, hb⟩
  · rintro (hc | ⟨hc, before, b, after, rfl, hbefore, hb⟩)
    · exact ⟨[], c, cs, rfl, fun _ h => absurd h List.not_mem_nil, hc⟩
    · exact ⟨c :: before, b, after, rfl, List.forall_mem_cons.mpr ⟨hc, hbefore⟩, hb⟩

/-- **A check of each entry.** -/
theorem Blames.mapM {f : γ → Except ε α} (h : ∀ c ∈ cs, Blames (fault c) (f c)) :
    Blames (FirstFault fault cs) (cs.mapM f) := by
  induction cs with
  | nil => exact fun _ => not_firstFault_nil
  | cons c cs ih =>
    obtain ⟨hc, hcs⟩ := List.forall_mem_cons.mp h
    have ih := ih hcs
    rw [List.mapM_cons]
    cases hx : f c with
    | error e => exact firstFault_cons.mpr (Or.inl (hc.of_error hx))
    | ok x =>
      have hnone := hc.of_ok hx
      rw [ok_bind]
      refine (ih.map (f := fun xs => x :: xs)).congr fun e => ?_
      rw [firstFault_cons]
      constructor
      · exact fun h => Or.inr ⟨hnone, h⟩
      · exact fun h => (h.resolve_left (hnone e)).2

end L4Book
