import L4Book.Foundation.Fallible
import L4Book.Types

/-!
# Build profiles, faults and machine arithmetic

Rust's integer operators depend on the build profile. With overflow checks on (Cargo's `dev`
profile) an operation whose result does not fit panics; with them off (`release`) it wraps. The
crate does not set `overflow-checks`, so both profiles are real and every function below takes
the profile as an argument. The same profile decides whether `debug_assert!` is compiled.

A computation that stops without returning is a `Fault`: a panic, or a loop that never ends.

Slot numbers, order counts and snapshot counters are natural numbers: a slab is a `Vec`, whose
length is below `2 ^ 63`, so they never reach their `usize` or `u64` bound.

## Main definitions

* `Profile`, `Fault`
* `Profile.addU64`, `subU64`, `addU128`, `mulU128`: the checked-or-wrapping operators
* `OnlyOverflow`: the single fault the book is allowed to stop with
-/

namespace L4Book

/-- Cargo build profiles. -/
inductive Profile
  | dev
  | release
deriving DecidableEq, Repr

/-- How a computation can stop without returning. -/
inductive Fault
  /-- `Option::expect` on `None`. -/
  | expect (msg : String)
  /-- A slice index out of bounds. -/
  | indexOutOfBounds
  /-- Integer overflow with overflow checks on. -/
  | overflow
  /-- A failed `debug_assert!`, or an `assert_eq!` of the debug-only consistency check. -/
  | assertion (msg : String)
  /-- A loop that never ends. -/
  | endless
deriving DecidableEq, Repr

/-- The range of a `u128`. -/
def u128Size : ℕ := 2 ^ 128

/-- A word times a word fits a `u128`. -/
theorem mul_lt_u128Size {m n : ℕ} (hm : m < UInt64.size) (hn : n < UInt64.size) :
    m * n < u128Size := by
  have hmax : (UInt64.size - 1) * (UInt64.size - 1) < u128Size := by decide
  exact Nat.lt_of_le_of_lt
    (Nat.mul_le_mul (Nat.le_sub_one_of_lt hm) (Nat.le_sub_one_of_lt hn)) hmax

namespace Profile

/-- `a + b` on `u64`. -/
def addU64 (π : Profile) (a b : UInt64) : Except Fault UInt64 :=
  if π = .dev ∧ UInt64.size ≤ a.toNat + b.toNat then .error .overflow else .ok (a + b)

/-- `a - b` on `u64`. -/
def subU64 (π : Profile) (a b : UInt64) : Except Fault UInt64 :=
  if π = .dev ∧ a.toNat < b.toNat then .error .overflow else .ok (a - b)

/-- `a * b` on `u64`. -/
def mulU64 (π : Profile) (a b : UInt64) : Except Fault UInt64 :=
  if π = .dev ∧ UInt64.size ≤ a.toNat * b.toNat then .error .overflow else .ok (a * b)

/-- `a + b` on `u8`. -/
def addU8 (π : Profile) (a b : UInt8) : Except Fault UInt8 :=
  if π = .dev ∧ UInt8.size ≤ a.toNat + b.toNat then .error .overflow else .ok (a + b)

/-- `a - b` on `u8`. -/
def subU8 (π : Profile) (a b : UInt8) : Except Fault UInt8 :=
  if π = .dev ∧ a.toNat < b.toNat then .error .overflow else .ok (a - b)

/-- `a + b` on `u128`. -/
def addU128 (π : Profile) (a b : ℕ) : Except Fault ℕ :=
  if a + b < u128Size then .ok (a + b)
  else if π = .dev then .error .overflow
  else .ok ((a + b) % u128Size)

/-- `a * b` on `u128`. -/
def mulU128 (π : Profile) (a b : ℕ) : Except Fault ℕ :=
  if a * b < u128Size then .ok (a * b)
  else if π = .dev then .error .overflow
  else .ok ((a * b) % u128Size)

/-- `debug_assert!`: compiled in the `dev` profile only. -/
def debugAssert (π : Profile) (cond : Bool) (msg : String) : Except Fault Unit :=
  if π = .dev ∧ cond = false then .error (.assertion msg) else .ok ()

variable {π : Profile} {a b : UInt64}

theorem addU64_eq_ok (h : π = .dev → a.toNat + b.toNat < UInt64.size) :
    π.addU64 a b = .ok (a + b) :=
  if_neg fun hc => absurd (h hc.1) (Nat.not_lt.mpr hc.2)

theorem subU64_eq_ok (h : π = .dev → b.toNat ≤ a.toNat) : π.subU64 a b = .ok (a - b) :=
  if_neg fun hc => absurd (h hc.1) (Nat.not_le.mpr hc.2)

theorem mulU64_eq_ok (h : π = .dev → a.toNat * b.toNat < UInt64.size) :
    π.mulU64 a b = .ok (a * b) :=
  if_neg fun hc => absurd (h hc.1) (Nat.not_lt.mpr hc.2)

theorem addU8_eq_ok {a b : UInt8} (h : π = .dev → a.toNat + b.toNat < UInt8.size) :
    π.addU8 a b = .ok (a + b) :=
  if_neg fun hc => absurd (h hc.1) (Nat.not_lt.mpr hc.2)

theorem subU8_eq_ok {a b : UInt8} (h : π = .dev → b.toNat ≤ a.toNat) :
    π.subU8 a b = .ok (a - b) :=
  if_neg fun hc => absurd (h hc.1) (Nat.not_le.mpr hc.2)

theorem addU128_eq_ok {a b : ℕ} (h : a + b < u128Size) : π.addU128 a b = .ok (a + b) :=
  if_pos h

theorem mulU128_eq_ok {a b : ℕ} (h : a * b < u128Size) : π.mulU128 a b = .ok (a * b) :=
  if_pos h

theorem debugAssert_true (msg : String) : π.debugAssert true msg = .ok () :=
  if_neg fun hc => nomatch hc.2

end Profile

/-- The faults an operation that overflows exactly when `cond` holds may stop with: an overflow
panic, in a build that checks for it. -/
def OnlyOverflow (π : Profile) (cond : Prop) (e : Fault) : Prop :=
  e = .overflow ∧ π = .dev ∧ cond

theorem OnlyOverflow.mono {π : Profile} {p q : Prop} (hpq : p → q) {e : Fault}
    (h : OnlyOverflow π p e) : OnlyOverflow π q e :=
  ⟨h.1, h.2.1, hpq h.2.2⟩

end L4Book
