import Mathlib.Algebra.Order.Floor.Semifield
import Mathlib.Data.Nat.Digits.Defs
import Mathlib.Data.Rat.Floor
import Mathlib.Tactic.Ring

/-!
# Positional numerals, read from the left

Mathlib's `Nat.ofDigits` has the least significant digit first, which is how numbers are computed;
a text has it last. `digitsValue` reads digits in the order of the text. A numeral with a fractional
part denotes a rational number, and scaling it by a power of the base and rounding down keeps the
first digits of the fraction.

## Main definitions

* `digitsValue`: the value of a list of digits
* `numeralValue`: the value of an integer part and a fractional part

## Main results

* `digitsValue_append`, `digitsValue_lt`
* `floor_numeralValue_mul_pow`: a scaled numeral, rounded down
-/

namespace L4Book

variable {b d : ℕ} {l r int frac : List ℕ}

/-- The value of some digits in base `b`, the most significant digit first. -/
def digitsValue (b : ℕ) (l : List ℕ) : ℕ := Nat.ofDigits b l.reverse

@[simp] theorem digitsValue_nil : digitsValue b [] = 0 := rfl

theorem digitsValue_append :
    digitsValue b (l ++ r) = digitsValue b l * b ^ r.length + digitsValue b r := by
  rw [digitsValue, List.reverse_append, Nat.ofDigits_append, List.length_reverse, Nat.add_comm,
    Nat.mul_comm]
  rfl

theorem digitsValue_cons : digitsValue b (d :: l) = d * b ^ l.length + digitsValue b l := by
  rw [← List.singleton_append, digitsValue_append, digitsValue, List.reverse_singleton,
    Nat.ofDigits_singleton]

/-- So many digits count up to a power of the base. -/
theorem digitsValue_lt (hb : 1 < b) (hl : ∀ d ∈ l, d < b) : digitsValue b l < b ^ l.length := by
  rw [← List.length_reverse]
  exact Nat.ofDigits_lt_base_pow_length hb fun d hd => hl d (List.mem_reverse.mp hd)

/-- Dividing by a power of the base drops the last digits. -/
theorem digitsValue_append_div (hb : 1 < b) (hr : ∀ d ∈ r, d < b) :
    digitsValue b (l ++ r) / b ^ r.length = digitsValue b l := by
  rw [digitsValue_append, Nat.mul_comm, Nat.mul_add_div (Nat.pow_pos (by omega)),
    Nat.div_eq_of_lt (digitsValue_lt hb hr), Nat.add_zero]

/-- The number that an integer part and a fractional part denote. -/
def numeralValue (b : ℕ) (int frac : List ℕ) : ℚ :=
  digitsValue b int + digitsValue b frac / b ^ frac.length

/-- A numeral is the value of all its digits over a power of the base. -/
theorem numeralValue_mul_pow (hb : 1 < b) (n : ℕ) :
    numeralValue b int frac * b ^ n =
      ((digitsValue b (int ++ frac) * b ^ n : ℕ) : ℚ) / (b ^ frac.length : ℕ) := by
  have hne : (b : ℚ) ^ frac.length ≠ 0 := pow_ne_zero _ (Nat.cast_ne_zero.mpr (by omega))
  rw [numeralValue, digitsValue_append]
  push_cast
  rw [eq_div_iff hne, add_mul, add_mul, add_mul, div_mul_eq_mul_div, div_mul_cancel₀ _ hne]
  ring

/-- The digits that do not count make less than one. -/
theorem digitsValue_mul_pow_div (hb : 1 < b) (hfrac : ∀ d ∈ frac, d < b) (n : ℕ) :
    digitsValue b (int ++ frac) * b ^ n / b ^ frac.length =
      digitsValue b int * b ^ n + digitsValue b (frac.take n) * b ^ (n - frac.length) := by
  have hpos : ∀ k, 0 < b ^ k := fun k => Nat.pow_pos (by omega)
  rcases Nat.le_total frac.length n with hle | hle
  · -- all digits count
    rw [List.take_of_length_le hle, digitsValue_append]
    refine Nat.div_eq_of_eq_mul_left (hpos _) ?_
    have hsplit : b ^ n = b ^ (n - frac.length) * b ^ frac.length := by
      rw [← Nat.pow_add, Nat.sub_add_cancel hle]
    rw [hsplit]
    ring
  · obtain ⟨k, hk⟩ := Nat.exists_eq_add_of_le hle
    have htake : (frac.take n).length = n := List.length_take_of_le hle
    have hdrop : (frac.drop n).length = k := by rw [List.length_drop, hk, Nat.add_sub_cancel_left]
    have hlast : ∀ d ∈ frac.drop n, d < b := fun d hd => hfrac d (List.mem_of_mem_drop hd)
    have hsplit : int ++ frac = int ++ frac.take n ++ frac.drop n := by
      rw [List.append_assoc, List.take_append_drop]
    have hdiv := digitsValue_append_div (l := int ++ frac.take n) hb hlast
    rw [hdrop] at hdiv
    rw [hk, Nat.pow_add, Nat.mul_comm (b ^ n), Nat.mul_div_mul_right _ _ (hpos n), hsplit, hdiv,
      digitsValue_append, htake, Nat.sub_eq_zero_of_le (Nat.le_add_right n k), Nat.pow_zero,
      Nat.mul_one]

/-- **Scaling and rounding down keeps the first digits of the fraction.** -/
theorem floor_numeralValue_mul_pow (hb : 1 < b) (int : List ℕ) (hfrac : ∀ d ∈ frac, d < b) (n : ℕ) :
    ⌊numeralValue b int frac * b ^ n⌋₊ =
      digitsValue b int * b ^ n + digitsValue b (frac.take n) * b ^ (n - frac.length) := by
  rw [numeralValue_mul_pow hb, Nat.floor_div_eq_div, digitsValue_mul_pow_div hb hfrac]

end L4Book
