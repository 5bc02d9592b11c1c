import L4Book.Foundation.Decimal

/-!
# The shortest numeral of a number

Zeros in front of an integer part and behind a fractional part do not count. A numeral without them
is the only one of its kind for the number it denotes, and no numeral for that number has fewer
digits on either side of the point.

## Main definitions

* `IsShortest`: a numeral without zeros that do not count

## Main results

* `numeralValue_append_zeros`
* `IsShortest.length_le`: no numeral of the same value is shorter
* `IsShortest.unique`
-/

namespace L4Book

variable {b k n : ℕ} {l r int frac int' frac' : List ℕ}

/-! ### Zeros that do not count -/

theorem digitsValue_replicate_zero (b k : ℕ) : digitsValue b (List.replicate k 0) = 0 := by
  rw [digitsValue, List.reverse_replicate, Nat.ofDigits_replicate_zero]

/-- Zeros in front do not count. -/
theorem digitsValue_zeros_append (b k : ℕ) (l : List ℕ) :
    digitsValue b (List.replicate k 0 ++ l) = digitsValue b l := by
  rw [digitsValue_append, digitsValue_replicate_zero, Nat.zero_mul, Nat.zero_add]

/-- Zeros behind a fractional part do not count. -/
theorem numeralValue_append_zeros (hb : 1 < b) (int frac : List ℕ) (k : ℕ) :
    numeralValue b int (frac ++ List.replicate k 0) = numeralValue b int frac := by
  have hne : (b : ℚ) ^ k ≠ 0 := pow_ne_zero _ (Nat.cast_ne_zero.mpr (by omega))
  rw [numeralValue, numeralValue, digitsValue_append, digitsValue_replicate_zero, Nat.add_zero,
    List.length_append, List.length_replicate, pow_add]
  push_cast
  rw [mul_div_mul_right _ _ hne]

/-- The last digit is what is left over. -/
theorem digitsValue_concat_mod (hn : n < b) : digitsValue b (l ++ [n]) % b = n := by
  have hlast : digitsValue b [n] = n := Nat.ofDigits_singleton
  rw [digitsValue_append, hlast, List.length_singleton, Nat.pow_one, Nat.mul_add_mod_self_right,
    Nat.mod_eq_of_lt hn]

/-- As many digits of the same value are the same digits. -/
theorem eq_of_digitsValue_eq (hb : 1 < b) (hlen : l.length = r.length) (hl : ∀ d ∈ l, d < b)
    (hr : ∀ d ∈ r, d < b) (h : digitsValue b l = digitsValue b r) : l = r := by
  refine List.reverse_injective (Nat.ofDigits_inj_of_len_eq hb ?_ ?_ ?_ h)
  · rw [List.length_reverse, List.length_reverse, hlen]
  · exact fun d hd => hl d (List.mem_reverse.mp hd)
  · exact fun d hd => hr d (List.mem_reverse.mp hd)

/-! ### The shortest numeral -/

/-- A numeral in base `b` without zeros that do not count: with the fewest digits that its integer
part takes, one at least, and with no zero at the end of the fractional part. -/
structure IsShortest (b : ℕ) (int frac : List ℕ) : Prop where
  int_lt : ∀ d ∈ int, d < b
  frac_lt : ∀ d ∈ frac, d < b
  int_length : ∀ k, 0 < k → digitsValue b int < b ^ k → int.length ≤ k
  int_ne_nil : int ≠ []
  frac_last : frac.getLast? ≠ some 0

/-- A fractional part whose last digit counts has no shorter equal. -/
theorem length_le_of_digitsValue_eq (hb : 1 < b) (hfrac : ∀ d ∈ frac, d < b)
    (hlast : frac.getLast? ≠ some 0)
    (h : digitsValue b frac * b ^ frac'.length = digitsValue b frac' * b ^ frac.length) :
    frac.length ≤ frac'.length := by
  by_contra hlt
  obtain ⟨k, hk⟩ := Nat.exists_eq_add_of_lt (Nat.lt_of_not_le hlt)
  have hpos : 0 < b ^ frac'.length := Nat.pow_pos (by omega)
  -- cancelling leaves a multiple of the base
  have hmul : digitsValue b frac = b * (digitsValue b frac' * b ^ k) := by
    refine Nat.eq_of_mul_eq_mul_right hpos ?_
    rw [h, hk, Nat.pow_succ, Nat.pow_add]
    ring
  rcases List.eq_nil_or_concat frac with rfl | ⟨l, n, rfl⟩
  · simp at hk
  · have hn : n < b := hfrac n (by simp)
    rw [List.concat_eq_append] at hmul hlast
    have hmod := digitsValue_concat_mod (l := l) hn
    rw [hmul, Nat.mul_mod_right] at hmod
    exact hlast (by rw [← hmod]; simp)

/-- The integer part of a number is its floor. -/
theorem floor_numeralValue (hb : 1 < b) (int : List ℕ) (hfrac : ∀ d ∈ frac, d < b) :
    ⌊numeralValue b int frac⌋₊ = digitsValue b int := by
  have h := floor_numeralValue_mul_pow hb int hfrac 0
  simpa using h

/-- Numerals of the same number agree on either side of the point. -/
theorem numeralValue_eq_iff (hb : 1 < b) (hfrac : ∀ d ∈ frac, d < b)
    (hfrac' : ∀ d ∈ frac', d < b) :
    numeralValue b int frac = numeralValue b int' frac' ↔
      digitsValue b int = digitsValue b int' ∧
        digitsValue b frac * b ^ frac'.length = digitsValue b frac' * b ^ frac.length := by
  have hne : ∀ k, (b : ℚ) ^ k ≠ 0 := fun k => pow_ne_zero _ (Nat.cast_ne_zero.mpr (by omega))
  have hfraction : (digitsValue b frac : ℚ) / b ^ frac.length =
        digitsValue b frac' / b ^ frac'.length ↔
      digitsValue b frac * b ^ frac'.length = digitsValue b frac' * b ^ frac.length := by
    rw [div_eq_div_iff (hne _) (hne _)]
    exact_mod_cast Iff.rfl
  rw [← hfraction]
  constructor
  · intro h
    have hint : digitsValue b int = digitsValue b int' := by
      rw [← floor_numeralValue hb int hfrac, h, floor_numeralValue hb int' hfrac']
    refine ⟨hint, ?_⟩
    rw [numeralValue, numeralValue, hint] at h
    exact add_left_cancel h
  · rintro ⟨hint, hdiv⟩
    rw [numeralValue, numeralValue, hint, hdiv]

/-- **No numeral of the same number has fewer digits**, on either side of the point. -/
theorem IsShortest.length_le (h : IsShortest b int frac) (hb : 1 < b) (hne : int' ≠ [])
    (hint' : ∀ d ∈ int', d < b) (hfrac' : ∀ d ∈ frac', d < b)
    (hvalue : numeralValue b int' frac' = numeralValue b int frac) :
    int.length ≤ int'.length ∧ frac.length ≤ frac'.length := by
  obtain ⟨hint, hfrac⟩ := (numeralValue_eq_iff hb hfrac' h.frac_lt).mp hvalue
  refine ⟨h.int_length _ (List.length_pos_iff.mpr hne) (hint ▸ digitsValue_lt hb hint'), ?_⟩
  exact length_le_of_digitsValue_eq hb h.frac_lt h.frac_last hfrac.symm

/-- **A number has one shortest numeral.** -/
theorem IsShortest.unique (h : IsShortest b int frac) (h' : IsShortest b int' frac') (hb : 1 < b)
    (hvalue : numeralValue b int frac = numeralValue b int' frac') :
    int = int' ∧ frac = frac' := by
  obtain ⟨hint, hfrac⟩ := (numeralValue_eq_iff hb h.frac_lt h'.frac_lt).mp hvalue
  obtain ⟨hil, hfl⟩ := h.length_le hb h'.int_ne_nil h'.int_lt h'.frac_lt hvalue.symm
  obtain ⟨hil', hfl'⟩ := h'.length_le hb h.int_ne_nil h.int_lt h.frac_lt hvalue
  have hlen := Nat.le_antisymm hfl hfl'
  refine ⟨eq_of_digitsValue_eq hb (Nat.le_antisymm hil hil') h.int_lt h'.int_lt hint,
    eq_of_digitsValue_eq hb hlen h.frac_lt h'.frac_lt ?_⟩
  rw [hlen] at hfrac
  exact Nat.eq_of_mul_eq_mul_right (Nat.pow_pos (by omega)) hfrac

end L4Book
