import L4Book.Foundation.ShortestNumeral
import L4Book.Foundation.Text
import L4Book.Refinement.FixedPoint
import L4Book.Reporting

/-!
# The text of a scaled integer

`fmt_scaled` writes the quotient, and the remainder padded to all the digits of the scale, less the
zeros at its end. Whatever is written is ASCII, so that its bytes are known, and they are a numeral
for the number that the scaled integer stands for.

## Main definitions

* `digitBytes`: the digits of a number as bytes
* `shownText`: a numeral as it is written, without a point if nothing is behind it

## Main results

* `fmtScaled_eq`: what is written, in any build in which the scale fits
* `isShortest_shown`, `numeralValue_shown`: it is the shortest numeral of the number shown
-/

namespace L4Book

variable {π : Profile} {n value digits : ℕ} {int frac : List UInt8}

/-! ### The digits of a number -/

/-- The digits of a number, as bytes. -/
def digitBytes (n : ℕ) : List UInt8 := (Nat.toDigits 10 n).map Char.toUInt8

/-- An ASCII digit is one byte, and that a digit. -/
theorem ascii_of_isDigit {c : Char} (h : c.isDigit = true) :
    c.val ≤ 127 ∧ isAsciiDigit c.toUInt8 = true := by
  have hdigit := Char.isDigit_iff_toNat.mp h
  have hval : c.val.toNat = c.toNat := rfl
  constructor
  · rw [UInt32.le_iff_toNat_le, hval]
    exact Nat.le_trans hdigit.2 (by decide)
  · rw [isAsciiDigit_iff]
    have hbyte : c.toUInt8.toNat = c.toNat % 256 := rfl
    rw [hbyte]
    have h0 : '0'.toNat = 48 := rfl
    have h9 : '9'.toNat = 57 := rfl
    omega

theorem allDigits_digitBytes (n : ℕ) : AllDigits (digitBytes n) := by
  intro c hc
  obtain ⟨d, hd, rfl⟩ := List.mem_map.mp hc
  exact (ascii_of_isDigit (Nat.isDigit_of_mem_toDigits (by decide) (by decide) hd)).2

theorem digitBytes_ne_nil (n : ℕ) : digitBytes n ≠ [] := by
  rw [digitBytes, ne_eq, List.map_eq_nil_iff]
  exact Nat.toDigits_ne_nil

theorem digitNat_digitChar (h : n < 10) : digitNat (Nat.digitChar n).toUInt8 = n := by
  have hall : ∀ n < 10, digitNat (Nat.digitChar n).toUInt8 = n := by decide
  exact hall n h

theorem bytesValue_append {l r : List UInt8} :
    bytesValue (l ++ r) = bytesValue l * 10 ^ r.length + bytesValue r := by
  rw [bytesValue, List.map_append, digitsValue_append, List.length_map]
  rfl

/-- The digits of a number denote it. -/
theorem bytesValue_digitBytes (n : ℕ) : bytesValue (digitBytes n) = n := by
  induction n using Nat.strongRecOn with
  | ind n ih =>
    rw [digitBytes, Nat.toDigits_eq_if (by decide)]
    split
    next hlt => simp [bytesValue_cons, digitNat_digitChar hlt]
    next hle =>
      have hdiv := ih (n / 10) (by omega)
      rw [List.map_append, bytesValue_append, ← digitBytes, hdiv]
      simp only [List.map_cons, List.map_nil, bytesValue_cons, bytesValue_nil, List.length_nil,
        List.length_cons, Nat.pow_zero, Nat.mul_one, Nat.add_zero, Nat.zero_add, Nat.pow_one,
        digitNat_digitChar (Nat.mod_lt n (show 10 > 0 by decide))]
      omega

theorem length_digitBytes_le {k : ℕ} (hk : 0 < k) (h : n < 10 ^ k) : (digitBytes n).length ≤ k := by
  rw [digitBytes, List.length_map]
  exact (Nat.length_toDigits_le_iff (by decide) hk).mpr h

/-! ### The fraction -/

/-- The characters behind the point. -/
def fraction (value digits : ℕ) : List Char := trimZeros (zeroPadded digits (value % 10 ^ digits))

/-- The bytes behind the point. -/
def fractionBytes (value digits : ℕ) : List UInt8 := (fraction value digits).map Char.toUInt8

theorem map_zeroPadded (w n : ℕ) : (zeroPadded w n).map Char.toUInt8 =
    List.replicate (w - (digitBytes n).length) 48 ++ digitBytes n := by
  rw [zeroPadded, List.leftpad, List.map_append, List.map_replicate, digitBytes, List.length_map]
  rfl

/-- Padding does not change the number. -/
theorem bytesValue_zeroPadded (w n : ℕ) : bytesValue ((zeroPadded w n).map Char.toUInt8) = n := by
  rw [map_zeroPadded, bytesValue, List.map_append, List.map_replicate]
  exact (digitsValue_zeros_append 10 _ _).trans (bytesValue_digitBytes n)

theorem length_zeroPadded {w : ℕ} (hw : 0 < w) (h : n < 10 ^ w) : (zeroPadded w n).length = w := by
  have hle : (Nat.toDigits 10 n).length ≤ w := (Nat.length_toDigits_le_iff (by decide) hw).mpr h
  rw [zeroPadded, List.leftpad, List.length_append, List.length_replicate]
  omega

theorem isDigit_of_mem_zeroPadded {w : ℕ} {c : Char} (h : c ∈ zeroPadded w n) :
    c.isDigit = true := by
  rcases List.mem_append.mp h with h | h
  · rw [List.eq_of_mem_replicate h]
    rfl
  · exact Nat.isDigit_of_mem_toDigits (by decide) (by decide) h

/-- Only zeros at the end are taken off. -/
theorem exists_trimZeros (s : List Char) : ∃ k, s = trimZeros s ++ List.replicate k '0' := by
  refine ⟨(s.rtakeWhile (· = '0')).length, ?_⟩
  have hzeros : s.rtakeWhile (· = '0') =
      List.replicate (s.rtakeWhile (· = '0')).length '0' :=
    List.eq_replicate_iff.mpr ⟨rfl, fun c hc => by simpa using List.mem_rtakeWhile_imp hc⟩
  rw [← hzeros]
  exact (List.rdropWhile_append_rtakeWhile ..).symm

theorem getLast?_trimZeros (s : List Char) : (trimZeros s).getLast? ≠ some '0' := by
  intro h
  have hne : trimZeros s ≠ [] := fun hnil => by rw [hnil] at h; cases h
  rw [List.getLast?_eq_some_getLast hne, Option.some.injEq] at h
  exact List.rdropWhile_last_not (· = '0') s hne (decide_eq_true h)

theorem isDigit_of_mem_fraction {c : Char} (h : c ∈ fraction value digits) : c.isDigit = true := by
  obtain ⟨k, hk⟩ := exists_trimZeros (zeroPadded digits (value % 10 ^ digits))
  exact isDigit_of_mem_zeroPadded (hk ▸ List.mem_append_left _ h)

theorem allDigits_fractionBytes (value digits : ℕ) : AllDigits (fractionBytes value digits) := by
  intro c hc
  obtain ⟨d, hd, rfl⟩ := List.mem_map.mp hc
  exact (ascii_of_isDigit (isDigit_of_mem_fraction hd)).2

/-- The digit zero is the only one that counts for nothing. -/
theorem eq_zero_of_digitNat {c : Char} (hc : c.isDigit = true) (h : digitNat c.toUInt8 = 0) :
    c = '0' := by
  have hdigit := Char.isDigit_iff_toNat.mp hc
  have hbyte : digitNat c.toUInt8 = c.toNat % 256 - 48 := rfl
  have h0 : '0'.toNat = 48 := rfl
  have h9 : '9'.toNat = 57 := rfl
  exact Char.toNat_inj.mp (by omega)

/-! ### The numeral -/

/-- **The numeral that is written denotes the scaled value.** -/
theorem numeralValue_shown (value digits : ℕ) :
    numeralValue 10 ((digitBytes (value / 10 ^ digits)).map digitNat)
      ((fractionBytes value digits).map digitNat) = (value : ℚ) / 10 ^ digits := by
  have hint : digitsValue 10 ((digitBytes (value / 10 ^ digits)).map digitNat) =
      value / 10 ^ digits := bytesValue_digitBytes _
  rcases Nat.eq_zero_or_pos digits with rfl | hpos
  · -- the remainder is zero, and its one digit is taken off
    have hfrac : fractionBytes value 0 = [] := by
      rw [fractionBytes, fraction, Nat.pow_zero, Nat.mod_one]
      rfl
    rw [hfrac, numeralValue, hint]
    simp
  · obtain ⟨k, hk⟩ := exists_trimZeros (zeroPadded digits (value % 10 ^ digits))
    have hmod : value % 10 ^ digits < 10 ^ digits := Nat.mod_lt _ (Nat.pow_pos (by decide))
    have hbytes : (zeroPadded digits (value % 10 ^ digits)).map (digitNat ∘ Char.toUInt8) =
        (fractionBytes value digits).map digitNat ++ List.replicate k 0 := by
      conv_lhs => rw [hk]
      rw [List.map_append, List.map_replicate, fractionBytes, List.map_map]
      rfl
    have hpadded : digitsValue 10
        ((zeroPadded digits (value % 10 ^ digits)).map (digitNat ∘ Char.toUInt8)) =
          value % 10 ^ digits := by
      rw [← List.map_map]
      exact bytesValue_zeroPadded _ _
    rw [← numeralValue_append_zeros (by decide) _ _ k, ← hbytes, numeralValue, hint, hpadded,
      List.length_map, length_zeroPadded hpos hmod, Nat.cast_ofNat]
    have hdiv := Nat.div_add_mod value (10 ^ digits)
    have hne : (10 : ℚ) ^ digits ≠ 0 := pow_ne_zero _ (by norm_num)
    rw [eq_div_iff hne, add_mul, div_mul_cancel₀ _ hne]
    conv_rhs => rw [← hdiv]
    push_cast
    ring

/-- **The numeral that is written has no zeros that do not count.** -/
theorem isShortest_shown (value digits : ℕ) :
    IsShortest 10 ((digitBytes (value / 10 ^ digits)).map digitNat)
      ((fractionBytes value digits).map digitNat) where
  int_lt := digitNat_lt_of_allDigits (allDigits_digitBytes _)
  frac_lt := digitNat_lt_of_allDigits (allDigits_fractionBytes _ _)
  int_length k hk hlt := by
    have hvalue := bytesValue_digitBytes (value / 10 ^ digits)
    rw [bytesValue] at hvalue
    rw [List.length_map]
    exact length_digitBytes_le hk (hvalue ▸ hlt)
  int_ne_nil := by
    rw [ne_eq, List.map_eq_nil_iff]
    exact digitBytes_ne_nil _
  frac_last := by
    rw [fractionBytes, List.map_map, List.getLast?_map]
    intro h
    obtain ⟨c, hc, hzero⟩ := Option.map_eq_some_iff.mp h
    have hdigit := isDigit_of_mem_fraction (List.mem_of_getLast? hc)
    exact getLast?_trimZeros _ (eq_zero_of_digitNat hdigit hzero ▸ hc)

/-! ### The text -/

/-- A numeral as it is written: without a point if nothing is behind it. -/
def shownText (int : ℕ) (frac : List Char) : String :=
  if frac = [] then Nat.repr int else Nat.repr int ++ "." ++ String.ofList frac

/-- The bytes of a numeral as it is written. -/
theorem asBytes_shownText {int : ℕ} {frac : List Char} (hfrac : ∀ c ∈ frac, c.isDigit = true) :
    asBytes (shownText int frac) =
      if frac = [] then digitBytes int else digitBytes int ++ 46 :: frac.map Char.toUInt8 := by
  have hint : ∀ c ∈ Nat.toDigits 10 int, c.val ≤ 127 := fun c hc =>
    (ascii_of_isDigit (Nat.isDigit_of_mem_toDigits (by decide) (by decide) hc)).1
  rw [shownText, Nat.repr_eq_ofList_toDigits]
  split
  · exact toUTF8_ofList hint
  · have htext : String.ofList (Nat.toDigits 10 int) ++ "." ++ String.ofList frac =
        String.ofList (Nat.toDigits 10 int ++ '.' :: frac) := by
      have hpoint : "." = String.ofList ['.'] := rfl
      rw [hpoint, ← String.ofList_append, ← String.ofList_append, List.append_assoc]
      rfl
    rw [htext, asBytes, toUTF8_ofList]
    · rw [List.map_append, List.map_cons]
      rfl
    · intro c hc
      rcases List.mem_append.mp hc with hc | hc
      · exact hint c hc
      · rcases List.mem_cons.mp hc with rfl | hc
        · decide
        · exact (ascii_of_isDigit (hfrac c hc)).1

/-- A word of 128 bits holds thirty-eight decimal digits. -/
theorem pow10_lt_u128Size_iff : 10 ^ digits < u128Size ↔ digits ≤ 38 := by
  have hlt : 10 ^ 38 < u128Size := by decide
  have hle : u128Size ≤ 10 ^ 39 := by decide
  constructor
  · intro h
    by_contra hn
    have := Nat.pow_le_pow_right (n := 10) (by decide) (show 39 ≤ digits by omega)
    omega
  · intro hn
    have := Nat.pow_le_pow_right (n := 10) (by decide) hn
    omega

/-- **What `fmt_scaled` writes**, in any build. -/
theorem fmtScaled_eq (hdigits : digits ≤ 38) :
    fmtScaled π value digits =
      .ok (shownText (value / 10 ^ digits) (fraction value digits)) := by
  unfold fmtScaled
  split
  · subst digits
    have hfrac : fraction value 0 = [] := by
      rw [fraction, Nat.pow_zero, Nat.mod_one]
      rfl
    rw [hfrac, shownText, if_pos rfl, Nat.pow_zero, Nat.div_one]
  · have hscale : π.powTenU128 digits = .ok (10 ^ digits) :=
      if_pos (pow10_lt_u128Size_iff.mpr hdigits)
    have hne : (10 : ℕ) ^ digits ≠ 0 := by positivity
    rw [hscale]
    show (if 10 ^ digits = 0 then _ else _) = _
    rw [if_neg hne]
    show (if fraction value digits = [] then _ else _) = _
    rw [shownText]
    split <;> rfl

end L4Book
