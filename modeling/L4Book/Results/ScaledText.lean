import L4Book.Refinement.ScaledText
import L4Book.Results.FixedPoint

/-!
# Scaled integers as decimal strings

`fmt_scaled` is what the clients show prices and sizes with, and `parse_fixed` reads them from the
feed. The text is the shortest numeral of the number shown, and the parser gets the scaled integer
back from it. With too many digits the scale does not fit: a dev build panics, and a release build
shows something else, until the scale wraps to zero and it panics as well.

## Main results

* `scaledText_exact`: the text is the shortest numeral, and it is read back
* `sameText_iff`: two texts agree when the numbers do
* `fmtScaled_panics_iff`
-/

namespace L4Book

variable {π : Profile} {s t : String} {value value' digits digits' : ℕ} {int frac : List UInt8}

/-- The text is a numeral. -/
theorem writesNumeral_shownText (value digits : ℕ) :
    WritesNumeral (asBytes (shownText (value / 10 ^ digits) (fraction value digits)))
      (digitBytes (value / 10 ^ digits)) (fractionBytes value digits) where
  ne_nil := digitBytes_ne_nil _
  int_digits := allDigits_digitBytes _
  frac_digits := allDigits_fractionBytes _ _
  text := by
    rw [asBytes_shownText fun _ => isDigit_of_mem_fraction]
    split
    case isTrue hnil => exact Or.inl ⟨rfl, by rw [fractionBytes, hnil, List.map_nil]⟩
    case isFalse => exact Or.inr rfl

/-- A numeral is as long as its digits, and the point if there is one. -/
theorem WritesNumeral.length_le {bs int' frac' : List UInt8} (h : WritesNumeral bs int' frac')
    (hint : int.length ≤ int'.length) (hfrac : frac.length ≤ frac'.length) :
    (if frac = [] then int else int ++ 46 :: frac).length ≤ bs.length := by
  have hlen : int'.length + frac'.length + (if frac' = [] then 0 else 1) ≤ bs.length := by
    rcases h.text with ⟨rfl, rfl⟩ | rfl
    · simp
    · rw [List.length_append, List.length_cons]
      split <;> omega
  split
  · omega
  · next hne =>
    have hpos := List.length_pos_iff.mpr hne
    rw [if_neg (List.length_pos_iff.mp (by omega))] at hlen
    rw [List.length_append, List.length_cons]
    omega

/-- **No numeral of the number shown is shorter than the text.** -/
theorem length_shownText_le {int' frac' : List UInt8} (ht : WritesNumeral (asBytes t) int' frac')
    (hvalue : decimalValue int' frac' = (value : ℚ) / 10 ^ digits) :
    (asBytes (shownText (value / 10 ^ digits) (fraction value digits))).length ≤
      (asBytes t).length := by
  have hint' : int'.map digitNat ≠ [] := by
    rw [ne_eq, List.map_eq_nil_iff]
    exact ht.ne_nil
  have hle := (isShortest_shown value digits).length_le (by decide) hint'
    (digitNat_lt_of_allDigits ht.int_digits) (digitNat_lt_of_allDigits ht.frac_digits)
    (hvalue.trans (numeralValue_shown value digits).symm)
  simp only [List.length_map] at hle
  have hnil : fraction value digits = [] ↔ fractionBytes value digits = [] := by
    rw [fractionBytes, List.map_eq_nil_iff]
  have hlen := ht.length_le hle.1 hle.2
  rw [asBytes_shownText fun _ => isDigit_of_mem_fraction]
  simp only [hnil]
  exact hlen

/-- **The parser reads back what was shown**, if it takes so many digits at all. -/
theorem parseFixed_shownText (v : UInt64) (digits : ℕ) :
    parseFixed (shownText (v.toNat / 10 ^ digits) (fraction v.toNat digits)) digits =
      if digits ≤ 19 then some v else none := by
  split
  case isTrue hscale =>
    have hvalue : decimalValue (digitBytes (v.toNat / 10 ^ digits))
        (fractionBytes v.toNat digits) * 10 ^ digits = (v.toNat : ℚ) := by
      rw [decimalValue, numeralValue_shown, div_mul_cancel₀]
      exact pow_ne_zero _ (by norm_num)
    rw [(writesNumeral_shownText v.toNat digits).parseFixed_eq hscale, hvalue, Nat.floor_natCast,
      checked_of_lt v.toNat_lt_size, UInt64.ofNat_toNat]
  case isFalse hscale =>
    rw [parseFixed_eq, if_neg fun h => hscale h.scale]

/-- **A scaled integer is shown by the shortest numeral of its value, and read back from it.** In
every build that is so, with up to the thirty-eight digits that a scale can have. -/
theorem scaledText_exact (value : ℕ) (hdigits : digits ≤ 38) :
    ∃ s int frac, (∀ π, fmtScaled π value digits = .ok s) ∧
      WritesNumeral (asBytes s) int frac ∧ decimalValue int frac = value / 10 ^ digits ∧
      (∀ t int' frac', WritesNumeral (asBytes t) int' frac' →
        decimalValue int' frac' = value / 10 ^ digits →
          (asBytes s).length ≤ (asBytes t).length) ∧
      ∀ v : UInt64, v.toNat = value →
        parseFixed s digits = if digits ≤ 19 then some v else none := by
  refine ⟨_, _, _, fun π => fmtScaled_eq hdigits, writesNumeral_shownText value digits,
    numeralValue_shown value digits, fun t _ _ ht hvalue => length_shownText_le ht hvalue, ?_⟩
  rintro v rfl
  exact parseFixed_shownText v digits

/-- A price of `xyz:SP500`. -/
theorem scaledText_exact_sample : fmtScaled .dev 6012500000 6 = .ok "6012.5" ∧
    parseFixed "6012.5" 6 = some 6012500000 := by
  obtain ⟨s, int, frac, htext, -, -, -, hread⟩ :=
    scaledText_exact 6012500000 (show 6 ≤ 38 by decide)
  have hs : fmtScaled .dev 6012500000 6 = .ok "6012.5" := by decide +kernel
  have heq : s = "6012.5" := Except.ok.inj ((htext .dev).symm.trans hs)
  exact ⟨hs, heq ▸ hread 6012500000 rfl⟩

/-! ### Texts and numbers -/

/-- A digit is determined by its value. -/
theorem AllDigits.map_digitNat {l : List UInt8} (h : AllDigits l) :
    (l.map digitNat).map (fun d => UInt8.ofNat (d + 48)) = l := by
  rw [List.map_map]
  conv_rhs => rw [← List.map_id l]
  refine List.map_congr_left fun c hc => ?_
  have hdigit := isAsciiDigit_iff.mp (h c hc)
  have hcode : digitNat c + 48 = c.toNat := by
    unfold digitNat
    omega
  show UInt8.ofNat (digitNat c + 48) = c
  rw [hcode, UInt8.ofNat_toNat]

theorem AllDigits.eq_of_map_digitNat {l r : List UInt8} (hl : AllDigits l) (hr : AllDigits r)
    (h : l.map digitNat = r.map digitNat) : l = r := by
  rw [← hl.map_digitNat, h, hr.map_digitNat]

/-- The parts of a numeral are determined by its text. -/
theorem WritesNumeral.unique {bs int' frac' : List UInt8} (h : WritesNumeral bs int frac)
    (h' : WritesNumeral bs int' frac') : int = int' ∧ frac = frac' :=
  Prod.mk.inj (h.splitAtPoint_eq.symm.trans h'.splitAtPoint_eq)

/-- **Two texts agree exactly when the numbers do**, whatever the scales and the builds. -/
theorem sameText_iff (π π' : Profile) (value value' : ℕ) (hdigits : digits ≤ 38)
    (hdigits' : digits' ≤ 38) :
    fmtScaled π value digits = fmtScaled π' value' digits' ↔
      (value : ℚ) / 10 ^ digits = value' / 10 ^ digits' := by
  rw [fmtScaled_eq hdigits, fmtScaled_eq hdigits', Except.ok.injEq]
  constructor
  · intro h
    have hwrites := writesNumeral_shownText value digits
    rw [h] at hwrites
    obtain ⟨hint, hfrac⟩ := hwrites.unique (writesNumeral_shownText value' digits')
    rw [← numeralValue_shown value digits, ← numeralValue_shown value' digits', hint, hfrac]
  · intro h
    rw [← numeralValue_shown value digits, ← numeralValue_shown value' digits'] at h
    obtain ⟨hint, hfrac⟩ :=
      (isShortest_shown value digits).unique (isShortest_shown value' digits') (by decide) h
    have hint := (allDigits_digitBytes _).eq_of_map_digitNat (allDigits_digitBytes _) hint
    have hfrac :=
      (allDigits_fractionBytes _ _).eq_of_map_digitNat (allDigits_fractionBytes _ _) hfrac
    refine eq_of_toUTF8_eq ?_
    have hnil : ∀ v d, fraction v d = [] ↔ fractionBytes v d = [] := fun v d => by
      rw [fractionBytes, List.map_eq_nil_iff]
    have hbytes : ∀ v d, asBytes (shownText (v / 10 ^ d) (fraction v d)) =
        if fractionBytes v d = [] then digitBytes (v / 10 ^ d)
        else digitBytes (v / 10 ^ d) ++ 46 :: fractionBytes v d := fun v d => by
      rw [asBytes_shownText fun _ => isDigit_of_mem_fraction]
      simp only [hnil]
      rfl
    exact (hbytes value digits).trans (by rw [hint, hfrac, ← hbytes value' digits']; rfl)

/-- A price in dollars, and the same price in cents of a cent. -/
theorem sameText_iff_sample : fmtScaled .dev 60125 1 = fmtScaled .release 60125000 4 :=
  (sameText_iff .dev .release 60125 60125000 (show 1 ≤ 38 by decide) (show 4 ≤ 38 by decide)).mpr
    (by norm_num)

/-! ### Scales that do not fit -/

/-- A power of ten wraps to zero when it has a factor `2 ^ 128`. -/
theorem pow10_mod_u128Size_eq_zero_iff : 10 ^ digits % u128Size = 0 ↔ 128 ≤ digits := by
  have hfactor : (10 : ℕ) ^ digits = 2 ^ digits * 5 ^ digits := by
    rw [← Nat.mul_pow]
  have hcoprime : Nat.Coprime u128Size (5 ^ digits) :=
    Nat.Coprime.pow 128 digits (by decide)
  rw [← Nat.dvd_iff_mod_eq_zero, hfactor, hcoprime.dvd_mul_right]
  exact Nat.pow_dvd_pow_iff_le_right (by decide)

/-- **When `fmt_scaled` panics**: at a scale that overflows, or that has wrapped to zero. -/
theorem fmtScaled_panics_iff :
    (∃ e, fmtScaled π value digits = .error e) ↔ (π = .dev ∧ 38 < digits) ∨ 128 ≤ digits := by
  by_cases hdigits : digits ≤ 38
  · rw [fmtScaled_eq hdigits]
    constructor
    · rintro ⟨e, he⟩
      cases he
    · omega
  · have hpow : ¬ 10 ^ digits < u128Size := mt pow10_lt_u128Size_iff.mp hdigits
    have hne : digits ≠ 0 := by omega
    rw [fmtScaled, if_neg hne, Profile.powTenU128, if_neg hpow]
    cases π with
    | dev => exact iff_of_true ⟨_, rfl⟩ (Or.inl ⟨rfl, by omega⟩)
    | release =>
      by_cases hwrap : 10 ^ digits % u128Size = 0
      · refine iff_of_true ⟨.divideByZero, ?_⟩ (Or.inr (pow10_mod_u128Size_eq_zero_iff.mp hwrap))
        simp only [reduceCtorEq, if_false]
        exact if_pos hwrap
      · refine iff_of_false ?_ ?_
        · rintro ⟨e, he⟩
          simp only [reduceCtorEq, if_false] at he
          have hgo := (if_neg hwrap).symm.trans he
          split at hgo <;> cases hgo
        · rintro (⟨hdev, -⟩ | hle)
          · cases hdev
          · exact hwrap (pow10_mod_u128Size_eq_zero_iff.mpr hle)

end L4Book
