import L4Book.Refinement.FixedPoint
import Mathlib.Data.List.TakeWhile

/-!
# Decimal strings as scaled integers

`parse_fixed` turns prices and sizes into integers. On a decimal numeral it is exact, down to the
truncation, and it refuses exactly what does not fit a `u64`. It also accepts some strings that are
not numerals: a plus sign is let through by the integer parser of the standard library, and whatever
follows the fractional digits that count is not looked at.

## Main definitions

* `WritesNumeral`, `IsNumeral`: decimal numerals
* `decimalValue`: the number a numeral denotes
* `LaxNumeral`: the other strings that are accepted

## Main results

* `parseFixed_exact`
* `acceptsNumerals_iff`
-/

namespace L4Book

variable {bs int frac rest l r : List UInt8} {s : String} {scaleDigits : ℕ}

/-- The text is a decimal numeral with these digits: one or more, and after a point any number of
them. -/
structure WritesNumeral (bs int frac : List UInt8) : Prop where
  ne_nil : int ≠ []
  int_digits : AllDigits int
  frac_digits : AllDigits frac
  text : (bs = int ∧ frac = []) ∨ bs = int ++ 46 :: frac

/-- The string is a decimal numeral. -/
def IsNumeral (s : String) : Prop := ∃ int frac, WritesNumeral (asBytes s) int frac

/-- The number that the digits before and after the point denote. -/
def decimalValue (int frac : List UInt8) : ℚ :=
  numeralValue 10 (int.map digitNat) (frac.map digitNat)

/-- A numeral that is written carelessly: with a plus sign in front, or with something else behind
the fractional digits that count. It denotes a number that fits all the same. -/
structure LaxNumeral (bs plus int frac rest : List UInt8) (scaleDigits : ℕ) : Prop where
  plus_eq : plus = [] ∨ plus = [43]
  ne_nil : int ≠ []
  int_digits : AllDigits int
  frac_digits : AllDigits frac
  text : (bs = plus ++ int ∧ frac = [] ∧ rest = []) ∨ bs = plus ++ int ++ 46 :: (frac ++ rest)
  /-- Nothing is overlooked before all the digits that count have been read. -/
  overlooked : rest ≠ [] → frac.length = scaleDigits
  careless : plus ≠ [] ∨ ¬ AllDigits rest
  scale : scaleDigits ≤ 19
  fits : ⌊decimalValue int frac * 10 ^ scaleDigits⌋₊ < UInt64.size

/-! ### The point -/

theorem splitAtPoint_of_not_mem (h : (46 : UInt8) ∉ l) : splitAtPoint l = (l, []) := by
  have hall : ∀ b ∈ l, decide (b ≠ 46) = true := fun b hb =>
    decide_eq_true fun heq => h (heq ▸ hb)
  rw [splitAtPoint, List.takeWhile_eq_self_iff.mpr hall, List.dropWhile_eq_nil_iff.mpr hall]
  rfl

theorem splitAtPoint_append (h : (46 : UInt8) ∉ l) : splitAtPoint (l ++ 46 :: r) = (l, r) := by
  have hall : ∀ b ∈ l, decide (b ≠ 46) = true := fun b hb =>
    decide_eq_true fun heq => h (heq ▸ hb)
  rw [splitAtPoint, List.takeWhile_append_of_pos hall, List.dropWhile_append_of_pos hall]
  simp

/-- A text has no point, or a first one. -/
theorem exists_point (bs : List UInt8) :
    ((splitAtPoint bs).1 = bs ∧ (splitAtPoint bs).2 = []) ∨
      bs = (splitAtPoint bs).1 ++ 46 :: (splitAtPoint bs).2 := by
  by_cases hmem : (46 : UInt8) ∈ bs
  · obtain ⟨l, r, rfl, hl⟩ := List.eq_append_cons_of_mem hmem
    rw [splitAtPoint_append hl]
    exact Or.inr rfl
  · rw [splitAtPoint_of_not_mem hmem]
    exact Or.inl ⟨rfl, rfl⟩

theorem AllDigits.not_mem (h : AllDigits l) {c : UInt8} (hc : isAsciiDigit c = false) : c ∉ l :=
  fun hmem => Bool.false_ne_true (hc.symm.trans (h c hmem))

theorem AllDigits.stripPlus_eq (h : AllDigits l) : stripPlus l = l := by
  cases l with
  | nil => rfl
  | cons c cs =>
    refine stripPlus_of_ne ?_
    rintro rfl
    exact h.not_mem (by decide) List.mem_cons_self

theorem WritesNumeral.splitAtPoint_eq (h : WritesNumeral bs int frac) :
    splitAtPoint bs = (int, frac) := by
  have hpoint : (46 : UInt8) ∉ int := h.int_digits.not_mem (by decide)
  rcases h.text with ⟨rfl, rfl⟩ | rfl
  · exact splitAtPoint_of_not_mem hpoint
  · exact splitAtPoint_append hpoint

/-- Whether a string is a numeral can be read off its two parts. -/
theorem isNumeral_iff : IsNumeral s ↔ (splitAtPoint (asBytes s)).1 ≠ [] ∧
    AllDigits (splitAtPoint (asBytes s)).1 ∧ AllDigits (splitAtPoint (asBytes s)).2 := by
  constructor
  · rintro ⟨int, frac, h⟩
    rw [h.splitAtPoint_eq]
    exact ⟨h.ne_nil, h.int_digits, h.frac_digits⟩
  · rintro ⟨hne, hint, hfrac⟩
    refine ⟨_, _, hne, hint, hfrac, ?_⟩
    rcases exists_point (asBytes s) with ⟨hl, hr⟩ | hbs
    · exact Or.inl ⟨hl.symm, hr⟩
    · exact Or.inr hbs

instance : DecidablePred IsNumeral := fun _ => decidable_of_iff _ isNumeral_iff.symm

/-! ### Numerals -/

/-- The scaled value is the number, scaled and rounded down. -/
theorem floor_decimalValue (int : List UInt8) (hfrac : AllDigits frac) (scaleDigits : ℕ) :
    ⌊decimalValue int frac * 10 ^ scaleDigits⌋₊ =
      bytesValue int * 10 ^ scaleDigits +
        bytesValue (frac.take scaleDigits) * 10 ^ (scaleDigits - frac.length) := by
  have hfloor := floor_numeralValue_mul_pow (by decide) (int.map digitNat)
    (digitNat_lt_of_allDigits hfrac) scaleDigits
  rwa [← List.map_take, List.length_map, Nat.cast_ofNat] at hfloor

/-- On a numeral, the parser is one checked conversion. -/
theorem WritesNumeral.parseFixed_eq (h : WritesNumeral (asBytes s) int frac)
    (hscale : scaleDigits ≤ 19) :
    parseFixed s scaleDigits = checked ⌊decimalValue int frac * 10 ^ scaleDigits⌋₊ := by
  have hsplit := h.splitAtPoint_eq
  have hreadable : Readable (asBytes s) scaleDigits := by
    constructor
    case ne_nil => rw [hsplit, h.int_digits.stripPlus_eq]; exact h.ne_nil
    case int => rw [hsplit, h.int_digits.stripPlus_eq]; exact h.int_digits
    case frac => rw [hsplit]; exact fun b hb => h.frac_digits b (List.mem_of_mem_take hb)
    case scale => exact hscale
  have hvalue : scaledValue (asBytes s) scaleDigits =
      ⌊decimalValue int frac * 10 ^ scaleDigits⌋₊ := by
    rw [scaledValue, hsplit, h.int_digits.stripPlus_eq, floor_decimalValue int h.frac_digits]
  rw [L4Book.parseFixed_eq, if_pos hreadable, hvalue]

/-- **`parse_fixed` is exact on decimal numerals**, and no build sees an operator wrap. -/
theorem parseFixed_exact (h : WritesNumeral (asBytes s) int frac) (hscale : scaleDigits ≤ 19) :
    parseFixed s scaleDigits =
        (if ⌊decimalValue int frac * 10 ^ scaleDigits⌋₊ < UInt64.size
          then some (UInt64.ofNat ⌊decimalValue int frac * 10 ^ scaleDigits⌋₊)
          else none) ∧
      ∀ π, parseFixedIn π s scaleDigits = .ok (parseFixed s scaleDigits) :=
  ⟨h.parseFixed_eq hscale, fun _ => parseFixedIn_eq s scaleDigits⟩

/-- The largest word with six fractional digits behind it, and a seventh. -/
theorem parseFixed_exact_sample :
    parseFixed "18446744073709.5516159" 6 = some 18446744073709551615 := by
  have hwrites : WritesNumeral (asBytes "18446744073709.5516159") (asBytes "18446744073709")
      (asBytes "5516159") :=
    ⟨by decide, by decide +kernel, by decide +kernel, Or.inr (by decide +kernel)⟩
  have hfloor := floor_decimalValue (asBytes "18446744073709") hwrites.frac_digits 6
  rw [(parseFixed_exact hwrites (by decide)).1, hfloor]
  decide

/-! ### Strings that are not numerals -/

/-- The parts of a careless numeral, as the parser splits it. -/
theorem LaxNumeral.splitAtPoint_eq {plus : List UInt8}
    (h : LaxNumeral bs plus int frac rest scaleDigits) :
    splitAtPoint bs = (plus ++ int, frac ++ rest) ∧ stripPlus (plus ++ int) = int := by
  have hpoint : (46 : UInt8) ∉ plus ++ int := by
    rw [List.mem_append, not_or]
    refine ⟨?_, h.int_digits.not_mem (by decide)⟩
    rcases h.plus_eq with rfl | rfl <;> decide
  constructor
  · rcases h.text with ⟨rfl, rfl, rfl⟩ | rfl
    · exact splitAtPoint_of_not_mem hpoint
    · exact splitAtPoint_append hpoint
  · rcases h.plus_eq with rfl | rfl
    · exact h.int_digits.stripPlus_eq
    · rfl

/-- **A careless numeral is accepted.** -/
theorem LaxNumeral.accepted {plus : List UInt8}
    (h : LaxNumeral (asBytes s) plus int frac rest scaleDigits) :
    (parseFixed s scaleDigits).isSome = true ∧ ¬ IsNumeral s := by
  obtain ⟨hsplit, hstrip⟩ := h.splitAtPoint_eq
  have htake : (frac ++ rest).take scaleDigits = frac.take scaleDigits := by
    by_cases hrest : rest = []
    · rw [hrest, List.append_nil]
    · rw [← h.overlooked hrest, List.take_left, List.take_length]
  have hmissing : scaleDigits - (frac ++ rest).length = scaleDigits - frac.length := by
    by_cases hrest : rest = []
    · rw [hrest, List.append_nil]
    · have := h.overlooked hrest
      rw [List.length_append]
      omega
  have hreadable : Readable (asBytes s) scaleDigits := by
    constructor
    case ne_nil => rw [hsplit, hstrip]; exact h.ne_nil
    case int => rw [hsplit, hstrip]; exact h.int_digits
    case frac => rw [hsplit, htake]; exact fun b hb => h.frac_digits b (List.mem_of_mem_take hb)
    case scale => exact h.scale
  have hvalue : scaledValue (asBytes s) scaleDigits =
      ⌊decimalValue int frac * 10 ^ scaleDigits⌋₊ := by
    rw [scaledValue, hsplit, hstrip, htake, hmissing, floor_decimalValue int h.frac_digits]
  constructor
  · rw [parseFixed_eq, if_pos hreadable, hvalue, checked_isSome]
    exact h.fits
  · rw [isNumeral_iff, hsplit]
    rintro ⟨-, hint, hfrac⟩
    rcases h.careless with hplus | hrest
    · obtain rfl := h.plus_eq.resolve_left hplus
      exact hint.not_mem (c := 43) (by decide) List.mem_cons_self
    · exact hrest fun b hb => hfrac b (List.mem_append_right _ hb)

theorem exists_plus (bs : List UInt8) :
    ∃ plus, (plus = [] ∨ plus = [43]) ∧ bs = plus ++ stripPlus bs := by
  unfold stripPlus
  split
  · exact ⟨[43], Or.inr rfl, rfl⟩
  · exact ⟨[], Or.inl rfl, rfl⟩

/-- Whatever else is accepted is a numeral. -/
theorem isNumeral_or_lax (h : (parseFixed s scaleDigits).isSome = true) :
    IsNumeral s ∨ ∃ plus int frac rest, LaxNumeral (asBytes s) plus int frac rest scaleDigits := by
  rw [parseFixed_eq] at h
  split at h
  case isFalse => cases h
  case isTrue hreadable =>
    rw [checked_isSome, scaledValue] at h
    refine or_iff_not_imp_left.mpr fun hnot => ?_
    obtain ⟨hne, hint, hfrac, hscale⟩ := hreadable
    obtain ⟨plus, hplus, hsplit⟩ := exists_plus (splitAtPoint (asBytes s)).1
    have htext := exists_point (asBytes s)
    by_cases hall : AllDigits (splitAtPoint (asBytes s)).2
    · -- all digits, so that only the sign can be wrong
      refine ⟨plus, _, _, [], hplus, hne, hint, hall, ?_, fun hrest => absurd rfl hrest,
        Or.inl fun hnil => hnot (isNumeral_iff.mpr ?_), hscale, floor_decimalValue _ hall _ ▸ h⟩
      · rw [List.append_nil, ← hsplit]
        exact htext.imp_left fun ⟨hl, hr⟩ => ⟨hl.symm, hr, rfl⟩
      · rw [hnil, List.nil_append] at hsplit
        rw [hsplit]
        exact ⟨hne, hint, hall⟩
    · -- something behind the digits that count
      have hdrop : ¬ AllDigits ((splitAtPoint (asBytes s)).2.drop scaleDigits) := by
        intro hrest
        refine hall fun b hb => ?_
        rw [← List.take_append_drop scaleDigits (splitAtPoint (asBytes s)).2, List.mem_append] at hb
        exact hb.elim (hfrac b) (hrest b)
      have hfloor := floor_decimalValue (stripPlus (splitAtPoint (asBytes s)).1) hfrac
        scaleDigits
      have hmissing : scaleDigits - min scaleDigits (splitAtPoint (asBytes s)).2.length =
          scaleDigits - (splitAtPoint (asBytes s)).2.length := by omega
      rw [List.take_take, Nat.min_self, List.length_take, hmissing] at hfloor
      refine ⟨plus, _, _, _, hplus, hne, hint, hfrac, Or.inr ?_, fun hrest => ?_, Or.inr hdrop,
        hscale, hfloor ▸ h⟩
      · rw [List.take_append_drop, ← hsplit]
        refine htext.resolve_left fun hnil => hall ?_
        rw [hnil.2]
        exact allDigits_nil
      · have := List.length_pos_iff.mpr hrest
        rw [List.length_drop] at this
        exact List.length_take_of_le (by omega)

/-- **`parse_fixed` accepts a string that is not a numeral exactly when it is a careless one.** -/
theorem acceptsNumerals_iff (s : String) (scaleDigits : ℕ) :
    ((parseFixed s scaleDigits).isSome = true → IsNumeral s) ↔
      ¬ ∃ plus int frac rest, LaxNumeral (asBytes s) plus int frac rest scaleDigits := by
  constructor
  · rintro haccepts ⟨plus, int, frac, rest, hlax⟩
    exact hlax.accepted.2 (haccepts hlax.accepted.1)
  · exact fun hlax haccepted => (isNumeral_or_lax haccepted).resolve_right hlax

/-- A plus sign, and a letter behind the sixth fractional digit. -/
theorem not_forall_acceptsNumerals :
    ¬ ((parseFixed "+1" 6).isSome = true → IsNumeral "+1") ∧
      ¬ ((parseFixed "1.123456x" 6).isSome = true → IsNumeral "1.123456x") := by
  decide +kernel

end L4Book
