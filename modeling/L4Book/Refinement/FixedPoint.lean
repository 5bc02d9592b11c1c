import L4Book.Foundation.Decimal
import L4Book.Wire

/-!
# What `parse_fixed` reads

The parser is an integer parser, a digit loop and a padding loop, joined by checked operators. Each
of them is a value that fits a word or nothing, so the whole is one formula: the integer part and as
many fractional digits as count, scaled, if they are digits and the result fits.

## Main definitions

* `checked`: a natural number as a word, if it fits
* `bytesValue`: the value of a text of digits
* `Readable`, `scaledValue`: what the parser looks at, and what it makes of it

## Main results

* `parseDigits_eq`, `fracLoop_eq`, `padLoop_eq`: the loops
* `parseFixed_eq`
* `parseFixedIn_eq`: no plain operator wraps
-/

namespace L4Book

variable {π : Profile} {a b : UInt64} {c : UInt8} {bs : List UInt8} {n scaleDigits digits : ℕ}

/-! ### Checked words -/

/-- A natural number as a word, if it fits. -/
def checked (n : ℕ) : Option UInt64 := if n < UInt64.size then some (UInt64.ofNat n) else none

theorem checked_of_lt (h : n < UInt64.size) : checked n = some (UInt64.ofNat n) := if_pos h

theorem checked_of_le (h : UInt64.size ≤ n) : checked n = none := if_neg (Nat.not_lt.mpr h)

theorem checked_isSome : (checked n).isSome = true ↔ n < UInt64.size := by
  unfold checked
  split <;> simp_all

theorem toNat_of_checked_eq_some (h : checked n = some a) : a.toNat = n := by
  unfold checked at h
  split at h
  · rw [← Option.some.inj h, UInt64.toNat_ofNat_of_lt' (by assumption)]
  · cases h

/-- **Sequencing**: going on with a word, where a number that does not fit leads nowhere anyway. -/
theorem checked_bind {α : Type} {f : UInt64 → Option α} {g : ℕ → Option α}
    (h : ∀ a, f a = g a.toNat) (hbig : UInt64.size ≤ n → g n = none) :
    (checked n >>= f) = g n := by
  by_cases hn : n < UInt64.size
  · rw [checked_of_lt hn]
    exact (h _).trans (congrArg g (UInt64.toNat_ofNat_of_lt' hn))
  · rw [checked_of_le (Nat.le_of_not_lt hn), hbig (Nat.le_of_not_lt hn)]
    rfl

theorem checkedMul_eq (a b : UInt64) : checkedMul a b = checked (a.toNat * b.toNat) := by
  have hmul : a * b = UInt64.ofNat (a.toNat * b.toNat) := by simp
  rw [checkedMul, checked, hmul]

theorem checkedAdd_eq (a b : UInt64) : checkedAdd a b = checked (a.toNat + b.toNat) := by
  have hadd : a + b = UInt64.ofNat (a.toNat + b.toNat) := by simp
  rw [checkedAdd, checked, hadd]

theorem checkedPow10_eq (n : ℕ) : checkedPow10 n = checked (10 ^ n) := rfl

/-- A word holds nineteen decimal digits. -/
theorem pow10_lt_size_iff : 10 ^ n < UInt64.size ↔ n ≤ 19 := by
  have hlt : 10 ^ 19 < UInt64.size := by decide
  have hle : UInt64.size ≤ 10 ^ 20 := by decide
  constructor
  · intro h
    by_contra hn
    have := Nat.pow_le_pow_right (n := 10) (by decide) (show 20 ≤ n by omega)
    omega
  · intro hn
    have := Nat.pow_le_pow_right (n := 10) (by decide) hn
    omega

/-! ### Digits -/

/-- The text consists of ASCII digits. -/
def AllDigits (bs : List UInt8) : Prop := ∀ b ∈ bs, isAsciiDigit b = true

instance : DecidablePred AllDigits := fun bs =>
  inferInstanceAs (Decidable (∀ b ∈ bs, isAsciiDigit b = true))

/-- The value of an ASCII digit. -/
def digitNat (b : UInt8) : ℕ := b.toNat - 48

/-- The value of a text of digits. -/
def bytesValue (bs : List UInt8) : ℕ := digitsValue 10 (bs.map digitNat)

@[simp] theorem allDigits_nil : AllDigits [] := fun _ h => absurd h List.not_mem_nil

theorem allDigits_cons : AllDigits (c :: bs) ↔ isAsciiDigit c = true ∧ AllDigits bs :=
  List.forall_mem_cons

theorem isAsciiDigit_iff : isAsciiDigit c = true ↔ 48 ≤ c.toNat ∧ c.toNat ≤ 57 := by
  rw [isAsciiDigit, decide_eq_true_iff, UInt8.le_iff_toNat_le, UInt8.le_iff_toNat_le]
  rfl

theorem digitNat_lt (h : isAsciiDigit c = true) : digitNat c < 10 := by
  have := isAsciiDigit_iff.mp h
  unfold digitNat
  omega

theorem toNat_digitValue (h : isAsciiDigit c = true) : (digitValue c).toNat = digitNat c := by
  have hle : (48 : UInt8) ≤ c := UInt8.le_iff_toNat_le.mpr (isAsciiDigit_iff.mp h).1
  rw [digitValue, UInt8.toNat_toUInt64, UInt8.toNat_sub_of_le _ _ hle]
  rfl

@[simp] theorem bytesValue_nil : bytesValue [] = 0 := rfl

theorem bytesValue_cons : bytesValue (c :: bs) = digitNat c * 10 ^ bs.length + bytesValue bs := by
  rw [bytesValue, List.map_cons, digitsValue_cons, List.length_map]
  rfl

theorem digitNat_lt_of_allDigits (h : AllDigits bs) : ∀ d ∈ bs.map digitNat, d < 10 := by
  intro d hd
  obtain ⟨c, hc, rfl⟩ := List.mem_map.mp hd
  exact digitNat_lt (h c hc)

theorem bytesValue_lt (h : AllDigits bs) : bytesValue bs < 10 ^ bs.length := by
  rw [← List.length_map digitNat]
  exact digitsValue_lt (by decide) (digitNat_lt_of_allDigits h)

/-! ### The integer parser -/

/-- What a text makes of the number `m` read before it. -/
def readOn (bs : List UInt8) (m : ℕ) : Option UInt64 :=
  if AllDigits bs then checked (m * 10 ^ bs.length + bytesValue bs) else none

theorem readOn_cons (m : ℕ) : readOn (c :: bs) m =
    if isAsciiDigit c = true then readOn bs (m * 10 + digitNat c) else none := by
  have hvalue : m * 10 ^ (c :: bs).length + bytesValue (c :: bs) =
      (m * 10 + digitNat c) * 10 ^ bs.length + bytesValue bs := by
    rw [bytesValue_cons, List.length_cons, Nat.pow_succ]
    ring
  rw [readOn, hvalue]
  by_cases hc : isAsciiDigit c = true
  · simp only [allDigits_cons, hc, true_and, if_true]
    rfl
  · simp [allDigits_cons, hc]

/-- A number that is too large already stays so. -/
theorem readOn_of_le {m : ℕ} (hm : UInt64.size ≤ m) : readOn bs m = none := by
  have hgrow := Nat.le_mul_of_pos_right m (Nat.pow_pos (n := bs.length) (show 0 < 10 by decide))
  unfold readOn
  split
  · exact checked_of_le (by omega)
  · rfl

/-- **The digit loop of the integer parser** reads on behind its accumulator. -/
theorem parseDigits_eq (acc : UInt64) (bs : List UInt8) :
    parseDigits acc bs = readOn bs acc.toNat := by
  induction bs generalizing acc with
  | nil =>
    rw [parseDigits, readOn, if_pos allDigits_nil]
    simp [checked_of_lt acc.toNat_lt_size]
  | cons c bs ih =>
    rw [parseDigits, readOn_cons]
    by_cases hc : isAsciiDigit c = true
    · have hadd : ∀ a : UInt64, (checkedAdd a (digitValue c) >>= fun acc => parseDigits acc bs) =
          readOn bs (a.toNat + digitNat c) := by
        intro a
        rw [checkedAdd_eq, toNat_digitValue hc]
        exact checked_bind ih readOn_of_le
      rw [if_pos hc, if_pos hc, checkedMul_eq]
      exact checked_bind (g := fun m => readOn bs (m + digitNat c)) hadd fun hm =>
        readOn_of_le (Nat.le_add_right_of_le hm)
    · rw [if_neg hc, if_neg hc]

/-- The text behind a plus sign, if there is one. -/
def stripPlus : List UInt8 → List UInt8
  | 43 :: bs => bs
  | bs => bs

theorem stripPlus_of_ne (hc : c ≠ 43) : stripPlus (c :: bs) = c :: bs := by
  unfold stripPlus
  split
  · simp_all
  · rfl

/-- **The integer parser** reads a nonempty text of digits. -/
theorem parseU64_eq (bs : List UInt8) :
    parseU64 bs = if stripPlus bs = [] then none else readOn (stripPlus bs) 0 := by
  cases bs with
  | nil => rfl
  | cons c cs =>
    by_cases hc : c = 43
    · subst hc
      cases cs with
      | nil => rfl
      | cons d cs =>
        have hstrip : stripPlus (43 :: d :: cs) = d :: cs := rfl
        rw [hstrip, if_neg (List.cons_ne_nil d cs)]
        exact parseDigits_eq 0 (d :: cs)
    · have hparse : parseU64 (c :: cs) = parseDigits 0 (c :: cs) := by
        simp [parseU64, hc]
      rw [hparse, stripPlus_of_ne hc, if_neg (List.cons_ne_nil c cs)]
      exact parseDigits_eq 0 (c :: cs)

/-! ### The fractional part -/

/-- **Nineteen digits fit**: another digit behind fewer than that does not wrap. -/
theorem push_digit {frac : UInt64} (hdigits : digits < 19) (hfrac : frac.toNat < 10 ^ digits)
    (hc : isAsciiDigit c = true) :
    frac.toNat * 10 + digitNat c < 10 ^ (digits + 1) ∧
      frac.toNat * 10 + digitNat c < UInt64.size := by
  have hdigit := digitNat_lt hc
  have hfit : 10 ^ (digits + 1) < UInt64.size := pow10_lt_size_iff.mpr (by omega)
  rw [Nat.pow_succ] at hfit ⊢
  omega

theorem toNat_mul_ten {frac : UInt64} (hfit : frac.toNat * 10 + n < UInt64.size) :
    (frac * 10).toNat = frac.toNat * 10 := by
  rw [UInt64.toNat_mul]
  exact Nat.mod_eq_of_lt (Nat.lt_of_le_of_lt (Nat.le_add_right _ _) hfit)

theorem toNat_push_digit {frac : UInt64} (hdigits : digits < 19)
    (hfrac : frac.toNat < 10 ^ digits) (hc : isAsciiDigit c = true) :
    (frac * 10 + digitValue c).toNat = frac.toNat * 10 + digitNat c := by
  have hfit := (push_digit hdigits hfrac hc).2
  rw [UInt64.toNat_add, toNat_mul_ten hfit, toNat_digitValue hc]
  exact Nat.mod_eq_of_lt hfit

/-- **The digit loop of the fractional part** looks at the first digits that count. -/
theorem fracLoop_eq {frac : UInt64} (hscale : scaleDigits ≤ 19) (hdigits : digits ≤ scaleDigits)
    (hfrac : frac.toNat < 10 ^ digits) :
    fracLoop scaleDigits frac digits bs =
      if AllDigits (bs.take (scaleDigits - digits)) then
        some (UInt64.ofNat (frac.toNat * 10 ^ (bs.take (scaleDigits - digits)).length +
          bytesValue (bs.take (scaleDigits - digits))),
          digits + (bs.take (scaleDigits - digits)).length)
      else none := by
  induction bs generalizing frac digits with
  | nil => simp [fracLoop]
  | cons c bs ih =>
    rw [fracLoop]
    by_cases hfull : scaleDigits ≤ digits
    · simp [hfull, Nat.sub_eq_zero_of_le hfull]
    · obtain ⟨k, hk⟩ : ∃ k, scaleDigits - digits = k + 1 := ⟨scaleDigits - digits - 1, by omega⟩
      have hk' : scaleDigits - (digits + 1) = k := by omega
      rw [if_neg hfull, hk, List.take_succ_cons]
      by_cases hc : isAsciiDigit c = true
      · have hpush := (push_digit (by omega) hfrac hc).1
        have hword := toNat_push_digit (by omega) hfrac hc
        rw [if_pos hc, ih (by omega) (hword.symm ▸ hpush), hk', hword]
        simp only [allDigits_cons, hc, true_and, bytesValue_cons, List.length_cons]
        have hsum : (frac.toNat * 10 + digitNat c) * 10 ^ (bs.take k).length +
            bytesValue (bs.take k) = frac.toNat * 10 ^ ((bs.take k).length + 1) +
              (digitNat c * 10 ^ (bs.take k).length + bytesValue (bs.take k)) := by ring
        have hcount : digits + 1 + (bs.take k).length = digits + ((bs.take k).length + 1) := by
          omega
        rw [hsum, hcount]
      · rw [if_neg hc, if_neg fun h => hc (allDigits_cons.mp h).1]

/-- **The padding loop** appends zeros. -/
theorem padLoop_eq (frac : UInt64) (missing : ℕ) :
    padLoop frac missing = checked (frac.toNat * 10 ^ missing) := by
  induction missing generalizing frac with
  | zero => simp [padLoop, checked_of_lt frac.toNat_lt_size]
  | succ missing ih =>
    rw [padLoop, checkedMul_eq, Nat.pow_succ', ← Nat.mul_assoc]
    refine checked_bind (g := fun m => checked (m * 10 ^ missing)) ih fun hm => checked_of_le ?_
    exact Nat.le_trans hm (Nat.le_mul_of_pos_right _ (Nat.pow_pos (by decide)))

/-- Everything behind the integer part. -/
theorem fracPart_eq (hscale : scaleDigits ≤ 19) (out : UInt64) :
    (do
      let (frac, digits) ← fracLoop scaleDigits 0 0 bs
      let frac ← padLoop frac (scaleDigits - digits)
      checkedAdd out frac) =
      if AllDigits (bs.take scaleDigits) then
        checked (out.toNat + bytesValue (bs.take scaleDigits) * 10 ^ (scaleDigits - bs.length))
      else none := by
  rw [fracLoop_eq hscale (Nat.zero_le _) (by decide), Nat.sub_zero]
  by_cases hall : AllDigits (bs.take scaleDigits)
  · have hlength : (bs.take scaleDigits).length = min scaleDigits bs.length := List.length_take
    have hmissing : scaleDigits - (0 + (bs.take scaleDigits).length) = scaleDigits - bs.length := by
      omega
    have hlt := bytesValue_lt hall
    have hpow : 10 ^ (bs.take scaleDigits).length * 10 ^ (scaleDigits - bs.length) =
        10 ^ scaleDigits := by
      rw [← Nat.pow_add]
      congr 1
      omega
    have hfit : bytesValue (bs.take scaleDigits) * 10 ^ (scaleDigits - bs.length) <
        UInt64.size := by
      refine Nat.lt_trans ?_ (pow10_lt_size_iff.mpr hscale)
      rw [← hpow]
      exact Nat.mul_lt_mul_of_pos_right hlt (Nat.pow_pos (by decide))
    have hfit' : bytesValue (bs.take scaleDigits) < UInt64.size :=
      Nat.lt_of_le_of_lt (Nat.le_mul_of_pos_right _ (Nat.pow_pos (by decide))) hfit
    have hzero : (0 : UInt64).toNat * 10 ^ (bs.take scaleDigits).length +
        bytesValue (bs.take scaleDigits) = bytesValue (bs.take scaleDigits) := by simp
    rw [if_pos hall, if_pos hall, hzero]
    show (padLoop _ _ >>= fun frac => checkedAdd out frac) = _
    rw [hmissing, padLoop_eq, UInt64.toNat_ofNat_of_lt' hfit', checked_of_lt hfit]
    show checkedAdd out _ = _
    rw [checkedAdd_eq, UInt64.toNat_ofNat_of_lt' hfit]
  · rw [if_neg hall, if_neg hall]
    rfl

/-! ### The parser -/

/-- What the parser looks at is in order: the integer part, behind a plus sign at most, and the
fractional digits that count. -/
structure Readable (bs : List UInt8) (scaleDigits : ℕ) : Prop where
  ne_nil : stripPlus (splitAtPoint bs).1 ≠ []
  int : AllDigits (stripPlus (splitAtPoint bs).1)
  frac : AllDigits ((splitAtPoint bs).2.take scaleDigits)
  scale : scaleDigits ≤ 19

/-- What the parser makes of it. -/
def scaledValue (bs : List UInt8) (scaleDigits : ℕ) : ℕ :=
  bytesValue (stripPlus (splitAtPoint bs).1) * 10 ^ scaleDigits +
    bytesValue ((splitAtPoint bs).2.take scaleDigits) *
      10 ^ (scaleDigits - (splitAtPoint bs).2.length)

/-- A minus sign, or nothing at all, is not readable. -/
theorem not_readable_of_head (h : bs = [] ∨ bs.head? = some 45) : ¬ Readable bs scaleDigits := by
  rintro ⟨hne, hint, -, -⟩
  rcases h with rfl | hhead
  · exact hne rfl
  · obtain ⟨cs, rfl⟩ := List.head?_eq_some_iff.mp hhead
    have hsplit : stripPlus (splitAtPoint (45 :: cs)).1 = 45 :: cs.takeWhile (· ≠ 46) := by
      rw [splitAtPoint, List.takeWhile_cons, if_pos (by decide), stripPlus_of_ne (by decide)]
    rw [hsplit] at hint
    exact absurd (hint 45 List.mem_cons_self) (by decide)

/-- The parts of a text in order, joined by checked operators. -/
theorem joinParts_eq (hscale : scaleDigits ≤ 19) (int : ℕ) :
    (do
      let int ← checked int
      let scaleMul ← checkedPow10 scaleDigits
      let out ← checkedMul int scaleMul
      let (frac, digits) ← fracLoop scaleDigits 0 0 bs
      let frac ← padLoop frac (scaleDigits - digits)
      checkedAdd out frac) =
      if AllDigits (bs.take scaleDigits) then
        checked (int * 10 ^ scaleDigits +
          bytesValue (bs.take scaleDigits) * 10 ^ (scaleDigits - bs.length))
      else none := by
  have hbig : ∀ m, UInt64.size ≤ m → (if AllDigits (bs.take scaleDigits) then
      checked (m + bytesValue (bs.take scaleDigits) * 10 ^ (scaleDigits - bs.length))
      else none) = none := by
    intro m hm
    split
    · exact checked_of_le (Nat.le_add_right_of_le hm)
    · rfl
  have hpow := pow10_lt_size_iff.mpr hscale
  refine checked_bind (g := fun m => if AllDigits (bs.take scaleDigits) then
    checked (m * 10 ^ scaleDigits +
      bytesValue (bs.take scaleDigits) * 10 ^ (scaleDigits - bs.length)) else none)
    (fun a => ?_) fun hm => hbig _ (Nat.le_trans hm ?_)
  · rw [checkedPow10_eq, checked_of_lt hpow]
    show (checkedMul a (UInt64.ofNat (10 ^ scaleDigits)) >>= _) = _
    rw [checkedMul_eq, UInt64.toNat_ofNat_of_lt' hpow]
    exact checked_bind (g := fun m => if AllDigits (bs.take scaleDigits) then
      checked (m + bytesValue (bs.take scaleDigits) * 10 ^ (scaleDigits - bs.length)) else none)
      (fracPart_eq hscale) (hbig _)
  · exact Nat.le_mul_of_pos_right _ (Nat.pow_pos (by decide))

open Classical in
/-- **`parse_fixed` as one formula.** -/
theorem parseFixed_eq (s : String) (scaleDigits : ℕ) :
    parseFixed s scaleDigits =
      if Readable (asBytes s) scaleDigits then checked (scaledValue (asBytes s) scaleDigits)
      else none := by
  rw [parseFixed]
  dsimp only
  by_cases hhead : asBytes s = [] ∨ (asBytes s).head? = some 45
  · rw [if_pos hhead, if_neg (not_readable_of_head hhead)]
  rw [if_neg hhead, parseU64_eq]
  by_cases hne : stripPlus (splitAtPoint (asBytes s)).1 = []
  · rw [if_pos hne, if_neg fun h => h.ne_nil hne]
    rfl
  rw [if_neg hne, readOn]
  by_cases hint : AllDigits (stripPlus (splitAtPoint (asBytes s)).1)
  · rw [if_pos hint, Nat.zero_mul, Nat.zero_add]
    by_cases hscale : scaleDigits ≤ 19
    · refine (joinParts_eq hscale _).trans ?_
      by_cases hfrac : AllDigits ((splitAtPoint (asBytes s)).2.take scaleDigits)
      · rw [if_pos hfrac, if_pos ⟨hne, hint, hfrac, hscale⟩]
        rfl
      · rw [if_neg hfrac, if_neg fun h => hfrac h.frac]
    · have hpow : checkedPow10 scaleDigits = none :=
        checked_of_le (Nat.le_of_not_lt (mt pow10_lt_size_iff.mp hscale))
      rw [if_neg fun h => hscale h.scale, hpow]
      cases checked (bytesValue (stripPlus (splitAtPoint (asBytes s)).1)) <;> rfl
  · rw [if_neg hint, if_neg fun h => hint h.int]
    rfl

/-! ### No plain operator wraps -/

/-- The digit loop does the same in every build. -/
theorem fracLoopIn_eq {frac : UInt64} (hscale : scaleDigits ≤ 19)
    (hfrac : frac.toNat < 10 ^ digits) :
    fracLoopIn π scaleDigits frac digits bs = .ok (fracLoop scaleDigits frac digits bs) := by
  induction bs generalizing frac digits with
  | nil => rfl
  | cons c bs ih =>
    rw [fracLoopIn, fracLoop]
    by_cases hfull : scaleDigits ≤ digits
    · rw [if_pos hfull, if_pos hfull]
    · rw [if_neg hfull, if_neg hfull]
      by_cases hc : isAsciiDigit c = true
      · obtain ⟨hpush, hfit⟩ := push_digit (by omega) hfrac hc
        have hword := toNat_push_digit (by omega) hfrac hc
        have hmul : π.mulU64 frac 10 = .ok (frac * 10) :=
          Profile.mulU64_eq_ok fun _ => Nat.lt_of_le_of_lt (Nat.le_add_right _ _) hfit
        have hsub : π.subU8 c 48 = .ok (c - 48) :=
          Profile.subU8_eq_ok fun _ => (isAsciiDigit_iff.mp hc).1
        have hadd : π.addU64 (frac * 10) (digitValue c) = .ok (frac * 10 + digitValue c) :=
          Profile.addU64_eq_ok fun _ => by
            rwa [toNat_mul_ten hfit, toNat_digitValue hc]
        rw [if_pos hc, if_pos hc, hmul, ok_bind, hsub, ok_bind]
        show (π.addU64 (frac * 10) (digitValue c) >>= _) = _
        rw [hadd, ok_bind]
        exact ih (hword.symm ▸ hpush)
      · rw [if_neg hc, if_neg hc]

/-- **`parse_fixed` does the same in every build**, so that no plain operator of it wraps. -/
theorem parseFixedIn_eq (s : String) (scaleDigits : ℕ) :
    parseFixedIn π s scaleDigits = .ok (parseFixed s scaleDigits) := by
  rw [parseFixedIn, parseFixed]
  dsimp only
  split
  · rfl
  cases parseU64 (splitAtPoint (asBytes s)).1 with
  | none => rfl
  | some int =>
    cases hpow : checkedPow10 scaleDigits with
    | none => rfl
    | some scaleMul =>
      cases hout : checkedMul int scaleMul with
      | none => simp [hout]
      | some out =>
        have hscale : scaleDigits ≤ 19 :=
          pow10_lt_size_iff.mp (checked_isSome.mp (Option.isSome_of_eq_some hpow))
        simp only [Option.bind_eq_bind, Option.bind_some, hout]
        rw [fracLoopIn_eq hscale (by decide)]
        cases fracLoop scaleDigits 0 0 (splitAtPoint (asBytes s)).2 <;> rfl

end L4Book
