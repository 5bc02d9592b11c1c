import L4Book.Foundation.Text
import L4Book.Wallet
import Mathlib.Data.Bool.AllAny

/-!
# Bytes and their two digits

Each byte of a wallet is written with two digits in lower case, and read from two digits of either
case. Writing and reading fit together digit by digit, so they do byte by byte.

## Main definitions

* `hexDigits`: the digits of either case
* `hexByte`: one round of the parser
* `lowerDigits`: the digits of a byte

## Main results

* `hexByte_lowerDigits`, `exists_hexByte`: one byte
* `exists_hexBytes`, `hexBytes_spec`: the loop
* `WalletId.fromHexIn_eq`: the array is filled, in every build
-/

namespace L4Book

/-! ### Digits -/

/-- The hexadecimal digits of either case. -/
def hexDigits : List Char := "0123456789abcdefABCDEF".toList

/-- A digit is ASCII. -/
theorem ascii_of_mem_hexDigits : ∀ c ∈ hexDigits, c.val ≤ 127 :=
  List.all_iff_forall_prop.mp (by decide)

/-- Where `hex_nib` reads a digit, it is the digit of that value, up to the case. -/
theorem hexNib_of_mem_hexDigits : ∀ c ∈ hexDigits, ∃ n < 16,
    hexNib c.toUInt8 = .ok (UInt8.ofNat n) ∧ n.digitChar = c.toLower :=
  List.all_iff_forall_prop.mp (by decide)

/-- The digit of a nibble is read as the nibble. -/
theorem hexNib_digitChar : ∀ n < 16, hexNib n.digitChar.toUInt8 = .ok (UInt8.ofNat n) := by decide

/-- Digits are all that `hex_nib` reads. -/
theorem hexNib_spec (b : UInt8) :
    Returns (· = .invalidWalletHex) (hexNib b) fun _ => ∃ c ∈ hexDigits, b = c.toUInt8 := by
  have hall : ∀ k < 256, (hexNib (UInt8.ofNat k)).isOk →
      Char.ofUInt8 (UInt8.ofNat k) ∈ hexDigits := by decide +kernel
  have hb := hall b.toNat b.toNat_lt_size
  rw [UInt8.ofNat_toNat] at hb
  cases hn : hexNib b with
  | ok n =>
    rw [hn] at hb
    exact ⟨Char.ofUInt8 b, hb rfl, (UInt8.toUInt8_toUInt32 b).symm⟩
  | error e =>
    unfold hexNib at hn
    split at hn
    · cases hn
    split at hn
    · cases hn
    split at hn
    · cases hn
    · exact (Except.error.inj hn).symm

/-! ### Bytes -/

/-- One round of the parser: two digits make a byte. -/
def hexByte (p : UInt8 × UInt8) : Except BookError UInt8 := do
  let hi ← hexNib p.1
  let lo ← hexNib p.2
  return (hi <<< 4) ||| lo

/-- The two digits of a byte. -/
def lowerDigits (byte : UInt8) : Char × Char :=
  (Nat.digitChar (byte.toNat / 16), Nat.digitChar (byte.toNat % 16))

/-- Two ASCII characters as bytes. -/
def toBytes (p : Char × Char) : UInt8 × UInt8 := p.map Char.toUInt8 Char.toUInt8

theorem map_toUInt8_unpair {ps : List (Char × Char)} :
    (unpair ps).map Char.toUInt8 = unpair (ps.map toBytes) :=
  map_unpair Char.toUInt8 ps

/-- **What is written is read back.** -/
theorem hexByte_lowerDigits (byte : UInt8) : hexByte (toBytes (lowerDigits byte)) = .ok byte := by
  have hlt : byte.toNat < 256 := byte.toNat_lt_size
  have hhi : byte.toNat / 16 < 16 := by omega
  have hlo : byte.toNat % 16 < 16 := Nat.mod_lt _ (by decide)
  rw [hexByte, toBytes, lowerDigits, Prod.map_fst, Prod.map_snd, hexNib_digitChar _ hhi, ok_bind,
    hexNib_digitChar _ hlo, ok_bind]
  refine congrArg Except.ok (UInt8.toNat_inj.mp ?_)
  rw [toNat_nibbles hhi hlo, Nat.div_add_mod]

/-- **What is read is written back**, in lower case. -/
theorem exists_hexByte {hi lo : Char} (hhi : hi ∈ hexDigits) (hlo : lo ∈ hexDigits) :
    ∃ byte, hexByte (toBytes (hi, lo)) = .ok byte ∧
      lowerDigits byte = (hi.toLower, lo.toLower) := by
  obtain ⟨m, hm, hread, hwrite⟩ := hexNib_of_mem_hexDigits hi hhi
  obtain ⟨n, hn, hread', hwrite'⟩ := hexNib_of_mem_hexDigits lo hlo
  refine ⟨(UInt8.ofNat m <<< 4) ||| UInt8.ofNat n, ?_, ?_⟩
  · rw [hexByte, toBytes, Prod.map_fst, Prod.map_snd, hread, ok_bind, hread', ok_bind]
    rfl
  · have hdiv : (16 * m + n) / 16 = m := by omega
    have hmod : (16 * m + n) % 16 = n := by omega
    rw [lowerDigits, toNat_nibbles hm hn, hdiv, hmod, hwrite, hwrite']

/-- Only digits are read. -/
theorem hexByte_spec (p : UInt8 × UInt8) : Returns (· = .invalidWalletHex) (hexByte p) fun _ =>
    (∃ c ∈ hexDigits, p.1 = c.toUInt8) ∧ ∃ c ∈ hexDigits, p.2 = c.toUInt8 :=
  (hexNib_spec p.1).bind fun _ hhi => (hexNib_spec p.2).bind fun _ hlo => ⟨hhi, hlo⟩

/-- The loop reads two digits a round. -/
theorem hexBytes_unpair (ps : List (UInt8 × UInt8)) :
    hexBytes (unpair ps) = ps.mapM hexByte := by
  induction ps with
  | nil => rfl
  | cons p ps ih =>
    rw [unpair_cons, hexBytes, ih, List.mapM_cons, hexByte]
    cases hexNib p.1 with
    | error e => rfl
    | ok hi => cases hexNib p.2 <;> rfl

/-- The digits of bytes are read as the bytes. -/
theorem hexBytes_lowerDigits (bytes : List UInt8) :
    ((bytes.map lowerDigits).map toBytes).mapM hexByte = .ok bytes := by
  induction bytes with
  | nil => rfl
  | cons byte bytes ih =>
    rw [List.map_cons, List.map_cons, List.mapM_cons, hexByte_lowerDigits, ok_bind, ih]
    rfl

/-- They are digits. -/
theorem mem_hexDigits_of_mem_unpair {bytes : List UInt8} {c : Char}
    (hc : c ∈ unpair (bytes.map lowerDigits)) : c ∈ hexDigits := by
  have hdigit : ∀ n < 16, n.digitChar ∈ hexDigits := by decide
  obtain ⟨p, hp, hc⟩ := List.mem_flatMap.mp hc
  obtain ⟨byte, -, rfl⟩ := List.mem_map.mp hp
  have hlt : byte.toNat < 256 := byte.toNat_lt_size
  rcases List.mem_pair.mp hc with rfl | rfl
  · exact hdigit _ (by omega)
  · exact hdigit _ (Nat.mod_lt _ (by decide))

/-- **Every text of digits is read**, and what is read is written in lower case. -/
theorem exists_hexBytes {ps : List (Char × Char)} (h : ∀ c ∈ unpair ps, c ∈ hexDigits) :
    ∃ out, (ps.map toBytes).mapM hexByte = .ok out ∧
      out.map lowerDigits = ps.map (Prod.map Char.toLower Char.toLower) := by
  induction ps with
  | nil => exact ⟨[], rfl, rfl⟩
  | cons p ps ih =>
    rw [unpair_cons, List.forall_mem_cons, List.forall_mem_cons] at h
    obtain ⟨hhi, hlo, hrest⟩ := h
    obtain ⟨byte, hbyte, hdigits⟩ := exists_hexByte hhi hlo
    obtain ⟨out, hout, hmap⟩ := ih hrest
    refine ⟨byte :: out, ?_, ?_⟩
    · rw [List.map_cons, List.mapM_cons, hbyte, ok_bind, hout]
      rfl
    · rw [List.map_cons, List.map_cons, hmap, hdigits]
      rfl

/-- **Nothing else is read.** -/
theorem hexBytes_spec (ps : List (UInt8 × UInt8)) :
    Returns (· = .invalidWalletHex) (ps.mapM hexByte) fun _ =>
      ∃ digits, (∀ c ∈ unpair digits, c ∈ hexDigits) ∧ ps = digits.map toBytes := by
  induction ps with
  | nil => exact ⟨[], fun _ hc => absurd hc List.not_mem_nil, rfl⟩
  | cons p ps ih =>
    rw [List.mapM_cons]
    refine (hexByte_spec p).bind fun _ hp => ih.bind fun _ hps => ?_
    obtain ⟨⟨hi, hhi, hp₁⟩, lo, hlo, hp₂⟩ := hp
    obtain ⟨digits, hdigits, rfl⟩ := hps
    refine ⟨(hi, lo) :: digits, ?_, congrArg (· :: _) (Prod.ext hp₁ hp₂)⟩
    rw [unpair_cons, List.forall_mem_cons, List.forall_mem_cons]
    exact ⟨hhi, hlo, hdigits⟩

/-! ### The array -/

section Array

variable {π : Profile} {bytes : List UInt8} {out : Vector UInt8 20} {k m : ℕ}

/-- No plain operator wraps. -/
theorem hexNibIn_eq (π : Profile) (b : UInt8) : hexNibIn π b = .ok (hexNib b) := by
  have hsub : ∀ {lo hi : UInt8}, lo ≤ b ∧ b ≤ hi → π.subU8 b lo = .ok (b - lo) :=
    fun h => Profile.subU8_eq_ok fun _ => UInt8.le_iff_toNat_le.mp h.1
  have hadd : ∀ {lo hi : UInt8}, lo ≤ b ∧ b ≤ hi → hi.toNat - lo.toNat ≤ 5 →
      π.addU8 (b - lo) 10 = .ok (b - lo + 10) := by
    intro lo hi h hle
    refine Profile.addU8_eq_ok fun _ => ?_
    have hhi := UInt8.le_iff_toNat_le.mp h.2
    rw [UInt8.toNat_sub_of_le _ _ h.1]
    show b.toNat - lo.toNat + 10 < 256
    omega
  unfold hexNibIn hexNib
  split
  case isTrue h =>
    rw [hsub h]
    rfl
  split
  case isTrue h =>
    rw [hsub h, ok_bind, hadd h (by decide)]
    rfl
  split
  case isTrue h =>
    rw [hsub h, ok_bind, hadd h (by decide)]
    rfl
  · rfl

theorem byteAt_eq {i : ℕ} {b : UInt8} (h : bytes[i]? = some b) : byteAt bytes i = .ok b := by
  rw [byteAt, h]

/-- The array, with the bytes from `k` on replaced. -/
def fillFrom (out : Vector UInt8 20) (k : ℕ) (rest : List UInt8) : Vector UInt8 20 :=
  Vector.ofFn fun i => if i < k then out[i] else rest.getD (i - k) 0

theorem fillFrom_zero (out : Vector UInt8 20) (rest : List UInt8) :
    fillFrom out 0 rest = Vector.ofFn fun i => rest.getD i 0 := rfl

theorem fillFrom_all (out : Vector UInt8 20) (rest : List UInt8) : fillFrom out 20 rest = out := by
  refine Vector.ext fun i hi => ?_
  rw [fillFrom, Vector.getElem_ofFn, if_pos hi]
  rfl

theorem fillFrom_set (hk : k < 20) (byte : UInt8) (rest : List UInt8) :
    fillFrom (out.set k byte) (k + 1) rest = fillFrom out k (byte :: rest) := by
  refine Vector.ext fun i hi => ?_
  rw [fillFrom, fillFrom, Vector.getElem_ofFn, Vector.getElem_ofFn]
  show (if i < k + 1 then (out.set k byte)[i] else rest.getD (i - (k + 1)) 0) =
    if i < k then out[i] else (byte :: rest).getD (i - k) 0
  rcases Nat.lt_trichotomy i k with hik | rfl | hki
  · rw [if_pos (Nat.lt_succ_of_lt hik), if_pos hik, Vector.getElem_set_ne _ _ (Nat.ne_of_gt hik)]
  · rw [if_pos (Nat.lt_succ_self i), if_neg (Nat.lt_irrefl i), Nat.sub_self,
      Vector.getElem_set_self]
    rfl
  · obtain ⟨j, rfl⟩ := Nat.exists_eq_add_of_lt hki
    have hrest : k + j + 1 - (k + 1) = j := by omega
    have hcons : k + j + 1 - k = j + 1 := by omega
    rw [if_neg (by omega), if_neg (by omega), hrest, hcons, List.getD_cons_succ]

/-- **The loop fills the array** with what is read of the bytes that are left. -/
theorem fillBytes_eq (π : Profile) (hlen : bytes.length = 40) (hk : k + m = 20) :
    fillBytes π bytes out (List.range' k m) =
      .ok ((hexBytes (bytes.drop (2 * k))).map (fillFrom out k)) := by
  induction m generalizing k out with
  | zero =>
    obtain rfl : k = 20 := hk
    rw [List.drop_eq_nil_of_le (by omega), List.range'_zero, fillBytes, hexBytes, Except.map,
      fillFrom_all]
    nofun
  | succ m ih =>
    have hhi : 2 * k < bytes.length := by omega
    have hlo : 2 * k + 1 < bytes.length := by omega
    have hdrop : bytes.drop (2 * k) =
        bytes[2 * k] :: bytes[2 * k + 1] :: bytes.drop (2 * (k + 1)) := by
      rw [List.drop_eq_getElem_cons hhi, List.drop_eq_getElem_cons hlo]
      rfl
    rw [List.range'_succ, fillBytes, byteAt_eq (List.getElem?_eq_getElem hhi), ok_bind,
      hexNibIn_eq, ok_bind, hdrop, hexBytes]
    cases hexNib bytes[2 * k] with
    | error e => rfl
    | ok hi =>
      dsimp only
      rw [byteAt_eq (List.getElem?_eq_getElem hlo), ok_bind, hexNibIn_eq, ok_bind, ok_bind]
      cases hexNib bytes[2 * k + 1] with
      | error e => rfl
      | ok lo =>
        dsimp only
        have hlt : k < 20 := by omega
        rw [setByte, dif_pos hlt, ok_bind, ok_bind, ih (by omega)]
        cases hexBytes (bytes.drop (2 * (k + 1))) with
        | error e =>
          show Except.ok (Except.error e) = Except.ok (Except.error e)
          rfl
        | ok rest =>
          show Except.ok (Except.ok _) = Except.ok (Except.ok (fillFrom out k (_ :: rest)))
          rw [fillFrom_set hlt]

/-- **The parser does not panic**, and does the same in every build. -/
theorem WalletId.fromHexIn_eq (π : Profile) (s : String) :
    WalletId.fromHexIn π s = .ok (WalletId.fromHex s) := by
  rw [fromHexIn, fromHex]
  split
  case isTrue => rfl
  case isFalse h =>
    rw [List.range_eq_range', fillBytes_eq π (not_not.mp h) (Nat.zero_add 20), Nat.mul_zero,
      List.drop_zero, ok_bind]
    cases hexBytes (stripHexPrefix (asBytes s)) with
    | error e => rfl
    | ok out =>
      show Except.ok (Except.ok (WalletId.mk (fillFrom _ 0 out))) = _
      rw [fillFrom_zero]
      rfl

end Array

end L4Book
