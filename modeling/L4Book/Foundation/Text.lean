import Mathlib.Data.List.Basic
import Mathlib.Data.UInt

/-!
# Texts and their bytes

An ASCII character is one byte in UTF-8, so that the bytes of an ASCII text are its characters. A
byte is made of two nibbles; a code that writes every byte with two letters writes a list of pairs,
one letter after the other.

## Main definitions

* `unpair`: a list of pairs, one letter after the other

## Main results

* `toUTF8_ofList`, `eq_of_toUTF8_eq`: a text and its bytes
* `toNat_nibbles`
* `exists_unpair`: every text of even length is a list of pairs
-/

namespace L4Book

/-! ### ASCII -/

section Ascii

variable {s : String} {cs : List Char}

/-- An ASCII character is one byte. -/
theorem utf8EncodeChar_of_le {c : Char} (h : c.val ≤ 127) :
    String.utf8EncodeChar c = [c.toUInt8] :=
  String.utf8EncodeChar_eq_singleton (Char.utf8Size_eq_one_iff.mpr h)

/-- The bytes of an ASCII text are its characters. -/
theorem toUTF8_ofList (h : ∀ c ∈ cs, c.val ≤ 127) :
    (String.ofList cs).toUTF8.data.toList = cs.map Char.toUInt8 := by
  rw [String.toUTF8_eq_toByteArray, String.toByteArray_ofList, List.utf8Encode,
    List.data_toByteArray]
  induction cs with
  | nil => rfl
  | cons c cs ih =>
    rw [List.forall_mem_cons] at h
    rw [List.flatMap_cons, utf8EncodeChar_of_le h.1, List.map_cons, ← ih h.2]
    rfl

/-- A text is determined by its bytes. -/
theorem eq_of_toUTF8_eq {t : String} (h : s.toUTF8.data.toList = t.toUTF8.data.toList) : s = t :=
  String.toByteArray_inj.mp (ByteArray.ext (Array.toList_inj.mp h))

end Ascii

/-! ### Nibbles -/

/-- Two nibbles make a byte. -/
theorem toNat_nibbles {hi lo : ℕ} (hhi : hi < 16) (hlo : lo < 16) :
    ((UInt8.ofNat hi <<< 4) ||| UInt8.ofNat lo).toNat = 16 * hi + lo := by
  have hshift : hi <<< 4 % 2 ^ 8 = hi <<< 4 := by
    rw [Nat.shiftLeft_eq]
    omega
  rw [UInt8.toNat_or, UInt8.toNat_shiftLeft,
    UInt8.toNat_ofNat_of_lt' (Nat.lt_trans hhi (by decide)),
    UInt8.toNat_ofNat_of_lt' (Nat.lt_trans hlo (by decide))]
  show hi <<< 4 % 2 ^ 8 ||| lo = _
  rw [hshift, ← Nat.shiftLeft_add_eq_or_of_lt hlo, Nat.shiftLeft_eq]
  omega

/-! ### Two letters at a time -/

section Pairs

variable {α β : Type*} {ps : List (α × α)}

/-- A list of pairs, one letter after the other. -/
def unpair (ps : List (α × α)) : List α := ps.flatMap fun p => [p.1, p.2]

@[simp] theorem unpair_nil : unpair ([] : List (α × α)) = [] := rfl

@[simp] theorem unpair_cons (p : α × α) (ps : List (α × α)) :
    unpair (p :: ps) = p.1 :: p.2 :: unpair ps := rfl

theorem length_unpair (ps : List (α × α)) : (unpair ps).length = 2 * ps.length := by
  induction ps with
  | nil => rfl
  | cons p ps ih =>
    rw [unpair_cons, List.length_cons, List.length_cons, ih, List.length_cons]
    omega

theorem map_unpair (f : α → β) (ps : List (α × α)) :
    (unpair ps).map f = unpair (ps.map (Prod.map f f)) := by
  induction ps with
  | nil => rfl
  | cons p ps ih =>
    rw [unpair_cons, List.map_cons, List.map_cons, ih]
    rfl

/-- **A text of even length is written two letters at a time.** -/
theorem exists_unpair {n : ℕ} {l : List α} (h : l.length = 2 * n) :
    ∃ ps : List (α × α), ps.length = n ∧ l = unpair ps := by
  induction n generalizing l with
  | zero => exact ⟨[], rfl, List.eq_nil_of_length_eq_zero h⟩
  | succ n ih =>
    rcases l with _ | ⟨x, _ | ⟨y, l⟩⟩
    · rw [List.length_nil] at h
      omega
    · rw [List.length_singleton] at h
      omega
    · rw [List.length_cons, List.length_cons] at h
      obtain ⟨ps, hps, rfl⟩ := ih (show l.length = 2 * n by omega)
      exact ⟨(x, y) :: ps, congrArg (· + 1) hps, rfl⟩

end Pairs

end L4Book
