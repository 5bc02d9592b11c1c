import L4Book.Refinement.WalletHex

/-!
# Wallets in hexadecimal

`WalletId::from_hex` and `Debug` are inverse to each other. The parser looks at the bytes of a
string, whose length it checks in bytes, but bytes that it accepts are ASCII, so that the strings it
accepts are just those of forty digits, behind `0x` or not. It takes digits of either case, and
`Debug` writes them in lower case.

## Main definitions

* `WritesWallet`: the strings that are accepted

## Main results

* `walletHex_faithful`
-/

namespace L4Book

/-- The string consists of forty hexadecimal digits of either case, behind one `0x` at most. -/
structure WritesWallet (s : String) (digits : List Char) : Prop where
  length : digits.length = 40
  hex : ∀ c ∈ digits, c ∈ hexDigits
  text : s = String.ofList digits ∨ s = "0x" ++ String.ofList digits

variable {s : String} {digits : List Char} {ps : List (Char × Char)} {bytes : List UInt8}
  {w : WalletId}

/-! ### Bytes of a string -/

/-- A string of digits, in bytes. -/
theorem asBytes_ofList (h : ∀ c ∈ digits, c ∈ hexDigits) :
    asBytes (String.ofList digits) = digits.map Char.toUInt8 :=
  toUTF8_ofList fun c hc => ascii_of_mem_hexDigits c (h c hc)

theorem append_ofList (digits : List Char) :
    "0x" ++ String.ofList digits = String.ofList ('0' :: 'x' :: digits) :=
  String.ofList_append.symm

/-- The same behind the prefix. -/
theorem asBytes_append_ofList (h : ∀ c ∈ digits, c ∈ hexDigits) :
    asBytes ("0x" ++ String.ofList digits) = 48 :: 120 :: digits.map Char.toUInt8 := by
  rw [append_ofList]
  refine toUTF8_ofList ?_
  rw [List.forall_mem_cons, List.forall_mem_cons]
  exact ⟨by decide, by decide, fun c hc => ascii_of_mem_hexDigits c (h c hc)⟩

/-- At most the prefix is stripped. -/
theorem stripHexPrefix_cases (bytes : List UInt8) :
    bytes = stripHexPrefix bytes ∨ bytes = 48 :: 120 :: stripHexPrefix bytes := by
  unfold stripHexPrefix
  split
  · exact Or.inr rfl
  · exact Or.inl rfl

/-- An `x` is no digit. -/
theorem stripHexPrefix_digits (h : ∀ c ∈ digits, c ∈ hexDigits) :
    stripHexPrefix (digits.map Char.toUInt8) = digits.map Char.toUInt8 := by
  rcases stripHexPrefix_cases (digits.map Char.toUInt8) with heq | heq
  · exact heq.symm
  · have hx : (120 : UInt8) ∈ digits.map Char.toUInt8 := by
      rw [heq]
      exact List.mem_cons_of_mem _ List.mem_cons_self
    obtain ⟨c, hc, hcx⟩ := List.mem_map.mp hx
    have hne : ∀ c ∈ hexDigits, c.toUInt8 ≠ 120 := List.all_iff_forall_prop.mp (by decide)
    exact absurd hcx (hne c (h c hc))

/-- What is left of a string that is accepted. -/
theorem WritesWallet.stripHexPrefix_eq (h : WritesWallet s digits) :
    stripHexPrefix (asBytes s) = digits.map Char.toUInt8 := by
  rcases h.text with rfl | rfl
  · rw [asBytes_ofList h.hex, stripHexPrefix_digits h.hex]
  · rw [asBytes_append_ofList h.hex]
    rfl

/-- What is left of a string determines it, but for the prefix. -/
theorem text_of_stripHexPrefix (h : ∀ c ∈ digits, c ∈ hexDigits)
    (hs : stripHexPrefix (asBytes s) = digits.map Char.toUInt8) :
    s = String.ofList digits ∨ s = "0x" ++ String.ofList digits := by
  rcases stripHexPrefix_cases (asBytes s) with heq | heq
  · rw [hs, ← asBytes_ofList h] at heq
    exact Or.inl (eq_of_toUTF8_eq heq)
  · rw [hs, ← asBytes_append_ofList h] at heq
    exact Or.inr (eq_of_toUTF8_eq heq)

/-! ### Writing -/

/-- Two digits a byte, in lower case, with a leading zero. -/
theorem lowerHex_eq (byte : UInt8) :
    lowerHex byte = String.ofList (unpair [lowerDigits byte]) := by
  have hall : ∀ n < 256, (Nat.toDigits 16 n).leftpad 2 '0' =
      [Nat.digitChar (n / 16), Nat.digitChar (n % 16)] := by decide +kernel
  exact congrArg String.ofList (hall byte.toNat byte.toNat_lt_size)

/-- **The text of a wallet** is the prefix and the digits of its bytes. -/
theorem debugFmt_eq (w : WalletId) :
    w.debugFmt = "0x" ++ String.ofList (unpair (w.bytes.toList.map lowerDigits)) := by
  have hfold : ∀ (l : List UInt8) (f : String), l.foldl (fun f byte => f ++ lowerHex byte) f =
      f ++ String.ofList (unpair (l.map lowerDigits)) := by
    intro l
    induction l with
    | nil => intro f; exact (String.append_empty).symm
    | cons byte l ih =>
      intro f
      rw [List.foldl_cons, ih, lowerHex_eq, String.append_assoc, ← String.ofList_append]
      rfl
  exact hfold _ _

/-- The text of a wallet is accepted. -/
theorem writesWallet_debugFmt (w : WalletId) :
    WritesWallet w.debugFmt (unpair (w.bytes.toList.map lowerDigits)) := by
  refine ⟨?_, fun c => mem_hexDigits_of_mem_unpair, Or.inr (debugFmt_eq w)⟩
  rw [length_unpair, List.length_map, Vector.length_toList]

/-! ### Reading -/

/-- The bytes of a wallet that is read. -/
theorem toList_ofFn_getD (h : bytes.length = 20) :
    (Vector.ofFn fun i : Fin 20 => bytes.getD i 0).toList = bytes := by
  refine List.ext_getElem (by simp [h]) fun i hi hi' => ?_
  simp [hi']

/-- **Forty digits are read two at a time.** -/
theorem fromHex_eq {ps : List (UInt8 × UInt8)} (hs : stripHexPrefix (asBytes s) = unpair ps)
    (hlen : ps.length = 20) : WalletId.fromHex s =
      (ps.mapM hexByte).map fun out => ⟨Vector.ofFn fun i => out.getD i 0⟩ := by
  have hforty : (unpair ps).length = 40 := by rw [length_unpair, hlen]
  rw [WalletId.fromHex, hs, if_neg (not_not.mpr hforty), hexBytes_unpair]
  cases ps.mapM hexByte <;> rfl

/-- What is not forty digits is refused. -/
theorem fromHex_spec (s : String) :
    Returns (· = .invalidWalletHex) (WalletId.fromHex s) fun _ =>
      ∃ digits, WritesWallet s digits := by
  by_cases hlen : (stripHexPrefix (asBytes s)).length = 40
  · obtain ⟨ps, hps, hs⟩ := exists_unpair (n := 20) hlen
    rw [fromHex_eq hs hps]
    refine Returns.map ((hexBytes_spec ps).imp ?_)
    rintro out ⟨digits, hdigits, rfl⟩
    rw [List.length_map] at hps
    refine ⟨unpair digits, by rw [length_unpair, hps], hdigits, ?_⟩
    exact text_of_stripHexPrefix hdigits (hs.trans map_toUInt8_unpair.symm)
  · rw [WalletId.fromHex, if_pos hlen]
    exact rfl

/-- **What is written is read back.** -/
theorem fromHex_debugFmt (w : WalletId) : WalletId.fromHex w.debugFmt = .ok w := by
  have hlen : w.bytes.toList.length = 20 := Vector.length_toList
  have hs := (writesWallet_debugFmt w).stripHexPrefix_eq
  rw [map_toUInt8_unpair] at hs
  rw [fromHex_eq hs (by rw [List.length_map, List.length_map, hlen]), hexBytes_lowerDigits]
  show Except.ok (WalletId.mk _) = Except.ok w
  rw [Vector.toList_inj.mp (toList_ofFn_getD hlen)]

/-- **What is read is written back**, in lower case. -/
theorem WritesWallet.exists_fromHex (h : WritesWallet s digits) :
    ∃ w, WalletId.fromHex s = .ok w ∧
      w.debugFmt = "0x" ++ String.ofList (digits.map Char.toLower) := by
  obtain ⟨ps, hps, rfl⟩ := exists_unpair (n := 20) h.length
  obtain ⟨out, hout, hmap⟩ := exists_hexBytes h.hex
  have hs := h.stripHexPrefix_eq
  rw [map_toUInt8_unpair] at hs
  have hlen : out.length = 20 := by
    rw [← List.length_map lowerDigits, hmap, List.length_map, hps]
  refine ⟨⟨Vector.ofFn fun i => out.getD i 0⟩, ?_, ?_⟩
  · rw [fromHex_eq hs (by rw [List.length_map, hps])]
    exact congrArg (Except.map _) hout
  · rw [debugFmt_eq, toList_ofFn_getD hlen, hmap, map_unpair]

/-! ### The main result -/

/-- **Hexadecimal text is faithful to wallets.** Every wallet is read back from its text. The
strings that are read are forty digits of either case, behind one `0x` at most, and what is read of
them is written with the same digits in lower case. Every other string is refused, and no build
panics. -/
theorem walletHex_faithful :
    (∀ w : WalletId, WalletId.fromHex w.debugFmt = .ok w) ∧
    (∀ s, (∃ w, WalletId.fromHex s = .ok w) ↔ ∃ digits, WritesWallet s digits) ∧
    (∀ s digits w, WritesWallet s digits → WalletId.fromHex s = .ok w →
      w.debugFmt = "0x" ++ String.ofList (digits.map Char.toLower)) ∧
    (∀ s, (¬ ∃ digits, WritesWallet s digits) →
      WalletId.fromHex s = .error .invalidWalletHex) ∧
    ∀ π s, WalletId.fromHexIn π s = .ok (WalletId.fromHex s) := by
  refine ⟨fromHex_debugFmt, fun s => ⟨?_, ?_⟩, fun s digits w h hw => ?_, fun s hnot => ?_,
    WalletId.fromHexIn_eq⟩
  · rintro ⟨w, hw⟩
    exact (fromHex_spec s).of_eq_ok hw
  · rintro ⟨digits, h⟩
    obtain ⟨w, hw, -⟩ := h.exists_fromHex
    exact ⟨w, hw⟩
  · obtain ⟨w', hw', htext⟩ := h.exists_fromHex
    obtain rfl : w' = w := Except.ok.inj (hw'.symm.trans hw)
    exact htext
  · cases hw : WalletId.fromHex s with
    | ok w => exact absurd ((fromHex_spec s).of_eq_ok hw) hnot
    | error e => rw [(fromHex_spec s).of_eq_error hw]

/-- Forty digits of both cases without the prefix, and forty bytes that are twenty characters. -/
theorem walletHex_faithful_sample :
    (∃ w, WalletId.fromHex "F9109ada2f73C62e9889b45453065f0d99260A2D" = .ok w ∧
      w.debugFmt = "0xf9109ada2f73c62e9889b45453065f0d99260a2d") ∧
    WalletId.fromHex "éééééééééééééééééééé" = .error .invalidWalletHex := by
  obtain ⟨-, haccepts, hwrites, hrefuses, -⟩ := walletHex_faithful
  constructor
  · have h : WritesWallet "F9109ada2f73C62e9889b45453065f0d99260A2D"
        "F9109ada2f73C62e9889b45453065f0d99260A2D".toList := by
      refine ⟨by decide +kernel, ?_, Or.inl String.ofList_toList.symm⟩
      exact List.all_iff_forall_prop.mp (by decide +kernel)
    obtain ⟨w, hw⟩ := (haccepts _).mpr ⟨_, h⟩
    refine ⟨w, hw, (hwrites _ _ w h hw).trans ?_⟩
    decide +kernel
  · refine hrefuses _ ?_
    rintro ⟨digits, hlength, -, htext⟩
    have hlength' : "éééééééééééééééééééé".length = 20 := by decide +kernel
    rcases htext with htext | htext
    · rw [htext, String.length_ofList, hlength] at hlength'
      omega
    · rw [htext, append_ofList, String.length_ofList, List.length_cons, List.length_cons,
        hlength] at hlength'
      omega

end L4Book
