import L4Book.Machine

/-!
# Wallet addresses as text

`WalletId::from_hex` as a build compiles it, and the text that `Debug` writes. The parser fills an
array of twenty bytes in place, from bytes that it reads at computed offsets. What it returns is
`WalletId.fromHex`, which does without the array.

## Main definitions

* `WalletId.fromHexIn`
* `WalletId.debugFmt`
-/

namespace L4Book

/-! ### From text -/

/-- `s.as_bytes()[i]`. -/
def byteAt (bytes : List UInt8) (i : ℕ) : Except Fault UInt8 :=
  match bytes[i]? with
  | some b => .ok b
  | none => .error .indexOutOfBounds

/-- `out[i] = byte`. -/
def setByte (out : Vector UInt8 20) (i : ℕ) (byte : UInt8) : Except Fault (Vector UInt8 20) :=
  if h : i < 20 then .ok (out.set i byte) else .error .indexOutOfBounds

/-- `hex_nib` as a build compiles it. -/
def hexNibIn (π : Profile) (b : UInt8) : Except Fault (Except BookError UInt8) :=
  if 48 ≤ b ∧ b ≤ 57 then do
    return .ok (← π.subU8 b 48)
  else if 97 ≤ b ∧ b ≤ 102 then do
    return .ok (← π.addU8 (← π.subU8 b 97) 10)
  else if 65 ≤ b ∧ b ≤ 70 then do
    return .ok (← π.addU8 (← π.subU8 b 65) 10)
  else .ok (.error .invalidWalletHex)

/-- The loop of `from_hex`, over its indices. -/
def fillBytes (π : Profile) (bytes : List UInt8) (out : Vector UInt8 20) :
    List ℕ → Except Fault (Except BookError (Vector UInt8 20))
  | [] => .ok (.ok out)
  | i :: is => do
    match ← hexNibIn π (← byteAt bytes (2 * i)) with
    | .error e => return .error e
    | .ok hi =>
      match ← hexNibIn π (← byteAt bytes (2 * i + 1)) with
      | .error e => return .error e
      | .ok lo =>
        let out ← setByte out i ((hi <<< 4) ||| lo)
        fillBytes π bytes out is

/-- `WalletId::from_hex` as a build compiles it. -/
def WalletId.fromHexIn (π : Profile) (s : String) : Except Fault (Except BookError WalletId) :=
  let s := stripHexPrefix (asBytes s)
  if s.length ≠ 40 then .ok (.error .invalidWalletHex)
  else do
    let out ← fillBytes π s (Vector.replicate 20 0) (List.range 20)
    return out.map WalletId.mk

/-! ### To text -/

/-- `{:02x}` of a byte. -/
def lowerHex (byte : UInt8) : String :=
  String.ofList ((Nat.toDigits 16 byte.toNat).leftpad 2 '0')

/-- `fmt` of `Debug for WalletId`: what the writes append to the text, one after the other. -/
def WalletId.debugFmt (wallet : WalletId) : String :=
  wallet.bytes.toList.foldl (fun f byte => f ++ lowerHex byte) "0x"

end L4Book
