import L4Book.Machine
import L4Book.Types

/-!
# Wire values

The JSON values the feed adapter of `src/dwellir.rs` reads, and its fixed-point parser. Parsing JSON
text is `serde_json`'s business, so a message is a JSON value here; of a number the adapter only
asks whether it is an unsigned integer.

Strings are looked at byte by byte, as the source does.

## Main definitions

* `Json`, with the accessors of `serde_json::Value`
* `parseFixed`: decimal strings to scaled integers
* `parseFixedIn`: the same, with the overflow checks of a build
-/

namespace L4Book

/-! ### JSON values -/

/-- `serde_json::Number`. The value of a float is never read. -/
inductive Number
  | posInt (n : UInt64)
  | negInt (n : Int64)
  | float
deriving DecidableEq, Repr

/-- `serde_json::Value`. An object lists its entries; the first entry with a key is the one that
counts. -/
inductive Json
  | null
  | bool (b : Bool)
  | number (n : Number)
  | string (s : String)
  | array (items : List Json)
  | object (fields : List (String × Json))

namespace Json

/-- `Value::as_object`. -/
def asObject : Json → Option (List (String × Json))
  | object fields => some fields
  | _ => none

/-- `Value::get`, with a key. -/
def get (v : Json) (key : String) : Option Json :=
  v.asObject.bind fun fields => fields.lookup key

/-- `Value::as_str`. -/
def asStr : Json → Option String
  | string s => some s
  | _ => none

/-- `Value::as_u64`. -/
def asU64 : Json → Option UInt64
  | number (.posInt n) => some n
  | _ => none

/-- `Value::as_array`. -/
def asArray : Json → Option (List Json)
  | array items => some items
  | _ => none

end Json

/-! ### Fixed-point numbers -/

/-- `u64::checked_mul`. -/
def checkedMul (a b : UInt64) : Option UInt64 :=
  if a.toNat * b.toNat < UInt64.size then some (a * b) else none

/-- `u64::checked_add`. -/
def checkedAdd (a b : UInt64) : Option UInt64 :=
  if a.toNat + b.toNat < UInt64.size then some (a + b) else none

/-- `10u64.checked_pow(digits)`. -/
def checkedPow10 (digits : ℕ) : Option UInt64 :=
  if 10 ^ digits < UInt64.size then some (UInt64.ofNat (10 ^ digits)) else none

/-- `u8::is_ascii_digit`. -/
def isAsciiDigit (b : UInt8) : Bool := 48 ≤ b ∧ b ≤ 57

/-- The value of an ASCII digit: `(b - b'0') as u64`. -/
def digitValue (b : UInt8) : UInt64 := (b - 48).toUInt64

/-- The digit loop of `str::parse::<u64>`. -/
def parseDigits (acc : UInt64) : List UInt8 → Option UInt64
  | [] => some acc
  | b :: bs =>
    if isAsciiDigit b then do
      let acc ← checkedMul acc 10
      let acc ← checkedAdd acc (digitValue b)
      parseDigits acc bs
    else none

/-- `str::parse::<u64>().ok()`: an optional plus sign, then at least one digit. -/
def parseU64 : List UInt8 → Option UInt64
  | [] => none
  | 43 :: [] => none
  | 43 :: bs => parseDigits 0 bs
  | bs => parseDigits 0 bs

/-- `split_once('.')`, or the whole string and nothing. -/
def splitAtPoint (bs : List UInt8) : List UInt8 × List UInt8 :=
  (bs.takeWhile (· ≠ 46), (bs.dropWhile (· ≠ 46)).tail)

/-- The loop of `parse_fixed` over the fractional part. It stops after `scaleDigits` digits,
whatever follows. The source does not check `frac * 10 + d` either: at this point `scaleDigits` is
at most 19, and nineteen digits fit. -/
def fracLoop (scaleDigits : ℕ) (frac : UInt64) (digits : ℕ) : List UInt8 → Option (UInt64 × ℕ)
  | [] => some (frac, digits)
  | b :: bs =>
    if scaleDigits ≤ digits then some (frac, digits)
    else if isAsciiDigit b then
      fracLoop scaleDigits (frac * 10 + digitValue b) (digits + 1) bs
    else none

/-- `while digits < scale_digits { frac = frac.checked_mul(10)?; digits += 1; }`. -/
def padLoop (frac : UInt64) : ℕ → Option UInt64
  | 0 => some frac
  | missing + 1 => do
    let frac ← checkedMul frac 10
    padLoop frac missing

/-- Parse a decimal string into a `u64` scaled by `10 ^ scaleDigits`. -/
def parseFixed (s : String) (scaleDigits : ℕ) : Option UInt64 :=
  let bytes := asBytes s
  if bytes = [] ∨ bytes.head? = some 45 then none
  else do
    let (intPart, fracPart) := splitAtPoint bytes
    let int ← parseU64 intPart
    let scaleMul ← checkedPow10 scaleDigits
    let out ← checkedMul int scaleMul
    let (frac, digits) ← fracLoop scaleDigits 0 0 fracPart
    let frac ← padLoop frac (scaleDigits - digits)
    checkedAdd out frac

/-! ### Fixed-point numbers in a build with overflow checks -/

/-- The loop of `parse_fixed` over the fractional part, with its plain operators as a build compiles
them. -/
def fracLoopIn (π : Profile) (scaleDigits : ℕ) (frac : UInt64) (digits : ℕ) :
    List UInt8 → Except Fault (Option (UInt64 × ℕ))
  | [] => .ok (some (frac, digits))
  | b :: bs =>
    if scaleDigits ≤ digits then .ok (some (frac, digits))
    else if isAsciiDigit b then do
      let shifted ← π.mulU64 frac 10
      let digit ← π.subU8 b 48
      let frac ← π.addU64 shifted digit.toUInt64
      fracLoopIn π scaleDigits frac (digits + 1) bs
    else .ok none

/-- `parse_fixed` as a build compiles it. All operators outside the loop are checked ones. -/
def parseFixedIn (π : Profile) (s : String) (scaleDigits : ℕ) : Except Fault (Option UInt64) :=
  let bytes := asBytes s
  if bytes = [] ∨ bytes.head? = some 45 then .ok none
  else
    let (intPart, fracPart) := splitAtPoint bytes
    let scaled := do
      let int ← parseU64 intPart
      let scaleMul ← checkedPow10 scaleDigits
      checkedMul int scaleMul
    match scaled with
    | none => .ok none
    | some out => do
      match ← fracLoopIn π scaleDigits 0 0 fracPart with
      | none => return none
      | some (frac, digits) =>
        return do
          let frac ← padLoop frac (scaleDigits - digits)
          checkedAdd out frac

end L4Book
