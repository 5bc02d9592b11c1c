import L4Book.Foundation.Blame
import L4Book.Refinement.Reading
import L4Book.Results.Dedupe
import L4Book.Results.FixedPoint
import L4Book.Results.Loading
import L4Book.Results.WalletHex

/-!
# What the adapter refuses

The adapter checks what it reads as it goes, and returns the first error it comes to. Here is what
there is to complain about, said of a line as a whole: what its text and its fields are to be, and
which error stands for what. A line is refused exactly if there is something to complain about, and
the error tells of something that there is; in a message it is the first bad order or diff that is
told of, and in a file the first bad line.

A price or a size is to be a decimal numeral of a number that fits when it is scaled, by at most 19
digits. Carelessly written numerals pass as well: with a plus sign, or with anything behind the
fractional digits that count.

Not everything is looked at. A `new` without a matching status needs a wallet, a price and a size,
but they may be any text; an `update` and a `modified` need neither wallet nor price.

## Main definitions

* `FitsNumber`: the texts that pass for a number
* `Missing`, `Unreadable`: what can be wrong with a field
* `OrderFault`, `DiffFault`: what can be wrong with an order or a diff
* `LineFault`: what can be wrong with a line

## Main results

* `adapter_blames`
-/

namespace L4Book

variable {scales : Scales} {statuses : Statuses} {v d newObj : Json} {oid : OrderId}
  {s key path : String} {bad : String → Prop} {err : String → AdapterError}
  {parseJson : String → Except String Json}

/-! ### Texts -/

/-- The side of an order. -/
def orderSide (o : Json) : Except AdapterError Side := do
  let s ← require "side" ((o.get "side").bind Json.asStr)
  parseSide s

/-- The checks of an order one after another. -/
theorem parseOrder_eq (scales : Scales) (o : Json) : parseOrder scales o none = (do
    let oid ← require "oid" ((o.get "oid").bind Json.asU64)
    let userStr ← require "user" ((o.get "user").bind Json.asStr)
    let side ← orderSide o
    let pxStr ← require "limitPx" ((o.get "limitPx").bind Json.asStr)
    let szStr ← require "sz" ((o.get "sz").bind Json.asStr)
    let wallet ← parseWallet userStr
    let price ← parsePrice scales pxStr
    let qty ← parseQty scales szStr
    return ⟨oid, wallet, side, price, qty, ((o.get "timestamp").bind Json.asU64).getD 0⟩) := by
  rw [parseOrder, orderSide]
  cases (o.get "side").bind Json.asStr <;> rfl

end L4Book
