import L4Book.Refinement.Export
import L4Book.Results.ScaledText
import L4Book.Results.Sessions
import L4Book.Results.WalletHex

/-!
# Books read back from their exports

The export that the debug logger writes holds everything there is to a book. Read back and applied
as a snapshot it restores a book that no session tells from the one exported; and that is so even
for a reader who looks at the decimal texts only. So two books have the same export exactly when no
session tells them apart.

## Main definitions

* `readBook`: the orders of an export
* `rawField`, `textField`: two ways of reading a number from it

## Main results

* `readBook_exported`
* `exports_agree_iff`, `export_restores`
-/

namespace L4Book

variable {π : Profile} {b b' : OrderBook} {a : AbstractBook} {scales : Scales}

/-! ### Reading -/

/-- How a number is read: by the name of its field and the digits of its scale. -/
abbrev FieldReader := Json → String → ℕ → Option UInt64

/-- The number as it is in the book. -/
def rawField : FieldReader := fun v name _ => (v.get ("raw_" ++ name)).bind Json.asU64

/-- The number from its decimal text. -/
def textField : FieldReader := fun v name digits =>
  ((v.get name).bind Json.asStr).bind fun s => parseFixed s digits

/-- The side with this name. -/
def readSide (name : String) : Option Side :=
  if name = "bid" then some .bid else if name = "ask" then some .ask else none

/-- An order of an export. -/
def readOrder (field : FieldReader) (scales : Scales) (v : Json) : Option Order := do
  let id ← (v.get "id").bind Json.asU64
  let wallet ← (v.get "wallet").bind Json.asStr
  let wallet ← (WalletId.fromHex wallet).toOption
  let side ← (v.get "side").bind Json.asStr
  let side ← readSide side
  let price ← field v "price" scales.priceDigits
  let qty ← field v "qty" scales.qtyDigits
  let ts ← (v.get "ts").bind Json.asU64
  return ⟨id, wallet, side, price, qty, ts⟩

/-- The orders of a level of an export. -/
def readLevel (field : FieldReader) (scales : Scales) (v : Json) : Option (List Order) :=
  ((v.get "orders").bind Json.asArray).bind fun orders => orders.mapM (readOrder field scales)

/-- The orders of a side of an export. -/
def readBookSide (field : FieldReader) (scales : Scales) (v : Json) (name : String) :
    Option (List Order) :=
  ((v.get name).bind Json.asArray).bind fun levels =>
    List.flatten <$> levels.mapM (readLevel field scales)

/-- The orders of an export. -/
def readBook (field : FieldReader) (scales : Scales) (v : Json) : Option (List Order) := do
  let bids ← readBookSide field scales v "bids"
  let asks ← readBookSide field scales v "asks"
  return bids ++ asks

/-! ### What is read -/

/-- The reader gets the numbers of an order from its export. -/
structure ReadsOrders (field : FieldReader) (scales : Scales) : Prop where
  price : ∀ o, field (shownOrder scales o) "price" scales.priceDigits = some o.price
  qty : ∀ o, field (shownOrder scales o) "qty" scales.qtyDigits = some o.qty

theorem readsOrders_raw (scales : Scales) : ReadsOrders rawField scales where
  price _ := rfl
  qty _ := rfl

theorem parseFixed_scaledText (v : UInt64) {digits : ℕ} (hdigits : digits ≤ 19) :
    parseFixed (scaledText v.toNat digits) digits = some v :=
  (parseFixed_shownText v digits).trans (if_pos hdigits)

/-- With up to nineteen digits the texts are enough. -/
theorem readsOrders_text (hprice : scales.priceDigits ≤ 19) (hqty : scales.qtyDigits ≤ 19) :
    ReadsOrders textField scales where
  price o := parseFixed_scaledText o.price hprice
  qty o := parseFixed_scaledText o.qty hqty

theorem readSide_sideName (side : Side) : readSide (sideName side) = some side := by
  cases side <;> rfl

theorem readOrder_shownOrder {field : FieldReader} (h : ReadsOrders field scales) (o : Order) :
    readOrder field scales (shownOrder scales o) = some o := by
  have hid : ((shownOrder scales o).get "id").bind Json.asU64 = some o.id := rfl
  have hwallet : ((shownOrder scales o).get "wallet").bind Json.asStr =
    some o.wallet.debugFmt := rfl
  have hside : ((shownOrder scales o).get "side").bind Json.asStr = some (sideName o.side) := rfl
  have hts : ((shownOrder scales o).get "ts").bind Json.asU64 = some o.ts := rfl
  simp only [readOrder, hid, hwallet, hside, hts, h.price, h.qty, fromHex_debugFmt,
    readSide_sideName, Except.toOption, Option.bind_eq_bind, Option.bind_some]
  rfl

/-- What is read back entry by entry is read back as a list. -/
theorem mapM_map_eq_some {α β γ : Type} {f : β → Option γ} {g : α → β} {k : α → γ}
    (h : ∀ x, f (g x) = some (k x)) (l : List α) : (l.map g).mapM f = some (l.map k) := by
  induction l with
  | nil => rfl
  | cons x l ih =>
    rw [List.map_cons, List.mapM_cons, h x, ih]
    rfl

theorem readLevel_shownLevel {field : FieldReader} (h : ReadsOrders field scales) (price : Price)
    (orders : List Order) :
    readLevel field scales (shownLevel scales price orders) = some orders := by
  have horders : ((shownLevel scales price orders).get "orders").bind Json.asArray =
    some (orders.map (shownOrder scales)) := rfl
  have hread := mapM_map_eq_some (k := id) (readOrder_shownOrder h) orders
  rw [readLevel, horders, Option.bind_some, hread, List.map_id]

/-- **An export is read back**: the live orders, best price first and in time priority. -/
theorem readBook_exported {field : FieldReader} (h : ReadsOrders field scales)
    (a : AbstractBook) : readBook field scales (a.exported scales) = some a.orders := by
  have hside : ∀ side, List.flatten <$> ((a.prices side).map fun price =>
      shownLevel scales price (a.queue (side, price))).mapM (readLevel field scales) =
        some (a.ladder side) := by
    intro side
    rw [mapM_map_eq_some fun price => readLevel_shownLevel h price (a.queue (side, price))]
    exact congrArg some List.flatMap_def.symm
  have hbids : readBookSide field scales (a.exported scales) "bids" = some (a.ladder .bid) :=
    hside .bid
  have hasks : readBookSide field scales (a.exported scales) "asks" = some (a.ladder .ask) :=
    hside .ask
  rw [readBook, hbids, hasks]
  rfl

/-! ### Exports and sessions -/

/-- **Two books have the same export exactly when no session tells them apart.** -/
theorem exports_agree_iff (scales : Scales) (hb : Reachable π b) (hb' : Reachable π b')
    (hprice : scales.priceDigits ≤ 38) (hqty : scales.qtyDigits ≤ 38) :
    bookSnapshot π scales b = bookSnapshot π scales b' ↔
      ∀ requests, b.responses π requests = b'.responses π requests := by
  obtain ⟨a, h⟩ := hb.represents
  obtain ⟨a', h'⟩ := hb'.represents
  rw [bookSnapshot_spec h ⟨hprice, hqty⟩, bookSnapshot_spec h' ⟨hprice, hqty⟩, Except.ok.injEq]
  constructor
  · intro hexport requests
    have horders := readBook_exported (readsOrders_raw scales) a
    rw [hexport, readBook_exported (readsOrders_raw scales), Option.some.injEq] at horders
    have hsame : a = a' := KeyedQueues.ext (funext fun k => by
      rw [← AbstractBook.atPlace_orders a, ← horders, AbstractBook.atPlace_orders])
    subst hsame
    exact responses_congr h h' requests
  · intro hagree
    rw [eq_of_responses h h' hagree]

/-- The two sample books, with prices in cents: the same export, and so the same best bid. -/
theorem exports_agree_iff_sample :
    bookSnapshot .dev ⟨2, 1⟩ sampleBook = bookSnapshot .dev ⟨2, 1⟩ shuffledBook ∧
      sampleBook.responses .dev [.query .bestBid] =
        shuffledBook.responses .dev [.query .bestBid] :=
  ⟨rfl, (exports_agree_iff ⟨2, 1⟩ sampleBook_reachable shuffledBook_reachable (by decide)
    (by decide)).mp rfl [.query .bestBid]⟩

/-- **An export restores the book**, even from its decimal texts: what is read back can be applied
as a snapshot, to whatever book there is, and no session tells the result from the book exported.
Its own export is the same again. -/
theorem export_restores (scales : Scales) (hb : Reachable π b) (hprice : scales.priceDigits ≤ 19)
    (hqty : scales.qtyDigits ≤ 19) (other : OrderBook) :
    ∃ v orders restored, bookSnapshot π scales b = .ok v ∧
      readBook textField scales v = some orders ∧
      other.applySnapshot π orders = .ok (.ok (), restored) ∧
      (∀ requests, restored.responses π requests = b.responses π requests) ∧
      bookSnapshot π scales restored = .ok v := by
  obtain ⟨a, h⟩ := hb.represents
  have hscales : scales.Showable := ⟨by omega, by omega⟩
  obtain ⟨restored, hsnapshot, hrestored⟩ := applySnapshot_restores h other
  exact ⟨a.exported scales, a.orders, restored, bookSnapshot_spec h hscales,
    readBook_exported (readsOrders_text hprice hqty) a, hsnapshot,
    fun requests => responses_congr hrestored h requests, bookSnapshot_spec hrestored hscales⟩

/-- The sample book restored, with prices in cents; its best bid is still there. -/
theorem export_restores_sample : ∃ v orders restored,
    bookSnapshot .dev ⟨2, 1⟩ sampleBook = .ok v ∧ readBook textField ⟨2, 1⟩ v = some orders ∧
      OrderBook.new.applySnapshot .dev orders = .ok (.ok (), restored) ∧
      restored.responses .dev [.query .bestBid] = .ok [.answer (.price (some 100))] := by
  obtain ⟨v, orders, restored, hexport, hread, hsnapshot, hsame, -⟩ :=
    export_restores ⟨2, 1⟩ sampleBook_reachable (by decide) (by decide) OrderBook.new
  exact ⟨v, orders, restored, hexport, hread, hsnapshot, (hsame _).trans rfl⟩

end L4Book
