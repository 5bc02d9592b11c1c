import L4Book.Results.Accounting
import L4Book.Results.FixedPoint

/-!
# Sizes on the wire

What becomes of a size between the wire and the book: it is scaled to an integer and rounded down.
So a positive size can become zero. It does exactly when it is below one unit of the scale, and then
an order of that size has a quantity of zero, and an `update` or a `modified` to it is a complete
fill.

## Main definitions

* `KeepsPositive`: the positive sizes in a line stay positive
* `Truncates`: a size is scaled and rounded down
* `SizesOf`: what becomes of the sizes in a line

## Main results

* `wireSizes_truncated`
* `not_forall_keepsPositive`: a tenth of a unit
-/

namespace L4Book

/-- The text of the size in a `new`. -/
def newSize (d : Json) : Option String :=
  ((d.get "raw_book_diff").bind fun raw => raw.get "new").bind fun newObj =>
    (newObj.get "sz").bind Json.asStr

/-- The text is a decimal numeral of a positive number. -/
def PositiveNumeral (sz : String) : Prop :=
  ∃ int frac, WritesNumeral (asBytes sz) int frac ∧ 0 < decimalValue int frac

/-- The operation collapses a complete fill. -/
def ReasonedBookOp.IsCollapsed (r : ReasonedBookOp) : Prop :=
  ∃ status, r.cause = .venue "dwellir" .completeFillCollapsed status

/-- A positive size in the line never becomes a quantity of zero, and is neither collapsed into a
removal nor counted as a complete fill. -/
def KeepsPositive (scales : Scales) (v : Json) : DecodedWithMeta → Prop
  | .skip => True
  | .snapshot orders _ => ∀ snap, v.payload "Snapshot" = some snap →
      List.Forall₂ (fun o order => ∀ sz, (o.get "sz").bind Json.asStr = some sz →
        PositiveNumeral sz → 0 < order.qty) (wireOrders snap) orders
  | .updates batch => ∀ updates, v.payload "Updates" = some updates → ∀ d ∈ bookDiffs updates,
      (∀ order, (∃ r ∈ batch.ops, MadeInto scales updates d r ∧ r.op = .add order) →
        ∀ sz, newSize d = some sz → PositiveNumeral sz → 0 < order.qty) ∧
      ((∃ r ∈ batch.ops, MadeInto scales updates d r ∧ r.IsCollapsed) →
        ∀ sz, statedSize d = some sz → ¬ PositiveNumeral sz) ∧
      (statedQty scales d = some 0 → ∀ sz, statedSize d = some sz → ¬ PositiveNumeral sz)

/-- The text, where it is a decimal numeral, is scaled and rounded down to the quantity. That is
zero for a number below one unit of the scale, and for no other. -/
def Truncates (scales : Scales) (sz : String) (qty : Qty) : Prop :=
  ∀ int frac, WritesNumeral (asBytes sz) int frac →
    qty.toNat = ⌊decimalValue int frac * 10 ^ scales.qtyDigits⌋₊ ∧
      (qty = 0 ↔ decimalValue int frac < 1 / 10 ^ scales.qtyDigits)

/-- What becomes of the sizes in a message of updates. -/
structure UpdateSizes (scales : Scales) (updates : Json) (batch : ReasonedUpdateBatch) : Prop where
  made : ∀ r ∈ batch.ops, ∃ d ∈ bookDiffs updates, MadeInto scales updates d r
  add : ∀ d r order, MadeInto scales updates d r → r.op = .add order →
    ∃ sz, newSize d = some sz ∧ Truncates scales sz order.qty
  collapsed : ∀ d r, MadeInto scales updates d r → r.IsCollapsed →
    ∃ sz, statedSize d = some sz ∧ Truncates scales sz 0
  counted : batch.collapsedCompleteFills =
    (bookDiffs updates).countP fun d => statedQty scales d = some 0
  stated : ∀ d ∈ bookDiffs updates, ∀ sz, statedSize d = some sz →
    ∃ newQty, statedQty scales d = some newQty ∧ Truncates scales sz newQty

/-- What becomes of the sizes in a line. -/
def SizesOf (scales : Scales) (v : Json) : DecodedWithMeta → Prop
  | .skip => True
  | .snapshot orders _ => ∃ snap, v.payload "Snapshot" = some snap ∧
      List.Forall₂ (fun o order => ∃ sz, (o.get "sz").bind Json.asStr = some sz ∧
        Truncates scales sz order.qty) (wireOrders snap) orders
  | .updates batch => ∃ updates, v.payload "Updates" = some updates ∧
      UpdateSizes scales updates batch

variable {parseJson : String → Except String Json} {scales : Scales} {updates d : Json}
  {batch : ReasonedUpdateBatch} {r : ReasonedBookOp} {order : Order} {line sz : String} {qty : Qty}
  {decoded : DecodedWithMeta}

/-- **What is parsed is rounded down.** -/
theorem truncates_of_parseFixed (h : parseFixed sz scales.qtyDigits = some qty) :
    Truncates scales sz qty := by
  intro int frac hwrites
  have hscale : scales.qtyDigits ≤ 19 := by
    rw [parseFixed_eq] at h
    split at h
    case isTrue hreadable => exact hreadable.scale
    case isFalse => cases h
  rw [hwrites.parseFixed_eq hscale] at h
  have hqty := toNat_of_checked_eq_some h
  refine ⟨hqty, ?_⟩
  have hpos : (0 : ℚ) < 10 ^ scales.qtyDigits := pow_pos (by norm_num) _
  rw [← UInt64.toNat_inj, hqty, lt_div_iff₀ hpos]
  exact Nat.floor_eq_zero

/-- The size of an order that is added. -/
theorem exists_newSize (h : MadeInto scales updates d r) (hop : r.op = .add order) :
    ∃ sz, newSize d = some sz ∧ parseFixed sz scales.qtyDigits = some order.qty := by
  obtain ⟨diff, hread, hr⟩ := h
  obtain ⟨text, rfl⟩ := eq_new_of_op_eq_add hr hop
  obtain ⟨newObj, sz, hnew, hsz, hqty⟩ := (opensFrom_of_readDiff hread).qty
  refine ⟨sz, ?_, hqty⟩
  rw [newSize, hnew]
  exact hsz

/-- The size of a fill that is collapsed. -/
theorem exists_statedSize (h : MadeInto scales updates d r) (hcollapsed : r.IsCollapsed) :
    ∃ sz, statedSize d = some sz ∧ parseFixed sz scales.qtyDigits = some 0 := by
  obtain ⟨diff, hread, hr⟩ := h
  obtain ⟨text, hcause⟩ := hcollapsed
  have hzero := (shape_of_readDiff hread).2.2.1
  rw [collapses_of_cause hr hcause] at hzero
  exact Option.bind_eq_some_iff.mp (of_decide_eq_true hzero.symm)

/-- **Sizes in a message of updates.** -/
theorem updateSizes (h : decodeUpdatesWithMeta scales updates = .ok batch) :
    UpdateSizes scales updates batch := by
  have haccounts := accountsFor h
  constructor
  case made =>
    obtain ⟨sources, hsub, hmade⟩ := haccounts.inOrder
    intro r hr
    obtain ⟨d, hd, hdr⟩ := exists_of_mem_forall₂ hmade hr
    exact ⟨d, hsub.subset hd, hdr⟩
  case add =>
    intro d r order hmade hop
    obtain ⟨sz, hsz, hqty⟩ := exists_newSize hmade hop
    exact ⟨sz, hsz, truncates_of_parseFixed hqty⟩
  case collapsed =>
    intro d r hmade hcollapsed
    obtain ⟨sz, hsz, hqty⟩ := exists_statedSize hmade hcollapsed
    exact ⟨sz, hsz, truncates_of_parseFixed hqty⟩
  case counted => exact haccounts.collapsed
  case stated =>
    obtain ⟨ds, hds, -⟩ := exists_decoding h
    intro d hd sz hsz
    obtain ⟨diff, -, hread⟩ := exists_of_mem_forall₂ (forall₂_of_readDiffs hds).flip hd
    obtain ⟨newQty, hqty⟩ := exists_statedQty hread hsz
    exact ⟨newQty, by rw [statedQty, hsz]; exact hqty, truncates_of_parseFixed hqty⟩

/-! ### A tenth of a unit -/

/-- A tenth of a unit. -/
def dust : String := "0.000000001"

theorem positiveNumeral_dust : PositiveNumeral dust := by
  refine ⟨asBytes "0", asBytes "000000001", ?_, by decide +kernel⟩
  exact ⟨by decide, by decide +kernel, by decide +kernel, Or.inr (by decide +kernel)⟩

/-- An order of a tenth of a unit, in a snapshot. -/
def dustOrder : Json :=
  .object [("user", .string "0xaaaaaaaaaaaaaaaaaaaaaaaaaaaaaaaaaaaaaaaa"), ("side", .string "B"),
    ("limitPx", .string "1"), ("sz", .string dust), ("oid", .number (.posInt 7)),
    ("timestamp", .number (.posInt 123))]

/-- A snapshot with that order. -/
def dustSnapshot : Json :=
  .object [("channel", .string "l4Book"), ("data", .object [("Snapshot",
    .object [("levels", .array [.array [dustOrder]])])])]

/-- The payload of a `new` of a tenth of a unit. -/
def dustNew : Json := .object [("new", .object [("sz", .string dust)])]

/-- The payload of an `update` to a tenth of a unit. -/
def dustUpdate : Json := .object [("update", .object [("newSz", .string dust)])]

/-- A message with such diffs. -/
def dustUpdates (raw : Json) : Json :=
  .object [("channel", .string "l4Book"), ("data", .object [("Updates", sampleMessage [raw])])]

/-! ### A line -/

/-- **Sizes are rounded down**: what becomes of the sizes in a line that is accepted. -/
theorem wireSizes_truncated (h : decodeLineWithMeta parseJson scales line = .ok decoded) :
    ∃ v, parseJson line = .ok v ∧ SizesOf scales v decoded := by
  obtain ⟨v, hv, hcases⟩ := decodeLineWithMeta_cases h
  rcases hcases with rfl | ⟨snap, orders, hsnap, horders, rfl⟩ |
    ⟨updates, batch, hupdates, hbatch, rfl⟩
  · exact ⟨v, hv, trivial⟩
  · refine ⟨v, hv, snap, hsnap, (mapM_eq_ok_iff.mp (mapM_of_decodeSnapshot horders)).imp ?_⟩
    intro o order horder
    obtain ⟨sz, hsz, hqty⟩ := exists_size_of_parseOrder horder
    exact ⟨sz, hsz, truncates_of_parseFixed hqty⟩
  · exact ⟨v, hv, updates, hupdates, updateSizes hbatch⟩

/-- A complete fill that is not quite one. -/
theorem wireSizes_truncated_sample :
    ∃ v, (.ok (dustUpdates dustUpdate) : Except String Json) = .ok v ∧
      SizesOf .btcDefault v (.updates
        ⟨[⟨.remove 7, .venue "dwellir" .completeFillCollapsed (some "open")⟩], 1, 0, 0⟩) :=
  @wireSizes_truncated (fun _ => .ok (dustUpdates dustUpdate)) .btcDefault "line" _
    (by decide +kernel)

/-- A tenth of a unit is an order without a quantity in a snapshot and in a `new`, and a complete
fill in an `update`. -/
theorem not_forall_keepsPositive :
    (∃ decoded, decodeLineWithMeta (fun _ => .ok dustSnapshot) .btcDefault "line" = .ok decoded ∧
      ¬ KeepsPositive .btcDefault dustSnapshot decoded) ∧
    (∃ decoded, decodeLineWithMeta (fun _ => .ok (dustUpdates dustNew)) .btcDefault "line" =
      .ok decoded ∧ ¬ KeepsPositive .btcDefault (dustUpdates dustNew) decoded) ∧
    ∃ decoded, decodeLineWithMeta (fun _ => .ok (dustUpdates dustUpdate)) .btcDefault "line" =
      .ok decoded ∧ ¬ KeepsPositive .btcDefault (dustUpdates dustUpdate) decoded := by
  have hpositive := positiveNumeral_dust
  refine ⟨?_, ?_, ?_⟩
  · refine ⟨.snapshot [openedOrder.withQty 0] .snapshot, by decide +kernel, fun h => ?_⟩
    have hsizes := h (.object [("levels", .array [.array [dustOrder]])]) rfl
    have horder := (List.forall₂_cons.mp hsizes).1 dust rfl hpositive
    exact absurd horder (by decide)
  · refine ⟨.updates ⟨[⟨.add (openedOrder.withQty 0), .venue "dwellir" .new (some "open")⟩],
      0, 0, 0⟩, by decide +kernel, fun h => ?_⟩
    have hadd := (h _ rfl (sampleDiff dustNew) List.mem_cons_self).1 (openedOrder.withQty 0)
      ⟨_, List.mem_cons_self, ⟨.new (openedOrder.withQty 0) (some "open"), by decide +kernel, rfl⟩,
        rfl⟩ dust rfl hpositive
    exact absurd hadd (by decide)
  · refine ⟨.updates ⟨[⟨.remove 7, .venue "dwellir" .completeFillCollapsed (some "open")⟩],
      1, 0, 0⟩, by decide +kernel, fun h => ?_⟩
    exact (h _ rfl (sampleDiff dustUpdate) List.mem_cons_self).2.1
      ⟨_, List.mem_cons_self, ⟨.update 7 0, by decide +kernel, by decide +kernel⟩, _, rfl⟩ dust rfl
        hpositive

end L4Book
