import L4Book.Refinement.WireMessages
import L4Book.Results.Captures
import L4Book.Results.Exports

/-!
# Books over the wire

An update message is decoded to its operations exactly if nothing in it is lost on the way: no order
is removed twice, no size is set to zero, and new orders of one id agree in what their statuses say.

So a book can be mirrored: whoever streams a snapshot message of it and then messages with the
operations has, whatever book there was before, a book that answers every session alike.

## Main definitions

* `Sendable`: the operations that one message can carry
* `snapshotMessage`, `updatesMessage`: messages in their plainest form

## Main results

* `decode_updatesMessage_iff`
* `wire_mirrors`
-/

namespace L4Book

variable {scales : Scales} {π : Profile} {ops : List BookOp} {o : Order} {id : OrderId} {v : Json}

/-! ### What a message can carry -/

/-- The id that an operation removes. -/
def removedId : BookOp → Option OrderId
  | .remove id => some id
  | _ => none

/-- The operations that one message can carry. -/
structure Sendable (ops : List BookOp) : Prop where
  /-- No id is removed twice. -/
  removes : (ops.filterMap removedId).Nodup
  /-- No size is set to zero. -/
  sizes : ∀ id, .updateSize id 0 ∉ ops ∧ .amendSize id 0 ∉ ops
  /-- New orders of one id agree in what a status says. -/
  adds : ∀ o o', .add o ∈ ops → .add o' ∈ ops → o.id = o'.id → o.side = o'.side ∧ o.ts = o'.ts

section

variable {f : BookOp → Diff} {removed : Finset OrderId}

/-- Nothing is added to the operations. -/
theorem length_dedupe_le (hf : ∀ op, ∃ x, (f op).directOps = [x]) (ops : List BookOp)
    (removed : Finset OrderId) : (dedupe removed (ops.map f)).length ≤ ops.length := by
  induction ops generalizing removed with
  | nil => exact le_rfl
  | cons op ops ih =>
    obtain ⟨x, hx⟩ := hf op
    rw [List.map_cons, List.length_cons]
    cases hop : (f op).removes with
    | none =>
      rw [dedupe_cons_of_none hop, hx, List.singleton_append, List.length_cons]
      exact Nat.succ_le_succ (ih removed)
    | some oid =>
      by_cases hmem : oid ∈ removed
      · rw [dedupe_cons_of_mem hop hmem]
        exact (ih removed).trans (Nat.le_succ _)
      · rw [dedupe_cons_of_not_mem hop hmem, List.length_cons]
        exact Nat.succ_le_succ (ih _)

/-- A diff that stands for a removal is one. -/
theorem removedId_eq {op : BookOp} (hop : (f op).directOps = [op]) :
    removedId op = (f op).removes := by
  cases hremoves : (f op).removes with
  | some oid =>
    rw [directOps_of_removes hremoves] at hop
    obtain rfl := List.singleton_injective hop
    rfl
  | none =>
    have hmem : op ∈ (f op).directOps := hop ▸ List.mem_singleton_self op
    rcases directOps_of_none hremoves hmem with ⟨_, _, -, rfl⟩ | ⟨_, _, -, rfl | rfl⟩ <;> rfl

/-- **The decoder gives back the operations** whose diffs it reads as themselves and of which none
removes an id that was removed before. -/
theorem dedupe_map_eq_iff (hf : ∀ op, ∃ x, (f op).directOps = [x]) (ops : List BookOp)
    (removed : Finset OrderId) :
    dedupe removed (ops.map f) = ops ↔
      (∀ op ∈ ops, (f op).directOps = [op]) ∧ (ops.filterMap removedId).Nodup ∧
        ∀ id ∈ ops.filterMap removedId, id ∉ removed := by
  induction ops generalizing removed with
  | nil => simp [dedupe]
  | cons op ops ih =>
    obtain ⟨x, hx⟩ := hf op
    rw [List.map_cons, List.forall_mem_cons]
    by_cases hop : (f op).directOps = [op]
    · rw [List.filterMap_cons, removedId_eq hop]
      cases hremoves : (f op).removes with
      | none =>
        rw [dedupe_cons_of_none hremoves, hop, List.singleton_append, List.cons.injEq, ih removed]
        simp
      | some oid =>
        rw [directOps_of_removes hremoves] at hop
        obtain rfl := List.singleton_injective hop
        by_cases hmem : oid ∈ removed
        · rw [dedupe_cons_of_mem hremoves hmem]
          refine iff_of_false (fun heq => ?_) fun h => ?_
          · have hle := length_dedupe_le hf ops removed
            rw [heq, List.length_cons] at hle
            exact Nat.not_succ_le_self _ hle
          · exact h.2.2 oid List.mem_cons_self hmem
        · rw [dedupe_cons_of_not_mem hremoves hmem, List.cons.injEq, ih, List.nodup_cons,
            List.forall_mem_cons]
          simp only [Finset.mem_insert, not_or]
          constructor
          · rintro ⟨-, hdirect, hnodup, hfresh⟩
            exact ⟨⟨directOps_of_removes hremoves, hdirect⟩, ⟨fun hoid => (hfresh _ hoid).1 rfl,
              hnodup⟩, hmem, fun id hid => (hfresh id hid).2⟩
          · rintro ⟨⟨-, hdirect⟩, ⟨hoid, hnodup⟩, -, hfresh⟩
            exact ⟨trivial, hdirect, hnodup, fun id hid =>
              ⟨fun heq => hoid (heq ▸ hid), hfresh id hid⟩⟩
    · refine iff_of_false (fun heq => ?_) fun h => hop h.1.1
      cases hremoves : (f op).removes with
      | none =>
        rw [dedupe_cons_of_none hremoves, hx] at heq
        exact hop (hx.trans (congrArg (fun op => [op]) (List.cons.inj heq).1))
      | some oid =>
        by_cases hmem : oid ∈ removed
        · have hle := length_dedupe_le hf ops removed
          rw [dedupe_cons_of_mem hremoves hmem] at heq
          rw [heq, List.length_cons] at hle
          exact Nat.not_succ_le_self _ hle
        · rw [dedupe_cons_of_not_mem hremoves hmem] at heq
          rw [directOps_of_removes hremoves] at hop
          exact hop (congrArg (fun op => [op]) (List.cons.inj heq).1)

end

/-- Every operation is read as itself exactly if sizes are positive and statuses agree. -/
theorem directOps_wireRead_iff :
    (∀ op ∈ ops, (wireRead ops op).directOps = [op]) ↔
      (∀ id, .updateSize id 0 ∉ ops ∧ .amendSize id 0 ∉ ops) ∧
      ∀ o o', .add o ∈ ops → .add o' ∈ ops → o.id = o'.id → o.side = o'.side ∧ o.ts = o'.ts := by
  have hadded : ∀ o : Order, o ∈ ops.filterMap addedOrder ↔ .add o ∈ ops := by
    intro o
    rw [List.mem_filterMap]
    constructor
    · rintro ⟨op, hop, hadd⟩
      cases op <;> cases hadd
      exact hop
    · exact fun hop => ⟨_, hop, rfl⟩
  constructor
  · intro h
    refine ⟨fun id => ⟨fun hop => ?_, fun hop => ?_⟩, fun o o' ho ho' hid => ?_⟩
    · cases h _ hop
    · cases h _ hop
    · -- both agree with the last status of their id
      have hsame : ∀ o : Order, .add o ∈ ops → ∀ last,
          lastWithId o.id (ops.filterMap addedOrder) = some last →
            o.side = last.side ∧ o.ts = last.ts := by
        intro o ho last hlast
        have heq : statusApplied ops o = o :=
          BookOp.add.inj (List.singleton_injective (h _ ho))
        have happlied : statusApplied ops o = { o with side := last.side, ts := last.ts } := by
          rw [statusApplied, hlast]
        have hside := congrArg Order.side (heq.symm.trans happlied)
        have hts := congrArg Order.ts (heq.symm.trans happlied)
        exact ⟨hside, hts⟩
      obtain ⟨last, hlast, -, -⟩ := exists_lastWithId ((hadded o).mpr ho)
      obtain ⟨hside, hts⟩ := hsame o ho last hlast
      obtain ⟨hside', hts'⟩ := hsame o' ho' last (hid ▸ hlast)
      exact ⟨hside.trans hside'.symm, hts.trans hts'.symm⟩
  · rintro ⟨hsizes, hadds⟩ op hop
    cases op with
    | remove id => rfl
    | updateSize id newQty =>
      refine congrArg (fun op => [op]) (if_neg ?_)
      rintro rfl
      exact (hsizes id).1 hop
    | amendSize id newQty =>
      refine congrArg (fun op => [op]) (if_neg ?_)
      rintro rfl
      exact (hsizes id).2 hop
    | add o =>
      obtain ⟨last, hlast, hmem, hid⟩ := exists_lastWithId ((hadded o).mpr hop)
      obtain ⟨hside, hts⟩ := hadds o last hop ((hadded last).mp hmem) hid.symm
      show [BookOp.add (statusApplied ops o)] = [.add o]
      rw [statusApplied, hlast]
      show [BookOp.add { o with side := last.side, ts := last.ts }] = [.add o]
      rw [← hside, ← hts]

/-- **The operations of a message are decoded as such** exactly if one message can carry them. -/
theorem dedupe_wireRead_iff : dedupe ∅ (ops.map (wireRead ops)) = ops ↔ Sendable ops := by
  have hsingle : ∀ op, ∃ x, (wireRead ops op).directOps = [x] := by
    intro op
    cases op <;> exact ⟨_, rfl⟩
  rw [dedupe_map_eq_iff hsingle, directOps_wireRead_iff]
  constructor
  · exact fun h => ⟨h.2.1, h.1.1, h.1.2⟩
  · exact fun h => ⟨⟨h.sizes, h.adds⟩, h.removes, fun _ _ => Finset.notMem_empty _⟩

/-- **What an update message is decoded to**: the very operations it was written for, exactly if
one message can carry them. -/
theorem decode_updatesMessage_iff (h : WritesUpdates scales ops v)
    (hprice : scales.priceDigits ≤ 19) (hqty : scales.qtyDigits ≤ 19) :
    ∃ batch, decodeValueWithMeta scales v = .ok (.updates batch) ∧
      (batch.ops.map ReasonedBookOp.op = ops ↔ Sendable ops) := by
  obtain ⟨batch, hdecode, hops⟩ := h.exists_batch hprice hqty
  refine ⟨batch, hdecode, ?_⟩
  rw [hops, dedupe_wireRead_iff]

/-! ### The documented examples -/

/-- The new order of the first documented update. -/
def documentedOrder : Order where
  id := 289682192129
  wallet := ⟨#v[0xbc, 0x92, 0x7e, 0x87, 0xd0, 0x72, 0xdf, 0xac, 0x36, 0x93, 0x84, 0x6a, 0x83, 0xfa,
    0x69, 0x22, 0xcc, 0x6c, 0x5f, 0x2a]⟩
  side := .bid
  price := 90056000000
  qty := 14000
  ts := 1767878802703

/-- An update message with these statuses and diffs. -/
def documentedUpdates (time height : UInt64) (statuses diffs : List Json) : Json :=
  .object [("channel", .string "l4Book"), ("data", .object [("Updates", .object [
    ("time", .number (.posInt time)), ("height", .number (.posInt height)),
    ("order_statuses", .array statuses), ("book_diffs", .array diffs)])])]

/-- The status of the new order. -/
def documentedStatus : Json :=
  .object [("time", .string "2026-01-08T13:26:42.703377851"),
    ("user", .string "0xbc927e87d072dfac3693846a83fa6922cc6c5f2a"), ("status", .string "open"),
    ("order", .object [("user", .null), ("coin", .string "BTC"), ("side", .string "B"),
      ("limitPx", .string "90056.0"), ("sz", .string "0.00014"),
      ("oid", .number (.posInt 289682192129)), ("timestamp", .number (.posInt 1767878802703)),
      ("triggerCondition", .string "N/A"), ("isTrigger", .bool false),
      ("triggerPx", .string "0.0"), ("isPositionTpsl", .bool false), ("reduceOnly", .bool false),
      ("orderType", .string "Limit"), ("tif", .string "Alo"),
      ("cloid", .string "0xa097c34ee13a42a1afeed2a5ce96b413")])]

/-- The diff of the new order. -/
def documentedNewDiff : Json :=
  .object [("user", .string "0xbc927e87d072dfac3693846a83fa6922cc6c5f2a"),
    ("oid", .number (.posInt 289682192129)), ("px", .string "90056.0"), ("coin", .string "BTC"),
    ("raw_book_diff", .object [("new", .object [("sz", .string "0.00014")])])]

/-- The diff of a partial fill. -/
def documentedFillDiff : Json :=
  .object [("user", .string "0x97991003fd631e2923f40cab2a4fdc35e60dc807"),
    ("oid", .number (.posInt 316542552323)), ("px", .string "84.371"), ("coin", .string "SOL"),
    ("raw_book_diff", .object [("update", .object [("origSz", .string "108.65"),
      ("newSz", .string "107.5")])])]

theorem writesUpdates_documentedNew : WritesUpdates .btcDefault [.add documentedOrder]
    (documentedUpdates 1767878802703 854890776 [documentedStatus] [documentedNewDiff]) := by
  have hwallet : documentedOrder.wallet.debugFmt =
    "0xbc927e87d072dfac3693846a83fa6922cc6c5f2a" := by decide +kernel
  have hstatus : WritesStatus documentedOrder documentedStatus := ⟨rfl, _, rfl, rfl, rfl, rfl⟩
  have hprice : HoldsScaled documentedNewDiff "px" 6 documentedOrder.price :=
    ⟨"90056.0", asBytes "90056", asBytes "0", rfl, ⟨by decide +kernel, by decide +kernel,
      by decide +kernel, Or.inr (by decide +kernel)⟩, by decide +kernel⟩
  have hqty : HoldsScaled (.object [("sz", .string "0.00014")]) "sz" 8 documentedOrder.qty :=
    ⟨"0.00014", asBytes "0", asBytes "00014", rfl, ⟨by decide +kernel, by decide +kernel,
      by decide +kernel, Or.inr (by decide +kernel)⟩, by decide +kernel⟩
  have hdiff : WritesDiff .btcDefault (.add documentedOrder) documentedNewDiff := by
    refine ⟨rfl, ⟨_, rfl, _, ⟨rfl, by decide⟩, hqty⟩, ?_⟩
    rintro o ⟨⟩
    exact ⟨hwallet ▸ rfl, hprice⟩
  exact ⟨_, _, _, ⟨_, _, ⟨by decide, rfl, rfl⟩, rfl, rfl, by decide⟩, rfl, rfl,
    .cons hstatus .nil, .cons hdiff .nil⟩

theorem writesUpdates_documentedFill : WritesUpdates .btcDefault
    [.updateSize 316542552323 10750000000]
    (documentedUpdates 1767878902834 854890880 [] [documentedFillDiff]) := by
  have hqty : HoldsScaled (.object [("origSz", .string "108.65"), ("newSz", .string "107.5")])
      "newSz" 8 10750000000 :=
    ⟨"107.5", asBytes "107", asBytes "5", rfl, ⟨by decide +kernel, by decide +kernel,
      by decide +kernel, Or.inr (by decide +kernel)⟩, by decide +kernel⟩
  have hdiff : WritesDiff .btcDefault (.updateSize 316542552323 10750000000) documentedFillDiff :=
    ⟨rfl, ⟨_, rfl, _, ⟨rfl, by decide⟩, hqty⟩, by rintro o ⟨⟩⟩
  exact ⟨_, _, _, ⟨_, _, ⟨by decide, rfl, rfl⟩, rfl, rfl, by decide⟩, rfl, rfl, .nil,
    .cons hdiff .nil⟩

/-- Both documented messages are decoded to the operations they stand for. -/
theorem decode_updatesMessage_iff_sample :
    (∃ batch, decodeValueWithMeta .btcDefault (documentedUpdates 1767878802703 854890776
        [documentedStatus] [documentedNewDiff]) = .ok (.updates batch) ∧
      batch.ops.map ReasonedBookOp.op = [.add documentedOrder]) ∧
    ∃ batch, decodeValueWithMeta .btcDefault (documentedUpdates 1767878902834 854890880 []
        [documentedFillDiff]) = .ok (.updates batch) ∧
      batch.ops.map ReasonedBookOp.op = [.updateSize 316542552323 10750000000] := by
  have hprice : Scales.btcDefault.priceDigits ≤ 19 := by decide
  have hqty : Scales.btcDefault.qtyDigits ≤ 19 := by decide
  have hnew : Sendable [.add documentedOrder] := ⟨by decide, by simp, by
    simp only [List.mem_singleton, BookOp.add.injEq]
    rintro o o' rfl rfl -
    exact ⟨rfl, rfl⟩⟩
  have hfill : Sendable [.updateSize 316542552323 10750000000] := ⟨by decide, by simp, by simp⟩
  obtain ⟨batch, hdecode, hiff⟩ := decode_updatesMessage_iff writesUpdates_documentedNew hprice hqty
  obtain ⟨batch', hdecode', hiff'⟩ :=
    decode_updatesMessage_iff writesUpdates_documentedFill hprice hqty
  exact ⟨⟨batch, hdecode, hiff.mpr hnew⟩, batch', hdecode', hiff'.mpr hfill⟩

/-! ### Plain messages -/

section

variable (scales : Scales)

/-- A price as it is shown. -/
def wirePrice (price : Price) : Json := .string (scaledText price.toNat scales.priceDigits)

/-- A size as it is shown. -/
def wireQty (qty : Qty) : Json := .string (scaledText qty.toNat scales.qtyDigits)

/-- A message on the channel of the book. -/
def bookMessage (key : String) (payload : Json) : Json :=
  .object [("channel", .string "l4Book"), ("data", .object [(key, payload)])]

/-- An order of a snapshot. -/
def wireOrder (o : Order) : Json :=
  .object [("user", .string o.wallet.debugFmt), ("side", .string (sideLetter o.side)),
    ("limitPx", wirePrice scales o.price), ("sz", wireQty scales o.qty),
    ("oid", .number (.posInt o.id)), ("timestamp", .number (.posInt o.ts))]

/-- A snapshot message. -/
def snapshotMessage (orders : List Order) : Json :=
  bookMessage "Snapshot" (.object [("levels", .array
    [.array ((ofSide .bid orders).map (wireOrder scales)),
      .array ((ofSide .ask orders).map (wireOrder scales))])])

/-- The status of a new order. -/
def wireStatus (o : Order) : Json :=
  .object [("status", .string "open"), ("order", .object [("side", .string (sideLetter o.side)),
    ("oid", .number (.posInt o.id)), ("timestamp", .number (.posInt o.ts))])]

/-- The `raw_book_diff` of an operation. -/
def wireChange : BookOp → Json
  | .add o => .object [("new", .object [("sz", wireQty scales o.qty)])]
  | .remove _ => .string "remove"
  | .updateSize _ newQty => .object [("update", .object [("newSz", wireQty scales newQty)])]
  | .amendSize _ newQty => .object [("modified", .object [("sz", wireQty scales newQty)])]

/-- The diff of an operation. -/
def wireDiff (op : BookOp) : Json :=
  .object ([("oid", .number (.posInt op.orderId)), ("raw_book_diff", wireChange scales op)] ++
    match addedOrder op with
    | some o => [("user", .string o.wallet.debugFmt), ("px", wirePrice scales o.price)]
    | none => [])

/-- An update message. -/
def updatesMessage (ops : List BookOp) : Json :=
  bookMessage "Updates" (.object
    [("order_statuses", .array ((ops.filterMap addedOrder).map wireStatus)),
      ("book_diffs", .array (ops.map (wireDiff scales)))])

end

theorem holdsScaled_scaledText {key : String} {digits : ℕ} {n : UInt64}
    (h : v.get key = some (.string (scaledText n.toNat digits))) : HoldsScaled v key digits n := by
  refine ⟨_, _, _, h, writesNumeral_shownText n.toNat digits, ?_⟩
  rw [decimalValue, numeralValue_shown, div_mul_cancel₀]
  exact pow_ne_zero _ (by norm_num)

/-- An object with one entry. -/
theorem tagged_singleton (keys : List String) (key : String) (entry : Json) :
    (Json.object [(key, entry)]).Tagged keys key entry := by
  refine ⟨?_, fun key' _ hne => ?_⟩
  · simp [Json.get, Json.asObject]
  · simp [Json.get, Json.asObject, hne]

theorem holdsPayload_bookMessage (key : String) (payload : Json) :
    HoldsPayload (bookMessage key payload) key payload := by
  have htype : (bookMessage key payload).get "type" = none := rfl
  refine ⟨_, _, ⟨?_, rfl, rfl⟩, rfl, tagged_singleton _ key payload⟩
  rw [htype, Option.bind_none]
  exact (Option.some_ne_none _).symm

/-- **Every list of orders can be sent.** -/
theorem writesSnapshot_snapshotMessage (scales : Scales) (orders : List Order) :
    WritesSnapshot scales orders (snapshotMessage scales orders) := by
  have horder : ∀ o, WritesOrder scales o (wireOrder scales o) := fun o =>
    ⟨rfl, rfl, holdsScaled_scaledText rfl, holdsScaled_scaledText rfl, rfl, rfl⟩
  exact ⟨_, _, _, holdsPayload_bookMessage _ _, rfl, forall₂_map horder _,
    forall₂_map horder _⟩

/-- **Every list of operations can be sent.** -/
theorem writesUpdates_updatesMessage (scales : Scales) (ops : List BookOp) :
    WritesUpdates scales ops (updatesMessage scales ops) := by
  have hstatus : ∀ o, WritesStatus o (wireStatus o) := fun o => ⟨rfl, _, rfl, rfl, rfl, rfl⟩
  have hchange : ∀ op, WritesChange scales op (wireChange scales op) := by
    intro op
    cases op with
    | remove id => rfl
    | add o => exact ⟨_, tagged_singleton _ _ _, holdsScaled_scaledText rfl⟩
    | updateSize id newQty => exact ⟨_, tagged_singleton _ _ _, holdsScaled_scaledText rfl⟩
    | amendSize id newQty => exact ⟨_, tagged_singleton _ _ _, holdsScaled_scaledText rfl⟩
  have hdiff : ∀ op, WritesDiff scales op (wireDiff scales op) := by
    refine fun op => ⟨rfl, ⟨_, rfl, hchange op⟩, ?_⟩
    rintro o rfl
    exact ⟨rfl, holdsScaled_scaledText rfl⟩
  have habout : ((ops.filterMap addedOrder).map wireStatus).filter
      (isAbout (ops.filterMap addedOrder)) = (ops.filterMap addedOrder).map wireStatus := by
    refine List.filter_eq_self.mpr fun s hs => ?_
    obtain ⟨o, ho, rfl⟩ := List.mem_map.mp hs
    rw [isAbout, (hstatus o).statusOid_eq]
    exact decide_eq_true (List.mem_map_of_mem ho)
  refine ⟨_, _, _, holdsPayload_bookMessage _ _, rfl, rfl, ?_, forall₂_map hdiff _⟩
  rw [habout]
  exact forall₂_map hstatus _

/-! ### Mirrors -/

variable {policy : ReplayPolicy} {b b' m : OrderBook} {a : AbstractBook}
  {parseJson : String → Except String Json}

/-- A replay is a run. -/
theorem replay_eq_run (b : OrderBook) (ops : List BookOp) : b.replay π policy ops =
    b.run π (ops.map fun op => .applyOpWithPolicy op policy) := by
  rw [OrderBook.run, List.foldlM_map]
  rfl

/-- Replays of books that store the same. -/
theorem replay_alike (h : Represents π b a) (hm : Represents π m a)
    (hrun : b.replay π policy ops = .ok b') :
    ∃ m' a', m.replay π policy ops = .ok m' ∧ Represents π b' a' ∧ Represents π m' a' := by
  rw [replay_eq_run] at hrun
  rcases h.runsAlike hm (ops.map fun op => .applyOpWithPolicy op policy) with
    ⟨_, m', hb', hm', -⟩ | ⟨-, hb', -⟩
  · exact ⟨m', _, (replay_eq_run m ops).trans hm', run_represents h hrun, run_represents hm hm'⟩
  · rw [hrun] at hb'
    cases hb'

/-- A text with a message on it. -/
theorem decodeLine_of_value {text : String} {v : Json} {decoded : DecodedWithMeta}
    (htext : parseJson text = .ok v) (hv : decodeValueWithMeta scales v = .ok decoded) :
    decodeLine parseJson scales text = .ok (stripDecoded decoded) := by
  rw [decodeLine, decodeLineWithMeta, htext]
  show (decodeValueWithMeta scales v).map stripDecoded = _
  rw [hv]
  rfl

/-- The text of an update message. -/
def SendsUpdates (parseJson : String → Except String Json) (scales : Scales) (text : String)
    (ops : List BookOp) : Prop :=
  (∃ v, parseJson text = .ok v ∧ WritesUpdates scales ops v) ∧ Sendable ops

/-- The update messages are applied as their operations. -/
theorem stream_updates (hprice : scales.priceDigits ≤ 19) (hqty : scales.qtyDigits ≤ 19)
    {texts : List String} {batches : List (List BookOp)}
    (htexts : List.Forall₂ (SendsUpdates parseJson scales) texts batches)
    (h : Represents π b a) (hm : Represents π m a)
    (hrun : b.replay π policy batches.flatten = .ok b') :
    ∃ m' a', m.stream parseJson scales π policy texts = .ok (.ok (), m') ∧
      Represents π b' a' ∧ Represents π m' a' := by
  induction htexts generalizing b m a with
  | nil =>
    obtain rfl := Except.ok.inj hrun
    exact ⟨m, a, rfl, h, hm⟩
  | @cons text ops texts batches hhead htail ih =>
    obtain ⟨⟨v, htext, hwrites⟩, hsend⟩ := hhead
    obtain ⟨batch, hdecode, hops⟩ := hwrites.exists_batch hprice hqty
    rw [dedupe_wireRead_iff.mpr hsend] at hops
    rw [List.flatten_cons, replay_append] at hrun
    obtain ⟨b₁, hbatch, hrest⟩ := bind_eq_ok_iff.mp hrun
    obtain ⟨m₁, a₁, hbatch', hb₁, hm₁⟩ := replay_alike h hm hbatch
    obtain ⟨m', a', hstream, hb', hm'⟩ := ih hb₁ hm₁ hrest
    refine ⟨m', a', (stream_cons (decodeLine_of_value htext hdecode)).mpr ⟨m₁, ?_, hstream⟩,
      hb', hm'⟩
    show (m.replay π policy (batch.ops.map ReasonedBookOp.op) >>= _) = _
    rw [hops, hbatch']
    rfl

theorem bidsFirst_orders (a : AbstractBook) : bidsFirst a.orders = a.orders := by
  have hside : ∀ side side', (a.ladder side).filter (fun o => o.side = side') =
      if side = side' then a.ladder side else [] := by
    intro side side'
    by_cases hsame : side = side'
    · rw [if_pos hsame]
      refine List.filter_eq_self.mpr fun o ho => ?_
      rw [(AbstractBook.mem_ladder.mp ho).2, hsame]
      exact decide_eq_true rfl
    · rw [if_neg hsame]
      refine List.filter_eq_nil_iff.mpr fun o ho => ?_
      rw [(AbstractBook.mem_ladder.mp ho).2]
      exact fun h => hsame (of_decide_eq_true h)
  rw [bidsFirst, ofSide, ofSide, AbstractBook.orders, List.filter_append, List.filter_append,
    hside, hside, hside, hside]
  simp

/-- **A book is mirrored over the wire.** Whoever streams a snapshot message of a book and then
messages with the operations that the book goes through has, whatever book there was before, a book
that no session tells from it. -/
theorem wire_mirrors (hb : Reachable π b) (hprice : scales.priceDigits ≤ 19)
    (hqty : scales.qtyDigits ≤ 19) {n : ℕ} (hn : ∀ side, (b.depth side).length ≤ n)
    {top} (htop : b.topNLevels n = .ok top) {first : String} {snapshot : Json}
    (hfirst : parseJson first = .ok snapshot)
    (hsnapshot : WritesSnapshot scales (restoreOrders top) snapshot) {texts : List String}
    {batches : List (List BookOp)}
    (htexts : List.Forall₂ (SendsUpdates parseJson scales) texts batches)
    (hrun : b.replay π policy batches.flatten = .ok b') (receiver : OrderBook) :
    ∃ mirror, receiver.stream parseJson scales π policy (first :: texts) = .ok (.ok (), mirror) ∧
      ∀ requests, mirror.responses π requests = b'.responses π requests := by
  obtain ⟨a, h⟩ := hb.represents
  obtain ⟨top', htop', horders⟩ := restoreOrders_spec h hn
  obtain rfl := Except.ok.inj (htop.symm.trans htop')
  obtain ⟨restored, happly, hrestored⟩ := applySnapshot_restores h receiver
  obtain ⟨mirror, a', hstream, hb', hmirror⟩ :=
    stream_updates hprice hqty htexts h hrestored hrun
  have hdecode := hsnapshot.decode_eq hprice hqty
  rw [horders, bidsFirst_orders] at hdecode
  exact ⟨mirror, (stream_cons (decodeLine_of_value hfirst hdecode)).mpr
    ⟨restored, happly, hstream⟩, fun requests => responses_congr hmirror hb' requests⟩

/-- Prices in cents, sizes in tenths. -/
def sampleScales : Scales := ⟨2, 1⟩

/-- A parser of two texts: a snapshot of these orders, and the removal of an order. -/
def parseMirrored (orders : List Order) (text : String) : Except String Json :=
  if text = "snapshot" then .ok (snapshotMessage sampleScales orders)
  else .ok (updatesMessage sampleScales [.remove 2])

/-- The sample book, of which an order is removed once it has been mirrored. -/
theorem wire_mirrors_sample : ∃ top b' mirror, sampleBook.topNLevels 2 = .ok top ∧
    sampleBook.replay .dev .strict [.remove 2] = .ok b' ∧
    OrderBook.new.stream (parseMirrored (restoreOrders top)) sampleScales .dev .strict
      ["snapshot", "removal"] = .ok (.ok (), mirror) ∧
    mirror.responses .dev [.query .len] = b'.responses .dev [.query .len] := by
  have hn : ∀ side, (sampleBook.depth side).length ≤ 2 := by
    intro side
    cases side <;> decide
  have hsend : Sendable [.remove 2] := ⟨by decide, by simp, by simp⟩
  obtain ⟨top, htop⟩ : ∃ top, sampleBook.topNLevels 2 = .ok top := ⟨_, rfl⟩
  obtain ⟨b', hrun⟩ : ∃ b', sampleBook.replay .dev .strict [[BookOp.remove 2]].flatten = .ok b' :=
    ⟨_, by rfl⟩
  have hfirst : parseMirrored (restoreOrders top) "snapshot" =
    .ok (snapshotMessage sampleScales (restoreOrders top)) := rfl
  have hsecond : SendsUpdates (parseMirrored (restoreOrders top)) sampleScales "removal"
      [.remove 2] := ⟨⟨_, rfl, writesUpdates_updatesMessage sampleScales _⟩, hsend⟩
  obtain ⟨mirror, hmirror, hsame⟩ := wire_mirrors sampleBook_reachable (by decide) (by decide) hn
    htop hfirst (writesSnapshot_snapshotMessage sampleScales _)
    (List.Forall₂.cons hsecond List.Forall₂.nil) hrun OrderBook.new
  exact ⟨top, b', mirror, htop, hrun, hmirror, hsame [.query .len]⟩

end L4Book
