import L4Book.Foundation.Entrywise
import L4Book.Refinement.Reading
import L4Book.Results.Dedupe
import L4Book.Results.FixedPoint
import L4Book.Results.WalletHex

/-!
# Messages of the feed

When a message of the form that `docs/l4-protocol.md` documents carries given orders or operations,
and what the decoder reads in it. Only what the decoder looks at is prescribed. Every object of a
message may have any other fields besides, in any order and different ones in each, as the
documented examples have; a number may be written with zeros that do not count; and between the
statuses of new orders there may be those of other orders.

## Main definitions

* `HoldsScaled`: a field with a price or a size
* `HoldsPayload`: a message, or a record of one, and its payload
* `WritesOrder`, `WritesSnapshot`: a snapshot message
* `WritesStatus`, `WritesDiff`, `WritesUpdates`: an update message
* `wireRead`: what a diff is read as

## Main results

* `WritesSnapshot.decode_eq`: a snapshot message is decoded to its orders
* `WritesUpdates.exists_batch`: what an update message is decoded to
-/

namespace L4Book

/-! ### Fields -/

/-- The letter of a side. -/
def sideLetter : Side → String
  | .bid => "B"
  | .ask => "A"

/-- The field holds a decimal numeral of exactly this number, scaled. -/
def HoldsScaled (v : Json) (key : String) (digits : ℕ) (n : UInt64) : Prop :=
  ∃ s int frac, v.get key = some (.string s) ∧ WritesNumeral (asBytes s) int frac ∧
    decimalValue int frac * 10 ^ digits = n.toNat

/-- The object has this entry under this key, and none under the other keys of the list. -/
def Json.Tagged (v : Json) (keys : List String) (key : String) (entry : Json) : Prop :=
  v.get key = some entry ∧ ∀ key' ∈ keys, key' ≠ key → v.get key' = none

/-- A message on the channel of the book, or a record of one, with this payload. -/
def HoldsPayload (v : Json) (key : String) (payload : Json) : Prop :=
  ∃ msg data, HoldsMessage v msg ∧ msg.get "data" = some data ∧
    data.Tagged ["Snapshot", "Updates"] key payload

/-! ### Snapshot messages -/

/-- An order as a snapshot lists it. -/
structure WritesOrder (scales : Scales) (o : Order) (v : Json) : Prop where
  user : v.get "user" = some (.string o.wallet.debugFmt)
  side : v.get "side" = some (.string (sideLetter o.side))
  price : HoldsScaled v "limitPx" scales.priceDigits o.price
  qty : HoldsScaled v "sz" scales.qtyDigits o.qty
  oid : v.get "oid" = some (.number (.posInt o.id))
  timestamp : v.get "timestamp" = some (.number (.posInt o.ts))

/-- The orders of one side. -/
def ofSide (side : Side) (orders : List Order) : List Order := orders.filter fun o => o.side = side

/-- The orders in the order in which a snapshot lists them. -/
def bidsFirst (orders : List Order) : List Order := ofSide .bid orders ++ ofSide .ask orders

/-- A snapshot message of these orders. -/
def WritesSnapshot (scales : Scales) (orders : List Order) (v : Json) : Prop :=
  ∃ snap bids asks, HoldsPayload v "Snapshot" snap ∧
    snap.get "levels" = some (.array [.array bids, .array asks]) ∧
    List.Forall₂ (WritesOrder scales) (ofSide .bid orders) bids ∧
    List.Forall₂ (WritesOrder scales) (ofSide .ask orders) asks

/-! ### Update messages -/

/-- The order that an operation adds. -/
def addedOrder : BookOp → Option Order
  | .add o => some o
  | _ => none

/-- The id of the order that a status is about. -/
def statusOid (status : Json) : Option OrderId :=
  (status.get "order").bind fun order => (order.get "oid").bind Json.asU64

/-- The status of a new order. -/
structure WritesStatus (o : Order) (v : Json) : Prop where
  status : v.get "status" = some (.string "open")
  order : ∃ order, v.get "order" = some order ∧
    order.get "side" = some (.string (sideLetter o.side)) ∧
    order.get "oid" = some (.number (.posInt o.id)) ∧
    order.get "timestamp" = some (.number (.posInt o.ts))

/-- The status is about one of these orders. -/
def isAbout (orders : List Order) (status : Json) : Bool :=
  (statusOid status).any fun id => id ∈ orders.map Order.id

/-- The `raw_book_diff` of an operation. -/
def WritesChange (scales : Scales) : BookOp → Json → Prop
  | .add o, raw => ∃ new, raw.Tagged ["new", "update", "modified"] "new" new ∧
      HoldsScaled new "sz" scales.qtyDigits o.qty
  | .remove _, raw => raw = .string "remove"
  | .updateSize _ newQty, raw =>
    ∃ update, raw.Tagged ["new", "update", "modified"] "update" update ∧
      HoldsScaled update "newSz" scales.qtyDigits newQty
  | .amendSize _ newQty, raw =>
    ∃ modified, raw.Tagged ["new", "update", "modified"] "modified" modified ∧
      HoldsScaled modified "sz" scales.qtyDigits newQty

/-- The diff of an operation. Of a new order it names the owner and the price. -/
structure WritesDiff (scales : Scales) (op : BookOp) (d : Json) : Prop where
  oid : d.get "oid" = some (.number (.posInt op.orderId))
  change : ∃ raw, d.get "raw_book_diff" = some raw ∧ WritesChange scales op raw
  opened : ∀ o, op = .add o → d.get "user" = some (.string o.wallet.debugFmt) ∧
    HoldsScaled d "px" scales.priceDigits o.price

/-- An update message of these operations. Every new order has a status, and each of its statuses is
that of a new order. -/
def WritesUpdates (scales : Scales) (ops : List BookOp) (v : Json) : Prop :=
  ∃ updates statuses diffs, HoldsPayload v "Updates" updates ∧
    updates.get "order_statuses" = some (.array statuses) ∧
    updates.get "book_diffs" = some (.array diffs) ∧
    List.Forall₂ WritesStatus (ops.filterMap addedOrder)
      (statuses.filter (isAbout (ops.filterMap addedOrder))) ∧
    List.Forall₂ (WritesDiff scales) ops diffs

variable {scales : Scales} {v d msg payload : Json} {key : String} {digits : ℕ} {n : UInt64}
  {orders : List Order} {ops ops' : List BookOp} {op : BookOp} {o : Order} {id : OrderId}

/-! ### Reading fields -/

theorem parseSide_sideLetter (side : Side) : parseSide (sideLetter side) = .ok side := by
  cases side <;> rfl

theorem parseWallet_debugFmt (wallet : WalletId) : parseWallet wallet.debugFmt = .ok wallet :=
  parseWallet_eq_ok_iff.mpr (fromHex_debugFmt wallet)

theorem asStr_of_get {s : String} (h : v.get key = some (.string s)) :
    (v.get key).bind Json.asStr = some s := by
  rw [h]
  rfl

theorem asU64_of_get (h : v.get key = some (.number (.posInt n))) :
    (v.get key).bind Json.asU64 = some n := by
  rw [h]
  rfl

/-- **A number is read back**, however it is written. -/
theorem HoldsScaled.exists_text (h : HoldsScaled v key digits n) (hdigits : digits ≤ 19) :
    ∃ s, (v.get key).bind Json.asStr = some s ∧ parseFixed s digits = some n := by
  obtain ⟨s, int, frac, hget, hwrites, hvalue⟩ := h
  refine ⟨s, asStr_of_get hget, ?_⟩
  rw [hwrites.parseFixed_eq hdigits, hvalue, Nat.floor_natCast, checked_of_lt n.toNat_lt_size,
    UInt64.ofNat_toNat]

/-- Under what key a payload stands decides how it is decoded. -/
theorem HoldsPayload.decode_eq (h : HoldsPayload v key payload) (scales : Scales) : ∃ data : Json,
    data.Tagged ["Snapshot", "Updates"] key payload ∧ decodeValueWithMeta scales v = (do
      match data.get "Snapshot" with
      | some snap => return .snapshot (← decodeSnapshot scales snap) .snapshot
      | none =>
        match data.get "Updates" with
        | some updates => return .updates (← decodeUpdatesWithMeta scales updates)
        | none => return .skip) := by
  obtain ⟨msg, data, hmsg, hdata, htagged⟩ := h
  refine ⟨data, htagged, ?_⟩
  rw [hmsg.decode_eq, decodeL4WithMeta, hdata]
  rfl

/-! ### Reading snapshots -/

/-- An order is read back. -/
theorem WritesOrder.parseOrder_eq (h : WritesOrder scales o v) (hprice : scales.priceDigits ≤ 19)
    (hqty : scales.qtyDigits ≤ 19) : parseOrder scales v none = .ok o := by
  obtain ⟨px, hpx, hpxValue⟩ := h.price.exists_text hprice
  obtain ⟨sz, hsz, hszValue⟩ := h.qty.exists_text hqty
  simp only [parseOrder, asU64_of_get h.oid, asStr_of_get h.user, asStr_of_get h.side, hpx, hsz,
    asU64_of_get h.timestamp, require, parseSide_sideLetter, ok_bind, parseWallet_debugFmt,
    parsePrice_eq_ok_iff.mpr hpxValue, parseQty_eq_ok_iff.mpr hszValue]
  rfl

theorem mapM_parseOrder {orders : List Order} {vs : List Json}
    (h : List.Forall₂ (WritesOrder scales) orders vs) (hprice : scales.priceDigits ≤ 19)
    (hqty : scales.qtyDigits ≤ 19) : vs.mapM (fun v => parseOrder scales v none) = .ok orders :=
  mapM_eq_ok_iff.mpr (h.flip.imp fun _ _ hwrites => hwrites.parseOrder_eq hprice hqty)

/-- **A snapshot message is decoded to its orders**, bids first. -/
theorem WritesSnapshot.decode_eq (h : WritesSnapshot scales orders v)
    (hprice : scales.priceDigits ≤ 19) (hqty : scales.qtyDigits ≤ 19) :
    decodeValueWithMeta scales v = .ok (.snapshot (bidsFirst orders) .snapshot) := by
  obtain ⟨snap, bids, asks, hpayload, hlevels, hbids, hasks⟩ := h
  obtain ⟨data, ⟨hsnap, -⟩, hdecode⟩ := hpayload.decode_eq scales
  have hread : decodeSnapshot scales snap = .ok (bidsFirst orders) := by
    rw [decodeSnapshot, hlevels]
    show (List.mapM _ (bids ++ (asks ++ []))) = _
    rw [List.append_nil, List.mapM_append, mapM_parseOrder hbids hprice hqty,
      mapM_parseOrder hasks hprice hqty]
    rfl
  rw [hdecode, hsnap]
  dsimp only
  rw [hread]
  rfl

/-! ### Reading statuses -/

/-- The last of the orders with this id. -/
def lastWithId (id : OrderId) (orders : List Order) : Option Order :=
  (orders.filter fun o => o.id = id).getLast?

theorem exists_lastWithId (ho : o ∈ orders) :
    ∃ last, lastWithId o.id orders = some last ∧ last ∈ orders ∧ last.id = o.id := by
  have hmem : o ∈ orders.filter fun o' => o'.id = o.id := List.mem_filter.mpr ⟨ho, by simp⟩
  have hne := List.ne_nil_of_mem hmem
  have hlast := List.mem_filter.mp (List.getLast_mem hne)
  exact ⟨_, List.getLast?_eq_some_getLast hne, hlast.1, of_decide_eq_true hlast.2⟩

theorem stash_of_none (h : statusOid v = none) (statuses : Statuses) :
    statuses.stash v = statuses := by
  rw [statusOid] at h
  rw [Statuses.stash, h]

theorem stash_of_some (h : statusOid v = some id) (statuses : Statuses) :
    statuses.stash v = statuses.insert id v := by
  rw [statusOid] at h
  rw [Statuses.stash, h]

/-- The status of an id is the last one that is about it. -/
theorem lookup_foldl_stash (statuses : List Json) (stashed : Statuses) (id : OrderId) :
    (statuses.foldl Statuses.stash stashed).lookup id =
      ((statuses.filter fun s => statusOid s = some id).getLast?).or (stashed.lookup id) := by
  induction statuses using List.reverseRecOn with
  | nil => rfl
  | append_singleton statuses s ih =>
    rw [List.foldl_append, List.filter_append]
    show ((statuses.foldl Statuses.stash stashed).stash s).lookup id = _
    cases hoid : statusOid s with
    | none =>
      rw [stash_of_none hoid, List.filter_cons_of_neg (by simp [hoid]), List.filter_nil,
        List.append_nil]
      exact ih
    | some oid =>
      rw [stash_of_some hoid]
      by_cases hid : oid = id
      · subst hid
        rw [List.filter_cons_of_pos (by simp [hoid]), List.filter_nil, List.getLast?_append,
          List.getLast?_singleton]
        exact Finmap.lookup_insert _
      · rw [List.filter_cons_of_neg (by simpa [hoid] using hid), List.filter_nil,
          List.append_nil]
        exact (Finmap.lookup_insert_of_ne _ (Ne.symm hid)).trans ih

theorem WritesStatus.statusOid_eq (h : WritesStatus o v) : statusOid v = some o.id := by
  obtain ⟨order, horder, -, hoid, -⟩ := h.order
  rw [statusOid, horder, Option.bind_some, asU64_of_get hoid]

/-- **Of several statuses of an order the last one counts.** -/
theorem exists_status {updates : Json} {statuses : List Json} {last : Order}
    (hstatuses : updates.get "order_statuses" = some (.array statuses))
    (h : List.Forall₂ WritesStatus orders (statuses.filter (isAbout orders)))
    (hlast : lastWithId id orders = some last) :
    ∃ status, (statusByOid updates).lookup id = some status ∧ WritesStatus last status := by
  have hid : last.id = id ∧ last ∈ orders := by
    have hmem := List.mem_filter.mp (List.mem_of_getLast? hlast)
    exact ⟨of_decide_eq_true hmem.2, hmem.1⟩
  have hfilter : List.Forall₂ WritesStatus (orders.filter fun o => o.id = id)
      ((statuses.filter (isAbout orders)).filter fun s => statusOid s = some id) := by
    refine List.rel_filter (fun o s hos => ?_) h
    simp [hos.statusOid_eq]
  obtain ⟨status, hstatus, hwrites⟩ := exists_getLast?_of_forall₂ hfilter hlast
  refine ⟨status, ?_, hwrites⟩
  have hsame : (statuses.filter (isAbout orders)).filter (fun s => statusOid s = some id) =
      statuses.filter fun s => statusOid s = some id := by
    rw [List.filter_filter]
    refine List.filter_congr fun s _ => ?_
    by_cases hoid : statusOid s = some id
    · have habout : isAbout orders s = true := by
        rw [isAbout, hoid]
        exact decide_eq_true (List.mem_map.mpr ⟨last, hid.2, hid.1⟩)
      simp [hoid, habout]
    · simp [hoid]
  rw [statusByOid, hstatuses]
  show (statuses.foldl Statuses.stash ∅).lookup id = _
  rw [lookup_foldl_stash, ← hsame, hstatus]
  rfl

/-! ### Reading diffs -/

/-- The order that a `new` diff of `o` is read as: side and timestamp are those of the status. -/
def statusApplied (ops : List BookOp) (o : Order) : Order :=
  match lastWithId o.id (ops.filterMap addedOrder) with
  | none => o
  | some last => { o with side := last.side, ts := last.ts }

/-- What the diff of an operation is read as. -/
def wireRead (ops : List BookOp) : BookOp → Diff
  | .add o => .new (statusApplied ops o) (some "open")
  | .remove id => .remove id
  | .updateSize id newQty => .update id newQty
  | .amendSize id newQty => .modified id newQty

theorem HoldsScaled.readSize_eq (h : HoldsScaled v key scales.qtyDigits n)
    (hqty : scales.qtyDigits ≤ 19) (field : String) : readSize scales field key v = .ok n :=
  readSize_eq_ok_iff.mpr (h.exists_text hqty)

/-- The diff of a new order, next to its status. -/
theorem readNew_of_writes {statuses : Statuses} {status new : Json} {last : Order}
    (hlookup : statuses.lookup o.id = some status) (hstatus : WritesStatus last status)
    (huser : d.get "user" = some (.string o.wallet.debugFmt))
    (hpx : HoldsScaled d "px" scales.priceDigits o.price)
    (hsz : HoldsScaled new "sz" scales.qtyDigits o.qty) (hprice : scales.priceDigits ≤ 19)
    (hqty : scales.qtyDigits ≤ 19) :
    readNew scales statuses d o.id new =
      .ok (.new { o with side := last.side, ts := last.ts } (some "open")) := by
  obtain ⟨px, hpx, hpxValue⟩ := hpx.exists_text hprice
  obtain ⟨sz, hsz, hszValue⟩ := hsz.exists_text hqty
  obtain ⟨hopen, order, horder, hside, -, hts⟩ := hstatus
  have htext : statusOf status = some "open" := asStr_of_get hopen
  simp only [readNew, hlookup, asStr_of_get huser, hpx, hsz, horder, asStr_of_get hside,
    asU64_of_get hts, require, ok_bind, Option.getD_some, parseSide_sideLetter,
    parseWallet_debugFmt, parsePrice_eq_ok_iff.mpr hpxValue, parseQty_eq_ok_iff.mpr hszValue,
    htext]
  rfl

/-- **Every diff is read back.** -/
theorem WritesDiff.readDiff_eq {updates : Json} {statuses : List Json}
    (h : WritesDiff scales op d) (hop : op ∈ ops)
    (hstatuses : updates.get "order_statuses" = some (.array statuses))
    (hwrites : List.Forall₂ WritesStatus (ops.filterMap addedOrder)
      (statuses.filter (isAbout (ops.filterMap addedOrder))))
    (hprice : scales.priceDigits ≤ 19) (hqty : scales.qtyDigits ≤ 19) :
    readDiff scales (statusByOid updates) d = .ok (wireRead ops op) := by
  obtain ⟨hoid, ⟨raw, hraw, hchange⟩, hopened⟩ := h
  rw [L4Book.readDiff_eq (asU64_of_get hoid) hraw]
  cases op with
  | remove id =>
    obtain rfl : raw = .string "remove" := hchange
    rfl
  | add o =>
    obtain ⟨huser, hpx⟩ := hopened o rfl
    obtain ⟨new, ⟨hnew, -⟩, hsz⟩ := hchange
    have ho : o ∈ ops.filterMap addedOrder := List.mem_filterMap.mpr ⟨_, hop, rfl⟩
    obtain ⟨last, hlast, -, -⟩ := exists_lastWithId ho
    obtain ⟨status, hlookup, hstatus⟩ := exists_status hstatuses hwrites hlast
    rw [readPayload_new hnew, wireRead, statusApplied, hlast]
    exact readNew_of_writes hlookup hstatus huser hpx hsz hprice hqty
  | updateSize id newQty =>
    obtain ⟨update, ⟨hupdate, hnone⟩, hsz⟩ := hchange
    rw [readPayload_update (hnone "new" (by decide) (by decide)) hupdate, hsz.readSize_eq hqty]
    rfl
  | amendSize id newQty =>
    obtain ⟨modified, ⟨hmodified, hnone⟩, hsz⟩ := hchange
    rw [readPayload_modified (hnone "new" (by decide) (by decide))
      (hnone "update" (by decide) (by decide)) hmodified, hsz.readSize_eq hqty]
    rfl

/-- The diffs are read one by one. -/
theorem readDiffs_of_writes {updates : Json} {statuses diffs : List Json}
    (hsub : ∀ op ∈ ops', op ∈ ops) (h : List.Forall₂ (WritesDiff scales) ops' diffs)
    (hstatuses : updates.get "order_statuses" = some (.array statuses))
    (hwrites : List.Forall₂ WritesStatus (ops.filterMap addedOrder)
      (statuses.filter (isAbout (ops.filterMap addedOrder))))
    (hprice : scales.priceDigits ≤ 19) (hqty : scales.qtyDigits ≤ 19) :
    diffs.mapM (readDiff scales (statusByOid updates)) = .ok (ops'.map (wireRead ops)) := by
  induction h with
  | nil => rfl
  | cons hd _ ih =>
    obtain ⟨hop, hsub⟩ := List.forall_mem_cons.mp hsub
    rw [List.mapM_cons, hd.readDiff_eq hop hstatuses hwrites hprice hqty, ok_bind, ih hsub]
    rfl

/-- **What an update message is decoded to**: its operations as they are read, less the removals
that are dropped. -/
theorem WritesUpdates.exists_batch (h : WritesUpdates scales ops v)
    (hprice : scales.priceDigits ≤ 19) (hqty : scales.qtyDigits ≤ 19) :
    ∃ batch, decodeValueWithMeta scales v = .ok (.updates batch) ∧
      batch.ops.map ReasonedBookOp.op = dedupe ∅ (ops.map (wireRead ops)) := by
  obtain ⟨updates, statuses, diffs, hpayload, hstatuses, hdiffs, hwrites, hwritesDiffs⟩ := h
  obtain ⟨data, ⟨hupdates, hnone⟩, hdecode⟩ := hpayload.decode_eq scales
  have hread : readDiffs scales updates = .ok (ops.map (wireRead ops)) := by
    rw [readDiffs, bookDiffs, hdiffs]
    exact readDiffs_of_writes (fun _ => id) hwritesDiffs hstatuses hwrites hprice hqty
  obtain ⟨batch, hbatch⟩ : ∃ batch, decodeUpdatesWithMeta scales updates = .ok batch := by
    rw [decodeUpdatesWithMeta_eq, hread]
    exact ⟨_, rfl⟩
  obtain ⟨ds, hds, hops⟩ := exists_readDiffs hbatch
  obtain rfl := Except.ok.inj (hread.symm.trans hds)
  refine ⟨batch, ?_, hops⟩
  rw [hdecode, hnone "Snapshot" (by decide) (by decide), hupdates]
  dsimp only
  rw [hbatch]
  rfl

end L4Book
