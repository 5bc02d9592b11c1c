import L4Book.Capture
import L4Book.Foundation.Fallible

/-!
# Reading a line

What a line is decoded as, and what a diff is read as, shape by shape. The order that a `new` opens
has the diff's id, wallet and price, the payload's size, and the side and timestamp of the order's
status; the size of an `update` or a `modified` is the one in its payload.

## Main definitions

* `readPayload`: the part of a diff that says what has happened
* `HoldsMessage`: a message, or a record of one
* `Json.payload`: the part of a line that is decoded
* `ReadsAs`: the shapes of a diff
* `OpensFrom`: the fields of an order and where they come from
* `statedQty`: the size in the payload of an `update` or a `modified`

## Main results

* `decodeLineWithMeta_cases`: the inversion of the decoder
* `readsAs_of_readDiff`: the inversion of the reader
* `opensFrom_of_readDiff`
* `statedQty_of_readDiff`
* `HoldsMessage.decode_eq`
-/

namespace L4Book

variable {scales : Scales} {statuses : Statuses} {d newObj : Json} {oid : OrderId}
  {order : Order} {text : Option String}

/-! ### The readers -/

theorem require_eq_ok_iff {α : Type} {field : String} {x : Option α} {y : α} :
    require field x = .ok y ↔ x = some y := by
  cases x with
  | none => simp [require]
  | some x => simp [require]

theorem parseWallet_eq_ok_iff {s : String} {wallet : WalletId} :
    parseWallet s = .ok wallet ↔ WalletId.fromHex s = .ok wallet := by
  rw [parseWallet]
  cases WalletId.fromHex s <;> simp

theorem parsePrice_eq_ok_iff {s : String} {price : Price} :
    parsePrice scales s = .ok price ↔ parseFixed s scales.priceDigits = some price := by
  rw [parsePrice]
  cases parseFixed s scales.priceDigits <;> simp

theorem parseQty_eq_ok_iff {s : String} {qty : Qty} :
    parseQty scales s = .ok qty ↔ parseFixed s scales.qtyDigits = some qty := by
  rw [parseQty]
  cases parseFixed s scales.qtyDigits <;> simp

/-! ### A new order -/

/-- The order that the diff `d` opens, field by field. -/
structure OpensFrom (scales : Scales) (statuses : Statuses) (d : Json) (order : Order) :
    Prop where
  oid : (d.get "oid").bind Json.asU64 = some order.id
  wallet : ∃ user, (d.get "user").bind Json.asStr = some user ∧
    WalletId.fromHex user = .ok order.wallet
  price : ∃ px, (d.get "px").bind Json.asStr = some px ∧
    parseFixed px scales.priceDigits = some order.price
  qty : ∃ newObj sz, (d.get "raw_book_diff").bind (fun raw => raw.get "new") = some newObj ∧
    (newObj.get "sz").bind Json.asStr = some sz ∧
    parseFixed sz scales.qtyDigits = some order.qty
  status : ∃ status orderObj, statuses.lookup order.id = some status ∧
    status.get "order" = some orderObj ∧
    parseSide (((orderObj.get "side").bind Json.asStr).getD "") = .ok order.side ∧
    order.ts = ((orderObj.get "timestamp").bind Json.asU64).getD 0

/-- **Where the fields of a new order come from.** -/
theorem opensFrom_of_readNew (h : readNew scales statuses d oid newObj = .ok (.new order text))
    (hoid : (d.get "oid").bind Json.asU64 = some oid)
    (hnew : (d.get "raw_book_diff").bind (fun raw => raw.get "new") = some newObj) :
    OpensFrom scales statuses d order := by
  rw [readNew] at h
  obtain ⟨sz, hsz, h⟩ := bind_eq_ok_iff.mp h
  obtain ⟨px, hpx, h⟩ := bind_eq_ok_iff.mp h
  obtain ⟨user, huser, h⟩ := bind_eq_ok_iff.mp h
  cases hstatus : statuses.lookup oid with
  | none =>
    rw [hstatus] at h
    cases h
  | some status =>
    rw [hstatus] at h
    obtain ⟨orderObj, horderObj, h⟩ := bind_eq_ok_iff.mp h
    obtain ⟨side, hside, h⟩ := bind_eq_ok_iff.mp h
    obtain ⟨wallet, hwallet, h⟩ := bind_eq_ok_iff.mp h
    obtain ⟨price, hprice, h⟩ := bind_eq_ok_iff.mp h
    obtain ⟨qty, hqty, h⟩ := bind_eq_ok_iff.mp h
    cases h
    exact
      { oid := hoid
        wallet := ⟨user, require_eq_ok_iff.mp huser, parseWallet_eq_ok_iff.mp hwallet⟩
        price := ⟨px, require_eq_ok_iff.mp hpx, parsePrice_eq_ok_iff.mp hprice⟩
        qty := ⟨newObj, sz, hnew, require_eq_ok_iff.mp hsz, parseQty_eq_ok_iff.mp hqty⟩
        status := ⟨status, orderObj, hstatus, require_eq_ok_iff.mp horderObj, hside, rfl⟩ }

/-- A payload of a `new` is read as an order with the diff's id, or cannot be resolved. -/
theorem readNew_cases {diff : Diff} (h : readNew scales statuses d oid newObj = .ok diff) :
    (statuses.lookup oid = none ∧ diff = .unresolvedNew oid) ∨
      ∃ order text, diff = .new order text ∧ order.id = oid := by
  rw [readNew] at h
  obtain ⟨sz, -, h⟩ := bind_eq_ok_iff.mp h
  obtain ⟨px, -, h⟩ := bind_eq_ok_iff.mp h
  obtain ⟨user, -, h⟩ := bind_eq_ok_iff.mp h
  cases hstatus : statuses.lookup oid with
  | none =>
    rw [hstatus] at h
    exact Or.inl ⟨rfl, (Except.ok.inj h).symm⟩
  | some status =>
    rw [hstatus] at h
    obtain ⟨orderObj, -, h⟩ := bind_eq_ok_iff.mp h
    obtain ⟨side, -, h⟩ := bind_eq_ok_iff.mp h
    obtain ⟨wallet, -, h⟩ := bind_eq_ok_iff.mp h
    obtain ⟨price, -, h⟩ := bind_eq_ok_iff.mp h
    obtain ⟨qty, -, h⟩ := bind_eq_ok_iff.mp h
    exact Or.inr ⟨_, _, (Except.ok.inj h).symm, rfl⟩

/-! ### The payload of a diff -/

/-- The payload of a diff. -/
def readPayload (scales : Scales) (statuses : Statuses) (d : Json) (oid : OrderId) (raw : Json) :
    Except AdapterError Diff := do
  if raw.asStr = some "remove" then return .remove oid
  let rawObj ← require "raw_book_diff\x7b\x7d" raw.asObject
  match rawObj.lookup "new" with
  | some newObj => readNew scales statuses d oid newObj
  | none =>
    match rawObj.lookup "update" with
    | some upd => return .update oid (← readSize scales "update.newSz" "newSz" upd)
    | none =>
      match rawObj.lookup "modified" with
      | some m => return .modified oid (← readSize scales "modified.sz" "sz" m)
      | none => return .unknown oid

/-- A diff is read by its payload. -/
theorem readDiff_eq {raw : Json} (hoid : (d.get "oid").bind Json.asU64 = some oid)
    (hraw : d.get "raw_book_diff" = some raw) :
    readDiff scales statuses d = readPayload scales statuses d oid raw := by
  rw [readDiff, hoid, hraw]
  rfl

/-- Only objects have entries. -/
theorem eq_object_of_get {v entry : Json} {key : String} (h : v.get key = some entry) :
    ∃ fields, v = .object fields := by
  cases v with
  | object fields => exact ⟨fields, rfl⟩
  | _ => cases h

/-- The keys of a payload are tried in turn. -/
theorem readPayload_object (scales : Scales) (statuses : Statuses) (d : Json) (oid : OrderId)
    (fields : List (String × Json)) :
    readPayload scales statuses d oid (.object fields) =
      match (Json.object fields).get "new" with
      | some newObj => readNew scales statuses d oid newObj
      | none =>
        match (Json.object fields).get "update" with
        | some upd => do return .update oid (← readSize scales "update.newSz" "newSz" upd)
        | none =>
          match (Json.object fields).get "modified" with
          | some m => do return .modified oid (← readSize scales "modified.sz" "sz" m)
          | none => return .unknown oid := rfl

theorem readPayload_new {raw : Json} (hnew : raw.get "new" = some newObj) :
    readPayload scales statuses d oid raw = readNew scales statuses d oid newObj := by
  obtain ⟨fields, rfl⟩ := eq_object_of_get hnew
  rw [readPayload_object, hnew]

theorem readPayload_update {raw upd : Json} (hnew : raw.get "new" = none)
    (hupdate : raw.get "update" = some upd) : readPayload scales statuses d oid raw =
      (do return .update oid (← readSize scales "update.newSz" "newSz" upd)) := by
  obtain ⟨fields, rfl⟩ := eq_object_of_get hupdate
  rw [readPayload_object, hnew, hupdate]

theorem readPayload_modified {raw m : Json} (hnew : raw.get "new" = none)
    (hupdate : raw.get "update" = none) (hmodified : raw.get "modified" = some m) :
    readPayload scales statuses d oid raw =
      (do return .modified oid (← readSize scales "modified.sz" "sz" m)) := by
  obtain ⟨fields, rfl⟩ := eq_object_of_get hmodified
  rw [readPayload_object, hnew, hupdate, hmodified]

theorem readPayload_unknown {raw : Json} {fields : List (String × Json)}
    (hfields : raw.asObject = some fields) (hnew : raw.get "new" = none)
    (hupdate : raw.get "update" = none) (hmodified : raw.get "modified" = none) :
    readPayload scales statuses d oid raw = .ok (.unknown oid) := by
  cases raw with
  | object fields =>
    rw [readPayload_object, hnew, hupdate, hmodified]
    rfl
  | _ => cases hfields

/-! ### The shapes of a diff -/

/-- What the diff `d` of the order `oid`, whose payload is `raw`, is read as. The keys of the
payload are tried in turn. -/
inductive ReadsAs (scales : Scales) (statuses : Statuses) (d : Json) (oid : OrderId) (raw : Json) :
    Diff → Prop
  | remove (hraw : raw.asStr = some "remove") : ReadsAs scales statuses d oid raw (.remove oid)
  | new {newObj : Json} {diff : Diff} (hnew : raw.get "new" = some newObj)
      (hread : readNew scales statuses d oid newObj = .ok diff) :
      ReadsAs scales statuses d oid raw diff
  | update {upd : Json} {sz : String} {newQty : Qty} (hnew : raw.get "new" = none)
      (hupdate : raw.get "update" = some upd) (hsz : (upd.get "newSz").bind Json.asStr = some sz)
      (hqty : parseFixed sz scales.qtyDigits = some newQty) :
      ReadsAs scales statuses d oid raw (.update oid newQty)
  | modified {m : Json} {sz : String} {newQty : Qty} (hnew : raw.get "new" = none)
      (hupdate : raw.get "update" = none) (hmodified : raw.get "modified" = some m)
      (hsz : (m.get "sz").bind Json.asStr = some sz)
      (hqty : parseFixed sz scales.qtyDigits = some newQty) :
      ReadsAs scales statuses d oid raw (.modified oid newQty)
  | unknown {fields : List (String × Json)} (hraw : raw.asObject = some fields)
      (hnew : raw.get "new" = none) (hupdate : raw.get "update" = none)
      (hmodified : raw.get "modified" = none) : ReadsAs scales statuses d oid raw (.unknown oid)

theorem readSize_eq_ok_iff {field key : String} {payload : Json} {newQty : Qty} :
    readSize scales field key payload = .ok newQty ↔
      ∃ sz, (payload.get key).bind Json.asStr = some sz ∧
        parseFixed sz scales.qtyDigits = some newQty := by
  rw [readSize, bind_eq_ok_iff]
  simp only [require_eq_ok_iff, parseQty_eq_ok_iff]

/-- **What a diff is read as.** -/
theorem readsAs_of_readDiff {diff : Diff} (h : readDiff scales statuses d = .ok diff) :
    ∃ oid raw, (d.get "oid").bind Json.asU64 = some oid ∧ d.get "raw_book_diff" = some raw ∧
      ReadsAs scales statuses d oid raw diff := by
  rw [readDiff] at h
  obtain ⟨oid, hoid, h⟩ := bind_eq_ok_iff.mp h
  obtain ⟨raw, hraw, h⟩ := bind_eq_ok_iff.mp h
  refine ⟨oid, raw, require_eq_ok_iff.mp hoid, require_eq_ok_iff.mp hraw, ?_⟩
  change readPayload scales statuses d oid raw = .ok diff at h
  by_cases hremove : raw.asStr = some "remove"
  · rw [readPayload, if_pos hremove] at h
    obtain rfl := Except.ok.inj h
    exact .remove hremove
  cases hfields : raw.asObject with
  | none =>
    rw [readPayload, if_neg hremove, hfields] at h
    cases h
  | some fields =>
    cases hnew : raw.get "new" with
    | some newObj =>
      rw [readPayload_new hnew] at h
      exact .new hnew h
    | none =>
      cases hupdate : raw.get "update" with
      | some upd =>
        rw [readPayload_update hnew hupdate] at h
        obtain ⟨newQty, hsize, h⟩ := bind_eq_ok_iff.mp h
        obtain ⟨sz, hsz, hqty⟩ := readSize_eq_ok_iff.mp hsize
        obtain rfl := Except.ok.inj h
        exact .update hnew hupdate hsz hqty
      | none =>
        cases hmodified : raw.get "modified" with
        | some m =>
          rw [readPayload_modified hnew hupdate hmodified] at h
          obtain ⟨newQty, hsize, h⟩ := bind_eq_ok_iff.mp h
          obtain ⟨sz, hsz, hqty⟩ := readSize_eq_ok_iff.mp hsize
          obtain rfl := Except.ok.inj h
          exact .modified hnew hupdate hmodified hsz hqty
        | none =>
          rw [readPayload_unknown hfields hnew hupdate hmodified] at h
          obtain rfl := Except.ok.inj h
          exact .unknown hfields hnew hupdate hmodified

/-- The order of a diff that is read as a `new`. -/
theorem opensFrom_of_readDiff (h : readDiff scales statuses d = .ok (.new order text)) :
    OpensFrom scales statuses d order := by
  obtain ⟨oid, raw, hoid, hraw, hreads⟩ := readsAs_of_readDiff h
  cases hreads with
  | new hnew hread =>
    refine opensFrom_of_readNew hread hoid ?_
    rw [hraw, Option.bind_some, hnew]

/-! ### Stated sizes -/

/-- The text of the size in an `update` or a `modified`. -/
def statedSize (d : Json) : Option String :=
  (d.get "raw_book_diff").bind fun raw =>
    match raw.get "new" with
    | some _ => none
    | none =>
      match raw.get "update" with
      | some upd => (upd.get "newSz").bind Json.asStr
      | none => (raw.get "modified").bind fun m => (m.get "sz").bind Json.asStr

/-- The size in an `update` or a `modified`, as the decoder scales it. -/
def statedQty (scales : Scales) (d : Json) : Option Qty :=
  (statedSize d).bind fun sz => parseFixed sz scales.qtyDigits

/-- The size that a diff states which was read as an `update` or a `modified`. -/
def Diff.statedQty : Diff → Option Qty
  | .update _ newQty => some newQty
  | .modified _ newQty => some newQty
  | _ => none

theorem eq_string_of_asStr {v : Json} {s : String} (h : v.asStr = some s) : v = .string s := by
  cases v with
  | string t => exact congrArg Json.string (Option.some.inj h)
  | null => cases h
  | bool b => cases h
  | number n => cases h
  | array items => cases h
  | object fields => cases h

/-- A string is not an object. -/
theorem asObject_of_asStr {v : Json} {s : String} (h : v.asStr = some s) : v.asObject = none := by
  rw [eq_string_of_asStr h]
  rfl

/-- A string has no keys. -/
theorem get_of_asStr {v : Json} {s key : String} (h : v.asStr = some s) : v.get key = none := by
  rw [eq_string_of_asStr h]
  rfl

/-- **The size a diff states is the one in its payload.** -/
theorem statedQty_of_readDiff {diff : Diff} (h : readDiff scales statuses d = .ok diff) :
    statedQty scales d = diff.statedQty := by
  obtain ⟨oid, raw, -, hraw, hreads⟩ := readsAs_of_readDiff h
  rw [statedQty, statedSize, hraw, Option.bind_some]
  cases hreads with
  | remove hremove =>
    simp [get_of_asStr hremove, Diff.statedQty]
  | new hnew hread =>
    rw [hnew]
    rcases readNew_cases hread with ⟨-, rfl⟩ | ⟨order, text, rfl, -⟩ <;> rfl
  | update hnew hupdate hsz hqty =>
    simp [hnew, hupdate, hsz, hqty, Diff.statedQty]
  | modified hnew hupdate hmodified hsz hqty =>
    simp [hnew, hupdate, hmodified, hsz, hqty, Diff.statedQty]
  | unknown hfields hnew hupdate hmodified =>
    simp [hnew, hupdate, hmodified, Diff.statedQty]

/-- A size that is stated has been parsed. -/
theorem exists_statedQty {diff : Diff} {sz : String} (h : readDiff scales statuses d = .ok diff)
    (hsz : statedSize d = some sz) : ∃ newQty, parseFixed sz scales.qtyDigits = some newQty := by
  obtain ⟨oid, raw, -, hraw, hreads⟩ := readsAs_of_readDiff h
  rw [statedSize, hraw, Option.bind_some] at hsz
  cases hreads with
  | remove hremove => simp [get_of_asStr hremove] at hsz
  | new hnew hread => simp [hnew] at hsz
  | @update upd sz' newQty hnew hupdate hsz' hqty =>
    simp only [hnew, hupdate, hsz', Option.some.injEq] at hsz
    exact ⟨newQty, hsz ▸ hqty⟩
  | @modified m sz' newQty hnew hupdate hmodified hsz' hqty =>
    simp only [hnew, hupdate, hmodified, Option.bind_some, hsz', Option.some.injEq] at hsz
    exact ⟨newQty, hsz ▸ hqty⟩
  | unknown hfields hnew hupdate hmodified => simp [hnew, hupdate, hmodified] at hsz

/-! ### Orders of a snapshot -/

/-- Where the size of an order of a snapshot comes from. -/
theorem exists_size_of_parseOrder {o : Json} {defaultSide : Option Side}
    (h : parseOrder scales o defaultSide = .ok order) :
    ∃ sz, (o.get "sz").bind Json.asStr = some sz ∧
      parseFixed sz scales.qtyDigits = some order.qty := by
  rw [parseOrder] at h
  obtain ⟨oid, -, h⟩ := bind_eq_ok_iff.mp h
  obtain ⟨user, -, h⟩ := bind_eq_ok_iff.mp h
  dsimp only at h
  -- the side is the order's own or the default one
  split at h
  all_goals
    obtain ⟨side, -, h⟩ := bind_eq_ok_iff.mp h
    obtain ⟨px, -, h⟩ := bind_eq_ok_iff.mp h
    obtain ⟨sz, hsz, h⟩ := bind_eq_ok_iff.mp h
    obtain ⟨wallet, -, h⟩ := bind_eq_ok_iff.mp h
    obtain ⟨price, -, h⟩ := bind_eq_ok_iff.mp h
    obtain ⟨qty, hqty, h⟩ := bind_eq_ok_iff.mp h
    obtain rfl := Except.ok.inj h
    exact ⟨sz, require_eq_ok_iff.mp hsz, parseQty_eq_ok_iff.mp hqty⟩

/-- The orders of a snapshot, as they stand in the message. -/
def wireOrders (snap : Json) : List Json :=
  ((((snap.get "levels").bind Json.asArray).getD []).filterMap Json.asArray).flatten

/-- **The orders of a snapshot are read one by one.** -/
theorem mapM_of_decodeSnapshot {snap : Json} {orders : List Order}
    (h : decodeSnapshot scales snap = .ok orders) :
    (wireOrders snap).mapM (fun o => parseOrder scales o none) = .ok orders := by
  rw [decodeSnapshot] at h
  obtain ⟨levels, hlevels, h⟩ := bind_eq_ok_iff.mp h
  obtain ⟨arr, harr, h⟩ := bind_eq_ok_iff.mp h
  rw [wireOrders, require_eq_ok_iff.mp hlevels, Option.bind_some, require_eq_ok_iff.mp harr]
  exact h

/-! ### Lines -/

/-- The line holds a message of the book's channel, or a record of one. -/
structure HoldsMessage (v msg : Json) : Prop where
  noHeader : (v.get "type").bind Json.asStr ≠ some "capture_header"
  msg_eq : (v.get "msg").getD v = msg
  channel : (msg.get "channel").bind Json.asStr = some "l4Book"

/-- What is decoded is the message. -/
theorem HoldsMessage.decode_eq {v msg : Json} (h : HoldsMessage v msg) :
    decodeValueWithMeta scales v = decodeL4WithMeta scales msg := by
  obtain ⟨hheader, rfl, hchannel⟩ := h
  rw [decodeValueWithMeta, if_neg hheader]
  dsimp only
  rw [hchannel, if_neg (by decide), if_pos rfl]

/-- The payload of a message, or of a record that wraps one, under a key of its data. -/
def Json.payload (v : Json) (key : String) : Option Json :=
  (((v.get "msg").getD v).get "data").bind fun data => data.get key

variable {parseJson : String → Except String Json} {line : String} {decoded : DecodedWithMeta}

/-- What the data of a message is decoded as. -/
theorem decodeL4WithMeta_cases {msg : Json} (h : decodeL4WithMeta scales msg = .ok decoded) :
    decoded = .skip ∨
    (∃ snap orders, (msg.get "data").bind (fun data => data.get "Snapshot") = some snap ∧
      decodeSnapshot scales snap = .ok orders ∧ decoded = .snapshot orders .snapshot) ∨
    ∃ updates batch, (msg.get "data").bind (fun data => data.get "Updates") = some updates ∧
      decodeUpdatesWithMeta scales updates = .ok batch ∧ decoded = .updates batch := by
  rw [decodeL4WithMeta] at h
  obtain ⟨data, hdata, h⟩ := bind_eq_ok_iff.mp h
  rw [require_eq_ok_iff.mp hdata, Option.bind_some, Option.bind_some]
  cases hsnap : data.get "Snapshot" with
  | some snap =>
    rw [hsnap] at h
    obtain ⟨orders, horders, h⟩ := bind_eq_ok_iff.mp h
    exact Or.inr (Or.inl ⟨snap, orders, rfl, horders, (Except.ok.inj h).symm⟩)
  | none =>
    rw [hsnap] at h
    cases hupdates : data.get "Updates" with
    | some updates =>
      rw [hupdates] at h
      obtain ⟨batch, hbatch, h⟩ := bind_eq_ok_iff.mp h
      exact Or.inr (Or.inr ⟨updates, batch, rfl, hbatch, (Except.ok.inj h).symm⟩)
    | none =>
      rw [hupdates] at h
      exact Or.inl (Except.ok.inj h).symm

/-- **What a line is decoded as.** -/
theorem decodeLineWithMeta_cases (h : decodeLineWithMeta parseJson scales line = .ok decoded) :
    ∃ v, parseJson line = .ok v ∧
      (decoded = .skip ∨
      (∃ snap orders, v.payload "Snapshot" = some snap ∧
        decodeSnapshot scales snap = .ok orders ∧ decoded = .snapshot orders .snapshot) ∨
      ∃ updates batch, v.payload "Updates" = some updates ∧
        decodeUpdatesWithMeta scales updates = .ok batch ∧ decoded = .updates batch) := by
  rw [decodeLineWithMeta] at h
  obtain ⟨v, hv, h⟩ := bind_eq_ok_iff.mp h
  have hparse : parseJson line = .ok v := by
    cases hline : parseJson line with
    | error e =>
      rw [hline] at hv
      cases hv
    | ok w =>
      rw [hline] at hv
      exact congrArg Except.ok (Except.ok.inj hv)
  refine ⟨v, hparse, ?_⟩
  rw [decodeValueWithMeta] at h
  split at h
  · exact Or.inl (Except.ok.inj h).symm
  dsimp only at h
  split at h
  · exact Or.inl (Except.ok.inj h).symm
  split at h
  · exact decodeL4WithMeta_cases h
  · exact Or.inl (Except.ok.inj h).symm

end L4Book
