import L4Book.Foundation.Entrywise
import L4Book.Refinement.Dedupe
import L4Book.Results.Submitting

/-!
# The decoder's removals

Is the decoder's collapsing of removals faithful to the diffs? Replaying what it decodes is compared
with replaying the direct translation of every diff by itself. The two agree on every book when no
order of the message is removed, opened by a `new` and removed again. This is the exact boundary: a
message with such an order can be cut after its second removal, and then the decoder leaves the
order on the book, which the message has removed.

## Main definitions

* `DedupePreserves`: decoding a message is faithful
* `Json.cutDiffs`: a message with its first diffs only

## Main results

* `dedupePreserves_iff_of_cuts`
* `dedupePreserves_reopenMessage`: one whole message can hide its ghost
* `not_forall_dedupePreserves`: a message that leaves a ghost order
-/

namespace L4Book

/-- The diffs of a message. -/
def bookDiffs (updates : Json) : List Json :=
  ((updates.get "book_diffs").bind Json.asArray).getD []

/-- The diffs of a message, read. -/
def readDiffs (scales : Scales) (updates : Json) : Except AdapterError (List Diff) :=
  (bookDiffs updates).mapM (readDiff scales (statusByOid updates))

/-- The direct translation of a message, diff by diff. -/
def directTranslation (scales : Scales) (updates : Json) : Except AdapterError (List BookOp) := do
  let ds ← readDiffs scales updates
  return ds.flatMap Diff.directOps

/-- Both stop in the same way, or leave books with the same orders in the same places. -/
def SameOutcome : Except Fault OrderBook → Except Fault OrderBook → Prop
  | .ok b, .ok b' => SameOrders b b'
  | .error e, .error e' => e = e'
  | _, _ => False

/-- If the message is accepted, replaying what is decoded from it does to every book what replaying
its direct translation does. -/
def DedupePreserves (scales : Scales) (updates : Json) : Prop :=
  ∀ batch, decodeUpdatesWithMeta scales updates = .ok batch →
    ∃ direct, directTranslation scales updates = .ok direct ∧
      ∀ π b, Reachable π b →
        SameOutcome (b.replay π .dwellirTolerant (batch.ops.map ReasonedBookOp.op))
          (b.replay π .dwellirTolerant direct)

/-- The first `n` items of an array. -/
def Json.takeItems (n : ℕ) : Json → Json
  | .array items => .array (items.take n)
  | v => v

/-- The message with its first `n` diffs only. -/
def Json.cutDiffs (n : ℕ) : Json → Json
  | .object fields => .object (fields.map fun entry =>
      (entry.1, if entry.1 = "book_diffs" then entry.2.takeItems n else entry.2))
  | v => v

/-- An id is removed, opened and removed again in the message. -/
def RemovedAgainIn (scales : Scales) (updates : Json) (oid : OrderId) : Prop :=
  ∃ ds, readDiffs scales updates = .ok ds ∧ RemovedAgain ds oid

variable {scales : Scales} {updates : Json} {batch : ReasonedUpdateBatch} {ds : List Diff}
  {oid : OrderId}

/-! ### Decoding is reading, then collapsing -/

/-- What is decoded from the diffs. -/
theorem decodeUpdatesWithMeta_eq (scales : Scales) (updates : Json) :
    decodeUpdatesWithMeta scales updates = (readDiffs scales updates).map fun ds =>
      (ds.foldl (Decoding.account (statusByOid updates)) Decoding.start).batch := by
  rw [decodeUpdatesWithMeta, readDiffs, bookDiffs]
  cases (updates.get "book_diffs").bind Json.asArray with
  | none => rfl
  | some diffs =>
    show decodeDiffs scales (statusByOid updates) diffs =
      (diffs.mapM (readDiff scales (statusByOid updates))).map _
    rw [decodeDiffs, foldlM_read]
    cases diffs.mapM (readDiff scales (statusByOid updates)) <;> rfl

/-- An accepted message is one whose diffs can be read, and what is decoded from it is what the
loop leaves. -/
theorem exists_decoding (h : decodeUpdatesWithMeta scales updates = .ok batch) :
    ∃ ds, readDiffs scales updates = .ok ds ∧
      batch = (ds.foldl (Decoding.account (statusByOid updates)) Decoding.start).batch := by
  rw [decodeUpdatesWithMeta_eq] at h
  cases hds : readDiffs scales updates with
  | error e =>
    rw [hds] at h
    cases h
  | ok ds =>
    rw [hds] at h
    exact ⟨ds, rfl, (Except.ok.inj h).symm⟩

/-- The operations of an accepted message. -/
theorem exists_readDiffs (h : decodeUpdatesWithMeta scales updates = .ok batch) :
    ∃ ds, readDiffs scales updates = .ok ds ∧
      batch.ops.map ReasonedBookOp.op = dedupe ∅ ds := by
  obtain ⟨ds, hds, rfl⟩ := exists_decoding h
  exact ⟨ds, hds, Decoding.ops_account (statusByOid updates) Decoding.start ds⟩

theorem directTranslation_eq (h : readDiffs scales updates = .ok ds) :
    directTranslation scales updates = .ok (ds.flatMap Diff.directOps) := by
  rw [directTranslation, h]
  rfl

/-- **Without an id that is removed again, decoding is faithful.** -/
theorem dedupePreserves_of_readDiffs (hds : readDiffs scales updates = .ok ds)
    (hagain : ∀ oid, ¬ RemovedAgain ds oid) : DedupePreserves scales updates := by
  intro batch hbatch
  obtain ⟨ds', hds', hops⟩ := exists_readDiffs hbatch
  obtain rfl : ds = ds' := Except.ok.inj (hds.symm.trans hds')
  refine ⟨_, directTranslation_eq hds, fun π b hb => ?_⟩
  obtain ⟨a, h⟩ := hb.represents
  rw [hops, replay_dedupe h (harmless_start hagain)]
  cases b.replay π .dwellirTolerant (ds.flatMap Diff.directOps) with
  | error e => exact rfl
  | ok b' => exact ⟨fun _ _ => rfl, fun _ => rfl⟩

/-! ### With one, it is not -/

/-- Without overflow checks every replay returns. -/
theorem replay_release {b : OrderBook} {a : AbstractBook} (h : Represents .release b a)
    (policy : ReplayPolicy) (ops : List BookOp) :
    ∃ b', b.replay .release policy ops = .ok b' ∧
      Represents .release b' (ops.foldl (AbstractBook.replayOp policy) a) := by
  have hstep : ∀ b a, ∀ op ∈ ops, Represents .release b a →
      Returns (fun _ => False) (Prod.snd <$> b.applyOpWithPolicy .release op policy) fun b' =>
        Represents .release b' (a.replayOp policy op) :=
    fun b a op _ hba =>
      (replayOp_spec hba op policy).mono (fun _ he => nomatch he.2.1) fun _ hr => hr
  exact (Returns.foldlM_simulates (Represents .release) hstep h).exists_ok

/-- A message that ends in the second removal of an id is not decoded faithfully. -/
theorem not_dedupePreserves_of_readDiffs {d₁ n d₂ : Diff}
    (hds : readDiffs scales updates = .ok (ds ++ [d₂])) (hsub : [d₁, n].Sublist ds)
    (hd₁ : d₁.removes = some oid) (hopens : n.Opens oid) (hd₂ : d₂.removes = some oid) :
    ¬ DedupePreserves scales updates := by
  intro hpreserves
  have hdecode : ∃ batch, decodeUpdatesWithMeta scales updates = .ok batch := by
    rw [decodeUpdatesWithMeta_eq, hds]
    exact ⟨_, rfl⟩
  obtain ⟨batch, hbatch⟩ := hdecode
  obtain ⟨ds', hds', hops⟩ := exists_readDiffs hbatch
  obtain rfl : ds ++ [d₂] = ds' := Except.ok.inj (hds.symm.trans hds')
  obtain ⟨direct, hdirect, hsame⟩ := hpreserves batch hbatch
  obtain rfl : (ds ++ [d₂]).flatMap Diff.directOps = direct :=
    Except.ok.inj ((directTranslation_eq hds).symm.trans hdirect)
  -- the empty book is enough to see it
  have hnew := represents_new .release
  obtain ⟨b₁, hb₁, hrep₁⟩ := replay_release hnew .dwellirTolerant (dedupe ∅ (ds ++ [d₂]))
  obtain ⟨b₂, hb₂, hrep₂⟩ :=
    replay_release hnew .dwellirTolerant ((ds ++ [d₂]).flatMap Diff.directOps)
  have hbooks := hsame .release OrderBook.new ⟨[], rfl⟩
  rw [hops, hb₁, hb₂] at hbooks
  have hlive : ((dedupe ∅ (ds ++ [d₂])).foldl (AbstractBook.replayOp .dwellirTolerant)
      KeyedQueues.empty).Live oid :=
    live_dedupe (hsub.trans (List.sublist_append_left ds [d₂])) hd₁ hopens
  have hdead : ¬ (((ds ++ [d₂]).flatMap Diff.directOps).foldl
      (AbstractBook.replayOp .dwellirTolerant) KeyedQueues.empty).Live oid := not_live_direct hd₂
  obtain ⟨o, ho⟩ := KeyedQueues.live_iff_find.mp hlive
  have hget := hbooks.get oid
  rw [get_spec hrep₁, get_spec hrep₂, ho, KeyedQueues.find_eq_none_iff.mpr hdead] at hget
  exact nomatch hget

/-! ### Messages cut short -/

theorem lookup_map_snd {κ α : Type} [BEq κ] [LawfulBEq κ] (f : κ → α → α) (key : κ)
    (fields : List (κ × α)) :
    (fields.map fun entry => (entry.1, f entry.1 entry.2)).lookup key =
      (fields.lookup key).map (f key) := by
  induction fields with
  | nil => rfl
  | cons entry fields ih =>
    rw [List.map_cons, List.lookup_cons, List.lookup_cons]
    cases hkey : key == entry.1 with
    | true =>
      rw [eq_of_beq hkey]
      rfl
    | false => exact ih

theorem get_cutDiffs (n : ℕ) (key : String) (v : Json) :
    (v.cutDiffs n).get key =
      (v.get key).map fun w => if key = "book_diffs" then w.takeItems n else w := by
  cases v with
  | object fields =>
    exact lookup_map_snd (fun key w => if key = "book_diffs" then w.takeItems n else w) key fields
  | null => rfl
  | bool b => rfl
  | number m => rfl
  | string s => rfl
  | array items => rfl

theorem statusByOid_cutDiffs (n : ℕ) (v : Json) : statusByOid (v.cutDiffs n) = statusByOid v := by
  have hget : (v.cutDiffs n).get "order_statuses" = v.get "order_statuses" := by
    rw [get_cutDiffs]
    simp
  rw [statusByOid, hget, statusByOid]

theorem asArray_takeItems (n : ℕ) (v : Json) :
    ((v.takeItems n).asArray).getD [] = (v.asArray.getD []).take n := by
  cases v with
  | array items => rfl
  | null => exact List.take_nil.symm
  | bool b => exact List.take_nil.symm
  | number m => exact List.take_nil.symm
  | string s => exact List.take_nil.symm
  | object fields => exact List.take_nil.symm

theorem bookDiffs_cutDiffs (n : ℕ) (v : Json) :
    bookDiffs (v.cutDiffs n) = (bookDiffs v).take n := by
  rw [bookDiffs, get_cutDiffs, bookDiffs]
  cases v.get "book_diffs" with
  | none => exact List.take_nil.symm
  | some w => exact asArray_takeItems n w

/-- The diffs of a message that is cut short. -/
theorem readDiffs_cutDiffs (h : readDiffs scales updates = .ok ds) (n : ℕ) :
    readDiffs scales (updates.cutDiffs n) = .ok (ds.take n) := by
  rw [readDiffs, statusByOid_cutDiffs, bookDiffs_cutDiffs]
  exact mapM_take h n

/-- A triple in a list ends somewhere. -/
theorem exists_take_of_sublist {α : Type} {x y z : α} {l : List α} (h : [x, y, z].Sublist l) :
    ∃ n m, l.take n = m ++ [z] ∧ [x, y].Sublist m := by
  have hsplit : [x, y] ++ [z] = [x, y, z] := rfl
  rw [← hsplit, List.append_sublist_iff] at h
  obtain ⟨l₁, l₂, rfl, h₁, h₂⟩ := h
  obtain ⟨s, t, rfl⟩ := List.append_of_mem (List.singleton_sublist.mp h₂)
  refine ⟨(l₁ ++ s).length + 1, l₁ ++ s, ?_, h₁.trans (List.sublist_append_left l₁ s)⟩
  rw [← List.append_assoc, List.take_length_add_append]
  rfl

/-- **Decoding is faithful when no order is removed, opened and removed again**, and this is the
exact boundary: otherwise the message can be cut short so that it is not. -/
theorem dedupePreserves_iff_of_cuts (hacc : decodeUpdatesWithMeta scales updates = .ok batch) :
    ((¬ ∃ oid, RemovedAgainIn scales updates oid) → DedupePreserves scales updates) ∧
      ((∀ n, DedupePreserves scales (updates.cutDiffs n)) ↔
        ¬ ∃ oid, RemovedAgainIn scales updates oid) := by
  obtain ⟨ds, hds, -⟩ := exists_readDiffs hacc
  have hagain : (¬ ∃ oid, RemovedAgainIn scales updates oid) → ∀ oid, ¬ RemovedAgain ds oid :=
    fun h oid hoid => h ⟨oid, ds, hds, hoid⟩
  refine ⟨fun h => dedupePreserves_of_readDiffs hds (hagain h), ?_, ?_⟩
  · rintro hcuts ⟨oid, ds', hds', d₁, n, d₂, hsub, hd₁, hopens, hd₂⟩
    obtain rfl : ds = ds' := Except.ok.inj (hds.symm.trans hds')
    obtain ⟨m, l, htake, hpair⟩ := exists_take_of_sublist hsub
    have hcut := readDiffs_cutDiffs hds m
    rw [htake] at hcut
    exact not_dedupePreserves_of_readDiffs hcut hpair hd₁ hopens hd₂ (hcuts m)
  · intro h n
    refine dedupePreserves_of_readDiffs (readDiffs_cutDiffs hds n) ?_
    rintro oid ⟨d₁, m, d₂, hsub, hrest⟩
    exact hagain h oid ⟨d₁, m, d₂, hsub.trans (List.take_sublist n ds), hrest⟩

/-- A diff of order 7. -/
def sampleDiff (raw : Json) : Json :=
  .object [("user", .string "0xaaaaaaaaaaaaaaaaaaaaaaaaaaaaaaaaaaaaaaaa"),
    ("oid", .number (.posInt 7)), ("px", .string "1"), ("coin", .string "X"),
    ("raw_book_diff", raw)]

/-- A message about order 7. -/
def sampleMessage (raws : List Json) : Json :=
  .object [("order_statuses", .array [.object [("status", .string "open"),
      ("order", .object [("side", .string "B"), ("oid", .number (.posInt 7)),
        ("timestamp", .number (.posInt 123))])]]),
    ("book_diffs", .array (raws.map sampleDiff))]

/-- A complete fill, as the feed encodes it. -/
def completeFillMessage : Json :=
  sampleMessage [.object [("update", .object [("newSz", .string "0.0")])], .string "remove"]

/-- The two diffs of a complete fill become one removal, which is faithful. -/
theorem dedupePreserves_iff_of_cuts_sample : DedupePreserves .btcDefault completeFillMessage := by
  have hds : readDiffs .btcDefault completeFillMessage = .ok [.update 7 0, .remove 7] := by
    decide +kernel
  have hacc : decodeUpdatesWithMeta .btcDefault completeFillMessage =
      .ok ⟨[⟨.remove 7, .venue "dwellir" .completeFillCollapsed (some "open")⟩], 1, 1, 0⟩ := by
    decide +kernel
  refine (dedupePreserves_iff_of_cuts hacc).1 ?_
  rintro ⟨oid, ds, hds', d₁, n, d₂, hsub, -⟩
  obtain rfl := Except.ok.inj (hds.symm.trans hds')
  exact absurd hsub.length_le (by simp)

/-! ### A coincidence -/

/-- Taking an order off again and putting it back at once makes no difference. -/
theorem replay_reopen {π : Profile} {b : OrderBook} {a : AbstractBook} {order : Order}
    (h : Represents π b a) (hq : order.qty ≠ 0) (hl : ¬ a.Live order.id) :
    SameOutcome (b.replay π .dwellirTolerant [.add order, .add order])
      (b.replay π .dwellirTolerant [.add order, .remove order.id, .add order]) := by
  rw [replay_cons, replay_cons]
  cases hb₁ : Prod.snd <$> b.applyOpWithPolicy π (.add order) .dwellirTolerant with
  | error e => exact rfl
  | ok b₁ =>
    have h₁ : Represents π b₁ (a.push order hq hl) := by
      have hadd := (replayOp_spec h (.add order) .dwellirTolerant).of_eq_ok hb₁
      rwa [replayOp_add hq hl] at hadd
    have hskip : b₁.replay π .dwellirTolerant [.add order] = .ok b₁ :=
      replay_add_of_live h₁ (KeyedQueues.live_push.mpr (Or.inr rfl))
    obtain ⟨b₂, hb₂, h₂⟩ : ∃ b₂, Prod.snd <$> b₁.applyOpWithPolicy π (.remove order.id)
        .dwellirTolerant = .ok b₂ ∧ Represents π b₂ a := by
      have hremove := replayOp_spec h₁ (.remove order.id) .dwellirTolerant
      rw [replayOp_remove, AbstractBook.resize_push] at hremove
      exact (hremove.mono (fun e he => he.2.2) fun _ => id).exists_ok
    -- it fitted the first time
    have hfits : ∀ e, ¬ OnlyOverflow π (AddOverflows a order) e := by
      rintro e ⟨-, rfl, hover⟩
      refine not_addOverflows ?_ hover
      rw [AbstractBook.add_of_not_live hq hl]
      exact h₁.totalsFit
    obtain ⟨b₃, hb₃, h₃⟩ : ∃ b₃, Prod.snd <$> b₂.applyOpWithPolicy π (.add order)
        .dwellirTolerant = .ok b₃ ∧ Represents π b₃ (a.push order hq hl) := by
      have hadd := replayOp_spec h₂ (.add order) .dwellirTolerant
      rw [replayOp_add hq hl] at hadd
      exact (hadd.mono hfits fun _ => id).exists_ok
    rw [ok_bind, ok_bind, hskip, replay_cons, hb₂, ok_bind, replay_cons, hb₃, ok_bind]
    exact h₁.sameOrders h₃

/-- Order 7 is removed, opened, removed again and opened again as it was. -/
def reopenMessage : Json :=
  sampleMessage [.string "remove", .object [("new", .object [("sz", .string "2")])],
    .string "remove", .object [("new", .object [("sz", .string "2")])]]

/-- The order that the sample messages open. -/
def openedOrder : Order := ⟨7, ⟨Vector.replicate 20 170⟩, .bid, 1000000, 200000000, 123⟩

/-- One whole message can be decoded faithfully although an order is removed again, if it comes back
where its ghost stands. This is why the boundary is drawn for a message and its cuts. -/
theorem dedupePreserves_reopenMessage : DedupePreserves .btcDefault reopenMessage ∧
    RemovedAgainIn .btcDefault reopenMessage 7 := by
  have hds : readDiffs .btcDefault reopenMessage = .ok [.remove 7, .new openedOrder (some "open"),
      .remove 7, .new openedOrder (some "open")] := by
    decide +kernel
  refine ⟨fun batch hbatch => ?_, _, hds, .remove 7, .new openedOrder (some "open"), .remove 7,
    by simp, rfl, ⟨rfl, by decide⟩, rfl⟩
  obtain ⟨ds', hds', hops⟩ := exists_readDiffs hbatch
  obtain rfl := Except.ok.inj (hds.symm.trans hds')
  refine ⟨_, directTranslation_eq hds, fun π b hb => ?_⟩
  obtain ⟨a, h⟩ := hb.represents
  rw [hops]
  show SameOutcome (b.replay π .dwellirTolerant [.remove 7, .add openedOrder, .add openedOrder])
    (b.replay π .dwellirTolerant [.remove 7, .add openedOrder, .remove 7, .add openedOrder])
  rw [replay_cons, replay_cons]
  cases hb₁ : Prod.snd <$> b.applyOpWithPolicy π (.remove 7) .dwellirTolerant with
  | error e => exact rfl
  | ok b₁ =>
    have h₁ := (replayOp_spec h (.remove 7) .dwellirTolerant).of_eq_ok hb₁
    exact replay_reopen h₁ (by decide) not_live_replayOp_remove

/-! ### A ghost order -/

/-- Order 7 is removed, opened and removed again. -/
def ghostMessage : Json :=
  sampleMessage [.string "remove", .object [("new", .object [("sz", .string "2")])],
    .string "remove"]

/-- The decoder drops the second removal, and order 7 stays on the book. -/
theorem not_forall_dedupePreserves :
    (∃ batch, decodeUpdatesWithMeta .btcDefault ghostMessage = .ok batch ∧
      batch.ops.map ReasonedBookOp.op = [.remove 7, .add openedOrder] ∧
      batch.droppedDuplicateRemoves = 1) ∧
    directTranslation .btcDefault ghostMessage = .ok [.remove 7, .add openedOrder, .remove 7] ∧
    ¬ ∀ scales updates, DedupePreserves scales updates := by
  have hds : readDiffs .btcDefault ghostMessage =
      .ok ([.remove 7, .new openedOrder (some "open")] ++ [.remove 7]) := by
    decide +kernel
  refine ⟨?_, directTranslation_eq hds, fun h => ?_⟩
  · rw [decodeUpdatesWithMeta_eq, hds]
    exact ⟨_, rfl, rfl, rfl⟩
  · exact not_dedupePreserves_of_readDiffs hds (List.Sublist.refl _) rfl ⟨rfl, by decide⟩ rfl
      (h _ _)

end L4Book
