import L4Book.Refinement.Refusal
import L4Book.Results.DebugCounts
import L4Book.Results.Exports

/-!
# The books of a debug log

A reader of the log can keep a book of its own: take over the book of every snapshot message and
apply every operation that the log says was applied. Up to a snapshot that the logger's book
refused, which leaves it in a state that is not logged, that book is the logger's; and every book
that the log shows until then is the reader's at that point. With the next snapshot message that is
accepted the reader is in step again.

An operation that was refused can be tried again from its record alone: restored, the book of the
record refuses it for the same reason.

## Main definitions

* `readBookOp`: an operation of the log
* `followRecord`, `follow`: the reader's book
* `InStep`, `Knows`: what the reader knows, and when
* `Reproducible`: an error that can be had again

## Main results

* `debugLog_followed`, `debugLog_reproducible`
-/

namespace L4Book

variable {lib : Library} {π : Profile} {updatesToLog : ℕ} {s s' : DebugState} {b b' c : OrderBook}
  {a : AbstractBook} {log : List Json} {v : Json} {reads : List (Except String Message)}

/-! ### Reading operations -/

/-- An operation of the log. -/
def readBookOp (v : Json) : Option BookOp := do
  let type ← (v.get "type").bind Json.asStr
  if type = "add" then
    let order ← v.get "order"
    BookOp.add <$> readOrder rawField .sp500 order
  else
    let id ← (v.get "id").bind Json.asU64
    if type = "remove" then return .remove id
    else
      let newQty ← (v.get "raw_new_qty").bind Json.asU64
      if type = "update_size" then return .updateSize id newQty
      else if type = "amend_size" then return .amendSize id newQty
      else none

/-- An operation of the log that comes with its cause. -/
def readReasonedBookOp (v : Json) : Option BookOp := (v.get "op").bind readBookOp

/-- **An operation is read back.** -/
theorem readBookOp_bookOpToValue (op : BookOp) : readBookOp (bookOpToValue op) = some op := by
  cases op with
  | add order =>
    have hread : readOrder rawField .sp500 (.object [("id", jsonU64 order.id),
        ("wallet", .string order.wallet.debugFmt), ("side", .string (sideName order.side)),
        ("raw_price", jsonU64 order.price), ("raw_qty", jsonU64 order.qty),
        ("ts", jsonU64 order.ts)]) = some order := by
      have hwallet : (WalletId.fromHex order.wallet.debugFmt).toOption = some order.wallet := by
        rw [fromHex_debugFmt]
        rfl
      show ((WalletId.fromHex order.wallet.debugFmt).toOption >>= fun wallet =>
        readSide (sideName order.side) >>= fun side =>
          some (⟨order.id, wallet, side, order.price, order.qty, order.ts⟩ : Order)) = some order
      rw [hwallet, readSide_sideName]
      rfl
    show BookOp.add <$> readOrder rawField .sp500 _ = _
    rw [hread]
    rfl
  | remove id => rfl
  | updateSize id newQty => rfl
  | amendSize id newQty => rfl

theorem readReasonedBookOp_eq (op : ReasonedBookOp) :
    readReasonedBookOp (reasonedBookOpToValue op) = some op.op :=
  readBookOp_bookOpToValue op.op

/-! ### Following the log -/

/-- The book that a record shows. -/
def bookIn (v : Json) : Option Json :=
  match v.get "book" with
  | some book => some book
  | none => v.get "book_after_failed_op"

/-- The record of a snapshot message that was accepted. The records of books after updates have an
index. -/
def Opens (v : Json) : Prop :=
  IsEvent "full_snapshot" v ∧ (v.get "update_index").isNone = true

instance : DecidablePred Opens := fun _ => inferInstanceAs (Decidable (_ ∧ _))

/-- The record of a snapshot message that was refused. -/
abbrev Refuses (v : Json) : Prop := IsEvent "snapshot_apply_error" v

/-- What a record tells a reader who keeps a book of its own. -/
def followRecord (π : Profile) (known : Option OrderBook) (v : Json) :
    Except Fault (Option OrderBook) :=
  if Opens v then
    match (v.get "book").bind (readBook rawField .sp500) with
    | none => .ok none
    | some orders => (fun r => some r.2) <$> OrderBook.new.applySnapshot π orders
  else if IsEvent "applied_book_diff" v then
    match known, (v.get "op").bind readReasonedBookOp with
    | some b, some op => (fun r => some r.2) <$> b.applyOp π op
    | _, _ => .ok none
  else if Refuses v then .ok none
  else .ok known

/-- The book of a reader who has read the log. -/
def follow (π : Profile) (log : List Json) : Except Fault (Option OrderBook) :=
  log.foldlM (followRecord π) (some .new)

theorem follow_concat : follow π (log ++ [v]) = follow π log >>= (followRecord π · v) := by
  rw [follow, List.foldlM_append]
  simp only [List.foldlM_cons, List.foldlM_nil, bind_pure]
  rfl

/-- A snapshot message makes the reader forget what it knew. -/
theorem followRecord_of_opens (hv : Opens v) (known known' : Option OrderBook) :
    followRecord π known v = followRecord π known' v := by
  unfold followRecord
  rw [if_pos hv, if_pos hv]

/-- No snapshot message was refused, or none since one that was accepted. -/
def InStep (log : List Json) : Prop :=
  (∀ v ∈ log, ¬ Refuses v) ∨
    ∃ pre v post, log = pre ++ v :: post ∧ Opens v ∧ ∀ w ∈ post, ¬ Refuses w

theorem InStep.of_concat (h : InStep (log ++ [v])) (hv : ¬ Opens v) :
    InStep log ∧ ¬ Refuses v := by
  rcases h with hnone | ⟨pre, w, post, hsplit, hw, hpost⟩
  · exact ⟨Or.inl fun w hw => hnone w (List.mem_append_left _ hw), hnone v (by simp)⟩
  · rcases List.eq_nil_or_concat post with rfl | ⟨post, w', rfl⟩
    · obtain ⟨-, heq⟩ := List.append_inj' hsplit rfl
      exact absurd hw ((List.cons.inj heq).1 ▸ hv)
    · rw [List.concat_eq_append, ← List.cons_append, ← List.append_assoc] at hsplit
      obtain ⟨hlog, heq⟩ := List.append_inj' hsplit rfl
      obtain rfl := (List.cons.inj heq).1
      rw [List.concat_eq_append] at hpost
      exact ⟨Or.inr ⟨pre, w, post, hlog, hw, fun x hx => hpost x (List.mem_append_left _ hx)⟩,
        hpost v (by simp)⟩

/-- The reader of the log has a book with this property, if it is in step. -/
def Knows (π : Profile) (log : List Json) (p : OrderBook → Prop) : Prop :=
  ∃ known, follow π log = .ok known ∧ (∀ c, known = some c → p c) ∧ (InStep log → known ≠ none)

/-- Both books store the same, so that no session tells them apart. -/
def StoreSame (π : Profile) (b b' : OrderBook) : Prop :=
  ∃ a, Represents π b a ∧ Represents π b' a

/-- The reader is in step with the logger. -/
structure Followed (π : Profile) (log : List Json) (b : OrderBook) : Prop where
  represents : ∃ a, Represents π b a
  known : Knows π log fun c => StoreSame π c b
  /-- Every book that the log shows is the reader's. -/
  shows : ∀ pre v post j, log = pre ++ v :: post → bookIn v = some j →
    Knows π (pre ++ [v]) fun c => bookSnapshot π .sp500 c = .ok j

/-- A record after which the reader is still in step. -/
theorem Followed.concat {known known' : Option OrderBook} (h : Followed π log b)
    (hb' : ∃ a, Represents π b' a) (hknown : follow π log = .ok known)
    (hrecord : followRecord π known v = .ok known')
    (hsame : ∀ c, known' = some c → StoreSame π c b')
    (hsome : Opens v ∨ ¬ Refuses v ∧ known ≠ none → known' ≠ none)
    (hshows : ∀ j, bookIn v = some j → bookSnapshot π .sp500 b' = .ok j) :
    Followed π (log ++ [v]) b' := by
  obtain ⟨known₀, hfollow, hold, hne⟩ := h.known
  obtain rfl : known₀ = known := Except.ok.inj (hfollow.symm.trans hknown)
  have hfollow' : follow π (log ++ [v]) = .ok known' := by
    rw [follow_concat, hknown]
    exact hrecord
  have hstep : InStep (log ++ [v]) → known' ≠ none := by
    intro hin
    by_cases hv : Opens v
    · exact hsome (Or.inl hv)
    · obtain ⟨hlog, hrefuses⟩ := hin.of_concat hv
      exact hsome (Or.inr ⟨hrefuses, hne hlog⟩)
  refine ⟨hb', ⟨known', hfollow', hsame, hstep⟩, ?_⟩
  intro pre w post j hsplit hj
  rcases List.eq_nil_or_concat post with rfl | ⟨post, w', rfl⟩
  · -- the record itself
    obtain ⟨rfl, hw⟩ := List.append_inj' hsplit rfl
    obtain rfl : v = w := (List.cons.inj hw).1
    refine ⟨known', hfollow', fun c hc => ?_, hstep⟩
    obtain ⟨a, hc', hb⟩ := hsame c hc
    rw [bookSnapshot_spec hc' Scales.showable_sp500, ← bookSnapshot_spec hb Scales.showable_sp500]
    exact hshows j hj
  · rw [List.concat_eq_append, ← List.cons_append, ← List.append_assoc] at hsplit
    exact h.shows pre w post j (List.append_inj' hsplit rfl).1 hj

/-- A record that does not concern the reader's book, and shows the logger's if any. -/
theorem Followed.note (h : Followed π log b) (hrecord : ∀ known, followRecord π known v = .ok known)
    (hshows : ∀ j, bookIn v = some j → bookSnapshot π .sp500 b = .ok j) :
    Followed π (log ++ [v]) b := by
  obtain ⟨known, hknown, hsame, -⟩ := h.known
  have hopens : ¬ Opens v := by
    intro hv
    have hforget := followRecord_of_opens (π := π) hv none (some .new)
    rw [hrecord, hrecord] at hforget
    cases hforget
  exact h.concat h.represents hknown (hrecord known) hsame
    (fun hor => (hor.resolve_left hopens).2) hshows

theorem Followed.marker (h : Followed π log b) (marker : String) :
    Followed π (log ++ [record "grep_marker" [("marker", .string marker)]]) b :=
  h.note (fun _ => rfl) fun _ hj => by cases hj

/-! ### Steps -/

/-- Books that store the same reply alike, and go on storing the same. -/
theorem applyOp_congr {op : BookOp} {reply : Except BookError Unit} (h : Represents π b a)
    (h' : Represents π b' a) (hop : b.applyOp π op = .ok (reply, c)) :
    ∃ c', b'.applyOp π op = .ok (reply, c') ∧ StoreSame π c' c := by
  rcases both_return_or_overflow (applyOp_spec h op) (applyOp_spec h' op) (fun r hr => ⟨r.2, hr.2⟩)
    (fun r hr => ⟨r.2, hr.2⟩) (not_callOverflows (c := .applyOp op))
    (not_callOverflows (c := .applyOp op)) with ⟨r, r', hr, hr', hpost, hpost'⟩ | ⟨-, hr, -⟩
  · obtain rfl : r = (reply, c) := Except.ok.inj (hr.symm.trans hop)
    obtain ⟨reply', c'⟩ := r'
    obtain rfl : reply' = reply := hpost'.1.trans hpost.1.symm
    exact ⟨c', hr', _, hpost'.2, hpost.2⟩
  · cases hr.symm.trans hop

/-- The logger takes over a snapshot, and the reader with it. -/
theorem Followed.opened (h : Followed π log b) (hc : Represents π c a)
    (hrecord : Opens v)
    (hbook : v.get "book" = some (a.exported .sp500)) : Followed π (log ++ [v]) c := by
  obtain ⟨known, hknown, -⟩ := h.known
  obtain ⟨restored, hsnapshot, hrestored⟩ := applySnapshot_restores hc OrderBook.new
  have hread : (v.get "book").bind (readBook rawField .sp500) = some a.orders := by
    rw [hbook, Option.bind_some, readBook_exported (readsOrders_raw .sp500)]
  have hrestore : followRecord π known v = .ok (some restored) := by
    unfold followRecord
    rw [if_pos hrecord, hread]
    show (fun r : Reply Unit => some r.2) <$> OrderBook.new.applySnapshot π a.orders = _
    rw [hsnapshot]
    rfl
  refine h.concat ⟨a, hc⟩ hknown hrestore ?_ (fun _ => by simp) ?_
  · rintro c' hc'
    obtain rfl := Option.some.inj hc'
    exact ⟨a, hrestored, hc⟩
  · intro j hj
    have hj' : bookIn v = some (a.exported .sp500) := by rw [bookIn, hbook]
    rw [← Option.some.inj (hj'.symm.trans hj)]
    exact bookSnapshot_spec hc Scales.showable_sp500

/-- The logger applies an operation, and the reader with it. -/
theorem Followed.applied {op : ReasonedBookOp} {fields : List (String × Json)}
    (h : Followed π log b) (hop : b.applyOp π op.op = .ok (.ok (), c))
    (hfields : fields.lookup "op" = some (reasonedBookOpToValue op))
    (hnone : bookIn (record "applied_book_diff" fields) = none) :
    Followed π (log ++ [record "applied_book_diff" fields]) c := by
  obtain ⟨known, hknown, hsame, -⟩ := h.known
  obtain ⟨a, hb⟩ := h.represents
  have hc : ∃ a', Represents π c a' := ⟨_, ((applyOp_spec hb op.op).of_eq_ok hop).2⟩
  have hshows : ∀ j, bookIn (record "applied_book_diff" fields) = some j →
      bookSnapshot π .sp500 c = .ok j := fun j hj => by
    rw [hnone] at hj
    cases hj
  cases known with
  | none =>
    have hopens : ¬ Opens (record "applied_book_diff" fields) := fun hv =>
      absurd (Option.some.inj hv.1) (by decide)
    exact h.concat hc hknown rfl (fun _ h => by cases h)
      (fun hor => absurd rfl (hor.resolve_left hopens).2) hshows
  | some d =>
    obtain ⟨a, hd, hb⟩ := hsame d rfl
    obtain ⟨d', hd', hstore⟩ := applyOp_congr hb hd hop
    have hread : ((record "applied_book_diff" fields).get "op").bind readReasonedBookOp =
        some op.op := by
      show (fields.lookup "op").bind readReasonedBookOp = _
      rw [hfields, Option.bind_some, readReasonedBookOp_eq]
    have hrecord : followRecord π (some d) (record "applied_book_diff" fields) =
        .ok (some d') := by
      show (match some d, ((record "applied_book_diff" fields).get "op").bind
          readReasonedBookOp with
        | some b, some op => (fun r : Reply Unit => some r.2) <$> b.applyOp π op
        | _, _ => .ok none) = _
      rw [hread]
      show (fun r : Reply Unit => some r.2) <$> d.applyOp π op.op = _
      rw [hd']
      rfl
    refine h.concat hc hknown hrecord ?_ (fun _ => by simp) hshows
    rintro d'' heq
    exact Option.some.inj heq ▸ hstore

/-- A refused snapshot puts the reader out of step. -/
theorem Followed.lost {fields : List (String × Json)} (h : Followed π log b)
    (hc : ∃ a, Represents π c a)
    (hnone : bookIn (record "snapshot_apply_error" fields) = none) :
    Followed π (log ++ [record "snapshot_apply_error" fields]) c := by
  obtain ⟨known, hknown, -⟩ := h.known
  have hopens : ¬ Opens (record "snapshot_apply_error" fields) := fun hv =>
    absurd (Option.some.inj hv.1) (by decide)
  exact h.concat hc hknown rfl (fun _ h => by cases h)
    (fun hor => absurd rfl (hor.resolve_left hopens).1) fun j hj => by
      rw [hnone] at hj
      cases hj

/-- A book stores one abstract book. -/
theorem Represents.unique {a' : AbstractBook} (h : Represents π b a) (h' : Represents π b a') :
    a = a' := eq_of_ordersAt h h' fun _ _ => rfl

theorem StoreSame.trans (h : StoreSame π b b') (h' : StoreSame π b' c) : StoreSame π b c := by
  obtain ⟨a, hb, hb'⟩ := h
  obtain ⟨a', hb'', hc⟩ := h'
  obtain rfl := hb'.unique hb''
  exact ⟨a, hb, hc⟩

/-- It does not matter which of two such books the logger has. -/
theorem Followed.congr (h : Followed π log b) (hsame : StoreSame π b c) : Followed π log c where
  represents := hsame.imp fun _ hc => hc.2
  known := h.known.imp fun _ ⟨hfollow, hstore, hne⟩ =>
    ⟨hfollow, fun d hd => (hstore d hd).trans hsame, hne⟩
  shows := h.shows

/-- What is refused leaves a book that stores the same. -/
theorem storeSame_of_refused {op : BookOp} {err : BookError} (h : Represents π b a)
    (hop : b.applyOp π op = .ok (.error err, c)) :
    (a.applyOp op).1 = .error err ∧ Represents π c a := by
  obtain ⟨hreply, hc⟩ := (applyOp_spec h op).of_eq_ok hop
  have hrefused : op.reply (a.find op.orderId) = .error err := by
    rw [← AbstractBook.applyOp_fst, ← hreply]
  rw [AbstractBook.applyOp_of_refused hrefused] at hc
  exact ⟨hreply.symm, hc⟩

/-- **What every step keeps.** -/
theorem Followed.step (h : Followed π s.log s.book) (hstep : DebugStep π updatesToLog s s') :
    Followed π s'.log s'.book := by
  have hnone : ∀ {event : String} {fields : List (String × Json)},
      fields.lookup "book" = none ∧ fields.lookup "book_after_failed_op" = none →
        ∀ j, bookIn (record event fields) = some j → bookSnapshot π .sp500 s.book = .ok j := by
    intro event fields hfields j hj
    have hin : bookIn (record event fields) = none := by
      show (match fields.lookup "book" with
        | some book => some book
        | none => fields.lookup "book_after_failed_op") = none
      rw [hfields.1, hfields.2]
    rw [hin] at hj
    cases hj
  cases hstep with
  | message => exact h
  | closed fields hfields => exact h.note (fun _ => rfl) (hnone hfields.2)
  | unreadable event fields hevent hfields hlt =>
    refine h.note ?_ (hnone hfields.2)
    simp only [List.mem_cons, List.not_mem_nil, or_false] at hevent
    rcases hevent with rfl | rfl | rfl <;> exact fun _ => rfl
  | snapshot text orders cause hlt hs' =>
    obtain ⟨a, hb⟩ := h.represents
    rw [DebugState.onSnapshot] at hs'
    obtain ⟨⟨r, book⟩, hop, hs'⟩ := bind_eq_ok_iff.mp hs'
    have hop := reported_eq_ok_iff.mp hop
    have hbook : ∃ a', Represents π book a' := ⟨_, ((applySnapshot_spec hb orders).of_eq_ok hop).2⟩
    rcases r with err | _
    · obtain rfl := Except.ok.inj hs'
      exact (h.marker _).lost hbook rfl
    · obtain ⟨a', hbook⟩ := hbook
      obtain ⟨v, hv, hs'⟩ := bind_eq_ok_iff.mp hs'
      obtain rfl := Except.ok.inj hs'
      have hexport := bookSnapshot_spec hbook Scales.showable_sp500
      obtain rfl := Except.ok.inj (hv.symm.trans hexport)
      exact (h.marker _).opened hbook ⟨rfl, rfl⟩ rfl
  | update text batch hle => exact (h.marker _).note (fun _ => rfl) fun _ hj => by cases hj
  | silentUpdate batch hlt => exact h
  | applied opIndex op book hop => exact h.applied hop rfl rfl
  | refused text parsedUpdate opIndex op err book v hlt hop hv =>
    obtain ⟨a, hb⟩ := h.represents
    have hbook := (storeSame_of_refused hb hop).2
    refine (((h.congr ⟨a, hb, hbook⟩).marker _).marker _).note (fun _ => rfl) fun j hj => ?_
    exact hv.trans (congrArg Except.ok (Option.some.inj hj))
  | summary opResults v hv =>
    refine ((h.note (fun _ => rfl) fun _ hj => by cases hj).marker _).note (fun _ => rfl)
      fun j hj => ?_
    exact hv.trans (congrArg Except.ok (Option.some.inj hj))

theorem followed_start (updatesToLog : ℕ) :
    Followed π (DebugState.start updatesToLog).log (DebugState.start updatesToLog).book := by
  have hnil : Followed π [] OrderBook.new := by
    refine ⟨⟨_, represents_new π⟩, ⟨some .new, rfl, ?_, fun _ => by simp⟩, ?_⟩
    · rintro c hc
      obtain rfl := Option.some.inj hc
      exact ⟨_, represents_new π, represents_new π⟩
    · intro pre v post j hsplit
      simp at hsplit
  exact hnil.note (fun _ => rfl) fun _ hj => by cases hj

theorem Followed.steps (h : Followed π s.log s.book) (hsteps : DebugSteps π updatesToLog s s') :
    Followed π s'.log s'.book := by
  induction hsteps with
  | refl => exact h
  | tail _ hstep ih => exact ih.step hstep

/-- **A reader of the log keeps the logger's book.** As long as no snapshot message was refused, or
none since one that was accepted, no session tells the reader's book from the logger's; and every
book that the log shows up to such a point is the export of the reader's book there. -/
theorem debugLog_followed {left : Bool}
    (h : (DebugState.start updatesToLog).loop lib π updatesToLog reads = .ok (s, left)) :
    Knows π s.log (fun c => ∀ requests, c.responses π requests = s.book.responses π requests) ∧
    ∀ pre v post j, s.log = pre ++ v :: post → bookIn v = some j →
      Knows π (pre ++ [v]) fun c => bookSnapshot π .sp500 c = .ok j := by
  have hfollowed := (followed_start (π := π) updatesToLog).steps (run_steps h)
  obtain ⟨known, hknown, hsame, hne⟩ := hfollowed.known
  refine ⟨⟨known, hknown, fun c hc requests => ?_, hne⟩, hfollowed.shows⟩
  obtain ⟨a, hrep, hbook⟩ := hsame c hc
  exact responses_congr hrep hbook requests

/-- A reader of the sample log has the two orders of the logger's book. -/
theorem debugLog_followed_sample : ∃ c, follow .dev sampleState.log = .ok (some c) ∧
    c.responses .dev [.query .len] = .ok [.answer (.len 2)] := by
  obtain ⟨⟨known, hknown, hsame, hne⟩, -⟩ := debugLog_followed sampleState_eq
  obtain ⟨c, rfl⟩ := Option.ne_none_iff_exists'.mp (hne (Or.inl (by decide +kernel)))
  have hlen : sampleState.book.len = 2 := by decide +kernel
  refine ⟨c, hknown, (hsame c rfl _).trans ?_⟩
  show Except.ok [Response.answer (.len sampleState.book.len)] = _
  rw [hlen]

/-! ### Errors that can be had again -/

/-- From the record of the error alone: the book it shows, restored from its decimal texts, refuses
the operation it names for the reason it gives, and stays as it is. -/
def Reproducible (π : Profile) (v : Json) : Prop :=
  ∃ orders op restored err,
    (v.get "book_after_failed_op").bind (readBook textField .sp500) = some orders ∧
    (v.get "parsed_op").bind readReasonedBookOp = some op ∧
    OrderBook.new.applySnapshot π orders = .ok (.ok (), restored) ∧
    restored.applyOp π op = .ok (.error err, restored) ∧
    (v.get "error").bind Json.asStr = some err.display

/-- Every record of an operation that was refused. -/
def AllReproducible (π : Profile) (log : List Json) : Prop :=
  ∀ v ∈ log, IsEvent "op_apply_error" v → Reproducible π v

theorem AllReproducible.concat (h : AllReproducible π log)
    (hv : IsEvent "op_apply_error" v → Reproducible π v) : AllReproducible π (log ++ [v]) := by
  intro w hw
  rcases List.mem_append.mp hw with hw | hw
  · exact h w hw
  · rw [List.mem_singleton.mp hw]
    exact hv

/-- A record of another event. -/
theorem AllReproducible.other (h : AllReproducible π log) {event : String}
    (hevent : event ≠ "op_apply_error") (fields : List (String × Json)) :
    AllReproducible π (log ++ [record event fields]) :=
  h.concat fun heq => absurd (Option.some.inj heq) hevent

/-- **A refusal can be had again.** -/
theorem reproducible_refused {op : ReasonedBookOp} {err : BookError}
    {fields : List (String × Json)} (hb : Represents π b a)
    (hop : b.applyOp π op.op = .ok (.error err, c)) (hv : bookSnapshot π .sp500 c = .ok v)
    (hbook : fields.lookup "book_after_failed_op" = some v)
    (hparsed : fields.lookup "parsed_op" = some (reasonedBookOpToValue op))
    (herror : fields.lookup "error" = some (.string err.display)) :
    Reproducible π (record "op_apply_error" fields) := by
  obtain ⟨hreply, hc⟩ := storeSame_of_refused hb hop
  obtain ⟨restored, hsnapshot, hrestored⟩ := applySnapshot_restores hc OrderBook.new
  have hexport := bookSnapshot_spec hc Scales.showable_sp500
  obtain rfl := Except.ok.inj (hv.symm.trans hexport)
  have hagain := applyOp_of_refused hrestored hreply
  refine ⟨a.orders, op.op, restored, err, ?_, ?_, hsnapshot, hagain, ?_⟩
  · show (fields.lookup "book_after_failed_op").bind _ = _
    rw [hbook, Option.bind_some]
    exact readBook_exported (readsOrders_text (by decide) (by decide)) a
  · show (fields.lookup "parsed_op").bind _ = _
    rw [hparsed, Option.bind_some, readReasonedBookOp_eq]
  · show (fields.lookup "error").bind _ = _
    rw [herror]
    rfl

/-- What every step keeps, while the book stores something. -/
theorem AllReproducible.step (h : AllReproducible π s.log) (hb : Represents π s.book a)
    (hstep : DebugStep π updatesToLog s s') : AllReproducible π s'.log := by
  cases hstep with
  | message => exact h
  | closed fields hfields => exact h.other (by decide) _
  | unreadable event fields hevent hfields hlt =>
    refine h.other ?_ _
    rintro rfl
    exact absurd hevent (by decide)
  | snapshot text orders cause hlt hs' =>
    rw [DebugState.onSnapshot] at hs'
    obtain ⟨⟨r, book⟩, -, hs'⟩ := bind_eq_ok_iff.mp hs'
    rcases r with err | _
    · obtain rfl := Except.ok.inj hs'
      exact (h.other (by decide) _).other (by decide) _
    · obtain ⟨v, -, hs'⟩ := bind_eq_ok_iff.mp hs'
      obtain rfl := Except.ok.inj hs'
      exact (h.other (by decide) _).other (by decide) _
  | update text batch hle => exact (h.other (by decide) _).other (by decide) _
  | silentUpdate batch hlt => exact h
  | applied opIndex op book hop => exact h.other (by decide) _
  | refused text parsedUpdate opIndex op err book v hlt hop hv =>
    exact ((h.other (by decide) _).other (by decide) _).concat fun _ =>
      reproducible_refused hb hop hv rfl rfl rfl
  | summary opResults v hv =>
    exact ((h.other (by decide) _).other (by decide) _).other (by decide) _

/-- **Every operation that was refused can be refused again**, from its record. -/
theorem debugLog_reproducible {left : Bool}
    (h : (DebugState.start updatesToLog).loop lib π updatesToLog reads = .ok (s, left)) :
    ∀ v ∈ s.log, IsEvent "op_apply_error" v → Reproducible π v := by
  have hnil : AllReproducible π [] := fun _ hv => by cases hv
  have hsteps := run_steps h
  clear h
  have hall : Followed π s.log s.book ∧ AllReproducible π s.log := by
    induction hsteps with
    | refl => exact ⟨followed_start updatesToLog, hnil.other (by decide) _⟩
    | tail _ hstep ih =>
      obtain ⟨hfollowed, hall⟩ := ih
      obtain ⟨a, hb⟩ := hfollowed.represents
      exact ⟨hfollowed.step hstep, hall.step hb hstep⟩
  exact hall.2

/-- The order that is opened twice in the sample run. -/
theorem debugLog_reproducible_sample : ∃ v ∈ sampleState.log, Reproducible .dev v := by
  have hevent : ∃ v ∈ sampleState.log, IsEvent "op_apply_error" v := by decide +kernel
  obtain ⟨v, hv, hevent⟩ := hevent
  exact ⟨v, hv, debugLog_reproducible sampleState_eq v hv hevent⟩

end L4Book
