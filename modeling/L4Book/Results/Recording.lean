import L4Book.CaptureScript
import L4Book.Refinement.Reading
import L4Book.Results.Captures
import L4Book.Results.Loading

/-!
# Recording and loading

What the capture script records, the loader reads back. The header is passed over, and a record is
decoded to what its message is decoded to, so the file loads to what was received; a message that
does not decode ends the loading with its error. The counters of the script are those of the loader:
a message is recorded as a snapshot or as an update exactly if it is decoded to one.

A received text that is no JSON is recorded in a form that the decoder skips.

## Main results

* `decodeValue_record`: a record is transparent
* `kindOf_decoded`: kinds and decoded messages
* `capture_recordsFaithfully`
-/

namespace L4Book

variable {parseJson : String → Except String Json} {scales : Scales} {py : PythonJson}
  {msg : Json} {d : DecodedWithMeta}

/-- What a received text is decoded to, one that is no JSON to nothing. -/
def decodeReceived (py : PythonJson) (scales : Scales) (raw : String) :
    Except AdapterError DecodedWithMeta :=
  (py.loads raw).elim (.ok .skip) (decodeValueWithMeta scales)

/-- The value is a message of the venue: it is no header and wraps no other message. -/
structure VenueMessage (msg : Json) : Prop where
  noHeader : (msg.get "type").bind Json.asStr ≠ some "capture_header"
  noRecord : msg.get "msg" = none

/-- The message is a snapshot. -/
def DecodedWithMeta.isSnapshot : DecodedWithMeta → Bool
  | .snapshot _ _ => true
  | _ => false

/-! ### Records -/

/-- The dispatch on the channel of a message. -/
theorem decodeValue_venue (h : VenueMessage msg) : decodeValueWithMeta scales msg =
    if (msg.get "channel").bind Json.asStr = some "subscriptionResponse" then .ok .skip
    else if (msg.get "channel").bind Json.asStr = some "l4Book" then decodeL4WithMeta scales msg
    else .ok .skip := by
  rw [decodeValueWithMeta, if_neg h.noHeader, h.noRecord]
  rfl

theorem decodeValue_captureHeader (args : CaptureArgs) :
    decodeValueWithMeta scales (captureHeader args) = .ok .skip := rfl

/-- **A record is transparent**: it is decoded to what its message is decoded to. -/
theorem decodeValue_record (h : VenueMessage msg) (recvNs seq : ℕ) (kind : String) :
    decodeValueWithMeta scales (Recorder.record recvNs seq kind msg) =
      decodeValueWithMeta scales msg := by
  rw [decodeValue_venue h]
  rfl

/-- A text that is no JSON is recorded as something to skip. -/
theorem decodeValue_rawMessage (recvNs seq : ℕ) (kind raw : String) :
    decodeValueWithMeta scales (Recorder.record recvNs seq kind (rawMessage raw)) = .ok .skip :=
  rfl

/-! ### Kinds -/

/-- How a decoded message was recorded. -/
def RecordedAs : DecodedWithMeta → String → Prop
  | .snapshot _ _, kind => kind = "Snapshot"
  | .updates _, kind => kind = "Updates"
  | .skip, kind => kind = "subscriptionResponse" ∨ kind = "other"

/-- **The script and the decoder agree** on what a message is. -/
theorem kindOf_decoded (h : VenueMessage msg) (hd : decodeValueWithMeta scales msg = .ok d) :
    RecordedAs d (kindOf msg) := by
  rw [decodeValue_venue h] at hd
  rw [kindOf]
  by_cases hresponse : (msg.get "channel").bind Json.asStr = some "subscriptionResponse"
  · rw [if_pos hresponse] at hd
    obtain rfl := Except.ok.inj hd
    exact Or.inl (if_pos hresponse)
  by_cases hchannel : (msg.get "channel").bind Json.asStr = some "l4Book"
  · rw [if_neg hresponse, if_pos hchannel] at hd
    simp only [if_neg hresponse, if_pos hchannel]
    obtain ⟨data, hdata, hd⟩ := bind_eq_ok_iff.mp hd
    rw [require_eq_ok_iff] at hdata
    have hget : ∀ key, data.get key = data.asObject.bind fun fields => fields.lookup key :=
      fun _ => rfl
    rw [hdata, Option.bind_some]
    cases hfields : data.asObject with
    | none =>
      rw [hget, hget, hfields] at hd
      obtain rfl := Except.ok.inj hd
      exact Or.inr rfl
    | some fields =>
      rw [hget, hget, hfields] at hd
      simp only [Option.bind_some] at hd
      show RecordedAs d (if (fields.lookup "Snapshot").isSome then "Snapshot"
        else if (fields.lookup "Updates").isSome then "Updates" else "other")
      cases hsnap : fields.lookup "Snapshot" with
      | some snap =>
        rw [hsnap] at hd
        obtain ⟨orders, -, hd⟩ := bind_eq_ok_iff.mp hd
        obtain rfl := Except.ok.inj hd
        exact if_pos rfl
      | none =>
        rw [hsnap] at hd
        cases hupdates : fields.lookup "Updates" with
        | some updates =>
          rw [hupdates] at hd
          obtain ⟨batch, -, hd⟩ := bind_eq_ok_iff.mp hd
          obtain rfl := Except.ok.inj hd
          exact rfl
        | none =>
          rw [hupdates] at hd
          obtain rfl := Except.ok.inj hd
          exact Or.inr rfl
  · rw [if_neg hresponse, if_neg hchannel] at hd
    obtain rfl := Except.ok.inj hd
    simp only [if_neg hresponse, if_neg hchannel]
    exact Or.inr rfl

/-! ### The loop -/

/-- The counters after these messages. -/
structure RecorderStats.Tells (stats : RecorderStats) (ds : List DecodedWithMeta) : Prop where
  messages : stats.messages = ds.length
  snapshots : stats.snapshots = ds.countP DecodedWithMeta.isSnapshot
  updates : stats.updates = (ds.filterMap DecodedWithMeta.batch).length
  rest : stats.subscriptionResponses + stats.other + stats.snapshots + stats.updates = ds.length

/-- A message more. -/
theorem RecorderStats.Tells.count {stats : RecorderStats} {ds : List DecodedWithMeta}
    (h : stats.Tells ds) (recvNs : ℕ) {kind : String} (hkind : RecordedAs d kind) :
    (stats.count recvNs kind).Tells (ds ++ [d]) := by
  obtain ⟨hmessages, hsnapshots, hupdates, hrest⟩ := h
  have hlength : (ds ++ [d]).length = ds.length + 1 := List.length_append
  cases d with
  | snapshot orders cause =>
    obtain rfl : kind = "Snapshot" := hkind
    constructor
    · rw [hlength, ← hmessages]
      rfl
    · rw [List.countP_append, ← hsnapshots]
      rfl
    · rw [List.filterMap_append, List.length_append, ← hupdates]
      rfl
    · rw [hlength, ← hrest]
      show stats.subscriptionResponses + stats.other + (stats.snapshots + 1) + stats.updates = _
      omega
  | updates batch =>
    obtain rfl : kind = "Updates" := hkind
    constructor
    · rw [hlength, ← hmessages]
      rfl
    · rw [List.countP_append, ← hsnapshots]
      rfl
    · rw [List.filterMap_append, List.length_append, ← hupdates]
      rfl
    · rw [hlength, ← hrest]
      rfl
  | skip =>
    have hsame : (stats.count recvNs kind).messages = stats.messages + 1 ∧
        (stats.count recvNs kind).snapshots = stats.snapshots ∧
        (stats.count recvNs kind).updates = stats.updates := by
      rcases hkind with rfl | rfl <;> exact ⟨rfl, rfl, rfl⟩
    have hother : (stats.count recvNs kind).subscriptionResponses +
        (stats.count recvNs kind).other = stats.subscriptionResponses + stats.other + 1 := by
      rcases hkind with rfl | rfl
      · exact Nat.add_right_comm _ _ _
      · rfl
    constructor
    · rw [hlength, ← hmessages, hsame.1]
    · rw [List.countP_append, ← hsnapshots, hsame.2.1]
      rfl
    · rw [List.filterMap_append, List.length_append, ← hupdates, hsame.2.2]
      rfl
    · rw [hlength, hother, hsame.2.1, hsame.2.2]
      omega

/-- Every received text that is JSON is a message of the venue. -/
def FromVenue (py : PythonJson) (received : List (ℕ × String)) : Prop :=
  ∀ r ∈ received, ∀ msg, py.loads r.2 = some msg → VenueMessage msg

/-- What a message adds to the records is decoded to what it is decoded to. -/
theorem onMessage_record (scales : Scales) {r : ℕ × String}
    (h : ∀ msg, py.loads r.2 = some msg → VenueMessage msg)
    (s : Recorder) : ∃ v, (s.onMessage py r).records = s.records ++ [v] ∧
      decodeValueWithMeta scales v = decodeReceived py scales r.2 := by
  refine ⟨_, rfl, ?_⟩
  rw [decodeReceived]
  cases hloads : py.loads r.2 with
  | none => exact decodeValue_rawMessage _ _ _ _
  | some msg => exact decodeValue_record (h msg hloads) _ _ _

/-- What a message is counted as. -/
theorem onMessage_stats {r : ℕ × String} (h : ∀ msg, py.loads r.2 = some msg → VenueMessage msg)
    {s : Recorder} {ds : List DecodedWithMeta} (hs : s.stats.Tells ds)
    (hd : decodeReceived py scales r.2 = .ok d) : (s.onMessage py r).stats.Tells (ds ++ [d]) := by
  refine hs.count r.1 ?_
  rw [decodeReceived] at hd
  cases hloads : py.loads r.2 with
  | none =>
    rw [hloads] at hd
    obtain rfl := Except.ok.inj hd
    exact Or.inr rfl
  | some msg =>
    rw [hloads] at hd
    exact kindOf_decoded (h msg hloads) hd

/-- The records of a run are decoded to what the messages are. -/
theorem mapM_records (scales : Scales) {received : List (ℕ × String)}
    (h : FromVenue py received) (s : Recorder) :
    ∃ vs, (received.foldl (Recorder.onMessage py) s).records = s.records ++ vs ∧
      vs.mapM (decodeValueWithMeta scales) =
        received.mapM fun r => decodeReceived py scales r.2 := by
  induction received generalizing s with
  | nil => exact ⟨[], (List.append_nil _).symm, rfl⟩
  | cons r received ih =>
    obtain ⟨hhead, htail⟩ := List.forall_mem_cons.mp h
    obtain ⟨v, hv, hdecode⟩ := onMessage_record scales hhead s
    obtain ⟨vs, hvs, hrest⟩ := ih htail (s.onMessage py r)
    refine ⟨v :: vs, ?_, ?_⟩
    · rw [List.foldl_cons, hvs, hv, List.append_assoc]
      rfl
    · rw [List.mapM_cons, List.mapM_cons, hdecode, hrest]

/-- The counters of a run. -/
theorem stats_loop {received : List (ℕ × String)} (h : FromVenue py received) {s : Recorder}
    {ds ds' : List DecodedWithMeta} (hs : s.stats.Tells ds)
    (hds : received.mapM (fun r => decodeReceived py scales r.2) = .ok ds') :
    (received.foldl (Recorder.onMessage py) s).stats.Tells (ds ++ ds') := by
  induction received generalizing s ds ds' with
  | nil =>
    rw [List.mapM_nil] at hds
    obtain rfl := Except.ok.inj hds
    rwa [List.append_nil]
  | cons r received ih =>
    obtain ⟨hhead, htail⟩ := List.forall_mem_cons.mp h
    rw [List.mapM_cons] at hds
    obtain ⟨d, hd, hds⟩ := bind_eq_ok_iff.mp hds
    obtain ⟨ds₁, hds₁, heq⟩ := bind_eq_ok_iff.mp hds
    obtain rfl := Except.ok.inj heq
    have hrest := ih htail (onMessage_stats hhead hs hd) hds₁
    rwa [List.append_assoc] at hrest

theorem tells_start : Recorder.start.stats.Tells [] := ⟨rfl, rfl, rfl, rfl⟩

/-- The lines of the file are decoded to what is decoded from its values. -/
theorem mapM_captureFile (hempty : ∃ e, parseJson "" = .error e) {vs : List Json}
    (hdumps : ∀ v ∈ vs, parseJson (py.dumps v) = .ok v) :
    ((vs.map py.dumps).filter (· ≠ "")).mapM (decodeLineWithMeta parseJson scales) =
      vs.mapM (decodeValueWithMeta scales) := by
  induction vs with
  | nil => rfl
  | cons v vs ih =>
    obtain ⟨hv, htail⟩ := List.forall_mem_cons.mp hdumps
    -- the empty text is no JSON
    have hne : py.dumps v ≠ "" := by
      intro heq
      obtain ⟨e, he⟩ := hempty
      rw [heq, he] at hv
      cases hv
    have hline : decodeLineWithMeta parseJson scales (py.dumps v) =
        decodeValueWithMeta scales v := by
      rw [decodeLineWithMeta, hv]
      rfl
    rw [List.map_cons, List.filter_cons_of_pos (by simpa using hne), List.mapM_cons,
      List.mapM_cons, hline, ih htail]

theorem mapM_congr {ε γ α : Type} {f g : γ → Except ε α} {cs : List γ}
    (h : ∀ c ∈ cs, f c = g c) : cs.mapM f = cs.mapM g := by
  induction cs with
  | nil => rfl
  | cons c cs ih =>
    obtain ⟨hhead, htail⟩ := List.forall_mem_cons.mp h
    rw [List.mapM_cons, List.mapM_cons, hhead, ih htail]

/-- A text that both libraries read alike is decoded to what the decoder makes of it. -/
theorem decodeReceived_eq {raw : String} (hraw : py.loads raw = some msg)
    (hparse : parseJson raw = .ok msg) :
    decodeReceived py scales raw = decodeLineWithMeta parseJson scales raw := by
  rw [decodeReceived, hraw, decodeLineWithMeta, hparse]
  rfl

/-- The lines of a recording are decoded to what the received messages are, behind the header. -/
theorem mapM_recording (hempty : ∃ e, parseJson "" = .error e) (scales : Scales)
    (args : CaptureArgs) {received : List (ℕ × String)} (hvenue : FromVenue py received)
    (hdumps : ∀ v ∈ captureRecords py args received, parseJson (py.dumps v) = .ok v) :
    ((captureFile py args received).filter (· ≠ "")).mapM (decodeLineWithMeta parseJson scales) =
      (received.mapM fun r => decodeReceived py scales r.2).map (.skip :: ·) := by
  obtain ⟨vs, hvs, hdecode⟩ := mapM_records scales hvenue .start
  have hrecords : captureRecords py args received = captureHeader args :: vs :=
    congrArg (captureHeader args :: ·) hvs
  rw [captureFile, mapM_captureFile hempty hdumps, hrecords, List.mapM_cons,
    decodeValue_captureHeader, ok_bind, hdecode]
  rfl

/-- Texts that both libraries read alike. -/
theorem mapM_decodeReceived {received : List (ℕ × String)}
    (h : ∀ r ∈ received, ∃ msg, py.loads r.2 = some msg ∧ parseJson r.2 = .ok msg) :
    (received.mapM fun r => decodeReceived py scales r.2) =
      (received.map Prod.snd).mapM (decodeLineWithMeta parseJson scales) := by
  rw [List.mapM_map]
  refine mapM_congr fun r hr => ?_
  obtain ⟨msg, hraw, hparse⟩ := h r hr
  exact decodeReceived_eq hraw hparse

/-- **The script records faithfully.** What it writes is loaded to what the received messages are
decoded to, behind the header, or fails with the first error that one of them gives; these are the
messages that the decoder makes of the received texts, if the two libraries read them alike. If the
file is loaded, the counters of the script are those of the loader. -/
theorem capture_recordsFaithfully (hempty : ∃ e, parseJson "" = .error e) (scales : Scales)
    (args : CaptureArgs) {received : List (ℕ × String)} (hvenue : FromVenue py received)
    (hdumps : ∀ v ∈ captureRecords py args received, parseJson (py.dumps v) = .ok v) :
    loadCaptureWithMeta parseJson scales (captureFile py args received) =
      (received.mapM fun r => decodeReceived py scales r.2).map
        (fun ds => CaptureOf.collect id (.skip :: ds)) ∧
    ((∀ r ∈ received, ∃ msg, py.loads r.2 = some msg ∧ parseJson r.2 = .ok msg) →
      (received.mapM fun r => decodeReceived py scales r.2) =
        (received.map Prod.snd).mapM (decodeLineWithMeta parseJson scales)) ∧
    ∀ capture, loadCaptureWithMeta parseJson scales (captureFile py args received) = .ok capture →
      capture.stats.lines = (Recorder.loop py received).stats.messages + 1 ∧
      capture.stats.updatesMessages = (Recorder.loop py received).stats.updates ∧
      (Recorder.loop py received).stats.subscriptionResponses +
        (Recorder.loop py received).stats.other + (Recorder.loop py received).stats.snapshots +
        (Recorder.loop py received).stats.updates = (Recorder.loop py received).stats.messages ∧
      ((Recorder.loop py received).stats.snapshots = 0 → capture.snapshot = []) := by
  have hload : loadCaptureWithMeta parseJson scales (captureFile py args received) =
      (received.mapM fun r => decodeReceived py scales r.2).map
        (fun ds => CaptureOf.collect id (.skip :: ds)) := by
    rw [loadCaptureWithMeta_eq, mapM_recording hempty scales args hvenue hdumps]
    cases received.mapM fun r => decodeReceived py scales r.2 <;> rfl
  refine ⟨hload, mapM_decodeReceived, fun capture hcapture => ?_⟩
  rw [hload] at hcapture
  cases hds : received.mapM fun r => decodeReceived py scales r.2 with
  | error e =>
    rw [hds] at hcapture
    cases hcapture
  | ok ds =>
    rw [hds] at hcapture
    obtain rfl := Except.ok.inj hcapture
    have htells := stats_loop hvenue tells_start hds
    refine ⟨congrArg (· + 1) htells.messages.symm, htells.updates.symm,
      htells.rest.trans htells.messages.symm, fun hnone => ?_⟩
    have hzero : ds.countP DecodedWithMeta.isSnapshot = 0 := htells.snapshots.symm.trans hnone
    rw [List.countP_eq_zero] at hzero
    refine List.flatMap_eq_nil_iff.mpr fun d hd => ?_
    rcases List.mem_cons.mp hd with rfl | hd
    · rfl
    · have hd := hzero d hd
      cases d with
      | snapshot orders cause => exact absurd rfl hd
      | skip => rfl
      | updates batch => rfl

/-! ### A sample recording -/

/-- Two messages, with the times at which they are received. -/
def sampleReceived : List (ℕ × String) := [(5, "snapshot"), (6, "updates")]

/-- A subscription. -/
def sampleArgs : CaptureArgs := ⟨"wss://localhost/ws", "BTC", 1, "1970-01-01T00:00:00Z"⟩

/-- A library that knows the two messages, and names the header and the records. -/
def samplePython : PythonJson where
  loads raw := if raw = "snapshot" then some (snapshotValue 1) else some updatesValue
  dumps v :=
    match (v.get "seq").bind Json.asU64 with
    | none => "header"
    | some seq => if seq = 0 then "first" else "second"

/-- A parser of these names. -/
def parseRecorded (text : String) : Except String Json :=
  if text = "header" then .ok (captureHeader sampleArgs)
  else if text = "first" then .ok (Recorder.record 5 0 "Snapshot" (snapshotValue 1))
  else if text = "second" then .ok (Recorder.record 6 1 "Updates" updatesValue)
  else .error "expected value at line 1 column 1"

theorem fromVenue_sample : FromVenue samplePython sampleReceived := by
  have hsnapshot : VenueMessage (snapshotValue 1) := ⟨by decide, rfl⟩
  have hupdates : VenueMessage updatesValue := ⟨by decide, rfl⟩
  intro r _ msg hmsg
  rw [samplePython] at hmsg
  dsimp only at hmsg
  split at hmsg
  · obtain rfl := Option.some.inj hmsg
    exact hsnapshot
  · obtain rfl := Option.some.inj hmsg
    exact hupdates

theorem capture_recordsFaithfully_sample : ∃ capture,
    loadCaptureWithMeta parseRecorded .btcDefault
      (captureFile samplePython sampleArgs sampleReceived) = .ok capture ∧
    capture.stats.lines = 3 ∧ capture.stats.updatesMessages = 1 := by
  have hempty : ∃ e, parseRecorded "" = .error e := ⟨_, by rfl⟩
  have hrecords : captureRecords samplePython sampleArgs sampleReceived =
    [captureHeader sampleArgs, Recorder.record 5 0 "Snapshot" (snapshotValue 1),
      Recorder.record 6 1 "Updates" updatesValue] := by rfl
  have hdumps : ∀ v ∈ captureRecords samplePython sampleArgs sampleReceived,
      parseRecorded (samplePython.dumps v) = .ok v := by
    rw [hrecords, List.forall_mem_cons, List.forall_mem_cons, List.forall_mem_singleton]
    exact ⟨rfl, rfl, rfl⟩
  obtain ⟨hload, -, hstats⟩ := capture_recordsFaithfully hempty .btcDefault sampleArgs
    fromVenue_sample hdumps
  obtain ⟨ds, hds⟩ : ∃ ds, (sampleReceived.mapM fun r =>
      decodeReceived samplePython .btcDefault r.2) = .ok ds := ⟨_, by rfl⟩
  rw [hds] at hload
  obtain ⟨hlines, hupdates, -⟩ := hstats _ hload
  exact ⟨_, hload, hlines, hupdates⟩

end L4Book
