import L4Book.Capture
import L4Book.Reporting

/-!
# The capture script

`scripts/capture_l4.py`: a client that subscribes to a book and writes what it receives to a file, a
header and then a record for each message, and counts the messages by kind. The loader of
`src/dwellir.rs` reads such files.

Which messages are received, and when, comes from outside. Of Python's `json` module the script uses
`loads` and `dumps`.

## What is left out

The connection and its time limits, the progress that is printed, flushing, binary frames, and the
number of bytes received.

## Main definitions

* `kindOf`: what a message is recorded as
* `Recorder`, `Recorder.onMessage`: the loop
* `captureFile`: the file of a run
-/

namespace L4Book

/-- Python's `json` module. -/
structure PythonJson where
  /-- `json.loads`; `none` stands for a `JSONDecodeError`. -/
  loads : String → Option Json
  dumps : Json → String

/-- What is recorded of a message that is no JSON. -/
def rawMessage (raw : String) : Json := .object [("_raw", .string raw)]

/-- `# Classify.`: the keys of something that is no `dict` are not looked at. -/
def kindOf (msg : Json) : String :=
  let channel := (msg.get "channel").bind Json.asStr
  let data := (msg.get "data").bind Json.asObject
  if channel = some "subscriptionResponse" then "subscriptionResponse"
  else if channel = some "l4Book" then
    match data with
    | none => "other"
    | some fields =>
      if (fields.lookup "Snapshot").isSome then "Snapshot"
      else if (fields.lookup "Updates").isSome then "Updates"
      else "other"
  else "other"

/-- `stats`. -/
structure RecorderStats where
  messages : ℕ
  subscriptionResponses : ℕ
  snapshots : ℕ
  updates : ℕ
  other : ℕ
  snapshotReceivedNs : Option ℕ
deriving DecidableEq, Repr

/-- The counter of a kind, and the time of the first snapshot. -/
def RecorderStats.count (stats : RecorderStats) (recvNs : ℕ) (kind : String) : RecorderStats :=
  let stats := { stats with messages := stats.messages + 1 }
  if kind = "subscriptionResponse" then
    { stats with subscriptionResponses := stats.subscriptionResponses + 1 }
  else if kind = "Snapshot" then
    { stats with
      snapshots := stats.snapshots + 1
      snapshotReceivedNs := stats.snapshotReceivedNs.or (some recvNs) }
  else if kind = "Updates" then { stats with updates := stats.updates + 1 }
  else { stats with other := stats.other + 1 }

/-- The variables of the loop, and the records written so far. -/
structure Recorder where
  stats : RecorderStats
  seq : ℕ
  records : List Json

namespace Recorder

/-- Before the first message. -/
def start : Recorder := ⟨⟨0, 0, 0, 0, 0, none⟩, 0, []⟩

/-- `record`. -/
def record (recvNs seq : ℕ) (kind : String) (msg : Json) : Json :=
  .object [("recv_ns", jsonCount recvNs), ("seq", jsonCount seq), ("kind", .string kind),
    ("msg", msg)]

/-- What is done with a message. -/
def onMessage (py : PythonJson) (s : Recorder) (received : ℕ × String) : Recorder :=
  let msg := (py.loads received.2).getD (rawMessage received.2)
  let kind := kindOf msg
  { stats := s.stats.count received.1 kind
    seq := s.seq + 1
    records := s.records ++ [record received.1 s.seq kind msg] }

/-- The loop, given what is received before it ends. -/
def loop (py : PythonJson) (received : List (ℕ × String)) : Recorder :=
  received.foldl (onMessage py) start

end Recorder

/-- What the header is made of. -/
structure CaptureArgs where
  endpoint : String
  coin : String
  captureStartNs : ℕ
  captureStartIso : String

/-- `sub_msg`. -/
def subMsg (coin : String) : Json :=
  .object [("method", .string "subscribe"),
    ("subscription", .object [("type", .string "l4Book"), ("coin", .string coin)])]

/-- `header`. -/
def captureHeader (args : CaptureArgs) : Json :=
  .object [("type", .string "capture_header"), ("endpoint", .string args.endpoint),
    ("coin", .string args.coin), ("subscription", subMsg args.coin),
    ("capture_start_ns", jsonCount args.captureStartNs),
    ("capture_start_iso", .string args.captureStartIso), ("target_duration_s", .number .float),
    ("schema_version", jsonCount 1)]

/-- What is written to the file. -/
def captureRecords (py : PythonJson) (args : CaptureArgs) (received : List (ℕ × String)) :
    List Json :=
  captureHeader args :: (Recorder.loop py received).records

/-- The lines of the file. -/
def captureFile (py : PythonJson) (args : CaptureArgs) (received : List (ℕ × String)) :
    List String :=
  (captureRecords py args received).map py.dumps

end L4Book
