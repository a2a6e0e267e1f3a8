import PiSubagent.Contracts
import PiSubagent.Lib.Lines
import PiSubagent.Lib.Utf8

/-!
# The run journal

* `JournalEvent`, `journalEvent?`: one line of `events.jsonl` and what `JournalEventSchema` accepts.
* `parseJournal`, `repairTornTail`, `openJournal`: reading a journal and cutting off a torn tail.
* `RunJournal.append`: one append, with every point where it can fail (`AppendFault`).
* `RunJournal.readEvents`: reading the events back.
-/

namespace PiSubagent

open JsonText Utf8 Lines

/-- The bytes of a file. -/
abbrev Bytes := List UInt8

/-- `MAX_EVENT_BYTES`. -/
def maxEventBytes : ℕ := 64 * 1024

/-- `MAX_JOURNAL_BYTES`. -/
def maxJournalBytes : ℕ := 16 * 1024 * 1024

/-! ## Events -/

/-- One event of a journal. -/
structure JournalEvent where
  sequence : ℕ
  eventId : JsString
  timestamp : JsString
  runId : JsString
  type : JsString
  data : Json

/-- The members of `JournalEventSchema`. -/
def journalEventKeys : List String :=
  ["schema", "contractRevision", "sequence", "eventId", "timestamp", "runId", "type", "data"]

/-- The JSON form of an event. -/
def JournalEvent.toJson (e : JournalEvent) : Json :=
  record [("schema", text "pi-subagent-event"), ("contractRevision", natural contractRevision),
    ("sequence", natural e.sequence), ("eventId", some (.str e.eventId)),
    ("timestamp", some (.str e.timestamp)), ("runId", some (.str e.runId)),
    ("type", some (.str e.type)), ("data", e.data)]

/-- The text an event is written as, without the newline. -/
def JournalEvent.line (e : JournalEvent) : List Char := e.toJson.stringify

theorem JournalEvent.toJson_proper {e : JournalEvent} (h : e.data.Proper) : e.toJson.Proper :=
  record_proper (by simp) (by
    simp [natural, text, Json.Proper, h])

theorem JournalEvent.parse_line {e : JournalEvent} (h : e.data.Proper) :
    parse e.line = some e.toJson := parse_stringify (toJson_proper h)

theorem JournalEvent.parse_line_newline {e : JournalEvent} (h : e.data.Proper) :
    parse (e.line ++ ['\n']) = some e.toJson := parse_stringify_newline (toJson_proper h)

theorem JournalEvent.newline_notMem_line (e : JournalEvent) : '\n' ∉ e.line :=
  (stringify_printable e.toJson).newline_notMem

theorem JournalEvent.line_eq_cons (e : JournalEvent) : ∃ t, e.line = '{' :: t := ⟨_, rfl⟩

/-- A line that breaks off and goes on with a whole event is no JSON. -/
theorem JournalEvent.parse_glued_line (q : List Char) {e : JournalEvent} (h : e.data.Proper) :
    parse ('{' :: (q ++ e.line)) = none :=
  parse_glued q (toJson_proper h) (c := 's') (t := ['c', 'h', 'e', 'm', 'a']) (by decide) (by decide)

/-- The contract revision of an event's JSON form is the current one. -/
theorem JournalEvent.assertContractRevision_toJson (e : JournalEvent) :
    assertContractRevision e.toJson = .ok () := rfl

variable [SchemaText]

/-- Whether the strings and numbers of an event are as `JournalEventSchema` wants them. -/
def JournalEvent.check (e : JournalEvent) : Bool :=
  decide (1 ≤ e.sequence) && fits 1 128 e.eventId && SchemaText.dateTime e.timestamp &&
    isRunId e.runId && fits 1 128 e.type

/-- The event a value is, if `Value.Check(JournalEventSchema, value)` accepts it. -/
def journalEvent? (v : Json) : Option JournalEvent := do
  let schema ← stringMember v "schema"
  let revision ← naturalMember v "contractRevision"
  let sequence ← naturalMember v "sequence"
  let eventId ← stringMember v "eventId"
  let timestamp ← stringMember v "timestamp"
  let runId ← stringMember v "runId"
  let type ← stringMember v "type"
  let data ← member v "data"
  let e : JournalEvent := ⟨sequence, eventId, timestamp, runId, type, data⟩
  if schema = ofString "pi-subagent-event" ∧ revision = contractRevision ∧
      keysWithin v journalEventKeys ∧ e.check then
    some e
  else none

/-! ## Reading -/

/-- Why a journal is refused; `line` counts from 1. -/
inductive JournalError where
  | empty (line : ℕ)
  | invalid (line : ℕ)
  | revision (line : ℕ) (found : Decimal)
  | schema (line : ℕ)
  | mismatch (line : ℕ)
  | tooLarge

/-- The message of a refusal. -/
def JournalError.message : JournalError → String
  | .empty line => "empty interior journal record at line " ++ toString line
  | .invalid line => "invalid interior journal record at line " ++ toString line
  | .revision line found =>
    "journal record at line " ++ toString line ++ " uses contract revision " ++
      String.ofList found.toText ++ "; expected " ++ toString contractRevision ++
      ". Discard incompatible persisted state before continuing."
  | .schema line => "invalid journal schema at line " ++ toString line
  | .mismatch line => "journal identity or sequence mismatch at line " ++ toString line
  | .tooLarge => "journal exceeds size limit"

/-- The event of one line, the one with the given index after `count` events. -/
def parseLine (runId : JsString) (index count : ℕ) (line : List Char) :
    Except JournalError JournalEvent :=
  if line = [] then .error (.empty (index + 1))
  else
    match parse line with
    | none => .error (.invalid (index + 1))
    | some value =>
      match assertContractRevision value with
      | .error found => .error (.revision (index + 1) found)
      | .ok () =>
        match journalEvent? value with
        | none => .error (.schema (index + 1))
        | some event =>
          if event.runId ≠ runId ∨ event.sequence ≠ count + 1 then .error (.mismatch (index + 1))
          else .ok event

/-- The events of the lines from the given index on, after `events`. -/
def parseLines (runId : JsString) :
    ℕ → List JournalEvent → List (List Char) → Except JournalError (List JournalEvent)
  | _, events, [] => .ok events
  | index, events, line :: lines =>
    match parseLine runId index events.length line with
    | .error e => .error e
    | .ok event => parseLines runId (index + 1) (events ++ [event]) lines

/-- The events of a journal's text: an open last line is ignored. -/
def parseJournal (content : List Char) (runId : JsString) :
    Except JournalError (List JournalEvent) :=
  parseLines runId 0 [] (complete '\n' content)

/-- A file cut to `n` bytes, or filled up with zeros. -/
def truncate (n : ℕ) (file : Bytes) : Bytes := file.take n ++ List.replicate (n - file.length) 0

/-- The size `repairTornTail` cuts the file to, if its text does not end with a newline. -/
def tornTailCut (content : List Char) : Option ℕ :=
  if content = [] ∨ content.getLast? = some '\n' then none
  else some (encode (upToLast '\n' content)).length

/-- The file after `repairTornTail`. -/
def repairTornTail (file : Bytes) (content : List Char) : Bytes :=
  match tornTailCut content with
  | none => file
  | some n => truncate n file

/-- An opened journal: its run and the sequence of its last event. -/
structure RunJournal where
  runId : JsString
  sequence : ℕ
deriving DecidableEq, Repr

/-- Why a journal cannot be opened. -/
inductive OpenError where
  | invalidRunId
  | leaseIdentity
  | fenced
  | journal (e : JournalError)

/-- `RunJournal.open` on a file, which may be missing. The lease is of the run `leaseRunId`, and
`current` is what its `assertCurrent` says. -/
def openJournal (runId leaseRunId : JsString) (current : Bool) (file : Option Bytes) :
    Except OpenError RunJournal × Option Bytes :=
  if !isRunId runId then (.error .invalidRunId, file)
  else if leaseRunId ≠ runId then (.error .leaseIdentity, file)
  else if !current then (.error .fenced, file)
  else
    match file with
    | none => (.ok ⟨runId, 0⟩, none)
    | some bytes =>
      if maxJournalBytes < bytes.length then (.error (.journal .tooLarge), file)
      else
        match parseJournal (decode bytes) runId with
        | .error e => (.error (.journal e), file)
        | .ok events => (.ok ⟨runId, events.length⟩, some (repairTornTail bytes (decode bytes)))

/-- `RunJournal.readEvents`. -/
def RunJournal.readEvents (j : RunJournal) (file : Option Bytes) :
    Except JournalError (List JournalEvent) :=
  match file with
  | none => .ok []
  | some bytes =>
    if maxJournalBytes < bytes.length then .error .tooLarge
    else parseJournal (decode bytes) j.runId

/-! ## Appending -/

/-- One call of `append`: its arguments, and the identifier and time the call draws. Data that is
no JSON is `none`. -/
structure AppendCall where
  type : JsString
  data : Option JsData
  eventId : JsString
  timestamp : JsString

/-- Where an append fails: at the lease check, at `stat`, at `open`, after `k` bytes of the line
have been written, at `sync`, at `close`, or nowhere. -/
inductive AppendFault where
  | none
  | lease
  | stat
  | openFile
  | write (k : ℕ)
  | sync
  | close
deriving DecidableEq, Repr

/-- Why an append is refused or fails. -/
inductive AppendError where
  | fenced
  | invalidEvent
  | notSerializable
  | eventTooLarge
  | journalTooLarge
  | io
deriving DecidableEq, Repr

/-- The event a call appends. -/
def RunJournal.event (j : RunJournal) (c : AppendCall) (data : Json) : JournalEvent :=
  ⟨j.sequence + 1, c.eventId, c.timestamp, j.runId, c.type, data⟩

/-- The checks of an append before it touches the file: the event and the bytes of its line. -/
def RunJournal.serialize (j : RunJournal) (c : AppendCall) :
    Except AppendError (JournalEvent × Bytes) :=
  if !(j.event c .null).check then .error .invalidEvent
  else
    match c.data with
    | none => .error .notSerializable
    | some data =>
      let event := j.event c data.json
      let line := event.line ++ ['\n']
      match (parse line).bind journalEvent? with
      | none => .error .notSerializable
      | some _ =>
        if maxEventBytes < (encode line).length then .error .eventTooLarge
        else .ok (event, encode line)

/-- `RunJournal.append` on a file: what the caller gets, the journal and the file after it. -/
def RunJournal.append (j : RunJournal) (c : AppendCall) (fault : AppendFault)
    (file : Option Bytes) : Except AppendError JournalEvent × RunJournal × Option Bytes :=
  if fault = .lease then (.error .fenced, j, file)
  else
    match j.serialize c with
    | .error e => (.error e, j, file)
    | .ok (event, line) =>
      if fault = .stat then (.error .io, j, file)
      else if maxJournalBytes < (file.getD []).length + line.length ∧ file ≠ none then
        (.error .journalTooLarge, j, file)
      else
        match fault with
        | .openFile => (.error .io, j, file)
        | .write k => (.error .io, j, some (file.getD [] ++ line.take k))
        | .sync | .close => (.error .io, j, some (file.getD [] ++ line))
        | _ => (.ok event, { j with sequence := event.sequence }, some (file.getD [] ++ line))

/-! ## What a line holds -/

/-- **An event is read back from its JSON form** exactly when the schema accepts it. -/
theorem journalEvent?_toJson (e : JournalEvent) :
    journalEvent? e.toJson = if e.check then some e else none := by
  simp [journalEvent?, stringMember, naturalMember, journalEventKeys, JournalEvent.toJson, text,
    natural]

/-- The line is the record number `count + 1` of the run. -/
def IsRecord (runId : JsString) (count : ℕ) (line : List Char) (e : JournalEvent) : Prop :=
  line ≠ [] ∧ ∃ v, parse line = some v ∧ assertContractRevision v = .ok () ∧
    journalEvent? v = some e ∧ e.runId = runId ∧ e.sequence = count + 1

theorem parseLine_eq_ok {runId : JsString} {index count : ℕ} {line : List Char}
    {e : JournalEvent} : parseLine runId index count line = .ok e ↔ IsRecord runId count line e := by
  unfold parseLine IsRecord
  constructor
  · intro h
    split_ifs at h with h0
    split at h
    · cases h
    · split at h
      · cases h
      · split at h
        · cases h
        · split_ifs at h with hm
          obtain rfl := Except.ok.inj h
          push Not at hm
          exact ⟨h0, _, ‹_›, ‹_›, ‹_›, hm.1, hm.2⟩
  · rintro ⟨h0, v, hv, hr, he, hid, hs⟩
    rw [if_neg h0, hv]
    simp only [hr, he, hid, hs, ne_eq, not_true_eq_false, or_self, if_false]

theorem JournalEvent.isRecord {e : JournalEvent} (hd : e.data.Proper) (hc : e.check = true)
    {count : ℕ} (hs : e.sequence = count + 1) : IsRecord e.runId count e.line e := by
  obtain ⟨t, ht⟩ := e.line_eq_cons
  refine ⟨by rw [ht]; exact List.cons_ne_nil _ _, e.toJson, parse_line hd,
    e.assertContractRevision_toJson, ?_, rfl, hs⟩
  rw [journalEvent?_toJson, if_pos hc]

end PiSubagent
