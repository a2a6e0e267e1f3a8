import PiSubagent.Lib.JsonSize
import PiSubagent.Persistence.Journal

/-!
# The snapshot of a run

* `RunSnapshot`, `runSnapshot?`: the snapshot and what `RunSnapshotSchema` accepts.
* `RunJournal.writeSnapshot`: one write, with every point where it can fail.
* **`textSize_record`**, **`prettySize_record`**: the size of an object from its fields.
* **`RunJournal.append_ok_iff`**, **`RunJournal.writeSnapshot_ok_iff`**: where nothing else fails, an
  event is appended and a snapshot written exactly when its text is within the limit.
-/

namespace PiSubagent

open JsonText Utf8

variable [SchemaText]

/-- `MAX_SNAPSHOT_BYTES`. -/
def maxSnapshotBytes : ℕ := 1024 * 1024

/-- A snapshot. -/
structure RunSnapshot where
  runId : JsString
  lastSequence : ℕ
  state : Json

/-- The members of `RunSnapshotSchema`. -/
def runSnapshotKeys : List String := ["schema", "contractRevision", "runId", "lastSequence", "state"]

/-- The JSON form of a snapshot. -/
def RunSnapshot.toJson (s : RunSnapshot) : Json :=
  record [("schema", text "pi-subagent-snapshot"), ("contractRevision", natural contractRevision),
    ("runId", some (.str s.runId)), ("lastSequence", natural s.lastSequence),
    ("state", some s.state)]

/-- The snapshot a value is, if `Value.Check(RunSnapshotSchema, value)` accepts it. -/
def runSnapshot? (v : Json) : Option RunSnapshot := do
  let schema ← stringMember v "schema"
  let revision ← naturalMember v "contractRevision"
  let runId ← stringMember v "runId"
  let lastSequence ← naturalMember v "lastSequence"
  let state ← member v "state"
  if schema = ofString "pi-subagent-snapshot" ∧ revision = contractRevision ∧
      keysWithin v runSnapshotKeys ∧ isRunId runId then
    some ⟨runId, lastSequence, state⟩
  else none

/-- Where a write fails: at the lease check, at a call on the file system, or nowhere. -/
inductive SnapshotFault where
  | none
  | lease
  | io
deriving DecidableEq, Repr

/-- Why a snapshot is refused or not written. -/
inductive SnapshotError where
  | fenced
  | invalid
  | notSerializable
  | tooLarge
  | io
deriving DecidableEq, Repr

/-- The bytes `writeAtomic` writes. -/
def RunSnapshot.content (s : RunSnapshot) : Bytes := encode (s.toJson.pretty 0 ++ ['\n'])

/-- `RunJournal.writeSnapshot`: the snapshot that is in place after it. A state that is no JSON is
`none`. -/
def RunJournal.writeSnapshot (j : RunJournal) (state : Option JsData) (fault : SnapshotFault) :
    Except SnapshotError RunSnapshot :=
  if fault = .lease then .error .fenced
  else if !isRunId j.runId then .error .invalid
  else
    match state with
    | none => .error .notSerializable
    | some state =>
      let snapshot : RunSnapshot := ⟨j.runId, j.sequence, state.json⟩
      match (parse snapshot.toJson.stringify).bind runSnapshot? with
      | none => .error .notSerializable
      | some _ =>
        if maxSnapshotBytes < snapshot.content.length then .error .tooLarge
        else if fault = .io then .error .io
        else .ok snapshot

/-! ## Reading a snapshot back -/

omit [SchemaText] in
theorem RunSnapshot.toJson_proper {s : RunSnapshot} (h : s.state.Proper) : s.toJson.Proper :=
  record_proper (by simp) (by simp [natural, text, Json.Proper, h])

omit [SchemaText] in
/-- **A snapshot is read back from its JSON form** exactly when the schema accepts it. -/
theorem runSnapshot?_toJson (s : RunSnapshot) :
    runSnapshot? s.toJson = if isRunId s.runId then some s else none := by
  simp [runSnapshot?, stringMember, naturalMember, runSnapshotKeys, RunSnapshot.toJson, text, natural]

/-! ## The size of an object -/

/-- The bytes of a field, with what separates it from the next. -/
def fieldSize (f : String × Option Json) : ℕ :=
  match f.2 with
  | none => 0
  | some v => textSize (.str (ofString f.1)) + textSize v + 2

/-- The bytes of a field on its line. -/
def fieldPrettySize (depth : ℕ) (f : String × Option Json) : ℕ :=
  match f.2 with
  | none => 0
  | some v => textSize (.str (ofString f.1)) + prettySize (depth + 1) v + (2 * depth + 6)

omit [SchemaText] in
/-- **The bytes of an object are those of its fields and one more.** -/
theorem textSize_record (name : String) (v : Json) (fields : List (String × Option Json)) :
    textSize (record ((name, some v) :: fields)) =
      fieldSize (name, some v) + (fields.map fieldSize).sum + 1 := by
  have hfields : membersSize (fields.filterMap fun f => f.2.map fun v => (ofString f.1, v)) =
      (fields.map fieldSize).sum := by
    induction fields with
    | nil => rfl
    | cons f fields ih =>
      obtain ⟨name, v⟩ := f
      cases v with
      | none => exact ih.trans (Nat.zero_add _).symm
      | some v =>
        change membersSize ((ofString name, v) :: _) = _
        rw [membersSize_cons, ih, List.map_cons, List.sum_cons]
        rfl
  change textSize (.obj ((ofString name, v) :: _)) = _
  rw [textSize_obj (List.cons_ne_nil _ _), membersSize_cons, hfields]
  rfl

omit [SchemaText] in
/-- **The bytes of an object with a line for each field.** -/
theorem prettySize_record (depth : ℕ) (name : String) (v : Json)
    (fields : List (String × Option Json)) :
    prettySize depth (record ((name, some v) :: fields)) =
      fieldPrettySize depth (name, some v) + (fields.map (fieldPrettySize depth)).sum +
        (2 * depth + 2) := by
  have hfields :
      membersPrettySize depth (fields.filterMap fun f => f.2.map fun v => (ofString f.1, v)) =
        (fields.map (fieldPrettySize depth)).sum := by
    induction fields with
    | nil => rfl
    | cons f fields ih =>
      obtain ⟨name, v⟩ := f
      cases v with
      | none => exact ih.trans (Nat.zero_add _).symm
      | some v =>
        change membersPrettySize depth ((ofString name, v) :: _) = _
        rw [membersPrettySize_cons, ih, List.map_cons, List.sum_cons]
        rfl
  change prettySize depth (.obj ((ofString name, v) :: _)) = _
  rw [prettySize_obj depth (List.cons_ne_nil _ _), membersPrettySize_cons, hfields]
  rfl

/-! ## What is refused for its size -/

/-- A call whose identifier, time and type the schema accepts, on data that is JSON. -/
def AppendCall.Valid (j : RunJournal) (c : AppendCall) : Prop :=
  (j.event c .null).check = true ∧ c.data.isSome = true

omit [SchemaText] in
theorem length_encode_line (t : List Char) :
    (encode (t ++ ['\n'])).length = (encode t).length + 1 := by
  rw [length_encode_append]
  rfl

/-- **Where nothing else fails, an event is appended exactly when its line is within the limit.** -/
theorem RunJournal.append_ok_iff (j : RunJournal) {c : AppendCall} (hc : c.Valid j) {data : JsData}
    (hd : c.data = some data) {file : Option Bytes}
    (hroom : (file.getD []).length + maxEventBytes ≤ maxJournalBytes) :
    (j.append c .none file).1 = .ok (j.event c data.json) ↔
      textSize (j.event c data.json).toJson + 1 ≤ maxEventBytes := by
  have hcheck : (j.event c data.json).check = true := hc.1
  have hread : (parse ((j.event c data.json).line ++ ['\n'])).bind journalEvent? =
      some (j.event c data.json) := by
    rw [JournalEvent.parse_line_newline data.proper, Option.bind_some, journalEvent?_toJson,
      if_pos hcheck]
  have hsize : (encode ((j.event c data.json).line ++ ['\n'])).length =
      textSize (j.event c data.json).toJson + 1 := length_encode_line _
  have hserialize : j.serialize c =
      if maxEventBytes < textSize (j.event c data.json).toJson + 1 then .error .eventTooLarge
      else .ok (j.event c data.json, encode ((j.event c data.json).line ++ ['\n'])) := by
    unfold RunJournal.serialize
    rw [hc.1, hd]
    dsimp only
    rw [hread]
    dsimp only
    rw [hsize]
    rfl
  unfold RunJournal.append
  rw [if_neg (by decide), hserialize]
  by_cases hlarge : maxEventBytes < textSize (j.event c data.json).toJson + 1
  · rw [if_pos hlarge]
    exact iff_of_false (fun h => nomatch h) (Nat.not_le.mpr hlarge)
  · rw [if_neg hlarge]
    have hfits := Nat.not_lt.mp hlarge
    have hspace : ¬ (maxJournalBytes < (file.getD []).length +
        (encode ((j.event c data.json).line ++ ['\n'])).length ∧ file ≠ none) := by
      rw [hsize]
      omega
    dsimp only
    rw [if_neg (by decide), if_neg hspace]
    exact iff_of_true rfl hfits

omit [SchemaText] in
/-- **Where nothing else fails, a snapshot is written exactly when its text is within the limit.** -/
theorem RunJournal.writeSnapshot_ok_iff (j : RunJournal) (hj : isRunId j.runId = true)
    (state : JsData) :
    j.writeSnapshot (some state) .none = .ok ⟨j.runId, j.sequence, state.json⟩ ↔
      prettySize 0 (RunSnapshot.toJson ⟨j.runId, j.sequence, state.json⟩) + 1 ≤ maxSnapshotBytes := by
  have hread : (parse (RunSnapshot.toJson ⟨j.runId, j.sequence, state.json⟩).stringify).bind
      runSnapshot? = some ⟨j.runId, j.sequence, state.json⟩ := by
    rw [parse_stringify (RunSnapshot.toJson_proper state.proper), Option.bind_some,
      runSnapshot?_toJson, if_pos hj]
  have hsize : (RunSnapshot.content ⟨j.runId, j.sequence, state.json⟩).length =
      prettySize 0 (RunSnapshot.toJson ⟨j.runId, j.sequence, state.json⟩) + 1 :=
    length_encode_line _
  unfold RunJournal.writeSnapshot
  rw [if_neg (by decide), hj]
  dsimp only
  rw [hread]
  dsimp only
  rw [hsize, if_neg (by decide)]
  by_cases hlarge : maxSnapshotBytes <
      prettySize 0 (RunSnapshot.toJson ⟨j.runId, j.sequence, state.json⟩) + 1
  · rw [if_pos hlarge]
    exact iff_of_false (fun h => nomatch h) (Nat.not_le.mpr hlarge)
  · rw [if_neg hlarge, if_neg (by decide)]
    exact iff_of_true rfl (Nat.not_lt.mp hlarge)

end PiSubagent
