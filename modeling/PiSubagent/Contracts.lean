import PiSubagent.Lib.Json
import PiSubagent.Lib.Utf8

/-!
# The contract

* `contractRevision`, `assertContractRevision`: the revision every persisted value carries.
* `SchemaText`: how the schema library reads texts, which is not code of this repository.
* `isRunId`, `isAttemptId`: the identifiers, as `RunIdSchema` and `AttemptIdSchema` check them.
* `isDateTime`, `dateParse`: time stamps, and the instants they stand for.
* `RunStatus`, `CleanupOutcome`, `ClassifiedFailure`, `RunResult`: the published values.
* `isRunResult`: what a result has to satisfy, and `RunResult.toJson`, its JSON form.
-/

namespace PiSubagent

open JsonText

/-- `CONTRACT_REVISION`. -/
def contractRevision : ℕ := 13

/-- `MAX_SLOTS`. -/
def maxSlots : ℕ := 32

/-! ## String checks -/

/-- `Buffer.byteLength(text, "utf8")`. -/
def byteLength (s : JsString) : ℕ := (Utf8.encode (charsOf s)).length

/-- A printable character of ASCII. -/
def isPrintable (u : UInt16) : Bool := 32 ≤ u.toNat ∧ u.toNat ≤ 126

/-- How the schema library reads texts: the characters it counts in one, which are grapheme clusters,
and which texts are of its `date-time` format. -/
class SchemaText where
  length : JsString → ℕ
  dateTime : JsString → Bool
  /-- Printable characters of ASCII are counted one by one. -/
  length_printable : ∀ s, s.all isPrintable = true → length s = s.length

/-- `minLength` and `maxLength` of a schema. -/
def fits [SchemaText] (lo hi : ℕ) (s : JsString) : Bool :=
  decide (lo ≤ SchemaText.length s ∧ SchemaText.length s ≤ hi)

/-- `minLength` and `maxLength` of a schema whose pattern admits printable characters of ASCII
alone. -/
def hasUnits (lo hi : ℕ) (s : JsString) : Bool := decide (lo ≤ s.length ∧ s.length ≤ hi)

theorem fits_printable [SchemaText] {s : JsString} (h : s.all isPrintable = true) (lo hi : ℕ) :
    fits lo hi s = hasUnits lo hi s := by
  rw [fits, hasUnits, SchemaText.length_printable s h]

/-- The characters of a string: a surrogate pair is one. -/
def characterCount : JsString → ℕ
  | [] => 0
  | [_] => 1
  | u :: v :: us =>
    if isHigh u && isLow v then characterCount us + 1 else characterCount (v :: us) + 1

/-- A code unit in `[0-9]`. -/
def isDigitUnit (u : UInt16) : Bool := 48 ≤ u.toNat ∧ u.toNat ≤ 57

/-- A code unit in `[a-z]`. -/
def isLowerUnit (u : UInt16) : Bool := 97 ≤ u.toNat ∧ u.toNat ≤ 122

/-- A code unit in `[a-f0-9]`. -/
def isHexUnit (u : UInt16) : Bool := isDigitUnit u || (97 ≤ u.toNat && u.toNat ≤ 102)

/-- `^<head>[a-z0-9]+$`. -/
def isIdentifier (head s : JsString) : Bool :=
  head.isPrefixOf s && decide (head.length < s.length) &&
    (s.drop head.length).all fun u => isLowerUnit u || isDigitUnit u

/-- `^[a-f0-9]{lo,hi}$`. -/
def isHex (lo hi : ℕ) (s : JsString) : Bool :=
  decide (lo ≤ s.length ∧ s.length ≤ hi) && s.all isHexUnit

/-- A string with between `lo` and `hi` characters: what a result's schema asks of its texts, but that
the schema counts grapheme clusters, of which there are no more. -/
def hasLength (lo hi : ℕ) (s : JsString) : Bool :=
  decide (lo ≤ characterCount s ∧ characterCount s ≤ hi)

/-- `RunIdSchema`. -/
def isRunId (s : JsString) : Bool := isIdentifier (ofString "run_") s && hasUnits 5 128 s

/-- A run identifier. -/
structure RunId where
  val : JsString
  valid : isRunId val = true

theorem isRunId_a1 : isRunId (ofString "run_a1") = true := by decide

/-- `AttemptIdSchema`. -/
def isAttemptId (s : JsString) : Bool := isIdentifier (ofString "attempt_") s && hasUnits 9 128 s

/-- The number two decimal digits spell. -/
def twoDigits (a b : UInt16) : Option ℕ :=
  if isDigitUnit a && isDigitUnit b then some ((a.toNat - 48) * 10 + (b.toNat - 48)) else none

/-- The days of a month. -/
def daysIn (year month : ℕ) : ℕ :=
  if month = 2 then
    if year % 4 = 0 ∧ (year % 100 ≠ 0 ∨ year % 400 = 0) then 29 else 28
  else if month = 4 ∨ month = 6 ∨ month = 9 ∨ month = 11 then 30 else 31

/-- `YYYY-MM-DD`. -/
def isDate : JsString → Bool
  | [a, b, c, d, h1, e, f, h2, g, h] =>
    match twoDigits a b, twoDigits c d, twoDigits e f, twoDigits g h with
    | some yy, some y, some m, some day =>
      decide (h1 = 45 ∧ h2 = 45 ∧ 1 ≤ m ∧ m ≤ 12 ∧ 1 ≤ day ∧ day ≤ daysIn (yy * 100 + y) m)
    | _, _, _, _ => false
  | _ => false

/-- `Z`, `+HH:MM` or `-HH:MM`. -/
def isZone : JsString → Bool
  | [z] => z = 90 || z = 122
  | [s, a, b, c, d, e] =>
    match twoDigits a b, twoDigits d e with
    | some h, some m => (s = 43 || s = 45) && decide (c = 58 ∧ h ≤ 23 ∧ m ≤ 59)
    | _, _ => false
  | _ => false

/-- What follows the seconds: a zone, or a point, digits and a zone. -/
def isFractionZone : JsString → Bool
  | 46 :: d :: rest => isDigitUnit d && isZone (rest.dropWhile isDigitUnit)
  | rest => isZone rest

/-- `HH:MM:SS` with an optional fraction and a zone. -/
def isTime : JsString → Bool
  | a :: b :: c1 :: c :: d :: c2 :: e :: f :: rest =>
    match twoDigits a b, twoDigits c d, twoDigits e f with
    | some h, some m, some s =>
      decide (c1 = 58 ∧ c2 = 58 ∧ h ≤ 23 ∧ m ≤ 59 ∧ s ≤ 59) && isFractionZone rest
    | _, _, _ => false
  | _ => false

/-- The time stamps that `toISOString` writes and `Date.parse` reads, and others of that form. -/
def isDateTime (s : JsString) : Bool :=
  isDate (s.take 10) && (s.drop 10).head?.any (fun t => t = 84 || t = 116) && isTime (s.drop 11)

/-- The number that digits spell. -/
def digitsValue (s : JsString) : ℕ := s.foldl (fun a u => a * 10 + (u.toNat - 48)) 0

/-- The days from 1970-01-01 to the first day of a year. -/
def daysToYear (year : ℕ) : ℤ :=
  365 * year + (year + 3) / 4 - (year + 99) / 100 + (year + 399) / 400 - 719528

/-- The days of a year before a month. -/
def daysToMonth (year month : ℕ) : ℕ :=
  ((List.range (month - 1)).map fun m => daysIn year (m + 1)).sum

/-- The milliseconds of a fraction; what is finer is cut off. -/
def fractionMs : JsString → ℕ
  | 46 :: rest => digitsValue (((rest.takeWhile isDigitUnit) ++ [48, 48, 48]).take 3)
  | _ => 0

/-- The minutes by which a zone is ahead. -/
def zoneMinutes (s : JsString) : ℤ :=
  match s.reverse with
  | m :: m' :: 58 :: h :: h' :: sign :: _ =>
    (if sign = 45 then -1 else 1) * (digitsValue [h', h] * 60 + digitsValue [m', m])
  | _ => 0

/-- `Date.parse`, of those texts; `none` is `NaN`. -/
def dateParse (s : JsString) : Option ℤ :=
  if isDateTime s then
    let number (start length : ℕ) : ℕ := digitsValue ((s.drop start).take length)
    let days : ℤ := daysToYear (number 0 4) + daysToMonth (number 0 4) (number 5 2) +
      (number 8 2 - 1)
    let minutes : ℤ := (days * 24 + number 11 2) * 60 + number 14 2 - zoneMinutes (s.drop 19)
    some ((minutes * 60 + number 17 2) * 1000 + fractionMs (s.drop 19))
  else none

example : dateParse (ofString "2024-02-29T12:30:05.25+01:30") = some 1709204405250 := by
  decide +kernel

theorem dateParse_isSome {s : JsString} (h : isDateTime s = true) : (dateParse s).isSome := by
  rw [dateParse, if_pos h]
  rfl

/-- A schema library on texts of ASCII: their characters, and the time stamps above. -/
@[reducible] def plainSchemaText : SchemaText := ⟨List.length, isDateTime, fun _ _ => rfl⟩

/-! ## JSON values -/

/-- The member of an object. -/
def member (v : Json) (k : String) : Option Json :=
  match v with
  | .obj ms => (ms.find? fun m => m.1 = ofString k).map Prod.snd
  | _ => none

/-- The string member of an object. -/
def stringMember (v : Json) (k : String) : Option JsString :=
  match member v k with
  | some (.str s) => some s
  | _ => none

/-- The member of an object that is a natural number. -/
def naturalMember (v : Json) (k : String) : Option ℕ :=
  match member v k with
  | some (.num n) => n.toNat?
  | _ => none

/-- No member has another key. -/
def keysWithin (v : Json) (ks : List String) : Bool :=
  match v with
  | .obj ms => ms.all fun m => ks.any fun k => m.1 = ofString k
  | _ => false

/-- Refuse an object whose numeric `contractRevision` is not the current one. -/
def assertContractRevision (v : Json) : Except Decimal Unit :=
  match member v "contractRevision" with
  | some (.num n) => if n = Decimal.ofNat contractRevision then .ok () else .error n
  | _ => .ok ()

/-- A JSON value a program can hold: no object in it has a key twice. -/
structure JsData where
  json : Json
  proper : json.Proper

/-- The string value of a text. -/
def text (s : String) : Json := .str (ofString s)

/-- The number value of a natural number. -/
def natural (n : ℕ) : Json := .num (Decimal.ofNat n)

/-- The object with the given fields; an undefined one is left out. -/
def record (fields : List (String × Option Json)) : Json :=
  .obj (fields.filterMap fun f => f.2.map fun v => (ofString f.1, v))

@[simp] theorem member_record_nil (k : String) : member (record []) k = none := rfl

@[simp] theorem member_record_cons (name : String) (v : Option Json)
    (fields : List (String × Option Json)) (k : String) :
    member (record ((name, v) :: fields)) k =
      if name = k then v.or (member (record fields) k) else member (record fields) k := by
  cases v with
  | none => simp [record, member]
  | some v =>
    by_cases h : name = k
    · simp [record, member, h]
    · simp [record, member, h]

@[simp] theorem keysWithin_record_nil (ks : List String) : keysWithin (record []) ks = true := rfl

@[simp] theorem keysWithin_record_cons (name : String) (v : Option Json)
    (fields : List (String × Option Json)) (ks : List String) :
    keysWithin (record ((name, v) :: fields)) ks =
      ((v.isNone || decide (name ∈ ks)) && keysWithin (record fields) ks) := by
  cases v <;> simp [record, keysWithin, List.any_eq]

theorem membersProper_iff (ms : List (JsString × Json)) :
    MembersProper ms ↔ ∀ m ∈ ms, m.2.Proper := by
  induction ms with
  | nil => simp [MembersProper]
  | cons m ms ih => simp [MembersProper, ih]

theorem record_proper {fields : List (String × Option Json)} (hk : (fields.map Prod.fst).Nodup)
    (hv : ∀ f ∈ fields, ∀ v ∈ f.2, v.Proper) : (record fields).Proper := by
  have hsub : ((fields.filterMap fun f => f.2.map fun v => (ofString f.1, v)).map Prod.fst).Sublist
      (fields.map fun f => ofString f.1) := by
    clear hk hv
    induction fields with
    | nil => exact List.Sublist.slnil
    | cons f fields ih =>
      obtain ⟨name, v⟩ := f
      cases v with
      | none => exact ih.cons _
      | some v => exact ih.cons_cons _
  have hk' : (fields.map fun f => ofString f.1).Nodup := by
    simpa only [List.map_map, Function.comp_def] using hk.map ofString_injective
  rw [record, Json.Proper]
  refine ⟨hk'.sublist hsub, (membersProper_iff _).mpr ?_⟩
  intro m hm
  obtain ⟨f, hf, he⟩ := List.mem_filterMap.mp hm
  obtain ⟨v, hv', rfl⟩ := Option.map_eq_some_iff.mp he
  exact hv f hf v hv'

/-! ## Published values -/

/-- `RunStatusSchema`. -/
inductive RunStatus where
  | queued | active | stopping | completed | failed | cancelled | abandoned | interrupted
  | cleanupBlocked
deriving DecidableEq, Repr

/-- The text of a status. -/
def RunStatus.text : RunStatus → String
  | .queued => "queued"
  | .active => "active"
  | .stopping => "stopping"
  | .completed => "completed"
  | .failed => "failed"
  | .cancelled => "cancelled"
  | .abandoned => "abandoned"
  | .interrupted => "interrupted"
  | .cleanupBlocked => "cleanup-blocked"

/-- `CleanupOutcomeSchema`. -/
inductive CleanupOutcome where
  | proved | notNeeded | retained | blocked | unknown
deriving DecidableEq, Repr

/-- The text of a cleanup outcome. -/
def CleanupOutcome.text : CleanupOutcome → String
  | .proved => "proved"
  | .notNeeded => "not-needed"
  | .retained => "retained"
  | .blocked => "blocked"
  | .unknown => "unknown"

/-- The outcome leaves nothing behind. -/
def CleanupOutcome.done : CleanupOutcome → Bool
  | .proved | .notNeeded => true
  | _ => false

/-- `UsageSchema`; a cost is a decimal number. -/
structure Usage where
  input : ℕ
  output : ℕ
  cacheRead : ℕ
  cacheWrite : ℕ
  totalTokens : ℕ
  cost : Decimal
deriving DecidableEq, Repr

/-- `ArtifactRefSchema`. -/
structure ArtifactRef where
  id : JsString
  sha256 : JsString
  bytes : ℕ
  mediaType : JsString
deriving DecidableEq, Repr

/-- `FailureCodeSchema`. -/
inductive FailureCode where
  | authentication | capacity | cancellation | operatorAbandoned | leaseLoss | modelOutput
  | mountPolicy | networkPolicy | persistence | providerTransient | resourceDrift
  | sandboxCapability | sandboxCleanup | sandboxLaunch | seatInterruption | timeout | tool | trust
  | unknown | validation | workspace | workspaceBudget
deriving DecidableEq, Repr

/-- The text of a failure code. -/
def FailureCode.text : FailureCode → String
  | .authentication => "authentication"
  | .capacity => "capacity"
  | .cancellation => "cancellation"
  | .operatorAbandoned => "operator-abandoned"
  | .leaseLoss => "lease-loss"
  | .modelOutput => "model-output"
  | .mountPolicy => "mount-policy"
  | .networkPolicy => "network-policy"
  | .persistence => "persistence"
  | .providerTransient => "provider-transient"
  | .resourceDrift => "resource-drift"
  | .sandboxCapability => "sandbox-capability"
  | .sandboxCleanup => "sandbox-cleanup"
  | .sandboxLaunch => "sandbox-launch"
  | .seatInterruption => "seat-interruption"
  | .timeout => "timeout"
  | .tool => "tool"
  | .trust => "trust"
  | .unknown => "unknown"
  | .validation => "validation"
  | .workspace => "workspace"
  | .workspaceBudget => "workspace-budget"

/-- Where a failure came from. -/
inductive FailureOrigin where
  | model | operator | persistence | provider | sandbox | service | tool | workspace
deriving DecidableEq, Repr

/-- The text of a failure's origin. -/
def FailureOrigin.text : FailureOrigin → String
  | .model => "model"
  | .operator => "operator"
  | .persistence => "persistence"
  | .provider => "provider"
  | .sandbox => "sandbox"
  | .service => "service"
  | .tool => "tool"
  | .workspace => "workspace"

/-- What may be done about a failure. -/
inductive FailureRetry where
  | never | manual | backoff | resume | reconcile
deriving DecidableEq, Repr

/-- The text of a failure's retry advice. -/
def FailureRetry.text : FailureRetry → String
  | .never => "never"
  | .manual => "manual"
  | .backoff => "backoff"
  | .resume => "resume"
  | .reconcile => "reconcile"

/-- `ClassifiedFailureSchema`. -/
structure ClassifiedFailure where
  code : FailureCode
  origin : FailureOrigin
  retry : FailureRetry
  message : JsString
  guidance : JsString
  retryAfterMs : Option ℕ
deriving DecidableEq, Repr

/-- `RunResultSchema`. -/
structure RunResult where
  runId : JsString
  status : RunStatus
  output : Option ArtifactRef
  structuredOutput : Option JsData
  usage : Usage
  usageComplete : Bool
  runtimeMs : ℕ
  failure : Option ClassifiedFailure
  sandboxCleanup : CleanupOutcome
  workspaceCleanup : CleanupOutcome
  truncated : Bool

/-- The characters of a media type's names after their first. -/
def isMediaUnit (u : UInt16) : Bool :=
  isDigitUnit u || isLowerUnit u || (65 ≤ u.toNat && u.toNat ≤ 90) ||
    u ∈ ([33, 35, 36, 38, 94, 95, 46, 43, 45] : List UInt16)

/-- One of the two names of a media type. -/
def isMediaName : JsString → Bool
  | [] => false
  | u :: us =>
    (isDigitUnit u || isLowerUnit u || (65 ≤ u.toNat && u.toNat ≤ 90)) && us.all isMediaUnit

/-- The pattern of `mediaType`: two names with a slash between them. -/
def isMediaType (s : JsString) : Bool :=
  match s.splitOn 47 with
  | [a, b] => isMediaName a && isMediaName b
  | _ => false

/-- Whether the strings and numbers of an artifact reference are as its schema wants them. -/
def ArtifactRef.check (r : ArtifactRef) : Bool :=
  (ofString "artifact_").isPrefixOf r.id && isHex 64 64 (r.id.drop 9) && isHex 64 64 r.sha256 &&
    isMediaType r.mediaType && hasUnits 0 256 r.mediaType

/-- Whether the strings and numbers of a failure are as its schema wants them. -/
def ClassifiedFailure.check (f : ClassifiedFailure) : Bool :=
  hasLength 1 4096 f.message && hasLength 1 1024 f.guidance &&
    f.retryAfterMs.all fun n => decide (1000 ≤ n ∧ n ≤ 300000)

/-- `Number.MAX_SAFE_INTEGER`. -/
def maxSafeInteger : ℕ := 9007199254740991

instance (priority := 1100) : NeZero (maxSafeInteger + 1) := ⟨Nat.succ_ne_zero _⟩

/-- The statuses a result may have. -/
def RunStatus.isResultStatus : RunStatus → Bool
  | .completed | .failed | .cancelled | .abandoned | .interrupted | .cleanupBlocked => true
  | _ => false

/-- Whether the value is as `RunResultSchema` wants it. -/
def RunResult.check (r : RunResult) : Bool :=
  isRunId r.runId && r.status.isResultStatus && r.output.all ArtifactRef.check &&
    !r.usage.cost.neg && decide (r.runtimeMs ≤ maxSafeInteger) &&
    r.failure.all ClassifiedFailure.check

/-- Sandbox and workspace leave nothing behind. -/
def cleanupIsProved (r : RunResult) : Bool := r.sandboxCleanup.done && r.workspaceCleanup.done

/-- What a failure of an abandoned run says. -/
def ClassifiedFailure.isAbandonment (f : ClassifiedFailure) : Bool :=
  f.code = .operatorAbandoned ∧ f.origin = .operator ∧ f.retry = .never

/-- A value that may stand as the result of a run. -/
def isRunResult (r : RunResult) : Bool :=
  r.check &&
    match r.status, r.failure with
    | .completed, f => cleanupIsProved r && f.isNone
    | _, none => false
    | .cleanupBlocked, some _ => !cleanupIsProved r
    | .abandoned, some f =>
      cleanupIsProved r && f.isAbandonment && r.output.isNone && r.structuredOutput.isNone
    | _, some _ => true

/-- The JSON form of a usage. -/
def Usage.toJson (u : Usage) : Json :=
  record [("input", natural u.input), ("output", natural u.output),
    ("cacheRead", natural u.cacheRead), ("cacheWrite", natural u.cacheWrite),
    ("totalTokens", natural u.totalTokens), ("cost", some (.num u.cost))]

/-- The JSON form of an artifact reference. -/
def ArtifactRef.toJson (r : ArtifactRef) : Json :=
  record [("id", some (.str r.id)), ("sha256", some (.str r.sha256)),
    ("bytes", natural r.bytes), ("mediaType", some (.str r.mediaType))]

/-- The JSON form of a failure. -/
def ClassifiedFailure.toJson (f : ClassifiedFailure) : Json :=
  record [("code", PiSubagent.text f.code.text), ("origin", PiSubagent.text f.origin.text),
    ("retry", PiSubagent.text f.retry.text), ("message", some (.str f.message)),
    ("guidance", some (.str f.guidance)), ("retryAfterMs", f.retryAfterMs.map natural)]

/-- The JSON form of a result. -/
def RunResult.toJson (r : RunResult) : Json :=
  record [("runId", some (.str r.runId)), ("status", PiSubagent.text r.status.text),
    ("output", r.output.map ArtifactRef.toJson),
    ("structuredOutput", r.structuredOutput.map JsData.json), ("usage", r.usage.toJson),
    ("usageComplete", some (.bool r.usageComplete)), ("runtimeMs", natural r.runtimeMs),
    ("failure", r.failure.map ClassifiedFailure.toJson),
    ("sandboxCleanup", PiSubagent.text r.sandboxCleanup.text),
    ("workspaceCleanup", PiSubagent.text r.workspaceCleanup.text),
    ("truncated", some (.bool r.truncated))]

theorem Usage.toJson_proper (u : Usage) : u.toJson.Proper :=
  record_proper (by simp) (by simp [natural, Json.Proper])

theorem ArtifactRef.toJson_proper (r : ArtifactRef) : r.toJson.Proper :=
  record_proper (by simp) (by simp [natural, Json.Proper])

theorem ClassifiedFailure.toJson_proper (f : ClassifiedFailure) : f.toJson.Proper :=
  record_proper (by simp) (by simp [natural, PiSubagent.text, Json.Proper])

theorem RunResult.toJson_proper (r : RunResult) : r.toJson.Proper :=
  record_proper (by simp) (by
    simp only [List.mem_cons, List.not_mem_nil, or_false, forall_eq_or_imp, forall_eq,
      Option.mem_def, Option.map_eq_some_iff, Option.some.injEq, forall_exists_index, and_imp]
    simp [natural, PiSubagent.text, Json.Proper, ArtifactRef.toJson_proper, Usage.toJson_proper,
      ClassifiedFailure.toJson_proper, JsData.proper])

end PiSubagent
