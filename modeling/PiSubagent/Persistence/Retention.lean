import PiSubagent.Lib.OrderedMap
import PiSubagent.Lib.Shedding
import PiSubagent.Workspace.Worktree

/-!
# Retention

`RetentionManager.prune`: the runs it is given, the paths it links to each, which of them it selects,
and the manifest it writes for each before it moves it. Paths are lists of segments under the root of
the service. What the store answers is given (`Seen`), each read on its own.

* `RetentionRun`, `linkedPaths`: a run, and its paths that exist.
* `markAged`, `markBudget`, `applyAll`, `prune`: the passes that select runs and the loop that removes
  them; the calls of `moveRunToTrash`, and the report.
* `TrashManifest.toJson`, `manifestValid`: the manifest of a move, and what a recovery asks of it.
* **`manifestValid_iff`**: a recovery accepts the manifest of a run exactly when at most 128 paths of
  the run exist.
* **`manifest_refused`**: it refuses the one of a run that was steered often enough.
-/

namespace PiSubagent

open JsonText

namespace Retention

open OrderedMap Shedding

/-! ## Paths -/

/-- The segments of a path. -/
abbrev Path := List JsString

/-- `path.relative`. -/
def relative : Path → Path → Path
  | a :: as, b :: bs =>
    if a = b then relative as bs else List.replicate (as.length + 1) (ofString "..") ++ b :: bs
  | as, bs => List.replicate as.length (ofString "..") ++ bs

/-- The text of a relative path. -/
def pathText (p : Path) : JsString := (ofString "/").intercalate p

theorem relative_append (root p : Path) : relative root (root ++ p) = p := by
  induction root with
  | nil => cases p <;> rfl
  | cons a root ih => rw [List.cons_append, relative, if_pos rfl, ih]

section

variable [SchemaText]

/-! ## What prune is given and reads -/

/-- `WorktreeRecord`, as its file has it. -/
structure WorktreeData extends WorktreeRecord where
  repositoryRoot : JsString
  worktreePath : JsString
  recordPath : JsString
  branch : JsString
  startCommit : Option JsString
  createdAt : JsString
  releasedAt : Option JsString
deriving DecidableEq, Repr

/-- A unit of `[a-z0-9]`. -/
def isIdUnit (u : UInt16) : Bool := isLowerUnit u || isDigitUnit u

/-- `HANDOFF_REF_PATTERN`. -/
def isHandoffRef (s : JsString) : Bool :=
  let head := ofString "refs/pi-subagent/handoffs/run_"
  let rest := s.drop head.length
  head.isPrefixOf s && !(rest.takeWhile isIdUnit).isEmpty &&
    isIdentifier (ofString "/attempt_") (rest.dropWhile isIdUnit)

/-- `WorktreeRecordSchema`. -/
def WorktreeData.check (r : WorktreeData) : Bool :=
  isRunId r.runId && isAttemptId r.attemptId && fits 1 4096 r.repositoryRoot &&
    fits 1 4096 r.worktreePath && fits 1 4096 r.recordPath && fits 1 1024 r.branch &&
    isHex 40 64 r.baselineHead && r.startCommit.all (isHex 40 64) &&
    SchemaText.dateTime r.createdAt && r.handoffCommit.all (isHex 40 64) &&
    r.handoffRef.all (fun ref => isHandoffRef ref && hasUnits 0 1024 ref) &&
    r.releasedAt.all SchemaText.dateTime

/-- `RetentionRun`. -/
structure RetentionRun where
  runId : JsString
  status : RunStatus
  terminalAt : Option JsString
  attemptIds : List JsString
  worktreeAttemptIds : List JsString
  retainedWorktree : Bool
deriving DecidableEq, Repr

/-- `HandoffRefTarget`. -/
structure HandoffRefTarget where
  runId : JsString
  repositoryRoot : JsString
  ref : JsString
  commit : Option JsString
deriving DecidableEq, Repr

/-- What `prune` throws. -/
inductive RetentionError where
  | error (message : String)
  /-- `IncompatibleContractRevisionError`. -/
  | revision
  /-- `WorktreeError`. -/
  | worktree
  /-- An error of the file system. -/
  | system
deriving DecidableEq, Repr

/-- What the file of a worktree record has. -/
inductive RecordFile where
  | absent
  /-- No JSON text. -/
  | unreadable
  | otherRevision
  | value (r : WorktreeData)
deriving DecidableEq, Repr

/-- What `acquireRunLease` and `assertCurrent` come to. -/
inductive LeaseOutcome where
  | acquired
  /-- `RunLeaseUnavailableError`. -/
  | unavailable
  | failed (e : RetentionError)
deriving DecidableEq, Repr

/-- The options of `prune`; `none` is a date that is none. -/
structure PruneOptions where
  runs : List RetentionRun
  dryRun : Bool
  now : Option ℤ
  maxAgeMs : ℕ
  maxBytes : ℕ

/-- The operation records as `readdir` lists them: each name once, with its run. -/
structure Listing where
  entries : List (JsString × JsString)
  nodup : (entries.map Prod.fst).Nodup

/-- What a prune reads of the store, and what becomes of its calls. -/
structure Seen where
  /-- `pathExists`, when the paths of the runs are linked. -/
  pathExists : Path → Bool
  /-- `recoverTrashIntents`. -/
  recovered : Except RetentionError (List JsString)
  /-- The runs of the pins. -/
  pins : Except RetentionError (List JsString)
  /-- The operation records. -/
  operations : Except RetentionError Listing
  /-- `treeBytes` of the paths of a run, each inode once. -/
  treeBytes : List Path → ℕ
  /-- `Date.parse`. -/
  parseDate : JsString → Option ℤ
  localeCompare : JsString → JsString → Ordering
  lease : JsString → LeaseOutcome
  /-- The file of the worktree record of an attempt. -/
  recordFile : JsString → RecordFile
  /-- What `inspectHandoffRef` throws. -/
  inspectHandoffRef : HandoffRefTarget → Option RetentionError

/-! ## Paths of a run -/

/-- The file of a run's record. -/
def runRecordPath (runId : JsString) : Path := [ofString "run-records", runId ++ ofString ".json"]

/-- The file of a run's lease. -/
def leasePath (runId : JsString) : Path := [ofString "leases", runId ++ ofString ".lease.json"]

/-- The paths `linkedPaths` looks for. -/
def linkedCandidates (run : RetentionRun) (operationPaths : List Path) : List Path :=
  [[ofString "runs", run.runId], runRecordPath run.runId, [ofString "attempt-records", run.runId],
    leasePath run.runId] ++
  run.attemptIds.map (fun id => [ofString "sessions", id]) ++
  run.worktreeAttemptIds.map
    (fun id => [ofString "workspace", ofString "records", id ++ ofString ".json"]) ++
  operationPaths

namespace Seen

variable (seen : Seen)

/-- `linkedPaths`. -/
def linkedPaths (run : RetentionRun) (operationPaths : List Path) : List Path :=
  (linkedCandidates run operationPaths).eraseDups.filter seen.pathExists

end Seen

/-- `operationPathsByRun`, for one run. -/
def operationPathsOf (operations : Listing) (runId : JsString) : List Path :=
  (operations.entries.filter fun o => o.2 = runId).map fun o => [ofString "operations", o.1]

/-! ## Hand-off refs -/

/-- `readWorktreeRecord`. -/
def readWorktreeRecord : RecordFile → Except RetentionError WorktreeData
  | .absent | .unreadable => .error .system
  | .otherRevision => .error .revision
  | .value r => if r.check then .ok r else .error .worktree

/-- `handoffRefTarget`. -/
def handoffRefTarget (r : WorktreeData) : HandoffRefTarget where
  runId := r.runId
  repositoryRoot := r.repositoryRoot
  ref := r.handoffRef.getD (Worktree.handoffRefName r.runId r.attemptId)
  commit := r.handoffCommit

namespace Seen

variable (seen : Seen)

/-- `runHandoffRefs`, for the attempts that are left. -/
def runHandoffRefs (runId : JsString) : List JsString → Except RetentionError (List HandoffRefTarget)
  | [] => .ok []
  | id :: ids =>
    if seen.recordFile id = .absent then runHandoffRefs runId ids
    else
      match readWorktreeRecord (seen.recordFile id) with
      | .error .revision => .error .revision
      | .error _ => .error (.error "invalid worktree record during retention")
      | .ok r =>
        if r.runId ≠ runId then
          .error (.error "worktree record run identity mismatch during retention")
        else
          match runHandoffRefs runId ids with
          | .error e => .error e
          | .ok targets => .ok (handoffRefTarget r :: targets)

/-- The targets of a run, each inspected. -/
def inspectedRefs (run : RetentionRun) : Except RetentionError (List HandoffRefTarget) :=
  match seen.runHandoffRefs run.runId run.worktreeAttemptIds with
  | .error e => .error e
  | .ok targets =>
    match targets.findSome? seen.inspectHandoffRef with
    | some e => .error e
    | none => .ok targets

end Seen

/-! ## Selection -/

/-- What is wrong with a descriptor by itself. -/
def descriptorValid (run : RetentionRun) : Bool :=
  isRunId run.runId && run.attemptIds.all isAttemptId && decide (run.attemptIds.length ≤ 32) &&
    run.worktreeAttemptIds.all isAttemptId && decide (run.worktreeAttemptIds.length ≤ 32) &&
    decide run.attemptIds.Nodup && decide run.worktreeAttemptIds.Nodup

/-- A run that has been assessed. -/
structure Item where
  run : RetentionRun
  paths : List Path
  bytes : ℕ
  terminalTime : Option ℤ

/-- `RetentionRunReport`, but for the path in the trash. -/
structure RunReport where
  run : RetentionRun
  bytes : ℕ
  reasons : List String

/-- What `moveRunToTrash` is called with. -/
structure Removal where
  run : RetentionRun
  paths : List Path
  handoffRefs : List HandoffRefTarget

/-- `ORDINARY_TERMINAL`. -/
def isOrdinaryTerminal : RunStatus → Bool
  | .completed | .failed | .cancelled | .abandoned => true
  | _ => false

/-- Why a run is protected. -/
def protectedReasons (pinned : List JsString) (item : Item) : List String :=
  (if item.run.runId ∈ pinned then ["pinned"] else []) ++
  (if item.run.retainedWorktree then ["retained-worktree"] else []) ++
  (if isOrdinaryTerminal item.run.status then [] else ["status:" ++ item.run.status.text]) ++
  (if item.terminalTime.isNone then ["terminal-time-unknown"] else [])

/-- A run is old enough. -/
def Item.aged (now : ℤ) (maxAgeMs : ℕ) (item : Item) : Bool :=
  decide ((maxAgeMs : ℤ) ≤ now - item.terminalTime.getD now)

/-- The marked runs with their reasons, and `ordinaryBytesAfter`. -/
structure Marks where
  selected : List (JsString × List String)
  after : ℤ

/-- The id of the run of an item. -/
abbrev Item.runId (item : Item) : JsString := item.run.runId

/-- The pass for the age. -/
def markAged (now : ℤ) (maxAgeMs : ℕ) (ordinary : List Item) : List (JsString × List String) :=
  ordinary.foldl
    (fun selected item => if item.aged now maxAgeMs then set item.runId ["age"] selected
      else selected) []

/-- The pass for the byte budget. -/
def markBudget (maxBytes : ℕ) : List Item → Marks → Marks
  | [], marks => marks
  | item :: items, marks =>
    if marks.after ≤ maxBytes then marks
    else if item.runId ∈ keys marks.selected then markBudget maxBytes items marks
    else markBudget maxBytes items
      ⟨set item.runId ["budget"] marks.selected, marks.after - item.bytes⟩

/-- Both passes. -/
def mark (now : ℤ) (maxAgeMs maxBytes : ℕ) (ordinary : List Item) : Marks :=
  let aged := markAged now maxAgeMs ordinary
  markBudget maxBytes ordinary
    ⟨aged, load Item.bytes (ordinary.filter fun item => item.runId ∉ keys aged)⟩

/-- `selectedReports`. -/
def selectedReports (marks : Marks) (ordinary : List Item) : List RunReport :=
  (ordinary.filter fun item => item.runId ∈ keys marks.selected).map fun item =>
    ⟨item.run, item.bytes, (get item.runId marks.selected).getD []⟩

/-- The protected runs with the reasons. -/
def protectedReports (pinned : List JsString) (assessed : List Item) : List RunReport :=
  (assessed.filter fun item => !(protectedReasons pinned item).isEmpty).map fun item =>
    ⟨item.run, item.bytes, protectedReasons pinned item⟩

namespace Seen

variable (seen : Seen)

/-- The checks of the descriptors, after those seen before. -/
def checkRuns : List RetentionRun → List JsString → Except RetentionError Unit
  | [], _ => .ok ()
  | run :: runs, seenRunIds =>
    if !descriptorValid run || run.runId ∈ seenRunIds then
      .error (.error "invalid retention run descriptor")
    else if !seen.pathExists (runRecordPath run.runId) then
      .error (.error "retention run root is missing")
    else checkRuns runs (run.runId :: seenRunIds)

/-- The paths, bytes and terminal time of a run. -/
def assess (operations : Listing) (run : RetentionRun) : Item :=
  let paths := seen.linkedPaths run (operationPathsOf operations run.runId)
  ⟨run, paths, seen.treeBytes paths, run.terminalAt.bind seen.parseDate⟩

/-- The order of the runs that may go. -/
def before (a b : Item) : Bool :=
  let ta := a.terminalTime.getD 0
  let tb := b.terminalTime.getD 0
  ta < tb || (ta = tb && seen.localeCompare a.run.runId b.run.runId != .gt)

/-- The runs that may go, in their order. -/
def ordinary (pinned : List JsString) (assessed : List Item) : List Item :=
  (assessed.filter fun item => (protectedReasons pinned item).isEmpty).mergeSort seen.before

/-- The checks of the age and the byte budget. -/
def checkOptions (o : PruneOptions) : Except RetentionError Unit :=
  if maxSafeInteger < o.maxAgeMs then .error (.error "invalid retention max age")
  else if maxSafeInteger < o.maxBytes then .error (.error "invalid retention byte budget")
  else .ok ()

/-- The time of a prune. -/
def clock (o : PruneOptions) : Except RetentionError ℤ :=
  match o.now with
  | some now => .ok now
  | none => .error (.error "invalid retention clock")

/-- The interrupted moves that an applied prune completes first. -/
def recover (o : PruneOptions) : Except RetentionError (List JsString) :=
  if o.dryRun then .ok [] else seen.recovered

/-- The runs that a prune assesses, with the recovered moves, the time and the pins. -/
def assessed (o : PruneOptions) :
    Except RetentionError (List JsString × ℤ × List JsString × List Item) := do
  checkOptions o
  let recovered ← seen.recover o
  let candidates := o.runs.filter fun run => run.runId ∉ recovered
  seen.checkRuns candidates []
  let now ← clock o
  let pins ← seen.pins
  let operations ← seen.operations
  pure (recovered, now, pins, candidates.map (seen.assess operations))

/-! ## Removal -/

/-- What a selected run comes to before its move: an error, protection, or `moveRunToTrash`. -/
def removal (item : Item) : Except RetentionError (Except String Removal) :=
  match seen.lease item.run.runId with
  | .unavailable => .ok (.error "run-lease-unavailable")
  | .failed e => .error e
  | .acquired =>
    match seen.inspectedRefs item.run with
    | .error .worktree => .ok (.error "handoff-ref-unremovable")
    | .error e => .error e
    | .ok targets =>
      .ok (.ok ⟨item.run,
        if leasePath item.run.runId ∈ item.paths then item.paths
        else item.paths ++ [leasePath item.run.runId], targets⟩)

end Seen

/-- What the applied prune has done so far: its calls of `moveRunToTrash`, and what was thrown. -/
structure Applied where
  protectedRuns : List RunReport
  pruned : List RunReport
  after : ℤ
  moves : List Removal
  thrown : Option RetentionError

/-- `RetentionReport`, but for the times at which it was made. -/
structure Report where
  dryRun : Bool
  maxAgeMs : ℕ
  maxBytes : ℕ
  ordinaryBytesBefore : ℤ
  ordinaryBytesAfter : ℤ
  protectedRuns : List RunReport
  selected : List RunReport
  pruned : List RunReport
  recoveredTrashIntents : List JsString

/-- What a prune comes to: its calls of `moveRunToTrash`, and what it returns or throws. -/
structure Pruning where
  moves : List Removal
  report : Except RetentionError Report

namespace Seen

variable (seen : Seen)

/-- The loop over the selected runs; `move` is what `moveRunToTrash` throws. -/
def applyAll (move : Removal → Option RetentionError) (ordinary : List Item) :
    List RunReport → Applied → Applied
  | [], applied => applied
  | report :: reports, applied =>
    match ordinary.find? fun item => item.runId = report.run.runId with
    | none => { applied with thrown := some (.error "retention selection disappeared") }
    | some item =>
      match seen.removal item with
      | .error e => { applied with thrown := some e }
      | .ok (.error reason) => applyAll move ordinary reports
        { applied with
          protectedRuns := applied.protectedRuns ++ [{ report with reasons := [reason] }]
          after := applied.after + item.bytes }
      | .ok (.ok r) =>
        match move r with
        | some e => { applied with moves := applied.moves ++ [r], thrown := some e }
        | none => applyAll move ordinary reports
          { applied with pruned := applied.pruned ++ [report], moves := applied.moves ++ [r] }

/-- The end of `prune`, once the runs have been assessed. -/
def pruneAssessed (move : Removal → Option RetentionError) (o : PruneOptions)
    (recovered : List JsString) (now : ℤ) (pinned : List JsString) (assessed : List Item) : Pruning :=
  let ordinary := seen.ordinary pinned assessed
  let marks := mark now o.maxAgeMs o.maxBytes ordinary
  let selected := selectedReports marks ordinary
  let before : Applied := ⟨protectedReports pinned assessed, [], marks.after, [], none⟩
  let applied := if o.dryRun then before else seen.applyAll move ordinary selected before
  { moves := applied.moves
    report :=
      match applied.thrown with
      | some e => .error e
      | none => .ok
        { dryRun := o.dryRun
          maxAgeMs := o.maxAgeMs
          maxBytes := o.maxBytes
          ordinaryBytesBefore := load Item.bytes ordinary
          ordinaryBytesAfter := applied.after
          protectedRuns := applied.protectedRuns
          selected := selected
          pruned := applied.pruned
          recoveredTrashIntents := recovered } }

/-- `prune`. -/
def prune (move : Removal → Option RetentionError) (o : PruneOptions) : Pruning :=
  match seen.assessed o with
  | .error e => ⟨[], .error e⟩
  | .ok (recovered, now, pinned, assessed) =>
    seen.pruneAssessed move o recovered now pinned assessed

end Seen

/-! ## The manifest -/

/-- `TrashManifest`. -/
structure TrashManifest where
  runId : JsString
  createdAt : JsString
  commitPath : Path
  paths : List Path
  handoffRefs : List HandoffRefTarget

/-- `relativeWithin`. -/
def relativeWithin (root candidate : Path) : Except RetentionError Path :=
  match relative root candidate with
  | [] => .error (.error "retention path escapes service root")
  | d :: ds =>
    if d = ofString ".." then .error (.error "retention path escapes service root") else .ok (d :: ds)

/-- The paths of a move in their order: the run record goes last. -/
def Removal.orderedPaths (r : Removal) : List Path :=
  r.paths.filter (fun p => p ≠ runRecordPath r.run.runId) ++
    r.paths.filter fun p => p = runRecordPath r.run.runId

/-- The manifest `moveRunToTrash` writes. -/
def trashManifest (root : Path) (createdAt : JsString) (r : Removal) :
    Except RetentionError TrashManifest := do
  let commitPath ← relativeWithin root (root ++ runRecordPath r.run.runId)
  let paths ← r.orderedPaths.mapM fun p => relativeWithin root (root ++ p)
  pure ⟨r.run.runId, createdAt, commitPath, paths, r.handoffRefs⟩

/-- The JSON form of a target. -/
def HandoffRefTarget.toJson (t : HandoffRefTarget) : Json :=
  record [("runId", some (.str t.runId)), ("repositoryRoot", some (.str t.repositoryRoot)),
    ("ref", some (.str t.ref)), ("commit", t.commit.map .str)]

/-- The JSON form of a manifest. -/
def TrashManifest.toJson (m : TrashManifest) : Json :=
  record [("schema", some (text "pi-subagent-retention-trash")),
    ("contractRevision", some (natural contractRevision)), ("runId", some (.str m.runId)),
    ("createdAt", some (.str m.createdAt)), ("commitPath", some (.str (pathText m.commitPath))),
    ("paths", some (.arr (m.paths.map fun p => .str (pathText p)))),
    ("handoffRefs", some (.arr (m.handoffRefs.map HandoffRefTarget.toJson)))]

/-- `safeTrashRelative`. -/
def safeTrashRelative (s : JsString) : Bool :=
  !s.isEmpty && !(ofString "/").isPrefixOf s && s ≠ ofString ".." && !(ofString "../").isPrefixOf s

/-- The array member of an object. -/
def arrayMember (v : Json) (k : String) : Option (List Json) :=
  match member v k with
  | some (.arr xs) => some xs
  | _ => none

/-- `HandoffRefTargetSchema`. -/
def handoffRefTargetValid (t : Json) : Bool :=
  keysWithin t ["runId", "repositoryRoot", "ref", "commit"] &&
    (stringMember t "runId").any isRunId &&
    (stringMember t "repositoryRoot").any (fits 1 4096) &&
    (stringMember t "ref").any (fun ref => isHandoffRef ref && hasUnits 0 1024 ref) &&
    match member t "commit" with
    | none => true
    | some (.str c) => isHex 40 64 c
    | some _ => false

/-- What `recoverTrashIntents` asks of a manifest. -/
def manifestValid (v : Json) : Bool :=
  (assertContractRevision v).isOk &&
    stringMember v "schema" == some (ofString "pi-subagent-retention-trash") &&
    (stringMember v "runId").any isRunId &&
    (arrayMember v "paths").any (fun paths => decide (paths.length ≤ 128) && paths.all fun
      | .str s => safeTrashRelative s
      | _ => false) &&
    (arrayMember v "handoffRefs").any fun targets => decide (targets.length ≤ 32) &&
      targets.all fun t => handoffRefTargetValid t && stringMember t "runId" == stringMember v "runId"

/-! ## Paths of a manifest -/

omit [SchemaText] in
theorem relativeWithin_append (root : Path) {d : JsString} {ds : Path} (h : d ≠ ofString "..") :
    relativeWithin root (root ++ d :: ds) = .ok (d :: ds) := by
  rw [relativeWithin, relative_append]
  exact if_neg h

omit [SchemaText] in
/-- A path whose first segment begins with neither a dot nor a slash is safe. -/
theorem safeTrashRelative_pathText {u : UInt16} {us : JsString} {ds : Path} (hdot : u ≠ 46)
    (hslash : u ≠ 47) : safeTrashRelative (pathText ((u :: us) :: ds)) = true := by
  obtain ⟨t, ht⟩ : ∃ t, pathText ((u :: us) :: ds) = u :: t := by
    cases ds with
    | nil => exact ⟨us, List.append_nil _⟩
    | cons d ds => exact ⟨_, rfl⟩
  have hsl : (ofString "/").isPrefixOf (u :: t) = false := by
    change (47 == u && _) = false
    rw [Bool.and_eq_false_imp]
    intro h
    exact absurd (beq_iff_eq.mp h).symm hslash
  have hdd : (ofString "../").isPrefixOf (u :: t) = false := by
    change (46 == u && _) = false
    rw [Bool.and_eq_false_imp]
    intro h
    exact absurd (beq_iff_eq.mp h).symm hdot
  have hd : u :: t ≠ ofString ".." := fun h => hdot (List.cons.inj h).1
  rw [safeTrashRelative, ht, hsl, hdd, decide_eq_true hd]
  rfl

/-- A path under one of the directories of the store. -/
def InStore (p : Path) : Prop :=
  p.headD [] ∈ [ofString "operations", ofString "workspace", ofString "sessions", ofString "runs",
    ofString "run-records", ofString "attempt-records", ofString "leases"]

omit [SchemaText] in
theorem InStore.cons {p : Path} (h : InStore p) :
    ∃ u us ds, p = (u :: us) :: ds ∧ u ≠ 46 ∧ u ≠ 47 := by
  cases p with
  | nil => exact absurd h (by unfold InStore; decide)
  | cons d ds =>
    have hd : ∃ u us, d = u :: us ∧ u ≠ 46 ∧ u ≠ 47 := by
      simp only [InStore, List.headD_cons, List.mem_cons, List.not_mem_nil, or_false] at h
      rcases h with rfl | rfl | rfl | rfl | rfl | rfl | rfl <;>
        exact ⟨_, _, rfl, by decide, by decide⟩
    obtain ⟨u, us, rfl, hdot, hslash⟩ := hd
    exact ⟨u, us, ds, rfl, hdot, hslash⟩

omit [SchemaText] in
theorem InStore.safe {p : Path} (h : InStore p) : safeTrashRelative (pathText p) = true := by
  obtain ⟨u, us, ds, rfl, hdot, hslash⟩ := h.cons
  exact safeTrashRelative_pathText hdot hslash

omit [SchemaText] in
theorem InStore.relativeWithin {p : Path} (h : InStore p) (root : Path) :
    relativeWithin root (root ++ p) = .ok p := by
  obtain ⟨u, us, ds, rfl, hdot, -⟩ := h.cons
  exact relativeWithin_append root fun he => hdot (List.cons.inj he).1

/-! ## Counting paths -/

omit [SchemaText] in
theorem eraseDups_of_nodup {α : Type} [BEq α] [LawfulBEq α] {l : List α} (h : l.Nodup) :
    l.eraseDups = l := by
  induction l with
  | nil => rfl
  | cons a l ih =>
    obtain ⟨ha, hl⟩ := List.nodup_cons.mp h
    have hfilter : (l.filter fun b => !b == a) = l := by
      refine List.filter_eq_self.mpr fun b hb => ?_
      rw [Bool.not_eq_true', beq_eq_false_iff_ne]
      exact ne_of_mem_of_not_mem hb ha
    rw [List.eraseDups_cons, hfilter, ih hl]

namespace Seen

variable (seen : Seen)

/-- The paths of a run that exist, its lease counted in any case. -/
def pathCount (run : RetentionRun) : ℕ :=
  ([[ofString "runs", run.runId], runRecordPath run.runId,
      [ofString "attempt-records", run.runId]].filter seen.pathExists).length + 1 +
    (run.attemptIds.filter fun id => seen.pathExists [ofString "sessions", id]).length +
    (run.worktreeAttemptIds.filter fun id => seen.pathExists
      [ofString "workspace", ofString "records", id ++ ofString ".json"]).length +
    match seen.operations with
    | .ok operations => ((operationPathsOf operations run.runId).filter seen.pathExists).length
    | .error _ => 0

end Seen

variable {seen : Seen}

omit [SchemaText] in
theorem descriptorValid_nodup {run : RetentionRun} (h : descriptorValid run = true) :
    run.attemptIds.Nodup ∧ run.worktreeAttemptIds.Nodup := by
  simp only [descriptorValid, Bool.and_eq_true, decide_eq_true_eq] at h
  exact ⟨h.1.2, h.2⟩

omit [SchemaText] in
theorem disjoint_of_heads {a b : List Path} {ds : List JsString} {d : JsString}
    (ha : ∀ p ∈ a, p.headD [] ∈ ds) (hb : ∀ q ∈ b, q.headD [] = d) (hd : d ∉ ds) :
    List.Disjoint a b := by
  intro p hpa hpb
  apply hd
  rw [← hb p hpb]
  exact ha p hpa

omit [SchemaText] in
theorem heads_append {a b : List Path} {ds : List JsString} {d : JsString}
    (ha : ∀ p ∈ a, p.headD [] ∈ ds) (hb : ∀ q ∈ b, q.headD [] = d) :
    ∀ p ∈ a ++ b, p.headD [] ∈ d :: ds := by
  intro p hp
  rcases List.mem_append.mp hp with hp | hp
  · exact List.mem_cons_of_mem _ (ha p hp)
  · rw [hb p hp]
    exact List.mem_cons_self

omit [SchemaText] in
theorem heads_map {α : Type} {l : List α} {d : JsString} {f : α → Path} {p : Path}
    (h : p ∈ l.map fun a => d :: f a) : p.headD [] = d := by
  obtain ⟨a, -, rfl⟩ := List.mem_map.mp h
  rfl

omit [SchemaText] in
theorem fixed_heads (run : RetentionRun) : ∀ p ∈ [[ofString "runs", run.runId],
    runRecordPath run.runId, [ofString "attempt-records", run.runId], leasePath run.runId],
      p.headD [] ∈
        [ofString "runs", ofString "run-records", ofString "attempt-records", ofString "leases"] := by
  intro p hp
  simp only [List.mem_cons, List.not_mem_nil, or_false] at hp
  rcases hp with rfl | rfl | rfl | rfl <;> simp [runRecordPath, leasePath]

omit [SchemaText] in
theorem linkedCandidates_inStore {run : RetentionRun} {operations : Listing} {p : Path}
    (h : p ∈ linkedCandidates run (operationPathsOf operations run.runId)) : InStore p :=
  heads_append (heads_append (heads_append (fixed_heads run) fun _ hq => heads_map hq)
    fun _ hq => heads_map hq) (fun _ hq => heads_map hq) p h

omit [SchemaText] in
/-- No candidate of a run is there twice: they are in different directories. -/
theorem linkedCandidates_nodup {run : RetentionRun} (h : descriptorValid run = true)
    (operations : Listing) :
    (linkedCandidates run (operationPathsOf operations run.runId)).Nodup := by
  obtain ⟨hattempts, hworktrees⟩ := descriptorValid_nodup h
  have hsessions : (run.attemptIds.map fun id => [ofString "sessions", id]).Nodup :=
    hattempts.map fun a b hab => (List.cons.inj (List.cons.inj hab).2).1
  have hrecords : (run.worktreeAttemptIds.map fun id =>
      [ofString "workspace", ofString "records", id ++ ofString ".json"]).Nodup :=
    hworktrees.map fun a b hab =>
      List.append_cancel_right (List.cons.inj (List.cons.inj (List.cons.inj hab).2).2).1
  have hoperations : (operationPathsOf operations run.runId).Nodup := by
    have hnames := (operations.nodup.of_map).filter fun o => decide (o.2 = run.runId)
    refine hnames.map_on fun a ha b hb hab => ?_
    have hname : a.1 = b.1 := (List.cons.inj (List.cons.inj hab).2).1
    exact List.inj_on_of_nodup_map operations.nodup (List.mem_of_mem_filter ha)
      (List.mem_of_mem_filter hb) hname
  have hfixed : [[ofString "runs", run.runId], runRecordPath run.runId,
      [ofString "attempt-records", run.runId], leasePath run.runId].Nodup := by
    have hheads : ([ofString "runs", ofString "run-records", ofString "attempt-records",
        ofString "leases"]).Nodup := by decide
    exact List.Nodup.of_map (fun p : Path => p.headD []) hheads
  rw [linkedCandidates]
  refine List.Nodup.append (List.Nodup.append (hfixed.append hsessions ?_) hrecords ?_)
    hoperations ?_
  · refine disjoint_of_heads (fixed_heads run) (d := ofString "sessions") ?_ (by decide)
    exact fun q hq => heads_map hq
  · refine disjoint_of_heads (heads_append (fixed_heads run) fun q hq => heads_map hq)
      (d := ofString "workspace") (fun q hq => heads_map hq) (by decide)
  · refine disjoint_of_heads (heads_append (heads_append (fixed_heads run) fun q hq => heads_map hq)
      fun q hq => heads_map hq) (d := ofString "operations") (fun q hq => heads_map hq) (by decide)

omit [SchemaText] in
/-- The paths that a removal moves are those that exist, and the lease. -/
theorem length_removal_paths {run : RetentionRun} (h : descriptorValid run = true)
    {operations : Listing} (ho : seen.operations = .ok operations) {paths : List Path}
    (hp : paths = seen.linkedPaths run (operationPathsOf operations run.runId)) :
    (if leasePath run.runId ∈ paths then paths else paths ++ [leasePath run.runId]).length =
      seen.pathCount run := by
  have hsplit : paths = ([[ofString "runs", run.runId], runRecordPath run.runId,
      [ofString "attempt-records", run.runId]].filter seen.pathExists) ++
      [leasePath run.runId].filter seen.pathExists ++
      (run.attemptIds.map (fun id => [ofString "sessions", id])).filter seen.pathExists ++
      (run.worktreeAttemptIds.map
        (fun id => [ofString "workspace", ofString "records", id ++ ofString ".json"])).filter
          seen.pathExists ++
      (operationPathsOf operations run.runId).filter seen.pathExists := by
    rw [hp, Seen.linkedPaths, eraseDups_of_nodup (linkedCandidates_nodup h operations)]
    simp only [← List.filter_append]
    rfl
  have hlease : leasePath run.runId ∈ paths ↔ seen.pathExists (leasePath run.runId) = true := by
    rw [hp, Seen.linkedPaths, eraseDups_of_nodup (linkedCandidates_nodup h operations),
      List.mem_filter]
    exact and_iff_right (by simp [linkedCandidates])
  have hlength : paths.length + (if seen.pathExists (leasePath run.runId) then 0 else 1) =
      seen.pathCount run := by
    rw [hsplit, Seen.pathCount, ho]
    simp only [List.length_append, List.filter_map, List.length_map, Function.comp_def,
      List.filter_singleton]
    cases seen.pathExists (leasePath run.runId) with
    | true => simp
    | false =>
      simp
      omega
  rw [← hlength]
  by_cases he : seen.pathExists (leasePath run.runId) = true
  · rw [if_pos (hlease.mpr he), if_pos he, Nat.add_zero]
  · rw [if_neg fun hm => he (hlease.mp hm), if_neg he, List.length_append, List.length_singleton]

/-! ## What a removal is called with -/

omit [SchemaText] in
theorem isIdentifier_iff {head s : JsString} : isIdentifier head s = true ↔
    ∃ t, s = head ++ t ∧ t ≠ [] ∧ ∀ u ∈ t, isIdUnit u = true := by
  rw [isIdentifier, Bool.and_eq_true, Bool.and_eq_true, List.isPrefixOf_iff_prefix,
    decide_eq_true_eq, List.all_eq_true]
  constructor
  · rintro ⟨⟨⟨t, rfl⟩, hlength⟩, hall⟩
    rw [List.drop_left] at hall
    refine ⟨t, rfl, ?_, hall⟩
    rintro rfl
    rw [List.append_nil] at hlength
    exact lt_irrefl _ hlength
  · rintro ⟨t, rfl, ht, hall⟩
    have hpos := List.length_pos_iff.mpr ht
    rw [List.drop_left, List.length_append]
    exact ⟨⟨List.prefix_append _ _, by omega⟩, hall⟩

omit [SchemaText] in
theorem isHandoffRef_handoffRefName {runId attemptId : JsString} (hr : isRunId runId = true)
    (ha : isAttemptId attemptId = true) :
    isHandoffRef (Worktree.handoffRefName runId attemptId) = true := by
  obtain ⟨t, rfl, ht, hunits⟩ := isIdentifier_iff.mp ((Bool.and_eq_true _ _).mp hr).1
  obtain ⟨u, rfl, hu, huunits⟩ := isIdentifier_iff.mp ((Bool.and_eq_true _ _).mp ha).1
  have hname : Worktree.handoffRefName (ofString "run_" ++ t) (ofString "attempt_" ++ u) =
      ofString "refs/pi-subagent/handoffs/run_" ++ (t ++ (ofString "/attempt_" ++ u)) := by
    simp only [Worktree.handoffRefName, List.append_assoc]
    rfl
  have htake : (t ++ (ofString "/attempt_" ++ u)).takeWhile isIdUnit = t := by
    rw [List.takeWhile_append_of_pos hunits]
    exact List.append_nil t
  have hdrop : (t ++ (ofString "/attempt_" ++ u)).dropWhile isIdUnit =
      ofString "/attempt_" ++ u := by
    rw [List.dropWhile_append_of_pos hunits]
    rfl
  rw [isHandoffRef, hname, List.drop_left, htake, hdrop, Bool.and_eq_true, Bool.and_eq_true]
  refine ⟨⟨List.isPrefixOf_iff_prefix.mpr (List.prefix_append _ _), ?_⟩,
    isIdentifier_iff.mpr ⟨u, rfl, hu, huunits⟩⟩
  rw [Bool.not_eq_true', List.isEmpty_eq_false_iff]
  exact ht

omit [SchemaText] in
theorem hasUnits_handoffRefName {runId attemptId : JsString} (hr : isRunId runId = true)
    (ha : isAttemptId attemptId = true) :
    hasUnits 0 1024 (Worktree.handoffRefName runId attemptId) = true := by
  have hrun := of_decide_eq_true ((Bool.and_eq_true _ _).mp hr).2
  have hattempt := of_decide_eq_true ((Bool.and_eq_true _ _).mp ha).2
  have hlength : (Worktree.handoffRefName runId attemptId).length =
      27 + runId.length + attemptId.length := by
    simp only [Worktree.handoffRefName, List.length_append]
    change 26 + _ + 1 + _ = _
    omega
  rw [hasUnits, decide_eq_true_eq]
  omega

theorem handoffRefTargetValid_toJson (t : HandoffRefTarget) :
    handoffRefTargetValid t.toJson = true ↔ isRunId t.runId = true ∧
      fits 1 4096 t.repositoryRoot = true ∧ isHandoffRef t.ref = true ∧
        hasUnits 0 1024 t.ref = true ∧ t.commit.all (isHex 40 64) = true := by
  cases hc : t.commit with
  | none =>
    simp [handoffRefTargetValid, HandoffRefTarget.toJson, hc, stringMember, and_assoc]
  | some c =>
    simp [handoffRefTargetValid, HandoffRefTarget.toJson, hc, stringMember, and_assoc]

theorem handoffRefTarget_valid {r : WorktreeData} (h : r.check = true) :
    handoffRefTargetValid (handoffRefTarget r).toJson = true := by
  simp only [WorktreeData.check, Bool.and_eq_true] at h
  obtain ⟨⟨⟨⟨⟨⟨⟨⟨⟨⟨⟨hrun, hattempt⟩, hroot⟩, -⟩, -⟩, -⟩, -⟩, -⟩, -⟩, hcommit⟩, href⟩, -⟩ := h
  refine (handoffRefTargetValid_toJson _).mpr ⟨hrun, hroot, ?_, ?_, hcommit⟩
  all_goals rw [handoffRefTarget]
  · cases hr : r.handoffRef with
    | none => exact isHandoffRef_handoffRefName hrun hattempt
    | some ref =>
      rw [hr] at href
      exact ((Bool.and_eq_true _ _).mp href).1
  · cases hr : r.handoffRef with
    | none => exact hasUnits_handoffRefName hrun hattempt
    | some ref =>
      rw [hr] at href
      exact ((Bool.and_eq_true _ _).mp href).2

theorem readWorktreeRecord_check {file : RecordFile} {r : WorktreeData}
    (h : readWorktreeRecord file = .ok r) : r.check = true := by
  cases file with
  | value r' =>
    rw [readWorktreeRecord] at h
    split at h
    · obtain rfl := Except.ok.inj h
      assumption
    · exact nomatch h
  | absent | unreadable | otherRevision => exact nomatch h

/-- The targets of a run are as a recovery wants them, one at most for each worktree. -/
theorem runHandoffRefs_valid {runId : JsString} {ids : List JsString}
    {targets : List HandoffRefTarget} (h : seen.runHandoffRefs runId ids = .ok targets) :
    targets.length ≤ ids.length ∧
      ∀ t ∈ targets, t.runId = runId ∧ handoffRefTargetValid t.toJson = true := by
  induction ids generalizing targets with
  | nil =>
    obtain rfl := Except.ok.inj h
    exact ⟨le_refl _, fun _ ht => absurd ht List.not_mem_nil⟩
  | cons id ids ih =>
    rw [Seen.runHandoffRefs] at h
    split at h
    · obtain ⟨hlength, hvalid⟩ := ih h
      exact ⟨hlength.trans (Nat.le_succ _), hvalid⟩
    · cases hread : readWorktreeRecord (seen.recordFile id) with
      | error e =>
        rw [hread] at h
        cases e <;> exact nomatch h
      | ok r =>
        rw [hread] at h
        dsimp only at h
        split at h
        · exact nomatch h
        · rename_i hrun
          cases hrest : seen.runHandoffRefs runId ids with
          | error e =>
            rw [hrest] at h
            exact nomatch h
          | ok rest =>
            rw [hrest] at h
            obtain rfl := Except.ok.inj h
            obtain ⟨hlength, hvalid⟩ := ih hrest
            refine ⟨Nat.succ_le_succ hlength, fun t ht => ?_⟩
            rcases List.mem_cons.mp ht with rfl | ht
            · exact ⟨not_not.mp hrun, handoffRefTarget_valid (readWorktreeRecord_check hread)⟩
            · exact hvalid t ht

theorem manifestValid_toJson (m : TrashManifest) :
    manifestValid m.toJson = true ↔ isRunId m.runId = true ∧
      (m.paths.length ≤ 128 ∧ ∀ p ∈ m.paths, safeTrashRelative (pathText p) = true) ∧
        m.handoffRefs.length ≤ 32 ∧
          ∀ t ∈ m.handoffRefs, t.runId = m.runId ∧ handoffRefTargetValid t.toJson = true := by
  have hrevision : (assertContractRevision m.toJson).isOk = true := by
    simp [assertContractRevision, TrashManifest.toJson, natural]
    rfl
  have hrun (t : HandoffRefTarget) : stringMember t.toJson "runId" = some t.runId := by
    simp [stringMember, HandoffRefTarget.toJson]
  have hschema : stringMember m.toJson "schema" = some (ofString "pi-subagent-retention-trash") := by
    simp [stringMember, TrashManifest.toJson, text]
  have hrunId : stringMember m.toJson "runId" = some m.runId := by
    simp [stringMember, TrashManifest.toJson]
  have hpaths : arrayMember m.toJson "paths" = some (m.paths.map fun p => .str (pathText p)) := by
    simp [arrayMember, TrashManifest.toJson]
  have hrefs : arrayMember m.toJson "handoffRefs" =
      some (m.handoffRefs.map HandoffRefTarget.toJson) := by
    simp [arrayMember, TrashManifest.toJson]
  rw [manifestValid, hrevision, hschema, hrunId, hpaths, hrefs]
  simp only [Option.any_some, List.length_map, List.all_map, Function.comp_def, hrun,
    Bool.and_eq_true, decide_eq_true_eq, List.all_eq_true, beq_self_eq_true, true_and,
    beq_iff_eq, Option.some.injEq, and_assoc]
  refine and_congr_right fun _ => and_congr_right fun _ => and_congr_right fun _ =>
    and_congr_right fun _ => ?_
  exact ⟨fun h t ht => (h t ht).symm, fun h t ht => (h t ht).symm⟩

theorem removal_ok {item : Item} {r : Removal} (h : seen.removal item = .ok (.ok r)) :
    r.run = item.run ∧
      r.paths = (if leasePath item.run.runId ∈ item.paths then item.paths
        else item.paths ++ [leasePath item.run.runId]) ∧
      seen.inspectedRefs item.run = .ok r.handoffRefs := by
  rw [Seen.removal] at h
  split at h
  · exact nomatch h
  · exact nomatch h
  · split at h
    · exact nomatch h
    · exact nomatch h
    · rename_i targets htargets
      obtain rfl := Except.ok.inj (Except.ok.inj h)
      exact ⟨rfl, rfl, htargets⟩

theorem mem_applyAll {move : Removal → Option RetentionError} {ordinary : List Item}
    {reports : List RunReport} {applied : Applied} {r : Removal}
    (h : r ∈ (seen.applyAll move ordinary reports applied).moves) :
    r ∈ applied.moves ∨ ∃ item ∈ ordinary, seen.removal item = .ok (.ok r) := by
  induction reports generalizing applied with
  | nil => exact Or.inl h
  | cons report reports ih =>
    rw [Seen.applyAll] at h
    cases hfind : ordinary.find? fun item => item.runId = report.run.runId with
    | none =>
      rw [hfind] at h
      exact Or.inl h
    | some item =>
      rw [hfind] at h
      dsimp only at h
      have hitem := List.mem_of_find?_eq_some hfind
      have hmoved {r' : Removal} (hremoval : seen.removal item = .ok (.ok r'))
          (hr : r ∈ applied.moves ++ [r']) :
          r ∈ applied.moves ∨ ∃ item ∈ ordinary, seen.removal item = .ok (.ok r) := by
        rcases List.mem_append.mp hr with hr | hr
        · exact Or.inl hr
        · obtain rfl := List.mem_singleton.mp hr
          exact Or.inr ⟨item, hitem, hremoval⟩
      cases hremoval : seen.removal item with
      | error e =>
        rw [hremoval] at h
        exact Or.inl h
      | ok outcome =>
        rw [hremoval] at h
        cases outcome with
        | error reason =>
          have hrest := ih h
          exact hrest
        | ok r' =>
          dsimp only at h
          cases hmove : move r' with
          | some e =>
            rw [hmove] at h
            exact hmoved hremoval h
          | none =>
            rw [hmove] at h
            rcases ih h with hr | hr
            · exact hmoved hremoval hr
            · exact Or.inr hr

omit [SchemaText] in
theorem checkRuns_valid {runs : List RetentionRun} {before : List JsString}
    (h : seen.checkRuns runs before = .ok ()) : ∀ run ∈ runs, descriptorValid run = true := by
  induction runs generalizing before with
  | nil => exact fun _ hr => absurd hr List.not_mem_nil
  | cons run runs ih =>
    rw [Seen.checkRuns] at h
    split at h
    · exact nomatch h
    · rename_i hvalid
      split at h
      · exact nomatch h
      · intro run' hr
        rcases List.mem_cons.mp hr with rfl | hr
        · by_contra hn
          apply hvalid
          rw [Bool.or_eq_true]
          exact Or.inl (by rw [Bool.eq_false_iff.mpr hn]; rfl)
        · exact ih h run' hr

omit [SchemaText] in
theorem bind_ok {ε α β : Type} {x : Except ε α} {f : α → Except ε β} {b : β}
    (h : (x >>= f) = .ok b) : ∃ a, x = .ok a ∧ f a = .ok b := by
  cases x with
  | error e => exact nomatch h
  | ok a => exact ⟨a, rfl, h⟩

omit [SchemaText] in
theorem mem_ordinary {pinned : List JsString} {assessed : List Item} {item : Item} :
    item ∈ seen.ordinary pinned assessed ↔ item ∈ assessed ∧ protectedReasons pinned item = [] := by
  rw [Seen.ordinary, List.mem_mergeSort, List.mem_filter, List.isEmpty_iff]

/-- A run that may go. -/
structure Eligible (pinned : List JsString) (item : Item) : Prop where
  notPinned : item.runId ∉ pinned
  notRetained : item.run.retainedWorktree = false
  terminal : isOrdinaryTerminal item.run.status = true
  timed : item.terminalTime ≠ none

omit [SchemaText] in
/-- The runs without a reason for protection are those that may go. -/
theorem protectedReasons_eq_nil {pinned : List JsString} {item : Item} :
    protectedReasons pinned item = [] ↔ Eligible pinned item := by
  simp only [protectedReasons, List.append_eq_nil_iff, ite_eq_right_iff, ite_eq_left_iff,
    List.cons_ne_nil, imp_false, Bool.not_eq_true, Option.isNone_eq_false_iff, Bool.not_eq_false]
  constructor
  · rintro ⟨⟨⟨hpinned, hretained⟩, hterminal⟩, htime⟩
    exact ⟨hpinned, hretained, hterminal, Option.isSome_iff_ne_none.mp htime⟩
  · rintro ⟨hpinned, hretained, hterminal, htime⟩
    exact ⟨⟨⟨hpinned, hretained⟩, hterminal⟩, Option.isSome_iff_ne_none.mpr htime⟩

omit [SchemaText] in
theorem assessed_ok {o : PruneOptions} {recovered pinned : List JsString} {now : ℤ}
    {assessed : List Item} (h : seen.assessed o = .ok (recovered, now, pinned, assessed)) :
    seen.recover o = .ok recovered ∧ Seen.clock o = .ok now ∧ seen.pins = .ok pinned ∧
      ∃ operations, seen.operations = .ok operations ∧
        assessed = (o.runs.filter fun run => run.runId ∉ recovered).map (seen.assess operations) ∧
        seen.checkRuns (o.runs.filter fun run => run.runId ∉ recovered) [] = .ok () := by
  rw [Seen.assessed] at h
  obtain ⟨_, _, h⟩ := bind_ok h
  obtain ⟨recovered', hrecovered, h⟩ := bind_ok h
  obtain ⟨_, hchecks, h⟩ := bind_ok h
  obtain ⟨now', hnow, h⟩ := bind_ok h
  obtain ⟨pinned', hpinned, h⟩ := bind_ok h
  obtain ⟨operations, hoperations, h⟩ := bind_ok h
  obtain ⟨⟩ := Except.ok.inj h
  exact ⟨hrecovered, hnow, hpinned, operations, hoperations, rfl, hchecks⟩

/-! ## Agreement -/

/-- A removal of a prune is of a run whose descriptor passed its check, with the run's paths. -/
theorem mem_prune {move : Removal → Option RetentionError} {o : PruneOptions} {r : Removal}
    (h : r ∈ (seen.prune move o).moves) : (r.run ∈ o.runs ∧ r.run.retainedWorktree = false) ∧
      ∃ operations, seen.operations = .ok operations ∧
        descriptorValid r.run = true ∧ seen.inspectedRefs r.run = .ok r.handoffRefs ∧
          ∃ paths, paths = seen.linkedPaths r.run (operationPathsOf operations r.run.runId) ∧
            r.paths = if leasePath r.run.runId ∈ paths then paths
              else paths ++ [leasePath r.run.runId] := by
  rw [Seen.prune] at h
  cases hs : seen.assessed o with
  | error e =>
    rw [hs] at h
    exact absurd h List.not_mem_nil
  | ok v =>
    obtain ⟨recovered, now, pinned, assessed⟩ := v
    obtain ⟨-, -, -, operations, ho, rfl, hchecks⟩ := assessed_ok hs
    rw [hs] at h
    dsimp only [Seen.pruneAssessed] at h
    split_ifs at h
    · exact absurd h List.not_mem_nil
    · obtain ⟨item, hitem, hremoval⟩ := (mem_applyAll h).resolve_left List.not_mem_nil
      obtain ⟨hmem, hreasons⟩ := mem_ordinary.mp hitem
      obtain ⟨run, hrun, rfl⟩ := List.mem_map.mp hmem
      have hretained : run.retainedWorktree = false :=
        (protectedReasons_eq_nil.mp hreasons).notRetained
      obtain ⟨hsame, hpaths, hrefs⟩ := removal_ok hremoval
      have hsame' : r.run = run := hsame
      subst hsame'
      exact ⟨⟨List.mem_of_mem_filter hrun, hretained⟩, operations, ho,
        checkRuns_valid hchecks r.run hrun, hrefs, _, rfl, hpaths⟩

theorem moves_of_aged (move : Removal → Option RetentionError) {o : PruneOptions} {item : Item}
    {recovered pinned : List JsString} {now : ℤ} {r : Removal} (hdry : o.dryRun = false)
    (hassessed : seen.assessed o = .ok (recovered, now, pinned, [item]))
    (hreasons : protectedReasons pinned item = []) (haged : item.aged now o.maxAgeMs = true)
    (hremoval : seen.removal item = .ok (.ok r)) : (seen.prune move o).moves = [r] := by
  have hordinary : seen.ordinary pinned [item] = [item] := by simp [Seen.ordinary, hreasons]
  have hmarked : markAged now o.maxAgeMs [item] = [(item.runId, ["age"])] := by
    rw [markAged, List.foldl_cons, if_pos haged]
    rfl
  obtain ⟨marks, hmarks, hkeys⟩ : ∃ marks, mark now o.maxAgeMs o.maxBytes [item] = marks ∧
      item.runId ∈ keys marks.selected := by
    refine ⟨_, rfl, ?_⟩
    have hmem : item.runId ∈ keys [(item.runId, ["age"])] := List.mem_singleton_self _
    rw [mark, hmarked, markBudget]
    split_ifs with hle
    · exact hmem
    · exact hmem
  have hselected : selectedReports marks [item] =
      [⟨item.run, item.bytes, (get item.runId marks.selected).getD []⟩] := by
    simp [selectedReports, hkeys]
  have hfind : [item].find? (fun i => i.runId = item.run.runId) = some item := by simp
  rw [Seen.prune, hassessed]
  dsimp only [Seen.pruneAssessed]
  rw [hordinary, hmarks, hselected, hdry, if_neg Bool.false_ne_true, Seen.applyAll]
  dsimp only
  rw [hfind]
  dsimp only
  rw [hremoval]
  dsimp only
  cases move r with
  | some e => rfl
  | none => rfl

omit [SchemaText] in
theorem mem_removal_paths (seen : Seen) (run : RetentionRun) (operations : Listing) {p : Path}
    (h : p ∈ seen.linkedPaths run (operationPathsOf operations run.runId) ++ [leasePath run.runId]) :
    InStore p := by
  rcases List.mem_append.mp h with h | h
  · exact linkedCandidates_inStore (List.mem_eraseDups.mp (List.mem_of_mem_filter h))
  · rw [List.mem_singleton.mp h]
    have hlease : leasePath run.runId ∈
        linkedCandidates run (operationPathsOf operations run.runId) := by simp [linkedCandidates]
    exact linkedCandidates_inStore hlease

omit [SchemaText] in
theorem mem_orderedPaths {r : Removal} {p : Path} : p ∈ r.orderedPaths ↔ p ∈ r.paths := by
  rw [Removal.orderedPaths, List.mem_append, List.mem_filter, List.mem_filter]
  by_cases hp : p = runRecordPath r.run.runId
  · simp [hp]
  · simp [hp]

omit [SchemaText] in
theorem length_orderedPaths (r : Removal) : r.orderedPaths.length = r.paths.length := by
  have hperm := List.filter_append_perm (fun p => decide (p ≠ runRecordPath r.run.runId)) r.paths
  rw [← hperm.length_eq, Removal.orderedPaths]
  simp only [List.length_append, decide_not, Bool.not_not]

omit [SchemaText] in
theorem mapM_ok {ε α β : Type} {f : α → Except ε β} {g : α → β} {l : List α}
    (h : ∀ a ∈ l, f a = .ok (g a)) : l.mapM f = .ok (l.map g) := by
  induction l with
  | nil => rfl
  | cons a l ih =>
    rw [List.mapM_cons, h a List.mem_cons_self, ih fun b hb => h b (List.mem_cons_of_mem _ hb)]
    rfl

theorem inspectedRefs_ok {run : RetentionRun} {targets : List HandoffRefTarget}
    (h : seen.inspectedRefs run = .ok targets) :
    seen.runHandoffRefs run.runId run.worktreeAttemptIds = .ok targets := by
  rw [Seen.inspectedRefs] at h
  cases htargets : seen.runHandoffRefs run.runId run.worktreeAttemptIds with
  | error e =>
    rw [htargets] at h
    exact nomatch h
  | ok targets' =>
    rw [htargets] at h
    dsimp only at h
    split at h
    · exact nomatch h
    · exact h

omit [SchemaText] in
theorem trashManifest_ok {r : Removal} (h : ∀ p ∈ r.paths, InStore p) (root : Path)
    (createdAt : JsString) :
    trashManifest root createdAt r = .ok
      ⟨r.run.runId, createdAt, runRecordPath r.run.runId, r.orderedPaths, r.handoffRefs⟩ := by
  have hcommit : InStore (runRecordPath r.run.runId) := by
    simp [InStore, runRecordPath]
  have hpaths := mapM_ok (f := fun p => relativeWithin root (root ++ p)) (g := id)
    (l := r.orderedPaths) fun p hp => (h p (mem_orderedPaths.mp hp)).relativeWithin root
  rw [List.map_id] at hpaths
  rw [trashManifest, hcommit.relativeWithin root, hpaths]
  rfl

/-- The manifest of a removal: its paths are those of the run, all of them safe, and its targets are
those of the run's worktrees. -/
theorem trashManifest_spec {move : Removal → Option RetentionError} {o : PruneOptions} {r : Removal}
    (h : r ∈ (seen.prune move o).moves) (root : Path) (createdAt : JsString) :
    ∃ m, trashManifest root createdAt r = .ok m ∧ isRunId m.runId = true ∧
      m.paths.length = seen.pathCount r.run ∧
      (∀ p ∈ m.paths, safeTrashRelative (pathText p) = true) ∧ m.handoffRefs.length ≤ 32 ∧
        ∀ t ∈ m.handoffRefs, t.runId = m.runId ∧ handoffRefTargetValid t.toJson = true := by
  obtain ⟨-, operations, ho, hvalid, hrefs, paths, hlinked, hpaths⟩ := mem_prune h
  have hin : ∀ p ∈ r.paths, InStore p := by
    intro p hp
    refine mem_removal_paths seen r.run operations ?_
    rw [← hlinked]
    rw [hpaths] at hp
    split at hp
    · exact List.mem_append_left _ hp
    · exact hp
  have hlength : r.orderedPaths.length = seen.pathCount r.run := by
    rw [length_orderedPaths, hpaths]
    exact length_removal_paths hvalid ho hlinked
  have hsafe : ∀ p ∈ r.orderedPaths, safeTrashRelative (pathText p) = true :=
    fun p hp => (hin p (mem_orderedPaths.mp hp)).safe
  simp only [descriptorValid, Bool.and_eq_true, decide_eq_true_eq] at hvalid
  obtain ⟨hcount, hall⟩ := runHandoffRefs_valid (inspectedRefs_ok hrefs)
  exact ⟨_, trashManifest_ok hin root createdAt, hvalid.1.1.1.1.1.1, hlength, hsafe,
    hcount.trans hvalid.1.1.2, hall⟩

/-- **A recovery accepts the manifest of a removal exactly when at most 128 paths of the run
exist**, its lease counted in any case. -/
theorem manifestValid_iff (seen : Seen) (move : Removal → Option RetentionError) (o : PruneOptions)
    (root : Path) (createdAt : JsString) (r : Removal) (h : r ∈ (seen.prune move o).moves) :
    ∃ m, trashManifest root createdAt r = .ok m ∧
      (manifestValid m.toJson = true ↔ seen.pathCount r.run ≤ 128) := by
  obtain ⟨m, hm, hrun, hlength, hsafe, hrefs⟩ := trashManifest_spec h root createdAt
  refine ⟨m, hm, ?_⟩
  rw [manifestValid_toJson, hlength]
  exact ⟨fun h => h.2.1.1, fun h => ⟨hrun, ⟨h, hsafe⟩, hrefs⟩⟩

omit [SchemaText] in
/-- What bounds the paths of a run: with at most 60 operation records a descriptor's bounds are
enough. -/
theorem pathCount_le (seen : Seen) (run : RetentionRun) :
    seen.pathCount run ≤ 4 + run.attemptIds.length + run.worktreeAttemptIds.length +
      match seen.operations with
      | .ok operations => (operationPathsOf operations run.runId).length
      | .error _ => 0 := by
  have hfixed := List.length_filter_le seen.pathExists [[ofString "runs", run.runId],
    runRecordPath run.runId, [ofString "attempt-records", run.runId]]
  have hsessions := List.length_filter_le
    (fun id => seen.pathExists [ofString "sessions", id]) run.attemptIds
  have hrecords := List.length_filter_le (fun id => seen.pathExists
    [ofString "workspace", ofString "records", id ++ ofString ".json"]) run.worktreeAttemptIds
  simp only [List.length_cons, List.length_nil] at hfixed
  rw [Seen.pathCount]
  cases seen.operations with
  | error e =>
    dsimp only
    omega
  | ok operations =>
    have hoperations := List.length_filter_le seen.pathExists
      (operationPathsOf operations run.runId)
    dsimp only
    omega

end

/-! ## Runs that were steered -/

section Steered

local instance steeredSchemaText : SchemaText := plainSchemaText

/-- A completed run of one attempt. -/
def steeredRun : RetentionRun where
  runId := ofString "run_a"
  status := .completed
  terminalAt := some (ofString "1970-01-01T00:00:00.000Z")
  attemptIds := [ofString "attempt_a"]
  worktreeAttemptIds := []
  retainedWorktree := false

/-- A name of an operation record. -/
def operationName (n : ℕ) : JsString :=
  List.replicate 61 48 ++ [n / 100, n / 10 % 10, n % 10].map (fun d => UInt16.ofNat (48 + d)) ++
    ofString ".json"

theorem operationName_inj {m n : ℕ} (hm : m < 1000) (hn : n < 1000)
    (h : operationName m = operationName n) : m = n := by
  have hdigits := List.append_cancel_left (List.append_cancel_right h)
  simp only [List.map_cons, List.map_nil, List.cons.injEq, and_true] at hdigits
  have hdigit {d e : ℕ} (hd : d < 10) (he : e < 10)
      (hde : UInt16.ofNat (48 + d) = UInt16.ofNat (48 + e)) : d = e := by
    have hnat := congrArg UInt16.toNat hde
    simp only [UInt16.toNat_ofNat'] at hnat
    omega
  have h1 := hdigit (by omega) (by omega) hdigits.1
  have h2 := hdigit (by omega) (by omega) hdigits.2.1
  have h3 := hdigit (by omega) (by omega) hdigits.2.2
  omega

/-- The operation record of the launch of `steeredRun`. -/
def launchOperations : Listing where
  entries := [(operationName 0, ofString "run_a")]
  nodup := List.nodup_singleton _

/-- The operation records of `steeredRun`, when it has been steered 123 times. -/
def steeredOperations : Listing where
  entries := (List.range 124).map fun n => (operationName n, ofString "run_a")
  nodup := by
    rw [List.map_map]
    refine List.nodup_range.map_on fun m hm n hn h => operationName_inj ?_ ?_ h
    · exact (List.mem_range.mp hm).trans (by omega)
    · exact (List.mem_range.mp hn).trans (by omega)

/-- A store in which all paths of `steeredRun` exist. -/
def steeredStore (operations : Listing) : Seen where
  pathExists _ := true
  recovered := .ok []
  pins := .ok []
  operations := .ok operations
  treeBytes _ := 0
  parseDate := dateParse
  localeCompare _ _ := .eq
  lease _ := .acquired
  recordFile _ := .absent
  inspectHandoffRef _ := none

/-- An applied prune of `steeredRun`, when it is old enough. -/
def pruneSteered : PruneOptions where
  runs := [steeredRun]
  dryRun := false
  now := some 2592000000
  maxAgeMs := 2592000000
  maxBytes := 2147483648

theorem prune_steered (operations : Listing) :
    ∃ r, ((steeredStore operations).prune (fun _ => none) pruneSteered).moves = [r] ∧
      r.run = steeredRun := by
  let item := (steeredStore operations).assess operations steeredRun
  have htime : item.terminalTime = some 0 := by
    change dateParse (ofString "1970-01-01T00:00:00.000Z") = some 0
    decide +kernel
  have hassessed : (steeredStore operations).assessed pruneSteered =
      .ok ([], 2592000000, [], [item]) := rfl
  have hreasons : protectedReasons [] item = [] :=
    protectedReasons_eq_nil.mpr ⟨List.not_mem_nil, rfl, rfl, by rw [htime]; exact nofun⟩
  have haged : item.aged 2592000000 2592000000 = true := by
    rw [Item.aged, htime]
    rfl
  exact ⟨_, moves_of_aged _ rfl hassessed hreasons haged rfl, rfl⟩

/-- The manifest of a run that was launched and not steered is accepted. -/
theorem manifestValid_launched : ∃ r m, trashManifest [] [] r = .ok m ∧
    r ∈ ((steeredStore launchOperations).prune (fun _ => none) pruneSteered).moves ∧
      manifestValid m.toJson = true := by
  obtain ⟨r, hmoves, hrun⟩ := prune_steered launchOperations
  have hmem : r ∈ ((steeredStore launchOperations).prune (fun _ => none) pruneSteered).moves := by
    rw [hmoves]
    exact List.mem_singleton_self r
  obtain ⟨m, hm, hiff⟩ :=
    manifestValid_iff (steeredStore launchOperations) _ pruneSteered [] [] r hmem
  refine ⟨r, m, hm, hmem, hiff.mpr ?_⟩
  rw [hrun]
  decide +kernel

/-- **The manifest of a run is refused** when it was steered often enough. -/
theorem manifest_refused :
    ¬ ∀ (seen : Seen) (move : Removal → Option RetentionError) (o : PruneOptions) (root : Path)
      (createdAt : JsString), ∀ r ∈ (seen.prune move o).moves, ∀ m,
        trashManifest root createdAt r = .ok m → manifestValid m.toJson = true := by
  intro h
  obtain ⟨r, hmoves, hrun⟩ := prune_steered steeredOperations
  have hmem : r ∈ ((steeredStore steeredOperations).prune (fun _ => none) pruneSteered).moves := by
    rw [hmoves]
    exact List.mem_singleton_self r
  obtain ⟨m, hm, -, hlength, -⟩ := trashManifest_spec hmem [] []
  have hvalid := (manifestValid_toJson m).mp
    (h (steeredStore steeredOperations) _ pruneSteered [] [] r hmem m hm)
  have hcount : (steeredStore steeredOperations).pathCount steeredRun = 129 := by decide +kernel
  rw [hrun, hcount] at hlength
  have := hvalid.2.1.1
  omega

end Steered

end Retention

end PiSubagent
