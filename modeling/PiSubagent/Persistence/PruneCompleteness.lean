import PiSubagent.Lib.OrderedMap
import PiSubagent.Lib.Runs
import PiSubagent.Persistence.Retention

/-!
# What a prune leaves of a run

The files that the service makes for its runs, and the refs in their repositories: which path each
has, when it is made, and which of them an applied prune moves. `runOf` is the run of an attempt.

* `Disk`, `Disk.step`: the store and the repositories; a launch, a retry, a release and so on as the
  single files and refs they make and delete, in the order in which the code makes them.
* `retentionRuns`, `Disk.prune`: the descriptors a prune is given, and the prune.
* `Disk.owner`, `NothingLeft`: the files and refs of a run.
* **`prune_complete`**: in every store the service can come to, a run that is reported as pruned has
  nothing left exactly when no snapshot of it is there and its attempt records name every worktree
  and session; and only paths of runs that a prune takes are moved.
* **`prune_leaves`**: a snapshot that a retry has reserved stays.
-/

namespace PiSubagent

open JsonText

namespace Retention

open OrderedMap Runs

section

variable [SchemaText]

/-! ## Paths of a run -/

/-- A file or directory that the service makes for a run. -/
inductive Loc where
  /-- The directory of a run, with its journal. -/
  | run (runId : JsString)
  | runRecord (runId : JsString)
  /-- The directory of the attempt records of a run. -/
  | attempts (runId : JsString)
  | lease (runId : JsString)
  | session (attemptId : JsString)
  | worktreeRecord (attemptId : JsString)
  | worktree (attemptId : JsString)
  | snapshotRecord (attemptId : JsString)
  | snapshot (attemptId : JsString)
  | operation (name : JsString)
deriving DecidableEq, Repr

namespace Loc

/-- The path of a file. -/
def path : Loc → Path
  | run id => [ofString "runs", id]
  | runRecord id => runRecordPath id
  | attempts id => [ofString "attempt-records", id]
  | lease id => leasePath id
  | session id => [ofString "sessions", id]
  | worktreeRecord id => [ofString "workspace", ofString "records", id ++ ofString ".json"]
  | worktree id => [ofString "workspace", ofString "worktrees", id]
  | snapshotRecord id =>
    [ofString "workspace", ofString "snapshots", ofString "records", id ++ ofString ".json"]
  | snapshot id => [ofString "workspace", ofString "snapshots", ofString "trees", id]
  | operation name => [ofString "operations", name]

/-- A name without its suffix. -/
def strip (suffix : String) (name : JsString) : Option JsString :=
  if (ofString suffix).isSuffixOf name then
    some (name.take (name.length - (ofString suffix).length))
  else none

/-- The file at a path. -/
def ofPath : Path → Option Loc
  | [d, name] =>
    if d = ofString "runs" then some (run name)
    else if d = ofString "run-records" then (strip ".json" name).map runRecord
    else if d = ofString "attempt-records" then some (attempts name)
    else if d = ofString "leases" then (strip ".lease.json" name).map lease
    else if d = ofString "sessions" then some (session name)
    else if d = ofString "operations" then some (operation name)
    else none
  | [_, d, name] =>
    if d = ofString "records" then (strip ".json" name).map worktreeRecord
    else some (worktree name)
  | [_, _, d, name] =>
    if d = ofString "records" then (strip ".json" name).map snapshotRecord
    else some (snapshot name)
  | _ => none

omit [SchemaText] in
theorem strip_append (suffix : String) (name : JsString) :
    strip suffix (name ++ ofString suffix) = some name := by
  have h : (ofString suffix).isSuffixOf (name ++ ofString suffix) = true :=
    List.isSuffixOf_iff_suffix.mpr (List.suffix_append _ _)
  rw [strip, if_pos h, List.length_append, Nat.add_sub_cancel, List.take_left]

omit [SchemaText] in
@[simp] theorem ofPath_path (l : Loc) : ofPath l.path = some l := by
  cases l with
  | run id => rfl
  | runRecord id =>
    change (strip ".json" _).map runRecord = _
    rw [strip_append]
    rfl
  | attempts id => rfl
  | lease id =>
    change (strip ".lease.json" _).map lease = _
    rw [strip_append]
    rfl
  | session id => rfl
  | worktreeRecord id =>
    change (strip ".json" _).map worktreeRecord = _
    rw [strip_append]
    rfl
  | worktree id => rfl
  | snapshotRecord id =>
    change (strip ".json" _).map snapshotRecord = _
    rw [strip_append]
    rfl
  | snapshot id => rfl
  | operation name => rfl

omit [SchemaText] in
@[simp] theorem path_inj {l m : Loc} : l.path = m.path ↔ l = m := by
  refine ⟨fun h => ?_, congrArg path⟩
  have hof := congrArg ofPath h
  rw [ofPath_path, ofPath_path] at hof
  exact Option.some.inj hof

end Loc

/-! ## The store -/

/-- `AttemptRecord`. -/
structure Attempt where
  attemptId : JsString
  worktreeAttemptId : Option JsString
deriving DecidableEq, Repr

/-- The store of a service and the repositories of its runs: which files exist, what those have that
are read, and which branches and hand-off refs of attempts exist. -/
structure Disk where
  has : Loc → Bool
  /-- The records in the directory of a run, where it exists. -/
  attempts : JsString → List Attempt
  /-- The operation records with their runs, where they exist. -/
  operations : List (JsString × JsString)
  nodup : (keys operations).Nodup
  /-- The worktree records, where they exist. -/
  records : JsString → RecordFile
  branches : JsString → Bool
  handoffs : JsString → Bool

namespace Disk

variable (s : Disk)

/-- `AttemptRecordStore.list`. -/
def attemptsOf (runId : JsString) : List Attempt :=
  if s.has (.attempts runId) then s.attempts runId else []

/-- The file of a worktree record. -/
def recordFile (attemptId : JsString) : RecordFile :=
  if s.has (.worktreeRecord attemptId) then s.records attemptId else .absent

/-- The operation records, as `readdir` lists them. -/
def listing : Listing where
  entries := s.operations.filter fun o => s.has (.operation o.1)
  nodup := s.nodup.sublist (List.filter_sublist.map _)

/-- `pathExists`. -/
def pathExists (p : Path) : Bool := (Loc.ofPath p).any s.has

/-- A file exists from now on, or no longer. -/
def put (l : Loc) (exist : Bool) : Disk := { s with has := Function.update s.has l exist }

/-- A worktree record has other contents. -/
def setRecord (attemptId : JsString) (file : RecordFile) : Disk :=
  { s with records := Function.update s.records attemptId file }

/-- The run that a file belongs to; `runOf` is the run of an attempt. -/
def owner (runOf : JsString → JsString) : Loc → Option JsString
  | .run id | .runRecord id | .attempts id | .lease id => some id
  | .session id | .worktreeRecord id | .worktree id | .snapshotRecord id | .snapshot id =>
    some (runOf id)
  | .operation name => get name s.operations

end Disk

/-! ## Descriptors -/

/-- What a prune takes from elsewhere. -/
structure PruneEnv where
  dryRun : Bool
  now : Option ℤ
  maxAgeMs : ℕ
  maxBytes : ℕ
  /-- The time of the terminal event of a run. -/
  terminalAt : JsString → Option JsString
  recovered : Except RetentionError (List JsString)
  pins : Except RetentionError (List JsString)
  treeBytes : List Path → ℕ
  parseDate : JsString → Option ℤ
  localeCompare : JsString → JsString → Ordering
  lease : JsString → LeaseOutcome
  inspectHandoffRef : HandoffRefTarget → Option RetentionError
  /-- A failure stops a move after this many refs and paths. -/
  stop : Removal → Option ℕ

namespace Disk

variable (s : Disk)

/-- `retainedWorktree`, for the worktrees that are left. -/
def retainedWorktree : List JsString → Except RetentionError Bool
  | [] => .ok false
  | id :: ids =>
    if s.recordFile id = .absent then .ok true
    else
      match readWorktreeRecord (s.recordFile id) with
      | .error e => .error e
      | .ok r => if r.releasedAt = none then .ok true else retainedWorktree ids

/-- The worktrees that the attempts name, each once. -/
def worktreesOf (runId : JsString) : List JsString :=
  ((s.attemptsOf runId).filterMap Attempt.worktreeAttemptId).eraseDups

/-- `retentionRuns`, for one run of the map. -/
def descriptor (env : PruneEnv) (run : JsString × RunStatus) : Except RetentionError RetentionRun :=
  match s.retainedWorktree ((s.attemptsOf run.1).filterMap Attempt.worktreeAttemptId) with
  | .error e => .error e
  | .ok retained => .ok
    { runId := run.1
      status := run.2
      terminalAt := env.terminalAt run.1
      attemptIds := (s.attemptsOf run.1).map Attempt.attemptId
      worktreeAttemptIds := s.worktreesOf run.1
      retainedWorktree := retained }

/-- `retentionRuns`. -/
def retentionRuns (env : PruneEnv) (map : List (JsString × RunStatus)) :
    Except RetentionError (List RetentionRun) := map.mapM (s.descriptor env)

/-! ## Prune -/

/-- What a prune reads of the store. -/
def seen (env : PruneEnv) : Seen where
  pathExists := s.pathExists
  recovered := env.recovered
  pins := env.pins
  operations := .ok s.listing
  treeBytes := env.treeBytes
  parseDate := env.parseDate
  localeCompare := env.localeCompare
  lease := env.lease
  recordFile := s.recordFile
  inspectHandoffRef := env.inspectHandoffRef

/-- The moves of a prune. -/
def removals (env : PruneEnv) (map : List (JsString × RunStatus)) : List Removal :=
  match s.retentionRuns env map with
  | .error _ => []
  | .ok runs =>
    ((s.seen env).prune (fun r => (env.stop r).map fun _ => .system)
      ⟨runs, env.dryRun, env.now, env.maxAgeMs, env.maxBytes⟩).moves

end Disk

/-- The hand-off refs a move removes. -/
def PruneEnv.removedRefs (env : PruneEnv) (r : Removal) : List HandoffRefTarget :=
  match env.stop r with
  | none => r.handoffRefs
  | some n => r.handoffRefs.take n

/-- The paths a move moves. -/
def PruneEnv.movedPaths (env : PruneEnv) (r : Removal) : List Path :=
  match env.stop r with
  | none => r.orderedPaths
  | some n => r.orderedPaths.take (n - r.handoffRefs.length)

/-- `moveRunToTrash`. -/
def Disk.moveRunToTrash (runOf : JsString → JsString) (env : PruneEnv) (s : Disk) (r : Removal) :
    Disk :=
  { s with
    has := fun l => s.has l && decide (l.path ∉ env.movedPaths r)
    handoffs := fun id => s.handoffs id &&
      !(env.removedRefs r).any fun t => t.ref = Worktree.handoffRefName (runOf id) id }

/-- `prune`: what is left of the store. -/
def Disk.prune (runOf : JsString → JsString) (env : PruneEnv) (map : List (JsString × RunStatus))
    (s : Disk) : Disk :=
  (s.removals env map).foldl (Disk.moveRunToTrash runOf env) s

/-- The runs that are reported as pruned. -/
def Disk.pruned (env : PruneEnv) (map : List (JsString × RunStatus)) (s : Disk) : List JsString :=
  ((s.removals env map).filter fun r => (env.stop r).isNone).map fun r => r.run.runId

/-! ## What the service does -/

/-- A step of the service on its store and the repositories. -/
inductive DiskAct where
  /-- `operationIndex.claim`. -/
  | claim (name runId : JsString)
  /-- The directory of a run is made. -/
  | openRun (runId : JsString)
  /-- `runRecords.create`. -/
  | recordRun (runId : JsString)
  /-- `acquireRunLease`; a release closes the port and leaves the file. -/
  | acquireLease (runId : JsString)
  /-- `createAttemptWorktree`, to the reservation. -/
  | reserveWorktree (attemptId : JsString)
  /-- `git worktree add -b` makes the branch. -/
  | addBranch (attemptId : JsString)
  /-- `git worktree add -b` makes the tree. -/
  | addWorktree (attemptId : JsString)
  /-- `createAttemptWorktree` writes the record. -/
  | recordWorktree (r : WorktreeData)
  /-- `createReadOnlySnapshot` or `removeReadOnlySnapshot` makes or deletes a record or a tree. -/
  | snapshot (attemptId : JsString) (tree exist : Bool)
  /-- `attemptRecords.create`. -/
  | recordAttempt (runId : JsString) (a : Attempt)
  /-- `runNativeAttempt` makes the directory of its session. -/
  | openSession (attemptId : JsString)
  /-- `captureWorktreeHandoff` pins the hand-off. -/
  | pinHandoff (attemptId : JsString)
  /-- `captureWorktreeHandoff` writes the record. -/
  | recordHandoff (attemptId commit : JsString)
  /-- `removeCleanWorktree`. -/
  | removeWorktree (attemptId : JsString)
  /-- `releaseWorktreeBranch` deletes the branch. -/
  | dropBranch (attemptId : JsString)
  /-- `releaseWorktreeBranch` writes the record. -/
  | recordRelease (attemptId releasedAt : JsString)
  /-- `prune`, with the runs in the memory of the seat. -/
  | prune (env : PruneEnv) (map : List (JsString × RunStatus))
  /-- `recoverTrashIntents` removes the refs and moves paths of a run whose move was interrupted. -/
  | recover (runId : JsString) (attemptIds names : List JsString) (ps : List Path)

namespace Disk

variable (runOf : JsString → JsString)

/-- A step, where it is taken; the conditions are what the code has done or checked before. -/
def step (s : Disk) : DiskAct → Option Disk
  | .claim name runId =>
    if s.has (.operation name) = false then
      some { s.put (.operation name) true with
        operations := set name runId s.operations
        nodup := nodup_keys_set name runId s.nodup }
    else none
  | .openRun runId => some (s.put (.run runId) true)
  | .recordRun runId => some (s.put (.runRecord runId) true)
  | .acquireLease runId => some (s.put (.lease runId) true)
  | .reserveWorktree id =>
    if s.recordFile id = .absent then
      some ((s.put (.worktreeRecord id) true).setRecord id .unreadable)
    else none
  | .addBranch id =>
    if s.recordFile id = .unreadable then
      some { s with branches := Function.update s.branches id true }
    else none
  | .addWorktree id =>
    if s.recordFile id = .unreadable then some (s.put (.worktree id) true) else none
  | .recordWorktree r =>
    if s.recordFile r.attemptId = .unreadable ∧ r.runId = runOf r.attemptId ∧ r.handoffRef = none ∧
        r.releasedAt = none then
      some (s.setRecord r.attemptId (.value r))
    else none
  | .snapshot id tree exist =>
    some (s.put (if tree then .snapshot id else .snapshotRecord id) exist)
  | .recordAttempt runId a =>
    if runOf a.attemptId = runId ∧ a.worktreeAttemptId.all (fun id => runOf id = runId) = true then
      some { s.put (.attempts runId) true with
        attempts := Function.update s.attempts runId (s.attemptsOf runId ++ [a]) }
    else none
  | .openSession id =>
    if id ∈ (s.attemptsOf (runOf id)).map Attempt.attemptId then
      some (s.put (.session id) true)
    else none
  | .pinHandoff id =>
    match s.recordFile id with
    | .value _ => some { s with handoffs := Function.update s.handoffs id true }
    | _ => none
  | .recordHandoff id commit =>
    match s.recordFile id with
    | .value r => some (s.setRecord id (.value { r with
        handoffCommit := some commit
        handoffRef := some (Worktree.handoffRefName r.runId r.attemptId) }))
    | _ => none
  | .removeWorktree id =>
    match s.recordFile id with
    | .value _ => some (s.put (.worktree id) false)
    | _ => none
  | .dropBranch id =>
    match s.recordFile id with
    | .value _ => some { s with branches := Function.update s.branches id false }
    | _ => none
  | .recordRelease id releasedAt =>
    match s.recordFile id with
    | .value r =>
      if s.has (.worktree id) = false ∧ s.branches id = false then
        some (s.setRecord id (.value { r with releasedAt := some releasedAt }))
      else none
    | _ => none
  | .prune env map => some (s.prune runOf env map)
  | .recover runId ids names ps =>
    -- The move was of a run without a retained worktree.
    if (ids.all fun id => runOf id = runId && !s.has (.worktree id) && !s.branches id) &&
        names.all fun name => get name s.operations = some runId then
      let run : RetentionRun := ⟨runId, .completed, none, ids, ids, false⟩
      let candidates := linkedCandidates run (names.map fun name => (Loc.operation name).path)
      some { s with
        has := fun l => s.has l && !(decide (l.path ∈ ps) && decide (l.path ∈ candidates))
        handoffs := fun id => s.handoffs id && decide (id ∉ ids) }
    else none

end Disk

/-! ## What the service keeps -/

section Sound

variable {runOf : JsString → JsString} {s t : Disk} {env : PruneEnv}
  {map : List (JsString × RunStatus)} {runId id : JsString} {r : Removal}

/-- What the service has written into the worktree record of an attempt. -/
structure RecordSound (runOf : JsString → JsString) (s : Disk) (id : JsString) (r : WorktreeData) :
    Prop where
  attempt : r.attemptId = id
  run : r.runId = runOf id
  handoff : ∀ ref, r.handoffRef = some ref → ref = Worktree.handoffRefName r.runId r.attemptId
  /-- The receipt is written once the worktree and the branch are gone. -/
  released : r.releasedAt ≠ none → s.has (.worktree id) = false ∧ s.branches id = false

/-- What holds of every store the service comes to. -/
structure Disk.Sound (runOf : JsString → JsString) (s : Disk) : Prop where
  /-- A worktree, a branch and a hand-off have a record. -/
  held : ∀ id, s.has (.worktree id) = true ∨ s.branches id = true ∨ s.handoffs id = true →
    s.has (.worktreeRecord id) = true
  record : ∀ id r, s.recordFile id = .value r → RecordSound runOf s id r
  attempts : ∀ runId, ∀ a ∈ s.attemptsOf runId, runOf a.attemptId = runId ∧
    ∀ id, a.worktreeAttemptId = some id → runOf id = runId

omit [SchemaText] in
@[simp] theorem has_put (l m : Loc) (b : Bool) :
    (s.put l b).has m = if m = l then b else s.has m := by
  simp [Disk.put, Function.update_apply]

omit [SchemaText] in
theorem recordFile_present (h : s.recordFile id ≠ .absent) : s.has (.worktreeRecord id) = true := by
  unfold Disk.recordFile at h
  by_contra hn
  rw [if_neg hn] at h
  exact h rfl

omit [SchemaText] in
/-- A step that leaves worktrees, their records and branches, hand-offs and attempt records alone. -/
theorem Disk.Sound.of_same (hs : s.Sound runOf)
    (hfiles : ∀ id, t.has (.worktree id) = s.has (.worktree id) ∧
      t.has (.worktreeRecord id) = s.has (.worktreeRecord id))
    (hrecords : t.records = s.records) (hbranches : t.branches = s.branches)
    (hhandoffs : t.handoffs = s.handoffs)
    (hattempts : ∀ runId, t.attemptsOf runId = s.attemptsOf runId) : t.Sound runOf := by
  have hfile (id : JsString) : t.recordFile id = s.recordFile id := by
    unfold Disk.recordFile
    rw [(hfiles id).2, hrecords]
  refine ⟨fun id h => ?_, fun id r h => ?_, fun runId a h => ?_⟩
  · rw [(hfiles id).1, hbranches, hhandoffs] at h
    rw [(hfiles id).2]
    exact hs.held id h
  · rw [hfile] at h
    obtain ⟨hattempt, hrun, hhandoff, hreleased⟩ := hs.record id r h
    refine ⟨hattempt, hrun, hhandoff, ?_⟩
    rw [(hfiles id).1, hbranches]
    exact hreleased
  · rw [hattempts] at h
    exact hs.attempts runId a h

omit [SchemaText] in
theorem Disk.Sound.setRecord (hs : s.Sound runOf) {file : RecordFile}
    (hfile : ∀ r, file = .value r → RecordSound runOf s id r) : (s.setRecord id file).Sound runOf := by
  refine ⟨hs.held, fun id' r h => ?_, hs.attempts⟩
  by_cases hid : id' = id
  · subst hid
    unfold Disk.recordFile Disk.setRecord at h
    split at h
    · dsimp only at h
      rw [Function.update_self] at h
      obtain ⟨hattempt, hrun, hhandoff, hreleased⟩ := hfile r h
      exact ⟨hattempt, hrun, hhandoff, hreleased⟩
    · exact nomatch h
  · have hold : s.recordFile id' = .value r := by
      unfold Disk.recordFile Disk.setRecord at h
      unfold Disk.recordFile
      dsimp only at h
      rw [Function.update_of_ne hid] at h
      exact h
    obtain ⟨hattempt, hrun, hhandoff, hreleased⟩ := hs.record id' r hold
    exact ⟨hattempt, hrun, hhandoff, hreleased⟩

omit [SchemaText] in
/-- Files, branches and hand-offs are lost; a worktree record only once nothing is left of its
worktree. -/
theorem Disk.Sound.of_less (hs : s.Sound runOf) (hhas : ∀ l, t.has l = true → s.has l = true)
    (hattempts : t.attempts = s.attempts) (hrecords : t.records = s.records)
    (hbranches : t.branches = s.branches)
    (hhandoffs : ∀ id, t.handoffs id = true → s.handoffs id = true)
    (hlost : ∀ id, s.has (.worktreeRecord id) = true → t.has (.worktreeRecord id) = false →
      s.has (.worktree id) = false ∧ s.branches id = false ∧ t.handoffs id = false) :
    t.Sound runOf := by
  refine ⟨fun id h => ?_, fun id r h => ?_, fun runId a h => ?_⟩
  · have hold : s.has (.worktreeRecord id) = true :=
      hs.held id (h.imp (hhas _) (Or.imp (fun hb => hbranches ▸ hb) (hhandoffs id)))
    by_contra hn
    obtain ⟨hworktree, hbranch, hhandoff⟩ := hlost id hold (Bool.eq_false_iff.mpr hn)
    rcases h with h | h | h
    · rw [hhas _ h] at hworktree
      exact nomatch hworktree
    · rw [hbranches, hbranch] at h
      exact nomatch h
    · rw [hhandoff] at h
      exact nomatch h
  · have hpresent : t.has (.worktreeRecord id) = true :=
      recordFile_present fun hn => nomatch hn.symm.trans h
    have hold : s.recordFile id = .value r := by
      rw [Disk.recordFile, if_pos hpresent, hrecords] at h
      rw [Disk.recordFile, if_pos (hhas _ hpresent)]
      exact h
    obtain ⟨hattempt, hrun, hhandoff, hreleased⟩ := hs.record id r hold
    refine ⟨hattempt, hrun, hhandoff, fun hr => ⟨?_, ?_⟩⟩
    · by_contra hn
      have hworktree := (hreleased hr).1
      rw [hhas _ (Bool.eq_true_of_not_eq_false hn)] at hworktree
      exact nomatch hworktree
    · rw [hbranches]
      exact (hreleased hr).2
  · unfold Disk.attemptsOf at h
    split at h
    · rename_i hdir
      apply hs.attempts runId a
      rw [Disk.attemptsOf, if_pos (hhas _ hdir), ← hattempts]
      exact h
    · exact absurd h List.not_mem_nil

/-! ## What a move takes -/

/-- The files of a run that a move takes. -/
inductive Taken (s : Disk) (runId : JsString) : Loc → Prop where
  | run : Taken s runId (.run runId)
  | runRecord : Taken s runId (.runRecord runId)
  | attempts : Taken s runId (.attempts runId)
  | lease : Taken s runId (.lease runId)
  | session {a : Attempt} (h : a ∈ s.attemptsOf runId) : Taken s runId (.session a.attemptId)
  | worktreeRecord {id : JsString} (h : id ∈ s.worktreesOf runId) :
      Taken s runId (.worktreeRecord id)
  | operation {name : JsString} (h : (name, runId) ∈ s.listing.entries) :
      Taken s runId (.operation name)

omit [SchemaText] in
theorem mem_linkedCandidates {run : RetentionRun} {l : Loc}
    (hattempts : run.attemptIds = (s.attemptsOf run.runId).map Attempt.attemptId)
    (hworktrees : run.worktreeAttemptIds = s.worktreesOf run.runId) :
    l.path ∈ linkedCandidates run (operationPathsOf s.listing run.runId) ↔ Taken s run.runId l := by
  unfold linkedCandidates operationPathsOf
  rw [hattempts, hworktrees]
  constructor
  · intro h
    rcases List.mem_append.mp h with h | h
    · rcases List.mem_append.mp h with h | h
      · rcases List.mem_append.mp h with h | h
        · simp only [List.mem_cons, List.not_mem_nil, or_false] at h
          rcases h with h | h | h | h
          · rw [show l = .run run.runId from Loc.path_inj.mp h]
            exact .run
          · rw [show l = .runRecord run.runId from Loc.path_inj.mp h]
            exact .runRecord
          · rw [show l = .attempts run.runId from Loc.path_inj.mp h]
            exact .attempts
          · rw [show l = .lease run.runId from Loc.path_inj.mp h]
            exact .lease
        · obtain ⟨id, hid, he⟩ := List.mem_map.mp h
          obtain ⟨a, ha, rfl⟩ := List.mem_map.mp hid
          rw [show l = .session a.attemptId from Loc.path_inj.mp he.symm]
          exact .session ha
      · obtain ⟨id, hid, he⟩ := List.mem_map.mp h
        rw [show l = .worktreeRecord id from Loc.path_inj.mp he.symm]
        exact .worktreeRecord hid
    · obtain ⟨e, he, hpath⟩ := List.mem_map.mp h
      obtain ⟨hmem, hrun⟩ := List.mem_filter.mp he
      rw [show l = .operation e.1 from Loc.path_inj.mp hpath.symm]
      refine .operation ?_
      rw [← of_decide_eq_true hrun]
      exact hmem
  · intro h
    cases h with
    | run => simp [Loc.path]
    | runRecord => simp [Loc.path]
    | attempts => simp [Loc.path]
    | lease => simp [Loc.path]
    | session h =>
      refine List.mem_append_left _ (List.mem_append_left _ (List.mem_append_right _ ?_))
      exact List.mem_map_of_mem (List.mem_map_of_mem h)
    | worktreeRecord h =>
      exact List.mem_append_left _ (List.mem_append_right _ (List.mem_map_of_mem h))
    | operation h =>
      refine List.mem_append_right _ (List.mem_map.mpr ⟨_, List.mem_filter.mpr ⟨h, ?_⟩, rfl⟩)
      exact decide_eq_true rfl

omit [SchemaText] in
theorem mem_of_mapM_ok {ε α β : Type} {f : α → Except ε β} {l : List α} {bs : List β}
    (h : l.mapM f = .ok bs) {b : β} (hb : b ∈ bs) : ∃ a ∈ l, f a = .ok b := by
  induction l generalizing bs with
  | nil =>
    obtain rfl := Except.ok.inj h
    exact absurd hb List.not_mem_nil
  | cons a l ih =>
    rw [List.mapM_cons] at h
    obtain ⟨b', hb', h⟩ := bind_ok h
    obtain ⟨bs', hbs', h⟩ := bind_ok h
    obtain rfl := Except.ok.inj h
    rcases List.mem_cons.mp hb with rfl | hb
    · exact ⟨a, List.mem_cons_self, hb'⟩
    · obtain ⟨a', ha', hfa⟩ := ih hbs' hb
      exact ⟨a', List.mem_cons_of_mem _ ha', hfa⟩

omit [SchemaText] in
theorem pathExists_path (s : Disk) (l : Loc) : s.pathExists l.path = s.has l := by
  rw [Disk.pathExists, Loc.ofPath_path]
  rfl

theorem retainedWorktree_false {ids : List JsString} (h : s.retainedWorktree ids = .ok false) :
    ∀ id ∈ ids, ∃ r, s.recordFile id = .value r ∧ r.releasedAt ≠ none := by
  induction ids with
  | nil => exact fun _ hid => absurd hid List.not_mem_nil
  | cons id ids ih =>
    rw [Disk.retainedWorktree] at h
    split at h
    · cases h
    · cases hread : readWorktreeRecord (s.recordFile id) with
      | error e =>
        rw [hread] at h
        cases h
      | ok r =>
        rw [hread] at h
        dsimp only at h
        split at h
        · cases h
        · rename_i hreleased
          have hfile : s.recordFile id = .value r := by
            cases hf : s.recordFile id with
            | value r' =>
              rw [hf, readWorktreeRecord] at hread
              split at hread
              · rw [Except.ok.inj hread]
              · cases hread
            | absent | unreadable | otherRevision =>
              rw [hf] at hread
              cases hread
          exact List.forall_mem_cons.mpr ⟨⟨r, hfile, hreleased⟩, ih h⟩

/-- The targets of a run are those of the records of its worktrees. -/
theorem mem_runHandoffRefs {seen : Seen} {ids : List JsString} {targets : List HandoffRefTarget}
    (h : seen.runHandoffRefs runId ids = .ok targets) {record : WorktreeData} (hid : id ∈ ids)
    (hfile : seen.recordFile id = .value record) : handoffRefTarget record ∈ targets := by
  induction ids generalizing targets with
  | nil => exact absurd hid List.not_mem_nil
  | cons id' ids ih =>
    rw [Seen.runHandoffRefs] at h
    split at h
    · rename_i habsent
      rcases List.mem_cons.mp hid with rfl | hid
      · rw [hfile] at habsent
        cases habsent
      · exact ih h hid
    · cases hread : readWorktreeRecord (seen.recordFile id') with
      | error e =>
        rw [hread] at h
        cases e <;> cases h
      | ok r =>
        rw [hread] at h
        dsimp only at h
        split at h
        · cases h
        · cases hrest : seen.runHandoffRefs runId ids with
          | error e =>
            rw [hrest] at h
            cases h
          | ok rest =>
            rw [hrest] at h
            obtain rfl := Except.ok.inj h
            rcases List.mem_cons.mp hid with rfl | hid
            · rw [hfile, readWorktreeRecord] at hread
              split at hread
              · rw [Except.ok.inj hread]
                exact List.mem_cons_self
              · cases hread
            · exact List.mem_cons_of_mem _ (ih hrest hid)

/-- What a move of a prune is about. -/
structure RemovalSpec (s : Disk) (r : Removal) : Prop where
  released : ∀ id ∈ s.worktreesOf r.run.runId,
    ∃ record, s.recordFile id = .value record ∧ record.releasedAt ≠ none ∧
      handoffRefTarget record ∈ r.handoffRefs
  paths : ∀ l, s.has l = true → (l.path ∈ r.orderedPaths ↔ Taken s r.run.runId l)

/-- **A move of a prune takes these files and refs.** -/
theorem removals_spec (h : r ∈ s.removals env map) : RemovalSpec s r := by
  unfold Disk.removals at h
  cases hruns : s.retentionRuns env map with
  | error e =>
    rw [hruns] at h
    exact absurd h List.not_mem_nil
  | ok runs =>
    rw [hruns] at h
    obtain ⟨⟨hmem, hretained⟩, operations, ho, _, hrefs, paths, hlinked, hpaths⟩ := mem_prune h
    obtain rfl := Except.ok.inj ho
    obtain ⟨run, -, hdescriptor⟩ := mem_of_mapM_ok hruns hmem
    unfold Disk.descriptor at hdescriptor
    cases hret : s.retainedWorktree
        ((s.attemptsOf run.1).filterMap Attempt.worktreeAttemptId) with
    | error e =>
      rw [hret] at hdescriptor
      exact nomatch hdescriptor
    | ok retained =>
      rw [hret] at hdescriptor
      have hrun := (Except.ok.inj hdescriptor).symm
      have hrunId : r.run.runId = run.1 := by rw [hrun]
      have hattempts : r.run.attemptIds = (s.attemptsOf r.run.runId).map Attempt.attemptId := by
        rw [hrun]
      have hworktrees : r.run.worktreeAttemptIds = s.worktreesOf r.run.runId := by rw [hrun]
      have hfalse : retained = false := by
        rw [hrun] at hretained
        exact hretained
      rw [hfalse] at hret
      refine ⟨fun id hid => ?_, fun l hl => ?_⟩
      · have hid' : id ∈ (s.attemptsOf run.1).filterMap Attempt.worktreeAttemptId := by
          rw [hrunId] at hid
          exact List.mem_eraseDups.mp hid
        obtain ⟨record, hfile, hreleased⟩ := retainedWorktree_false hret id hid'
        refine ⟨record, hfile, hreleased, ?_⟩
        rw [← hworktrees] at hid
        exact mem_runHandoffRefs (inspectedRefs_ok hrefs) hid hfile
      · have hlinkedPath : l.path ∈ paths ↔ Taken s r.run.runId l := by
          rw [hlinked, Seen.linkedPaths, List.mem_filter, List.mem_eraseDups]
          change (_ ∧ s.pathExists l.path = true) ↔ _
          rw [pathExists_path, hl, and_iff_left rfl]
          exact mem_linkedCandidates hattempts hworktrees
        rw [mem_orderedPaths, hpaths]
        split
        · exact hlinkedPath
        · rw [List.mem_append, List.mem_singleton, hlinkedPath]
          refine or_iff_left_of_imp fun hlease => ?_
          rw [show l = .lease r.run.runId from Loc.path_inj.mp hlease]
          exact .lease

/-! ## What a prune leaves -/

omit [SchemaText] in
theorem foldl_move (runOf : JsString → JsString) (env : PruneEnv) (rs : List Removal) (s : Disk) :
    (∀ l, (rs.foldl (Disk.moveRunToTrash runOf env) s).has l = true ↔
      s.has l = true ∧ ∀ r ∈ rs, l.path ∉ env.movedPaths r) ∧
    (∀ id, (rs.foldl (Disk.moveRunToTrash runOf env) s).handoffs id = true ↔
      s.handoffs id = true ∧ ∀ r ∈ rs, ∀ t ∈ env.removedRefs r,
        t.ref ≠ Worktree.handoffRefName (runOf id) id) ∧
    (rs.foldl (Disk.moveRunToTrash runOf env) s).attempts = s.attempts ∧
    (rs.foldl (Disk.moveRunToTrash runOf env) s).records = s.records ∧
    (rs.foldl (Disk.moveRunToTrash runOf env) s).branches = s.branches ∧
    (rs.foldl (Disk.moveRunToTrash runOf env) s).operations = s.operations := by
  induction rs generalizing s with
  | nil => simp
  | cons r rs ih =>
    obtain ⟨hhas, hhandoffs, hrest⟩ := ih (s.moveRunToTrash runOf env r)
    refine ⟨fun l => ?_, fun id => ?_, hrest⟩
    · rw [List.foldl_cons, hhas, List.forall_mem_cons]
      simp only [Disk.moveRunToTrash, Bool.and_eq_true, decide_eq_true_eq, and_assoc]
    · rw [List.foldl_cons, hhandoffs, List.forall_mem_cons]
      simp only [Disk.moveRunToTrash, Bool.and_eq_true, Bool.not_eq_true', List.any_eq_false,
        decide_eq_true_eq, ne_eq, and_assoc]

theorem prune_has {l : Loc} : (s.prune runOf env map).has l = true ↔
    s.has l = true ∧ ∀ r ∈ s.removals env map, l.path ∉ env.movedPaths r :=
  (foldl_move runOf env (s.removals env map) s).1 l

theorem prune_handoffs : (s.prune runOf env map).handoffs id = true ↔
    s.handoffs id = true ∧ ∀ r ∈ s.removals env map, ∀ t ∈ env.removedRefs r,
      t.ref ≠ Worktree.handoffRefName (runOf id) id :=
  (foldl_move runOf env (s.removals env map) s).2.1 id

omit [SchemaText] in
theorem mem_orderedPaths_of_moved {p : Path} (h : p ∈ env.movedPaths r) :
    p ∈ r.orderedPaths ∧ env.removedRefs r = r.handoffRefs := by
  unfold PruneEnv.movedPaths at h
  unfold PruneEnv.removedRefs
  cases hstop : env.stop r with
  | none =>
    rw [hstop] at h
    exact ⟨h, rfl⟩
  | some n =>
    rw [hstop] at h
    refine ⟨List.mem_of_mem_take h, List.take_of_length_le ?_⟩
    by_contra hn
    have hzero : n - r.handoffRefs.length = 0 := by omega
    dsimp only at h
    rw [hzero, List.take_zero] at h
    exact absurd h List.not_mem_nil

omit [SchemaText] in
/-- The target of a record that the service wrote is the hand-off ref of the attempt. -/
theorem RecordSound.ref {record : WorktreeData} (h : RecordSound runOf s id record) :
    (handoffRefTarget record).ref = Worktree.handoffRefName (runOf id) id := by
  rw [handoffRefTarget, ← h.run]
  cases hr : record.handoffRef with
  | none =>
    rw [Option.getD_none, h.attempt]
  | some ref =>
    rw [Option.getD_some, h.handoff ref hr, h.attempt]

/-- A file that a prune moves is one that a move takes, and its refs are gone. -/
theorem taken_of_lost {l : Loc} (hl : s.has l = true)
    (hlost : (s.prune runOf env map).has l = false) :
    ∃ r ∈ s.removals env map, Taken s r.run.runId l ∧ env.removedRefs r = r.handoffRefs := by
  have hn : ¬ ∀ r ∈ s.removals env map, l.path ∉ env.movedPaths r := by
    intro hall
    rw [prune_has.mpr ⟨hl, hall⟩] at hlost
    exact nomatch hlost
  push Not at hn
  obtain ⟨r, hr, hmoved⟩ := hn
  obtain ⟨hordered, hrefs⟩ := mem_orderedPaths_of_moved hmoved
  exact ⟨r, hr, ((removals_spec hr).paths l hl).mp hordered, hrefs⟩

theorem Disk.Sound.released (hs : s.Sound runOf) (hr : r ∈ s.removals env map)
    (hid : id ∈ s.worktreesOf r.run.runId) :
    s.has (.worktree id) = false ∧ s.branches id = false ∧
      ∃ t ∈ r.handoffRefs, t.ref = Worktree.handoffRefName (runOf id) id := by
  obtain ⟨record, hfile, hreleased, htarget⟩ := (removals_spec hr).released id hid
  have hsound := hs.record id record hfile
  exact ⟨(hsound.released hreleased).1, (hsound.released hreleased).2, _, htarget, hsound.ref⟩

theorem prune_sound (hs : s.Sound runOf) : (s.prune runOf env map).Sound runOf := by
  obtain ⟨-, -, hattempts, hrecords, hbranches, -⟩ := foldl_move runOf env (s.removals env map) s
  refine hs.of_less (fun l hl => (prune_has.mp hl).1) hattempts hrecords hbranches
    (fun id hid => (prune_handoffs.mp hid).1) fun id hold hlost => ?_
  obtain ⟨r, hr, htaken, hrefs⟩ := taken_of_lost hold hlost
  cases htaken with
  | worktreeRecord hid =>
    obtain ⟨hworktree, hbranch, t, ht, href⟩ := hs.released hr hid
    refine ⟨hworktree, hbranch, Bool.eq_false_iff.mpr fun h => ?_⟩
    exact (prune_handoffs.mp h).2 r hr t (hrefs ▸ ht) href

omit [SchemaText] in
theorem Disk.Sound.owner_taken (hs : s.Sound runOf) {l : Loc} (h : Taken s runId l) :
    s.owner runOf l = some runId := by
  cases h with
  | run => rfl
  | runRecord => rfl
  | attempts => rfl
  | lease => rfl
  | session h => exact congrArg some (hs.attempts runId _ h).1
  | worktreeRecord h =>
    obtain ⟨a, ha, hid⟩ := List.mem_filterMap.mp (List.mem_eraseDups.mp h)
    exact congrArg some ((hs.attempts runId a ha).2 _ hid)
  | operation h => exact get_of_mem s.nodup (List.mem_of_mem_filter h)

/-! ## Steps -/

/-- What is left in the memory of no one: the store of a service before its first run. -/
def Disk.start : Disk where
  has _ := false
  attempts _ := []
  operations := []
  nodup := List.nodup_nil
  records _ := .absent
  branches _ := false
  handoffs _ := false

omit [SchemaText] in
theorem start_sound : Disk.start.Sound runOf := by
  refine ⟨fun id h => ?_, fun id r h => ?_, fun runId a h => ?_⟩
  · rcases h with h | h | h <;> exact nomatch h
  · exact nomatch h
  · exact absurd h List.not_mem_nil

omit [SchemaText] in
theorem attemptsOf_put {l : Loc} {b : Bool} (h : ∀ runId, l ≠ .attempts runId) (runId : JsString) :
    (s.put l b).attemptsOf runId = s.attemptsOf runId := by
  unfold Disk.attemptsOf
  rw [has_put, if_neg (h runId).symm]
  rfl

omit [SchemaText] in
/-- A file that is neither a worktree, its record nor a directory of attempt records. -/
theorem Disk.Sound.put (hs : s.Sound runOf) {l : Loc} (b : Bool)
    (hworktree : ∀ id, l ≠ .worktree id) (hrecord : ∀ id, l ≠ .worktreeRecord id)
    (hattempts : ∀ runId, l ≠ .attempts runId) : (s.put l b).Sound runOf := by
  refine hs.of_same (fun id => ⟨?_, ?_⟩) rfl rfl rfl (attemptsOf_put hattempts)
  · rw [has_put, if_neg (hworktree id).symm]
  · rw [has_put, if_neg (hrecord id).symm]

omit [SchemaText] in
theorem recordFile_congr (hhas : t.has (.worktreeRecord id) = s.has (.worktreeRecord id))
    (hrecords : t.records id = s.records id) : t.recordFile id = s.recordFile id := by
  unfold Disk.recordFile
  rw [hhas, hrecords]

omit [SchemaText] in
theorem RecordSound.mono {record : WorktreeData} (h : RecordSound runOf s id record)
    (hhas : t.has (.worktree id) = s.has (.worktree id)) (hbranches : t.branches id = s.branches id) :
    RecordSound runOf t id record := by
  obtain ⟨hattempt, hrun, hhandoff, hreleased⟩ := h
  refine ⟨hattempt, hrun, hhandoff, fun hr => ?_⟩
  rw [hhas, hbranches]
  exact hreleased hr

omit [SchemaText] in
/-- The worktree records among the paths of a run are those of its worktrees. -/
theorem mem_of_linkedCandidates {ids names : List JsString}
    (h : (Loc.worktreeRecord id).path ∈ linkedCandidates ⟨runId, .completed, none, ids, ids, false⟩
      (names.map fun name => (Loc.operation name).path)) : id ∈ ids := by
  unfold linkedCandidates at h
  rcases List.mem_append.mp h with h | h
  · rcases List.mem_append.mp h with h | h
    · rcases List.mem_append.mp h with h | h
      · simp only [List.mem_cons, List.not_mem_nil, or_false] at h
        rcases h with h | h | h | h
        · cases (Loc.path_inj (m := .run runId)).mp h
        · cases (Loc.path_inj (m := .runRecord runId)).mp h
        · cases (Loc.path_inj (m := .attempts runId)).mp h
        · cases (Loc.path_inj (m := .lease runId)).mp h
      · obtain ⟨id', hid, he⟩ := List.mem_map.mp h
        cases (Loc.path_inj (l := .session id')).mp he
    · obtain ⟨id', hid, he⟩ := List.mem_map.mp h
      have hsame : Loc.worktreeRecord id' = .worktreeRecord id := Loc.path_inj.mp he
      exact Loc.worktreeRecord.inj hsame ▸ hid
  · obtain ⟨name, -, he⟩ := List.mem_map.mp h
    cases Loc.path_inj.mp he

/-- **Every step of the service keeps what it keeps.** -/
theorem step_sound {a : DiskAct} (hs : s.Sound runOf) (h : s.step runOf a = some t) :
    t.Sound runOf := by
  cases a with
  | claim name runId =>
    obtain ⟨-, ⟨⟩⟩ := Option.ite_none_right_eq_some.mp h
    have hput := hs.put (l := .operation name) true (fun _ => Loc.noConfusion)
      (fun _ => Loc.noConfusion) fun _ => Loc.noConfusion
    exact ⟨hput.held, fun id r hr => by
      obtain ⟨hattempt, hrun, hhandoff, hreleased⟩ := hput.record id r hr
      exact ⟨hattempt, hrun, hhandoff, hreleased⟩, hput.attempts⟩
  | openRun runId =>
    obtain rfl := Option.some.inj h
    exact hs.put true (fun _ => Loc.noConfusion) (fun _ => Loc.noConfusion)
      fun _ => Loc.noConfusion
  | recordRun runId =>
    obtain rfl := Option.some.inj h
    exact hs.put true (fun _ => Loc.noConfusion) (fun _ => Loc.noConfusion)
      fun _ => Loc.noConfusion
  | acquireLease runId =>
    obtain rfl := Option.some.inj h
    exact hs.put true (fun _ => Loc.noConfusion) (fun _ => Loc.noConfusion)
      fun _ => Loc.noConfusion
  | snapshot id tree exist =>
    obtain rfl := Option.some.inj h
    cases tree with
    | false =>
      exact hs.put exist (fun _ => Loc.noConfusion) (fun _ => Loc.noConfusion)
        fun _ => Loc.noConfusion
    | true =>
      exact hs.put exist (fun _ => Loc.noConfusion) (fun _ => Loc.noConfusion)
        fun _ => Loc.noConfusion
  | openSession id =>
    obtain ⟨-, ⟨⟩⟩ := Option.ite_none_right_eq_some.mp h
    exact hs.put true (fun _ => Loc.noConfusion) (fun _ => Loc.noConfusion)
      fun _ => Loc.noConfusion
  | reserveWorktree id =>
    obtain ⟨habsent, ⟨⟩⟩ := Option.ite_none_right_eq_some.mp h
    have hworktree (id' : JsString) :
        (s.put (.worktreeRecord id) true).has (.worktree id') = s.has (.worktree id') := by
      rw [has_put, if_neg (Loc.noConfusion : Loc.worktree id' ≠ .worktreeRecord id)]
    refine ⟨fun id' hheld => ?_, fun id' r hr => ?_, fun runId a ha => hs.attempts runId a ?_⟩
    · change (s.put (.worktreeRecord id) true).has (.worktreeRecord id') = true
      rw [has_put]
      split
      · rfl
      · exact hs.held id' (hheld.imp_left fun h => (hworktree id').symm.trans h)
    · have hid : id' ≠ id := by
        rintro rfl
        have hnew : (if (s.put (.worktreeRecord id') true).has (.worktreeRecord id') = true then
            Function.update s.records id' .unreadable id' else .absent) = .value r := hr
        rw [has_put, if_pos rfl, if_pos rfl, Function.update_self] at hnew
        exact nomatch hnew
      have hold : s.recordFile id' = .value r := by
        refine (recordFile_congr ?_ ?_).symm.trans hr
        · change (s.put (.worktreeRecord id) true).has (.worktreeRecord id') = _
          rw [has_put, if_neg fun he => hid (Loc.worktreeRecord.inj he)]
        · exact Function.update_of_ne hid _ _
      exact (hs.record id' r hold).mono (hworktree id') rfl
    · rw [← attemptsOf_put (l := .worktreeRecord id) (b := true) (fun _ => Loc.noConfusion) runId]
      exact ha
  | addBranch id =>
    obtain ⟨hreserved, ⟨⟩⟩ := Option.ite_none_right_eq_some.mp h
    refine ⟨fun id' hheld => ?_, fun id' r hr => ?_, hs.attempts⟩
    · by_cases hid : id' = id
      · rw [hid]
        exact recordFile_present fun hn => nomatch hreserved.symm.trans hn
      · refine hs.held id' (hheld.imp_right (Or.imp_left fun h => ?_))
        have h' : Function.update s.branches id true id' = true := h
        rw [Function.update_of_ne hid] at h'
        exact h'
    · have hold : s.recordFile id' = .value r := hr
      have hid : id' ≠ id := by
        rintro rfl
        exact nomatch hreserved.symm.trans hold
      exact (hs.record id' r hold).mono rfl (Function.update_of_ne hid _ _)
  | addWorktree id =>
    obtain ⟨hreserved, ⟨⟩⟩ := Option.ite_none_right_eq_some.mp h
    have hrecord (id' : JsString) :
        (s.put (.worktree id) true).has (.worktreeRecord id') = s.has (.worktreeRecord id') := by
      rw [has_put, if_neg (Loc.noConfusion : Loc.worktreeRecord id' ≠ .worktree id)]
    refine ⟨fun id' hheld => ?_, fun id' r hr => ?_, fun runId a ha => hs.attempts runId a ?_⟩
    · rw [hrecord]
      by_cases hid : id' = id
      · rw [hid]
        exact recordFile_present fun hn => nomatch hreserved.symm.trans hn
      · rw [has_put, if_neg fun he => hid (Loc.worktree.inj he)] at hheld
        exact hs.held id' hheld
    · have hold : s.recordFile id' = .value r := (recordFile_congr (hrecord id') rfl).symm.trans hr
      have hid : id' ≠ id := by
        rintro rfl
        exact nomatch hreserved.symm.trans hold
      refine (hs.record id' r hold).mono ?_ rfl
      rw [has_put, if_neg fun he => hid (Loc.worktree.inj he)]
    · rw [← attemptsOf_put (l := .worktree id) (b := true) (fun _ => Loc.noConfusion) runId]
      exact ha
  | recordWorktree record =>
    obtain ⟨⟨-, hrun, hhandoff, hreleased⟩, ⟨⟩⟩ := Option.ite_none_right_eq_some.mp h
    refine hs.setRecord fun r hr => ?_
    obtain rfl := RecordFile.value.inj hr
    refine ⟨rfl, hrun, fun ref href => ?_, fun hr => absurd hreleased hr⟩
    rw [hhandoff] at href
    exact nomatch href
  | recordAttempt runId a =>
    obtain ⟨⟨hattempt, hworktree⟩, ⟨⟩⟩ := Option.ite_none_right_eq_some.mp h
    have hput (l : Loc) (hl : l ≠ .attempts runId) :
        (s.put (.attempts runId) true).has l = s.has l := by
      rw [has_put, if_neg hl]
    refine ⟨fun id' hheld => ?_, fun id' r hr => ?_, fun runId' a' ha => ?_⟩
    · change (s.put (.attempts runId) true).has (.worktreeRecord id') = true
      rw [hput _ Loc.noConfusion]
      exact hs.held id' (hheld.imp_left fun h => (hput _ Loc.noConfusion).symm.trans h)
    · have hold : s.recordFile id' = .value r :=
        (recordFile_congr (hput _ Loc.noConfusion) rfl).symm.trans hr
      exact (hs.record id' r hold).mono (hput (.worktree id') Loc.noConfusion) rfl
    · have ha' : a' ∈ if (s.put (.attempts runId) true).has (.attempts runId') = true then
          Function.update s.attempts runId (s.attemptsOf runId ++ [a]) runId' else [] := ha
      by_cases hid : runId' = runId
      · subst hid
        rw [has_put, if_pos rfl, if_pos rfl, Function.update_self] at ha'
        rcases List.mem_append.mp ha' with ha' | ha'
        · exact hs.attempts _ a' ha'
        · rw [List.mem_singleton.mp ha']
          refine ⟨hattempt, fun id hid => ?_⟩
          rw [hid, Option.all_some, decide_eq_true_eq] at hworktree
          exact hworktree
      · rw [hput _ fun he => hid (Loc.attempts.inj he), Function.update_of_ne hid] at ha'
        exact hs.attempts runId' a' ha'
  | pinHandoff id =>
    rw [Disk.step] at h
    cases hfile : s.recordFile id with
    | value record =>
      rw [hfile] at h
      obtain rfl := Option.some.inj h
      refine ⟨fun id' hheld => ?_, fun id' r hr => ?_, hs.attempts⟩
      · by_cases hid : id' = id
        · rw [hid]
          exact recordFile_present fun hn => nomatch hfile.symm.trans hn
        · refine hs.held id' (hheld.imp_right (Or.imp_right fun h => ?_))
          have h' : Function.update s.handoffs id true id' = true := h
          rw [Function.update_of_ne hid] at h'
          exact h'
      · exact (hs.record id' r hr).mono rfl rfl
    | absent | unreadable | otherRevision =>
      rw [hfile] at h
      exact nomatch h
  | recordHandoff id commit =>
    rw [Disk.step] at h
    cases hfile : s.recordFile id with
    | value record =>
      rw [hfile] at h
      obtain rfl := Option.some.inj h
      obtain ⟨hid, hrun, hhandoff, hreleased⟩ := hs.record id record hfile
      refine hs.setRecord fun r hr => ?_
      obtain rfl := RecordFile.value.inj hr
      exact ⟨hid, hrun, fun ref href => (Option.some.inj href).symm, hreleased⟩
    | absent | unreadable | otherRevision =>
      rw [hfile] at h
      exact nomatch h
  | removeWorktree id =>
    rw [Disk.step] at h
    cases hfile : s.recordFile id with
    | value record =>
      rw [hfile] at h
      obtain rfl := Option.some.inj h
      refine hs.of_less (fun l hl => ?_) rfl rfl rfl (fun _ h => h) fun id' hold hlost => ?_
      · rw [has_put] at hl
        split at hl
        · exact nomatch hl
        · exact hl
      · rw [has_put, if_neg Loc.noConfusion, hold] at hlost
        exact nomatch hlost
    | absent | unreadable | otherRevision =>
      rw [hfile] at h
      exact nomatch h
  | dropBranch id =>
    rw [Disk.step] at h
    cases hfile : s.recordFile id with
    | value record =>
      rw [hfile] at h
      obtain rfl := Option.some.inj h
      have hless (id' : JsString) (h : Function.update s.branches id false id' = true) :
          s.branches id' = true := by
        by_cases hid : id' = id
        · rw [hid, Function.update_self] at h
          exact nomatch h
        · rw [Function.update_of_ne hid] at h
          exact h
      refine ⟨fun id' h => ?_, fun id' r h => ?_, hs.attempts⟩
      · exact hs.held id' (h.imp_right (Or.imp_left (hless id')))
      · obtain ⟨hid, hrun, hhandoff, hreleased⟩ := hs.record id' r h
        refine ⟨hid, hrun, hhandoff, fun hr => ⟨(hreleased hr).1, ?_⟩⟩
        refine Bool.eq_false_iff.mpr fun hb => ?_
        exact nomatch (hreleased hr).2.symm.trans (hless id' hb)
    | absent | unreadable | otherRevision =>
      rw [hfile] at h
      exact nomatch h
  | recordRelease id releasedAt =>
    rw [Disk.step] at h
    cases hfile : s.recordFile id with
    | value record =>
      rw [hfile] at h
      obtain ⟨⟨hworktree, hbranch⟩, ⟨⟩⟩ := Option.ite_none_right_eq_some.mp h
      obtain ⟨hid, hrun, hhandoff, -⟩ := hs.record id record hfile
      refine hs.setRecord fun r hr => ?_
      obtain rfl := RecordFile.value.inj hr
      exact ⟨hid, hrun, hhandoff, fun _ => ⟨hworktree, hbranch⟩⟩
    | absent | unreadable | otherRevision =>
      rw [hfile] at h
      exact nomatch h
  | prune env map =>
    obtain rfl := Option.some.inj h
    exact prune_sound hs
  | recover runId ids names ps =>
    obtain ⟨hguard, ⟨⟩⟩ := Option.ite_none_right_eq_some.mp h
    rw [Bool.and_eq_true, List.all_eq_true] at hguard
    refine hs.of_less (fun l hl => ((Bool.and_eq_true _ _).mp hl).1) rfl rfl rfl
      (fun _ h => ((Bool.and_eq_true _ _).mp h).1) fun id' hold hlost => ?_
    have hid : id' ∈ ids := by
      rcases Bool.and_eq_false_iff.mp hlost with hlost | hlost
      · rw [hold] at hlost
        exact nomatch hlost
      · rw [Bool.not_eq_false', Bool.and_eq_true, decide_eq_true_eq, decide_eq_true_eq] at hlost
        exact mem_of_linkedCandidates hlost.2
    have hgone := hguard.1 id' hid
    rw [Bool.and_eq_true, Bool.and_eq_true, Bool.not_eq_true', Bool.not_eq_true'] at hgone
    refine ⟨hgone.1.2, hgone.2, ?_⟩
    change (s.handoffs id' && decide (id' ∉ ids)) = false
    rw [decide_eq_false (not_not.mpr hid), Bool.and_false]

end Sound

/-! ## Prune completeness -/

/-- Of a run no file is left, nor a branch or a hand-off ref. -/
def NothingLeft (runOf : JsString → JsString) (s : Disk) (runId : JsString) : Prop :=
  (∀ l, s.owner runOf l = some runId → s.has l = false) ∧
    ∀ id, runOf id = runId → s.branches id = false ∧ s.handoffs id = false

/-- The attempt records of a run name its worktrees and sessions, and it has no snapshots. -/
structure Known (runOf : JsString → JsString) (s : Disk) (runId : JsString) : Prop where
  snapshots : ∀ id, runOf id = runId →
    s.has (.snapshotRecord id) = false ∧ s.has (.snapshot id) = false
  worktrees : ∀ id, runOf id = runId → s.has (.worktreeRecord id) = true →
    id ∈ s.worktreesOf runId
  sessions : ∀ id, runOf id = runId → s.has (.session id) = true →
    id ∈ (s.attemptsOf runId).map Attempt.attemptId

section Completeness

variable {runOf : JsString → JsString} {s : Disk} {env : PruneEnv}
  {map : List (JsString × RunStatus)} {runId : JsString}

/-- A prune leaves no file of a pruned run that its descriptor leads to. -/
theorem lost_of_taken {r : Removal} (hr : r ∈ s.removals env map) (hstop : env.stop r = none)
    {l : Loc} (h : Taken s r.run.runId l) : (s.prune runOf env map).has l = false := by
  refine Bool.eq_false_iff.mpr fun hleft => ?_
  obtain ⟨hl, hpaths⟩ := prune_has.mp hleft
  apply hpaths r hr
  rw [PruneEnv.movedPaths, hstop]
  exact ((removals_spec hr).paths l hl).mpr h

theorem mem_pruned : runId ∈ s.pruned env map ↔
    ∃ r ∈ s.removals env map, env.stop r = none ∧ r.run.runId = runId := by
  simp only [Disk.pruned, List.mem_map, List.mem_filter, Option.isNone_iff_eq_none, and_assoc]

/-- Of a file that a prune moves, the run is one that it was selected for. -/
theorem Disk.Sound.lost (hs : s.Sound runOf) {l : Loc} (hl : s.has l = true)
    (hlost : (s.prune runOf env map).has l = false) :
    ∃ r ∈ s.removals env map, Taken s r.run.runId l ∧ s.owner runOf l = some r.run.runId := by
  obtain ⟨r, hr, htaken, -⟩ := taken_of_lost hl hlost
  exact ⟨r, hr, htaken, hs.owner_taken htaken⟩

omit [SchemaText] in
/-- A file of a run whose attempt records name its worktrees and sessions is one that a move takes. -/
theorem Known.taken (h : Known runOf s runId) {l : Loc} (hl : s.has l = true)
    (howner : s.owner runOf l = some runId) :
    Taken s runId l ∨ ∃ id, l = .worktree id ∧ runOf id = runId := by
  cases l with
  | run id => exact .inl (Option.some.inj howner ▸ .run)
  | runRecord id => exact .inl (Option.some.inj howner ▸ .runRecord)
  | attempts id => exact .inl (Option.some.inj howner ▸ .attempts)
  | lease id => exact .inl (Option.some.inj howner ▸ .lease)
  | session id =>
    obtain ⟨a, ha, rfl⟩ := List.mem_map.mp (h.sessions id (Option.some.inj howner) hl)
    exact .inl (.session ha)
  | worktreeRecord id => exact .inl (.worktreeRecord (h.worktrees id (Option.some.inj howner) hl))
  | worktree id => exact .inr ⟨id, rfl, Option.some.inj howner⟩
  | snapshotRecord id =>
    rw [(h.snapshots id (Option.some.inj howner)).1] at hl
    exact nomatch hl
  | snapshot id =>
    rw [(h.snapshots id (Option.some.inj howner)).2] at hl
    exact nomatch hl
  | operation name =>
    exact .inl (.operation (List.mem_filter.mpr ⟨mem_of_get howner, hl⟩))

/-- A pruned run has nothing left when its attempt records say all. -/
theorem Disk.Sound.nothingLeft (hs : s.Sound runOf) (hpruned : runId ∈ s.pruned env map)
    (hknown : Known runOf s runId) : NothingLeft runOf (s.prune runOf env map) runId := by
  obtain ⟨r, hr, hstop, rfl⟩ := mem_pruned.mp hpruned
  have hreleased (id : JsString) (hid : runOf id = r.run.runId)
      (hrecord : s.has (.worktreeRecord id) = true) :=
    hs.released hr (hknown.worktrees id hid hrecord)
  refine ⟨fun l howner => ?_, fun id hid => ⟨?_, ?_⟩⟩
  · have howner' : s.owner runOf l = some r.run.runId := by
      rw [← howner]
      cases l with
      | operation name => exact congrArg (get name) (foldl_move runOf env _ s).2.2.2.2.2.symm
      | _ => rfl
    refine Bool.eq_false_iff.mpr fun hleft => ?_
    have hl := (prune_has.mp hleft).1
    rcases hknown.taken hl howner' with htaken | ⟨id, rfl, hid⟩
    · exact nomatch (lost_of_taken hr hstop htaken).symm.trans hleft
    · exact nomatch (hreleased id hid (hs.held id (.inl hl))).1.symm.trans hl
  · rw [Disk.prune, (foldl_move runOf env (s.removals env map) s).2.2.2.2.1]
    refine Bool.eq_false_iff.mpr fun hb => ?_
    exact nomatch (hreleased id hid (hs.held id (.inr (.inl hb)))).2.1.symm.trans hb
  · refine Bool.eq_false_iff.mpr fun hleft => ?_
    obtain ⟨hh, hrefs⟩ := prune_handoffs.mp hleft
    obtain ⟨-, -, t, ht, href⟩ := hreleased id hid (hs.held id (.inr (.inr hh)))
    refine hrefs r hr t ?_ href
    rw [PruneEnv.removedRefs, hstop]
    exact ht

/-- What a prune has taken, it has found through the attempt records. -/
theorem Disk.Sound.known (hs : s.Sound runOf)
    (hnothing : NothingLeft runOf (s.prune runOf env map) runId) : Known runOf s runId := by
  have htaken (l : Loc) (howner : (s.prune runOf env map).owner runOf l = some runId)
      (howner' : s.owner runOf l = some runId) (hl : s.has l = true) : Taken s runId l := by
    obtain ⟨r, -, htaken, hrun⟩ := hs.lost hl (hnothing.1 l howner)
    rw [howner'] at hrun
    exact Option.some.inj hrun ▸ htaken
  refine ⟨fun id hid => ⟨?_, ?_⟩, fun id hid hl => ?_, fun id hid hl => ?_⟩
  · refine Bool.eq_false_iff.mpr fun hl => ?_
    exact nomatch htaken (.snapshotRecord id) (congrArg some hid) (congrArg some hid) hl
  · refine Bool.eq_false_iff.mpr fun hl => ?_
    exact nomatch htaken (.snapshot id) (congrArg some hid) (congrArg some hid) hl
  · cases htaken (.worktreeRecord id) (congrArg some hid) (congrArg some hid) hl with
    | worktreeRecord h => exact h
  · cases htaken (.session id) (congrArg some hid) (congrArg some hid) hl with
    | session h => exact List.mem_map_of_mem h

end Completeness

/-- **Prune completeness.** In every store that the service comes to, whatever its launches, retries,
releases and failures, a run that a prune reports as pruned has nothing left exactly when it had no
snapshot and its attempt records name its worktrees and sessions; and what the prune has moved is of
the runs it was to prune. -/
theorem prune_complete (runOf : JsString → JsString) (acts : List DiskAct) (s : Disk)
    (h : exec (Disk.step runOf) .start acts = some s) (env : PruneEnv)
    (map : List (JsString × RunStatus)) :
    (∀ runId ∈ s.pruned env map,
      NothingLeft runOf (s.prune runOf env map) runId ↔ Known runOf s runId) ∧
    ∀ l, s.has l = true → (s.prune runOf env map).has l = false →
      ∃ r ∈ s.removals env map, s.owner runOf l = some r.run.runId := by
  have hs : s.Sound runOf :=
    exec_preserves (Disk.Sound runOf) (fun _ _ _ hs h => step_sound hs h) start_sound h
  refine ⟨fun runId hpruned => ⟨hs.known, hs.nothingLeft hpruned⟩, fun l hl hlost => ?_⟩
  obtain ⟨r, hr, -, howner⟩ := hs.lost hl hlost
  exact ⟨r, hr, howner⟩

end

section Retried

local instance retriedSchemaText : SchemaText := plainSchemaText

/-- The run of the attempts below. -/
def retriedRun : JsString := ofString "run_a"

/-- An attempt of a run. -/
def firstAttempt : JsString := ofString "attempt_b"

/-- The attempt of a retry. -/
def secondAttempt : JsString := ofString "attempt_c"

/-- Whose these attempts are. -/
def attemptRun (id : JsString) : JsString :=
  if id = firstAttempt ∨ id = secondAttempt then retriedRun else []

theorem attemptRun_eq {id : JsString} (h : attemptRun id = retriedRun) :
    id = firstAttempt ∨ id = secondAttempt := by
  by_contra hn
  rw [attemptRun, if_neg hn] at h
  exact nomatch h

/-- A launch of a run that reads a snapshot; its first attempt fails. -/
def launchReading : List DiskAct :=
  [.claim (ofString "launch.json") retriedRun, .openRun retriedRun, .acquireLease retriedRun,
    .recordRun retriedRun, .snapshot firstAttempt false true, .snapshot firstAttempt true true,
    .recordAttempt retriedRun ⟨firstAttempt, none⟩, .openSession firstAttempt,
    .snapshot firstAttempt true false, .snapshot firstAttempt false false]

/-- A retry that fails when its snapshot has been reserved. -/
def retryFailing : List DiskAct :=
  [.claim (ofString "retry.json") retriedRun, .acquireLease retriedRun,
    .snapshot secondAttempt false true]

/-- A prune of all runs that ended long ago. -/
def pruneAll : PruneEnv where
  dryRun := false
  now := some 2592000000
  maxAgeMs := 2592000000
  maxBytes := 2147483648
  terminalAt _ := some (ofString "1970-01-01T00:00:00.000Z")
  recovered := .ok []
  pins := .ok []
  treeBytes _ := 0
  parseDate := dateParse
  localeCompare _ _ := .eq
  lease _ := .acquired
  inspectHandoffRef _ := none
  stop _ := none

/-- A store of the service with one run and one attempt without a worktree; the run is pruned. -/
theorem pruned_retriedRun {s : Disk}
    (hattempts : s.attemptsOf retriedRun = [⟨firstAttempt, none⟩])
    (hrecord : s.has (.runRecord retriedRun) = true) :
    retriedRun ∈ s.pruned pruneAll [(retriedRun, .failed)] := by
  let run : RetentionRun := ⟨retriedRun, .failed, some (ofString "1970-01-01T00:00:00.000Z"),
    [firstAttempt], [], false⟩
  have hworktrees : s.worktreesOf retriedRun = [] := by
    rw [Disk.worktreesOf, hattempts]
    rfl
  have hruns : s.retentionRuns pruneAll [(retriedRun, .failed)] = .ok [run] := by
    rw [Disk.retentionRuns, List.mapM_cons, List.mapM_nil, Disk.descriptor, hworktrees, hattempts]
    rfl
  let item := (s.seen pruneAll).assess s.listing run
  have htime : item.terminalTime = some 0 := by
    change dateParse (ofString "1970-01-01T00:00:00.000Z") = some 0
    decide +kernel
  have hchecked : (s.seen pruneAll).checkRuns [run] [] = .ok () := by
    have hvalid : descriptorValid run = true := by decide +kernel
    have hexists : (s.seen pruneAll).pathExists (runRecordPath run.runId) = true :=
      (pathExists_path s (.runRecord retriedRun)).trans hrecord
    rw [Seen.checkRuns, hvalid, hexists]
    rfl
  have hassessed : (s.seen pruneAll).assessed
        ⟨[run], false, pruneAll.now, pruneAll.maxAgeMs, pruneAll.maxBytes⟩ =
      .ok ([], 2592000000, [], [item]) := by
    change ((s.seen pruneAll).checkRuns [run] [] >>= fun _ => _) = _
    rw [hchecked]
    rfl
  have hreasons : protectedReasons [] item = [] := by
    refine protectedReasons_eq_nil.mpr ⟨List.not_mem_nil, rfl, rfl, ?_⟩
    rw [htime]
    exact Option.some_ne_none 0
  have haged : item.aged 2592000000 2592000000 = true := by
    rw [Item.aged, htime]
    rfl
  refine mem_pruned.mpr ⟨⟨run, if leasePath run.runId ∈ item.paths then item.paths
      else item.paths ++ [leasePath run.runId], []⟩, ?_, rfl, rfl⟩
  have hmoves := moves_of_aged (fun r => (pruneAll.stop r).map fun _ => .system) rfl hassessed
    hreasons haged rfl
  rw [Disk.removals, hruns]
  change _ ∈ ((s.seen pruneAll).prune _
    ⟨[run], false, pruneAll.now, pruneAll.maxAgeMs, pruneAll.maxBytes⟩).moves
  rw [hmoves]
  exact List.mem_singleton_self _

/-- Of the failed run nothing is left. -/
theorem prune_complete_launch : ∃ s, exec (Disk.step attemptRun) .start launchReading = some s ∧
    retriedRun ∈ s.pruned pruneAll [(retriedRun, .failed)] ∧
    NothingLeft attemptRun (s.prune attemptRun pruneAll [(retriedRun, .failed)]) retriedRun := by
  have hrun : (exec (Disk.step attemptRun) .start launchReading).any (fun s =>
      decide (s.attemptsOf retriedRun = [⟨firstAttempt, none⟩]) && s.has (.runRecord retriedRun) &&
      [firstAttempt, secondAttempt].all fun id => !s.has (.snapshotRecord id) &&
        !s.has (.snapshot id) && !s.has (.worktreeRecord id) &&
        (!s.has (.session id) || id = firstAttempt)) = true := by decide +kernel
  obtain ⟨s, hexec, hs⟩ := (Option.any_eq_true _ _).mp hrun
  rw [Bool.and_eq_true, Bool.and_eq_true, decide_eq_true_eq, List.all_eq_true] at hs
  obtain ⟨⟨hattempts, hrecord⟩, hfiles⟩ := hs
  have hfile (id : JsString) (hid : attemptRun id = retriedRun) := by
    have hmem : id ∈ [firstAttempt, secondAttempt] := by simpa using attemptRun_eq hid
    have := hfiles id hmem
    simpa only [Bool.and_eq_true, Bool.not_eq_true', Bool.or_eq_true, decide_eq_true_eq] using this
  have hpruned := pruned_retriedRun hattempts hrecord
  refine ⟨s, hexec, hpruned, ?_⟩
  refine ((prune_complete attemptRun launchReading s hexec pruneAll _).1 retriedRun hpruned).mpr
    ⟨fun id hid => ?_, fun id hid hl => ?_, fun id hid hl => ?_⟩
  · exact ⟨(hfile id hid).1.1.1, (hfile id hid).1.1.2⟩
  · exact nomatch (hfile id hid).1.2.symm.trans hl
  · rcases (hfile id hid).2 with h | rfl
    · exact nomatch h.symm.trans hl
    · rw [hattempts]
      exact List.mem_cons_self

/-- **A snapshot that a retry has reserved stays** when its run is pruned. -/
theorem prune_leaves : ¬ ∀ (runOf : JsString → JsString) (acts : List DiskAct) (s : Disk),
    exec (Disk.step runOf) .start acts = some s → ∀ (env : PruneEnv)
      (map : List (JsString × RunStatus)), ∀ runId ∈ s.pruned env map,
        NothingLeft runOf (s.prune runOf env map) runId := by
  intro h
  have hrun : (exec (Disk.step attemptRun) .start (launchReading ++ retryFailing)).any (fun s =>
      decide (s.attemptsOf retriedRun = [⟨firstAttempt, none⟩]) && s.has (.runRecord retriedRun) &&
        s.has (.snapshotRecord secondAttempt)) = true := by decide +kernel
  obtain ⟨s, hexec, hs⟩ := (Option.any_eq_true _ _).mp hrun
  rw [Bool.and_eq_true, Bool.and_eq_true, decide_eq_true_eq] at hs
  obtain ⟨⟨hattempts, hrecord⟩, hsnapshot⟩ := hs
  have hsound : s.Sound attemptRun :=
    exec_preserves (Disk.Sound attemptRun) (fun _ _ _ hs h => step_sound hs h) start_sound hexec
  have hknown := hsound.known (h attemptRun _ s hexec pruneAll [(retriedRun, .failed)] retriedRun
    (pruned_retriedRun hattempts hrecord))
  have hgone := (hknown.snapshots secondAttempt rfl).1
  exact nomatch hgone.symm.trans hsnapshot

end Retried

end Retention

end PiSubagent
