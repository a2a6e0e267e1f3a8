import PiSubagent.Lib.Cuts
import PiSubagent.Lib.Runs
import PiSubagent.Service.RunFiles

/-!
# The life of a run

One run, the seats that know of it, and its files, step by step. An operation under the run's lease
is the list of its effects on files and memory, in the source's order; a fault (the operation
throws) or a crash (the seat dies next) may cut the list short after any of them. What the outside
decides comes with the steps. A retry or resume is one step here, from its reading of the run to its
writes; `LateState` takes the two apart.

* `ActiveRun`, `Flight`: what a seat remembers of the run and how far its attempt is.
* `Effect`, `RunState.perform`: the writes.
* `launchEffects`, `retryEffects`, `resumeEffects`, `reconcileEffects`, `releaseEffects`,
  `abandonEffects`, `openEffects`: the operations.
* `RunState.step`: any step of any seat.
-/

namespace PiSubagent

open JsonText

namespace RunLife

/-! ## Memory -/

/-- How far the promise of an attempt is. -/
inductive Flight where
  | settled
  /-- `executeAttempt` runs; whether it has appended `attempt-starting`. -/
  | running (begun : Bool)
  /-- It has returned and its settlement is due. -/
  | ended (execution : AttemptExecutionResult)
  /-- It has thrown and the handler is due. -/
  | rejected

/-- `ActiveRun`. -/
structure ActiveRun where
  plan : Plan
  status : RunStatus
  result : Option AttemptExecutionResult
  flight : Flight
  /-- The signal of the attempt is aborted, and whether by a seat shutdown. -/
  aborted : Option Bool

/-- The run at its start. -/
def ActiveRun.start (plan : Plan) : ActiveRun := ⟨plan, .active, none, .running false, none⟩

/-- A run that is remembered with its result. -/
def ActiveRun.settle (run : ActiveRun) (execution : AttemptExecutionResult) : ActiveRun :=
  { run with status := execution.result.status, result := some execution, flight := .settled }

/-- The files of a run, what the seats remember of it, who has its lease, and the attempts handed to
the executor so far. -/
structure RunState where
  files : RunFiles
  seats : ℕ → Option ActiveRun
  lease : Option ℕ
  executed : List JsString

/-! ## Effects -/

/-- A write of an operation. -/
inductive Effect where
  | createRunRecord
  | append (e : RunEvent)
  | writeSnapshot (execution : AttemptExecutionResult)
  | reserveWorktree (attemptId : JsString)
  | reserveSnapshot (attemptId : JsString)
  | removeSnapshot (attemptId : JsString)
  | removeSnapshots
  | createAttempt (record : AttemptRecord)
  /-- The run as the seat remembers it from here on. -/
  | remember (run : ActiveRun)
  /-- `executeAttempt`; the seat keeps the lease. -/
  | execute (run : ActiveRun)
  /-- `settleHeldLease`. -/
  | settleLease

/-- The files after a write. -/
def RunFiles.perform (f : RunFiles) : Effect → RunFiles
  | .createRunRecord => { f with recorded := true }
  | .append e => { f with events := f.events ++ [e] }
  | .writeSnapshot execution => { f with snapshot := some ⟨f.events.length, execution⟩ }
  | .reserveWorktree id => { f with worktrees := f.worktrees ++ [id] }
  | .reserveSnapshot id => { f with snapshots := f.snapshots ++ [id] }
  | .removeSnapshot id => { f with snapshots := f.snapshots.filter (· ≠ id) }
  | .removeSnapshots => { f with snapshots := [] }
  | .createAttempt record => { f with attempts := f.attempts ++ [record] }
  | _ => f

namespace RunState

variable (s : RunState)

/-- A seat remembers the run otherwise. -/
def setSeat (seat : ℕ) (run : Option ActiveRun) : RunState :=
  { s with seats := fun n => if n = seat then run else s.seats n }

/-- A write of a seat. -/
def perform (seat : ℕ) (s : RunState) : Effect → RunState
  | .remember run => s.setSeat seat (some run)
  | .execute run =>
    { s.setSeat seat (some run) with
      lease := some seat, executed := s.executed ++ [run.plan.attemptId] }
  | .settleLease =>
    if s.lease = some seat ∧
        (s.seats seat).all (fun run => decide (run.status ≠ .cleanupBlocked)) = true then
      { s with lease := none }
    else s
  | e => { s with files := s.files.perform e }

/-- The seat can have the lease for an operation, its own or a new one: `holdRunLease`. -/
def canHold (seat : ℕ) : Bool := s.lease = none ∨ s.lease = some seat

end RunState

/-! ## Starting an attempt -/

/-- What `startAttempt` is called with. -/
structure StartInput where
  plan : Plan
  kind : AttemptKind
  ordinal : ℕ
  parentAttemptId : Option JsString
  expectedPriorStatus : Option RunStatus
  existingWorktree : Option JsString
  /-- The attempt continues from a hand-off. -/
  continuing : Bool

/-- The checkout of an attempt: its effects and `worktreeAttemptId`; `none` when it is reserved. -/
def checkoutEffects (f : RunFiles) (i : StartInput) : Option (List Effect × Option JsString) :=
  match i.plan.mode, i.plan.startAt, i.existingWorktree with
  | .worktree, _, some id => some ([], some id)
  | .worktree, _, none =>
    if i.plan.attemptId ∈ f.worktrees then none
    else some ([.reserveWorktree i.plan.attemptId], some i.plan.attemptId)
  | .readOnly, some _, _ =>
    if i.plan.attemptId ∈ f.snapshots then none
    else some ([.reserveSnapshot i.plan.attemptId], none)
  | .readOnly, none, _ => some ([], none)

/-- `AttemptRecordStore.create`; `none` when it refuses. -/
def attemptEffects (f : RunFiles) (i : StartInput) (worktreeAttemptId : Option JsString) :
    Option (List Effect) :=
  match f.attempts.find? (·.attemptId = i.plan.attemptId) with
  | some existing =>
    if existing.ordinal = i.ordinal ∧ existing.kind = i.kind ∧
        existing.worktreeAttemptId = worktreeAttemptId then some []
    else none
  | none =>
    let admitted : Bool :=
      match f.latest with
      | none => i.kind = .initial ∧ i.ordinal = 0 ∧ i.parentAttemptId = none
      | some latest =>
        i.kind ≠ .initial ∧ i.ordinal = latest.ordinal + 1 ∧
          i.parentAttemptId = some latest.attemptId
    if admitted then
      some [.createAttempt ⟨i.plan.attemptId, i.ordinal, i.kind, i.parentAttemptId,
        worktreeAttemptId, i.plan⟩]
    else none

/-- The effects of `startAttempt`, up to where it refuses. -/
def startEffects (f : RunFiles) (i : StartInput) : List Effect :=
  if i.expectedPriorStatus.any (fun status => !durableStatusIs f status) then []
  else
    (if i.continuing then [.append .resumeAtHandoff] else []) ++
      (if i.kind = .initial then [.createRunRecord] else []) ++
      match checkoutEffects f i with
      | none => []
      | some (checkout, worktreeAttemptId) =>
        checkout ++
          match attemptEffects f i worktreeAttemptId with
          | none => []
          | some record => record ++ [.execute (.start i.plan)]

/-- `launch` of a run that is not in memory. -/
def launchEffects (s : RunState) (seat : ℕ) : Option (List Effect) :=
  match s.seats seat with
  | some _ => none
  | none =>
    if s.lease = none then
      some (startEffects s.files
        { plan := s.files.plan, kind := .initial, ordinal := 0, parentAttemptId := none
          expectedPriorStatus := none, existingWorktree := none, continuing := false })
    else none

/-- What `retry` starts an attempt with, by the run in memory and the attempt that it reads as the
latest. -/
def retryInput (D : Planner) (run : ActiveRun) (latest : AttemptRecord) : Option StartInput :=
  match run.result with
  | some r =>
    if run.status = .failed ∧ (r.handoff.bind WorktreeRecord.handoffCommit) = none ∧
        latest.attemptId = run.plan.attemptId then
      (retryPlan D run.plan r.result (latest.ordinal + 1)).map fun plan =>
        { plan := plan, kind := .retry, ordinal := latest.ordinal + 1
          parentAttemptId := some latest.attemptId
          expectedPriorStatus := some .failed
          existingWorktree := none, continuing := false }
    else none
  | none => none

/-- What `resume` starts an attempt with, at the hand-off or of the retained session. -/
def resumeInput (D : Planner) (run : ActiveRun) (latest : AttemptRecord) (continuing : Bool) :
    Option StartInput :=
  match run.result with
  | some r =>
    let permitted : Bool :=
      if continuing then
        run.plan.mode = .worktree ∧ transitionRunStatus run.status .resumeAtHandoff ≠ none ∧
          (r.handoff.bind WorktreeRecord.handoffCommit) ≠ none
      else run.status = .interrupted ∧ retryIs r.result [.resume] = true
    if permitted = true ∧ r.sessionFile ≠ none ∧ latest.attemptId = run.plan.attemptId then
      (resumePlan D run.plan r.result (latest.ordinal + 1) continuing).map fun plan =>
        { plan := plan, kind := .resume, ordinal := latest.ordinal + 1
          parentAttemptId := some latest.attemptId
          expectedPriorStatus := some run.status
          existingWorktree := if continuing then none else latest.worktreeAttemptId
          continuing := continuing }
    else none
  | none => none

/-- What a call starts in the state in which it reads the attempt history, when the lease is free. -/
def inputEffects (s : RunState) (seat : ℕ)
    (input : ActiveRun → AttemptRecord → Option StartInput) : Option (List Effect) :=
  match s.seats seat, s.files.latest with
  | some run, some latest =>
    if s.lease = none then (input run latest).map (startEffects s.files) else none
  | _, _ => none

/-- `retry`. -/
def retryEffects (D : Planner) (s : RunState) (seat : ℕ) : Option (List Effect) :=
  inputEffects s seat (retryInput D)

/-- `resume`. -/
def resumeEffects (D : Planner) (s : RunState) (seat : ℕ) (continuing : Bool) :
    Option (List Effect) :=
  inputEffects s seat fun run latest => resumeInput D run latest continuing

/-- The attempt goes to the executor. -/
def Effect.isExecute : Effect → Bool
  | .execute _ => true
  | _ => false

/-- A start that throws before the executor has the attempt removes the snapshot it has made. -/
def abandonedCheckout (effects : List Effect) (cut : ℕ) : List Effect :=
  if (effects.take cut).any Effect.isExecute then []
  else
    (effects.take cut).filterMap fun e =>
      match e with
      | .reserveSnapshot id => some (.removeSnapshot id)
      | _ => none

/-! ## Reconcile -/

/-- What the process table shows for a process identifier. -/
inductive ProcessObservation where
  | absent
  | present (identity : ProcessIdentity)
  | unknown
deriving DecidableEq, Repr

/-- What a worktree's record and directory show. -/
inductive WorktreeSeen where
  | absent | retained | unknown
deriving DecidableEq, Repr

/-- What reconcile observes outside of the store. -/
structure Observation where
  /-- The process of a receipt. -/
  process : ProcessIdentity → ProcessObservation
  /-- What terminating it answers. -/
  terminated : SandboxProcess
  /-- All snapshots of the run could be removed. -/
  snapshotsRemoved : Bool
  /-- A worktree of an attempt. -/
  worktree : JsString → WorktreeSeen
  session : SessionEvidence

/-- The worktrees of the attempt records. -/
def worktreeAttemptIds (attempts : List AttemptRecord) : List JsString :=
  (attempts.filterMap AttemptRecord.worktreeAttemptId).dedup

/-- What reconcile finds of the sandbox process. -/
def sandboxProcess (events : List RunEvent) (o : Observation) : SandboxProcess :=
  match lastOf RunEvent.sandbox? events with
  | none => .notStarted
  | some none => .unknown
  | some (some identity) =>
    match o.process identity with
    | .absent => .absent
    | .present observed => if observed = identity then o.terminated else .unknown
    | .unknown => .unknown

/-- What reconcile finds of the workspace. -/
def workspaceState (plan : RunPlan) (attempts : List AttemptRecord) (process : SandboxProcess)
    (o : Observation) : WorkspaceState :=
  if sharesLiveCheckout plan then .notNeeded
  else
    match plan.mode with
    | .readOnly =>
      if (process = .absent ∨ process = .notStarted) ∧ o.snapshotsRemoved = true then .absent
      else .unknown
    | .worktree =>
      let seen := (worktreeAttemptIds attempts).map o.worktree
      if seen = [] ∨ .unknown ∈ seen then .unknown
      else if .retained ∈ seen then .retained
      else .absent

/-- What reconcile has seen. -/
def evidence (plan : RunPlan) (f : RunFiles) (o : Observation) : Evidence :=
  let process := sandboxProcess f.events o
  ⟨process, workspaceState plan f.attempts process o, o.session⟩

/-- The removal of the snapshots by reconcile. -/
def snapshotEffects (plan : RunPlan) (process : SandboxProcess) (o : Observation) : List Effect :=
  if !sharesLiveCheckout plan && decide (plan.mode = .readOnly) &&
      decide (process = .absent ∨ process = .notStarted) && o.snapshotsRemoved then
    [.removeSnapshots]
  else []

/-- `reconcile` of a cleanup-blocked run. -/
def reconcileEffects (s : RunState) (seat : ℕ) (o : Observation) : Option (List Effect) :=
  match s.seats seat with
  | some run =>
    if run.status = .cleanupBlocked ∧ s.canHold seat = true ∧
        durableStatusIs s.files .cleanupBlocked = true then
      let seen := evidence run.plan.toRunPlan s.files o
      some (snapshotEffects run.plan.toRunPlan seen.sandboxProcess o ++
        match reconcileExecution run.plan.toRunPlan (abandonmentPending s.files.events) run.result
          seen with
        | none => []
        | some execution =>
          [.append (if execution.result.status = .abandoned then .runAbandoned execution.result
              else .runReconciled execution.result.status),
            .writeSnapshot execution, .remember (run.settle execution), .settleLease])
    else none
  | none => none

/-! ## Release -/

/-- `release`, given whether the worktrees could be released. -/
def releaseEffects (s : RunState) (seat : ℕ) (released : Bool) : Option (List Effect) :=
  match s.seats seat with
  | some run =>
    if run.status ≠ .active ∧ run.status ≠ .stopping ∧ run.status ≠ .interrupted ∧
        s.canHold seat = true ∧ durableStatusIs s.files run.status = true ∧
        released = true then
      match run.result with
      | none => some [.append .runReleased, .settleLease]
      | some memory =>
        some (
          match releaseExecution run.plan.toRunPlan (abandonmentPending s.files.events) memory with
          | none => []
          | some next =>
            [.append .runReleased, .writeSnapshot next, .remember (run.settle next), .settleLease])
    else none
  | none => none

/-! ## Abandon -/

/-- The workspace cleanup of an abandoned run. -/
def abandonedWorkspace (plan : RunPlan) : CleanupOutcome :=
  if sharesLiveCheckout plan then .notNeeded else .proved

/-- A result of an abandonment, derived from the one before. -/
def abandonResult (plan : RunPlan) (previous : RunResult) (status : RunStatus)
    (failure : ClassifiedFailure) (workspace : CleanupOutcome) : RunResult where
  runId := plan.runId.val
  status := status
  output := none
  structuredOutput := none
  usage := previous.usage
  usageComplete := previous.usageComplete
  runtimeMs := previous.runtimeMs
  failure := some failure
  sandboxCleanup := previous.sandboxCleanup
  workspaceCleanup := workspace
  truncated := previous.truncated

/-- An execution without session, hand-off and output. -/
def bareExecution (result : RunResult) (error : String) : AttemptExecutionResult :=
  ⟨result, [], none, none, none, some (ofString error)⟩

/-- What the seat remembers while an abandonment is under way. -/
def abandonPending (plan : RunPlan) (previous : RunResult) : AttemptExecutionResult :=
  bareExecution
    (abandonResult plan previous .cleanupBlocked
      ⟨.workspace, .service, .reconcile,
        ofString "Operator abandonment is awaiting cleanup proof",
        ofString "Reconcile cleanup to finish abandonment.", none⟩
      (if sharesLiveCheckout plan then .notNeeded else .unknown))
    "operator abandonment is awaiting cleanup proof"

/-- The outcome of an abandonment that could not release the worktrees. -/
def abandonBlocked (plan : RunPlan) (previous : RunResult) : AttemptExecutionResult :=
  bareExecution
    (abandonResult plan previous .cleanupBlocked
      ⟨.workspace, .workspace, .reconcile,
        ofString "Operator abandonment could not prove workspace cleanup",
        ofString "Inspect or preserve retained work, then reconcile cleanup.", none⟩
      .unknown)
    "operator abandonment requires reconciliation"

/-- The outcome of an abandonment. -/
def abandonDone (plan : RunPlan) (previous : RunResult) : AttemptExecutionResult :=
  bareExecution
    (abandonResult plan previous .abandoned (reconcileFailure .abandoned)
      (abandonedWorkspace plan))
    "run permanently abandoned by operator"

/-- `abandon`, given whether the worktrees could be released. -/
def abandonEffects (s : RunState) (seat : ℕ) (released : Bool) : Option (List Effect) :=
  match s.seats seat with
  | some run =>
    match run.result with
    | some memory =>
      if run.status = .interrupted ∧ memory.result.sandboxCleanup.done = true ∧
          s.lease = none ∧ durableStatusIs s.files .interrupted = true then
        let plan := run.plan.toRunPlan
        let previous := memory.result
        let done := abandonDone plan previous
        let blocked := abandonBlocked plan previous
        some ([.append .runAbandoning, .remember (run.settle (abandonPending plan previous))] ++
          if released = false then
            [.writeSnapshot blocked, .remember (run.settle blocked)]
          else if transitionRunStatus .interrupted
              (.abandon previous.sandboxCleanup (abandonedWorkspace plan)) = some .abandoned ∧
              isRunResult done.result = true then
            [.append (.runAbandoned done.result), .remember (run.settle done), .writeSnapshot done]
          else [])
      else none
    | none => none
  | none => none

/-! ## Start-up -/

/-- `createSubagentService` of a run whose lease is free. -/
def openEffects (s : RunState) (seat : ℕ) (handoff : Option WorktreeRecord) :
    Option (List Effect) :=
  match s.seats seat with
  | some _ => none
  | none =>
    if s.files.recorded = true ∧ s.lease = none then
      let execution := s.files.recoveredExecution handoff
      let run : ActiveRun :=
        ⟨s.files.recoveredPlan, execution.result.status, some execution, .settled, none⟩
      some (
        (match s.files.recovered.2 with
        | some error =>
          [.append .startupReconciled,
            .writeSnapshot ⟨execution.result, [], none, none, none, some error⟩]
        | none => []) ++ [.remember run])
    else none

/-! ## Steps -/

/-- What the executor may return for a run: a valid result, and cancelled or interrupted only when
its signal was aborted so. -/
def mayEnd (run : ActiveRun) (execution : AttemptExecutionResult) : Bool :=
  isRunResult execution.result && decide (execution.result.runId = run.plan.runId.val) &&
    match execution.result.status with
    | .completed | .failed | .cleanupBlocked => true
    | .cancelled => run.aborted = some false
    | .interrupted => run.aborted = some true
    | _ => false

/-- The effects of the end of an attempt: its snapshot is removed when the result says so. -/
def finishEffects (run : ActiveRun) (execution : AttemptExecutionResult) : List Effect :=
  (if run.plan.mode = .readOnly ∧ execution.result.workspaceCleanup = .proved then
    [.removeSnapshot run.plan.attemptId]
  else []) ++
  [.append (if execution.result.status = .completed then .attemptCompleted execution
      else .attemptFailed execution),
    .writeSnapshot execution, .remember { run with flight := .ended execution }]

/-- What the settlement of an attempt makes of its result. -/
def carried (run : ActiveRun) (execution : AttemptExecutionResult)
    (handoff : Option WorktreeRecord) : AttemptExecutionResult :=
  if execution.handoff.isNone ∧ run.plan.mode = .worktree then { execution with handoff := handoff }
  else execution

/-- The effects of the settlement of an attempt. -/
def settleEffects (run : ActiveRun) (execution : AttemptExecutionResult)
    (handoff : Option WorktreeRecord) : List Effect :=
  [.writeSnapshot (carried run execution handoff),
    .remember (run.settle (carried run execution handoff)), .settleLease]

/-- The steps of the seats; `cut` is where an operation is cut short. -/
inductive RunAct where
  | launch (seat cut : ℕ)
  | retry (seat cut : ℕ)
  | resume (seat : ℕ) (continuing : Bool) (cut : ℕ)
  /-- A start that is cut short, and its snapshot is removed. -/
  | launchUndone (seat cut : ℕ)
  | retryUndone (seat cut : ℕ)
  | resumeUndone (seat : ℕ) (continuing : Bool) (cut : ℕ)
  /-- The executor appends `attempt-starting`. -/
  | begin (seat : ℕ)
  | sandboxStarted (seat : ℕ) (identity : Option ProcessIdentity)
  | sessionStarted (seat : ℕ)
  | usageCheckpoint (seat : ℕ) (usage : Usage) (runtimeMs : ℕ)
  /-- The executor returns. -/
  | finish (seat : ℕ) (execution : AttemptExecutionResult) (cut : ℕ)
  /-- The executor throws. -/
  | reject (seat : ℕ)
  /-- The settlement of an attempt that has returned. -/
  | settle (seat : ℕ) (handoff : Option WorktreeRecord)
  /-- The settlement throws, or the handler of an attempt that has thrown. -/
  | settleBlocked (seat : ℕ)
  | interrupt (seat : ℕ)
  | shutdown (seat : ℕ)
  | reconcile (seat : ℕ) (o : Observation) (cut : ℕ)
  | release (seat : ℕ) (released : Bool) (cut : ℕ)
  | abandon (seat : ℕ) (released : Bool) (cut : ℕ)
  /-- The process of a seat dies. -/
  | die (seat : ℕ)
  /-- A seat starts. -/
  | open (seat : ℕ) (handoff : Option WorktreeRecord) (cut : ℕ)

namespace RunState

/-- The effects of an operation of a seat, cut short. -/
def run (seat cut : ℕ) (s : RunState) (effects : Option (List Effect)) : Option RunState :=
  effects.map fun effects => Cuts.cutShort (perform seat) cut effects s

/-- A start that is cut short and whose snapshot is removed. -/
def undone (seat cut : ℕ) (s : RunState) (effects : Option (List Effect)) : Option RunState :=
  effects.map fun effects =>
    (abandonedCheckout effects cut).foldl (perform seat)
      (Cuts.cutShort (perform seat) cut effects s)

/-- The executor of a seat appends an event. -/
def note (seat : ℕ) (s : RunState) (e : ActiveRun → RunEvent) : Option RunState :=
  match s.seats seat with
  | some run =>
    match run.flight with
    | .running true => some (s.perform seat (.append (e run)))
    | _ => none
  | none => none

/-- The signal of a seat's attempt is aborted. -/
def abort (seat : ℕ) (s : RunState) (run : ActiveRun) (shutdown : Bool) : RunState :=
  s.setSeat seat (some { run with status := .stopping, aborted := run.aborted.or (some shutdown) })

/-- One step; `none` when it cannot be taken or is refused before anything happens. -/
def step (D : Planner) (s : RunState) : RunAct → Option RunState
  | .launch seat cut => s.run seat cut (launchEffects s seat)
  | .retry seat cut => s.run seat cut (retryEffects D s seat)
  | .resume seat continuing cut => s.run seat cut (resumeEffects D s seat continuing)
  | .launchUndone seat cut => s.undone seat cut (launchEffects s seat)
  | .retryUndone seat cut => s.undone seat cut (retryEffects D s seat)
  | .resumeUndone seat continuing cut => s.undone seat cut (resumeEffects D s seat continuing)
  | .begin seat =>
    match s.seats seat with
    | some run =>
      match run.flight with
      | .running false =>
        some ((s.perform seat (.append (.attemptStarting run.plan.attemptId))).perform seat
          (.remember { run with flight := .running true }))
      | _ => none
    | none => none
  | .sandboxStarted seat identity => s.note seat fun _ => .sandboxStarted identity
  | .sessionStarted seat => s.note seat fun _ => .sessionStarted
  | .usageCheckpoint seat usage runtimeMs =>
    s.note seat fun run => .usageCheckpoint run.plan.attemptId usage runtimeMs
  | .finish seat execution cut =>
    match s.seats seat with
    | some run =>
      match run.flight with
      | .running true =>
        if mayEnd run execution then s.run seat cut (some (finishEffects run execution)) else none
      | _ => none
    | none => none
  | .reject seat =>
    match s.seats seat with
    | some run =>
      match run.flight with
      | .running _ => some (s.setSeat seat (some { run with flight := .rejected }))
      | _ => none
    | none => none
  | .settle seat handoff =>
    match s.seats seat with
    | some run =>
      match run.flight with
      | .ended execution => s.run seat 3 (some (settleEffects run execution handoff))
      | _ => none
    | none => none
  | .settleBlocked seat =>
    match s.seats seat with
    | some run =>
      match run.flight with
      | .ended _ | .rejected =>
        some (s.setSeat seat (some { run with status := .cleanupBlocked, flight := .settled }))
      | _ => none
    | none => none
  | .interrupt seat =>
    match s.seats seat with
    | some run => if run.status = .active then some (s.abort seat run false) else none
    | none => none
  | .shutdown seat =>
    match s.seats seat with
    | some run =>
      if run.status = .active ∨ run.status = .stopping then some (s.abort seat run true) else none
    | none => none
  | .reconcile seat o cut => s.run seat cut (reconcileEffects s seat o)
  | .release seat released cut => s.run seat cut (releaseEffects s seat released)
  | .abandon seat released cut => s.run seat cut (abandonEffects s seat released)
  | .die seat =>
    some { s.setSeat seat none with lease := if s.lease = some seat then none else s.lease }
  | .open seat handoff cut =>
    -- A start-up that throws leaves no service.
    (openEffects s seat handoff).map fun effects =>
      Cuts.cutShort (perform seat) (min cut effects.length) effects s

end RunState

/-- A run before its launch: nothing is in the store and no seat knows of it. -/
def freshRun (plan : Plan) : RunState where
  files := ⟨plan, false, [], [], none, [], []⟩
  seats := fun _ => none
  lease := none
  executed := []

end RunLife

end PiSubagent
