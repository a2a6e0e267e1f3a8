import PiSubagent.Lifecycle.Reducer
import PiSubagent.Persistence.Journal

/-!
# Results of a run and how operations derive them

* `RunPlan`, `WorktreeRecord`, `AttemptExecutionResult`: what the service remembers of a run.
* `assertDurableStatus`: the guard every operation on a settled run starts with.
* `reconcileExecution`, `releaseExecution`: the result an operation writes, derived from what this
  seat remembers and from what it observes.
-/

namespace PiSubagent

open JsonText

/-- The workspace mode of a plan. -/
inductive WorkspaceMode where
  | readOnly
  | worktree
deriving DecidableEq, Repr

/-- The text of a workspace mode. -/
def WorkspaceMode.text : WorkspaceMode → String
  | .readOnly => "read-only"
  | .worktree => "worktree"

/-- What the operations on a settled run use of its plan. -/
structure RunPlan where
  runId : RunId
  attemptId : JsString
  mode : WorkspaceMode
  startAt : Option JsString

/-- A read-only attempt without `startAt` mounts the live checkout. -/
def sharesLiveCheckout (plan : RunPlan) : Bool := plan.mode = .readOnly ∧ plan.startAt.isNone

/-- What the operations use of a worktree record. -/
structure WorktreeRecord where
  runId : JsString
  attemptId : JsString
  baselineHead : JsString
  handoffCommit : Option JsString
  handoffRef : Option JsString
deriving DecidableEq, Repr

/-- The result of an attempt, as the seat remembers it and as the snapshot holds it. -/
structure AttemptExecutionResult where
  result : RunResult
  output : JsString
  sessionFile : Option JsString
  handoff : Option WorktreeRecord
  structuredOutput : Option JsData
  error : Option JsString

/-- The last event of a type, counted from 0. -/
def lastIndex (events : List JournalEvent) (type : String) : Option ℕ :=
  let n := (events.reverse.takeWhile fun e => e.type ≠ ofString type).length
  if n < events.length then some (events.length - 1 - n) else none

/-- An abandonment was requested and has not been completed. -/
def hasPendingAbandonment (events : List JournalEvent) : Bool :=
  match lastIndex events "run-abandoning", lastIndex events "run-abandoned" with
  | some requested, some completed => completed < requested
  | some _, none => true
  | none, _ => false

/-- Whether `assertDurableStatus` accepts: the durable status is the one the seat expects. -/
def assertDurableStatus (events : List JournalEvent) (snapshot : Option AttemptExecutionResult)
    (expected : RunStatus) : Bool :=
  if events.any fun e => e.type = ofString "run-abandoned" then expected = .abandoned
  else if hasPendingAbandonment events then expected = .cleanupBlocked
  else
    match snapshot with
    | some state => isRunResult state.result && decide (state.result.status = expected)
    | none => false

/-- `emptyUsage`. -/
def emptyUsage : Usage := ⟨0, 0, 0, 0, 0, Decimal.ofNat 0⟩

/-! ## Reconcile -/

/-- What reconcile finds of the sandbox process. -/
inductive SandboxProcess where
  | absent | present | notStarted | unknown
deriving DecidableEq, Repr

/-- The text of a sandbox process state. -/
def SandboxProcess.text : SandboxProcess → String
  | .absent => "absent"
  | .present => "present"
  | .notStarted => "not-started"
  | .unknown => "unknown"

/-- What reconcile finds of the workspace. -/
inductive WorkspaceState where
  | notNeeded | retained | absent | unknown
deriving DecidableEq, Repr

/-- The text of a workspace state. -/
def WorkspaceState.text : WorkspaceState → String
  | .notNeeded => "not-needed"
  | .retained => "retained"
  | .absent => "absent"
  | .unknown => "unknown"

/-- What reconcile finds of the session file. -/
inductive SessionEvidence where
  | absent
  | valid (file : JsString)
  | unknown
deriving DecidableEq, Repr

/-- What reconcile observes outside of the store. -/
structure Evidence where
  sandboxProcess : SandboxProcess
  workspace : WorkspaceState
  session : SessionEvidence
deriving DecidableEq, Repr

/-- The sandbox cleanup reconcile records. -/
def reconcileSandboxCleanup (pending : Bool) (memory : Option AttemptExecutionResult)
    (seen : SandboxProcess) : CleanupOutcome :=
  let observed : CleanupOutcome :=
    match seen with
    | .notStarted => .notNeeded
    | .absent => .proved
    | _ => .unknown
  match memory with
  | some m => if pending && m.result.sandboxCleanup.done then m.result.sandboxCleanup else observed
  | none => observed

/-- The workspace cleanup reconcile records. -/
def reconcileWorkspaceCleanup : WorkspaceState → CleanupOutcome
  | .notNeeded => .notNeeded
  | .retained => .retained
  | .absent => .proved
  | .unknown => .unknown

/-- The status reconcile records. -/
def reconcileStatus (pending : Bool) (sandbox workspace : CleanupOutcome)
    (session : SessionEvidence) : RunStatus :=
  if pending then if cleanupProved sandbox workspace then .abandoned else .cleanupBlocked
  else if sandbox.done && workspace ≠ .unknown && session ≠ .unknown then
    match session with
    | .valid _ => .interrupted
    | _ => .failed
  else .cleanupBlocked

/-- The failure of a result with the given status, as reconcile words it. -/
def reconcileFailure (status : RunStatus) : ClassifiedFailure :=
  match status with
  | .abandoned =>
    ⟨.operatorAbandoned, .operator, .never,
      ofString "Operator permanently abandoned the interrupted run",
      ofString "Inspect retained journal evidence if needed.", none⟩
  | .interrupted =>
    ⟨.seatInterruption, .service, .resume,
      ofString "Prior attempt ended before terminal proof",
      ofString "Resume the retained session in a fresh VM after validation.", none⟩
  | .cleanupBlocked =>
    ⟨.sandboxCleanup, .service, .reconcile,
      ofString "External cleanup remains unproved",
      ofString "Reconcile recorded sandbox and workspace identities.", none⟩
  | _ =>
    ⟨.unknown, .service, .reconcile,
      ofString "Prior attempt failed without terminal proof",
      ofString "Inspect lifecycle evidence before continuing.", none⟩

/-- The error text of a result with the given status, as reconcile words it. -/
def reconcileError (status : RunStatus) : JsString :=
  match status with
  | .abandoned => ofString "run permanently abandoned by operator"
  | .cleanupBlocked => ofString "external cleanup remains unproved"
  | _ => ofString "prior attempt was interrupted before terminal proof"

/-- The result reconcile derives from what the seat remembers and what it observes. -/
def reconcileResult (plan : RunPlan) (pending : Bool) (memory : Option AttemptExecutionResult)
    (seen : Evidence) : RunResult :=
  let sandbox := reconcileSandboxCleanup pending memory seen.sandboxProcess
  let workspace := reconcileWorkspaceCleanup seen.workspace
  let status := reconcileStatus pending sandbox workspace seen.session
  { runId := plan.runId.val
    status := status
    output := if pending then none else memory.bind fun m => m.result.output
    structuredOutput := if pending then none else memory.bind fun m => m.result.structuredOutput
    usage := (memory.map fun m => m.result.usage).getD emptyUsage
    usageComplete := (memory.map fun m => m.result.usageComplete).getD false
    runtimeMs := (memory.map fun m => m.result.runtimeMs).getD 0
    failure := some (reconcileFailure status)
    sandboxCleanup := sandbox
    workspaceCleanup := workspace
    truncated := (memory.map fun m => m.result.truncated).getD false }

/-- The execution reconcile writes; `none` when it refuses its own result. -/
def reconcileExecution (plan : RunPlan) (pending : Bool) (memory : Option AttemptExecutionResult)
    (seen : Evidence) : Option AttemptExecutionResult :=
  let result := reconcileResult plan pending memory seen
  let permitted := result.status ≠ .abandoned ∨ transitionRunStatus .cleanupBlocked
    (.cleanupProved .abandoned result.sandboxCleanup result.workspaceCleanup) = some .abandoned
  if permitted ∧ isRunResult result then
    some {
      result := result
      output := if pending then [] else (memory.map fun m => m.output).getD []
      sessionFile := if pending then none else
        match seen.session with
        | .valid file => some file
        | _ => none
      handoff := if pending then none else memory.bind fun m => m.handoff
      structuredOutput := result.structuredOutput
      error := some (reconcileError result.status) }
  else none

/-- The event reconcile appends: its type and data. -/
def reconcileEvent (plan : RunPlan) (execution : AttemptExecutionResult) (seen : Evidence) :
    JsString × Json :=
  if execution.result.status = .abandoned then
    (ofString "run-abandoned",
      record [("attemptId", some (.str plan.attemptId)), ("result", execution.result.toJson)])
  else
    (ofString "run-reconciled",
      record [("status", text execution.result.status.text),
        ("sandboxProcess", text seen.sandboxProcess.text), ("workspace", text seen.workspace.text)])

/-! ## Release -/

/-- The execution release derives from what the seat remembers; `none` when it refuses it. -/
def releaseExecution (plan : RunPlan) (pending : Bool) (memory : AttemptExecutionResult) :
    Option AttemptExecutionResult :=
  let previous := memory.result
  let released : RunResult :=
    if pending then previous
    else { previous with
      workspaceCleanup := if sharesLiveCheckout plan then .notNeeded else .proved }
  let result : RunResult :=
    if !pending && released.status = .cleanupBlocked && released.sandboxCleanup.done then
      { released with status := .failed }
    else released
  if isRunResult result then
    some (
      if result.status = .abandoned then
        { memory with
          result := result
          output := []
          sessionFile := none
          handoff := none
          structuredOutput := none
          error := some (ofString "run permanently abandoned by operator") }
      else { memory with result := result })
  else none

/-- The event release appends: its type and data. -/
def releaseEvent (plan : RunPlan) : JsString × Json :=
  (ofString "run-released", record [("workspace", text plan.mode.text)])

theorem reconcileEvent_proper (plan : RunPlan) (execution : AttemptExecutionResult)
    (seen : Evidence) : (reconcileEvent plan execution seen).2.Proper := by
  unfold reconcileEvent
  split_ifs
  · exact record_proper (by simp) (by simp [Json.Proper, RunResult.toJson_proper])
  · exact record_proper (by simp) (by simp [text, Json.Proper])

theorem releaseEvent_proper (plan : RunPlan) : (releaseEvent plan).2.Proper :=
  record_proper (by simp) (by simp [text, Json.Proper])

end PiSubagent
