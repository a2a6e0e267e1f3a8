import PiSubagent.Persistence.AttemptRecords
import PiSubagent.Runtime.Failure

/-!
# What the service shows of a run

* `retryDelayMs`: how long a retry is held back.
* `Run`, `RunRead`: a run in the memory of the service, and what its files show.
* `availableRunActions`, `summarizeRun`: the actions a run offers and its summary, as the code
  computes them.

An instant is the milliseconds since 1970; the text of one that the code writes with `toISOString` is
the instant here.
-/

namespace PiSubagent

open JsonText

namespace Summaries

open Preflight (AgentLaunchPlan)

/-! ## Runs -/

/-- `retryDelayMs`. -/
def retryDelayMs (failure : Option ClassifiedFailure) (ordinal : ℕ) : ℕ :=
  match failure with
  | some f =>
    if f.retry = .backoff then min 300000 (f.retryAfterMs.getD 1000 * 2 ^ min ordinal 8) else 0
  | none => 0

/-- What the files of a run show: its attempt records, its journal, whose events fit an array, and
whether its worktrees are retained and can be released. -/
structure RunRead where
  attempts : List AttemptRecords.AttemptRecord
  events : List JournalEvent
  retainedWorktree : Bool
  workspaceReleasable : Bool
  few : events.length < 2 ^ 32

/-- `ActiveRun`: what a summary reads of it, and what its files show or what reading them throws. Its
time stamps are those that `toISOString` writes. -/
structure Run where
  plan : AgentLaunchPlan
  ownerId : JsString
  status : RunStatus
  result : Option AttemptExecutionResult
  repositoryRoot : JsString
  createdAt : JsString
  /-- The session of the run has registered its control. -/
  control : Bool
  read : Except JsString RunRead
  dated : isDateTime createdAt = true
  stamped : ∀ r, read = .ok r → ∀ e ∈ r.events, isDateTime e.timestamp = true

/-! ## Actions -/

/-- `RunAction`. -/
inductive RunAction where
  | steer | followUp | stop | retry | resume | reconcile | releaseWorkspace | abandon | pin | unpin
  | exportOutput | exportHandoff
deriving DecidableEq, Repr

/-- `HANDOFF_EXPORT_STATUSES`. -/
def handoffExportStatuses : List RunStatus := [.completed, .failed, .cancelled, .cleanupBlocked]

/-- `RunActionFacts`. -/
structure RunActionFacts where
  status : RunStatus
  pinned : Bool
  controllable : Bool
  retryable : Bool
  retryAvailable : Bool
  resumable : Bool
  abandonable : Bool
  retainedWorktree : Bool
  workspaceReleasable : Bool
  hasOutput : Bool
  hasHandoff : Bool
deriving DecidableEq, Repr

/-- `if (c) actions.push(...)`. -/
def pushIf (c : Prop) [Decidable c] (actions : List RunAction) : List RunAction :=
  if c then actions else []

/-- `availableRunActions`. -/
def availableRunActions (facts : RunActionFacts) : List RunAction :=
  pushIf (facts.status = .active) (pushIf facts.controllable [.steer, .followUp] ++ [.stop]) ++
  pushIf (facts.retryable ∧ facts.retryAvailable) [.retry] ++
  pushIf facts.resumable [.resume] ++
  pushIf (facts.status = .interrupted ∧ facts.abandonable) [.abandon] ++
  pushIf (facts.status = .cleanupBlocked) [.reconcile] ++
  pushIf (facts.retainedWorktree ∧ facts.workspaceReleasable ∧
    facts.status ∉ [.active, .stopping, .interrupted]) [.releaseWorkspace] ++
  pushIf (facts.status ∈ [.completed, .failed, .cancelled, .abandoned])
    [if facts.pinned then .unpin else .pin] ++
  pushIf facts.hasOutput [.exportOutput] ++
  pushIf (facts.hasHandoff ∧ facts.status ∈ handoffExportStatuses) [.exportHandoff]

/-! ## Summaries -/

/-- `RunSummary`, without the actions, which depend on the time. -/
structure RunFacts where
  runId : RunId
  attemptId : JsString
  ownerId : JsString
  agentName : JsString
  agentDisplayName : JsString
  goalPreview : JsString
  status : RunStatus
  repositoryRoot : JsString
  workspaceMode : WorkspaceMode
  createdAt : JsString
  updatedAt : JsString
  usage : Option Usage
  pinned : Bool
  controllable : Bool
  retryable : Bool
  retryAt : Option ℤ
  resumable : Bool
  retainedWorktree : Bool
  requiresAttention : Bool

/-- `RunSummary`. -/
structure RunSummary extends RunFacts where
  availableActions : List RunAction

/-- `replaceAll(/\s+/g, " ")`; a space already made is `after`. -/
def collapseSpaces (after : Bool) : JsString → JsString
  | [] => []
  | u :: us =>
    if isSpaceUnit u then (if after then [] else [32]) ++ collapseSpaces true us
    else u :: collapseSpaces false us

/-- The last event of a type. -/
def lastOfType (events : List JournalEvent) (type : String) : Option JournalEvent :=
  events.reverse.find? fun e => e.type = ofString type

/-- What the plan of a run leaves to another attempt is enough to begin it. -/
def budgetLeft (run : Run) : Bool :=
  let l := run.plan.limits.toLimits
  match run.result with
  | none => decide (1000 ≤ l.cumulativeRuntimeMs) && l.totalTokens.all (1 ≤ ·) && decide (0 < l.cost)
  | some execution =>
    let r := execution.result
    decide (r.runtimeMs + 1000 ≤ l.cumulativeRuntimeMs) &&
      l.totalTokens.all (r.usage.totalTokens + 1 ≤ ·) &&
        decide (0 < Double.rounded (l.cost - Double.rounded (decimalValue r.usage.cost)))

/-- The failure of the run's result. -/
def Run.failure (run : Run) : Option ClassifiedFailure := run.result.bind (·.result.failure)

/-- The hand-off commit of the run's result. -/
def Run.handoffCommit (run : Run) : Option JsString :=
  run.result.bind fun execution => execution.handoff.bind (·.handoffCommit)

/-- `retryAt` of a summary. -/
def retryAt (run : Run) (read : RunRead) : Option ℤ :=
  let latestAttempt := read.attempts.getLast?
  let retryTerminal := lastOfType read.events "attempt-failed"
  let retryDelay := retryDelayMs run.failure ((latestAttempt.map (·.ordinal)).getD 0)
  if 0 < retryDelay then
    (retryTerminal.bind fun e => dateParse e.timestamp).map fun t => t + retryDelay
  else none

/-- The facts of `summarizeRun`. -/
def runFacts (run : Run) (pinnedRuns : List RunId) (read : RunRead) : RunFacts where
  runId := run.plan.runId
  attemptId := (read.attempts.getLast?.map (·.attemptId)).getD run.plan.attemptId
  ownerId := run.ownerId
  agentName := run.plan.agent
  agentDisplayName := run.plan.agentDisplayName
  goalPreview := (collapseSpaces false run.plan.task.goal).take 240
  status := run.status
  repositoryRoot := run.repositoryRoot
  workspaceMode := run.plan.workspace.mode
  createdAt := run.createdAt
  updatedAt := (read.events.getLast?.map (·.timestamp)).getD run.createdAt
  usage := run.result.map (·.result.usage)
  pinned := pinnedRuns.any fun id => id.val = run.plan.runId.val
  controllable := run.status = .active ∧ run.control = true
  retryable := run.status = .failed ∧ run.result.isSome ∧
    run.failure.any (fun f => f.retry = .manual ∨ f.retry = .backoff) ∧
    run.handoffCommit = none ∧ 0 < run.plan.limits.retries ∧ budgetLeft run
  retryAt := retryAt run read
  resumable := run.status = .interrupted ∧ run.result.any (·.sessionFile.isSome) ∧
    run.failure.any (fun f => f.retry = .resume) ∧ 0 < run.plan.limits.resumes ∧ budgetLeft run
  retainedWorktree := read.retainedWorktree
  requiresAttention := run.status ∈ [.active, .stopping, .interrupted, .cleanupBlocked]

/-- What the actions of a run depend on at an instant. -/
def actionFacts (run : Run) (facts : RunFacts) (read : RunRead) (now : ℤ) : RunActionFacts where
  status := run.status
  pinned := facts.pinned
  controllable := facts.controllable
  retryable := facts.retryable
  retryAvailable := facts.retryable ∧ facts.retryAt.all (· ≤ now)
  resumable := facts.resumable
  abandonable := run.status = .interrupted ∧
    run.result.any (fun execution => execution.result.sandboxCleanup.done) ∧ read.workspaceReleasable
  retainedWorktree := read.retainedWorktree
  workspaceReleasable := read.workspaceReleasable
  hasOutput := run.result.any (·.result.output.isSome)
  hasHandoff := run.handoffCommit.isSome

/-- `summarizeRun`, of a run whose files have been read. -/
def summary (run : Run) (pinnedRuns : List RunId) (now : ℤ) (read : RunRead) : RunSummary :=
  let facts := runFacts run pinnedRuns read
  { toRunFacts := facts
    availableActions := availableRunActions (actionFacts run facts read now) }

/-- `summarizeRun`. -/
def summarizeRun (run : Run) (pinnedRuns : List RunId) (now : ℤ) : Except JsString RunSummary :=
  run.read.map (summary run pinnedRuns now)

/-- **The last change of a run is an instant.** -/
theorem updatedAt_date {run : Run} {read : RunRead} (h : run.read = .ok read)
    (pinnedRuns : List RunId) : isDateTime (runFacts run pinnedRuns read).updatedAt = true := by
  change isDateTime ((read.events.getLast?.map (·.timestamp)).getD run.createdAt) = true
  cases hlast : read.events.getLast? with
  | none => exact run.dated
  | some e => exact run.stamped read h e (List.mem_of_getLast? hlast)

end Summaries

end PiSubagent
