import PiSubagent.Sandbox.Gondolin
import PiSubagent.Service.Results

/-!
# An attempt

One run of `runNativeAttempt`, with every call of code outside answered by an outcome.

* `AttemptOutcomes`: what every awaited step returns or throws, and how often the sandbox is closed
  meanwhile (a command that is aborted and an abort of the attempt close it).
* `AttemptState`: the variables of the attempt, the machines, and the terminal events recorded.
* `attemptBody`, `attemptCatch`, `runNativeAttempt`, `settledStatus`.
-/

namespace PiSubagent

open JsonText Prog Utf8

/-! ## Output bounds -/

/-- `MAX_INLINE_OUTPUT_BYTES`. -/
def maxInlineOutputBytes : ℕ := 32 * 1024

/-- The code points of a string, as its iterator yields them. -/
def codePoints : JsString → List JsString
  | [] => []
  | [u] => [[u]]
  | u :: v :: us =>
    if isHigh u && isLow v then [u, v] :: codePoints us else [u] :: codePoints (v :: us)

/-- The code points taken until one does not fit any more, after `bytes` bytes. -/
def takeBytes (limit : ℕ) : ℕ → List JsString → JsString
  | _, [] => []
  | bytes, c :: cs =>
    if limit < bytes + byteLength c then [] else c ++ takeBytes limit (bytes + byteLength c) cs

/-- `boundAttemptOutput`: the output and whether it was cut. -/
def boundAttemptOutput (output : JsString) (limit : ℕ) : JsString × Bool :=
  if byteLength output ≤ limit then (output, false)
  else (takeBytes limit 0 (codePoints output), true)

/-! ## Outcomes -/

/-- What an attempt uses of its launch plan. -/
structure AttemptPlan extends RunPlan where
  packageVersion : JsString
  outputBytes : ℕ
  hasOutputSchema : Bool
  totalTokens : Option ℕ
  cost : Decimal

/-- The awaited steps of an attempt between its sandbox and its end. -/
inductive AttemptStep where
  | sandboxStarted | reload | openSession | createSession | readEvents | sessionStarted | prompt
  | repair (n : ℕ) | waitForIdle | throwIfAborted | stopBudgetSteering | putOutput
deriving DecidableEq, Repr

/-- An awaited step: the closes of the sandbox meanwhile, and how it ends. -/
structure StepOutcome where
  closes : ℕ
  ends : Outcome Unit

/-- A write of the run's files, the append of a terminal event or a snapshot: done, failed before
its line or the new snapshot is in its file, or failed after that. -/
inductive AppendOutcome where
  | done
  | lost (error : Thrown)
  | written (error : Thrown)
deriving DecidableEq, Repr

/-- What is written is in the file. -/
def AppendOutcome.recorded : AppendOutcome → Bool
  | .lost _ => false
  | _ => true

/-- What the caller of the write sees. -/
def AppendOutcome.ends : AppendOutcome → Outcome Unit
  | .done => .ok ()
  | .lost e | .written e => .error e

/-- What every call outside returns or throws in one attempt. -/
structure AttemptOutcomes where
  hasSnapshot : Bool
  worktree : Option WorktreeRecord
  /-- The checks of the plan, the projections and the tools. -/
  validation : Outcome Unit
  assertCurrent : Outcome Unit
  appendStarting : Outcome Unit
  /-- `runSignal.throwIfAborted`, before the model is resolved. -/
  firstAbortCheck : Outcome Unit
  resolveModel : Outcome Unit
  sandbox : SandboxOutcomes
  step : AttemptStep → StepOutcome
  sessionFile : Option JsString
  /-- The value of `final_answer` after so many prompts. -/
  answer : ℕ → Option JsData
  /-- The usage of the attempt's session when it has ended. -/
  usage : Usage
  /-- The assistant's text, or the canonical text of the structured output. -/
  rawOutput : JsString
  outputRef : ArtifactRef
  removeSnapshot : Outcome Unit
  finalizeHandoff : Outcome WorktreeRecord
  appendCompleted : AppendOutcome
  snapshotCompleted : AppendOutcome
  /-- The closes of the sandbox while the `catch` block awaits the session. -/
  closesInCatch : ℕ
  /-- The usage of the attempt's session when the attempt has thrown. -/
  usageInCatch : Usage
  outputInCatch : JsString
  /-- `options.signal` is aborted in the `catch` block, and whether by a seat shutdown. -/
  aborted : Option Bool
  deadlineAborted : Bool
  fatalToolAbort : Bool
  budgetExhausted : Bool
  runtimeMs : Fin (maxSafeInteger + 1)
  appendFailed : AppendOutcome
  snapshotFailed : AppendOutcome
  /-- The `finally` block. -/
  finish : Outcome Unit

/-! ## The variables of an attempt -/

/-- The variables of an attempt, its machines, the terminal events in the journal, and the snapshots
that were put in place. -/
structure AttemptState where
  machines : SandboxState
  sandbox : Option AttemptSandbox
  closed : Bool
  session : Bool
  sessionCreated : Bool
  sandboxCleanup : CleanupOutcome
  workspaceCleanup : CleanupOutcome
  handoff : Option WorktreeRecord
  sessionFile : Option JsString
  usage : Usage
  output : JsString
  outputRef : Option ArtifactRef
  structuredOutput : Option JsData
  truncated : Bool
  events : List (JsString × AttemptExecutionResult)
  snapshots : List AttemptExecutionResult

/-- A program over the variables of an attempt. -/
abbrev AttemptM := Prog AttemptState Thrown

variable (plan : AttemptPlan) (o : AttemptOutcomes)

/-- Before an attempt. -/
def AttemptState.start : AttemptState where
  machines := .start
  sandbox := none
  closed := false
  session := false
  sessionCreated := false
  sandboxCleanup := .notNeeded
  workspaceCleanup := if plan.mode = .readOnly ∧ o.hasSnapshot = false then .notNeeded else .retained
  handoff := none
  sessionFile := none
  usage := emptyUsage
  output := []
  outputRef := none
  structuredOutput := none
  truncated := false
  events := []
  snapshots := []

/-- A program over the machines, in an attempt. -/
def onMachines {α : Type} (m : SandboxM α) : AttemptM α :=
  zoom AttemptState.machines (fun t s => { s with machines := t }) m

/-- `sandbox.close`, which is also `sandbox.cancel`. -/
def closeSandbox (sandbox : AttemptSandbox) : AttemptM Unit := do
  let s ← get
  if s.closed then pure ()
  else
    onMachines (closeStartedVm o.sandbox sandbox.leased)
    modify fun s => { s with closed := true }

/-- Closes from a command that is aborted or an abort of the attempt; their errors are dropped. -/
def closeMeanwhile (sandbox : AttemptSandbox) : ℕ → AttemptM Unit
  | 0 => pure ()
  | n + 1 => do
    tryCatch (closeSandbox o sandbox) fun _ => pure ()
    closeMeanwhile sandbox n

/-- One awaited step. -/
def awaitStep (sandbox : AttemptSandbox) (step : AttemptStep) : AttemptM Unit := do
  closeMeanwhile o sandbox (o.step step).closes
  liftExcept (o.step step).ends

/-- `terminalResult`. -/
def terminalResult (result : RunResult) : Outcome RunResult :=
  if isRunResult result then .ok result
  else .error ⟨.other, ofString "Error", ofString "attempt produced an invalid result"⟩

/-- The append of a terminal event. -/
def appendTerminal (type : String) (execution : AttemptExecutionResult) (outcome : AppendOutcome) :
    AttemptM Unit := do
  when outcome.recorded
    (modify fun s => { s with events := s.events ++ [(ofString type, execution)] })
  liftExcept outcome.ends

/-- `writeSnapshot`. -/
def writeSnapshot (execution : AttemptExecutionResult) (outcome : AppendOutcome) :
    AttemptM Unit := do
  when outcome.recorded (modify fun s => { s with snapshots := s.snapshots ++ [execution] })
  liftExcept outcome.ends

/-! ## The body -/

/-- The prompts that ask for a final answer again, at most two, from the one numbered `n` on. -/
def repairAnswer (sandbox : AttemptSandbox) : ℕ → ℕ → AttemptM Unit
  | 0, _ => pure ()
  | fuel + 1, n =>
    if (o.answer (n + 1)).isSome then pure ()
    else do
      awaitStep o sandbox (.repair n)
      repairAnswer sandbox fuel (n + 1)

/-- The number of prompts after which the final answer is looked at. -/
def promptsUsed : ℕ := if (o.answer 1).isSome then 1 else if (o.answer 2).isSome then 2 else 3

/-- The final answer of an attempt with an output schema. -/
def finalAnswer (sandbox : AttemptSandbox) : AttemptM Unit := do
  repairAnswer o sandbox 2 0
  modify fun s => { s with structuredOutput := o.answer (promptsUsed o) }
  when (o.answer (promptsUsed o)).isNone
    (throw ⟨.other, ofString "Error", ofString "structured output repair exhausted"⟩)

/-- The session of an attempt: from the sandbox to the final output. -/
def runSession (sandbox : AttemptSandbox) : AttemptM Unit := do
  when (sandbox.packageVersion ≠ plan.packageVersion)
    (throw ⟨.other, ofString "Error", ofString "Gondolin package version drift"⟩)
  awaitStep o sandbox .sandboxStarted
  awaitStep o sandbox .reload
  awaitStep o sandbox .openSession
  awaitStep o sandbox .createSession
  modify fun s => { s with session := true, sessionCreated := true }
  awaitStep o sandbox .readEvents
  modify fun s => { s with sessionFile := o.sessionFile }
  awaitStep o sandbox .sessionStarted
  awaitStep o sandbox .prompt
  when plan.hasOutputSchema (finalAnswer o sandbox)
  awaitStep o sandbox .waitForIdle
  awaitStep o sandbox .throwIfAborted
  awaitStep o sandbox .stopBudgetSteering
  modify fun s => { s with usage := o.usage }
  awaitStep o sandbox .putOutput
  let artifact := boundAttemptOutput o.rawOutput plan.outputBytes
  let inline := boundAttemptOutput artifact.1 maxInlineOutputBytes
  modify fun s => { s with
    outputRef := some o.outputRef, output := inline.1, truncated := artifact.2 || inline.2 }
  when (plan.totalTokens.any (fun limit => limit < o.usage.totalTokens) ||
      plan.cost.less o.usage.cost)
    (throw ⟨.other, ofString "Error", ofString "attempt usage limit exceeded"⟩)
  modify fun s => { s with session := false }

/-- `releaseSnapshot`. -/
def releaseSnapshot : CleanupOutcome := if o.removeSnapshot.isOk then .proved else .blocked

/-- The workspace of an attempt whose sandbox is closed. -/
def settleWorkspace : AttemptM Unit := do
  when o.hasSnapshot (modify fun s => { s with workspaceCleanup := releaseSnapshot o })
  when (o.hasSnapshot && !o.removeSnapshot.isOk)
    (throw ⟨.other, ofString "Error", ofString "read-only snapshot removal was not proved"⟩)
  when (plan.mode = .worktree) do
    when o.worktree.isNone
      (throw ⟨.other, ofString "Error", ofString "writing attempt has no worktree record"⟩)
    let handoff ← liftExcept o.finalizeHandoff
    modify fun s => { s with handoff := some handoff, workspaceCleanup := .proved }

/-- The result and terminal event of an attempt that went through. -/
def completeAttempt : AttemptM AttemptExecutionResult := do
  let s ← get
  let result ← liftExcept (terminalResult
    { runId := plan.runId.val
      status := .completed
      output := s.outputRef
      structuredOutput := s.structuredOutput
      usage := s.usage
      usageComplete := true
      runtimeMs := o.runtimeMs
      failure := none
      sandboxCleanup := s.sandboxCleanup
      workspaceCleanup := s.workspaceCleanup
      truncated := s.truncated })
  let execution : AttemptExecutionResult :=
    ⟨result, s.output, s.sessionFile, s.handoff, s.structuredOutput, none⟩
  appendTerminal "attempt-completed" execution o.appendCompleted
  writeSnapshot execution o.snapshotCompleted
  pure execution

/-- The `try` block. -/
def attemptBody : AttemptM AttemptExecutionResult := do
  liftExcept o.firstAbortCheck
  liftExcept o.resolveModel
  let sandbox ← onMachines (createGondolinAttemptSandbox o.sandbox)
  modify fun s => { s with sandbox := some sandbox }
  runSession plan o sandbox
  closeSandbox o sandbox
  modify fun s => { s with sandboxCleanup := .proved }
  settleWorkspace plan o
  completeAttempt plan o

/-! ## The end of an attempt that throws -/

/-- What is kept of an open session. -/
def keepSession : AttemptM Unit :=
  modify fun s =>
    if s.session then
      let bounded := boundAttemptOutput o.outputInCatch (min plan.outputBytes maxInlineOutputBytes)
      { s with
        usage := o.usageInCatch, output := bounded.1, truncated := bounded.2, session := false }
    else s

/-- How the sandbox is cleaned up, as far as this block holds one. -/
def cleanupSandbox : AttemptM Unit := do
  let s ← get
  match s.sandbox with
  | none => pure ()
  | some sandbox =>
    closeMeanwhile o sandbox o.closesInCatch
    let s ← get
    if s.closed then modify fun s => { s with sandboxCleanup := .proved }
    else
      tryCatch (do
        closeSandbox o sandbox
        modify fun s => { s with sandboxCleanup := .proved }) fun _ =>
        modify fun s => { s with sandboxCleanup := .blocked }

/-- The snapshot, unless the sandbox may still use it. -/
def cleanupSnapshot : AttemptM Unit :=
  modify fun s =>
    if o.hasSnapshot ∧ s.workspaceCleanup = .retained ∧ s.sandboxCleanup ≠ .blocked then
      { s with workspaceCleanup := releaseSnapshot o }
    else s

/-- The status of an attempt that has thrown. -/
def thrownStatus (sandbox workspace : CleanupOutcome) : RunStatus :=
  if sandbox = .blocked ∨ workspace = .blocked then .cleanupBlocked
  else
    match o.aborted with
    | some shutdown => if shutdown then .interrupted else .cancelled
    | none => .failed

/-- The failure of an attempt that has thrown. -/
def thrownFailure (error : Thrown) (s : AttemptState) : ClassifiedFailure :=
  classifyAttemptFailure
    { error := error
      timedOut := o.deadlineAborted && o.aborted.isNone
      fatalToolAbort := o.fatalToolAbort
      externalAbort := o.aborted
      workspaceBudgetExhausted := s.sandbox.isSome && o.budgetExhausted
      sandboxCleanup := s.sandboxCleanup
      workspaceCleanup := s.workspaceCleanup }

/-- The result of an attempt that has thrown. -/
def thrownResult (error : Thrown) (s : AttemptState) : RunResult where
  runId := plan.runId.val
  status := thrownStatus o s.sandboxCleanup s.workspaceCleanup
  output := none
  structuredOutput := none
  usage := s.usage
  usageComplete := !s.sessionCreated
  runtimeMs := o.runtimeMs
  failure := some (thrownFailure o error s)
  sandboxCleanup := s.sandboxCleanup
  workspaceCleanup := s.workspaceCleanup
  truncated := s.truncated

/-- The result and terminal event of an attempt that has thrown. -/
def failAttempt (error : Thrown) : AttemptM AttemptExecutionResult := do
  let s ← get
  let result ← liftExcept (terminalResult (thrownResult plan o error s))
  let execution : AttemptExecutionResult :=
    ⟨result, s.output, s.sessionFile, s.handoff, s.structuredOutput,
      some (thrownFailure o error s).message⟩
  appendTerminal "attempt-failed" execution o.appendFailed
  writeSnapshot execution o.snapshotFailed
  pure execution

/-- The `catch` block. -/
def attemptCatch (error : Thrown) : AttemptM AttemptExecutionResult := do
  keepSession plan o
  cleanupSandbox o
  cleanupSnapshot o
  failAttempt plan o error

/-- `runNativeAttempt`. -/
def runNativeAttempt : AttemptM AttemptExecutionResult := do
  liftExcept o.validation
  liftExcept o.assertCurrent
  liftExcept o.appendStarting
  let execution ← tryCatch (attemptBody plan o) (attemptCatch plan o)
  liftExcept o.finish
  pure execution

/-- The status the seat gives the run when its attempt has ended: an attempt that rejects leaves it
cleanup-blocked. -/
def settledStatus (attempt : Outcome AttemptExecutionResult) : RunStatus :=
  match attempt with
  | .ok execution => execution.result.status
  | .error _ => .cleanupBlocked

end PiSubagent
