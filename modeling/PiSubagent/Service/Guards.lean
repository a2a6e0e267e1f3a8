import PiSubagent.Service.Drift
import PiSubagent.Service.RunSummary

/-!
# What a summary offers and what the operations admit

The summary of a run lists actions; each operation checks the run again when it is called.

* `retry`, `resume`, `abandon`, `release`, `exportHandoff`, `interrupt`, `reconcile`, `control`: the
  checks of the operations, in their order and with their texts.
* `Admitted`: the operation behind an action passes its checks.
* `Ready`, `Visible`: what an operation asks for beyond the summary, and the summary beyond the
  operation.
* **`offered_iff_admitted`**: up to these, an action is offered exactly when it is admitted.
-/

namespace PiSubagent

open JsonText

namespace Guards

open Summaries
open Preflight (AgentLaunchPlan)

/-! ## The operations -/

/-- What an operation throws. -/
inductive Refusal where
  | error (message : JsString)
  /-- `RetryBackoffError`. -/
  | retryBackoff (retryAt : ℤ)
deriving DecidableEq

/-- `if (c) throw new Error(message)`. -/
def refuseIf (c : Prop) [Decidable c] (message : String) : Except Refusal Unit :=
  if c then .error (.error (ofString message)) else .ok ()

/-- What `retryPlan` or `resumePlan` returns or throws; `left` is the number of attempts that are
left. -/
def derived (plan : Option AgentLaunchPlan) (kind : String) (left : ℕ) (permitted : Bool) :
    Except Refusal AgentLaunchPlan :=
  match plan with
  | some plan => .ok plan
  | none => .error (.error (Drift.budgetRefusal kind left permitted))

/-- The wait that is left of a retry. -/
def holdBack (run : Run) (read : RunRead) (ordinal : ℕ) (now : ℤ) : Except Refusal Unit :=
  let retryDelay := retryDelayMs run.failure ordinal
  if 0 < retryDelay then
    match lastOfType read.events "attempt-failed" with
    | none => .error (.error (ofString "retry terminal evidence is unavailable"))
    | some terminalEvent =>
      match dateParse terminalEvent.timestamp with
      | none => .ok ()
      | some t => if now < t + retryDelay then .error (.retryBackoff (t + retryDelay)) else .ok ()
  else .ok ()

variable (S : Preflight.Platform) (D : RunLife.AttemptDigest)

/-- `retry`, up to `startAttempt`; `host` is how the checks of the workspace, the agent, the model
and the projections come out. -/
def retry (run : Run) (read : RunRead) (now : ℤ) (host : Except Refusal Unit) :
    Except Refusal AgentLaunchPlan :=
  match run.result with
  | none => .error (.error (ofString "run is not retryable"))
  | some execution => do
    refuseIf (run.status ≠ .failed) "run is not retryable"
    refuseIf (run.failure.all fun f => f.retry ≠ .manual ∧ f.retry ≠ .backoff)
      "failure classification does not permit retry"
    refuseIf (run.handoffCommit ≠ none)
      "retry would discard the run's hand-off; resume at the hand-off instead"
    match read.attempts.getLast? with
    | none => .error (.error (ofString "attempt history mismatch"))
    | some latest => do
      refuseIf (latest.attemptId ≠ run.plan.attemptId) "attempt history mismatch"
      holdBack run read latest.ordinal now
      host
      derived (Preflight.retryPlan S (.double D) run.plan execution.result (latest.ordinal + 1)) "retry"
        run.plan.limits.retries (RunLife.retryIs execution.result [.manual, .backoff])

/-- `resume` of the retained session, up to `startAttempt`. -/
def resume (run : Run) (read : RunRead) (host : Except Refusal Unit) :
    Except Refusal AgentLaunchPlan :=
  match run.result with
  | none => .error (.error (ofString "run is not resumable"))
  | some execution => do
    refuseIf (run.status ≠ .interrupted ∨ execution.sessionFile = none) "run is not resumable"
    refuseIf (run.failure.all fun f => f.retry ≠ .resume)
      "failure classification does not permit resume"
    match read.attempts.getLast? with
    | none => .error (.error (ofString "attempt history mismatch"))
    | some latest => do
      refuseIf (latest.attemptId ≠ run.plan.attemptId) "attempt history mismatch"
      let plan ← derived
        (Preflight.resumePlan S (.double D) run.plan execution.result (latest.ordinal + 1) false) "resume"
        run.plan.limits.resumes (RunLife.retryIs execution.result [.resume])
      host
      return plan

/-- The checks of `abandon` before it takes the lease. -/
def abandon (run : Run) : Except Refusal Unit :=
  match run.result with
  | none => .error (.error (ofString
      "only an interrupted run with terminal evidence can be abandoned"))
  | some execution => do
    refuseIf (run.status ≠ .interrupted)
      "only an interrupted run with terminal evidence can be abandoned"
    refuseIf (execution.result.sandboxCleanup.done = false)
      "run cleanup is unproved; reconcile before abandoning"

/-- The checks of `release` before it takes the lease. -/
def release (run : Run) : Except Refusal Unit :=
  if run.status ∈ [.active, .stopping, .interrupted] then
    .error (.error (ofString (if run.status = .interrupted then
        "abandon an interrupted run to release its recovery workspace"
      else "active run cannot release its workspace")))
  else .ok ()

/-- The checks of `exportHandoff` before it takes the lease. -/
def exportHandoff (run : Run) : Except Refusal Unit :=
  if run.status ∉ Summaries.handoffExportStatuses then
    .error (.error (ofString ("handoff export requires a durable terminal run; run is " ++
      run.status.text)))
  else refuseIf (run.handoffCommit = none) "run has no handoff commit to export"

/-- `interrupt` aborts the session. -/
def interrupts (run : Run) : Bool := run.status = .active

/-- `reconcile` looks at the outside. -/
def reconciles (run : Run) : Bool := run.status = .cleanupBlocked

/-- `deliverControl` hands the text to the session. -/
def delivers (run : Run) : Bool := run.status = .active ∧ run.control = true

/-- The operation behind an action passes its checks, where those of the host do. `pin` and `unpin`
look only for the run, and the output of a run is exported where there is one (`extension.ts`). -/
def Admitted (run : Run) (read : RunRead) (now : ℤ) : RunAction → Prop
  | .steer | .followUp => delivers run = true
  | .stop => interrupts run = true
  | .retry => ∃ plan, retry S D run read now (.ok ()) = .ok plan
  | .resume => ∃ plan, resume S D run read (.ok ()) = .ok plan
  | .reconcile => reconciles run = true
  | .releaseWorkspace => release run = .ok ()
  | .abandon => abandon run = .ok ()
  | .pin | .unpin => True
  | .exportOutput => run.result.any (·.result.output.isSome) = true
  | .exportHandoff => exportHandoff run = .ok ()

/-- The latest attempt record is that of the plan. -/
def Current (run : Run) (read : RunRead) : Prop :=
  ∃ latest, read.attempts.getLast? = some latest ∧ latest.attemptId = run.plan.attemptId

/-- A retry that is held back has an event to count from. -/
def Dated (run : Run) (read : RunRead) : Prop :=
  ∀ latest, read.attempts.getLast? = some latest → 0 < retryDelayMs run.failure latest.ordinal →
    (lastOfType read.events "attempt-failed").isSome

/-- What an operation asks for beyond the summary. -/
def Ready (run : Run) (read : RunRead) : RunAction → Prop
  | .retry => Current run read ∧ Dated run read
  | .resume => Current run read
  | _ => True

/-- What the summary asks for beyond the operation. -/
def Visible (run : Run) (pinnedRuns : List RunId) (read : RunRead) : RunAction → Prop
  | .abandon => read.workspaceReleasable = true
  | .releaseWorkspace => read.retainedWorktree = true ∧ read.workspaceReleasable = true
  | .pin => run.status ∈ [.completed, .failed, .cancelled, .abandoned] ∧
      (runFacts run pinnedRuns read).pinned = false
  | .unpin => run.status ∈ [.completed, .failed, .cancelled, .abandoned] ∧
      (runFacts run pinnedRuns read).pinned = true
  | _ => True

/-! ## What the checks pass -/

@[simp] theorem refuseIf_eq_ok {c : Prop} [Decidable c] {message : String} {u : Unit} :
    refuseIf c message = .ok u ↔ ¬ c := by
  unfold refuseIf
  split <;> simp_all

@[simp] theorem derived_eq_ok {found : Option AgentLaunchPlan} {kind : String} {left : ℕ}
    {permitted : Bool} {plan : AgentLaunchPlan} :
    derived found kind left permitted = .ok plan ↔ found = some plan := by
  cases found with
  | none => simp [derived]
  | some p => simp [derived]

/-- What is left of the budget is enough exactly when the limits after the result are there. -/
theorem budgetLeft_iff {run : Run} {execution : AttemptExecutionResult}
    (h : run.result = some execution) :
    budgetLeft run = true ↔ (run.plan.limits.toLimits.after Double.rounded execution.result).isSome := by
  simp only [budgetLeft, h, RunLife.Limits.after, Bool.and_eq_true, decide_eq_true_eq]
  split_ifs with hnone
  · refine iff_of_false ?_ (by simp)
    rintro ⟨⟨hms, htokens⟩, hcost⟩
    rcases hnone with hms' | htokens' | hcost'
    · omega
    · cases ht : run.plan.limits.totalTokens with
      | none => simp [ht] at htokens'
      | some n =>
        simp only [ht, Option.map_some, Option.any_some, Option.all_some, decide_eq_true_eq]
          at htokens' htokens
        omega
    · linarith
  · refine iff_of_true ?_ rfl
    push Not at hnone
    refine ⟨⟨by omega, ?_⟩, hnone.2.2⟩
    cases ht : run.plan.limits.totalTokens with
    | none => rfl
    | some n =>
      have htokens := hnone.2.1
      simp only [ht, Option.map_some, Option.any_some, Option.all_some, decide_eq_true_eq, ne_eq]
        at htokens ⊢
      omega

theorem retryPlan_isSome {run : Run} {execution : AttemptExecutionResult}
    (h : run.result = some execution) (ordinal : ℕ) :
    (Preflight.retryPlan S (.double D) run.plan execution.result ordinal).isSome ↔
      0 < run.plan.limits.retries ∧
        run.failure.any (fun f => f.retry = .manual ∨ f.retry = .backoff) = true ∧
          budgetLeft run = true := by
  have hfailure : run.failure = execution.result.failure := by rw [Summaries.Run.failure, h]; rfl
  have hretries : run.plan.toPlan.limits.retries = run.plan.limits.retries := rfl
  have hafter : run.plan.toPlan.limits = run.plan.limits.toLimits := rfl
  rw [Preflight.retryPlan, Option.isSome_map, RunLife.retryPlan, budgetLeft_iff h, hfailure, hafter]
  have his : RunLife.retryIs execution.result [.manual, .backoff] =
      execution.result.failure.any fun f => decide (f.retry = .manual ∨ f.retry = .backoff) := by
    simp only [RunLife.retryIs, List.mem_cons, List.not_mem_nil, or_false]
  rw [his]
  split_ifs with hc
  · refine iff_of_false (by simp) ?_
    rintro ⟨hpos, hclass, -⟩
    rcases hc with hc | hc
    · omega
    · rw [hc] at hclass
      cases hclass
  · push Not at hc
    rw [Option.isSome_map]
    refine ⟨fun hsome => ⟨by omega, ?_, hsome⟩, fun hall => hall.2.2⟩
    simpa using hc.2

theorem resumePlan_isSome {run : Run} {execution : AttemptExecutionResult}
    (h : run.result = some execution) (ordinal : ℕ) :
    (Preflight.resumePlan S (.double D) run.plan execution.result ordinal false).isSome ↔
      0 < run.plan.limits.resumes ∧ run.failure.any (fun f => f.retry = .resume) = true ∧
        budgetLeft run = true := by
  have hfailure : run.failure = execution.result.failure := by rw [Summaries.Run.failure, h]; rfl
  have hresumes : run.plan.toPlan.limits.resumes = run.plan.limits.resumes := rfl
  have hafter : run.plan.toPlan.limits = run.plan.limits.toLimits := rfl
  rw [Preflight.resumePlan, Option.isSome_map, RunLife.resumePlan, budgetLeft_iff h, hfailure,
    hafter]
  have his : RunLife.retryIs execution.result [.resume] =
      execution.result.failure.any fun f => decide (f.retry = .resume) := by
    simp only [RunLife.retryIs, List.mem_cons, List.not_mem_nil, or_false]
  rw [his]
  split_ifs with hc
  · refine iff_of_false (by simp) ?_
    rintro ⟨hpos, hclass, -⟩
    rcases hc with hc | hc
    · omega
    · simp [hclass] at hc
  · push Not at hc
    rw [Option.isSome_map]
    refine ⟨fun hsome => ⟨by omega, ?_, hsome⟩, fun hall => hall.2.2⟩
    simpa using hc.2

/-- A retry is not held back when it has an event to count from, and the wait is over. -/
theorem holdBack_eq_ok {run : Run} {read : RunRead} {latest : AttemptRecords.AttemptRecord}
    (h : read.attempts.getLast? = some latest) {now : ℤ} {u : Unit} :
    holdBack run read latest.ordinal now = .ok u ↔
      Dated run read ∧ (retryAt run read).all (· ≤ now) = true := by
  have hordinal : (read.attempts.getLast?.map (·.ordinal)).getD 0 = latest.ordinal := by
    rw [h]
    rfl
  have hdated : Dated run read ↔ (0 < retryDelayMs run.failure latest.ordinal →
      (lastOfType read.events "attempt-failed").isSome) := by
    constructor
    · exact fun hd => hd latest h
    · intro hd l hl
      cases h.symm.trans hl
      exact hd
  rw [hdated, retryAt, holdBack, hordinal]
  split_ifs with hdelay
  · cases lastOfType read.events "attempt-failed" with
    | none => simp [hdelay]
    | some e =>
      cases ht : dateParse e.timestamp with
      | none => simp [ht]
      | some t =>
        simp only [ht, Option.bind_some, Option.map_some, Option.isSome_some, Option.all_some,
          decide_eq_true_eq, implies_true, true_and]
        split_ifs with hnow
        · exact iff_of_false (by simp) (by omega)
        · exact iff_of_true rfl (by omega)
  · exact iff_of_true rfl ⟨fun hd => absurd hd hdelay, rfl⟩

/-! ## The actions of a summary -/

@[simp] theorem mem_pushIf {c : Prop} [Decidable c] {actions : List RunAction} {a : RunAction} :
    a ∈ pushIf c actions ↔ c ∧ a ∈ actions := by
  unfold pushIf
  split_ifs with hc
  · exact ⟨fun ha => ⟨hc, ha⟩, And.right⟩
  · exact ⟨fun ha => absurd ha List.not_mem_nil, fun ha => absurd ha.1 hc⟩

/-- The condition under which an action is listed. -/
def Listed (facts : RunActionFacts) : RunAction → Prop
  | .steer | .followUp => facts.status = .active ∧ facts.controllable = true
  | .stop => facts.status = .active
  | .retry => facts.retryable = true ∧ facts.retryAvailable = true
  | .resume => facts.resumable = true
  | .abandon => facts.status = .interrupted ∧ facts.abandonable = true
  | .reconcile => facts.status = .cleanupBlocked
  | .releaseWorkspace => facts.retainedWorktree = true ∧ facts.workspaceReleasable = true ∧
      facts.status ∉ [.active, .stopping, .interrupted]
  | .pin => facts.status ∈ [.completed, .failed, .cancelled, .abandoned] ∧ facts.pinned = false
  | .unpin => facts.status ∈ [.completed, .failed, .cancelled, .abandoned] ∧ facts.pinned = true
  | .exportOutput => facts.hasOutput = true
  | .exportHandoff => facts.hasHandoff = true ∧ facts.status ∈ Summaries.handoffExportStatuses

theorem mem_availableRunActions {facts : RunActionFacts} {a : RunAction} :
    a ∈ availableRunActions facts ↔ Listed facts a := by
  cases hp : facts.pinned <;> cases a <;>
    simp [availableRunActions, Listed, hp]

/-! ## The two sides -/

variable {S D}

theorem retry_ok_iff {run : Run} {read : RunRead} {now : ℤ} :
    (∃ plan, retry S D run read now (.ok ()) = .ok plan) ↔
      (Current run read ∧ Dated run read) ∧ run.status = .failed ∧ run.result.isSome ∧
        run.failure.any (fun f => f.retry = .manual ∨ f.retry = .backoff) = true ∧
          run.handoffCommit = none ∧ 0 < run.plan.limits.retries ∧ budgetLeft run = true ∧
            (retryAt run read).all (· ≤ now) = true := by
  unfold retry
  cases hr : run.result with
  | none => exact iff_of_false (by simp) (by simp)
  | some execution =>
    have hclass :
        (run.failure.all fun f => decide (f.retry ≠ .manual ∧ f.retry ≠ .backoff)) = true ↔
        ¬ run.failure.any (fun f => decide (f.retry = .manual ∨ f.retry = .backoff)) = true := by
      cases run.failure with
      | none => simp
      | some f => simp
    simp only [Preflight.bind_eq_ok, refuseIf_eq_ok, exists_const, hclass, not_not, ne_eq]
    cases hl : read.attempts.getLast? with
    | none =>
      have hcurrent : ¬ Current run read := by
        rintro ⟨latest, hlatest, -⟩
        cases hl.symm.trans hlatest
      exact iff_of_false (by simp) fun h => hcurrent h.1.1
    | some latest =>
      have hcurrent : Current run read ↔ latest.attemptId = run.plan.attemptId := by
        constructor
        · rintro ⟨l, hl', he⟩
          cases hl.symm.trans hl'
          exact he
        · exact fun he => ⟨latest, hl, he⟩
      have hplan : (∃ plan, Preflight.retryPlan S (.double D) run.plan execution.result
          (latest.ordinal + 1) = some plan) ↔ _ :=
        Option.isSome_iff_exists.symm.trans (retryPlan_isSome S D hr (latest.ordinal + 1))
      simp only [Preflight.bind_eq_ok, refuseIf_eq_ok, exists_const, not_not, derived_eq_ok,
        holdBack_eq_ok hl, true_and, exists_and_left, hplan, ← hcurrent, Option.isSome_some]
      tauto

/-- What a resume of the session passes when the host has nothing against it. -/
theorem resume_ok_iff {run : Run} {read : RunRead} :
    (∃ plan, resume S D run read (.ok ()) = .ok plan) ↔
      Current run read ∧ run.status = .interrupted ∧ run.result.any (·.sessionFile.isSome) = true ∧
        run.failure.any (fun f => f.retry = .resume) = true ∧ 0 < run.plan.limits.resumes ∧
          budgetLeft run = true := by
  unfold resume
  cases hr : run.result with
  | none => exact iff_of_false (by simp) (by simp)
  | some execution =>
    have hclass : (run.failure.all fun f => decide (f.retry ≠ .resume)) = true ↔
        ¬ run.failure.any (fun f => decide (f.retry = .resume)) = true := by
      cases run.failure with
      | none => simp
      | some f => simp
    simp only [Preflight.bind_eq_ok, refuseIf_eq_ok, exists_const, hclass, not_not, ne_eq]
    cases hl : read.attempts.getLast? with
    | none =>
      have hcurrent : ¬ Current run read := by
        rintro ⟨latest, hlatest, -⟩
        cases hl.symm.trans hlatest
      exact iff_of_false (by simp) fun h => hcurrent h.1
    | some latest =>
      have hcurrent : Current run read ↔ latest.attemptId = run.plan.attemptId := by
        constructor
        · rintro ⟨l, hl', he⟩
          cases hl.symm.trans hl'
          exact he
        · exact fun he => ⟨latest, hl, he⟩
      have hplan : (∃ plan, Preflight.resumePlan S (.double D) run.plan execution.result
          (latest.ordinal + 1) false = some plan) ↔ _ :=
        Option.isSome_iff_exists.symm.trans (resumePlan_isSome S D hr (latest.ordinal + 1))
      simp only [Preflight.bind_eq_ok, refuseIf_eq_ok, exists_const, not_not, derived_eq_ok,
        true_and, ← hcurrent, Option.any_some, pure, Except.pure, Except.ok.injEq, exists_eq_right,
        exists_and_left, hplan, not_or, ← ne_eq, ← Option.isSome_iff_ne_none]
      tauto

theorem release_eq_ok {run : Run} {u : Unit} :
    release run = .ok u ↔ run.status ∉ [.active, .stopping, .interrupted] := by
  unfold release
  split_ifs with h <;> simp [h]

theorem exportHandoff_eq_ok {run : Run} {u : Unit} : exportHandoff run = .ok u ↔
    run.handoffCommit.isSome = true ∧ run.status ∈ Summaries.handoffExportStatuses := by
  by_cases h : run.status ∈ Summaries.handoffExportStatuses
  · rw [exportHandoff, if_neg (not_not.mpr h), refuseIf_eq_ok, ← ne_eq, ← Option.isSome_iff_ne_none]
    exact ⟨fun hc => ⟨hc, h⟩, And.left⟩
  · rw [exportHandoff, if_pos h]
    exact iff_of_false (by simp) fun hc => h hc.2

theorem abandon_eq_ok {run : Run} {u : Unit} : abandon run = .ok u ↔ run.status = .interrupted ∧
    run.result.any (fun execution => execution.result.sandboxCleanup.done) = true := by
  unfold abandon
  cases hr : run.result with
  | none => exact iff_of_false (by simp) (by simp)
  | some execution =>
    simp only [Preflight.bind_eq_ok, refuseIf_eq_ok, exists_const, not_not, ne_eq,
      Bool.not_eq_false, Option.any_some]

/-- **The summary offers an action exactly when its operation admits it**, up to what the operation
asks for beyond the summary and the summary beyond the operation. -/
theorem offered_iff_admitted (S : Preflight.Platform) (D : RunLife.AttemptDigest) (run : Run)
    (pinnedRuns : List RunId) (read : RunRead) (now : ℤ) (a : RunAction) :
    (a ∈ (summary run pinnedRuns now read).availableActions ∧ Ready run read a) ↔
      (Admitted S D run read now a ∧ Visible run pinnedRuns read a) := by
  change (a ∈ availableRunActions _ ∧ _) ↔ _
  rw [mem_availableRunActions]
  cases a with
  | retry =>
    rw [Admitted, retry_ok_iff]
    simp only [Listed, Ready, Visible, actionFacts, runFacts, decide_eq_true_eq]
    tauto
  | resume =>
    rw [Admitted, resume_ok_iff]
    simp only [Listed, Ready, Visible, actionFacts, runFacts, decide_eq_true_eq]
    tauto
  | steer => simp [Listed, Ready, Visible, Admitted, actionFacts, runFacts, delivers]
  | followUp => simp [Listed, Ready, Visible, Admitted, actionFacts, runFacts, delivers]
  | stop => simp [Listed, Ready, Visible, Admitted, actionFacts, interrupts]
  | reconcile => simp [Listed, Ready, Visible, Admitted, actionFacts, reconciles]
  | releaseWorkspace =>
    rw [Admitted, release_eq_ok]
    simp only [Listed, Ready, Visible, actionFacts]
    tauto
  | abandon =>
    rw [Admitted, abandon_eq_ok]
    simp only [Listed, Ready, Visible, actionFacts, decide_eq_true_eq]
    tauto
  | pin => simp [Listed, Ready, Visible, Admitted, actionFacts]
  | unpin => simp [Listed, Ready, Visible, Admitted, actionFacts]
  | exportOutput => simp [Listed, Ready, Visible, Admitted, actionFacts]
  | exportHandoff =>
    rw [Admitted, exportHandoff_eq_ok]
    simp only [Listed, Ready, Visible, actionFacts]

end Guards

end PiSubagent
