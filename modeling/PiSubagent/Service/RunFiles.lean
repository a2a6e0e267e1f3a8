import PiSubagent.Lib.Double
import PiSubagent.Service.Results

/-!
# The files of a run and what start-up makes of them

* `Plan`, `retryPlan`, `resumePlan`: a plan with its limits and the plans derived from it, by a
  `Planner` that computes with exact costs or with doubles.
* `RunEvent`, `RunFiles`: the journal, the snapshot and the attempt records of a run. The events are
  those that start-up and the operations look for.
* `abandonmentPending`, `durableStatusIs`: `hasPendingAbandonment` and `assertDurableStatus` on them
  (`abandonmentPending_eq`, `durableStatusIs_eq`).
* `RunFiles.recovered`: the result start-up takes from the files, and what it writes.
-/

namespace PiSubagent

open JsonText

/-- The value of a decimal number. -/
def decimalValue (d : Decimal) : ℚ := (if d.neg then -1 else 1) * d.mant * (10 : ℚ) ^ d.exp

namespace RunLife

/-! ## Plans -/

/-- `RunLimits`, as far as attempts use them up. -/
structure Limits where
  cumulativeRuntimeMs : ℕ
  attemptTimeoutMs : ℕ
  totalTokens : Option ℕ
  cost : ℚ
  retries : ℕ
  resumes : ℕ
deriving DecidableEq, Repr

/-- `AgentLaunchPlan`: what the operations on a run use of it. -/
structure Plan extends RunPlan where
  limits : Limits

/-- The kinds of attempts. -/
inductive AttemptKind where
  | initial | retry | resume
deriving DecidableEq, Repr

/-- The digest of `{ runId, parentAttemptId, ordinal, kind }` behind `attempt_`. -/
abbrev AttemptDigest := JsString → JsString → ℕ → AttemptKind → JsString

/-- What `retryPlan` and `resumePlan` compute with: the digest of an attempt, and what arithmetic makes
of a cost. -/
structure Planner where
  digest : AttemptDigest
  round : ℚ → ℚ

/-- Costs are exact. -/
def Planner.exact (digest : AttemptDigest) : Planner := ⟨digest, id⟩

/-- Costs are doubles. -/
def Planner.double (digest : AttemptDigest) : Planner := ⟨digest, Double.rounded⟩

/-- What an attempt leaves of the limits; `none` when the budget is exhausted. -/
def Limits.after (round : ℚ → ℚ) (l : Limits) (r : RunResult) : Option Limits :=
  let runtimeMs := l.cumulativeRuntimeMs - r.runtimeMs
  let tokens := l.totalTokens.map fun limit => limit - r.usage.totalTokens
  let cost := round (l.cost - round (decimalValue r.usage.cost))
  if runtimeMs < 1000 ∨ tokens.any (fun n => decide (n < 1)) ∨ cost ≤ 0 then none
  else some { l with
    cumulativeRuntimeMs := runtimeMs
    attemptTimeoutMs := min l.attemptTimeoutMs runtimeMs
    totalTokens := tokens
    cost := cost }

/-- The identity of a derived attempt. -/
def derivedAttemptId (D : Planner) (current : Plan) (ordinal : ℕ) (kind : AttemptKind) :
    JsString :=
  ofString "attempt_" ++ D.digest current.runId.val current.attemptId ordinal kind

/-- The failure of a result has one of the given dispositions. -/
def retryIs (r : RunResult) (dispositions : List FailureRetry) : Bool :=
  r.failure.any fun f => decide (f.retry ∈ dispositions)

/-- `retryPlan`; `none` when it throws. -/
def retryPlan (D : Planner) (current : Plan) (r : RunResult) (ordinal : ℕ) : Option Plan :=
  if current.limits.retries < 1 ∨ retryIs r [.manual, .backoff] = false then none
  else (current.limits.after D.round r).map fun limits =>
    { current with
      attemptId := derivedAttemptId D current ordinal .retry
      limits := { limits with retries := current.limits.retries - 1 } }

/-- `resumePlan`; `none` when it throws. -/
def resumePlan (D : Planner) (current : Plan) (r : RunResult) (ordinal : ℕ)
    (continueFromHandoff : Bool) : Option Plan :=
  if current.limits.resumes < 1 ∨ (!continueFromHandoff && !retryIs r [.resume]) = true then none
  else (current.limits.after D.round r).map fun limits =>
    { current with
      attemptId := derivedAttemptId D current ordinal .resume
      limits := { limits with resumes := current.limits.resumes - 1 } }

/-! ## Events -/

/-- `ProcessIdentity`. -/
structure ProcessIdentity where
  pid : ℕ
  startedAtMs : ℕ
  commandSha256 : JsString
deriving DecidableEq, Repr

/-- The events of a journal, with the data the service reads again. -/
inductive RunEvent where
  | attemptStarting (attemptId : JsString)
  /-- A receipt that names no process is `none`. -/
  | sandboxStarted (identity : Option ProcessIdentity)
  | sessionStarted
  | usageCheckpoint (attemptId : JsString) (usage : Usage) (runtimeMs : ℕ)
  | attemptCompleted (execution : AttemptExecutionResult)
  | attemptFailed (execution : AttemptExecutionResult)
  | startupReconciled
  | runReconciled (status : RunStatus)
  | runReleased
  | resumeAtHandoff
  | runAbandoning
  | runAbandoned (result : RunResult)

/-- The type of an event. -/
def RunEvent.type : RunEvent → String
  | .attemptStarting _ => "attempt-starting"
  | .sandboxStarted _ => "sandbox-started"
  | .sessionStarted => "session-started"
  | .usageCheckpoint .. => "usage-checkpoint"
  | .attemptCompleted _ => "attempt-completed"
  | .attemptFailed _ => "attempt-failed"
  | .startupReconciled => "startup-reconciled"
  | .runReconciled _ => "run-reconciled"
  | .runReleased => "run-released"
  | .resumeAtHandoff => "resume-at-handoff"
  | .runAbandoning => "run-abandoning"
  | .runAbandoned _ => "run-abandoned"

def RunEvent.isAbandoning : RunEvent → Bool
  | .runAbandoning => true
  | _ => false

/-- The result a run was abandoned with. -/
def RunEvent.abandoned? : RunEvent → Option RunResult
  | .runAbandoned result => some result
  | _ => none

/-- The receipt of a sandbox. -/
def RunEvent.sandbox? : RunEvent → Option (Option ProcessIdentity)
  | .sandboxStarted identity => some identity
  | _ => none

/-- The checkpoint of an attempt. -/
def RunEvent.checkpoint? (attemptId : JsString) : RunEvent → Option (Usage × ℕ)
  | .usageCheckpoint id usage runtimeMs => if id = attemptId then some (usage, runtimeMs) else none
  | _ => none

/-- The start of an attempt. -/
def RunEvent.starts (attemptId : JsString) : RunEvent → Bool
  | .attemptStarting id => id = attemptId
  | _ => false

/-- The last value an event of the list has. -/
def lastOf {α β : Type} (f : α → Option β) (events : List α) : Option β :=
  events.reverse.findSome? f

/-- An abandonment was requested after the last one completed. -/
def abandonmentPending (events : List RunEvent) : Bool :=
  events.foldl (fun pending e =>
    if e.isAbandoning then true else if e.abandoned?.isSome then false else pending) false

/-- The run has been abandoned. -/
def hasAbandoned (events : List RunEvent) : Bool := events.any fun e => e.abandoned?.isSome

/-! ## Files -/

/-- `AttemptRecord`. -/
structure AttemptRecord where
  attemptId : JsString
  ordinal : ℕ
  kind : AttemptKind
  parentAttemptId : Option JsString
  worktreeAttemptId : Option JsString
  plan : Plan

/-- `run.json`. -/
structure Snapshot where
  lastSequence : ℕ
  state : AttemptExecutionResult

/-- What the store holds of a run: the run record's plan once it is there, the attempt records in
the order of their ordinals, the journal, the snapshot, and the records of the worktrees and
read-only snapshots its attempts have reserved. -/
structure RunFiles where
  plan : Plan
  recorded : Bool
  attempts : List AttemptRecord
  events : List RunEvent
  snapshot : Option Snapshot
  worktrees : List JsString
  snapshots : List JsString

/-- `assertDurableStatus` accepts. -/
def durableStatusIs (f : RunFiles) (expected : RunStatus) : Bool :=
  if hasAbandoned f.events then expected = .abandoned
  else if abandonmentPending f.events then expected = .cleanupBlocked
  else
    match f.snapshot with
    | some snapshot =>
      isRunResult snapshot.state.result && decide (snapshot.state.result.status = expected)
    | none => false

namespace RunFiles

variable (f : RunFiles)

/-- `attemptRecords.latest`. -/
def latest : Option AttemptRecord := f.attempts.getLast?

/-- The plan start-up gives the run. -/
def recoveredPlan : Plan := (f.latest.map AttemptRecord.plan).getD f.plan

/-- The usage and runtime the latest attempt has reported, as far as their checks accept them. -/
def checkpoint : Usage × ℕ :=
  match lastOf (RunEvent.checkpoint? f.recoveredPlan.attemptId) f.events with
  | some (usage, runtimeMs) =>
    (if usage.cost.neg then emptyUsage else usage,
      if runtimeMs ≤ maxSafeInteger then runtimeMs else 0)
  | none => (emptyUsage, 0)

/-- The sequence of the start of the latest attempt. -/
def latestStart : Option ℕ :=
  match f.events.reverse.findIdx? (RunEvent.starts f.recoveredPlan.attemptId) with
  | some i => some (f.events.length - i)
  | none => none

/-- The snapshot is not older than the start of the latest attempt. -/
def snapshotCoversLatestAttempt : Bool :=
  f.latestStart.all fun start => decide (start ≤ (f.snapshot.map Snapshot.lastSequence).getD 0)

/-- The result of the snapshot, when it covers the latest attempt. -/
def priorResult : Option RunResult :=
  match f.snapshot with
  | some snapshot =>
    if f.snapshotCoversLatestAttempt && isRunResult snapshot.state.result then
      some snapshot.state.result
    else none
  | none => none

/-- The durable result of the run. -/
def persistedResult : Option RunResult :=
  match lastOf RunEvent.abandoned? f.events with
  | some result => if isRunResult result then some result else f.priorResult
  | none => f.priorResult

/-- What start-up calls a run whose abandonment was interrupted. -/
def pendingResult : RunResult where
  runId := f.recoveredPlan.runId.val
  status := .cleanupBlocked
  output := none
  structuredOutput := none
  usage := (f.priorResult.map RunResult.usage).getD f.checkpoint.1
  usageComplete := (f.priorResult.map RunResult.usageComplete).getD false
  runtimeMs := (f.priorResult.map RunResult.runtimeMs).getD f.checkpoint.2
  failure := some ⟨.workspace, .service, .reconcile,
    ofString "Operator abandonment was interrupted before cleanup proof",
    ofString "Reconcile cleanup to finish abandonment.", none⟩
  sandboxCleanup := (f.priorResult.map RunResult.sandboxCleanup).getD .unknown
  workspaceCleanup := if sharesLiveCheckout f.recoveredPlan.toRunPlan then .notNeeded else .unknown
  truncated := (f.priorResult.map RunResult.truncated).getD false

/-- What start-up calls a run whose attempt was lost. -/
def lostResult : RunResult where
  runId := f.recoveredPlan.runId.val
  status := .cleanupBlocked
  output := none
  structuredOutput := none
  usage := f.checkpoint.1
  usageComplete := false
  runtimeMs := f.checkpoint.2
  failure := some ⟨.unknown, .service, .reconcile,
    ofString "Terminal state was not proved before seat loss",
    ofString "Reconcile external state before continuing.", none⟩
  sandboxCleanup := .unknown
  workspaceCleanup := if sharesLiveCheckout f.recoveredPlan.toRunPlan then .notNeeded else .unknown
  truncated := false

/-- The result start-up takes, and the error it writes with it when it is new. -/
def recovered : RunResult × Option JsString :=
  if abandonmentPending f.events then
    (f.pendingResult, some (ofString "operator abandonment requires reconciliation"))
  else
    match f.persistedResult with
    | some result => (result, none)
    | none => (f.lostResult, some (ofString "terminal state was not proved before seat loss"))

/-- What start-up puts into memory, given what the worktree records say of the hand-off. -/
def recoveredExecution (handoff : Option WorktreeRecord) : AttemptExecutionResult :=
  let result := f.recovered.1
  let state := f.snapshot.map Snapshot.state
  if result.status = .abandoned then
    ⟨result, [], none, none, none, some (ofString "run permanently abandoned by operator")⟩
  else
    { result := result
      output := (state.map AttemptExecutionResult.output).getD []
      sessionFile := state.bind AttemptExecutionResult.sessionFile
      handoff := handoff
      structuredOutput := result.structuredOutput
      error := state.bind AttemptExecutionResult.error }

end RunFiles

/-! ## Scans of the journal -/

theorem abandonmentPending_concat (events : List RunEvent) (e : RunEvent) :
    abandonmentPending (events ++ [e]) =
      if e.isAbandoning then true
      else if e.abandoned?.isSome then false else abandonmentPending events := by
  unfold abandonmentPending
  rw [List.foldl_append]
  rfl

theorem hasAbandoned_concat (events : List RunEvent) (e : RunEvent) :
    hasAbandoned (events ++ [e]) = (hasAbandoned events || e.abandoned?.isSome) := by
  unfold hasAbandoned
  rw [List.any_append, List.any_cons, List.any_nil, Bool.or_false]

theorem lastOf_concat {α β : Type} (f : α → Option β) (events : List α) (e : α) :
    lastOf f (events ++ [e]) = (f e).or (lastOf f events) := by
  unfold lastOf
  rw [List.reverse_append, List.reverse_singleton, List.singleton_append, List.findSome?_cons]
  cases f e <;> rfl

/-- The sequence of the last event with a property. -/
def lastSequence (p : RunEvent → Bool) (events : List RunEvent) : Option ℕ :=
  match events.reverse.findIdx? p with
  | some i => some (events.length - i)
  | none => none

theorem lastSequence_concat (p : RunEvent → Bool) (events : List RunEvent) (e : RunEvent) :
    lastSequence p (events ++ [e]) =
      if p e then some (events.length + 1) else lastSequence p events := by
  unfold lastSequence
  rw [List.reverse_append, List.reverse_singleton, List.singleton_append, List.findIdx?_cons,
    List.length_append, List.length_singleton]
  by_cases he : p e = true
  · simp [he]
  · rw [if_neg he, if_neg he]
    cases events.reverse.findIdx? p with
    | none => rfl
    | some i => simp

theorem RunFiles.latestStart_eq (f : RunFiles) :
    f.latestStart = lastSequence (RunEvent.starts f.recoveredPlan.attemptId) f.events := rfl

/-- The event says nothing of an attempt's start, usage and result, or of an abandonment. -/
def RunEvent.isQuiet : RunEvent → Bool
  | .sandboxStarted _ | .sessionStarted | .startupReconciled | .runReconciled _ | .runReleased
  | .resumeAtHandoff => true
  | _ => false

theorem abandonmentPending_quiet (events : List RunEvent) {e : RunEvent} (he : e.isQuiet = true) :
    abandonmentPending (events ++ [e]) = abandonmentPending events := by
  rw [abandonmentPending_concat]
  cases e <;> first | rfl | cases he

theorem lastOf_quiet {α : Type} {f : RunEvent → Option α} (events : List RunEvent) {e : RunEvent}
    (hf : f e = none) : lastOf f (events ++ [e]) = lastOf f events := by
  rw [lastOf_concat, hf]
  rfl

theorem RunFiles.recovered_quiet (f : RunFiles) (events : List RunEvent) {e : RunEvent}
    (he : e.isQuiet = true) :
    { f with events := events ++ [e] }.recovered = { f with events := events }.recovered := by
  have hpending := abandonmentPending_quiet events he
  have habandoned : lastOf RunEvent.abandoned? (events ++ [e]) =
      lastOf RunEvent.abandoned? events := by
    refine lastOf_quiet events ?_
    cases e <;> first | rfl | cases he
  have hcheck : ∀ id, lastOf (RunEvent.checkpoint? id) (events ++ [e]) =
      lastOf (RunEvent.checkpoint? id) events := by
    intro id
    refine lastOf_quiet events ?_
    cases e <;> first | rfl | cases he
  have hstarts : ∀ id, e.starts id = false := by
    intro id
    cases e <;> first | rfl | cases he
  have hstart : { f with events := events ++ [e] }.latestStart =
      { f with events := events }.latestStart := by
    rw [RunFiles.latestStart_eq, RunFiles.latestStart_eq, lastSequence_concat, hstarts]
    rfl
  have hprior : { f with events := events ++ [e] }.priorResult =
      { f with events := events }.priorResult := by
    unfold RunFiles.priorResult RunFiles.snapshotCoversLatestAttempt
    rw [hstart]
  have hcheckpoint : { f with events := events ++ [e] }.checkpoint =
      { f with events := events }.checkpoint := by
    unfold RunFiles.checkpoint
    rw [hcheck]
    rfl
  unfold RunFiles.recovered RunFiles.pendingResult RunFiles.lostResult RunFiles.persistedResult
  rw [hprior, hcheckpoint, hpending, habandoned]
  rfl

/-! ## The same scans of the journal's own events -/

theorem lastIndex_concat (events : List JournalEvent) (e : JournalEvent) (type : String) :
    lastIndex (events ++ [e]) type =
      if e.type = ofString type then some events.length else lastIndex events type := by
  unfold lastIndex
  rw [List.reverse_append, List.reverse_singleton, List.singleton_append, List.takeWhile_cons,
    List.length_append, List.length_singleton]
  by_cases he : e.type = ofString type
  · simp [he]
  · simp only [he, not_false_eq_true, decide_true, if_true, List.length_cons, if_false, ne_eq]
    by_cases hn : (events.reverse.takeWhile fun e => decide ¬e.type = ofString type).length <
        events.length
    · rw [if_pos hn, if_pos (by omega)]
      congr 1
      omega
    · rw [if_neg hn, if_neg (by omega)]

theorem lastIndex_lt {events : List JournalEvent} {type : String} {i : ℕ}
    (h : lastIndex events type = some i) : i < events.length := by
  unfold lastIndex at h
  dsimp only at h
  split_ifs at h with hn
  have hi := Option.some.inj h
  omega

/-- Journal events that say the same. -/
def Encodes (encode : RunEvent → JournalEvent) : Prop := ∀ e, (encode e).type = ofString e.type

theorem RunEvent.type_abandoning (e : RunEvent) :
    ofString e.type = ofString "run-abandoning" ↔ e.isAbandoning = true := by
  rw [ofString_inj]
  cases e <;> simp [RunEvent.type, RunEvent.isAbandoning]

theorem RunEvent.type_abandoned (e : RunEvent) :
    ofString e.type = ofString "run-abandoned" ↔ e.abandoned?.isSome = true := by
  rw [ofString_inj]
  cases e <;> simp [RunEvent.type, RunEvent.abandoned?]

/-- **`hasPendingAbandonment` sees a pending abandonment.** -/
theorem abandonmentPending_eq {encode : RunEvent → JournalEvent} (h : Encodes encode)
    (events : List RunEvent) :
    hasPendingAbandonment (events.map encode) = abandonmentPending events := by
  induction events using List.reverseRecOn with
  | nil => rfl
  | append_singleton events e ih =>
    rw [abandonmentPending_concat, ← ih, List.map_append, List.map_singleton]
    unfold hasPendingAbandonment
    rw [lastIndex_concat, lastIndex_concat, h e]
    by_cases hreq : e.isAbandoning = true
    · have hdone : ¬e.abandoned?.isSome = true := by
        cases e <;> simp_all [RunEvent.isAbandoning, RunEvent.abandoned?]
      rw [if_pos (e.type_abandoning.mpr hreq), if_neg (mt e.type_abandoned.mp hdone), if_pos hreq]
      cases hc : lastIndex (events.map encode) "run-abandoned" with
      | none => rfl
      | some i =>
        have hi := lastIndex_lt hc
        simp only [decide_eq_true_eq]
        exact hi
    · rw [if_neg (mt e.type_abandoning.mp hreq), if_neg hreq]
      by_cases hdone : e.abandoned?.isSome = true
      · rw [if_pos (e.type_abandoned.mpr hdone), if_pos hdone]
        cases hr : lastIndex (events.map encode) "run-abandoning" with
        | none => rfl
        | some i =>
          have hi := lastIndex_lt hr
          simp only [decide_eq_false_iff_not]
          omega
      · rw [if_neg (mt e.type_abandoned.mp hdone), if_neg hdone]

/-- **`assertDurableStatus` accepts just when the durable status is the expected one.** -/
theorem durableStatusIs_eq {encode : RunEvent → JournalEvent} (h : Encodes encode) (f : RunFiles)
    (expected : RunStatus) :
    assertDurableStatus (f.events.map encode) (f.snapshot.map Snapshot.state) expected =
      durableStatusIs f expected := by
  have hany : ((f.events.map encode).any fun e => decide (e.type = ofString "run-abandoned")) =
      hasAbandoned f.events := by
    rw [List.any_map]
    unfold hasAbandoned
    congr 1
    funext e
    rw [Function.comp_apply, h e, Bool.eq_iff_iff, decide_eq_true_eq, e.type_abandoned]
  unfold assertDurableStatus durableStatusIs
  rw [hany, abandonmentPending_eq h]
  cases f.snapshot <;> rfl

end RunLife

end PiSubagent
