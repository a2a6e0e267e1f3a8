import PiSubagent.Runtime.AttemptResults
import PiSubagent.Service.RunDiscipline

/-!
# Every result is a result

* `reconcileExecution_eq_none_iff`: when reconcile refuses its own result.
* **`results_are_valid`**: every result that is stored satisfies `isRunResult`, as long as no run on
  the live checkout is abandoned, and reconcile builds an invalid one just when the session evidence
  is unknown and all cleanup is done.
* `abandonment_stores_invalid_result`: an abandonment on the live checkout stores one that does not,
  and a reconcile that always throws.
-/

namespace PiSubagent

open JsonText

namespace RunLife

open Runs

variable {D : Planner} {s t : RunState}

/-! ## Reconcile -/

theorem reconcileResult_check {plan : RunPlan} {pending : Bool}
    {memory : Option AttemptExecutionResult} {seen : Evidence}
    (hm : ∀ m ∈ memory, m.result.check = true) :
    (reconcileResult plan pending memory seen).check = true := by
  have hstatus : (reconcileStatus pending (reconcileSandboxCleanup pending memory
      seen.sandboxProcess) (reconcileWorkspaceCleanup seen.workspace)
        seen.session).isResultStatus = true := by
    unfold reconcileStatus
    split_ifs
    · rfl
    · rfl
    · split <;> rfl
    · rfl
  have hfailure : ∀ status, (reconcileFailure status).check = true := by
    intro status
    cases status <;> decide
  have houtput : (reconcileResult plan pending memory seen).output.all ArtifactRef.check = true := by
    unfold reconcileResult
    cases pending with
    | true => rfl
    | false =>
      cases memory with
      | none => rfl
      | some m => exact ((RunResult.check_iff m.result).mp (hm m rfl)).2.2.1
  have husage : (reconcileResult plan pending memory seen).usage.cost.neg = false ∧
      (reconcileResult plan pending memory seen).runtimeMs ≤ maxSafeInteger := by
    unfold reconcileResult
    cases memory with
    | none => exact ⟨rfl, Nat.zero_le _⟩
    | some m =>
      obtain ⟨-, -, -, hcost, hms, -⟩ := (RunResult.check_iff m.result).mp (hm m rfl)
      exact ⟨hcost, hms⟩
  exact (RunResult.check_iff _).mpr
    ⟨plan.runId.valid, hstatus, houtput, husage.1, husage.2, hfailure _⟩

/-- The result of an abandonment that reconcile finishes or keeps up is valid. -/
theorem reconcileResult_valid_pending {plan : RunPlan} {memory : Option AttemptExecutionResult}
    {seen : Evidence} (hc : (reconcileResult plan true memory seen).check = true) :
    isRunResult (reconcileResult plan true memory seen) = true := by
  have hproved : cleanupIsProved (reconcileResult plan true memory seen) =
      cleanupProved (reconcileSandboxCleanup true memory seen.sandboxProcess)
        (reconcileWorkspaceCleanup seen.workspace) := rfl
  by_cases hp : cleanupProved (reconcileSandboxCleanup true memory seen.sandboxProcess)
      (reconcileWorkspaceCleanup seen.workspace) = true
  · have hs : (reconcileResult plan true memory seen).status = .abandoned := by
      simp only [reconcileResult, reconcileStatus, if_true, if_pos hp]
    have hf : (reconcileResult plan true memory seen).failure =
        some (reconcileFailure .abandoned) := by
      rw [← hs]
      rfl
    unfold isRunResult
    rw [hc, hs, hf, hproved, hp]
    rfl
  · have hs : (reconcileResult plan true memory seen).status = .cleanupBlocked := by
      simp only [reconcileResult, reconcileStatus, if_true, if_neg hp]
    rw [isRunResult_blocked hc hs rfl, hproved]
    simpa using hp

/-- Outside of an abandonment the result is invalid just when reconcile leaves a run
cleanup-blocked whose cleanup is done. -/
theorem reconcileResult_valid_iff {plan : RunPlan} {memory : Option AttemptExecutionResult}
    {seen : Evidence} (hc : (reconcileResult plan false memory seen).check = true) :
    isRunResult (reconcileResult plan false memory seen) = true ↔
      ¬ (seen.session = .unknown ∧
        (reconcileSandboxCleanup false memory seen.sandboxProcess).done = true ∧
        (reconcileWorkspaceCleanup seen.workspace).done = true) := by
  by_cases hcl : ((reconcileSandboxCleanup false memory seen.sandboxProcess).done &&
      decide (reconcileWorkspaceCleanup seen.workspace ≠ .unknown) &&
        decide (seen.session ≠ .unknown)) = true
  · have hs : (reconcileResult plan false memory seen).status = .interrupted ∨
        (reconcileResult plan false memory seen).status = .failed := by
      simp only [reconcileResult, reconcileStatus, Bool.false_eq_true, if_false]
      rw [if_pos hcl]
      split
      · exact Or.inl rfl
      · exact Or.inr rfl
    have hne : seen.session ≠ .unknown := by simpa using (Bool.and_eq_true_iff.mp hcl).2
    have hv : isRunResult (reconcileResult plan false memory seen) = true :=
      isRunResult_of_check hc rfl (by tauto)
    simp [hv, hne]
  · have hs : (reconcileResult plan false memory seen).status = .cleanupBlocked := by
      simp only [reconcileResult, reconcileStatus, Bool.false_eq_true, if_false]
      rw [if_neg hcl]
    have hproved : cleanupIsProved (reconcileResult plan false memory seen) =
        ((reconcileSandboxCleanup false memory seen.sandboxProcess).done &&
          (reconcileWorkspaceCleanup seen.workspace).done) := rfl
    have hdone : (reconcileWorkspaceCleanup seen.workspace).done = true →
        reconcileWorkspaceCleanup seen.workspace ≠ .unknown := by
      intro h hu
      rw [hu] at h
      cases h
    rw [isRunResult_blocked hc hs rfl, hproved]
    simp only [Bool.and_eq_true, decide_eq_true_eq, not_and, not_not, Bool.and_eq_false_iff,
      Bool.not_eq_true] at hcl ⊢
    constructor
    · rintro (h | h) - hsb
      · rw [h] at hsb
        cases hsb
      · exact h
    · intro h
      by_cases hsb : (reconcileSandboxCleanup false memory seen.sandboxProcess).done = true
      · by_cases hws : (reconcileWorkspaceCleanup seen.workspace).done = true
        · exact Or.inr (h (hcl ⟨hsb, hdone hws⟩) hsb)
        · exact Or.inr (Bool.eq_false_iff.mpr hws)
      · exact Or.inl (Bool.eq_false_iff.mpr hsb)

theorem reconcileExecution_permitted {plan : RunPlan} {pending : Bool}
    {memory : Option AttemptExecutionResult} {seen : Evidence} :
    reconcileExecution plan pending memory seen = none ↔
      isRunResult (reconcileResult plan pending memory seen) = false := by
  have hperm : (reconcileResult plan pending memory seen).status ≠ .abandoned ∨
      transitionRunStatus .cleanupBlocked (.cleanupProved .abandoned
        (reconcileResult plan pending memory seen).sandboxCleanup
        (reconcileResult plan pending memory seen).workspaceCleanup) = some .abandoned := by
    by_cases hp : cleanupProved (reconcileResult plan pending memory seen).sandboxCleanup
        (reconcileResult plan pending memory seen).workspaceCleanup = true
    · right
      simp only [transitionRunStatus, if_pos hp]
    · left
      intro hs
      apply hp
      have hst : reconcileStatus pending (reconcileSandboxCleanup pending memory
        seen.sandboxProcess) (reconcileWorkspaceCleanup seen.workspace) seen.session =
          .abandoned := hs
      unfold reconcileStatus at hst
      split_ifs at hst with h1 h2
      · exact h2
      · split at hst <;> cases hst
  unfold reconcileExecution
  dsimp only
  by_cases hv : isRunResult (reconcileResult plan pending memory seen) = true
  · rw [if_pos ⟨hperm, hv⟩, hv]
    simp
  · rw [if_neg (fun h => hv h.2)]
    simpa using hv

/-- **Reconcile refuses the result it has built just when the session evidence is unknown and all
cleanup is done**, outside of an abandonment. -/
theorem reconcileExecution_eq_none_iff {plan : RunPlan} {pending : Bool}
    {memory : Option AttemptExecutionResult} {seen : Evidence}
    (hm : ∀ m ∈ memory, m.result.check = true) :
    reconcileExecution plan pending memory seen = none ↔
      pending = false ∧ seen.session = .unknown ∧
        (reconcileSandboxCleanup pending memory seen.sandboxProcess).done = true ∧
        (reconcileWorkspaceCleanup seen.workspace).done = true := by
  have hc : (reconcileResult plan pending memory seen).check = true := reconcileResult_check hm
  rw [reconcileExecution_permitted]
  cases pending with
  | true => simp [reconcileResult_valid_pending hc]
  | false =>
    rw [← Bool.not_eq_true, reconcileResult_valid_iff hc]
    simp

/-! ## Every stored result -/

/-- An abandonment is of a run with a checkout of its own. -/
def abandonsCheckout (s : RunState) : RunAct → Bool
  | .abandon seat _ _ => (s.seats seat).all fun run => !sharesLiveCheckout run.plan.toRunPlan
  | _ => true

/-- Every stored result satisfies `isRunResult`. -/
abbrev RunState.Valid (s : RunState) : Prop := s.Results fun r => isRunResult r = true

theorem abandonmentPending_of_none {events : List RunEvent}
    (h : ∀ e ∈ events, e.isAbandoning = false) : abandonmentPending events = false := by
  induction events using List.reverseRecOn with
  | nil => rfl
  | append_singleton events e ih =>
    have he := h e (by simp)
    rw [abandonmentPending_concat, ih (fun e' he' => h e' (by simp [he'])), he]
    simp

/-- The abandonment of a run with its own checkout leaves the workspace to be proved. -/
theorem abandonPending_valid {plan : RunPlan} {previous : RunResult} (h : previous.check = true)
    (hw : sharesLiveCheckout plan = false) :
    isRunResult (abandonPending plan previous).result = true := by
  rw [isRunResult_blocked (abandonPending_check h) rfl rfl]
  simp [cleanupIsProved, abandonPending, bareExecution, abandonResult, hw, CleanupOutcome.done]

theorem pendingResult_valid {f : RunFiles}
    (hw : sharesLiveCheckout f.recoveredPlan.toRunPlan = false) :
    isRunResult f.pendingResult = true := by
  rw [isRunResult_blocked (pendingResult_check f) rfl rfl]
  simp [cleanupIsProved, RunFiles.pendingResult, hw, CleanupOutcome.done]

/-- All stored results are valid, and no run on the live checkout is being abandoned. -/
structure Sound (plan : Plan) (s : RunState) : Prop where
  plans : s.Plans plan
  valid : s.Valid
  owned : sharesLiveCheckout plan.toRunPlan = true → ∀ e ∈ s.files.events, e.isAbandoning = false

theorem abandonsCheckout_abandon {seat cut : ℕ} {released : Bool} {run : ActiveRun}
    (h : abandonsCheckout s (.abandon seat released cut) = true) (hr : s.seats seat = some run) :
    sharesLiveCheckout run.plan.toRunPlan = false := by
  simpa [abandonsCheckout, hr] using h

theorem sound_step {plan : Plan} {a : RunAct} (hs : Sound plan s) (ha : abandonsCheckout s a = true)
    (h : s.step D a = some t) : Sound plan t := by
  refine ⟨plans_step hs.plans h, ?_, ?_⟩
  · refine results_step ⟨fun r hr => hr, fun r => check_of_isRunResult, ?_, ?_⟩ hs.valid h
    · rintro seat released cut run memory rfl hr - - - hm
      exact abandonPending_valid (check_of_isRunResult hm) (abandonsCheckout_abandon ha hr)
    · rintro seat handoff cut rfl hp
      have hsame := hs.plans.recoveredPlan.sharesLiveCheckout
      apply pendingResult_valid
      rw [hsame]
      by_contra hw
      rw [abandonmentPending_of_none (hs.owned (by simpa using hw))] at hp
      cases hp
  · intro hw
    refine events_step (hs.owned hw) ?_ h
    intro e he
    cases a with
    | abandon seat released cut =>
      exfalso
      obtain ⟨seat', ha', -⟩ | ⟨es, n, removals, hes, -, -⟩ := RunState.step_cases h
      · cases ha'
      · obtain ⟨run, memory, hr, -, -, -, -, -, -⟩ := abandonEffects_cases hes
        have hlive := (hs.plans.seats seat run hr).sharesLiveCheckout
        rw [abandonsCheckout_abandon ha hr, hw] at hlive
        cases hlive
    | reconcile seat o cut =>
      rcases he with ⟨r, rfl, -⟩ | ⟨status, -, rfl⟩ <;> rfl
    | finish seat execution cut => rcases he with rfl | rfl <;> rfl
    | resume seat continuing cut | resumeUndone seat continuing cut =>
      cases continuing with
      | true =>
        cases he
        rfl
      | false => exact he.elim
    | begin seat | usageCheckpoint seat usage runtimeMs =>
      obtain ⟨attemptId, rfl⟩ := he
      rfl
    | sandboxStarted seat identity | sessionStarted seat | release seat released cut
    | «open» seat handoff cut =>
      cases he
      rfl
    | _ => exact he.elim

/-- **Every result the service stores satisfies `isRunResult`** when no run on the live checkout is
abandoned, every result an attempt returns or records does, and a reconcile refuses its own result
just when the session evidence is unknown, all cleanup is done, and no abandonment is pending. -/
theorem results_are_valid (plan : Plan) (as : List RunAct)
    (hm : Meets (RunState.step D) (fun s a => abandonsCheckout s a = true) (freshRun plan) as)
    (h : exec (RunState.step D) (freshRun plan) as = some t) :
    t.Valid ∧
      (∀ seat, ∀ run ∈ t.seats seat, ∀ o : Observation,
        reconcileExecution run.plan.toRunPlan (abandonmentPending t.files.events) run.result
            (evidence run.plan.toRunPlan t.files o) = none ↔
          abandonmentPending t.files.events = false ∧ o.session = .unknown ∧
            (reconcileSandboxCleanup false run.result
              (sandboxProcess t.files.events o)).done = true ∧
            (reconcileWorkspaceCleanup
              (evidence run.plan.toRunPlan t.files o).workspace).done = true) ∧
      ∀ (p : AttemptPlan) (o : AttemptOutcomes) (r : RunResult),
        r ∈ recordedResults (Prog.exec (runNativeAttempt p o) (.start p o)).1
          (Prog.exec (runNativeAttempt p o) (.start p o)).2 → isRunResult r = true := by
  have hfresh : Sound plan (freshRun plan) :=
    ⟨plans_freshRun plan, results_freshRun plan, fun _ => by simp [freshRun]⟩
  have hsound : Sound plan t :=
    exec_invariant (Sound plan) (fun s a u hs ha hu => sound_step hs ha hu) hfresh hm h
  refine ⟨hsound.valid, ?_, fun p o r => recordedResults_valid p o r⟩
  intro seat run hr o
  have hmem : ∀ m ∈ run.result, m.result.check = true := fun m hm =>
    check_of_isRunResult ((hsound.valid.seats seat run hr).1 m hm)
  rw [reconcileExecution_eq_none_iff hmem]
  constructor
  · rintro ⟨hp, hsess, hsb, hws⟩
    rw [hp] at hsb
    exact ⟨hp, hsess, hsb, hws⟩
  · rintro ⟨hp, hsess, hsb, hws⟩
    rw [hp]
    exact ⟨rfl, hsess, hsb, hws⟩

/-- A run with a worktree that is stopped and abandoned. -/
theorem results_are_valid_abandoned :
    ∃ t, exec (RunState.step sameDigest) (freshRun (planOf .worktree none))
        (untilStopped .retained ++ [.abandon 0 true 5]) = some t ∧ t.Valid := by
  have hsome : (exec (RunState.step sameDigest) (freshRun (planOf .worktree none))
      (untilStopped .retained ++ [.abandon 0 true 5])).isSome = true := by decide +kernel
  obtain ⟨t, ht⟩ := Option.isSome_iff_exists.mp hsome
  exact ⟨t, ht, (results_are_valid (planOf .worktree none) _ (by decide +kernel) ht).1⟩

/-- The validity of the result a seat remembers. -/
def remembersValid (seat : ℕ) (s : RunState) : Option Bool :=
  (s.seats seat).bind fun run => run.result.map fun r => isRunResult r.result

/-- Reconcile refuses its own result. -/
def reconcileRefuses (seat : ℕ) (o : Observation) (s : RunState) : Bool :=
  (s.seats seat).any fun run => decide (run.status = .cleanupBlocked) &&
    (reconcileExecution run.plan.toRunPlan (abandonmentPending s.files.events) run.result
      (evidence run.plan.toRunPlan s.files o)).isNone

/-- The abandonment of a stopped run on the live checkout remembers a result that is none, and a
lost run on the live checkout whose sandbox is gone cannot be reconciled while its session evidence
is unknown. -/
theorem abandonment_stores_invalid_result :
    (exec (RunState.step sameDigest) (freshRun livePlan)
        (untilStopped .notNeeded ++ [.abandon 0 true 2])).bind (remembersValid 0) = some false ∧
      (exec (RunState.step sameDigest) (freshRun livePlan) untilLost).map
        (reconcileRefuses 0 (gone .unknown)) = some true ∧
      ¬ ∀ (D : Planner) (plan : Plan) (as : List RunAct) (t : RunState),
        exec (RunState.step D) (freshRun plan) as = some t → t.Valid := by
  have hbad : (exec (RunState.step sameDigest) (freshRun livePlan)
      (untilStopped .notNeeded ++ [.abandon 0 true 2])).bind (remembersValid 0) = some false := by
    decide +kernel
  refine ⟨hbad, by decide +kernel, ?_⟩
  intro h
  obtain ⟨t, ht, hv⟩ := Option.bind_eq_some_iff.mp hbad
  obtain ⟨run, hr, hm⟩ := Option.bind_eq_some_iff.mp hv
  obtain ⟨r, hres, hf⟩ := Option.map_eq_some_iff.mp hm
  have hvalid : isRunResult r.result = true := ((h _ _ _ t ht).seats 0 run hr).1 r hres
  rw [hf] at hvalid
  cases hvalid

end RunLife

end PiSubagent
