import PiSubagent.Service.RunSteps

/-!
# The results and plans of a run

* `RunState.Results`: a property of every result that is stored, in memory, in the snapshot or in an
  event. **`results_step`** says what a step has to satisfy for it.
* `RunAct.Appends`: the events a step may append (**`effects_appends`**, `events_step`).
* `RunState.Checked`: every stored result is as its schema wants it (**`checked_step`**).
* `RunState.Plans`: every attempt has the run's identity and workspace (**`plans_step`**).
-/

namespace PiSubagent

open JsonText

namespace RunLife

open Cuts
open RunState (setSeat perform kill)

variable {D : Planner} {s t : RunState}

/-! ## Stored results -/

/-- The result an event carries. -/
def RunEvent.result? : RunEvent → Option RunResult
  | .attemptCompleted execution | .attemptFailed execution => some execution.result
  | .runAbandoned result => some result
  | _ => none

/-- The result of an attempt that has returned. -/
def Flight.result? : Flight → Option RunResult
  | .ended execution => some execution.result
  | _ => none

/-- All results a seat remembers satisfy a property. -/
def ActiveRun.Results (Q : RunResult → Prop) (run : ActiveRun) : Prop :=
  (∀ r ∈ run.result, Q r.result) ∧ ∀ r ∈ run.flight.result?, Q r

/-- All results an effect stores satisfy a property. -/
def Effect.Results (Q : RunResult → Prop) : Effect → Prop
  | .append e => ∀ r ∈ e.result?, Q r
  | .writeSnapshot execution => Q execution.result
  | .remember run | .execute run => run.Results Q
  | _ => True

/-- All results that are stored satisfy a property. -/
structure RunState.Results (Q : RunResult → Prop) (s : RunState) : Prop where
  events : ∀ e ∈ s.files.events, ∀ r ∈ e.result?, Q r
  snapshot : ∀ snapshot ∈ s.files.snapshot, Q snapshot.state.result
  seats : ∀ seat, ∀ run ∈ s.seats seat, run.Results Q

variable {Q : RunResult → Prop}

theorem ActiveRun.results_start (plan : Plan) : (ActiveRun.start plan).Results Q :=
  ⟨by simp [ActiveRun.start], by simp [ActiveRun.start, Flight.result?]⟩

theorem ActiveRun.results_settle (run : ActiveRun) {execution : AttemptExecutionResult}
    (h : Q execution.result) : (run.settle execution).Results Q :=
  ⟨by simpa [ActiveRun.settle] using h, by simp [ActiveRun.settle, Flight.result?]⟩

theorem results_setSeat {seat : ℕ} {run : Option ActiveRun} (h : s.Results Q)
    (hr : ∀ run' ∈ run, run'.Results Q) : (s.setSeat seat run).Results Q := by
  refine ⟨h.events, h.snapshot, ?_⟩
  intro n run' hn
  simp only [setSeat] at hn
  split_ifs at hn
  · exact hr run' hn
  · exact h.seats n run' hn

theorem results_perform {seat : ℕ} {e : Effect} (h : s.Results Q) (he : e.Results Q) :
    (s.perform seat e).Results Q := by
  cases e with
  | append e =>
    refine ⟨?_, h.snapshot, h.seats⟩
    intro e' hm
    rcases List.mem_append.mp hm with hm | hm
    · exact h.events e' hm
    · rw [List.mem_singleton.mp hm]
      simpa only [Effect.Results] using he
  | writeSnapshot execution =>
    refine ⟨h.events, ?_, h.seats⟩
    intro snapshot hs
    cases hs
    simpa only [Effect.Results] using he
  | remember run =>
    refine results_setSeat h ?_
    rintro run' ⟨⟩
    simpa only [Effect.Results] using he
  | execute run =>
    have hset : (s.setSeat seat (some run)).Results Q := by
      refine results_setSeat h ?_
      rintro run' ⟨⟩
      simpa only [Effect.Results] using he
    exact ⟨hset.events, hset.snapshot, hset.seats⟩
  | settleLease =>
    simp only [perform]
    split_ifs
    · exact ⟨h.events, h.snapshot, h.seats⟩
    · exact h
  | _ => exact ⟨h.events, h.snapshot, h.seats⟩

theorem results_kill {seat : ℕ} (h : s.Results Q) : (s.kill seat).Results Q := by
  have hset : (s.setSeat seat none).Results Q := results_setSeat h (by simp)
  exact ⟨hset.events, hset.snapshot, hset.seats⟩

theorem results_freshRun (plan : Plan) : (freshRun plan).Results Q :=
  ⟨by simp [freshRun], by simp [freshRun], by simp [freshRun]⟩

/-! ## The results of the operations -/

theorem mem_reconcileEffects {seat : ℕ} {o : Observation} {es : List Effect}
    (h : reconcileEffects s seat o = some es) {e : Effect} (he : e ∈ es) :
    e = .removeSnapshots ∨ ∃ run execution, s.seats seat = some run ∧
      reconcileExecution run.plan.toRunPlan (abandonmentPending s.files.events) run.result
        (evidence run.plan.toRunPlan s.files o) = some execution ∧
      (e = .append (if execution.result.status = .abandoned then .runAbandoned execution.result
          else .runReconciled execution.result.status) ∨ e = .writeSnapshot execution ∨
        e = .remember (run.settle execution) ∨ e = .settleLease) := by
  obtain ⟨run, hr, -, -, -, rfl⟩ := reconcileEffects_cases h
  rcases List.mem_append.mp he with he | he
  · unfold snapshotEffects at he
    split_ifs at he
    · exact Or.inl (List.mem_singleton.mp he)
    · cases he
  · split at he
    case h_1 => cases he
    case h_2 execution hx =>
      refine Or.inr ⟨run, execution, hr, hx, ?_⟩
      simpa using he

theorem reconcileExecution_cases {plan : RunPlan} {pending : Bool}
    {memory : Option AttemptExecutionResult} {seen : Evidence} {execution : AttemptExecutionResult}
    (h : reconcileExecution plan pending memory seen = some execution) :
    isRunResult execution.result = true ∧
      execution.result = reconcileResult plan pending memory seen := by
  unfold reconcileExecution at h
  dsimp only at h
  split at h
  case isFalse => cases h
  case isTrue hc =>
    obtain rfl := Option.some.inj h
    exact ⟨hc.2, rfl⟩

/-- The result of a release, before its check. -/
def releasedResult (plan : RunPlan) (pending : Bool) (previous : RunResult) : RunResult :=
  if pending then previous
  else
    { previous with
      workspaceCleanup := if sharesLiveCheckout plan then .notNeeded else .proved
      status := if previous.status = .cleanupBlocked ∧ previous.sandboxCleanup.done = true then
        .failed else previous.status }

/-- What a release makes of the execution. -/
def releasedExecution (memory : AttemptExecutionResult) (result : RunResult) :
    AttemptExecutionResult :=
  if result.status = .abandoned then
    bareExecution result "run permanently abandoned by operator"
  else { memory with result := result }

theorem releaseExecution_eq (plan : RunPlan) (pending : Bool) (memory : AttemptExecutionResult) :
    releaseExecution plan pending memory =
      if isRunResult (releasedResult plan pending memory.result) = true then
        some (releasedExecution memory (releasedResult plan pending memory.result))
      else none := by
  unfold releaseExecution releasedResult releasedExecution bareExecution
  cases pending with
  | true => simp
  | false =>
    by_cases hc : memory.result.status = .cleanupBlocked ∧ memory.result.sandboxCleanup.done = true
    · simp [hc]
    · simp only [Bool.not_false, Bool.true_and, Bool.and_eq_true, decide_eq_true_eq, if_neg hc,
        Bool.false_eq_true, if_false]

theorem releaseExecution_cases {plan : RunPlan} {pending : Bool} {memory next :
    AttemptExecutionResult} (h : releaseExecution plan pending memory = some next) :
    isRunResult next.result = true ∧ next.result = releasedResult plan pending memory.result := by
  rw [releaseExecution_eq] at h
  split_ifs at h with hv
  obtain rfl := Option.some.inj h
  unfold releasedExecution
  split_ifs
  · exact ⟨hv, rfl⟩
  · exact ⟨hv, rfl⟩

theorem RunResult.check_iff (r : RunResult) :
    r.check = true ↔ isRunId r.runId = true ∧ r.status.isResultStatus = true ∧
      r.output.all ArtifactRef.check = true ∧ r.usage.cost.neg = false ∧
        r.runtimeMs ≤ maxSafeInteger ∧ r.failure.all ClassifiedFailure.check = true := by
  unfold RunResult.check
  simp only [Bool.and_eq_true, Bool.not_eq_true', decide_eq_true_eq]
  tauto

theorem check_of_isRunResult {r : RunResult} (h : isRunResult r = true) : r.check = true := by
  unfold isRunResult at h
  exact (Bool.and_eq_true_iff.mp h).1

/-- A cleanup-blocked result is valid unless it says that the cleanup is proved. -/
theorem isRunResult_blocked {r : RunResult} {f : ClassifiedFailure} (hc : r.check = true)
    (hs : r.status = .cleanupBlocked) (hf : r.failure = some f) :
    isRunResult r = true ↔ cleanupIsProved r = false := by
  unfold isRunResult
  rw [hc, hs, hf]
  simp

theorem abandonResult_check {plan : RunPlan} {previous : RunResult} {status : RunStatus}
    {failure : ClassifiedFailure} {workspace : CleanupOutcome} (h : previous.check = true)
    (hs : status.isResultStatus = true) (hf : failure.check = true) :
    (abandonResult plan previous status failure workspace).check = true := by
  obtain ⟨-, -, -, hcost, hms, -⟩ := (RunResult.check_iff previous).mp h
  exact (RunResult.check_iff _).mpr ⟨plan.runId.valid, hs, rfl, hcost, hms, hf⟩

theorem abandonPending_check {plan : RunPlan} {previous : RunResult} (h : previous.check = true) :
    (abandonPending plan previous).result.check = true :=
  abandonResult_check h rfl (by decide)

theorem abandonBlocked_valid {plan : RunPlan} {previous : RunResult} (h : previous.check = true) :
    isRunResult (abandonBlocked plan previous).result = true := by
  have hc : (abandonBlocked plan previous).result.check = true :=
    abandonResult_check h rfl (by decide)
  rw [isRunResult_blocked hc rfl rfl]
  exact Bool.and_false _

theorem checkpoint_check (f : RunFiles) :
    f.checkpoint.1.cost.neg = false ∧ f.checkpoint.2 ≤ maxSafeInteger := by
  unfold RunFiles.checkpoint
  split
  · dsimp only
    constructor
    · split_ifs with h
      · rfl
      · exact Bool.eq_false_iff.mpr h
    · split_ifs with h
      · exact h
      · exact Nat.zero_le _
  · exact ⟨rfl, Nat.zero_le _⟩

theorem lostResult_valid (f : RunFiles) : isRunResult f.lostResult = true := by
  obtain ⟨hcost, hms⟩ := checkpoint_check f
  have hc : f.lostResult.check = true :=
    (RunResult.check_iff _).mpr ⟨f.recoveredPlan.runId.valid, rfl, rfl, hcost, hms,
      by simp only [RunFiles.lostResult]; decide⟩
  rw [isRunResult_blocked hc rfl rfl]
  rfl

theorem priorResult_valid {f : RunFiles} {r : RunResult} (h : f.priorResult = some r) :
    isRunResult r = true ∧ ∃ snapshot, f.snapshot = some snapshot ∧ snapshot.state.result = r ∧
      f.snapshotCoversLatestAttempt = true := by
  unfold RunFiles.priorResult at h
  split at h
  case h_2 => cases h
  case h_1 snapshot hs =>
    split_ifs at h with hc
    obtain rfl := Option.some.inj h
    rw [Bool.and_eq_true] at hc
    exact ⟨hc.2, snapshot, hs, rfl, hc.1⟩

theorem persistedResult_valid {f : RunFiles} {r : RunResult} (h : f.persistedResult = some r) :
    isRunResult r = true := by
  unfold RunFiles.persistedResult at h
  split at h
  case h_1 =>
    split_ifs at h with hv
    · exact Option.some.inj h ▸ hv
    · exact (priorResult_valid h).1
  case h_2 => exact (priorResult_valid h).1

theorem pendingResult_check (f : RunFiles) : f.pendingResult.check = true := by
  obtain ⟨hcost, hms⟩ := checkpoint_check f
  refine (RunResult.check_iff _).mpr
    ⟨f.recoveredPlan.runId.valid, rfl, rfl, ?_, ?_, by simp only [RunFiles.pendingResult]; decide⟩
  all_goals
    unfold RunFiles.pendingResult
    cases hp : f.priorResult with
    | none => assumption
    | some r =>
      obtain ⟨-, -, -, hc, hm, -⟩ := 
        (RunResult.check_iff r).mp (check_of_isRunResult (priorResult_valid hp).1)
      assumption

/-- Outside of a pending abandonment, start-up takes a valid result. -/
theorem recovered_valid {f : RunFiles} (h : abandonmentPending f.events = false) :
    isRunResult f.recovered.1 = true := by
  unfold RunFiles.recovered
  rw [if_neg (by simp [h])]
  split
  case h_1 r hr => exact persistedResult_valid hr
  case h_2 => exact lostResult_valid f

theorem recoveredExecution_result (f : RunFiles) (handoff : Option WorktreeRecord) :
    (f.recoveredExecution handoff).result = f.recovered.1 := by
  unfold RunFiles.recoveredExecution
  dsimp only
  split_ifs <;> rfl

/-! ## The results a step stores -/

theorem results_ofStart {i : StartInput} {e : Effect} (h : e.OfStart i) : e.Results Q := by
  cases e with
  | append e =>
    rw [h.2]
    simp [Effect.Results, RunEvent.result?]
  | execute run =>
    cases h
    exact ActiveRun.results_start i.plan
  | _ => trivial

/-- What an operation has to satisfy so that all its results do. -/
structure StoresOnly (Q : RunResult → Prop) (s : RunState) (a : RunAct) : Prop where
  valid : ∀ r, isRunResult r = true → Q r
  check : ∀ r, Q r → r.check = true
  /-- The result a seat remembers while an abandonment is under way. -/
  pending : ∀ seat released cut run memory, a = .abandon seat released cut →
    s.seats seat = some run → run.result = some memory → durableStatusIs s.files .interrupted →
    memory.result.sandboxCleanup.done = true → Q memory.result →
      Q (abandonPending run.plan.toRunPlan memory.result).result
  /-- The result of a start-up that finds an abandonment under way. -/
  recovered : ∀ seat handoff cut, a = .open seat handoff cut →
    abandonmentPending s.files.events = true → Q s.files.pendingResult

/-- The results that an operation comes to have the property. -/
structure StoresSuch (Q : RunResult → Prop) (s : RunState) (a : RunAct) : Prop where
  finish : ∀ seat execution cut, ∀ run : ActiveRun, a = .finish seat execution cut →
    mayEnd run execution = true → Q execution.result
  reconcile : ∀ seat o cut, ∀ (run : ActiveRun) (execution : AttemptExecutionResult),
    a = .reconcile seat o cut →
    reconcileExecution run.plan.toRunPlan (abandonmentPending s.files.events) run.result
      (evidence run.plan.toRunPlan s.files o) = some execution → Q execution.result
  release : ∀ seat released cut, ∀ (run : ActiveRun) (memory next : AttemptExecutionResult),
    a = .release seat released cut → Q memory.result →
      releaseExecution run.plan.toRunPlan (abandonmentPending s.files.events) memory = some next →
        Q next.result
  pending : ∀ seat released cut run memory, a = .abandon seat released cut →
    s.seats seat = some run → run.result = some memory → durableStatusIs s.files .interrupted →
    memory.result.sandboxCleanup.done = true → Q memory.result →
      Q (abandonPending run.plan.toRunPlan memory.result).result
  blocked : ∀ seat released cut, ∀ (run : ActiveRun) (memory : AttemptExecutionResult),
    a = .abandon seat released cut → Q memory.result →
    Q (abandonBlocked run.plan.toRunPlan memory.result).result
  done : ∀ seat released cut, ∀ (run : ActiveRun) (memory : AttemptExecutionResult),
    a = .abandon seat released cut →
    isRunResult (abandonDone run.plan.toRunPlan memory.result).result = true →
      Q (abandonDone run.plan.toRunPlan memory.result).result
  recovered : ∀ seat handoff cut, a = .open seat handoff cut → Q s.files.recovered.1

/-- It is enough that valid results have the property, and the two that need not be valid. -/
theorem StoresOnly.such {a : RunAct} (h : StoresOnly Q s a) : StoresSuch Q s a where
  finish seat execution cut run _ hm := by
    unfold mayEnd at hm
    simp only [Bool.and_eq_true] at hm
    exact h.valid _ hm.1.1
  reconcile seat o cut run execution _ hx := h.valid _ (reconcileExecution_cases hx).1
  release seat released cut run memory next _ _ hx := h.valid _ (releaseExecution_cases hx).1
  pending := h.pending
  blocked seat released cut run memory _ hm := h.valid _ (abandonBlocked_valid (h.check _ hm))
  done seat released cut run memory _ hv := h.valid _ hv
  recovered seat handoff cut ha := by
    cases hp : abandonmentPending s.files.events with
    | true =>
      unfold RunFiles.recovered
      rw [if_pos hp]
      exact h.recovered seat handoff cut ha hp
    | false => exact h.valid _ (recovered_valid hp)

theorem reconcileEffects_results {seat cut : ℕ} {o : Observation} {es : List Effect}
    (hq : StoresSuch Q s (.reconcile seat o cut)) (h : reconcileEffects s seat o = some es) :
    ∀ e ∈ es, e.Results Q := by
  intro e he
  rcases mem_reconcileEffects h he with rfl | ⟨run, execution, -, hx, he⟩
  · trivial
  · have hv : Q execution.result := hq.reconcile seat o cut run execution rfl hx
    rcases he with rfl | rfl | rfl | rfl
    · split_ifs <;> simp [Effect.Results, RunEvent.result?, hv]
    · exact hv
    · exact run.results_settle hv
    · trivial

theorem releaseEffects_results {seat cut : ℕ} {released : Bool} {es : List Effect}
    (hq : StoresSuch Q s (.release seat released cut)) (hs : s.Results Q)
    (h : releaseEffects s seat released = some es) : ∀ e ∈ es, e.Results Q := by
  intro e he
  obtain ⟨run, hr, -, -, -, -, hes⟩ := releaseEffects_cases h
  cases hres : run.result with
  | none =>
    rw [hres] at hes
    dsimp only at hes
    subst hes
    rcases List.mem_pair.mp he with rfl | rfl
    · simp [Effect.Results, RunEvent.result?]
    · trivial
  | some memory =>
    rw [hres] at hes
    dsimp only at hes
    split at hes
    case h_1 =>
      subst hes
      cases he
    case h_2 next hx =>
      have hm : Q memory.result := (hs.seats seat run hr).1 memory hres
      have hv : Q next.result := hq.release seat released cut run memory next rfl hm hx
      subst hes
      simp only [List.mem_cons, List.not_mem_nil, or_false] at he
      rcases he with rfl | rfl | rfl | rfl
      · simp [Effect.Results, RunEvent.result?]
      · exact hv
      · exact run.results_settle hv
      · trivial

theorem abandonEffects_results {seat cut : ℕ} {released : Bool} {es : List Effect}
    (hq : StoresSuch Q s (.abandon seat released cut)) (hs : s.Results Q)
    (h : abandonEffects s seat released = some es) : ∀ e ∈ es, e.Results Q := by
  intro e he
  obtain ⟨run, memory, hr, hres, -, hdone, -, hdur, rfl⟩ := abandonEffects_cases h
  have hm : Q memory.result := (hs.seats seat run hr).1 memory hres
  rw [List.mem_append] at he
  rcases he with he | he
  · rcases List.mem_pair.mp he with rfl | rfl
    · simp [Effect.Results, RunEvent.result?]
    · exact run.results_settle (hq.pending seat released cut run memory rfl hr hres hdur hdone hm)
  · split_ifs at he with h1 h2
    · have hb : Q (abandonBlocked run.plan.toRunPlan memory.result).result :=
        hq.blocked seat released cut run memory rfl hm
      rcases List.mem_pair.mp he with rfl | rfl
      · exact hb
      · exact run.results_settle hb
    · have hd : Q (abandonDone run.plan.toRunPlan memory.result).result :=
        hq.done seat released cut run memory rfl h2.2
      simp only [List.mem_cons, List.not_mem_nil, or_false] at he
      rcases he with rfl | rfl | rfl
      · simpa [Effect.Results, RunEvent.result?] using hd
      · exact run.results_settle hd
      · exact hd
    · cases he

theorem openEffects_results {seat cut : ℕ} {handoff : Option WorktreeRecord} {es : List Effect}
    (hq : StoresSuch Q s (.open seat handoff cut)) (h : openEffects s seat handoff = some es) :
    ∀ e ∈ es, e.Results Q := by
  intro e he
  obtain ⟨-, -, -, rfl⟩ := openEffects_cases h
  have hrec : Q (s.files.recoveredExecution handoff).result := by
    rw [recoveredExecution_result]
    exact hq.recovered seat handoff cut rfl
  rcases List.mem_append.mp he with he | he
  · split at he
    case h_1 =>
      rcases List.mem_pair.mp he with rfl | rfl
      · simp [Effect.Results, RunEvent.result?]
      · exact hrec
    case h_2 => cases he
  · rw [List.mem_singleton.mp he]
    refine ⟨?_, by simp [Flight.result?]⟩
    rintro r ⟨⟩
    exact hrec

/-- The effects of a step store only results with the property. -/
theorem effects_results {a : RunAct} {es : List Effect} (hq : StoresSuch Q s a)
    (hs : s.Results Q) (h : s.effects D a = some es) : ∀ e ∈ es, e.Results Q := by
  cases a with
  | launch seat cut | launchUndone seat cut =>
    obtain ⟨-, -, rfl⟩ := launchEffects_cases h
    exact fun e he => results_ofStart (startEffects_ofStart _ _ e he)
  | retry seat cut | retryUndone seat cut =>
    obtain ⟨run, latest, r, plan, -, -, -, -, -, -, -, -, rfl⟩ := retryEffects_cases h
    exact fun e he => results_ofStart (startEffects_ofStart _ _ e he)
  | resume seat continuing cut | resumeUndone seat continuing cut =>
    obtain ⟨run, latest, r, plan, -, -, -, -, -, -, -, -, rfl⟩ := resumeEffects_cases h
    exact fun e he => results_ofStart (startEffects_ofStart _ _ e he)
  | reconcile seat o cut => exact reconcileEffects_results hq h
  | release seat released cut => exact releaseEffects_results hq hs h
  | abandon seat released cut => exact abandonEffects_results hq hs h
  | «open» seat handoff cut => exact openEffects_results hq h
  | die seat => cases h
  | interrupt seat =>
    obtain ⟨run, hr, -, rfl⟩ := interruptEffects_cases h
    simpa [Effect.Results, ActiveRun.Results] using hs.seats seat run hr
  | shutdown seat =>
    obtain ⟨run, hr, -, rfl⟩ := shutdownEffects_cases h
    simpa [Effect.Results, ActiveRun.Results] using hs.seats seat run hr
  | begin seat =>
    obtain ⟨run, hr, -, rfl⟩ := beginEffects_cases h
    have hrun := (hs.seats seat run hr).1
    simpa [Effect.Results, ActiveRun.Results, RunEvent.result?, Flight.result?] using hrun
  | sandboxStarted seat _ | sessionStarted seat | usageCheckpoint seat _ _ =>
    obtain ⟨run, e, -, -, he, rfl⟩ := noteEffects_cases (fun _ => rfl) h
    cases he
    simp [Effect.Results, RunEvent.result?]
  | finish seat execution cut =>
    obtain ⟨run, hr, -, hm, rfl⟩ := finishEffects_cases h
    have hv : Q execution.result := hq.finish seat execution cut run rfl hm
    have hrun := (hs.seats seat run hr).1
    intro e he
    unfold finishEffects at he
    rcases List.mem_append.mp he with he | he
    · split_ifs at he
      · rw [List.mem_singleton.mp he]
        trivial
      · cases he
    · simp only [List.mem_cons, List.not_mem_nil, or_false] at he
      rcases he with rfl | rfl | rfl
      · split_ifs <;> simpa [Effect.Results, RunEvent.result?] using hv
      · exact hv
      · exact ⟨hrun, by simpa [Flight.result?] using hv⟩
  | reject seat =>
    obtain ⟨run, b, hr, -, rfl⟩ := rejectEffects_cases h
    have hrun := (hs.seats seat run hr).1
    simpa [Effect.Results, ActiveRun.Results, Flight.result?] using hrun
  | settle seat handoff =>
    obtain ⟨run, execution, hr, hf, rfl⟩ := settleEffects_cases h
    have hx : Q execution.result := by
      refine (hs.seats seat run hr).2 execution.result ?_
      rw [hf]
      rfl
    have hv : Q (carried run execution handoff).result := by
      unfold carried
      split_ifs <;> exact hx
    intro e he
    simp only [settleEffects, List.mem_cons, List.not_mem_nil, or_false] at he
    rcases he with rfl | rfl | rfl
    · exact hv
    · exact run.results_settle hv
    · trivial
  | settleBlocked seat =>
    obtain ⟨run, hr, -, rfl⟩ := settleBlockedEffects_cases h
    have hrun := (hs.seats seat run hr).1
    simpa [Effect.Results, ActiveRun.Results, Flight.result?] using hrun

/-- **A step whose results have the property keeps it for all that is stored.** -/
theorem StoresSuch.step {a : RunAct} (hq : StoresSuch Q s a) (hs : s.Results Q)
    (h : s.step D a = some t) : t.Results Q := by
  refine RunState.step_allCuts h (fun seat _ => results_kill hs) ?_ ?_
  · exact fun u id hu => results_perform hu trivial
  · intro es he
    refine AllCuts.of_preserved hs ?_
    intro u e hm hu
    exact results_perform hu (effects_results hq hs he e hm)

theorem results_step {a : RunAct} (hq : StoresOnly Q s a) (hs : s.Results Q)
    (h : s.step D a = some t) : t.Results Q := hq.such.step hs h

/-- Every stored result is as its schema wants it. -/
abbrev RunState.Checked (s : RunState) : Prop := s.Results fun r => r.check = true

theorem checked_step {a : RunAct} (hs : s.Checked) (h : s.step D a = some t) : t.Checked := by
  refine results_step ⟨fun r => check_of_isRunResult, fun r hr => hr, ?_, ?_⟩ hs h
  · intro seat released cut run memory _ _ _ _ _ hm
    exact abandonPending_check hm
  · intro seat handoff cut _ _
    exact pendingResult_check s.files

/-! ## Plans -/

/-- Two plans are of attempts of one run. -/
def SameRun (p q : RunPlan) : Prop := p.runId = q.runId ∧ p.mode = q.mode ∧ p.startAt = q.startAt

theorem SameRun.refl (p : RunPlan) : SameRun p p := ⟨rfl, rfl, rfl⟩

theorem SameRun.sharesLiveCheckout {p q : RunPlan} (h : SameRun p q) :
    sharesLiveCheckout p = sharesLiveCheckout q := by
  unfold PiSubagent.sharesLiveCheckout
  rw [h.2.1, h.2.2]

theorem retryPlan_sameRun {current plan : Plan} {r : RunResult} {ordinal : ℕ}
    (h : retryPlan D current r ordinal = some plan) :
    SameRun plan.toRunPlan current.toRunPlan := by
  unfold retryPlan at h
  split_ifs at h
  obtain ⟨limits, -, rfl⟩ := Option.map_eq_some_iff.mp h
  exact ⟨rfl, rfl, rfl⟩

theorem resumePlan_sameRun {current plan : Plan} {r : RunResult} {ordinal : ℕ} {continuing : Bool}
    (h : resumePlan D current r ordinal continuing = some plan) :
    SameRun plan.toRunPlan current.toRunPlan := by
  unfold resumePlan at h
  split_ifs at h
  obtain ⟨limits, -, rfl⟩ := Option.map_eq_some_iff.mp h
  exact ⟨rfl, rfl, rfl⟩

/-- The plans an effect writes are of the run. -/
def Effect.Plans (root : RunPlan) : Effect → Prop
  | .createAttempt record => SameRun record.plan.toRunPlan root
  | .remember run | .execute run => SameRun run.plan.toRunPlan root
  | _ => True

/-- Every attempt has the run's identity and workspace. -/
structure RunState.Plans (root : Plan) (s : RunState) : Prop where
  plan : s.files.plan = root
  attempts : ∀ record ∈ s.files.attempts, SameRun record.plan.toRunPlan root.toRunPlan
  seats : ∀ seat, ∀ run ∈ s.seats seat, SameRun run.plan.toRunPlan root.toRunPlan

variable {root : Plan}

theorem plans_setSeat {seat : ℕ} {run : Option ActiveRun} (h : s.Plans root)
    (hr : ∀ run' ∈ run, SameRun run'.plan.toRunPlan root.toRunPlan) :
    (s.setSeat seat run).Plans root := by
  refine ⟨h.plan, h.attempts, ?_⟩
  intro n run' hn
  simp only [setSeat] at hn
  split_ifs at hn
  · exact hr run' hn
  · exact h.seats n run' hn

theorem plans_perform {seat : ℕ} {e : Effect} (h : s.Plans root) (he : e.Plans root.toRunPlan) :
    (s.perform seat e).Plans root := by
  cases e with
  | createAttempt record =>
    refine ⟨h.plan, ?_, h.seats⟩
    intro record' hm
    rcases List.mem_append.mp hm with hm | hm
    · exact h.attempts record' hm
    · rw [List.mem_singleton.mp hm]
      exact he
  | remember run =>
    refine plans_setSeat h ?_
    rintro run' ⟨⟩
    exact he
  | execute run =>
    have hset : (s.setSeat seat (some run)).Plans root := by
      refine plans_setSeat h ?_
      rintro run' ⟨⟩
      exact he
    exact ⟨hset.plan, hset.attempts, hset.seats⟩
  | settleLease =>
    simp only [perform]
    split_ifs
    · exact ⟨h.plan, h.attempts, h.seats⟩
    · exact h
  | _ => exact ⟨h.plan, h.attempts, h.seats⟩

theorem RunState.Plans.recoveredPlan (h : s.Plans root) :
    SameRun s.files.recoveredPlan.toRunPlan root.toRunPlan := by
  unfold RunFiles.recoveredPlan
  cases hl : s.files.latest with
  | none =>
    rw [← h.plan]
    exact SameRun.refl _
  | some record => exact h.attempts record (List.mem_of_mem_getLast? hl)

/-- A property of the plans an effect writes. -/
def Effect.PlanIs (K : Plan → Prop) : Effect → Prop
  | .createAttempt record => K record.plan
  | .remember run | .execute run => K run.plan
  | _ => True

/-- The plans a step may start an attempt with. -/
def RunAct.Starts (D : Planner) (s : RunState) : RunAct → Plan → Prop
  | .launch .., plan | .launchUndone .., plan => plan = s.files.plan
  | .retry seat _, plan | .retryUndone seat _, plan =>
    ∃ run r ordinal, s.seats seat = some run ∧ retryPlan D run.plan r ordinal = some plan
  | .resume seat continuing _, plan | .resumeUndone seat continuing _, plan =>
    ∃ run r ordinal, s.seats seat = some run ∧
      resumePlan D run.plan r ordinal continuing = some plan
  | _, _ => False

theorem planIs_ofStart {K : Plan → Prop} {i : StartInput} (hi : K i.plan) {e : Effect}
    (h : e.OfStart i) : e.PlanIs K := by
  cases e with
  | createAttempt record =>
    show K record.plan
    rw [h.1]
    exact hi
  | execute run =>
    cases h
    exact hi
  | _ => trivial

/-- **The plans a step writes** are remembered, recovered or started ones. -/
theorem effects_planIs {K : Plan → Prop} {a : RunAct} {es : List Effect}
    (hseats : ∀ n, ∀ run ∈ s.seats n, K run.plan) (hrecovered : K s.files.recoveredPlan)
    (hstarts : ∀ plan, a.Starts D s plan → K plan) (h : s.effects D a = some es) :
    ∀ e ∈ es, e.PlanIs K := by
  cases a with
  | launch seat cut | launchUndone seat cut =>
    obtain ⟨-, -, rfl⟩ := launchEffects_cases h
    exact fun e he => planIs_ofStart (hstarts s.files.plan rfl) (startEffects_ofStart _ _ e he)
  | retry seat cut | retryUndone seat cut =>
    obtain ⟨run, latest, r, plan, hr, -, -, -, -, -, -, hp, rfl⟩ := retryEffects_cases h
    exact fun e he => planIs_ofStart (hstarts plan ⟨run, _, _, hr, hp⟩)
      (startEffects_ofStart _ _ e he)
  | resume seat continuing cut | resumeUndone seat continuing cut =>
    obtain ⟨run, latest, r, plan, hr, -, -, -, -, -, -, hp, rfl⟩ := resumeEffects_cases h
    exact fun e he => planIs_ofStart (hstarts plan ⟨run, _, _, hr, hp⟩)
      (startEffects_ofStart _ _ e he)
  | reconcile seat o cut =>
    intro e he
    rcases mem_reconcileEffects h he with rfl | ⟨run, execution, hr, -, rfl | rfl | rfl | rfl⟩
    · trivial
    · trivial
    · trivial
    · exact hseats seat run hr
    · trivial
  | release seat released cut =>
    intro e he
    obtain ⟨run, hr, -, -, -, -, hes⟩ := releaseEffects_cases h
    have hrun := hseats seat run hr
    split at hes
    case h_1 =>
      subst hes
      rcases List.mem_pair.mp he with rfl | rfl <;> trivial
    case h_2 =>
      split at hes
      case h_1 =>
        subst hes
        cases he
      case h_2 =>
        subst hes
        simp only [List.mem_cons, List.not_mem_nil, or_false] at he
        rcases he with rfl | rfl | rfl | rfl
        · trivial
        · trivial
        · exact hrun
        · trivial
  | abandon seat released cut =>
    intro e he
    obtain ⟨run, memory, hr, -, -, -, -, -, rfl⟩ := abandonEffects_cases h
    have hrun := hseats seat run hr
    simp only [List.mem_append, List.mem_cons, List.not_mem_nil, or_false] at he
    rcases he with (rfl | rfl) | he
    · trivial
    · exact hrun
    · split_ifs at he
      · rcases List.mem_pair.mp he with rfl | rfl
        · trivial
        · exact hrun
      · simp only [List.mem_cons, List.not_mem_nil, or_false] at he
        rcases he with rfl | rfl | rfl
        · trivial
        · exact hrun
        · trivial
      · cases he
  | «open» seat handoff cut =>
    intro e he
    obtain ⟨-, -, -, rfl⟩ := openEffects_cases h
    rcases List.mem_append.mp he with he | he
    · split at he
      case h_1 => rcases List.mem_pair.mp he with rfl | rfl <;> trivial
      case h_2 => cases he
    · rw [List.mem_singleton.mp he]
      exact hrecovered
  | die seat => cases h
  | interrupt seat =>
    obtain ⟨run, hr, -, rfl⟩ := interruptEffects_cases h
    simpa [Effect.PlanIs] using hseats seat run hr
  | shutdown seat =>
    obtain ⟨run, hr, -, rfl⟩ := shutdownEffects_cases h
    simpa [Effect.PlanIs] using hseats seat run hr
  | begin seat =>
    obtain ⟨run, hr, -, rfl⟩ := beginEffects_cases h
    simpa [Effect.PlanIs] using hseats seat run hr
  | sandboxStarted seat _ | sessionStarted seat | usageCheckpoint seat _ _ =>
    obtain ⟨run, e, -, -, -, rfl⟩ := noteEffects_cases (fun _ => rfl) h
    simp [Effect.PlanIs]
  | finish seat execution cut =>
    obtain ⟨run, hr, -, -, rfl⟩ := finishEffects_cases h
    intro e he
    unfold finishEffects at he
    rcases List.mem_append.mp he with he | he
    · split_ifs at he
      · rw [List.mem_singleton.mp he]
        trivial
      · cases he
    · simp only [List.mem_cons, List.not_mem_nil, or_false] at he
      rcases he with rfl | rfl | rfl
      · trivial
      · trivial
      · exact hseats seat run hr
  | reject seat =>
    obtain ⟨run, b, hr, -, rfl⟩ := rejectEffects_cases h
    simpa [Effect.PlanIs] using hseats seat run hr
  | settle seat handoff =>
    obtain ⟨run, execution, hr, -, rfl⟩ := settleEffects_cases h
    simpa [settleEffects, Effect.PlanIs, ActiveRun.settle] using hseats seat run hr
  | settleBlocked seat =>
    obtain ⟨run, hr, -, rfl⟩ := settleBlockedEffects_cases h
    simpa [Effect.PlanIs] using hseats seat run hr

theorem Effect.PlanIs.plans {e : Effect}
    (h : e.PlanIs fun plan => SameRun plan.toRunPlan root.toRunPlan) : e.Plans root.toRunPlan := by
  cases e <;> exact h

theorem effects_plans {a : RunAct} {es : List Effect} (hs : s.Plans root)
    (h : s.effects D a = some es) : ∀ e ∈ es, e.Plans root.toRunPlan := by
  intro e he
  refine Effect.PlanIs.plans (effects_planIs hs.seats hs.recoveredPlan ?_ h e he)
  intro plan hplan
  cases a with
  | launch seat cut | launchUndone seat cut =>
    cases hplan
    exact hs.plan ▸ SameRun.refl _
  | retry seat cut | retryUndone seat cut =>
    obtain ⟨run, r, ordinal, hr, hp⟩ := hplan
    obtain ⟨h1, h2, h3⟩ := retryPlan_sameRun hp
    have hrun := hs.seats seat run hr
    exact ⟨h1.trans hrun.1, h2.trans hrun.2.1, h3.trans hrun.2.2⟩
  | resume seat continuing cut | resumeUndone seat continuing cut =>
    obtain ⟨run, r, ordinal, hr, hp⟩ := hplan
    obtain ⟨h1, h2, h3⟩ := resumePlan_sameRun hp
    have hrun := hs.seats seat run hr
    exact ⟨h1.trans hrun.1, h2.trans hrun.2.1, h3.trans hrun.2.2⟩
  | _ => cases hplan

theorem plans_step {a : RunAct} (hs : s.Plans root) (h : s.step D a = some t) : t.Plans root := by
  refine RunState.step_allCuts h ?_ ?_ ?_
  · intro seat _
    have hset : (s.setSeat seat none).Plans root := plans_setSeat hs (by simp)
    exact ⟨hset.plan, hset.attempts, hset.seats⟩
  · exact fun u id hu => plans_perform hu trivial
  · intro es he
    refine AllCuts.of_preserved hs ?_
    intro u e hm hu
    exact plans_perform hu (effects_plans hs he e hm)

theorem plans_freshRun (plan : Plan) : (freshRun plan).Plans plan :=
  ⟨rfl, by simp [freshRun], by simp [freshRun]⟩

/-! ## Events -/

/-- The events a step may append. -/
def RunAct.Appends : RunAct → RunEvent → Prop
  | .resume _ true _, e | .resumeUndone _ true _, e => e = .resumeAtHandoff
  | .begin _, e => ∃ attemptId, e = .attemptStarting attemptId
  | .sandboxStarted _ identity, e => e = .sandboxStarted identity
  | .sessionStarted _, e => e = .sessionStarted
  | .usageCheckpoint _ usage runtimeMs, e =>
    ∃ attemptId, e = .usageCheckpoint attemptId usage runtimeMs
  | .finish _ execution _, e => e = .attemptCompleted execution ∨ e = .attemptFailed execution
  | .reconcile .., e =>
    (∃ r, e = .runAbandoned r ∧ r.status = .abandoned ∧ isRunResult r = true) ∨
      ∃ status, status ≠ .abandoned ∧ e = .runReconciled status
  | .release .., e => e = .runReleased
  | .abandon .., e =>
    e = .runAbandoning ∨ ∃ r, e = .runAbandoned r ∧ r.status = .abandoned ∧ isRunResult r = true
  | .open .., e => e = .startupReconciled
  | _, _ => False

theorem effects_appends {a : RunAct} {es : List Effect} {e : RunEvent}
    (h : s.effects D a = some es) (he : Effect.append e ∈ es) : a.Appends e := by
  cases a with
  | launch seat cut | launchUndone seat cut =>
    obtain ⟨-, -, rfl⟩ := launchEffects_cases h
    exact absurd (startEffects_ofStart _ _ _ he).1 (by simp)
  | retry seat cut | retryUndone seat cut =>
    obtain ⟨run, latest, r, plan, -, -, -, -, -, -, -, -, rfl⟩ := retryEffects_cases h
    exact absurd (startEffects_ofStart _ _ _ he).1 (by simp)
  | resume seat continuing cut | resumeUndone seat continuing cut =>
    obtain ⟨run, latest, r, plan, -, -, -, -, -, -, -, -, rfl⟩ := resumeEffects_cases h
    obtain ⟨hc, rfl⟩ := startEffects_ofStart _ _ _ he
    cases hc
    rfl
  | reconcile seat o cut =>
    rcases mem_reconcileEffects h he with he | ⟨run, execution, -, hx, he | he | he | he⟩
    · cases he
    · cases he
      by_cases hs : execution.result.status = .abandoned
      · exact Or.inl ⟨_, if_pos hs, hs, (reconcileExecution_cases hx).1⟩
      · exact Or.inr ⟨_, hs, if_neg hs⟩
    · cases he
    · cases he
    · cases he
  | release seat released cut =>
    obtain ⟨run, -, -, -, -, -, hes⟩ := releaseEffects_cases h
    split at hes
    case h_1 => simp_all [RunAct.Appends]
    case h_2 =>
      split at hes
      case h_1 => simp_all
      case h_2 => simp_all [RunAct.Appends]
  | abandon seat released cut =>
    obtain ⟨run, memory, -, -, -, -, -, -, rfl⟩ := abandonEffects_cases h
    rcases List.mem_append.mp he with he | he
    · simp only [List.mem_cons, Effect.append.injEq, reduceCtorEq, List.not_mem_nil,
        or_false] at he
      exact Or.inl he
    · split_ifs at he with h1 h2
      · simp at he
      · simp only [List.mem_cons, Effect.append.injEq, reduceCtorEq, List.not_mem_nil,
          or_false] at he
        exact Or.inr ⟨_, he, rfl, h2.2⟩
      · cases he
  | «open» seat handoff cut =>
    obtain ⟨-, -, -, rfl⟩ := openEffects_cases h
    rcases List.mem_append.mp he with he | he
    · split at he
      case h_1 =>
        simp only [List.mem_cons, Effect.append.injEq, reduceCtorEq, List.not_mem_nil,
          or_false] at he
        exact he
      case h_2 => cases he
    · cases List.mem_singleton.mp he
  | die seat => cases h
  | interrupt seat =>
    obtain ⟨run, -, -, rfl⟩ := interruptEffects_cases h
    cases List.mem_singleton.mp he
  | shutdown seat =>
    obtain ⟨run, -, -, rfl⟩ := shutdownEffects_cases h
    cases List.mem_singleton.mp he
  | begin seat =>
    obtain ⟨run, -, -, rfl⟩ := beginEffects_cases h
    simp only [List.mem_cons, Effect.append.injEq, reduceCtorEq, List.not_mem_nil, or_false] at he
    exact ⟨_, he⟩
  | sandboxStarted seat identity | sessionStarted seat | usageCheckpoint seat usage runtimeMs =>
    obtain ⟨run, e', -, -, hn, rfl⟩ := noteEffects_cases (fun _ => rfl) h
    cases hn
    cases List.mem_singleton.mp he
    first
      | rfl
      | exact ⟨_, rfl⟩
  | finish seat execution cut =>
    obtain ⟨run, -, -, -, rfl⟩ := finishEffects_cases h
    unfold finishEffects at he
    rcases List.mem_append.mp he with he | he
    · split_ifs at he
      · cases List.mem_singleton.mp he
      · cases he
    · simp only [List.mem_cons, Effect.append.injEq, reduceCtorEq, List.not_mem_nil,
        or_false] at he
      rw [he]
      split_ifs
      · exact Or.inl rfl
      · exact Or.inr rfl
  | reject seat =>
    obtain ⟨run, b, -, -, rfl⟩ := rejectEffects_cases h
    cases List.mem_singleton.mp he
  | settle seat handoff =>
    obtain ⟨run, execution, -, -, rfl⟩ := settleEffects_cases h
    simp [settleEffects] at he
  | settleBlocked seat =>
    obtain ⟨run, -, -, rfl⟩ := settleBlockedEffects_cases h
    cases List.mem_singleton.mp he

/-- A run is abandoned only with a valid result that says so. -/
theorem appends_runAbandoned {a : RunAct} {r : RunResult} (h : a.Appends (.runAbandoned r)) :
    r.status = .abandoned ∧ isRunResult r = true := by
  cases a with
  | resume seat continuing cut | resumeUndone seat continuing cut =>
    cases continuing with
    | true => cases h
    | false => exact h.elim
  | reconcile seat o cut =>
    rcases h with ⟨r', hr, h⟩ | ⟨status, -, hr⟩
    · cases hr
      exact h
    · cases hr
  | abandon seat released cut =>
    rcases h with h | ⟨r', hr, h⟩
    · cases h
    · cases hr
      exact h
  | finish seat execution cut => rcases h with h | h <;> cases h
  | begin seat | usageCheckpoint seat usage runtimeMs =>
    obtain ⟨attemptId, hr⟩ := h
    cases hr
  | sandboxStarted seat identity | sessionStarted seat | release seat released cut
  | «open» seat handoff cut => cases h
  | _ => exact h.elim

/-- What holds of the events before a step and of those it appends holds of all events after it. -/
theorem events_step {N : RunEvent → Prop} {a : RunAct} (hs : ∀ e ∈ s.files.events, N e)
    (hn : ∀ e, a.Appends e → N e) (h : s.step D a = some t) : ∀ e ∈ t.files.events, N e := by
  refine RunState.step_allCuts (P := fun u => ∀ e ∈ u.files.events, N e) h ?_ ?_ ?_
  · exact fun _ _ => hs
  · exact fun _ _ hu => hu
  · intro es he
    refine AllCuts.of_preserved hs ?_
    intro u e hm hu
    cases e with
    | append e =>
      intro e' he'
      rcases List.mem_append.mp he' with he' | he'
      · exact hu e' he'
      · rw [List.mem_singleton.mp he']
        exact hn e (effects_appends he hm)
    | settleLease =>
      simp only [perform]
      split_ifs
      · exact hu
      · exact hu
    | _ => exact hu

end RunLife

end PiSubagent
