import PiSubagent.Runtime.SandboxCleanup
import PiSubagent.Service.RunLife

/-!
# The results of an attempt

* `AttemptState.records`: what the session of an attempt keeps, whatever happens in it.
* `KeepsEvents`: a program that records no terminal event.
* **`attempt_results_valid`**: what an attempt returns and records are valid results.
* **`attempt_mayEnd`**: an attempt ends as the life of a run lets its executor end.
-/

namespace PiSubagent

open JsonText Prog

variable (plan : AttemptPlan) (o : AttemptOutcomes)

/-! ## What the steps of an attempt keep -/

/-- The terminal events, the snapshots, the sandbox, and what is known of the cleanup. -/
def AttemptState.records (s : AttemptState) :
    List (JsString × AttemptExecutionResult) × List AttemptExecutionResult ×
      Option AttemptSandbox × CleanupOutcome × CleanupOutcome :=
  (s.events, s.snapshots, s.sandbox, s.sandboxCleanup, s.workspaceCleanup)

section Keeps

variable {γ : Type} {f : AttemptState → γ}

theorem onMachines_keeps_of {α : Type} (hf : ∀ s t, f { s with machines := t } = f s)
    (m : SandboxM α) : Keeps f (onMachines m) := Keeps.zoom m fun t s => hf s t

/-- Closing the sandbox changes the machines and what is known of them. -/
theorem closeSandbox_keeps_of (hf : ∀ s t c, f { s with machines := t, closed := c } = f s)
    (sandbox : AttemptSandbox) : Keeps f (closeSandbox o sandbox) := by
  refine Keeps.bind Keeps.get fun s => ?_
  split_ifs
  · exact Keeps.pure ()
  · refine Keeps.bind (onMachines_keeps_of (fun s t => hf s t s.closed) _) fun _ => ?_
    exact Keeps.modify fun s => hf s s.machines true

theorem closeMeanwhile_keeps_of (hf : ∀ s t c, f { s with machines := t, closed := c } = f s)
    (sandbox : AttemptSandbox) (n : ℕ) : Keeps f (closeMeanwhile o sandbox n) := by
  induction n with
  | zero => exact Keeps.pure ()
  | succ n ih =>
    refine Keeps.bind ?_ fun _ => ih
    exact Keeps.tryCatch (closeSandbox_keeps_of o hf sandbox) fun _ => Keeps.pure ()

theorem awaitStep_keeps_of (hf : ∀ s t c, f { s with machines := t, closed := c } = f s)
    (sandbox : AttemptSandbox) (step : AttemptStep) : Keeps f (awaitStep o sandbox step) :=
  Keeps.bind (closeMeanwhile_keeps_of o hf sandbox _) fun _ => Keeps.liftExcept _

theorem repairAnswer_keeps_of (hf : ∀ s t c, f { s with machines := t, closed := c } = f s)
    (sandbox : AttemptSandbox) (fuel n : ℕ) : Keeps f (repairAnswer o sandbox fuel n) := by
  induction fuel generalizing n with
  | zero => exact Keeps.pure ()
  | succ fuel ih =>
    unfold repairAnswer
    split_ifs
    · exact Keeps.pure ()
    · exact Keeps.bind (awaitStep_keeps_of o hf sandbox _) fun _ => ih (n + 1)

theorem finalAnswer_keeps_of (hf : ∀ s t c, f { s with machines := t, closed := c } = f s)
    (ha : ∀ s answer, f { s with structuredOutput := answer } = f s) (sandbox : AttemptSandbox) :
    Keeps f (finalAnswer o sandbox) := by
  refine Keeps.bind (repairAnswer_keeps_of o hf sandbox 2 0) fun _ => ?_
  refine Keeps.bind (Keeps.modify fun s => ha s _) fun _ => ?_
  exact Keeps.when _ (Keeps.throw _)

end Keeps

theorem onMachines_keeps {α : Type} (m : SandboxM α) : Keeps AttemptState.records (onMachines m) :=
  onMachines_keeps_of (fun _ _ => rfl) m

theorem closeSandbox_keeps (sandbox : AttemptSandbox) :
    Keeps AttemptState.records (closeSandbox o sandbox) :=
  closeSandbox_keeps_of o (fun _ _ _ => rfl) sandbox

theorem closeMeanwhile_keeps (sandbox : AttemptSandbox) (n : ℕ) :
    Keeps AttemptState.records (closeMeanwhile o sandbox n) :=
  closeMeanwhile_keeps_of o (fun _ _ _ => rfl) sandbox n

theorem awaitStep_keeps (sandbox : AttemptSandbox) (step : AttemptStep) :
    Keeps AttemptState.records (awaitStep o sandbox step) :=
  awaitStep_keeps_of o (fun _ _ _ => rfl) sandbox step

theorem finalAnswer_keeps (sandbox : AttemptSandbox) :
    Keeps AttemptState.records (finalAnswer o sandbox) :=
  finalAnswer_keeps_of o (fun _ _ _ => rfl) (fun _ _ => rfl) sandbox

theorem runSession_keeps (sandbox : AttemptSandbox) :
    Keeps AttemptState.records (runSession plan o sandbox) := by
  have hstep := awaitStep_keeps o sandbox
  unfold runSession
  refine Keeps.bind (Keeps.when _ (Keeps.throw _)) fun _ => ?_
  refine Keeps.bind (hstep _) fun _ => ?_
  refine Keeps.bind (hstep _) fun _ => ?_
  refine Keeps.bind (hstep _) fun _ => ?_
  refine Keeps.bind (hstep _) fun _ => ?_
  refine Keeps.bind (Keeps.modify fun _ => rfl) fun _ => ?_
  refine Keeps.bind (hstep _) fun _ => ?_
  refine Keeps.bind (Keeps.modify fun _ => rfl) fun _ => ?_
  refine Keeps.bind (hstep _) fun _ => ?_
  refine Keeps.bind (hstep _) fun _ => ?_
  refine Keeps.bind (Keeps.when _ (finalAnswer_keeps o sandbox)) fun _ => ?_
  refine Keeps.bind (hstep _) fun _ => ?_
  refine Keeps.bind (hstep _) fun _ => ?_
  refine Keeps.bind (hstep _) fun _ => ?_
  refine Keeps.bind (Keeps.modify fun _ => rfl) fun _ => ?_
  refine Keeps.bind (hstep _) fun _ => ?_
  refine Keeps.bind (Keeps.modify fun _ => rfl) fun _ => ?_
  refine Keeps.bind (Keeps.when _ (Keeps.throw _)) fun _ => ?_
  exact Keeps.modify fun _ => rfl

/-- What is recorded, whatever is known of the cleanup. -/
def AttemptState.recorded (s : AttemptState) :
    List (JsString × AttemptExecutionResult) × List AttemptExecutionResult ×
      Option AttemptSandbox :=
  (s.events, s.snapshots, s.sandbox)

theorem settleWorkspace_keeps : Keeps AttemptState.recorded (settleWorkspace plan o) := by
  refine Keeps.bind (Keeps.when _ (Keeps.modify fun _ => rfl)) fun _ => ?_
  refine Keeps.bind (Keeps.when _ (Keeps.throw _)) fun _ => ?_
  refine Keeps.when _ ?_
  refine Keeps.bind (Keeps.when _ (Keeps.throw _)) fun _ => ?_
  exact Keeps.bind (Keeps.liftExcept _) fun _ => Keeps.modify fun _ => rfl

theorem cleanupSandbox_keeps : Keeps AttemptState.recorded (cleanupSandbox o) := by
  have hrecorded {α : Type} {m : AttemptM α} (h : Keeps AttemptState.records m) :
      Keeps AttemptState.recorded m := h.comp fun x => (x.1, x.2.1, x.2.2.1)
  refine Keeps.bind Keeps.get fun s => ?_
  cases s.sandbox with
  | none => exact Keeps.pure ()
  | some sandbox =>
    refine Keeps.bind (hrecorded (closeMeanwhile_keeps o sandbox _)) fun _ => ?_
    refine Keeps.bind Keeps.get fun t => ?_
    split_ifs
    · exact Keeps.modify fun _ => rfl
    · refine Keeps.tryCatch ?_ fun _ => Keeps.modify fun _ => rfl
      exact Keeps.bind (hrecorded (closeSandbox_keeps o sandbox)) fun _ =>
        Keeps.modify fun _ => rfl

/-- The program records no terminal event. -/
def KeepsEvents {α : Type} (m : AttemptM α) : Prop := ∀ s, (exec m s).2.events = s.events

theorem KeepsEvents.of_records {α : Type} {m : AttemptM α} (h : Keeps AttemptState.records m) :
    KeepsEvents m := h.comp Prod.fst

theorem KeepsEvents.of_recorded {α : Type} {m : AttemptM α} (h : Keeps AttemptState.recorded m) :
    KeepsEvents m := h.comp Prod.fst

theorem writeSnapshot_keepsEvents (execution : AttemptExecutionResult) (outcome : AppendOutcome) :
    KeepsEvents (writeSnapshot execution outcome) :=
  Keeps.bind (f := AttemptState.events) (Keeps.when _ (Keeps.modify fun _ => rfl)) fun _ =>
    Keeps.liftExcept _

/-! ## What an attempt records -/

/-- Every terminal event that is recorded carries a valid result. -/
def RecordsValid (s : AttemptState) : Prop := ∀ e ∈ s.events, isRunResult e.2.result = true

/-- What an attempt may return: a valid result of its run, whose status is one of those of a result
and says how the attempt was aborted, if it says that it was. -/
structure ReturnsValid (x : AttemptExecutionResult) : Prop where
  valid : isRunResult x.result = true
  runId : x.result.runId = plan.runId.val
  status : x.result.status = .completed ∨ x.result.status = .failed ∨
    x.result.status = .cleanupBlocked ∨ (x.result.status = .cancelled ∧ o.aborted = some false) ∨
      (x.result.status = .interrupted ∧ o.aborted = some true)

theorem KeepsEvents.triple {α : Type} {m : AttemptM α} (h : KeepsEvents m) :
    Triple RecordsValid m (fun _ => RecordsValid) (fun _ => RecordsValid) := by
  intro s hs
  have he := h s
  rcases hm : exec m s with ⟨e | a, t⟩
  all_goals
    rw [hm] at he
    have hevents : t.events = s.events := he
    change ∀ e ∈ t.events, isRunResult e.2.result = true
    rw [hevents]
    exact hs

theorem appendTerminal_valid (type : String) {execution : AttemptExecutionResult}
    (outcome : AppendOutcome) (h : isRunResult execution.result = true) :
    Triple RecordsValid (appendTerminal type execution outcome) (fun _ => RecordsValid)
      (fun _ => RecordsValid) := by
  refine Triple.bind (Triple.when (fun _ => Triple.modify ?_) fun _ _ h => h) fun _ =>
    Triple.liftExcept (fun _ _ _ h => h) fun _ _ _ h => h
  intro s hs e he
  rcases List.mem_append.mp he with he | he
  · exact hs e he
  · rw [List.mem_singleton.mp he]
    exact h

theorem terminalResult_ok {r r' : RunResult} (h : terminalResult r = .ok r') :
    r' = r ∧ isRunResult r = true := by
  unfold terminalResult at h
  split_ifs at h with hv
  cases h
  exact ⟨rfl, hv⟩

theorem completeAttempt_valid :
    Triple RecordsValid (completeAttempt plan o)
      (fun x s => RecordsValid s ∧ ReturnsValid plan o x) (fun _ => RecordsValid) := by
  apply Triple.get
  intro s₀
  refine Triple.bind (M := fun (r : RunResult) s => RecordsValid s ∧ isRunResult r = true ∧
    r.runId = plan.runId.val ∧ r.status = .completed) (Triple.liftExcept ?_ ?_) fun r => ?_
  · intro r s hr hs
    obtain ⟨rfl, hv⟩ := terminalResult_ok hr
    exact ⟨hs.1, hv, rfl, rfl⟩
  · exact fun _ _ _ hs => hs.1
  · refine fun s hs => ?_
    obtain ⟨hs, hv, hid, hst⟩ := hs
    revert s
    refine Triple.bind (appendTerminal_valid _ _ hv) fun _ => ?_
    refine Triple.bind (writeSnapshot_keepsEvents _ _).triple fun _ => ?_
    exact Triple.pure fun s hs => ⟨hs, hv, hid, Or.inl hst⟩

theorem attemptBody_valid :
    Triple RecordsValid (attemptBody plan o)
      (fun x s => RecordsValid s ∧ ReturnsValid plan o x) (fun _ => RecordsValid) := by
  unfold attemptBody
  refine Triple.bind (KeepsEvents.of_records (Keeps.liftExcept _)).triple fun _ => ?_
  refine Triple.bind (KeepsEvents.of_records (Keeps.liftExcept _)).triple fun _ => ?_
  refine Triple.bind (KeepsEvents.of_records (onMachines_keeps _)).triple fun sandbox => ?_
  have hset : ∀ f : AttemptState → AttemptState, (∀ s, (f s).events = s.events) →
      Triple RecordsValid (modify f) (fun _ => RecordsValid) (fun _ => RecordsValid) :=
    fun f hf => KeepsEvents.triple (m := modify f) hf
  refine Triple.bind (hset _ fun _ => rfl) fun _ => ?_
  refine Triple.bind (KeepsEvents.of_records (runSession_keeps plan o sandbox)).triple fun _ => ?_
  refine Triple.bind (KeepsEvents.of_records (closeSandbox_keeps o sandbox)).triple fun _ => ?_
  refine Triple.bind (hset _ fun _ => rfl) fun _ => ?_
  refine Triple.bind (KeepsEvents.of_recorded (settleWorkspace_keeps plan o)).triple fun _ => ?_
  exact completeAttempt_valid plan o

theorem thrownResult_returns (error : Thrown) (s : AttemptState)
    (h : isRunResult (thrownResult plan o error s) = true) :
    ReturnsValid plan o (thrownExecution plan o error s) := by
  refine ⟨h, rfl, ?_⟩
  change thrownStatus o _ _ = _ ∨ thrownStatus o _ _ = _ ∨ thrownStatus o _ _ = _ ∨
    (thrownStatus o _ _ = _ ∧ _) ∨ thrownStatus o _ _ = _ ∧ _
  unfold thrownStatus
  split_ifs with hb
  · exact Or.inr (Or.inr (Or.inl rfl))
  · cases o.aborted with
    | none => exact Or.inr (Or.inl rfl)
    | some shutdown => cases shutdown <;> simp

theorem failAttempt_valid (error : Thrown) :
    Triple RecordsValid (failAttempt plan o error)
      (fun x s => RecordsValid s ∧ ReturnsValid plan o x) (fun _ => RecordsValid) := by
  intro s hs
  have hafter : isRunResult (thrownResult plan o error s) = true →
      RecordsValid (afterFailed plan o error s) := by
    intro hv
    unfold afterFailed
    split_ifs
    · intro e he
      rcases List.mem_append.mp he with he | he
      · exact hs e he
      · rw [List.mem_singleton.mp he]
        exact hv
    · exact hs
  rcases exec_failAttempt plan o error s with ⟨-, e, he⟩ | ⟨hv, ⟨e, he⟩ | ⟨-, he⟩⟩
  · rw [he]
    exact hs
  · rw [he]
    exact hafter hv
  · rw [he]
    exact ⟨hafter hv, thrownResult_returns plan o error s hv⟩

theorem attemptCatch_valid (error : Thrown) :
    Triple RecordsValid (attemptCatch plan o error)
      (fun x s => RecordsValid s ∧ ReturnsValid plan o x) (fun _ => RecordsValid) := by
  have hkeep : KeepsEvents (keepSession plan o) := by
    intro s
    change AttemptState.events (if _ then _ else _) = _
    split_ifs <;> rfl
  have hsnapshot : KeepsEvents (cleanupSnapshot o) := by
    intro s
    change AttemptState.events (if _ then _ else _) = _
    split_ifs <;> rfl
  refine Triple.bind hkeep.triple fun _ => ?_
  refine Triple.bind (KeepsEvents.of_recorded (cleanupSandbox_keeps o)).triple fun _ => ?_
  refine Triple.bind hsnapshot.triple fun _ => ?_
  exact failAttempt_valid plan o error

/-- **What an attempt returns and records are valid results.** -/
theorem attempt_results_valid :
    Triple RecordsValid (runNativeAttempt plan o)
      (fun x s => RecordsValid s ∧ ReturnsValid plan o x) (fun _ => RecordsValid) := by
  unfold runNativeAttempt
  refine Triple.bind (KeepsEvents.of_records (Keeps.liftExcept _)).triple fun _ => ?_
  refine Triple.bind (KeepsEvents.of_records (Keeps.liftExcept _)).triple fun _ => ?_
  refine Triple.bind (KeepsEvents.of_records (Keeps.liftExcept _)).triple fun _ => ?_
  refine Triple.bind (Triple.tryCatch (attemptBody_valid plan o) (attemptCatch_valid plan o))
    fun x => ?_
  refine Triple.bind (M := fun _ s => RecordsValid s ∧ ReturnsValid plan o x)
    (Triple.liftExcept (fun _ _ _ h => h) fun _ _ _ h => h.1) fun _ => ?_
  exact Triple.pure fun _ h => h

theorem recordedResults_valid (r : RunResult)
    (h : r ∈ recordedResults (exec (runNativeAttempt plan o) (.start plan o)).1
      (exec (runNativeAttempt plan o) (.start plan o)).2) : isRunResult r = true := by
  have hspec := attempt_results_valid plan o (.start plan o) (by simp [RecordsValid,
    AttemptState.start])
  generalize exec (runNativeAttempt plan o) (.start plan o) = p at h hspec
  rcases p with ⟨e | x, t⟩
  · rcases List.mem_append.mp h with h | h
    · obtain ⟨e', he', rfl⟩ := List.mem_map.mp h
      exact hspec e' he'
    · cases h
  · rcases List.mem_append.mp h with h | h
    · obtain ⟨e', he', rfl⟩ := List.mem_map.mp h
      exact hspec.1 e' he'
    · rw [List.mem_singleton.mp h]
      exact hspec.2.valid

/-- **An attempt ends as the life of a run lets its executor end.** -/
theorem attempt_mayEnd {run : RunLife.ActiveRun} {x : AttemptExecutionResult} {t : AttemptState}
    (hid : run.plan.runId = plan.runId) (ha : run.aborted = o.aborted)
    (h : exec (runNativeAttempt plan o) (.start plan o) = (.ok x, t)) :
    RunLife.mayEnd run x = true := by
  obtain ⟨-, hv, hrid, hst⟩ :=
    (attempt_results_valid plan o).ok (by simp [RecordsValid, AttemptState.start]) h
  unfold RunLife.mayEnd
  rw [hv, hrid, hid, ha]
  rcases hst with hst | hst | hst | ⟨hst, hab⟩ | ⟨hst, hab⟩
  · simp [hst]
  · simp [hst]
  · simp [hst]
  · simp [hst, hab]
  · simp [hst, hab]

end PiSubagent
