import PiSubagent.Runtime.Attempt
import PiSubagent.Sandbox.StartedVms

/-!
# What an attempt says about its sandbox

* `CleanupHonest`: a result or terminal event that says the sandbox is cleaned up is right, and an
  attempt that cannot show that its machines have ended ends cleanup-blocked.
* `GoodSandbox`, `NoSandbox`: the two ways an attempt can stand when it throws.
* **`attempt_cleanup_honest_iff`**: an attempt is honest unless the creation of its sandbox was
  rejected and left a machine.
-/

namespace PiSubagent

open JsonText Prog

variable (plan : AttemptPlan) (o : AttemptOutcomes)

/-! ## Honesty -/

/-- The results an attempt has recorded or returned. -/
def recordedResults (r : Outcome AttemptExecutionResult) (s : AttemptState) : List RunResult :=
  s.events.map (fun e => e.2.result) ++
    match r with
    | .ok execution => [execution.result]
    | .error _ => []

/-- A result that says the sandbox is cleaned up is right, and a machine that may run leaves the
attempt cleanup-blocked. -/
structure Honest (r : Outcome AttemptExecutionResult) (s : AttemptState) : Prop where
  recorded : ∀ result ∈ recordedResults r s, result.sandboxCleanup.done = true →
    s.machines.mayRun = false ∧ s.machines.warmup.process = false ∧
      s.machines.attempt.process = false
  blocked : s.machines.mayRun = true → settledStatus r = .cleanupBlocked

/-- An event says the sandbox is cleaned up, and a machine may run. -/
def Betrayed (s : AttemptState) : Prop :=
  s.machines.mayRun = true ∧ ∃ e ∈ s.events, e.2.result.sandboxCleanup.done = true

theorem Betrayed.not_honest {s : AttemptState} (h : Betrayed s)
    (r : Outcome AttemptExecutionResult) : ¬ Honest r s := by
  intro hr
  obtain ⟨hm, e, he, hd⟩ := h
  have hmem : e.2.result ∈ recordedResults r s :=
    List.mem_append_left _ (List.mem_map_of_mem he)
  have := (hr.recorded _ hmem hd).1
  rw [hm] at this
  exact Bool.noConfusion this

theorem Honest.reject {s : AttemptState} {execution : AttemptExecutionResult}
    (h : Honest (.ok execution) s) (e : Thrown) : Honest (.error e) s where
  recorded := by
    intro result hr
    apply h.recorded
    have hm : result ∈ s.events.map fun e => e.2.result := by
      simpa only [recordedResults, List.append_nil] using hr
    exact List.mem_append_left _ hm
  blocked := fun _ => rfl

theorem sound_process {s : SandboxState} (hm : s.mayRun = false) (hw : s.warmup.Sound)
    (ha : s.attempt.Sound) : s.warmup.process = false ∧ s.attempt.process = false := by
  rw [SandboxState.mayRun, Bool.or_eq_false_iff] at hm
  exact ⟨hw hm.1, ha hm.2⟩

/-- When every machine has ended, whatever is said is right. -/
theorem honest_of_ended {s : AttemptState} (r : Outcome AttemptExecutionResult)
    (hm : s.machines.mayRun = false) (hw : s.machines.warmup.Sound)
    (ha : s.machines.attempt.Sound) : Honest r s where
  recorded := fun _ _ _ => ⟨hm, sound_process hm hw ha⟩
  blocked := fun h => by
    rw [hm] at h
    exact Bool.noConfusion h

/-! ## With a sandbox -/

/-- An attempt that has its sandbox. -/
structure GoodSandbox (s : AttemptState) : Prop where
  some : s.sandbox.isSome = true
  warmup : s.machines.WarmupEnded
  started : s.machines.attempt.started = true
  sound : s.machines.attempt.Sound
  closed : s.closed = true → s.machines.attempt.mayRun = false
  cleanup : s.sandboxCleanup = .proved → s.closed = true
  events : ∀ e ∈ s.events, s.closed = true

theorem GoodSandbox.ended {s : AttemptState} (h : GoodSandbox s) (hc : s.closed = true) :
    s.machines.mayRun = false := by
  rw [SandboxState.mayRun, h.warmup.1, h.closed hc]
  rfl

theorem closeSandbox_spec (sandbox : AttemptSandbox) :
    Triple GoodSandbox (closeSandbox o sandbox) (fun _ s => GoodSandbox s ∧ s.closed = true)
      (fun _ => GoodSandbox) := by
  intro s h
  unfold closeSandbox
  rw [exec_bind, exec_get]
  dsimp only
  cases hc : s.closed with
  | true => exact ⟨h, hc⟩
  | false =>
    rw [if_neg Bool.false_ne_true, exec_bind, onMachines, exec_zoom]
    have hclose := closeStartedVm_spec o.sandbox sandbox.leased s.machines.warmup s.machines.attempt
      s.machines.closes h.started
    have hnone : s.events = [] := by
      rw [List.eq_nil_iff_forall_not_mem]
      intro e he
      have := h.events e he
      rw [hc] at this
      exact Bool.noConfusion this
    have hnot : s.sandboxCleanup ≠ .proved := by
      intro hp
      have := h.cleanup hp
      rw [hc] at this
      exact Bool.noConfusion this
    rcases hx : exec (closeStartedVm o.sandbox sandbox.leased) s.machines with ⟨e | u, t⟩
    · obtain ⟨hw, ha⟩ := hclose.error ⟨rfl, rfl, rfl⟩ hx
      have hend : t.WarmupEnded := by
        rw [SandboxState.WarmupEnded, hw]
        exact h.warmup
      have hsound : t.attempt.Sound := by
        rcases ha with ⟨ha, -⟩ | ⟨ha, -⟩
        · rw [ha]
          exact fun _ => rfl
        · rw [ha]
          intro hp
          have hr : s.machines.attempt.mayRun = false := by
            rw [VmState.mayRun, h.started]
            exact hp
          have hq : s.machines.attempt.process = false := h.sound hr
          dsimp only
          rw [hq, Bool.false_and]
      refine ⟨h.some, hend, ?_, hsound, ?_, fun hp => absurd hp hnot, ?_⟩
      · rcases ha with ⟨ha, -⟩ | ⟨ha, -⟩ <;> rw [ha]
      · intro hp
        have hcl : s.closed = true := hp
        rw [hc] at hcl
        exact Bool.noConfusion hcl
      · intro e he
        have hmem : e ∈ s.events := he
        rw [hnone] at hmem
        exact absurd hmem List.not_mem_nil
    · obtain ⟨hw, ha, -⟩ := hclose.ok ⟨rfl, rfl, rfl⟩ hx
      have hend : t.WarmupEnded := by
        rw [SandboxState.WarmupEnded, hw]
        exact h.warmup
      refine ⟨⟨h.some, hend, ?_, ?_, ?_, fun _ => rfl, fun _ _ => rfl⟩, rfl⟩
      · exact congrArg VmState.started ha
      · rw [ha]
        exact fun _ => rfl
      · intro _
        rw [ha]
        rfl

theorem closeMeanwhile_spec (sandbox : AttemptSandbox) (n : ℕ) :
    Triple GoodSandbox (closeMeanwhile o sandbox n) (fun _ => GoodSandbox) (fun _ _ => False) := by
  induction n with
  | zero => exact Triple.pure fun _ h => h
  | succ n ih =>
    refine Triple.bind (Triple.tryCatch ((closeSandbox_spec o sandbox).weaken (fun _ h => h)
      (fun _ _ h => h.1) fun _ _ h => h) fun _ => Triple.pure fun _ h => h) fun _ => ih

theorem awaitStep_spec (sandbox : AttemptSandbox) (step : AttemptStep) :
    Triple GoodSandbox (awaitStep o sandbox step) (fun _ => GoodSandbox) (fun _ => GoodSandbox) :=
  Triple.bind ((closeMeanwhile_spec o sandbox _).weaken (fun _ h => h) (fun _ _ h => h)
    fun _ _ h => h.elim) fun _ => Triple.liftExcept (fun _ _ _ h => h) fun _ _ _ h => h

theorem repairAnswer_spec (sandbox : AttemptSandbox) (fuel n : ℕ) :
    Triple GoodSandbox (repairAnswer o sandbox fuel n) (fun _ => GoodSandbox)
      (fun _ => GoodSandbox) := by
  induction fuel generalizing n with
  | zero => exact Triple.pure fun _ h => h
  | succ fuel ih =>
    unfold repairAnswer
    split_ifs
    · exact Triple.pure fun _ h => h
    · exact Triple.bind (awaitStep_spec o sandbox _) fun _ => ih (n + 1)

theorem guard_spec {P : AttemptState → Prop} (c : Bool) (e : Thrown) :
    Triple P (when c (throw e) : AttemptM Unit) (fun _ => P) (fun _ => P) :=
  Triple.when (fun _ => Triple.throw fun _ h => h) fun _ _ h => h

theorem assign_spec {f : AttemptState → AttemptState} {R : Thrown → AttemptState → Prop}
    (h : ∀ s, (f s).machines = s.machines ∧ (f s).sandbox = s.sandbox ∧ (f s).closed = s.closed ∧
      (f s).sandboxCleanup = s.sandboxCleanup ∧ (f s).events = s.events) :
    Triple GoodSandbox (modify f : AttemptM Unit) (fun _ => GoodSandbox) R := by
  apply Triple.modify
  intro s hs
  obtain ⟨h1, h2, h3, h4, h5⟩ := h s
  constructor
  · rw [h2]
    exact hs.some
  · rw [h1]
    exact hs.warmup
  · rw [h1]
    exact hs.started
  · rw [h1]
    exact hs.sound
  · rw [h1, h3]
    exact hs.closed
  · rw [h3, h4]
    exact hs.cleanup
  · rw [h3, h5]
    exact hs.events

theorem finalAnswer_spec (sandbox : AttemptSandbox) :
    Triple GoodSandbox (finalAnswer o sandbox) (fun _ => GoodSandbox) (fun _ => GoodSandbox) := by
  refine Triple.bind (repairAnswer_spec o sandbox 2 0) fun _ => ?_
  refine Triple.bind (assign_spec fun _ => ⟨rfl, rfl, rfl, rfl, rfl⟩) fun _ => ?_
  exact guard_spec _ _

theorem runSession_spec (sandbox : AttemptSandbox) :
    Triple GoodSandbox (runSession plan o sandbox) (fun _ => GoodSandbox) (fun _ => GoodSandbox) := by
  unfold runSession
  refine Triple.bind (guard_spec _ _) fun _ => ?_
  refine Triple.bind (awaitStep_spec o sandbox _) fun _ => ?_
  refine Triple.bind (awaitStep_spec o sandbox _) fun _ => ?_
  refine Triple.bind (awaitStep_spec o sandbox _) fun _ => ?_
  refine Triple.bind (awaitStep_spec o sandbox _) fun _ => ?_
  refine Triple.bind (assign_spec fun _ => ⟨rfl, rfl, rfl, rfl, rfl⟩) fun _ => ?_
  refine Triple.bind (awaitStep_spec o sandbox _) fun _ => ?_
  refine Triple.bind (assign_spec fun _ => ⟨rfl, rfl, rfl, rfl, rfl⟩) fun _ => ?_
  refine Triple.bind (awaitStep_spec o sandbox _) fun _ => ?_
  refine Triple.bind (awaitStep_spec o sandbox _) fun _ => ?_
  refine Triple.bind (Triple.when (fun _ => finalAnswer_spec o sandbox) fun _ _ h => h) fun _ => ?_
  refine Triple.bind (awaitStep_spec o sandbox _) fun _ => ?_
  refine Triple.bind (awaitStep_spec o sandbox _) fun _ => ?_
  refine Triple.bind (awaitStep_spec o sandbox _) fun _ => ?_
  refine Triple.bind (assign_spec fun _ => ⟨rfl, rfl, rfl, rfl, rfl⟩) fun _ => ?_
  refine Triple.bind (awaitStep_spec o sandbox _) fun _ => ?_
  refine Triple.bind (assign_spec fun _ => ⟨rfl, rfl, rfl, rfl, rfl⟩) fun _ => ?_
  refine Triple.bind (guard_spec _ _) fun _ => ?_
  exact assign_spec fun _ => ⟨rfl, rfl, rfl, rfl, rfl⟩

/-- An attempt whose sandbox is closed. -/
def ClosedSandbox (s : AttemptState) : Prop := GoodSandbox s ∧ s.closed = true

theorem settleWorkspace_spec :
    Triple ClosedSandbox (settleWorkspace plan o) (fun _ => ClosedSandbox)
      (fun _ => ClosedSandbox) := by
  have hset : ∀ f : AttemptState → AttemptState, (∀ s, (f s).machines = s.machines ∧
      (f s).sandbox = s.sandbox ∧ (f s).closed = s.closed ∧
      (f s).sandboxCleanup = s.sandboxCleanup ∧ (f s).events = s.events) →
      Triple ClosedSandbox (modify f : AttemptM Unit) (fun _ => ClosedSandbox)
        (fun _ => ClosedSandbox) := by
    intro f hf
    apply Triple.modify
    rintro s ⟨hg, hc⟩
    refine ⟨(assign_spec hf : Triple _ _ _ fun _ _ => False) s hg, ?_⟩
    rw [(hf s).2.2.1]
    exact hc
  unfold settleWorkspace
  refine Triple.bind (Triple.when (fun _ => hset _ fun _ => ⟨rfl, rfl, rfl, rfl, rfl⟩)
    fun _ _ h => h) fun _ => ?_
  refine Triple.bind (guard_spec _ _) fun _ => ?_
  refine Triple.when (fun _ => ?_) fun _ _ h => h
  refine Triple.bind (guard_spec _ _) fun _ => ?_
  refine Triple.bind (Triple.liftExcept (fun _ _ _ h => h) fun _ _ _ h => h) fun _ => ?_
  exact hset _ fun _ => ⟨rfl, rfl, rfl, rfl, rfl⟩

theorem appendTerminal_spec (type : String) (execution : AttemptExecutionResult)
    (outcome : AppendOutcome) :
    Triple ClosedSandbox (appendTerminal type execution outcome) (fun _ => ClosedSandbox)
      (fun _ => ClosedSandbox) := by
  refine Triple.bind (Triple.when (fun _ => Triple.modify ?_) fun _ _ h => h) fun _ =>
    Triple.liftExcept (fun _ _ _ h => h) fun _ _ _ h => h
  rintro s ⟨hg, hc⟩
  exact ⟨⟨hg.some, hg.warmup, hg.started, hg.sound, hg.closed, hg.cleanup, fun _ _ => hc⟩, hc⟩

theorem writeSnapshot_spec (execution : AttemptExecutionResult) (outcome : AppendOutcome) :
    Triple ClosedSandbox (writeSnapshot execution outcome) (fun _ => ClosedSandbox)
      (fun _ => ClosedSandbox) := by
  refine Triple.bind (Triple.when (fun _ => Triple.modify ?_) fun _ _ h => h) fun _ =>
    Triple.liftExcept (fun _ _ _ h => h) fun _ _ _ h => h
  rintro s ⟨hg, hc⟩
  exact ⟨⟨hg.some, hg.warmup, hg.started, hg.sound, hg.closed, hg.cleanup, hg.events⟩, hc⟩

theorem completeAttempt_spec :
    Triple ClosedSandbox (completeAttempt plan o) (fun _ => ClosedSandbox)
      (fun _ => ClosedSandbox) := by
  apply Triple.get
  intro s₀
  refine Triple.bind (M := fun _ => ClosedSandbox)
    (Triple.liftExcept (fun _ _ _ h => h.1) fun _ _ _ h => h.1) fun _ => ?_
  refine Triple.bind (appendTerminal_spec _ _ _) fun _ => ?_
  exact Triple.bind (writeSnapshot_spec _ _) fun _ => Triple.pure fun _ h => h

/-! ## Without a sandbox -/

/-- An attempt that has thrown before it had its sandbox. -/
structure NoSandbox (s : AttemptState) : Prop where
  none : s.sandbox = none
  session : s.session = false
  warmup : s.machines.warmup.Sound
  sound : s.machines.attempt.Sound
  cleanup : s.sandboxCleanup = .notNeeded
  usage : s.usage = emptyUsage
  events : s.events = []

/-- The attempt gets to the creation of its sandbox, which is rejected and leaves a machine. -/
def AttemptOutcomes.left : Bool :=
  o.firstAbortCheck.isOk && o.resolveModel.isOk && o.sandbox.leavesVm

/-- How an attempt stands when its body has thrown. -/
def Thrown.Stands (s : AttemptState) : Prop :=
  (o.left = false ∧ GoodSandbox s) ∨ (NoSandbox s ∧ s.machines.mayRun = o.left)

theorem start_noSandbox : NoSandbox (.start plan o) where
  none := rfl
  session := rfl
  warmup := VmState.idle_sound
  sound := VmState.idle_sound
  cleanup := rfl
  usage := rfl
  events := rfl

theorem withSandbox_spec (sandbox : AttemptSandbox) (hl : o.sandbox.leavesVm = false) :
    Triple (fun s => NoSandbox s ∧ s.closed = false ∧ s.machines.Running o.sandbox)
      (do
        modify fun s => { s with sandbox := some sandbox }
        runSession plan o sandbox
        closeSandbox o sandbox
        modify fun s => { s with sandboxCleanup := .proved }
        settleWorkspace plan o
        completeAttempt plan o)
      (fun _ s => o.left = false ∧ ClosedSandbox s) (fun _ => Thrown.Stands o) := by
  have hleft : o.left = false := by
    rw [AttemptOutcomes.left, hl, Bool.and_false]
  have hgood : Triple (fun s => NoSandbox s ∧ s.closed = false ∧ s.machines.Running o.sandbox)
      (do
        modify fun s => { s with sandbox := some sandbox }
        runSession plan o sandbox
        closeSandbox o sandbox
        modify fun s => { s with sandboxCleanup := .proved }
        settleWorkspace plan o
        completeAttempt plan o) (fun _ => ClosedSandbox) (fun _ => GoodSandbox) := by
    refine Triple.bind (M := fun _ => GoodSandbox) (Triple.modify ?_) fun _ => ?_
    · rintro s ⟨hn, hc, he, ha, -⟩
      refine ⟨rfl, he, ?_, ?_, ?_, ?_, ?_⟩
      · exact congrArg VmState.started ha
      · intro hm
        have : s.machines.attempt.mayRun = false := hm
        rw [ha] at this
        exact Bool.noConfusion this
      · intro h
        have : s.closed = true := h
        rw [hc] at this
        exact Bool.noConfusion this
      · intro h
        have : s.sandboxCleanup = .proved := h
        rw [hn.cleanup] at this
        exact CleanupOutcome.noConfusion this
      · intro e he
        have : e ∈ s.events := he
        rw [hn.events] at this
        exact absurd this List.not_mem_nil
    refine Triple.bind (runSession_spec plan o sandbox) fun _ => ?_
    refine Triple.bind (closeSandbox_spec o sandbox) fun _ => ?_
    refine Triple.bind (M := fun _ => ClosedSandbox) (Triple.modify ?_) fun _ => ?_
    · rintro s ⟨hg, hc⟩
      exact ⟨⟨hg.some, hg.warmup, hg.started, hg.sound, hg.closed, fun _ => hc, hg.events⟩, hc⟩
    refine Triple.bind (M := fun _ => ClosedSandbox)
      ((settleWorkspace_spec plan o).weaken (fun _ h => h) (fun _ _ h => h) fun _ _ h => h.1)
      fun _ => ?_
    exact (completeAttempt_spec plan o).weaken (fun _ h => h) (fun _ _ h => h) fun _ _ h => h.1
  exact hgood.weaken (fun _ h => h) (fun _ _ h => ⟨hleft, h⟩) fun _ _ h => Or.inl ⟨hleft, h⟩

theorem attemptBody_spec :
    Triple (fun s => s = .start plan o) (attemptBody plan o)
      (fun _ s => o.left = false ∧ ClosedSandbox s) (fun _ => Thrown.Stands o) := by
  have hnone : o.left = false → Thrown.Stands o (.start plan o) := fun hl =>
    Or.inr ⟨start_noSandbox plan o, by rw [hl]; rfl⟩
  rintro _ rfl
  unfold attemptBody
  rw [exec_bind, exec_liftExcept]
  cases hf : o.firstAbortCheck with
  | error e =>
    refine hnone ?_
    rw [AttemptOutcomes.left, hf]
    rfl
  | ok _ =>
    dsimp only
    rw [exec_bind, exec_liftExcept]
    cases hm : o.resolveModel with
    | error e =>
      refine hnone ?_
      rw [AttemptOutcomes.left, hm]
      exact congrArg (· && _) (Bool.and_false _)
    | ok _ =>
      have hleft : o.left = o.sandbox.leavesVm := by
        rw [AttemptOutcomes.left, hf, hm]
        rfl
      dsimp only
      rw [exec_bind, onMachines, exec_zoom]
      have hcreate := createGondolinAttemptSandbox_spec o.sandbox
      have hstart : (AttemptState.start plan o).machines.warmup = .idle ∧
          (AttemptState.start plan o).machines.Before := ⟨rfl, rfl, rfl, rfl⟩
      rcases hx : exec (createGondolinAttemptSandbox o.sandbox)
        (AttemptState.start plan o).machines with ⟨e | sandbox, t⟩
      · obtain ⟨hr, hw, ha⟩ := hcreate.error hstart hx
        exact Or.inr ⟨⟨rfl, rfl, hw, ha, rfl, rfl, rfl⟩, hr.trans hleft.symm⟩
      · obtain ⟨hl, hr⟩ := hcreate.ok hstart hx
        refine withSandbox_spec plan o sandbox hl _ ⟨⟨rfl, rfl, hr.1.2, ?_, rfl, rfl, rfl⟩, rfl, hr⟩
        intro hp
        have : t.attempt.mayRun = false := hp
        rw [hr.2.1] at this
        exact Bool.noConfusion this

/-! ## The end of an attempt that throws -/

/-- The execution an attempt that has thrown records and returns. -/
def thrownExecution (error : Thrown) (s : AttemptState) : AttemptExecutionResult :=
  ⟨thrownResult plan o error s, s.output, s.sessionFile, s.handoff, s.structuredOutput,
    some (thrownFailure o error s).message⟩

/-- The snapshots of an attempt that has thrown. -/
def snapshotsFailed (error : Thrown) (s : AttemptState) : List AttemptExecutionResult :=
  if o.appendFailed = .done ∧ o.snapshotFailed.recorded = true then
    s.snapshots ++ [thrownExecution plan o error s]
  else s.snapshots

/-- The state after the terminal event and the snapshot of an attempt that has thrown. -/
def afterFailed (error : Thrown) (s : AttemptState) : AttemptState :=
  if o.appendFailed.recorded then
    { s with
      events := s.events ++ [(ofString "attempt-failed", thrownExecution plan o error s)]
      snapshots := snapshotsFailed plan o error s }
  else s

/-- The ends of `failAttempt`: the result is refused, or it is recorded as far as the writes go. -/
theorem exec_failAttempt (error : Thrown) (s : AttemptState) :
    (isRunResult (thrownResult plan o error s) = false ∧
        ∃ e, exec (failAttempt plan o error) s = (.error e, s)) ∨
      (isRunResult (thrownResult plan o error s) = true ∧
        ((∃ e, exec (failAttempt plan o error) s = (.error e, afterFailed plan o error s)) ∨
          (o.appendFailed.recorded = true ∧ exec (failAttempt plan o error) s =
            (.ok (thrownExecution plan o error s), afterFailed plan o error s)))) := by
  unfold failAttempt
  rw [exec_bind, exec_get]
  dsimp only
  rw [exec_bind, exec_liftExcept]
  unfold terminalResult
  cases hv : isRunResult (thrownResult plan o error s) with
  | false => exact Or.inl ⟨rfl, _, rfl⟩
  | true =>
    refine Or.inr ⟨rfl, ?_⟩
    rw [if_pos rfl]
    dsimp only
    rw [exec_bind, appendTerminal, exec_bind, afterFailed, snapshotsFailed]
    cases hr : o.appendFailed with
    | lost e => exact Or.inl ⟨e, rfl⟩
    | written e => exact Or.inl ⟨e, rfl⟩
    | done =>
      cases hs : o.snapshotFailed with
      | lost e => exact Or.inl ⟨e, by simp [writeSnapshot, exec_bind]; rfl⟩
      | written e => exact Or.inl ⟨e, rfl⟩
      | done => exact Or.inr ⟨rfl, rfl⟩

/-- The sandbox of an attempt that held one is closed, or the attempt says it is not. -/
def SettledSandbox (s : AttemptState) : Prop :=
  GoodSandbox s ∧ (s.sandboxCleanup = .blocked ∨ s.closed = true)

theorem cleanupSandbox_good :
    Triple GoodSandbox (cleanupSandbox o) (fun _ => SettledSandbox) (fun _ => SettledSandbox) := by
  apply Triple.get
  intro s₀
  cases hs : s₀.sandbox with
  | none =>
    rintro s ⟨hg, rfl⟩
    have := hg.some
    rw [hs] at this
    exact Bool.noConfusion this
  | some sandbox =>
    refine Triple.bind (M := fun _ => GoodSandbox) ((closeMeanwhile_spec o sandbox _).weaken
      (fun _ h => h.1) (fun _ _ h => h) fun _ _ h => h.elim) fun _ => ?_
    apply Triple.get
    intro s₁
    cases hc : s₁.closed with
    | true =>
      apply Triple.modify
      rintro s ⟨hg, rfl⟩
      exact ⟨⟨hg.some, hg.warmup, hg.started, hg.sound, hg.closed, fun _ => hc, hg.events⟩,
        Or.inr hc⟩
    | false =>
      refine Triple.tryCatch (E := fun _ => GoodSandbox) (Triple.bind
        (M := fun _ => ClosedSandbox) ?_ fun _ => Triple.modify ?_) fun _ => Triple.modify ?_
      · exact (closeSandbox_spec o sandbox).weaken (fun _ h => h.1) (fun _ _ h => h) fun _ _ h => h
      · rintro s ⟨hg, hcl⟩
        exact ⟨⟨hg.some, hg.warmup, hg.started, hg.sound, hg.closed, fun _ => hcl, hg.events⟩,
          Or.inr hcl⟩
      · rintro s hg
        exact ⟨⟨hg.some, hg.warmup, hg.started, hg.sound, hg.closed,
          fun h => CleanupOutcome.noConfusion h, hg.events⟩, Or.inl rfl⟩

/-- An assignment to variables that do not concern the sandbox, once it is settled. -/
theorem assign_settled {f : AttemptState → AttemptState} {R : Thrown → AttemptState → Prop}
    (h : ∀ s, (f s).machines = s.machines ∧ (f s).sandbox = s.sandbox ∧ (f s).closed = s.closed ∧
      (f s).sandboxCleanup = s.sandboxCleanup ∧ (f s).events = s.events) :
    Triple SettledSandbox (modify f : AttemptM Unit) (fun _ => SettledSandbox) R := by
  apply Triple.modify
  rintro s ⟨hg, hc⟩
  refine ⟨(assign_spec h : Triple _ _ _ fun _ _ => False) s hg, ?_⟩
  rw [(h s).2.2.1, (h s).2.2.2.1]
  exact hc

theorem SettledSandbox.honest_error {s : AttemptState} (h : SettledSandbox s) (e : Thrown) :
    Honest (.error e) s where
  recorded := by
    intro result hr _
    rw [recordedResults, List.append_nil] at hr
    obtain ⟨event, he, -⟩ := List.mem_map.mp hr
    have hm := h.1.ended (h.1.events event he)
    exact ⟨hm, sound_process hm h.1.warmup.2 h.1.sound⟩
  blocked := fun _ => rfl

/-- **An attempt that held its sandbox is honest about it.** -/
theorem SettledSandbox.honest_failed {s : AttemptState} (h : SettledSandbox s) (error : Thrown) :
    Honest (.ok (thrownExecution plan o error s)) (afterFailed plan o error s) := by
  have hmach : (afterFailed plan o error s).machines = s.machines := by
    unfold afterFailed
    split_ifs <;> rfl
  constructor
  · intro result hr hd
    rw [hmach]
    have hcl : s.closed = true := by
      have hcases : (∃ e ∈ s.events, e.2.result = result) ∨
          result = thrownResult plan o error s := by
        rw [recordedResults, List.mem_append, List.mem_singleton] at hr
        rcases hr with hr | hr
        · unfold afterFailed at hr
          split_ifs at hr
          · rw [List.map_append, List.mem_append, List.map_singleton, List.mem_singleton] at hr
            rcases hr with hr | hr
            · exact Or.inl (List.mem_map.mp hr)
            · exact Or.inr hr
          · exact Or.inl (List.mem_map.mp hr)
        · exact Or.inr hr
      rcases hcases with ⟨e, he, -⟩ | hres
      · exact h.1.events e he
      · rcases h.2 with hb | hc
        · rw [hres, thrownResult, hb] at hd
          exact Bool.noConfusion hd
        · exact hc
    have hm := h.1.ended hcl
    exact ⟨hm, sound_process hm h.1.warmup.2 h.1.sound⟩
  · intro hm
    rw [hmach] at hm
    rcases h.2 with hb | hc
    · change thrownStatus o s.sandboxCleanup s.workspaceCleanup = .cleanupBlocked
      rw [thrownStatus, if_pos (Or.inl hb)]
    · rw [h.1.ended hc] at hm
      exact Bool.noConfusion hm

theorem attemptCatch_good (error : Thrown) :
    Triple GoodSandbox (attemptCatch plan o error) (fun x s => Honest (.ok x) s)
      (fun e s => Honest (.error e) s) := by
  refine Triple.bind (assign_spec ?_) fun _ => ?_
  · intro s
    split_ifs <;> exact ⟨rfl, rfl, rfl, rfl, rfl⟩
  refine Triple.bind ((cleanupSandbox_good o).weaken (fun _ h => h) (fun _ _ h => h)
    fun e _ h => h.honest_error e) fun _ => ?_
  refine Triple.bind (assign_settled ?_) fun _ => ?_
  · intro s
    split_ifs <;> exact ⟨rfl, rfl, rfl, rfl, rfl⟩
  intro s h
  rcases exec_failAttempt plan o error s with ⟨-, e, he⟩ | ⟨-, ⟨e, he⟩ | ⟨-, he⟩⟩
  · rw [he]
    exact h.honest_error e
  · rw [he]
    exact (h.honest_failed plan o error).reject e
  · rw [he]
    exact h.honest_failed plan o error

/-! ## The end of an attempt without a sandbox -/

/-- The status of an attempt that has thrown: what is blocked comes first, then the abort. -/
theorem thrownStatus_cases (sandbox workspace : CleanupOutcome) :
    ((sandbox = .blocked ∨ workspace = .blocked) ∧
        thrownStatus o sandbox workspace = .cleanupBlocked) ∨
      (¬ (sandbox = .blocked ∨ workspace = .blocked) ∧
        ((o.aborted = some true ∧ thrownStatus o sandbox workspace = .interrupted) ∨
          (o.aborted = some false ∧ thrownStatus o sandbox workspace = .cancelled) ∨
          (o.aborted = none ∧ thrownStatus o sandbox workspace = .failed))) := by
  unfold thrownStatus
  by_cases hb : sandbox = .blocked ∨ workspace = .blocked
  · exact Or.inl ⟨hb, if_pos hb⟩
  · refine Or.inr ⟨hb, ?_⟩
    rw [if_neg hb]
    cases o.aborted with
    | none => exact Or.inr (Or.inr ⟨rfl, rfl⟩)
    | some shutdown =>
      cases shutdown with
      | true => exact Or.inl ⟨rfl, rfl⟩
      | false => exact Or.inr (Or.inl ⟨rfl, rfl⟩)

theorem isRunResult_of_check {r : RunResult} {f : ClassifiedFailure} (hc : r.check = true)
    (hf : r.failure = some f) (hs : (r.status = .cleanupBlocked ∧ cleanupIsProved r = false) ∨
      r.status = .interrupted ∨ r.status = .cancelled ∨ r.status = .failed) :
    isRunResult r = true := by
  rw [isRunResult, hc, hf]
  rcases hs with ⟨hs, hp⟩ | hs | hs | hs
  · rw [hs, hp]
    rfl
  · rw [hs]
    rfl
  · rw [hs]
    rfl
  · rw [hs]
    rfl

/-- **The result of an attempt that has thrown is a result, whatever was thrown.** -/
theorem thrownResult_valid (error : Thrown) {s : AttemptState} (h : s.usage.cost.neg = false) :
    isRunResult (thrownResult plan o error s) = true := by
  have hstatus := thrownStatus_cases o s.sandboxCleanup s.workspaceCleanup
  have hid : isRunId plan.runId.val = true := plan.runId.valid
  have hf : (thrownFailure o error s).check = true := classifyAttemptFailure_check _
  have hms : (o.runtimeMs : ℕ) ≤ maxSafeInteger := Nat.lt_succ_iff.mp o.runtimeMs.isLt
  have hresult : (thrownStatus o s.sandboxCleanup s.workspaceCleanup).isResultStatus = true := by
    rcases hstatus with ⟨-, hs⟩ | ⟨-, ⟨-, hs⟩ | ⟨-, hs⟩ | ⟨-, hs⟩⟩ <;> rw [hs] <;> rfl
  refine isRunResult_of_check ?_ rfl ?_
  · simp only [thrownResult, RunResult.check, h, hid, hf, hms, hresult, Option.all_none,
      Option.all_some, decide_true, Bool.not_false, Bool.and_self]
  · rcases hstatus with ⟨hb, hs⟩ | ⟨-, ⟨-, hs⟩ | ⟨-, hs⟩ | ⟨-, hs⟩⟩
    · refine Or.inl ⟨hs, ?_⟩
      rw [cleanupIsProved, thrownResult]
      rcases hb with hb | hb
      · rw [hb]
        rfl
      · rw [hb]
        exact Bool.and_false _
    · exact Or.inr (Or.inl hs)
    · exact Or.inr (Or.inr (Or.inl hs))
    · exact Or.inr (Or.inr (Or.inr hs))

/-- The result of an attempt that has thrown before it had its sandbox is a result. -/
theorem NoSandbox.valid {s : AttemptState} (h : NoSandbox s) (error : Thrown) :
    isRunResult (thrownResult plan o error s) = true := by
  apply thrownResult_valid
  rw [h.usage]
  decide

/-- **An attempt whose sandbox was never there is honest unless a machine is left and its terminal
event is recorded.** -/
theorem failAttempt_noSandbox (error : Thrown) :
    Triple (fun s => NoSandbox s ∧ s.machines.mayRun = o.left) (failAttempt plan o error)
      (fun x s => if o.left && o.appendFailed.recorded then Betrayed s else Honest (.ok x) s)
      (fun e s => if o.left && o.appendFailed.recorded then Betrayed s
        else Honest (.error e) s) := by
  rintro s ⟨h, hm⟩
  have hmach : (afterFailed plan o error s).machines = s.machines := by
    unfold afterFailed
    split_ifs <;> rfl
  have hended : o.left = false → ∀ r, Honest r (afterFailed plan o error s) := by
    intro hl r
    refine honest_of_ended r ?_ ?_ ?_ <;> rw [hmach]
    · rw [hm, hl]
    · exact h.warmup
    · exact h.sound
  have hbetrayed : o.left = true → o.appendFailed.recorded = true →
      Betrayed (afterFailed plan o error s) := by
    intro hl hr
    refine ⟨by rw [hmach, hm, hl], (ofString "attempt-failed", thrownExecution plan o error s),
      ?_, ?_⟩
    · rw [afterFailed, if_pos hr]
      exact List.mem_append_right _ List.mem_cons_self
    · change (thrownResult plan o error s).sandboxCleanup.done = true
      rw [thrownResult, h.cleanup]
      rfl
  have hlost : o.appendFailed.recorded = false →
      ∀ e, Honest (.error e) (afterFailed plan o error s) := by
    intro hr e
    refine ⟨?_, fun _ => rfl⟩
    intro result hmem
    rw [afterFailed, hr, if_neg Bool.false_ne_true, recordedResults, h.events] at hmem
    exact absurd hmem List.not_mem_nil
  have hv := h.valid plan o error
  rcases exec_failAttempt plan o error s with ⟨hbad, -⟩ | ⟨-, ⟨e, he⟩ | ⟨hr, he⟩⟩
  · rw [hv] at hbad
    exact Bool.noConfusion hbad
  · rw [he]
    cases hl : o.left with
    | false => exact hended hl _
    | true =>
      cases hr : o.appendFailed.recorded with
      | false => exact hlost hr e
      | true => exact hbetrayed hl hr
  · rw [he]
    cases hl : o.left with
    | false => exact hended hl _
    | true =>
      rw [hr]
      exact hbetrayed hl hr

theorem attemptCatch_noSandbox (error : Thrown) :
    Triple (fun s => NoSandbox s ∧ s.machines.mayRun = o.left) (attemptCatch plan o error)
      (fun x s => if o.left && o.appendFailed.recorded then Betrayed s else Honest (.ok x) s)
      (fun e s => if o.left && o.appendFailed.recorded then Betrayed s
        else Honest (.error e) s) := by
  refine Triple.bind (M := fun _ s => NoSandbox s ∧ s.machines.mayRun = o.left)
    (Triple.modify ?_) fun _ => ?_
  · rintro s ⟨h, hm⟩
    rw [h.session, if_neg Bool.false_ne_true]
    exact ⟨h, hm⟩
  refine Triple.bind (M := fun _ s => NoSandbox s ∧ s.machines.mayRun = o.left)
    (Triple.get fun s₀ => ?_) fun _ => ?_
  · rintro s ⟨⟨h, hm⟩, rfl⟩
    rw [h.none]
    exact ⟨h, hm⟩
  refine Triple.bind (M := fun _ s => NoSandbox s ∧ s.machines.mayRun = o.left)
    (Triple.modify ?_) fun _ => ?_
  · rintro s ⟨h, hm⟩
    split_ifs
    · exact ⟨⟨h.1, h.2, h.3, h.4, h.5, h.6, h.7⟩, hm⟩
    · exact ⟨h, hm⟩
  exact failAttempt_noSandbox plan o error

/-! ## A whole attempt -/

/-- The checks before an attempt starts let it start. -/
def AttemptOutcomes.starts : Bool :=
  o.validation.isOk && o.assertCurrent.isOk && o.appendStarting.isOk

/-- **The attempt starts, the creation of its sandbox is rejected and leaves a machine, and the
terminal event gets into the journal.** -/
def AttemptOutcomes.leavesVm : Bool :=
  o.starts && o.left && o.appendFailed.recorded

theorem startedAttempt_spec :
    Triple (fun s => s = .start plan o)
      (do
        let execution ← tryCatch (attemptBody plan o) (attemptCatch plan o)
        liftExcept o.finish
        pure execution)
      (fun x s => if o.left && o.appendFailed.recorded then Betrayed s else Honest (.ok x) s)
      (fun e s => if o.left && o.appendFailed.recorded then Betrayed s
        else Honest (.error e) s) := by
  have htry : Triple (fun s => s = .start plan o)
      (tryCatch (attemptBody plan o) (attemptCatch plan o))
      (fun x s => if o.left && o.appendFailed.recorded then Betrayed s else Honest (.ok x) s)
      (fun e s => if o.left && o.appendFailed.recorded then Betrayed s
        else Honest (.error e) s) := by
    refine Triple.tryCatch ((attemptBody_spec plan o).weaken (fun _ h => h) ?_ fun _ _ h => h) ?_
    · rintro x s ⟨hl, hg, hc⟩
      rw [hl, Bool.false_and, if_neg Bool.false_ne_true]
      exact honest_of_ended _ (hg.ended hc) hg.warmup.2 hg.sound
    · intro error s hs
      rcases hs with ⟨hl, hg⟩ | hn
      · rw [hl, Bool.false_and]
        exact attemptCatch_good plan o error s hg
      · exact attemptCatch_noSandbox plan o error s hn
  refine Triple.bind htry fun x => ?_
  refine Triple.bind (M := fun _ s => if o.left && o.appendFailed.recorded then Betrayed s
    else Honest (.ok x) s) (Triple.liftExcept (fun _ _ _ h => h) ?_) fun _ =>
      Triple.pure fun _ h => h
  intro e s _ h
  split_ifs at h ⊢
  · exact h
  · exact h.reject e

/-- A result or terminal event that says the sandbox is cleaned up is right, and an attempt that
cannot show that its machines have ended ends cleanup-blocked. -/
def CleanupHonest : Prop :=
  Honest (exec (runNativeAttempt plan o) (.start plan o)).1
    (exec (runNativeAttempt plan o) (.start plan o)).2

/-- **An attempt is honest about its sandbox unless the creation of the sandbox is rejected and
leaves a machine.** -/
theorem attempt_cleanup_honest_iff : CleanupHonest plan o ↔ o.leavesVm = false := by
  have hstart : ∀ e, Honest (.error e) (.start plan o) := fun e =>
    honest_of_ended _ rfl VmState.idle_sound VmState.idle_sound
  unfold CleanupHonest AttemptOutcomes.leavesVm AttemptOutcomes.starts runNativeAttempt
  rw [exec_bind, exec_liftExcept]
  cases o.validation with
  | error e => exact ⟨fun _ => rfl, fun _ => hstart e⟩
  | ok _ =>
    dsimp only
    rw [exec_bind, exec_liftExcept]
    cases o.assertCurrent with
    | error e => exact ⟨fun _ => rfl, fun _ => hstart e⟩
    | ok _ =>
      dsimp only
      rw [exec_bind, exec_liftExcept]
      cases o.appendStarting with
      | error e => exact ⟨fun _ => rfl, fun _ => hstart e⟩
      | ok _ =>
        have hspec := startedAttempt_spec plan o (.start plan o) rfl
        dsimp only
        generalize exec (do
          let execution ← tryCatch (attemptBody plan o) (attemptCatch plan o)
          liftExcept o.finish
          pure execution) (AttemptState.start plan o) = r at hspec ⊢
        change Honest r.1 r.2 ↔ (o.left && o.appendFailed.recorded) = false
        rcases r with ⟨e | x, t⟩
        · cases hl : (o.left && o.appendFailed.recorded) with
          | false =>
            rw [hl] at hspec
            exact ⟨fun _ => rfl, fun _ => hspec⟩
          | true =>
            rw [hl] at hspec
            exact ⟨fun h => absurd h (hspec.not_honest _), fun h => Bool.noConfusion h⟩
        · cases hl : (o.left && o.appendFailed.recorded) with
          | false =>
            rw [hl] at hspec
            exact ⟨fun _ => rfl, fun _ => hspec⟩
          | true =>
            rw [hl] at hspec
            exact ⟨fun h => absurd h (hspec.not_honest _), fun h => Bool.noConfusion h⟩

/-! ## A VM that does not become ready and cannot be closed -/

/-- A read-only attempt on the live checkout. -/
def readOnlyPlan : AttemptPlan where
  runId := ⟨ofString "run_a1", isRunId_a1⟩
  attemptId := ofString "attempt_a1"
  mode := .readOnly
  startAt := none
  packageVersion := ofString "0.14.0"
  outputBytes := 65536
  hasOutputSchema := false
  totalTokens := none
  cost := Decimal.ofNat 1

/-- A sandbox without warm checkpoints whose VM starts a process, does not become ready, and keeps
its process when it is closed. -/
def stuckSandbox : SandboxOutcomes where
  memoryBytes := 512 * 1024 * 1024
  gondolinVersion := ofString "0.14.0"
  workspace := .ok ()
  dependencies := .ok false
  mounts := .ok ()
  warm := none
  acquire := .ok ()
  unlock := .ok ()
  warmupVm := ⟨.ok (), .ok (), .ok (), .ok true, none, false, .ok (), false, none⟩
  abortedAfterWarmup := none
  checkpointBuildId := .ok none
  resume := .ok ()
  create := .ok ()
  start := .error ⟨.startTimeout, ofString "Error", ofString "guest not ready"⟩
  spawned := true
  identity := .ok ()
  bind := .ok ()
  tools := .ok ()
  vmId := ofString "vm1"
  close := fun _ => ⟨.ok (), true⟩
  checkpointRelease := fun _ => .ok ()
  capacityRelease := fun _ => .ok ()

/-- An attempt that ends at the creation of its sandbox, and records that. -/
def stuckAttempt : AttemptOutcomes where
  hasSnapshot := false
  worktree := none
  validation := .ok ()
  assertCurrent := .ok ()
  appendStarting := .ok ()
  firstAbortCheck := .ok ()
  resolveModel := .ok ()
  sandbox := stuckSandbox
  step := fun _ => ⟨0, .ok ()⟩
  sessionFile := none
  answer := fun _ => none
  usage := emptyUsage
  rawOutput := []
  outputRef := ⟨[], [], 0, []⟩
  removeSnapshot := .ok ()
  finalizeHandoff := .ok ⟨[], [], [], none, none⟩
  appendCompleted := .done
  snapshotCompleted := .done
  closesInCatch := 0
  usageInCatch := emptyUsage
  outputInCatch := []
  aborted := none
  deadlineAborted := false
  fatalToolAbort := false
  budgetExhausted := false
  runtimeMs := 60000
  appendFailed := .done
  snapshotFailed := .done
  finish := .ok ()

/-- The attempt ends failed with a sandbox cleanup that was not needed, and its VM runs on. -/
theorem stuck_vm_reported_not_needed :
    ((exec (runNativeAttempt readOnlyPlan stuckAttempt) (.start readOnlyPlan stuckAttempt)).1.map
        fun x => (x.result.status, x.result.sandboxCleanup)).toOption =
          some (.failed, .notNeeded) ∧
      (exec (runNativeAttempt readOnlyPlan stuckAttempt)
        (.start readOnlyPlan stuckAttempt)).2.machines.attempt = ⟨true, true, false⟩ ∧
      ¬ ∀ plan o, CleanupHonest plan o := by
  have hm : (exec (runNativeAttempt readOnlyPlan stuckAttempt)
      (.start readOnlyPlan stuckAttempt)).2.machines.mayRun = true := by decide +kernel
  have hs : settledStatus (exec (runNativeAttempt readOnlyPlan stuckAttempt)
      (.start readOnlyPlan stuckAttempt)).1 = .failed := by decide +kernel
  refine ⟨by decide +kernel, by decide +kernel, ?_⟩
  intro h
  have hb := (h readOnlyPlan stuckAttempt).blocked hm
  rw [hs] at hb
  exact RunStatus.noConfusion hb

end PiSubagent
