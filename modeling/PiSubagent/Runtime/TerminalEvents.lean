import PiSubagent.Runtime.AttemptResults
import PiSubagent.Runtime.SandboxCleanup

/-!
# The terminal events of an attempt

`runNativeAttempt` appends `attempt-completed` and writes the snapshot inside the `try` block whose
`catch` block appends `attempt-failed`.

* `OneTerminal`: at most one terminal event is recorded, and what is returned and every snapshot
  agree with it.
* `AttemptOutcomes.completes`: the attempt gets to its `attempt-completed` event.
* `AttemptOutcomes.endsTwice`: that event is recorded, its append or the snapshot after it fails, and
  `attempt-failed` is recorded too.
* **`attempt_oneTerminal_iff`**: an attempt has one terminal event unless it completes and ends twice.
* **`attempt_ends_twice`**: a snapshot that cannot be written is enough.
-/

namespace PiSubagent

open JsonText Prog

variable (plan : AttemptPlan) (o : AttemptOutcomes)

/-- At most one terminal event of the attempt is recorded, and what is returned and every snapshot
that was put in place agree with it. -/
structure OneTerminal (p : Outcome AttemptExecutionResult × AttemptState) : Prop where
  one : p.2.events.length ≤ 1
  returned : ∀ x, p.1 = .ok x → ∀ e ∈ p.2.events, e.2 = x
  snapshots : ∀ x ∈ p.2.snapshots, ∀ e ∈ p.2.events, e.2 = x

theorem OneTerminal.not_two {p : Except Thrown AttemptExecutionResult × AttemptState}
    (h : OneTerminal p) : p.2.events.length ≠ 2 := by
  have hone := h.one
  omega

/-! ## The way to the terminal event -/

/-- The `try` block up to its terminal event. -/
def attemptWork : AttemptM Unit := do
  liftExcept o.firstAbortCheck
  liftExcept o.resolveModel
  let sandbox ← onMachines (createGondolinAttemptSandbox o.sandbox)
  modify fun s => { s with sandbox := some sandbox }
  runSession plan o sandbox
  closeSandbox o sandbox
  modify fun s => { s with sandboxCleanup := .proved }
  settleWorkspace plan o

theorem attemptBody_eq :
    attemptBody plan o = (attemptWork plan o >>= fun _ => completeAttempt plan o) := by
  simp only [attemptBody, attemptWork, bind_assoc]

/-- The result of an attempt that went through. -/
def completedResult (s : AttemptState) : RunResult where
  runId := plan.runId.val
  status := .completed
  output := s.outputRef
  structuredOutput := s.structuredOutput
  usage := s.usage
  usageComplete := true
  runtimeMs := o.runtimeMs
  failure := none
  sandboxCleanup := s.sandboxCleanup
  workspaceCleanup := s.workspaceCleanup
  truncated := s.truncated

/-- The execution an attempt that went through records and returns. -/
def completedExecution (s : AttemptState) : AttemptExecutionResult :=
  ⟨completedResult plan o s, s.output, s.sessionFile, s.handoff, s.structuredOutput, none⟩

/-- The attempt gets to its `attempt-completed` event. -/
def AttemptOutcomes.completes : Bool :=
  o.starts &&
    match exec (attemptWork plan o) (.start plan o) with
    | (.ok _, t) => isRunResult (completedResult plan o t)
    | (.error _, _) => false

/-- `attempt-completed` is recorded, its append or the snapshot after it fails, and `attempt-failed`
is recorded too. -/
def AttemptOutcomes.endsTwice : Bool :=
  o.appendCompleted.recorded && !(o.appendCompleted = .done && o.snapshotCompleted = .done) &&
    o.appendFailed.recorded

/-- Nothing is recorded yet. -/
def AttemptState.Unrecorded (s : AttemptState) : Prop := s.events = [] ∧ s.snapshots = []

/-- The sandbox is closed, and the session too. -/
structure AttemptState.Settled (s : AttemptState) : Prop where
  sandbox : ∃ sandbox, s.sandbox = some sandbox
  closed : s.closed = true
  session : s.session = false
  cleanup : s.sandboxCleanup = .proved

theorem Keeps.unrecorded {α : Type} {m : AttemptM α} (h : Keeps AttemptState.recorded m) :
    Triple AttemptState.Unrecorded m (fun _ => AttemptState.Unrecorded)
      (fun _ => AttemptState.Unrecorded) := by
  intro s hs
  have hk := h s
  rcases he : exec m s with ⟨e | a, t⟩
  all_goals
    rw [he] at hk
    obtain ⟨hevents, hrest⟩ := Prod.ext_iff.mp hk
    obtain ⟨hsnapshots, -⟩ := Prod.ext_iff.mp hrest
    exact ⟨hevents.trans hs.1, hsnapshots.trans hs.2⟩

/-- The output of an attempt that goes through, as its terminal event holds it. -/
def AttemptOutcomes.inlineOutput : JsString :=
  (boundAttemptOutput (boundAttemptOutput o.rawOutput plan.outputBytes).1 maxInlineOutputBytes).1

/-- A session that goes through leaves its output and is disposed of. -/
theorem runSession_ends (sandbox : AttemptSandbox) :
    Triple (fun _ => True) (runSession plan o sandbox)
      (fun _ s => s.session = false ∧ s.output = o.inlineOutput plan) (fun _ _ => True) := by
  unfold runSession
  iterate 16 refine Triple.bind_any fun _ => ?_
  refine Triple.bind (M := fun _ s => s.output = o.inlineOutput plan)
    (Triple.modify fun _ _ => rfl) fun _ => ?_
  refine Triple.bind (M := fun _ s => s.output = o.inlineOutput plan)
    (Triple.when (fun _ => Triple.throw fun _ _ => trivial) fun _ _ h => h) fun _ => ?_
  exact Triple.modify fun _ h => ⟨rfl, h⟩

/-- The session leaves the sandbox in its variable, and no session. -/
theorem runSession_settles (sandbox : AttemptSandbox) :
    Triple (fun s => s.sandbox = some sandbox) (runSession plan o sandbox)
      (fun _ s => s.sandbox = some sandbox ∧ s.session = false) (fun _ _ => True) := by
  have hkept := ((runSession_keeps plan o sandbox).comp fun x => x.2.2.1).triple (some sandbox)
  exact (hkept.and (runSession_ends plan o sandbox)).weaken (fun _ h => ⟨h, trivial⟩)
    (fun _ _ h => ⟨h.1, h.2.1⟩) fun _ _ _ => trivial

theorem closeSandbox_settles (sandbox : AttemptSandbox) :
    Triple (fun s => s.sandbox = some sandbox ∧ s.session = false) (closeSandbox o sandbox)
      (fun _ s => s.sandbox = some sandbox ∧ s.session = false ∧ s.closed = true)
      (fun _ _ => True) := by
  apply Triple.get
  intro s₀
  split_ifs with hc
  · apply Triple.pure
    rintro s ⟨⟨hs, hn⟩, rfl⟩
    exact ⟨hs, hn, hc⟩
  · refine Triple.bind (M := fun _ s => s.sandbox = some sandbox ∧ s.session = false) ?_ fun _ => ?_
    · intro s hs
      unfold onMachines
      rw [exec_zoom]
      rcases exec (closeStartedVm o.sandbox sandbox.leased) s.machines with ⟨e | a, t⟩
      · trivial
      · exact hs.1
    · exact Triple.modify fun _ h => ⟨h.1, h.2, rfl⟩

theorem settleWorkspace_settles :
    Triple AttemptState.Settled (settleWorkspace plan o) (fun _ => AttemptState.Settled)
      (fun _ _ => True) := by
  have hset {f : AttemptState → AttemptState} (hf : ∀ s, (f s).sandbox = s.sandbox ∧
      (f s).closed = s.closed ∧ (f s).session = s.session ∧
        (f s).sandboxCleanup = s.sandboxCleanup) :
      Triple AttemptState.Settled (modify f : AttemptM Unit) (fun _ => AttemptState.Settled)
        (fun _ _ => True) := by
    apply Triple.modify
    intro s h
    obtain ⟨h1, h2, h3, h4⟩ := hf s
    exact ⟨h1 ▸ h.sandbox, h2 ▸ h.closed, h3 ▸ h.session, h4 ▸ h.cleanup⟩
  have hthrow {c : Bool} {e : Thrown} :
      Triple AttemptState.Settled (when c (throw e) : AttemptM Unit) (fun _ => AttemptState.Settled)
        (fun _ _ => True) :=
    Triple.when (fun _ => Triple.throw fun _ _ => trivial) fun _ _ h => h
  refine Triple.bind (Triple.when (fun _ => hset fun _ => ⟨rfl, rfl, rfl, rfl⟩) fun _ _ h => h)
    fun _ => ?_
  refine Triple.bind hthrow fun _ => ?_
  refine Triple.when (fun _ => ?_) fun _ _ h => h
  refine Triple.bind hthrow fun _ => ?_
  refine Triple.bind (M := fun _ => AttemptState.Settled)
    (Triple.liftExcept (fun _ _ _ h => h) fun _ _ _ _ => trivial) fun _ => ?_
  exact hset fun _ => ⟨rfl, rfl, rfl, rfl⟩

/-- **The steps before the terminal event record nothing, and leave a sandbox that is closed.** -/
theorem attemptWork_spec :
    Triple AttemptState.Unrecorded (attemptWork plan o)
      (fun _ s => s.Settled ∧ s.Unrecorded) (fun _ => AttemptState.Unrecorded) := by
  have hrecorded {α : Type} {m : AttemptM α} (h : Keeps AttemptState.records m) :
      Keeps AttemptState.recorded m := h.comp fun x => (x.1, x.2.1, x.2.2.1)
  unfold attemptWork
  refine Triple.bind (Keeps.unrecorded (Keeps.liftExcept _)) fun _ => ?_
  refine Triple.bind (Keeps.unrecorded (Keeps.liftExcept _)) fun _ => ?_
  refine Triple.bind (Keeps.unrecorded (hrecorded (onMachines_keeps _))) fun sandbox => ?_
  refine Triple.bind (M := fun _ s => s.sandbox = some sandbox ∧ s.Unrecorded)
    (Triple.modify fun _ h => ⟨rfl, h⟩) fun _ => ?_
  refine Triple.bind (((runSession_settles plan o sandbox).and
    (Keeps.unrecorded (hrecorded (runSession_keeps plan o sandbox)))).weaken (fun _ h => h)
      (fun _ _ h => h) fun _ _ h => h.2) fun _ => ?_
  refine Triple.bind (((closeSandbox_settles o sandbox).and
    (Keeps.unrecorded (hrecorded (closeSandbox_keeps o sandbox)))).weaken (fun _ h => h)
      (fun _ _ h => h) fun _ _ h => h.2) fun _ => ?_
  refine Triple.bind (M := fun _ s => s.Settled ∧ s.Unrecorded) (Triple.modify ?_) fun _ => ?_
  · rintro s ⟨⟨hs, hn, hc⟩, hu⟩
    exact ⟨⟨⟨sandbox, hs⟩, hc, hn, rfl⟩, hu⟩
  · exact ((settleWorkspace_settles plan o).and
      (Keeps.unrecorded (settleWorkspace_keeps plan o))).weaken (fun _ h => h) (fun _ _ h => h)
        fun _ _ h => h.2

/-! ## The terminal event -/

/-- The state after the terminal event and the snapshot of an attempt that went through. -/
def afterCompleted (s : AttemptState) : AttemptState :=
  if o.appendCompleted.recorded then
    { s with
      events := s.events ++ [(ofString "attempt-completed", completedExecution plan o s)]
      snapshots :=
        if o.appendCompleted = .done ∧ o.snapshotCompleted.recorded = true then
          s.snapshots ++ [completedExecution plan o s]
        else s.snapshots }
  else s

theorem completeAttempt_eq :
    completeAttempt plan o = (do
      let s ← get
      let result ← liftExcept (terminalResult (completedResult plan o s))
      let execution : AttemptExecutionResult :=
        ⟨result, s.output, s.sessionFile, s.handoff, s.structuredOutput, none⟩
      appendTerminal "attempt-completed" execution o.appendCompleted
      writeSnapshot execution o.snapshotCompleted
      pure execution) := rfl

theorem AttemptState.Settled.afterCompleted {s : AttemptState} (h : s.Settled) :
    (afterCompleted plan o s).Settled := by
  unfold PiSubagent.afterCompleted
  split
  · exact ⟨h.sandbox, h.closed, h.session, h.cleanup⟩
  · exact h

/-- The ends of `completeAttempt`: the result is refused, or it is recorded as far as the writes
go. -/
theorem exec_completeAttempt (s : AttemptState) :
    (isRunResult (completedResult plan o s) = false ∧
        ∃ e, exec (completeAttempt plan o) s = (.error e, s)) ∨
      (isRunResult (completedResult plan o s) = true ∧
        if o.appendCompleted = .done ∧ o.snapshotCompleted = .done then
          exec (completeAttempt plan o) s =
            (.ok (completedExecution plan o s), afterCompleted plan o s)
        else ∃ e, exec (completeAttempt plan o) s = (.error e, afterCompleted plan o s)) := by
  rw [completeAttempt_eq, exec_bind, exec_get]
  dsimp only
  rw [exec_bind, exec_liftExcept]
  unfold terminalResult
  cases hv : isRunResult (completedResult plan o s) with
  | false => exact Or.inl ⟨rfl, _, rfl⟩
  | true =>
    refine Or.inr ⟨rfl, ?_⟩
    rw [if_pos rfl]
    dsimp only
    rw [exec_bind, appendTerminal, exec_bind, afterCompleted]
    cases hr : o.appendCompleted with
    | lost e => exact ⟨e, rfl⟩
    | written e => exact ⟨e, rfl⟩
    | done =>
      cases hs : o.snapshotCompleted with
      | lost e => exact ⟨e, rfl⟩
      | written e => exact ⟨e, rfl⟩
      | done => rfl

/-- What the `catch` block does to an attempt that has settled: it fails it. -/
theorem exec_attemptCatch_settled (error : Thrown) {s : AttemptState} (h : s.Settled)
    (hw : s.workspaceCleanup ≠ .retained) :
    exec (attemptCatch plan o error) s = exec (failAttempt plan o error) s := by
  obtain ⟨sandbox, hsandbox⟩ := h.sandbox
  have hkeep : exec (keepSession plan o) s = (.ok ⟨⟩, s) := by
    unfold keepSession
    rw [exec_modify, h.session]
    rfl
  have hmeanwhile : ∀ n, exec (closeMeanwhile o sandbox n) s = (.ok (), s) := by
    intro n
    induction n with
    | zero => rfl
    | succ n ih =>
      have hclose : exec (closeSandbox o sandbox) s = (.ok (), s) := by
        unfold closeSandbox
        rw [exec_bind, exec_get]
        dsimp only
        rw [if_pos h.closed, exec_pure]
      unfold closeMeanwhile
      rw [exec_bind, exec_tryCatch, hclose]
      exact ih
  have hcleanup : exec (cleanupSandbox o) s = (.ok (), s) := by
    unfold cleanupSandbox
    rw [exec_bind, exec_get]
    dsimp only
    rw [hsandbox]
    dsimp only
    rw [exec_bind, hmeanwhile]
    dsimp only
    rw [exec_bind, exec_get]
    dsimp only
    rw [if_pos h.closed, exec_modify, ← h.cleanup]
  have hsnapshot : exec (cleanupSnapshot o) s = (.ok ⟨⟩, s) := by
    unfold cleanupSnapshot
    rw [exec_modify, if_neg fun hr => hw hr.2.1]
  unfold attemptCatch
  rw [exec_bind, hkeep]
  dsimp only
  rw [exec_bind, hcleanup]
  dsimp only
  rw [exec_bind, hsnapshot]

theorem thrownResult_of_completed (error : Thrown) {s t : AttemptState}
    (h : isRunResult (completedResult plan o s) = true) (husage : t.usage = s.usage) :
    isRunResult (thrownResult plan o error t) = true := by
  have hcompleted := h
  simp only [isRunResult, RunResult.check, completedResult, cleanupIsProved, Bool.and_eq_true,
    Option.isNone_none, Option.all_none, Bool.not_eq_true'] at hcompleted
  obtain ⟨⟨⟨⟨⟨⟨-, -⟩, -⟩, hcost⟩, -⟩, -⟩, -⟩ := hcompleted
  apply thrownResult_valid
  rw [husage]
  exact hcost

/-! ## One terminal event -/

theorem failAttempt_oneTerminal (error : Thrown) {s : AttemptState} (h : s.Unrecorded) :
    OneTerminal (exec (failAttempt plan o error) s) := by
  have hnothing (r : Outcome AttemptExecutionResult) : OneTerminal (r, s) := by
    refine ⟨?_, ?_, ?_⟩ <;> simp [h.1, h.2]
  have hafter (r : Outcome AttemptExecutionResult)
      (hr : ∀ x, r = .ok x → x = thrownExecution plan o error s) :
      OneTerminal (r, afterFailed plan o error s) := by
    have hevents : ∀ e ∈ (afterFailed plan o error s).events, e.2 = thrownExecution plan o error s := by
      unfold afterFailed
      split_ifs <;> simp [h.1]
    refine ⟨?_, ?_, ?_⟩
    · unfold afterFailed
      split_ifs <;> simp [h.1]
    · intro x hx e he
      rw [hevents e he, hr x hx]
    · intro x hx e he
      rw [hevents e he]
      unfold afterFailed snapshotsFailed at hx
      split_ifs at hx <;> simp_all [AttemptState.Unrecorded]
  rcases exec_failAttempt plan o error s with ⟨-, e, he⟩ | ⟨-, ⟨e, he⟩ | ⟨-, he⟩⟩
  · rw [he]
    exact hnothing _
  · rw [he]
    exact hafter _ fun x hx => by cases hx
  · rw [he]
    exact hafter _ fun x hx => (Except.ok.inj hx).symm

theorem thrownResult_afterCompleted (error : Thrown) {s : AttemptState}
    (h : isRunResult (completedResult plan o s) = true) :
    isRunResult (thrownResult plan o error (afterCompleted plan o s)) = true := by
  apply thrownResult_of_completed plan o error h
  unfold afterCompleted
  split_ifs <;> rfl

/-- **An attempt that had completed and is failed records a second terminal event** when both
appends are recorded. -/
theorem failAttempt_twice (error : Thrown) {s : AttemptState} (h : s.Unrecorded)
    (hv : isRunResult (completedResult plan o s) = true)
    (hcompleted : o.appendCompleted.recorded = true) (hfailed : o.appendFailed.recorded = true) :
    (exec (failAttempt plan o error) (afterCompleted plan o s)).2.events.length = 2 := by
  have htwo : (afterFailed plan o error (afterCompleted plan o s)).events.length = 2 := by
    rw [afterFailed, if_pos hfailed, afterCompleted, if_pos hcompleted]
    simp [h.1]
  have hthrown := thrownResult_afterCompleted plan o error hv
  rcases exec_failAttempt plan o error (afterCompleted plan o s) with
    ⟨hbad, -⟩ | ⟨-, ⟨e, he⟩ | ⟨-, he⟩⟩
  · rw [hthrown] at hbad
    cases hbad
  · rw [he]
    exact htwo
  · rw [he]
    exact htwo

theorem failAttempt_once (error : Thrown) {s : AttemptState} (h : s.Unrecorded)
    (hv : isRunResult (completedResult plan o s) = true)
    (honce : (o.appendCompleted.recorded && o.appendFailed.recorded) = false) :
    OneTerminal (exec (failAttempt plan o error) (afterCompleted plan o s)) := by
  cases hr : o.appendCompleted.recorded with
  | false =>
    have hafter : afterCompleted plan o s = s := by
      rw [afterCompleted, hr, if_neg Bool.false_ne_true]
    rw [hafter]
    exact failAttempt_oneTerminal plan o error h
  | true =>
    rw [hr, Bool.true_and] at honce
    have hevents : (afterCompleted plan o s).events =
        [(ofString "attempt-completed", completedExecution plan o s)] := by
      rw [afterCompleted, if_pos hr]
      exact congrArg (· ++ _) h.1
    have hsnapshots : ∀ x ∈ (afterCompleted plan o s).snapshots,
        x = completedExecution plan o s := by
      intro x hx
      rw [afterCompleted, if_pos hr] at hx
      dsimp only at hx
      split_ifs at hx <;> simp_all [AttemptState.Unrecorded]
    have hlost : afterFailed plan o error (afterCompleted plan o s) = afterCompleted plan o s := by
      rw [afterFailed, honce, if_neg Bool.false_ne_true]
    rcases exec_failAttempt plan o error (afterCompleted plan o s) with
      ⟨hbad, -⟩ | ⟨-, ⟨e, he⟩ | ⟨hrec, -⟩⟩
    · rw [thrownResult_afterCompleted plan o error hv] at hbad
      cases hbad
    · rw [he, hlost]
      refine ⟨by simp [hevents], (fun x hx => by cases hx), ?_⟩
      intro x hx e' he'
      rw [hevents] at he'
      rw [List.mem_singleton.mp he', hsnapshots x hx]
    · rw [honce] at hrec
      cases hrec

theorem attemptCatch_oneTerminal (error : Thrown) {s : AttemptState} (h : s.Unrecorded) :
    OneTerminal (exec (attemptCatch plan o error) s) := by
  have hkeep : Keeps AttemptState.recorded (keepSession plan o) := by
    intro s
    change AttemptState.recorded (if _ then _ else _) = _
    split_ifs <;> rfl
  have hsnapshot : Keeps AttemptState.recorded (cleanupSnapshot o) := by
    intro s
    change AttemptState.recorded (if _ then _ else _) = _
    split_ifs <;> rfl
  have hbefore : Triple AttemptState.Unrecorded
      (do keepSession plan o; cleanupSandbox o; cleanupSnapshot o)
      (fun _ => AttemptState.Unrecorded) (fun _ => AttemptState.Unrecorded) := by
    refine Triple.bind (Keeps.unrecorded hkeep) fun _ => ?_
    refine Triple.bind (Keeps.unrecorded (cleanupSandbox_keeps o)) fun _ => ?_
    exact Keeps.unrecorded hsnapshot
  have hsplit : attemptCatch plan o error =
      ((do keepSession plan o; cleanupSandbox o; cleanupSnapshot o) >>= fun _ =>
        failAttempt plan o error) := by
    simp only [attemptCatch, bind_assoc]
  rw [hsplit, exec_bind]
  rcases he : exec (do keepSession plan o; cleanupSandbox o; cleanupSnapshot o) s with ⟨e | a, t⟩
  · have ht := hbefore.error h he
    refine ⟨?_, ?_, ?_⟩ <;> simp [ht.1, ht.2]
  · exact failAttempt_oneTerminal plan o error (hbefore.ok h he)

theorem tryAttempt_oneTerminal (hstarts : o.starts = true) :
    if o.completes plan = true ∧ o.endsTwice = true then
      (exec (tryCatch (attemptBody plan o) (attemptCatch plan o))
        (.start plan o)).2.events.length = 2
    else OneTerminal (exec (tryCatch (attemptBody plan o) (attemptCatch plan o))
      (.start plan o)) := by
  have hwork := attemptWork_spec plan o
  have hstart : (AttemptState.start plan o).Unrecorded := ⟨rfl, rfl⟩
  have hcompletes : o.completes plan =
      match exec (attemptWork plan o) (.start plan o) with
      | (.ok _, t) => isRunResult (completedResult plan o t)
      | (.error _, _) => false := by
    rw [AttemptOutcomes.completes, hstarts, Bool.true_and]
  rw [exec_tryCatch, attemptBody_eq, exec_bind]
  rcases he : exec (attemptWork plan o) (.start plan o) with ⟨e | a, t⟩
  · -- the attempt throws before its terminal event
    rw [he] at hcompletes
    rw [if_neg fun h => Bool.false_ne_true (hcompletes.symm.trans h.1)]
    exact attemptCatch_oneTerminal plan o e (hwork.error hstart he)
  · obtain ⟨hsettled, hunrecorded⟩ := hwork.ok hstart he
    rw [he] at hcompletes
    dsimp only at hcompletes ⊢
    rcases exec_completeAttempt plan o t with ⟨hv, e, hc⟩ | ⟨hv, hc⟩
    · -- its result is refused
      rw [hv] at hcompletes
      rw [hc, if_neg fun h => Bool.false_ne_true (hcompletes.symm.trans h.1)]
      exact attemptCatch_oneTerminal plan o e hunrecorded
    · rw [hv] at hcompletes
      split_ifs at hc with hdone
      · -- both writes go through
        have honce : o.endsTwice = false := by
          rw [AttemptOutcomes.endsTwice, hdone.1, hdone.2]
          rfl
        rw [hc, if_neg fun h => Bool.false_ne_true (honce.symm.trans h.2)]
        have hrecorded : o.appendCompleted.recorded = true := by
          rw [hdone.1]
          rfl
        have hsnapshot : o.appendCompleted = .done ∧ o.snapshotCompleted.recorded = true := by
          refine ⟨hdone.1, ?_⟩
          rw [hdone.2]
          rfl
        rw [afterCompleted, if_pos hrecorded, if_pos hsnapshot, hunrecorded.1, hunrecorded.2]
        refine ⟨by simp, ?_, by simp⟩
        intro x hx e he'
        cases hx
        simp at he'
        rw [he']
      · -- one of them fails, and the attempt is failed
        obtain ⟨e, hc⟩ := hc
        have hretained : t.workspaceCleanup ≠ .retained := by
          intro hr
          have hcleanup := hv
          simp only [isRunResult, completedResult, cleanupIsProved, hr, CleanupOutcome.done,
            Bool.and_false, Bool.false_and, Bool.false_eq_true] at hcleanup
        have hretained' : (afterCompleted plan o t).workspaceCleanup ≠ .retained := by
          unfold afterCompleted
          split
          · exact hretained
          · exact hretained
        have hends : o.endsTwice = (o.appendCompleted.recorded && o.appendFailed.recorded) := by
          have hnot : (!(decide (o.appendCompleted = .done) &&
              decide (o.snapshotCompleted = .done))) = true := by
            rw [← Bool.decide_and, decide_eq_false hdone]
            rfl
          rw [AttemptOutcomes.endsTwice, hnot, Bool.and_true]
        rw [hc]
        dsimp only
        rw [exec_attemptCatch_settled plan o e (hsettled.afterCompleted plan o) hretained']
        rw [hcompletes, hends]
        split_ifs with htwice
        · have hboth := htwice.2
          rw [Bool.and_eq_true] at hboth
          exact failAttempt_twice plan o e hunrecorded hv hboth.1 hboth.2
        · apply failAttempt_once plan o e hunrecorded hv
          exact Bool.eq_false_iff.mpr fun h => htwice ⟨rfl, h⟩

/-- **An attempt has at most one terminal event, and what it returns and every snapshot agree with
it, unless it gets to its `attempt-completed` event and ends twice.** -/
theorem attempt_oneTerminal_iff :
    OneTerminal (exec (runNativeAttempt plan o) (.start plan o)) ↔
      ¬ (o.completes plan = true ∧ o.endsTwice = true) := by
  have hnothing (e : Thrown) : OneTerminal ((.error e : Outcome AttemptExecutionResult),
      AttemptState.start plan o) :=
    ⟨by simp [AttemptState.start], (fun x hx => by cases hx), by simp [AttemptState.start]⟩
  have hnot (h : o.starts = false) : ¬ (o.completes plan = true ∧ o.endsTwice = true) := by
    rw [AttemptOutcomes.completes, h, Bool.false_and]
    exact fun hc => Bool.false_ne_true hc.1
  unfold runNativeAttempt
  rw [exec_bind, exec_liftExcept]
  cases hvalidation : o.validation with
  | error e =>
    refine iff_of_true (hnothing e) (hnot ?_)
    rw [AttemptOutcomes.starts, hvalidation]
    rfl
  | ok _ =>
    dsimp only
    rw [exec_bind, exec_liftExcept]
    cases hcurrent : o.assertCurrent with
    | error e =>
      refine iff_of_true (hnothing e) (hnot ?_)
      rw [AttemptOutcomes.starts, hvalidation, hcurrent]
      rfl
    | ok _ =>
      dsimp only
      rw [exec_bind, exec_liftExcept]
      cases hstarting : o.appendStarting with
      | error e =>
        refine iff_of_true (hnothing e) (hnot ?_)
        rw [AttemptOutcomes.starts, hvalidation, hcurrent, hstarting]
        rfl
      | ok _ =>
        have hstarts : o.starts = true := by
          rw [AttemptOutcomes.starts, hvalidation, hcurrent, hstarting]
          rfl
        have htry := tryAttempt_oneTerminal plan o hstarts
        dsimp only
        rw [exec_bind]
        rcases hx : exec (tryCatch (attemptBody plan o) (attemptCatch plan o)) (.start plan o) with
          ⟨e | x, t⟩
        all_goals rw [hx] at htry
        · split_ifs at htry with htwice
          · refine iff_of_false (fun h => ?_) (not_not_intro htwice)
            have hone := h.one
            dsimp only at hone htry
            omega
          · exact iff_of_true htry htwice
        · dsimp only
          rw [exec_bind, exec_liftExcept]
          split_ifs at htry with htwice
          · refine iff_of_false (fun h => ?_) (not_not_intro htwice)
            have hone := h.one
            dsimp only at htry
            cases hfinish : o.finish with
            | error e =>
              rw [hfinish] at hone
              dsimp only at hone
              omega
            | ok _ =>
              rw [hfinish] at hone
              change t.events.length ≤ 1 at hone
              omega
          · refine iff_of_true ?_ htwice
            cases o.finish with
            | error e => exact ⟨htry.one, (fun y hy => by cases hy), htry.snapshots⟩
            | ok _ => exact htry

/-! ## A snapshot that cannot be written -/

/-- A sandbox without warm checkpoints whose VM starts, serves the attempt, and ends when it is
closed. -/
def servingSandbox : SandboxOutcomes where
  memoryBytes := 512 * 1024 * 1024
  gondolinVersion := ofString "0.14.0"
  workspace := .ok ()
  dependencies := .ok false
  mounts := .ok ()
  warm := none
  acquire := .ok ()
  unlock := .ok ()
  warmupVm := ⟨.ok (), .ok (), .ok (), .ok true, none, false, .ok (), false, none⟩
  abortedAfterWarmup := none
  checkpointBuildId := .ok none
  resume := .ok ()
  create := .ok ()
  start := .ok ()
  spawned := true
  identity := .ok ()
  bind := .ok ()
  tools := .ok ()
  vmId := ofString "vm1"
  close := fun _ => ⟨.ok (), false⟩
  checkpointRelease := fun _ => .ok ()
  capacityRelease := fun _ => .ok ()

/-- An attempt without a working tree that answers, and whose snapshot cannot be written. -/
def unsavedAttempt : AttemptOutcomes where
  hasSnapshot := false
  worktree := none
  validation := .ok ()
  assertCurrent := .ok ()
  appendStarting := .ok ()
  firstAbortCheck := .ok ()
  resolveModel := .ok ()
  sandbox := servingSandbox
  step := fun _ => ⟨0, .ok ()⟩
  sessionFile := none
  answer := fun _ => none
  usage := emptyUsage
  rawOutput := ofString "ok"
  outputRef := ⟨ofString "artifact_" ++ List.replicate 64 97, List.replicate 64 97, 2,
    ofString "text/plain"⟩
  removeSnapshot := .ok ()
  finalizeHandoff := .ok ⟨[], [], [], none, none⟩
  appendCompleted := .done
  snapshotCompleted := .lost ⟨.other, ofString "Error", ofString "ENOSPC"⟩
  closesInCatch := 0
  usageInCatch := emptyUsage
  outputInCatch := []
  aborted := none
  deadlineAborted := false
  fatalToolAbort := false
  budgetExhausted := false
  runtimeMs := 60000
  appendFailed := .done
  snapshotFailed := .done
  finish := .ok ()

/-- Both terminal events of the attempt are in the journal, and the attempt is reported failed. -/
theorem attempt_ends_twice :
    ((exec (runNativeAttempt readOnlyPlan unsavedAttempt)
        (.start readOnlyPlan unsavedAttempt)).2.events.map
          fun e => (e.1, e.2.result.status)) =
        [(ofString "attempt-completed", .completed), (ofString "attempt-failed", .failed)] ∧
      ¬ ∀ plan o, OneTerminal (exec (runNativeAttempt plan o) (.start plan o)) := by
  have hevents : (exec (runNativeAttempt readOnlyPlan unsavedAttempt)
      (.start readOnlyPlan unsavedAttempt)).2.events.length = 2 := by decide +kernel
  refine ⟨by decide +kernel, fun h => ?_⟩
  exact (h readOnlyPlan unsavedAttempt).not_two hevents

end PiSubagent
