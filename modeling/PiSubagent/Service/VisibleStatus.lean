import PiSubagent.Service.LateStarts
import PiSubagent.Service.RunDiscipline

/-!
# The statuses a seat shows

* `RunAct.transitions`: the transitions an operation performs.
* `Written`: the writes of a step, each of which leaves the status a seat shows as it is, or changes
  it as the transitions of the operation permit.
* `keepsLifecycle`: the steps that change no status in another way.
* **`status_changes_permitted`**: so do all steps of a run of such steps.
* **`retained_worktree_classified`**: a reconcile that finds a worktree retained makes a change that
  no transition permits.
-/

namespace PiSubagent

open JsonText

namespace RunLife

open Cuts Runs
open RunState (setSeat perform kill mem_abandonedCheckout)

variable {D : Planner} {s t u : RunState}

/-! ## Permitted changes -/

/-- The sandbox cleanup of the result a seat remembers. -/
def ActiveRun.sandboxCleanup (run : ActiveRun) : CleanupOutcome :=
  (run.result.map fun r => r.result.sandboxCleanup).getD .unknown

/-- The workspace cleanup of the result a seat remembers. -/
def ActiveRun.workspaceCleanup (run : ActiveRun) : CleanupOutcome :=
  (run.result.map fun r => r.result.workspaceCleanup).getD .unknown

/-- The transitions an operation may perform when it leaves the run so. -/
def RunAct.transitions (run : ActiveRun) : RunAct → List (List RunTransitionEvent)
  | .launch .. | .launchUndone .. => [[.activate]]
  | .retry .. | .retryUndone .. => [[.retry, .activate]]
  | .resume _ continuing _ | .resumeUndone _ continuing _ =>
    [[if continuing then .resumeAtHandoff else .resume, .activate]]
  | .interrupt _ | .shutdown _ => [[.beginStop]]
  | .settle .. =>
    [[.complete run.sandboxCleanup run.workspaceCleanup], [.fail], [.cancel], [.interrupt],
      [.cleanupBlocked]]
  | .settleBlocked _ => [[.cleanupBlocked]]
  | .reconcile .. => [[.cleanupProved run.status run.sandboxCleanup run.workspaceCleanup]]
  | .release .. => [[.cleanupProved .failed run.sandboxCleanup run.workspaceCleanup]]
  | .abandon .. =>
    [[.abandon run.sandboxCleanup run.workspaceCleanup],
      [.cleanupProved .abandoned run.sandboxCleanup run.workspaceCleanup]]
  | .open .. => [[.activate, .cleanupBlocked], [.cleanupBlocked]]
  | _ => []

/-- The change is a step, or a composition of steps, of the transitions of its operation. -/
def Permitted (a : RunAct) (before : RunStatus) (run : ActiveRun) : Prop :=
  ∃ events ∈ a.transitions run, events.foldlM transitionRunStatus before = some run.status

/-- The status the files of a run record: that of its abandonment, or of the snapshot; a later
attempt has at most started. -/
def RunFiles.lastStatus (f : RunFiles) : RunStatus :=
  if hasAbandoned f.events then .abandoned
  else
    match f.priorResult with
    | some r => r.status
    | none => if f.latestStart.isSome then .active else .queued

/-- The status before an operation that finds no run in memory. -/
def statusAtStart (s : RunState) : RunAct → RunStatus
  | .open .. => s.files.lastStatus
  | _ => .queued

/-- The status a seat shows. -/
def shown (s : RunState) (seat : ℕ) : Option RunStatus := (s.seats seat).map ActiveRun.status

/-- From one state to the next a seat shows the same status, or a change that is permitted. -/
def Shows (s : RunState) (a : RunAct) (u v : RunState) : Prop :=
  ∀ seat, shown v seat = shown u seat ∨ (seat = a.seat ∧ ∃ run, v.seats seat = some run ∧
    ((shown u seat).getD (statusAtStart s a) = run.status ∨
      Permitted a ((shown u seat).getD (statusAtStart s a)) run))

/-- The writes of a step, one by one, show what is permitted. -/
def Written (s : RunState) (a : RunAct) : List Effect → RunState → RunState → Prop
  | [], u, t => t = u
  | e :: es, u, t => Shows s a u (u.perform a.seat e) ∧ Written s a es (u.perform a.seat e) t

/-- The operation of a step, and its effects. -/
def LateState.operation (D : Planner) (w : LateState) : LateAct → Option (RunAct × List Effect)
  | .start seat cut undo =>
    (w.waiting seat).map fun c => (c.1.act seat cut undo, startEffects w.run.files c.2)
  | .other a => (w.run.effects D a).map fun es => (a, es)
  | _ => none

/-- A step shows what is permitted: it is the death of a seat, or the first of the effects of its
operation, in their order, and perhaps the removal of a snapshot. -/
def StepPermitted (D : Planner) (w : LateState) (act : LateAct) (v : LateState) : Prop :=
  v.run = w.run ∨ (∃ seat, act = .other (.die seat) ∧ v.run = w.run.kill seat) ∨
    ∃ a es n removals, w.operation D act = some (a, es) ∧
      (∀ e ∈ removals, ∃ id, e = .removeSnapshot id) ∧
        Written w.run a (es.take n ++ removals) w.run v.run

/-! ## The condition -/

/-- A step that changes no status but by the transitions of its operation. -/
def keepsLifecycle (s : RunState) : RunAct → Bool
  | .settle seat _ =>
    -- The attempt of a stopping run was cancelled, or its cleanup is not proved.
    (s.seats seat).all fun run => decide (run.status ≠ .stopping) ||
      match run.flight with
      | .ended execution => decide (execution.result.status = .cancelled ∨
          execution.result.status = .cleanupBlocked)
      | _ => true
  | .abandon _ _ cut =>
    -- An abandonment shows an interrupted run as cleanup-blocked after its first event.
    decide (cut ≤ 1)
  | .reconcile seat o _ =>
    -- With the sandbox gone, a retained worktree does not keep the run cleanup-blocked.
    abandonmentPending s.files.events || (s.seats seat).all fun run =>
      let seen := evidence run.plan.toRunPlan s.files o
      !decide ((seen.sandboxProcess = .absent ∨ seen.sandboxProcess = .notStarted) ∧
        seen.workspace = .retained ∧ seen.session ≠ .unknown)
  | .open .. =>
    -- A start-up shows a run whose abandonment was requested as cleanup-blocked.
    !abandonmentPending s.files.events || decide (s.files.lastStatus = .cleanupBlocked ∨
      s.files.lastStatus = .queued ∨ s.files.lastStatus = .active)
  | _ => true

/-- The condition on the steps other than the starts of waiting calls. -/
def LateState.keepsLifecycle (w : LateState) : LateAct → Bool
  | .other a => RunLife.keepsLifecycle w.run a
  | _ => true

/-! ## Lists of writes -/

theorem shows_run {a : RunAct} {e : Effect} (h : ∀ run ∈ e.run?,
    (shown u a.seat).getD (statusAtStart s a) = run.status ∨
      Permitted a ((shown u a.seat).getD (statusAtStart s a)) run) :
    Shows s a u (u.perform a.seat e) := by
  intro seat
  unfold shown
  rw [perform_seats]
  cases he : e.run? with
  | none => exact Or.inl rfl
  | some run =>
    by_cases hseat : seat = a.seat
    · subst hseat
      exact Or.inr ⟨rfl, run, if_pos rfl, h run he⟩
    · dsimp only
      rw [if_neg hseat]
      exact Or.inl rfl

/-- A list of writes whose runs all have one status, to which the operation may change. -/
theorem written_list {a : RunAct} {es : List Effect} {before x : RunStatus}
    (hu : (shown u a.seat).getD (statusAtStart s a) = before ∨ shown u a.seat = some x)
    (h : ∀ e ∈ es, ∀ run ∈ e.run?, run.status = x ∧
      (before = run.status ∨ Permitted a before run)) :
    Written s a es u (es.foldl (perform a.seat) u) := by
  induction es generalizing u with
  | nil => exact rfl
  | cons e es ih =>
    have hhead := h e List.mem_cons_self
    refine ⟨shows_run ?_, ih ?_ fun e' he' => h e' (List.mem_cons_of_mem _ he')⟩
    · intro run hr
      obtain ⟨hst, hchange⟩ := hhead run hr
      rcases hu with hu | hu
      · rw [hu]
        exact hchange
      · refine Or.inl ?_
        rw [hu, hst]
        rfl
    · cases he : e.run? with
      | none =>
        have hseats : (u.perform a.seat e).seats = u.seats := by
          rw [perform_seats, he]
        unfold shown at hu ⊢
        rw [hseats]
        exact hu
      | some run =>
        refine Or.inr ?_
        unfold shown
        rw [perform_seats, he]
        simp only [if_true, Option.map_some]
        rw [(hhead run he).1]

theorem Written.first {a : RunAct} {es : List Effect} {x : RunStatus} (h : Written s a es u t)
    (hu : shown u a.seat = some x) (ht : shown t a.seat ≠ some x) :
    ∃ e ∈ es, ∃ run ∈ e.run?, run.status ≠ x ∧ Permitted a x run := by
  induction es generalizing u with
  | nil =>
    rw [show t = u from h] at ht
    exact absurd hu ht
  | cons e es ih =>
    obtain ⟨hshows, hrest⟩ := h
    by_cases hsame : shown (u.perform a.seat e) a.seat = some x
    · obtain ⟨e', he', hchange⟩ := ih hrest hsame
      exact ⟨e', List.mem_cons_of_mem _ he', hchange⟩
    · rcases hshows a.seat with heq | ⟨-, run, hrun, hchange⟩
      · exact absurd (heq.trans hu) hsame
      · have hne : run.status ≠ x := by
          rintro rfl
          exact hsame (by rw [shown, hrun]; rfl)
        rw [hu, Option.getD_some] at hchange
        refine ⟨e, List.mem_cons_self, run, ?_, hne, hchange.resolve_left (Ne.symm hne)⟩
        cases he : e.run? with
        | none =>
          rw [perform_seats, he] at hrun
          refine absurd ?_ hsame
          unfold shown at hu ⊢
          rw [perform_seats, he]
          exact hu
        | some run' =>
          rw [perform_seats, he] at hrun
          dsimp only at hrun
          rw [if_pos rfl] at hrun
          exact hrun

/-! ## The operations -/

/-- The effects of a step leave the run in one status, to which the operation may change. -/
def ShowsOne (s : RunState) (a : RunAct) (es : List Effect) : Prop :=
  ∃ status, ∀ e ∈ es, ∀ run ∈ e.run?, run.status = status ∧
    ((shown s a.seat).getD (statusAtStart s a) = run.status ∨
      Permitted a ((shown s a.seat).getD (statusAtStart s a)) run)

theorem shown_some {seat : ℕ} {run : ActiveRun} (h : s.seats seat = some run) (status : RunStatus) :
    (shown s seat).getD status = run.status := by
  unfold shown
  rw [h]
  rfl

theorem showsOne_same {a : RunAct} {run r : ActiveRun} {es : List Effect}
    (hr : s.seats a.seat = some run) (hst : r.status = run.status)
    (h : ∀ e ∈ es, ∀ x ∈ e.run?, x = r) : ShowsOne s a es := by
  refine ⟨run.status, fun e he x hm => ?_⟩
  obtain rfl := h e he x hm
  exact ⟨hst, Or.inl ((shown_some hr _).trans hst.symm)⟩

theorem showsOne_start {a : RunAct} {i : StartInput} {f : RunFiles}
    (h : Permitted a ((shown s a.seat).getD (statusAtStart s a)) (.start i.plan)) :
    ShowsOne s a (startEffects f i) := by
  refine ⟨.active, fun e he run hm => ?_⟩
  have ho := startEffects_ofStart f i e he
  cases e with
  | execute run' =>
    cases hm
    cases ho
    exact ⟨rfl, Or.inr h⟩
  | remember run' => exact ho.elim
  | _ => cases hm

/-- A start of a waiting call shows the run as active, which the status that its call read permits. -/
theorem showsOne_late {call : StartCall} {i : StartInput} {seat cut : ℕ} {undo : Bool}
    {run : ActiveRun} {latest : AttemptRecord} (hr : s.seats seat = some run)
    (hi : call.input D run latest = some i) :
    ShowsOne s (call.act seat cut undo) (startEffects s.files i) := by
  cases call with
  | launch => cases hi
  | retry =>
    obtain ⟨r, plan, -, hfailed, -⟩ := retryInput_cases hi
    have hchange : ∀ a : RunAct, a.seat = seat → a.transitions (.start i.plan) = [[.retry, .activate]] →
        Permitted a ((shown s a.seat).getD (statusAtStart s a)) (.start i.plan) := by
      intro a hseat ha
      refine ⟨_, by rw [ha]; exact List.mem_singleton.mpr rfl, ?_⟩
      rw [hseat, shown_some hr, hfailed]
      rfl
    cases undo with
    | false => exact showsOne_start (hchange (.retry seat cut) rfl rfl)
    | true => exact showsOne_start (hchange (.retryUndone seat cut) rfl rfl)
  | resume continuing =>
    obtain ⟨r, plan, -, hperm, -⟩ := resumeInput_cases hi
    have hfold : [if continuing then RunTransitionEvent.resumeAtHandoff else .resume,
        .activate].foldlM transitionRunStatus run.status = some RunStatus.active := by
      unfold ResumePermitted at hperm
      cases continuing with
      | true =>
        have hne := hperm.2.1
        revert hne
        cases run.status <;> decide
      | false =>
        rw [hperm.1]
        rfl
    have hchange : ∀ a : RunAct, a.seat = seat → a.transitions (.start i.plan) =
        [[if continuing then .resumeAtHandoff else .resume, .activate]] →
          Permitted a ((shown s a.seat).getD (statusAtStart s a)) (.start i.plan) := by
      intro a hseat ha
      refine ⟨_, by rw [ha]; exact List.mem_singleton.mpr rfl, ?_⟩
      rw [hseat, shown_some hr]
      exact hfold
    cases undo with
    | false => exact showsOne_start (hchange (.resume seat continuing cut) rfl rfl)
    | true => exact showsOne_start (hchange (.resumeUndone seat continuing cut) rfl rfl)

/-- Reconcile leaves a run cleanup-blocked, or its cleanup is proved, or only a worktree is
retained. -/
theorem reconcile_change {plan : RunPlan} {pending : Bool} {memory : Option AttemptExecutionResult}
    {seen : Evidence} {execution : AttemptExecutionResult}
    (h : reconcileExecution plan pending memory seen = some execution) :
    execution.result.status = .cleanupBlocked ∨
      cleanupProved execution.result.sandboxCleanup execution.result.workspaceCleanup = true ∨
      (pending = false ∧ (seen.sandboxProcess = .absent ∨ seen.sandboxProcess = .notStarted) ∧
        seen.workspace = .retained ∧ seen.session ≠ .unknown) := by
  obtain ⟨-, hres⟩ := reconcileExecution_cases h
  have hstatus : execution.result.status = reconcileStatus pending execution.result.sandboxCleanup
      execution.result.workspaceCleanup seen.session := by
    rw [hres]
    rfl
  by_cases hproved : cleanupProved execution.result.sandboxCleanup
      execution.result.workspaceCleanup = true
  · exact Or.inr (Or.inl hproved)
  · unfold reconcileStatus at hstatus
    rw [if_neg hproved] at hstatus
    split_ifs at hstatus with h1 h2
    · exact Or.inl hstatus
    · have hpending : pending = false := Bool.eq_false_iff.mpr h1
      subst hpending
      simp only [Bool.and_eq_true, decide_eq_true_eq] at h2
      obtain ⟨⟨hsb, hne⟩, hsession⟩ := h2
      have hsandbox : execution.result.sandboxCleanup =
          reconcileSandboxCleanup false memory seen.sandboxProcess := by
        rw [hres]
        rfl
      have hworkspace : execution.result.workspaceCleanup =
          reconcileWorkspaceCleanup seen.workspace := by
        rw [hres]
        rfl
      refine Or.inr (Or.inr ⟨rfl, ?_, ?_, hsession⟩)
      · rw [hsandbox] at hsb
        unfold reconcileSandboxCleanup at hsb
        revert hsb
        cases memory <;> cases seen.sandboxProcess <;> simp [CleanupOutcome.done]
      · unfold cleanupProved at hproved
        rw [hsb, Bool.true_and, hworkspace] at hproved
        rw [hworkspace] at hne
        revert hproved hne
        cases seen.workspace <;> decide
    · exact Or.inl hstatus

theorem transition_cleanupProved {terminal : RunStatus} {sandbox workspace : CleanupOutcome}
    (h : cleanupProved sandbox workspace = true) :
    [RunTransitionEvent.cleanupProved terminal sandbox workspace].foldlM transitionRunStatus
      .cleanupBlocked = some terminal := by
  simp [transitionRunStatus, h]

theorem showsOne_reconcile {seat cut : ℕ} {o : Observation} {es : List Effect}
    (hok : keepsLifecycle s (.reconcile seat o cut) = true)
    (h : reconcileEffects s seat o = some es) : ShowsOne s (.reconcile seat o cut) es := by
  obtain ⟨run, hr, hblocked, -⟩ := reconcileEffects_cases h
  have hexec : ∀ e ∈ es, ∀ r ∈ e.run?, ∃ execution,
      reconcileExecution run.plan.toRunPlan (abandonmentPending s.files.events) run.result
        (evidence run.plan.toRunPlan s.files o) = some execution ∧ r = run.settle execution := by
    intro e he r hm
    rcases mem_reconcileEffects h he with rfl | ⟨run', execution, hr', hx, hform⟩
    · cases hm
    · rw [hr] at hr'
      cases hr'
      refine ⟨execution, hx, ?_⟩
      rcases hform with rfl | rfl | rfl | rfl
      · cases hm
      · cases hm
      · exact (Option.some.inj hm).symm
      · cases hm
  cases hx : reconcileExecution run.plan.toRunPlan (abandonmentPending s.files.events) run.result
      (evidence run.plan.toRunPlan s.files o) with
  | none =>
    refine ⟨.cleanupBlocked, fun e he r hm => ?_⟩
    obtain ⟨execution, hx', -⟩ := hexec e he r hm
    rw [hx] at hx'
    cases hx'
  | some execution =>
    refine ⟨execution.result.status, fun e he r hm => ?_⟩
    obtain ⟨execution', hx', rfl⟩ := hexec e he r hm
    rw [hx] at hx'
    cases hx'
    refine ⟨rfl, ?_⟩
    rw [RunAct.seat, shown_some hr, hblocked]
    rcases reconcile_change hx with hst | hproved | ⟨hpending, hretained⟩
    · exact Or.inl hst.symm
    · exact Or.inr ⟨_, List.mem_singleton.mpr rfl, transition_cleanupProved hproved⟩
    · simp only [keepsLifecycle, hpending, Bool.false_or, hr, Option.all_some, Bool.not_eq_true',
        decide_eq_false_iff_not] at hok
      exact absurd hretained hok

theorem showsOne_release {seat cut : ℕ} {released : Bool} {es : List Effect}
    (hs : s.Disciplined) (h : releaseEffects s seat released = some es) :
    ShowsOne s (.release seat released cut) es := by
  obtain ⟨run, hr, -, -, -, -, hes⟩ := releaseEffects_cases h
  split at hes
  case h_1 =>
    subst hes
    exact showsOne_same (r := run) hr rfl (by simp [Effect.run?])
  case h_2 memory hres =>
    split at hes
    case h_1 =>
      subst hes
      exact showsOne_same (r := run) hr rfl (by simp)
    case h_2 next hx =>
      obtain ⟨-, hresult⟩ := releaseExecution_cases hx
      have hmemory := (hs.rests seat run hr).status_eq hres
      subst hes
      refine ⟨next.result.status, fun e he r hm => ?_⟩
      simp only [List.mem_cons, List.not_mem_nil, or_false] at he
      rcases he with rfl | rfl | rfl | rfl
      · cases hm
      · cases hm
      · cases hm
        refine ⟨rfl, ?_⟩
        rw [RunAct.seat, shown_some hr]
        by_cases hfail : abandonmentPending s.files.events = false ∧
            memory.result.status = .cleanupBlocked ∧ memory.result.sandboxCleanup.done = true
        · obtain ⟨hp, hst, hdone⟩ := hfail
          have hnext : next.result.status = .failed ∧
              cleanupProved next.result.sandboxCleanup next.result.workspaceCleanup = true := by
            rw [hresult, releasedResult, hp]
            simp only [Bool.false_eq_true, if_false, hst, hdone, true_and, and_self, if_true,
              cleanupProved, Bool.true_and]
            split_ifs <;> rfl
          refine Or.inr ⟨_, List.mem_singleton.mpr rfl, ?_⟩
          rw [hmemory, hst]
          change _ = some next.result.status
          rw [hnext.1]
          exact transition_cleanupProved hnext.2
        · refine Or.inl ?_
          change run.status = next.result.status
          rw [hmemory, hresult]
          cases hp : abandonmentPending s.files.events with
          | true => rfl
          | false =>
            have hc : ¬ (memory.result.status = .cleanupBlocked ∧
                memory.result.sandboxCleanup.done = true) := fun hc => hfail ⟨hp, hc⟩
            simp [releasedResult, hc]
      · cases hm

/-- The status start-up takes is the one the files record, or that of an attempt that was lost, or
an abandonment is pending. -/
theorem recovered_status {f : RunFiles}
    (hab : ∀ e ∈ f.events, ∀ r, e = RunEvent.runAbandoned r →
      r.status = .abandoned ∧ isRunResult r = true) :
    f.recovered.1.status = f.lastStatus ∨
      (f.recovered.1.status = .cleanupBlocked ∧
        (f.lastStatus = .queued ∨ f.lastStatus = .active)) ∨
      (abandonmentPending f.events = true ∧ f.recovered.1.status = .cleanupBlocked) := by
  unfold RunFiles.recovered RunFiles.lastStatus
  by_cases hp : abandonmentPending f.events = true
  · rw [if_pos hp]
    exact Or.inr (Or.inr ⟨hp, rfl⟩)
  · rw [if_neg hp]
    have hlast : ∀ r, lastOf RunEvent.abandoned? f.events = some r →
        r.status = .abandoned ∧ isRunResult r = true := by
      intro r hr
      obtain ⟨e, he, hr'⟩ := List.exists_of_findSome?_eq_some hr
      refine hab e (List.mem_reverse.mp he) r ?_
      cases e <;> cases hr'
      rfl
    cases hl : lastOf RunEvent.abandoned? f.events with
    | some r =>
      obtain ⟨hst, hv⟩ := hlast r hl
      have hh : hasAbandoned f.events = true := by
        obtain ⟨e, he, hr'⟩ := List.exists_of_findSome?_eq_some hl
        exact List.any_eq_true.mpr ⟨e, List.mem_reverse.mp he, by rw [hr']; rfl⟩
      have hpersisted : f.persistedResult = some r := by
        unfold RunFiles.persistedResult
        rw [hl]
        exact if_pos hv
      rw [hpersisted, hh]
      exact Or.inl hst
    | none =>
      have hh : hasAbandoned f.events = false := by
        by_contra hh
        obtain ⟨e, he, hsome⟩ := List.any_eq_true.mp (Bool.not_eq_false _ ▸ hh)
        have hnone := List.findSome?_eq_none_iff.mp hl e (List.mem_reverse.mpr he)
        rw [hnone] at hsome
        cases hsome
      have hpersisted : f.persistedResult = f.priorResult := by
        unfold RunFiles.persistedResult
        rw [hl]
      rw [hpersisted, hh]
      cases f.priorResult with
      | some r => exact Or.inl rfl
      | none =>
        refine Or.inr (Or.inl ⟨rfl, ?_⟩)
        simp only [Bool.false_eq_true, if_false]
        split_ifs
        · exact Or.inr rfl
        · exact Or.inl rfl

theorem showsOne_open {seat cut : ℕ} {handoff : Option WorktreeRecord} {es : List Effect}
    (hab : ∀ e ∈ s.files.events, ∀ r, e = RunEvent.runAbandoned r →
      r.status = .abandoned ∧ isRunResult r = true)
    (hok : keepsLifecycle s (.open seat handoff cut) = true)
    (h : openEffects s seat handoff = some es) : ShowsOne s (.open seat handoff cut) es := by
  obtain ⟨hnone, -, -, rfl⟩ := openEffects_cases h
  refine ⟨s.files.recovered.1.status, fun e he r hm => ?_⟩
  rcases List.mem_append.mp he with he | he
  · split at he
    case h_1 => rcases List.mem_pair.mp he with rfl | rfl <;> cases hm
    case h_2 => cases he
  · rw [List.mem_singleton.mp he] at hm
    cases hm
    rw [recoveredExecution_result]
    refine ⟨rfl, ?_⟩
    have hbefore : (shown s (RunAct.open seat handoff cut).seat).getD
        (statusAtStart s (.open seat handoff cut)) = s.files.lastStatus := by
      unfold shown
      rw [RunAct.seat, hnone]
      rfl
    rw [hbefore]
    have hlost : ∀ run : ActiveRun, run.status = .cleanupBlocked →
        s.files.lastStatus = .queued ∨ s.files.lastStatus = .active →
          Permitted (.open seat handoff cut) s.files.lastStatus run := by
      rintro run hst (hlast | hlast)
      · refine ⟨_, List.mem_cons_self, ?_⟩
        rw [hlast, hst]
        rfl
      · refine ⟨_, List.mem_cons_of_mem _ List.mem_cons_self, ?_⟩
        rw [hlast, hst]
        rfl
    rcases recovered_status hab with hst | ⟨hst, hlast⟩ | ⟨hp, hst⟩
    · exact Or.inl hst.symm
    · exact Or.inr (hlost _ hst hlast)
    · simp only [keepsLifecycle, hp, Bool.not_true, Bool.false_or, decide_eq_true_eq] at hok
      rcases hok with hlast | hlast
      · exact Or.inl (hlast.trans hst.symm)
      · exact Or.inr (hlost _ hst hlast)

theorem showsOne_settle {seat : ℕ} {handoff : Option WorktreeRecord} {es : List Effect}
    (hs : s.Disciplined) (hok : keepsLifecycle s (.settle seat handoff) = true)
    (h : s.effects D (.settle seat handoff) = some es) : ShowsOne s (.settle seat handoff) es := by
  obtain ⟨run, execution, hr, hf, rfl⟩ := settleEffects_cases h
  have hrest := hs.rests seat run hr
  unfold ActiveRun.Rests at hrest
  rw [hf] at hrest
  obtain ⟨⟨-, hstatus⟩, hend⟩ := hrest
  have hresult : (carried run execution handoff).result = execution.result := by
    unfold carried
    split_ifs <;> rfl
  refine ⟨execution.result.status, fun e he r hm => ?_⟩
  simp only [settleEffects, List.mem_cons, List.not_mem_nil, or_false] at he
  rcases he with rfl | rfl | rfl
  · cases hm
  · cases hm
    have hst : (run.settle (carried run execution handoff)).status = execution.result.status :=
      congrArg RunResult.status hresult
    have hsb : (run.settle (carried run execution handoff)).sandboxCleanup =
        execution.result.sandboxCleanup := congrArg RunResult.sandboxCleanup hresult
    have hws : (run.settle (carried run execution handoff)).workspaceCleanup =
        execution.result.workspaceCleanup := congrArg RunResult.workspaceCleanup hresult
    refine ⟨hst, Or.inr ?_⟩
    rw [RunAct.seat, shown_some hr]
    unfold mayEnd at hend
    simp only [Bool.and_eq_true] at hend
    obtain ⟨⟨hv, -⟩, hend⟩ := hend
    have hcomplete : execution.result.status = .completed →
        cleanupProved execution.result.sandboxCleanup execution.result.workspaceCleanup = true := by
      intro hc
      unfold isRunResult at hv
      rw [hc] at hv
      simp only [Bool.and_eq_true] at hv
      exact hv.2.1
    unfold Permitted RunAct.transitions
    rw [hst, hsb, hws]
    rcases hstatus with ⟨hactive, hab⟩ | ⟨hstop, -⟩
    · rw [hactive]
      rw [hab] at hend
      split at hend
      case h_1 hc =>
        refine ⟨_, List.mem_cons_self, ?_⟩
        simp [transitionRunStatus, hcomplete hc, hc]
      case h_2 hc =>
        refine ⟨[.fail], by simp, ?_⟩
        rw [hc]
        rfl
      case h_3 hc =>
        refine ⟨[.cleanupBlocked], by simp, ?_⟩
        rw [hc]
        rfl
      case h_4 => cases of_decide_eq_true hend
      case h_5 => cases of_decide_eq_true hend
      case h_6 => cases hend
    · -- the attempt of a stopping run
      have hends : execution.result.status = .cancelled ∨
          execution.result.status = .cleanupBlocked := by
        simp only [keepsLifecycle, hr, hf, hstop, Option.all_some, ne_eq, not_true_eq_false,
          decide_false, Bool.false_or, decide_eq_true_eq] at hok
        exact hok
      rw [hstop]
      rcases hends with hc | hc
      · refine ⟨[.cancel], by simp, ?_⟩
        rw [hc]
        rfl
      · refine ⟨[.cleanupBlocked], by simp, ?_⟩
        rw [hc]
        rfl
  · cases hm

theorem effects_showOne {a : RunAct} {es : List Effect} (hs : s.Disciplined)
    (hab : ∀ e ∈ s.files.events, ∀ r, e = RunEvent.runAbandoned r →
      r.status = .abandoned ∧ isRunResult r = true)
    (ha : ∀ seat released cut, a ≠ .abandon seat released cut) (hrereads : a.rereads = false)
    (hok : keepsLifecycle s a = true) (h : s.effects D a = some es) : ShowsOne s a es := by
  cases a with
  | launch seat cut | launchUndone seat cut =>
    obtain ⟨hnone, -, rfl⟩ := launchEffects_cases h
    refine showsOne_start ⟨_, List.mem_singleton.mpr rfl, ?_⟩
    unfold shown
    rw [RunAct.seat, hnone]
    rfl
  | retry seat cut | retryUndone seat cut | resume seat continuing cut
  | resumeUndone seat continuing cut => cases hrereads
  | reconcile seat o cut => exact showsOne_reconcile hok h
  | release seat released cut => exact showsOne_release hs h
  | abandon seat released cut => exact absurd rfl (ha seat released cut)
  | «open» seat handoff cut => exact showsOne_open hab hok h
  | die seat => cases h
  | interrupt seat =>
    obtain ⟨run, hr, hst, rfl⟩ := interruptEffects_cases h
    refine ⟨.stopping, fun e he r hm => ?_⟩
    rw [List.mem_singleton.mp he] at hm
    cases hm
    refine ⟨rfl, Or.inr ⟨_, List.mem_singleton.mpr rfl, ?_⟩⟩
    rw [RunAct.seat, shown_some hr, hst]
    rfl
  | shutdown seat =>
    obtain ⟨run, hr, hst, rfl⟩ := shutdownEffects_cases h
    refine ⟨.stopping, fun e he r hm => ?_⟩
    rw [List.mem_singleton.mp he] at hm
    cases hm
    refine ⟨rfl, ?_⟩
    rw [RunAct.seat, shown_some hr]
    rcases hst with hst | hst
    · refine Or.inr ⟨_, List.mem_singleton.mpr rfl, ?_⟩
      rw [hst]
      rfl
    · exact Or.inl hst
  | begin seat =>
    obtain ⟨run, hr, -, rfl⟩ := beginEffects_cases h
    exact showsOne_same (r := { run with flight := .running true }) hr rfl
      (by simp [Effect.run?])
  | sandboxStarted seat _ | sessionStarted seat | usageCheckpoint seat _ _ =>
    obtain ⟨run, e, hr, -, -, rfl⟩ := noteEffects_cases (fun _ => rfl) h
    exact showsOne_same (r := run) hr rfl (by simp [Effect.run?])
  | finish seat execution cut =>
    obtain ⟨run, hr, -, -, rfl⟩ := finishEffects_cases h
    refine showsOne_same (r := { run with flight := .ended execution }) hr rfl ?_
    intro e he r hm
    unfold finishEffects at he
    rcases List.mem_append.mp he with he | he
    · split_ifs at he
      · rw [List.mem_singleton.mp he] at hm
        cases hm
      · cases he
    · simp only [List.mem_cons, List.not_mem_nil, or_false] at he
      rcases he with rfl | rfl | rfl
      · cases hm
      · cases hm
      · exact (Option.some.inj hm).symm
  | reject seat =>
    obtain ⟨run, b, hr, -, rfl⟩ := rejectEffects_cases h
    exact showsOne_same (r := { run with flight := .rejected }) hr rfl (by simp [Effect.run?])
  | settle seat handoff => exact showsOne_settle hs hok h
  | settleBlocked seat =>
    obtain ⟨run, hr, hf, rfl⟩ := settleBlockedEffects_cases h
    have hin : run.InFlight := by
      refine (hs.rests seat run hr).inFlight ?_
      rcases hf with ⟨execution, hf⟩ | hf
      · rw [hf]
        rfl
      · rw [hf]
        rfl
    refine ⟨.cleanupBlocked, fun e he r hm => ?_⟩
    rw [List.mem_singleton.mp he] at hm
    cases hm
    refine ⟨rfl, Or.inr ⟨_, List.mem_singleton.mpr rfl, ?_⟩⟩
    rw [RunAct.seat, shown_some hr]
    rcases hin.2 with ⟨hst, -⟩ | ⟨hst, -⟩
    · rw [hst]
      rfl
    · rw [hst]
      rfl

/-! ## The steps -/

/-- A step that leaves at most one other status shows what is permitted. -/
theorem written_of_showsOne {a : RunAct} {es removals : List Effect} {n : ℕ} (h : ShowsOne s a es)
    (hrem : ∀ e ∈ removals, ∃ id, e = .removeSnapshot id) :
    Written s a (es.take n ++ removals) s
      (removals.foldl (perform a.seat) (cutShort (perform a.seat) n es s)) := by
  obtain ⟨status, hall⟩ := h
  rw [cutShort_eq_foldl, ← List.foldl_append]
  refine written_list (x := status) (Or.inl rfl) fun e he run hm => ?_
  rcases List.mem_append.mp he with he | he
  · exact hall e (List.mem_of_mem_take he) run hm
  · obtain ⟨id, rfl⟩ := hrem e he
    cases hm

/-- The results a run was abandoned with are valid and say so. -/
def AbandonedValid (s : RunState) : Prop :=
  ∀ e ∈ s.files.events, ∀ r, e = RunEvent.runAbandoned r →
    r.status = .abandoned ∧ isRunResult r = true

theorem abandonedValid_perform {seat : ℕ} {e : Effect} (h : AbandonedValid s)
    (he : ∀ r, e ≠ .append (.runAbandoned r)) : AbandonedValid (s.perform seat e) := by
  intro e' he' r hr
  cases e with
  | append event =>
    rcases List.mem_append.mp he' with hm | hm
    · exact h e' hm r hr
    · refine absurd ?_ (he r)
      rw [← hr, List.mem_singleton.mp hm]
  | settleLease =>
    simp only [perform] at he'
    split_ifs at he'
    · exact h e' he' r hr
    · exact h e' he' r hr
  | _ => exact h e' he' r hr

/-- They stay so when a waiting call starts. -/
theorem abandonedValid_startCut {seat cut : ℕ} {i : StartInput} {undo : Bool}
    (h : AbandonedValid s) : AbandonedValid (startCut s seat i cut undo) := by
  have hstart : AbandonedValid (((startEffects s.files i).take cut).foldl (perform seat) s) := by
    refine (AllCuts.of_preserved h fun u e he hu => ?_).foldl
    refine abandonedValid_perform hu fun r hr => ?_
    have hof := startEffects_ofStart s.files i e (List.mem_of_mem_take he)
    rw [hr] at hof
    cases hof.2
  refine (AllCuts.of_preserved hstart fun u e he hu => ?_).foldl
  refine abandonedValid_perform hu fun r hr => ?_
  split_ifs at he
  · obtain ⟨id, rfl⟩ := mem_abandonedCheckout he
    cases hr
  · cases he

/-- What the statuses of a run with waiting calls rest on. -/
structure LateState.Sound (D : Planner) (w : LateState) : Prop where
  prepared : w.Prepared D
  abandoned : AbandonedValid w.run

theorem LateState.Sound.step {w v : LateState} {act : LateAct} (hw : w.Sound D)
    (h : w.step D act = some v) : v.Sound D := by
  refine ⟨hw.prepared.step h, ?_⟩
  cases act with
  | request seat call =>
    simp only [LateState.step] at h
    split at h
    case h_2 => cases h
    case h_1 =>
      obtain ⟨i, -, rfl⟩ := Option.map_eq_some_iff.mp h
      exact hw.abandoned
  | refuse seat =>
    obtain ⟨c, -, rfl⟩ := Option.map_eq_some_iff.mp h
    exact hw.abandoned
  | start seat cut undo =>
    obtain ⟨c, -, -, rfl⟩ := step_start h
    exact abandonedValid_startCut hw.abandoned
  | other a =>
    refine events_step hw.abandoned ?_ (step_other h).2.2.1
    rintro e he r rfl
    exact appends_runAbandoned he

/-- **A step that meets the condition shows what is permitted.** -/
theorem LateState.Sound.permitted {w v : LateState} {act : LateAct} (hw : w.Sound D)
    (hok : w.keepsLifecycle act = true) (h : w.step D act = some v) : StepPermitted D w act v := by
  cases act with
  | request seat call =>
    simp only [LateState.step] at h
    split at h
    case h_2 => cases h
    case h_1 =>
      obtain ⟨i, -, rfl⟩ := Option.map_eq_some_iff.mp h
      exact Or.inl rfl
  | refuse seat =>
    obtain ⟨c, -, rfl⟩ := Option.map_eq_some_iff.mp h
    exact Or.inl rfl
  | start seat cut undo =>
    obtain ⟨⟨call, i⟩, hc, -, rfl⟩ := step_start h
    obtain ⟨run, latest, hr, -, hi⟩ := hw.prepared.waiting seat call i hc
    have hseat : (call.act seat cut undo).seat = seat := by cases call <;> cases undo <;> rfl
    obtain ⟨removals, hremovals⟩ : ∃ removals, removals =
      if undo then abandonedCheckout (startEffects w.run.files i) cut else [] := ⟨_, rfl⟩
    have hrem : ∀ e ∈ removals, ∃ id, e = .removeSnapshot id := by
      intro e he
      rw [hremovals] at he
      split_ifs at he
      · exact mem_abandonedCheckout he
      · cases he
    refine Or.inr (Or.inr ⟨call.act seat cut undo, startEffects w.run.files i, cut, removals, ?_,
      hrem, ?_⟩)
    · simp only [LateState.operation, hc, Option.map_some]
    · have hwritten := written_of_showsOne (n := cut)
        (show ShowsOne w.run (call.act seat cut undo) _ from showsOne_late hr hi) hrem
      rw [hseat, cutShort_eq_foldl, hremovals] at hwritten
      rw [hremovals]
      exact hwritten
  | other a =>
    obtain ⟨hrereads, -, hrun, -⟩ := step_other h
    by_cases hdie : ∃ seat, a = .die seat
    · obtain ⟨seat, rfl⟩ := hdie
      exact Or.inr (Or.inl ⟨seat, rfl, (Option.some.inj hrun).symm⟩)
    · right; right
      by_cases hbase : ∃ seat released cut, a = .abandon seat released cut
      · -- an abandonment that stops at its first event
        obtain ⟨seat, released, cut, rfl⟩ := hbase
        obtain ⟨es, he, hv⟩ := Option.map_eq_some_iff.mp hrun
        refine ⟨.abandon seat released cut, es, cut, [], ?_, by simp, ?_⟩
        · exact congrArg (Option.map fun es => (RunAct.abandon seat released cut, es)) he
        · have hquiet : ∀ e ∈ es.take cut, e.run? = none := by
            obtain ⟨run, memory, -, -, -, -, -, -, rfl⟩ := abandonEffects_cases he
            intro e hm
            have hone : cut = 0 ∨ cut = 1 := by
              have hle : cut ≤ 1 := of_decide_eq_true hok
              omega
            rcases hone with rfl | rfl
            · cases hm
            · rw [List.mem_singleton.mp hm]
              rfl
          rw [List.append_nil, ← hv, cutShort_eq_foldl]
          refine written_list (x := .queued) (Or.inl rfl) fun e hm run hr => ?_
          rw [hquiet e hm] at hr
          cases hr
      · rcases RunState.step_cases hrun with ⟨seat, ha, -⟩ | ⟨es, n, removals, he, hv, hrem⟩
        · exact absurd ⟨seat, ha⟩ hdie
        · refine ⟨a, es, n, removals, ?_, hrem, ?_⟩
          · simp only [LateState.operation, he, Option.map_some]
          · rw [hv]
            exact written_of_showsOne (effects_showOne hw.prepared.disciplined hw.abandoned
              (fun seat released cut ha => hbase ⟨seat, released, cut, ha⟩) hrereads hok he) hrem

/-- The cleanup of no run that the step leaves in memory is proved. -/
def unproved (s : RunState) (a : RunAct) : Bool :=
  ((s.effects sameDigest a).getD []).all fun e => e.run?.all fun run =>
    !cleanupProved run.sandboxCleanup run.workspaceCleanup

end RunLife

end PiSubagent
