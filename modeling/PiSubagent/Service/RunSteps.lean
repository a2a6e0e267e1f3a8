import PiSubagent.Service.RunLife

/-!
# What a step of a run does

* `RunAct.seat`, `RunState.effects`: who acts, and all effects of a step that nothing cuts short.
* **`step_cases`**: a step is the death of a seat, or the first of its effects, in their order, and
  perhaps the removal of a snapshot.
* **`step_allCuts`**: what holds wherever the effects are cut holds after the step.
* `startEffects_cases`: the effects of a start, one after the other.
-/

namespace PiSubagent

open JsonText

namespace RunLife

open Cuts

/-- The seat that acts. -/
def RunAct.seat : RunAct → ℕ
  | .launch seat _ | .retry seat _ | .resume seat _ _ | .launchUndone seat _
  | .retryUndone seat _ | .resumeUndone seat _ _ | .begin seat | .sandboxStarted seat _
  | .sessionStarted seat | .usageCheckpoint seat _ _ | .finish seat _ _ | .reject seat
  | .settle seat _ | .settleBlocked seat | .interrupt seat | .shutdown seat
  | .reconcile seat _ _ | .release seat _ _ | .abandon seat _ _ | .die seat | .open seat _ _ => seat

namespace RunState

variable (D : Planner) (s : RunState)

/-- The process of a seat is gone, and the operating system has freed its lease. -/
def kill (seat : ℕ) : RunState :=
  { s.setSeat seat none with lease := if s.lease = some seat then none else s.lease }

/-- The effects of a step of the attempt a seat runs, by how far it is. -/
def flightEffects (seat : ℕ) (effects : ActiveRun → Flight → Option (List Effect)) :
    Option (List Effect) :=
  (s.seats seat).bind fun run => effects run run.flight

/-- All effects of a step that nothing cuts short; `none` when it cannot be taken. -/
def effects : RunAct → Option (List Effect)
  | .launch seat _ | .launchUndone seat _ => launchEffects s seat
  | .retry seat _ | .retryUndone seat _ => retryEffects D s seat
  | .resume seat continuing _ | .resumeUndone seat continuing _ => resumeEffects D s seat continuing
  | .begin seat => s.flightEffects seat fun run flight =>
      match flight with
      | .running false =>
        some [.append (.attemptStarting run.plan.attemptId),
          .remember { run with flight := .running true }]
      | _ => none
  | .sandboxStarted seat identity => s.flightEffects seat fun _ flight =>
      match flight with
      | .running true => some [.append (.sandboxStarted identity)]
      | _ => none
  | .sessionStarted seat => s.flightEffects seat fun _ flight =>
      match flight with
      | .running true => some [.append .sessionStarted]
      | _ => none
  | .usageCheckpoint seat usage runtimeMs => s.flightEffects seat fun run flight =>
      match flight with
      | .running true => some [.append (.usageCheckpoint run.plan.attemptId usage runtimeMs)]
      | _ => none
  | .finish seat execution _ => s.flightEffects seat fun run flight =>
      match flight with
      | .running true => if mayEnd run execution then some (finishEffects run execution) else none
      | _ => none
  | .reject seat => s.flightEffects seat fun run flight =>
      match flight with
      | .running _ => some [.remember { run with flight := .rejected }]
      | _ => none
  | .settle seat handoff => s.flightEffects seat fun run flight =>
      match flight with
      | .ended execution => some (settleEffects run execution handoff)
      | _ => none
  | .settleBlocked seat => s.flightEffects seat fun run flight =>
      match flight with
      | .ended _ | .rejected =>
        some [.remember { run with status := .cleanupBlocked, flight := .settled }]
      | _ => none
  | .interrupt seat => (s.seats seat).bind fun run =>
      if run.status = .active then
        some [.remember { run with status := .stopping, aborted := run.aborted.or (some false) }]
      else none
  | .shutdown seat => (s.seats seat).bind fun run =>
      if run.status = .active ∨ run.status = .stopping then
        some [.remember { run with status := .stopping, aborted := run.aborted.or (some true) }]
      else none
  | .reconcile seat o _ => reconcileEffects s seat o
  | .release seat released _ => releaseEffects s seat released
  | .abandon seat released _ => abandonEffects s seat released
  | .die _ => none
  | .open seat handoff _ => openEffects s seat handoff

variable {D s}

/-- What a step has done: the first effects, and removals of snapshots. -/
def Did (seat : ℕ) (s : RunState) (all : Option (List Effect)) (t : RunState) : Prop :=
  ∃ (effects : List Effect) (n : ℕ) (removals : List Effect), all = some effects ∧
    t = removals.foldl (perform seat) (cutShort (perform seat) n effects s) ∧
      ∀ e ∈ removals, ∃ id, e = .removeSnapshot id

theorem did_run {seat cut : ℕ} {all : Option (List Effect)} {t : RunState}
    (h : s.run seat cut all = some t) : Did seat s all t := by
  obtain ⟨effects, he, rfl⟩ := Option.map_eq_some_iff.mp h
  exact ⟨effects, cut, [], he, rfl, by simp⟩

theorem mem_abandonedCheckout {es : List Effect} {cut : ℕ} {e : Effect}
    (h : e ∈ abandonedCheckout es cut) : ∃ id, e = .removeSnapshot id := by
  unfold abandonedCheckout at h
  split_ifs at h with hc
  · exact absurd h List.not_mem_nil
  · obtain ⟨e', -, he'⟩ := List.mem_filterMap.mp h
    split at he' <;> cases he'
    exact ⟨_, rfl⟩

theorem did_undone {seat cut : ℕ} {all : Option (List Effect)} {t : RunState}
    (h : s.undone seat cut all = some t) : Did seat s all t := by
  obtain ⟨effects, he, rfl⟩ := Option.map_eq_some_iff.mp h
  exact ⟨effects, cut, abandonedCheckout effects cut, he, rfl, fun _ => mem_abandonedCheckout⟩

theorem did_all {seat : ℕ} {all : Option (List Effect)} {o : Option RunState} {t : RunState}
    (ho : o = all.map fun effects => effects.foldl (perform seat) s) (h : o = some t) :
    Did seat s all t := by
  obtain ⟨effects, he, rfl⟩ := Option.map_eq_some_iff.mp (ho.symm.trans h)
  refine ⟨effects, effects.length, [], he, ?_, by simp⟩
  clear he h ho
  induction effects generalizing s with
  | nil => rfl
  | cons e es ih => exact ih

/-- **A step is the death of a seat, or the first of its effects, in their order, and perhaps the
removal of a snapshot.** -/
theorem step_cases {a : RunAct} {t : RunState} (h : step D s a = some t) :
    (∃ seat, a = .die seat ∧ t = s.kill seat) ∨ Did a.seat s (s.effects D a) t := by
  cases a with
  | die seat => exact Or.inl ⟨seat, rfl, (Option.some.inj h).symm⟩
  | launch seat cut => exact Or.inr (did_run h)
  | retry seat cut => exact Or.inr (did_run h)
  | resume seat continuing cut => exact Or.inr (did_run h)
  | launchUndone seat cut => exact Or.inr (did_undone h)
  | retryUndone seat cut => exact Or.inr (did_undone h)
  | resumeUndone seat continuing cut => exact Or.inr (did_undone h)
  | reconcile seat o cut => exact Or.inr (did_run h)
  | release seat released cut => exact Or.inr (did_run h)
  | abandon seat released cut => exact Or.inr (did_run h)
  | «open» seat handoff cut =>
    obtain ⟨effects, he, rfl⟩ := Option.map_eq_some_iff.mp h
    exact Or.inr ⟨effects, _, [], he, rfl, by simp⟩
  | interrupt seat | shutdown seat =>
    refine Or.inr (did_all ?_ h)
    simp only [step, effects, RunAct.seat]
    cases s.seats seat with
    | none => rfl
    | some run =>
      dsimp only [Option.bind_some]
      split_ifs <;> rfl
  | finish seat execution cut =>
    simp only [step] at h
    split at h
    case h_2 => cases h
    case h_1 run hr =>
      split at h
      case h_2 => cases h
      case h_1 hf =>
        split_ifs at h with hm
        simp only [effects, flightEffects, hr, Option.bind_some, hf, if_pos hm]
        exact Or.inr (did_run h)
  | settle seat handoff =>
    simp only [step] at h
    split at h
    case h_2 => cases h
    case h_1 run hr =>
      split at h
      case h_2 => cases h
      case h_1 hf =>
        simp only [effects, flightEffects, hr, Option.bind_some, hf]
        exact Or.inr (did_run h)
  | begin seat | sandboxStarted seat _ | sessionStarted seat | usageCheckpoint seat _ _
  | reject seat | settleBlocked seat =>
    refine Or.inr (did_all ?_ h)
    simp only [step, note, effects, flightEffects, RunAct.seat]
    rcases s.seats seat with _ | ⟨plan, status, result, flight, aborted⟩
    · rfl
    · rcases flight with _ | ⟨_ | _⟩ | _ | _ <;> rfl

/-- **What holds wherever the effects are cut holds after the step**, when the removal of a snapshot
and the death of a seat keep it. -/
theorem step_allCuts {P : RunState → Prop} {a : RunAct} {t : RunState} (h : step D s a = some t)
    (hdie : ∀ seat, a = .die seat → P (s.kill seat))
    (hremove : ∀ u id, P u → P (u.perform a.seat (.removeSnapshot id)))
    (hall : ∀ effects, s.effects D a = some effects → AllCuts (perform a.seat) P effects s) :
    P t := by
  rcases step_cases h with ⟨seat, ha, rfl⟩ | ⟨effects, n, removals, he, rfl, hu⟩
  · exact hdie seat ha
  · have hcut : P (cutShort (perform a.seat) n effects s) := (hall effects he).cutShort n
    clear he h
    revert hcut
    generalize cutShort (perform a.seat) n effects s = u
    induction removals generalizing u with
    | nil => exact fun hp => hp
    | cons e es ih =>
      intro hp
      obtain ⟨id, rfl⟩ := hu e List.mem_cons_self
      exact ih (fun e he => hu e (List.mem_cons_of_mem _ he)) _ (hremove u id hp)

end RunState

/-- The run an effect leaves in memory. -/
def Effect.run? : Effect → Option ActiveRun
  | .remember run | .execute run => some run
  | _ => none

theorem perform_seats {s : RunState} {seat : ℕ} {e : Effect} :
    (s.perform seat e).seats =
      match e.run? with
      | some run => fun n => if n = seat then some run else s.seats n
      | none => s.seats := by
  cases e with
  | settleLease =>
    simp only [RunState.perform, Effect.run?]
    split_ifs <;> rfl
  | _ => rfl

theorem step_seats_ne {D : Planner} {s t : RunState} {a : RunAct} (h : s.step D a = some t)
    {n : ℕ} (hn : n ≠ a.seat) : t.seats n = s.seats n := by
  refine RunState.step_allCuts (P := fun u => u.seats n = s.seats n) h ?_ (fun _ _ hu => hu) ?_
  · rintro seat rfl
    exact if_neg hn
  · intro effects _
    refine AllCuts.of_preserved rfl fun u e _ hu => ?_
    rw [perform_seats]
    cases e.run? with
    | some run => exact (if_neg hn).trans hu
    | none => exact hu

/-! ## The operations, inverted -/

section Inversion

variable {D : Planner} {s : RunState} {seat : ℕ} {es : List Effect}

theorem launchEffects_cases (h : launchEffects s seat = some es) :
    s.seats seat = none ∧ s.lease = none ∧
      es = startEffects s.files
        { plan := s.files.plan, kind := .initial, ordinal := 0, parentAttemptId := none
          expectedPriorStatus := none, existingWorktree := none, continuing := false } := by
  unfold launchEffects at h
  split at h
  · cases h
  · split_ifs at h with hl
    exact ⟨‹_›, hl, (Option.some.inj h).symm⟩

theorem inputEffects_cases {input : ActiveRun → AttemptRecord → Option StartInput}
    (h : inputEffects s seat input = some es) :
    ∃ run latest i, s.seats seat = some run ∧ s.files.latest = some latest ∧ s.lease = none ∧
      input run latest = some i ∧ es = startEffects s.files i := by
  unfold inputEffects at h
  split at h
  case h_2 => cases h
  case h_1 run latest hr hlat =>
    split_ifs at h with hl
    obtain ⟨i, hi, he⟩ := Option.map_eq_some_iff.mp h
    exact ⟨run, latest, i, hr, hlat, hl, hi, he.symm⟩

theorem retryInput_cases {run : ActiveRun} {latest : AttemptRecord} {i : StartInput}
    (h : retryInput D run latest = some i) :
    ∃ r plan, run.result = some r ∧ run.status = .failed ∧
      (r.handoff.bind WorktreeRecord.handoffCommit) = none ∧
      latest.attemptId = run.plan.attemptId ∧
      retryPlan D run.plan r.result (latest.ordinal + 1) = some plan ∧
      i = { plan := plan, kind := .retry, ordinal := latest.ordinal + 1
            parentAttemptId := some latest.attemptId
            expectedPriorStatus := some .failed
            existingWorktree := none, continuing := false } := by
  unfold retryInput at h
  split at h
  case h_2 => cases h
  case h_1 r hres =>
    split_ifs at h with hc
    obtain ⟨plan, hp, he⟩ := Option.map_eq_some_iff.mp h
    exact ⟨r, plan, hres, hc.1, hc.2.1, hc.2.2, hp, he.symm⟩

theorem retryEffects_cases (h : retryEffects D s seat = some es) :
    ∃ run latest r plan, s.seats seat = some run ∧ s.files.latest = some latest ∧
      run.result = some r ∧ run.status = .failed ∧
      (r.handoff.bind WorktreeRecord.handoffCommit) = none ∧
      latest.attemptId = run.plan.attemptId ∧ s.lease = none ∧
      retryPlan D run.plan r.result (latest.ordinal + 1) = some plan ∧
      es = startEffects s.files
        { plan := plan, kind := .retry, ordinal := latest.ordinal + 1
          parentAttemptId := some latest.attemptId
          expectedPriorStatus := some .failed
          existingWorktree := none, continuing := false } := by
  obtain ⟨run, latest, i, hr, hlat, hl, hi, rfl⟩ := inputEffects_cases h
  obtain ⟨r, plan, hres, hst, hh, ha, hp, rfl⟩ := retryInput_cases hi
  exact ⟨run, latest, r, plan, hr, hlat, hres, hst, hh, ha, hl, hp, rfl⟩

/-- What `resume` asks for. -/
def ResumePermitted (continuing : Bool) (run : ActiveRun) (r : AttemptExecutionResult) : Prop :=
  if continuing then
    run.plan.mode = .worktree ∧ transitionRunStatus run.status .resumeAtHandoff ≠ none ∧
      (r.handoff.bind WorktreeRecord.handoffCommit) ≠ none
  else run.status = .interrupted ∧ retryIs r.result [.resume] = true

theorem resumeInput_cases {continuing : Bool} {run : ActiveRun} {latest : AttemptRecord}
    {i : StartInput} (h : resumeInput D run latest continuing = some i) :
    ∃ r plan, run.result = some r ∧ ResumePermitted continuing run r ∧ r.sessionFile ≠ none ∧
      latest.attemptId = run.plan.attemptId ∧
      resumePlan D run.plan r.result (latest.ordinal + 1) continuing = some plan ∧
      i = { plan := plan, kind := .resume, ordinal := latest.ordinal + 1
            parentAttemptId := some latest.attemptId
            expectedPriorStatus := some run.status
            existingWorktree := if continuing then none else latest.worktreeAttemptId
            continuing := continuing } := by
  unfold resumeInput at h
  split at h
  case h_2 => cases h
  case h_1 r hres =>
    dsimp only at h
    by_cases hc : (if continuing then decide (run.plan.mode = .worktree ∧
          transitionRunStatus run.status .resumeAtHandoff ≠ none ∧
            (r.handoff.bind WorktreeRecord.handoffCommit) ≠ none)
        else decide (run.status = .interrupted ∧ retryIs r.result [.resume] = true)) = true ∧
        r.sessionFile ≠ none ∧ latest.attemptId = run.plan.attemptId
    · rw [if_pos hc] at h
      obtain ⟨hperm, hf, ha⟩ := hc
      obtain ⟨plan, hp, he⟩ := Option.map_eq_some_iff.mp h
      refine ⟨r, plan, hres, ?_, hf, ha, hp, he.symm⟩
      cases continuing <;> simpa [ResumePermitted] using hperm
    · rw [if_neg hc] at h
      cases h

theorem resumeEffects_cases {continuing : Bool} (h : resumeEffects D s seat continuing = some es) :
    ∃ run latest r plan, s.seats seat = some run ∧ s.files.latest = some latest ∧
      run.result = some r ∧ ResumePermitted continuing run r ∧ r.sessionFile ≠ none ∧
      latest.attemptId = run.plan.attemptId ∧ s.lease = none ∧
      resumePlan D run.plan r.result (latest.ordinal + 1) continuing = some plan ∧
      es = startEffects s.files
        { plan := plan, kind := .resume, ordinal := latest.ordinal + 1
          parentAttemptId := some latest.attemptId
          expectedPriorStatus := some run.status
          existingWorktree := if continuing then none else latest.worktreeAttemptId
          continuing := continuing } := by
  obtain ⟨run, latest, i, hr, hlat, hl, hi, rfl⟩ := inputEffects_cases h
  obtain ⟨r, plan, hres, hperm, hf, ha, hp, rfl⟩ := resumeInput_cases hi
  exact ⟨run, latest, r, plan, hr, hlat, hres, hperm, hf, ha, hl, hp, rfl⟩

theorem reconcileEffects_cases {o : Observation} (h : reconcileEffects s seat o = some es) :
    ∃ run, s.seats seat = some run ∧ run.status = .cleanupBlocked ∧ s.canHold seat = true ∧
      durableStatusIs s.files .cleanupBlocked = true ∧
      es = snapshotEffects run.plan.toRunPlan
          (evidence run.plan.toRunPlan s.files o).sandboxProcess o ++
        match reconcileExecution run.plan.toRunPlan (abandonmentPending s.files.events) run.result
          (evidence run.plan.toRunPlan s.files o) with
        | none => []
        | some execution =>
          [.append (if execution.result.status = .abandoned then .runAbandoned execution.result
              else .runReconciled execution.result.status),
            .writeSnapshot execution, .remember (run.settle execution), .settleLease] := by
  unfold reconcileEffects at h
  split at h
  case h_2 => cases h
  case h_1 run hr =>
    split_ifs at h with hc
    exact ⟨run, hr, hc.1, hc.2.1, hc.2.2, (Option.some.inj h).symm⟩

theorem releaseEffects_cases {released : Bool} (h : releaseEffects s seat released = some es) :
    ∃ run, s.seats seat = some run ∧
      (run.status ≠ .active ∧ run.status ≠ .stopping ∧ run.status ≠ .interrupted) ∧
      s.canHold seat = true ∧ durableStatusIs s.files run.status = true ∧ released = true ∧
      match run.result with
      | none => es = [.append .runReleased, .settleLease]
      | some memory =>
        match releaseExecution run.plan.toRunPlan (abandonmentPending s.files.events) memory with
        | none => es = []
        | some next =>
          es = [.append .runReleased, .writeSnapshot next, .remember (run.settle next),
            .settleLease] := by
  unfold releaseEffects at h
  split at h
  case h_2 => cases h
  case h_1 run hr =>
    split_ifs at h with hc
    obtain ⟨h1, h2, h3, hl, hd, hrel⟩ := hc
    refine ⟨run, hr, ⟨h1, h2, h3⟩, hl, hd, hrel, ?_⟩
    cases hres : run.result with
    | none =>
      simp only [hres] at h
      exact (Option.some.inj h).symm
    | some memory =>
      simp only [hres] at h
      rw [← Option.some.inj h]
      dsimp only
      cases releaseExecution run.plan.toRunPlan (abandonmentPending s.files.events) memory <;> rfl

theorem abandonEffects_cases {released : Bool} (h : abandonEffects s seat released = some es) :
    ∃ run memory, s.seats seat = some run ∧ run.result = some memory ∧ run.status = .interrupted ∧
      memory.result.sandboxCleanup.done = true ∧ s.lease = none ∧
      durableStatusIs s.files .interrupted = true ∧
      es = [.append .runAbandoning,
          .remember (run.settle (abandonPending run.plan.toRunPlan memory.result))] ++
        if released = false then
          [.writeSnapshot (abandonBlocked run.plan.toRunPlan memory.result),
            .remember (run.settle (abandonBlocked run.plan.toRunPlan memory.result))]
        else if transitionRunStatus .interrupted
            (.abandon memory.result.sandboxCleanup (abandonedWorkspace run.plan.toRunPlan)) =
              some .abandoned ∧
            isRunResult (abandonDone run.plan.toRunPlan memory.result).result = true then
          [.append (.runAbandoned (abandonDone run.plan.toRunPlan memory.result).result),
            .remember (run.settle (abandonDone run.plan.toRunPlan memory.result)),
            .writeSnapshot (abandonDone run.plan.toRunPlan memory.result)]
        else [] := by
  unfold abandonEffects at h
  split at h
  case h_2 => cases h
  case h_1 run hr =>
    split at h
    case h_2 => cases h
    case h_1 memory hres =>
      split at h
      case isFalse => cases h
      case isTrue hc =>
        exact ⟨run, memory, hr, hres, hc.1, hc.2.1, hc.2.2.1, hc.2.2.2, (Option.some.inj h).symm⟩

theorem openEffects_cases {handoff : Option WorktreeRecord}
    (h : openEffects s seat handoff = some es) :
    s.seats seat = none ∧ s.files.recorded = true ∧ s.lease = none ∧
      es = (match s.files.recovered.2 with
        | some error =>
          [.append .startupReconciled,
            .writeSnapshot
              ⟨(s.files.recoveredExecution handoff).result, [], none, none, none, some error⟩]
        | none => []) ++
        [.remember ⟨s.files.recoveredPlan, (s.files.recoveredExecution handoff).result.status,
          some (s.files.recoveredExecution handoff), .settled, none⟩] := by
  unfold openEffects at h
  split at h
  case h_1 => cases h
  case h_2 hr =>
    split_ifs at h with hc
    exact ⟨hr, hc.1, hc.2, (Option.some.inj h).symm⟩

theorem beginEffects_cases (h : s.effects D (.begin seat) = some es) :
    ∃ run, s.seats seat = some run ∧ run.flight = .running false ∧
      es = [.append (.attemptStarting run.plan.attemptId),
        .remember { run with flight := .running true }] := by
  obtain ⟨run, hr, hf⟩ := Option.bind_eq_some_iff.mp h
  dsimp only at hf
  split at hf <;> cases hf
  exact ⟨run, hr, ‹_›, rfl⟩

/-- The events the executor appends while an attempt runs. -/
def RunAct.note? (run : ActiveRun) : RunAct → Option RunEvent
  | .sandboxStarted _ identity => some (.sandboxStarted identity)
  | .sessionStarted _ => some .sessionStarted
  | .usageCheckpoint _ usage runtimeMs =>
    some (.usageCheckpoint run.plan.attemptId usage runtimeMs)
  | _ => none

theorem noteEffects_cases {a : RunAct} (ha : ∀ run, (a.note? run).isSome = true)
    (h : s.effects D a = some es) :
    ∃ run e, s.seats a.seat = some run ∧ run.flight = .running true ∧ a.note? run = some e ∧
      es = [.append e] := by
  cases a with
  | sandboxStarted seat identity | sessionStarted seat | usageCheckpoint seat usage runtimeMs =>
    obtain ⟨run, hr, hf⟩ := Option.bind_eq_some_iff.mp h
    dsimp only at hf
    split at hf <;> cases hf
    exact ⟨run, _, hr, ‹_›, rfl, rfl⟩
  | _ => exact absurd (ha (.start s.files.plan)) (by simp [RunAct.note?])

theorem finishEffects_cases {execution : AttemptExecutionResult} {cut : ℕ}
    (h : s.effects D (.finish seat execution cut) = some es) :
    ∃ run, s.seats seat = some run ∧ run.flight = .running true ∧ mayEnd run execution = true ∧
      es = finishEffects run execution := by
  obtain ⟨run, hr, hf⟩ := Option.bind_eq_some_iff.mp h
  dsimp only at hf
  split at hf
  case h_2 => cases hf
  case h_1 hrun =>
    split_ifs at hf with hm
    exact ⟨run, hr, hrun, hm, (Option.some.inj hf).symm⟩

theorem rejectEffects_cases (h : s.effects D (.reject seat) = some es) :
    ∃ run b, s.seats seat = some run ∧ run.flight = .running b ∧
      es = [.remember { run with flight := .rejected }] := by
  obtain ⟨run, hr, hf⟩ := Option.bind_eq_some_iff.mp h
  dsimp only at hf
  split at hf <;> cases hf
  exact ⟨run, _, hr, ‹_›, rfl⟩

theorem settleEffects_cases {handoff : Option WorktreeRecord}
    (h : s.effects D (.settle seat handoff) = some es) :
    ∃ run execution, s.seats seat = some run ∧ run.flight = .ended execution ∧
      es = settleEffects run execution handoff := by
  obtain ⟨run, hr, hf⟩ := Option.bind_eq_some_iff.mp h
  dsimp only at hf
  split at hf <;> cases hf
  exact ⟨run, _, hr, ‹_›, rfl⟩

theorem settleBlockedEffects_cases (h : s.effects D (.settleBlocked seat) = some es) :
    ∃ run, s.seats seat = some run ∧
      ((∃ execution, run.flight = .ended execution) ∨ run.flight = .rejected) ∧
      es = [.remember { run with status := .cleanupBlocked, flight := .settled }] := by
  obtain ⟨run, hr, hf⟩ := Option.bind_eq_some_iff.mp h
  dsimp only at hf
  split at hf <;> cases hf
  · exact ⟨run, hr, Or.inl ⟨_, ‹_›⟩, rfl⟩
  · exact ⟨run, hr, Or.inr ‹_›, rfl⟩

theorem interruptEffects_cases (h : s.effects D (.interrupt seat) = some es) :
    ∃ run, s.seats seat = some run ∧ run.status = .active ∧
      es = [.remember { run with
        status := .stopping, aborted := run.aborted.or (some false) }] := by
  obtain ⟨run, hr, hf⟩ := Option.bind_eq_some_iff.mp h
  split_ifs at hf with hs
  exact ⟨run, hr, hs, (Option.some.inj hf).symm⟩

theorem shutdownEffects_cases (h : s.effects D (.shutdown seat) = some es) :
    ∃ run, s.seats seat = some run ∧ (run.status = .active ∨ run.status = .stopping) ∧
      es = [.remember { run with
        status := .stopping, aborted := run.aborted.or (some true) }] := by
  obtain ⟨run, hr, hf⟩ := Option.bind_eq_some_iff.mp h
  split_ifs at hf with hs
  exact ⟨run, hr, hs, (Option.some.inj hf).symm⟩

/-- What a start does: its records, and at last the attempt. -/
def Effect.OfStart (i : StartInput) : Effect → Prop
  | .append e => i.continuing = true ∧ e = .resumeAtHandoff
  | .createRunRecord => i.kind = .initial
  | .reserveWorktree id => id = i.plan.attemptId ∧ i.plan.mode = .worktree
  | .reserveSnapshot id =>
    id = i.plan.attemptId ∧ i.plan.mode = .readOnly ∧ i.plan.startAt ≠ none
  | .createAttempt record =>
    record.plan = i.plan ∧ record.attemptId = i.plan.attemptId ∧ record.ordinal = i.ordinal ∧
      record.kind = i.kind
  | .execute run => run = .start i.plan
  | _ => False

theorem checkoutEffects_ofStart {f : RunFiles} {i : StartInput} {checkout : List Effect}
    {id : Option JsString} (h : checkoutEffects f i = some (checkout, id)) :
    ∀ e ∈ checkout, e.OfStart i := by
  intro e he
  unfold checkoutEffects at h
  split at h
  case h_1 =>
    cases h
    cases he
  case h_2 hmode _ =>
    split_ifs at h
    cases h
    rw [List.mem_singleton.mp he]
    exact ⟨rfl, hmode⟩
  case h_3 hmode hstart =>
    split_ifs at h
    cases h
    rw [List.mem_singleton.mp he]
    exact ⟨rfl, hmode, by simp [hstart]⟩
  case h_4 =>
    cases h
    cases he

theorem attemptEffects_ofStart {f : RunFiles} {i : StartInput} {id : Option JsString}
    {record : List Effect} (h : attemptEffects f i id = some record) :
    ∀ e ∈ record, e.OfStart i := by
  intro e he
  unfold attemptEffects at h
  split at h
  case h_1 =>
    split_ifs at h
    cases h
    cases he
  case h_2 =>
    dsimp only at h
    split_ifs at h
    cases h
    rw [List.mem_singleton.mp he]
    exact ⟨rfl, rfl, rfl, rfl⟩

theorem startEffects_ofStart (f : RunFiles) (i : StartInput) :
    ∀ e ∈ startEffects f i, e.OfStart i := by
  intro e he
  unfold startEffects at he
  split at he
  case isTrue => cases he
  case isFalse =>
    rw [List.mem_append, List.mem_append] at he
    rcases he with (he | he) | he
    · split_ifs at he with hcont
      · rw [List.mem_singleton.mp he]
        exact ⟨hcont, rfl⟩
      · cases he
    · split_ifs at he with hkind
      · rw [List.mem_singleton.mp he]
        exact hkind
      · cases he
    · split at he
      case h_1 => cases he
      case h_2 checkout id hc =>
        rcases List.mem_append.mp he with he | he
        · exact checkoutEffects_ofStart hc e he
        · split at he
          case h_1 => cases he
          case h_2 record hrec =>
            rcases List.mem_append.mp he with he | he
            · exact attemptEffects_ofStart hrec e he
            · rw [List.mem_singleton.mp he]
              rfl

end Inversion

/-! ## Runs to look at -/

/-- Digests that are all the same. -/
def sameDigest : Planner := .exact fun _ _ _ _ => ofString "d"

/-- The plan of a run. -/
def planOf (mode : WorkspaceMode) (startAt : Option JsString) : Plan where
  runId := ⟨ofString "run_a1", isRunId_a1⟩
  attemptId := ofString "attempt_a1"
  mode := mode
  startAt := startAt
  limits := ⟨600000, 300000, some 1000, 10, 1, 1⟩

/-- A run on the live checkout. -/
def livePlan : Plan := planOf .readOnly none

/-- The result of an attempt that was stopped with its seat. -/
def stoppedResult (workspace : CleanupOutcome) : RunResult where
  runId := ofString "run_a1"
  status := .interrupted
  output := none
  structuredOutput := none
  usage := emptyUsage
  usageComplete := false
  runtimeMs := 2000
  failure := some ⟨.seatInterruption, .service, .resume, ofString "stopped", ofString "resume",
    none⟩
  sandboxCleanup := .proved
  workspaceCleanup := workspace
  truncated := false

/-- An attempt that was stopped with its seat. -/
def stopped (workspace : CleanupOutcome) : AttemptExecutionResult :=
  ⟨stoppedResult workspace, [], some (ofString "session"), none, none, some (ofString "stopped")⟩

/-- A launch, an attempt, and the shutdown of its seat. -/
def untilStopped (workspace : CleanupOutcome) : List RunAct :=
  [.launch 0 5, .begin 0, .sandboxStarted 0 none, .sessionStarted 0, .shutdown 0,
    .finish 0 (stopped workspace) 5, .settle 0 none]

/-- The result of an attempt that failed and may be retried. -/
def failedResult (workspace : CleanupOutcome) : RunResult :=
  { stoppedResult workspace with
    status := .failed
    usage := { emptyUsage with totalTokens := 10 }
    failure := some ⟨.tool, .tool, .manual, ofString "failed", ofString "retry", none⟩ }

/-- An attempt that failed and may be retried. -/
def failed (workspace : CleanupOutcome) : AttemptExecutionResult :=
  ⟨failedResult workspace, [], some (ofString "session"), none, none, some (ofString "failed")⟩

/-- A launch, and an attempt that fails. -/
def untilFailed (workspace : CleanupOutcome) : List RunAct :=
  [.launch 0 5, .begin 0, .sandboxStarted 0 none, .sessionStarted 0,
    .finish 0 (failed workspace) 5, .settle 0 none]

/-- A sandbox whose process is gone. -/
def gone (session : SessionEvidence) : Observation where
  process := fun _ => .absent
  terminated := .absent
  snapshotsRemoved := true
  worktree := fun _ => .absent
  session := session

/-- The identity of a sandbox. -/
def sandboxIdentity : ProcessIdentity := ⟨7, 1000, ofString "c"⟩

/-- A launch, an attempt that is lost with its seat, and the next start-up. -/
def untilLost : List RunAct :=
  [.launch 0 5, .begin 0, .sandboxStarted 0 (some sandboxIdentity), .die 0, .open 0 none 5]

end RunLife

end PiSubagent
