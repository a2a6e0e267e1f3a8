import PiSubagent.Service.RunInvariants

/-!
# Attempts in flight

* `ActiveRun.Rests`: what a seat remembers of a run fits together: an attempt in flight is active or
  stopping, and the status of a settled one is that of its result.
* **`disciplined_step`**: it always does, and a seat with an attempt in flight holds the run's
  lease.
-/

namespace PiSubagent

open JsonText

namespace RunLife

open Cuts
open RunState (setSeat perform kill)

variable {D : Planner} {s t : RunState}

/-! ## What a seat remembers -/

/-- The promise of the attempt is not settled. -/
def Flight.inFlight : Flight → Bool
  | .settled => false
  | _ => true

/-- The run is active, or stopping after its signal was aborted, and has no result yet. -/
def ActiveRun.InFlight (run : ActiveRun) : Prop :=
  run.result = none ∧
    (run.status = .active ∧ run.aborted = none ∨ run.status = .stopping ∧ run.aborted ≠ none)

/-- What a seat remembers of a run fits together. -/
def ActiveRun.Rests (run : ActiveRun) : Prop :=
  match run.flight with
  | .settled =>
    match run.result with
    | some r => run.status = r.result.status ∧ r.result.status.isResultStatus = true
    | none => run.status = .cleanupBlocked
  | .ended execution => run.InFlight ∧ mayEnd run execution = true
  | _ => run.InFlight

/-- A seat with an attempt in flight holds the run's lease, and what a seat remembers fits. -/
structure RunState.Disciplined (s : RunState) : Prop where
  busy : ∀ seat, ∀ run ∈ s.seats seat, run.flight.inFlight = true → s.lease = some seat
  rests : ∀ seat, ∀ run ∈ s.seats seat, run.Rests

theorem ActiveRun.rests_start (plan : Plan) : (ActiveRun.start plan).Rests :=
  ⟨rfl, Or.inl ⟨rfl, rfl⟩⟩

theorem ActiveRun.rests_settle (run : ActiveRun) {execution : AttemptExecutionResult}
    (h : execution.result.status.isResultStatus = true) : (run.settle execution).Rests :=
  ⟨rfl, h⟩

theorem ActiveRun.Rests.inFlight {run : ActiveRun} (h : run.Rests)
    (hf : run.flight.inFlight = true) : run.InFlight := by
  unfold ActiveRun.Rests at h
  split at h
  case h_1 hs =>
    rw [hs] at hf
    cases hf
  case h_2 => exact h.1
  case h_3 => exact h

/-- A run that is neither active nor stopping has no attempt in flight. -/
theorem ActiveRun.Rests.not_inFlight {run : ActiveRun} (h : run.Rests) (h1 : run.status ≠ .active)
    (h2 : run.status ≠ .stopping) : run.flight.inFlight = false := by
  by_contra hf
  rw [Bool.not_eq_false] at hf
  rcases (h.inFlight hf).2 with ⟨hs, -⟩ | ⟨hs, -⟩
  · exact h1 hs
  · exact h2 hs

theorem ActiveRun.Rests.status_eq {run : ActiveRun} {r : AttemptExecutionResult} (h : run.Rests)
    (hr : run.result = some r) : run.status = r.result.status := by
  unfold ActiveRun.Rests at h
  split at h
  case h_1 =>
    rw [hr] at h
    exact h.1
  case h_2 => exact absurd (hr.symm.trans h.1.1) (by simp)
  case h_3 => exact absurd (hr.symm.trans h.1) (by simp)

theorem ActiveRun.Rests.status_blocked {run : ActiveRun} (h : run.Rests)
    (hf : run.flight.inFlight = false) (hr : run.result = none) : run.status = .cleanupBlocked := by
  unfold ActiveRun.Rests at h
  cases hfl : run.flight with
  | settled =>
    rw [hfl, hr] at h
    exact h
  | _ =>
    rw [hfl] at hf
    cases hf

theorem isResultStatus_of_valid {r : RunResult} (h : isRunResult r = true) :
    r.status.isResultStatus = true :=
  ((RunResult.check_iff r).mp (check_of_isRunResult h)).2.1

/-- A signal that has been aborted stays so. -/
theorem mayEnd_abort {run : ActiveRun} {execution : AttemptExecutionResult} (shutdown : Bool)
    (h : mayEnd run execution = true) :
    mayEnd { run with status := .stopping, aborted := run.aborted.or (some shutdown) }
      execution = true := by
  unfold mayEnd at h ⊢
  rw [Bool.and_eq_true] at h ⊢
  refine ⟨h.1, ?_⟩
  have h2 := h.2
  split at h2 <;> simp_all

theorem ActiveRun.Rests.abort {run : ActiveRun} (h : run.Rests)
    (hs : run.status = .active ∨ run.status = .stopping) (shutdown : Bool) :
    ({ run with status := .stopping, aborted := run.aborted.or (some shutdown) } :
      ActiveRun).Rests := by
  have hf : ∀ (r : Option AttemptExecutionResult), r = none →
      ({ run with status := .stopping, aborted := run.aborted.or (some shutdown) } :
        ActiveRun).result = r →
      ({ run with status := .stopping, aborted := run.aborted.or (some shutdown) } :
        ActiveRun).InFlight := by
    rintro r rfl hr
    exact ⟨hr, Or.inr ⟨rfl, by simp⟩⟩
  unfold ActiveRun.Rests at h ⊢
  cases hfl : run.flight with
  | settled =>
    rw [hfl] at h
    dsimp only at h
    split at h
    · obtain ⟨h1, h2⟩ := h
      rw [← h1] at h2
      rcases hs with hs | hs <;> simp [hs, RunStatus.isResultStatus] at h2
    · rcases hs with hs | hs <;> simp [hs] at h
  | ended execution =>
    rw [hfl] at h
    exact ⟨hf _ h.1.1 rfl, mayEnd_abort shutdown h.2⟩
  | running b =>
    rw [hfl] at h
    exact hf _ h.1 rfl
  | rejected =>
    rw [hfl] at h
    exact hf _ h.1 rfl

/-! ## Effects -/

/-- The effect is on the files alone. -/
def Effect.onFiles : Effect → Bool
  | .remember _ | .execute _ | .settleLease => false
  | _ => true

theorem perform_onFiles (s : RunState) (seat : ℕ) {e : Effect} (h : e.onFiles = true) :
    (s.perform seat e).seats = s.seats ∧ (s.perform seat e).lease = s.lease ∧
      (s.perform seat e).executed = s.executed := by
  cases e with
  | remember run | execute run | settleLease => cases h
  | _ => exact ⟨rfl, rfl, rfl⟩

theorem Disciplined.onFiles {seat : ℕ} {e : Effect} (hs : s.Disciplined) (h : e.onFiles = true) :
    (s.perform seat e).Disciplined := by
  obtain ⟨h1, h2, -⟩ := perform_onFiles s seat h
  refine ⟨?_, ?_⟩
  · rw [h1, h2]
    exact hs.busy
  · rw [h1]
    exact hs.rests

theorem Disciplined.remember {seat : ℕ} {run : ActiveRun} (hs : s.Disciplined) (hr : run.Rests)
    (hl : run.flight.inFlight = true → s.lease = some seat) :
    (s.perform seat (.remember run)).Disciplined := by
  constructor
  · intro n run' hn hf
    simp only [perform, setSeat] at hn ⊢
    split_ifs at hn with he
    · cases hn
      rw [he]
      exact hl hf
    · exact hs.busy n run' hn hf
  · intro n run' hn
    simp only [perform, setSeat] at hn
    split_ifs at hn
    · cases hn
      exact hr
    · exact hs.rests n run' hn

theorem Disciplined.execute {seat : ℕ} {run : ActiveRun} (hs : s.Disciplined) (hr : run.Rests)
    (hl : s.lease = none ∨ s.lease = some seat) : (s.perform seat (.execute run)).Disciplined := by
  constructor
  · intro n run' hn hf
    simp only [perform, setSeat] at hn ⊢
    split_ifs at hn with he
    · rw [he]
    · have hlease := hs.busy n run' hn hf
      rcases hl with hl | hl
      · rw [hl] at hlease
        cases hlease
      · rw [hl] at hlease
        exact hlease
  · intro n run' hn
    simp only [perform, setSeat] at hn
    split_ifs at hn
    · cases hn
      exact hr
    · exact hs.rests n run' hn

theorem Disciplined.settleLease {seat : ℕ} (hs : s.Disciplined)
    (hl : ∀ run ∈ s.seats seat, run.flight.inFlight = false) :
    (s.perform seat .settleLease).Disciplined := by
  simp only [perform]
  split_ifs with hc
  · refine ⟨?_, hs.rests⟩
    intro n run hn hf
    have hlease := hs.busy n run hn hf
    rw [hc.1] at hlease
    obtain rfl := Option.some.inj hlease
    rw [hl run hn] at hf
    cases hf
  · exact hs

theorem Disciplined.kill {seat : ℕ} (hs : s.Disciplined) : (s.kill seat).Disciplined := by
  constructor
  · intro n run hn hf
    simp only [RunState.kill, setSeat] at hn ⊢
    split_ifs at hn with he
    · cases hn
    · have hlease := hs.busy n run hn hf
      rw [hlease, if_neg (by simpa using he)]
  · intro n run hn
    simp only [RunState.kill, setSeat] at hn
    split_ifs at hn
    · cases hn
    · exact hs.rests n run hn

theorem Disciplined.append {seat : ℕ} {f es : List Effect} (hf : ∀ e ∈ f, e.onFiles = true)
    (hs : s.Disciplined) (h : ∀ u : RunState, u.Disciplined → u.seats = s.seats →
      u.lease = s.lease → AllCuts (perform seat) RunState.Disciplined es u) :
    AllCuts (perform seat) RunState.Disciplined (f ++ es) s := by
  rw [allCuts_append]
  have hfold : ∀ (gs : List Effect) (u : RunState), (∀ e ∈ gs, e.onFiles = true) →
      u.Disciplined → (gs.foldl (perform seat) u).Disciplined ∧
        (gs.foldl (perform seat) u).seats = u.seats ∧
        (gs.foldl (perform seat) u).lease = u.lease := by
    intro gs
    induction gs with
    | nil => exact fun u _ hu => ⟨hu, rfl, rfl⟩
    | cons e gs ih =>
      intro u hg hu
      have he := hg e List.mem_cons_self
      obtain ⟨h1, h2, -⟩ := perform_onFiles u seat he
      obtain ⟨i1, i2, i3⟩ := ih (u.perform seat e)
        (fun e' h' => hg e' (List.mem_cons_of_mem _ h')) (Disciplined.onFiles hu he)
      exact ⟨i1, i2.trans h1, i3.trans h2⟩
  refine ⟨AllCuts.of_preserved hs ?_, ?_⟩
  · intro u e he hu
    exact Disciplined.onFiles hu (hf e he)
  · obtain ⟨h1, h2, h3⟩ := hfold f s hf hs
    exact h _ h1 h2 h3

/-- A run that is remembered with its result, and its lease with it. -/
theorem Disciplined.settled {seat : ℕ} {run : ActiveRun} (hs : s.Disciplined) (hr : run.Rests)
    (hf : run.flight.inFlight = false) :
    AllCuts (perform seat) RunState.Disciplined [.remember run, .settleLease] s := by
  have h1 : (s.perform seat (.remember run)).Disciplined :=
    Disciplined.remember hs hr (fun h => absurd (hf.symm.trans h) (by decide))
  have h2 : ((s.perform seat (.remember run)).perform seat .settleLease).Disciplined := by
    refine Disciplined.settleLease h1 ?_
    intro run' hn
    simp only [perform, setSeat, if_true] at hn
    cases hn
    exact hf
  exact ⟨hs, h1, h2⟩

/-! ## Operations -/

theorem disciplined_start {seat : ℕ} {f : RunFiles} {i : StartInput} (hs : s.Disciplined)
    (hl : s.lease = none) : AllCuts (perform seat) RunState.Disciplined (startEffects f i) s := by
  have hall : AllCuts (perform seat)
      (fun u => u.Disciplined ∧ (u.lease = none ∨ u.lease = some seat)) (startEffects f i) s := by
    refine AllCuts.of_preserved ⟨hs, Or.inl hl⟩ ?_
    rintro u e he ⟨hu, hlease⟩
    have ho := startEffects_ofStart f i e he
    cases e with
    | execute run =>
      cases ho
      exact ⟨Disciplined.execute hu (ActiveRun.rests_start i.plan) hlease, Or.inr rfl⟩
    | remember run | settleLease => exact ho.elim
    | _ => exact ⟨Disciplined.onFiles hu rfl, hlease⟩
  exact hall.mono fun u hu => hu.1

/-- One run is remembered otherwise, and stays in flight or settles. -/
theorem disciplined_remember {seat : ℕ} {run run' : ActiveRun} (hs : s.Disciplined)
    (hrun : s.seats seat = some run) (hr : run'.Rests)
    (hf : run'.flight.inFlight = true → run.flight.inFlight = true) :
    AllCuts (perform seat) RunState.Disciplined [.remember run'] s :=
  ⟨hs, Disciplined.remember hs hr fun h => hs.busy seat run hrun (hf h)⟩

theorem disciplined_reconcile {seat : ℕ} {o : Observation} {es : List Effect} (hs : s.Disciplined)
    (h : reconcileEffects s seat o = some es) :
    AllCuts (perform seat) RunState.Disciplined es s := by
  obtain ⟨run, hr, -, -, -, rfl⟩ := reconcileEffects_cases h
  refine Disciplined.append ?_ hs ?_
  · intro e he
    unfold snapshotEffects at he
    split_ifs at he
    · rw [List.mem_singleton.mp he]
      rfl
    · cases he
  · intro u hu _ _
    split
    case h_1 => exact hu
    case h_2 execution hx =>
      have hstatus := isResultStatus_of_valid (reconcileExecution_cases hx).1
      have h1 : (u.perform seat (.append (if execution.result.status = .abandoned then
          .runAbandoned execution.result else .runReconciled execution.result.status))).Disciplined :=
        Disciplined.onFiles hu rfl
      have h2 : (RunState.perform seat _ (.writeSnapshot execution)).Disciplined :=
        Disciplined.onFiles h1 rfl
      exact ⟨hu, h1, Disciplined.settled h2 (run.rests_settle hstatus) rfl⟩

theorem disciplined_release {seat : ℕ} {released : Bool} {es : List Effect} (hs : s.Disciplined)
    (h : releaseEffects s seat released = some es) :
    AllCuts (perform seat) RunState.Disciplined es s := by
  obtain ⟨run, hr, ⟨h1, h2, -⟩, -, -, -, hes⟩ := releaseEffects_cases h
  have hflight := (hs.rests seat run hr).not_inFlight h1 h2
  split at hes
  case h_1 =>
    subst hes
    refine ⟨hs, Disciplined.onFiles hs rfl, Disciplined.settleLease (Disciplined.onFiles hs rfl) ?_⟩
    intro run' hn
    have hrun : s.seats seat = some run' := hn
    rw [hr] at hrun
    cases hrun
    exact hflight
  case h_2 memory hres =>
    split at hes
    case h_1 =>
      subst hes
      exact hs
    case h_2 next hx =>
      subst hes
      have hstatus := isResultStatus_of_valid (releaseExecution_cases hx).1
      refine Disciplined.append (f := [.append .runReleased, .writeSnapshot next]) ?_ hs ?_
      · simp [Effect.onFiles]
      · intro v hv _ _
        exact Disciplined.settled hv (run.rests_settle hstatus) rfl

theorem disciplined_abandon {seat : ℕ} {released : Bool} {es : List Effect} (hs : s.Disciplined)
    (h : abandonEffects s seat released = some es) :
    AllCuts (perform seat) RunState.Disciplined es s := by
  obtain ⟨run, memory, hr, -, -, -, -, -, rfl⟩ := abandonEffects_cases h
  refine AllCuts.of_preserved hs ?_
  intro u e he hu
  have hsettle : ∀ execution : AttemptExecutionResult,
      execution.result.status.isResultStatus = true →
        (u.perform seat (.remember (run.settle execution))).Disciplined := by
    intro execution hx
    exact Disciplined.remember hu (run.rests_settle hx) (fun hf => by cases hf)
  simp only [List.mem_append, List.mem_cons, List.not_mem_nil, or_false] at he
  rcases he with (rfl | rfl) | he
  · exact Disciplined.onFiles hu rfl
  · exact hsettle _ rfl
  · split_ifs at he
    · rcases List.mem_pair.mp he with rfl | rfl
      · exact Disciplined.onFiles hu rfl
      · exact hsettle _ rfl
    · simp only [List.mem_cons, List.not_mem_nil, or_false] at he
      rcases he with rfl | rfl | rfl
      · exact Disciplined.onFiles hu rfl
      · exact hsettle _ rfl
      · exact Disciplined.onFiles hu rfl
    · cases he

theorem recovered_check (f : RunFiles) : f.recovered.1.check = true := by
  cases hp : abandonmentPending f.events with
  | true =>
    unfold RunFiles.recovered
    rw [if_pos hp]
    exact pendingResult_check f
  | false => exact check_of_isRunResult (recovered_valid hp)

theorem disciplined_open {seat : ℕ} {handoff : Option WorktreeRecord} {es : List Effect}
    (hs : s.Disciplined) (h : openEffects s seat handoff = some es) :
    AllCuts (perform seat) RunState.Disciplined es s := by
  obtain ⟨-, -, -, rfl⟩ := openEffects_cases h
  refine Disciplined.append ?_ hs ?_
  · intro e he
    split at he
    case h_1 => rcases List.mem_pair.mp he with rfl | rfl <;> rfl
    case h_2 => cases he
  · intro u hu _ _
    refine ⟨hu, Disciplined.remember hu ⟨rfl, ?_⟩ (fun hf => by cases hf)⟩
    rw [recoveredExecution_result]
    exact ((RunResult.check_iff _).mp (recovered_check s.files)).2.1

theorem effects_disciplined {a : RunAct} {es : List Effect} (hs : s.Disciplined)
    (h : s.effects D a = some es) : AllCuts (perform a.seat) RunState.Disciplined es s := by
  cases a with
  | launch seat cut | launchUndone seat cut =>
    obtain ⟨-, hl, rfl⟩ := launchEffects_cases h
    exact disciplined_start hs hl
  | retry seat cut | retryUndone seat cut =>
    obtain ⟨run, latest, r, plan, -, -, -, -, -, -, hl, -, rfl⟩ := retryEffects_cases h
    exact disciplined_start hs hl
  | resume seat continuing cut | resumeUndone seat continuing cut =>
    obtain ⟨run, latest, r, plan, -, -, -, -, -, -, hl, -, rfl⟩ := resumeEffects_cases h
    exact disciplined_start hs hl
  | reconcile seat o cut => exact disciplined_reconcile hs h
  | release seat released cut => exact disciplined_release hs h
  | abandon seat released cut => exact disciplined_abandon hs h
  | «open» seat handoff cut => exact disciplined_open hs h
  | die seat => cases h
  | interrupt seat =>
    obtain ⟨run, hr, hst, rfl⟩ := interruptEffects_cases h
    exact disciplined_remember hs hr ((hs.rests seat run hr).abort (Or.inl hst) false) fun hf => hf
  | shutdown seat =>
    obtain ⟨run, hr, hst, rfl⟩ := shutdownEffects_cases h
    exact disciplined_remember hs hr ((hs.rests seat run hr).abort hst true) fun hf => hf
  | begin seat =>
    obtain ⟨run, hr, hf, rfl⟩ := beginEffects_cases h
    have hin := (hs.rests seat run hr).inFlight (by rw [hf]; rfl)
    refine Disciplined.append (f := [.append _]) (by simp [Effect.onFiles]) hs ?_
    intro u hu hseats _
    refine disciplined_remember hu ((congrFun hseats seat).trans hr) hin ?_
    intro _
    rw [hf]
    rfl
  | sandboxStarted seat _ | sessionStarted seat | usageCheckpoint seat _ _ =>
    obtain ⟨run, e, -, -, -, rfl⟩ := noteEffects_cases (fun _ => rfl) h
    exact ⟨hs, Disciplined.onFiles hs rfl⟩
  | finish seat execution cut =>
    obtain ⟨run, hr, hf, hm, rfl⟩ := finishEffects_cases h
    have hin := (hs.rests seat run hr).inFlight (by rw [hf]; rfl)
    have hfiles : finishEffects run execution =
        ((if run.plan.mode = .readOnly ∧ execution.result.workspaceCleanup = .proved then
            [.removeSnapshot run.plan.attemptId] else []) ++
          [.append (if execution.result.status = .completed then .attemptCompleted execution
              else .attemptFailed execution), .writeSnapshot execution]) ++
          [.remember { run with flight := .ended execution }] := by
      unfold finishEffects
      rw [List.append_assoc]
      rfl
    rw [hfiles]
    refine Disciplined.append ?_ hs ?_
    · intro e he
      rcases List.mem_append.mp he with he | he
      · split_ifs at he
        · rw [List.mem_singleton.mp he]
          rfl
        · cases he
      · rcases List.mem_pair.mp he with rfl | rfl <;> rfl
    · intro u hu hseats _
      refine disciplined_remember hu ((congrFun hseats seat).trans hr) ⟨hin, hm⟩ ?_
      intro _
      rw [hf]
      rfl
  | reject seat =>
    obtain ⟨run, b, hr, hf, rfl⟩ := rejectEffects_cases h
    have hin := (hs.rests seat run hr).inFlight (by rw [hf]; rfl)
    refine disciplined_remember hs hr hin ?_
    intro _
    rw [hf]
    rfl
  | settle seat handoff =>
    obtain ⟨run, execution, hr, hf, rfl⟩ := settleEffects_cases h
    have hrest := hs.rests seat run hr
    unfold ActiveRun.Rests at hrest
    rw [hf] at hrest
    have hstatus : (carried run execution handoff).result.status.isResultStatus = true := by
      have hm := hrest.2
      unfold mayEnd at hm
      simp only [Bool.and_eq_true] at hm
      unfold carried
      split_ifs <;> exact isResultStatus_of_valid hm.1.1
    refine Disciplined.append (f := [.writeSnapshot _]) (by simp [Effect.onFiles]) hs ?_
    intro u hu _ _
    exact Disciplined.settled hu (run.rests_settle hstatus) rfl
  | settleBlocked seat =>
    obtain ⟨run, hr, hf, rfl⟩ := settleBlockedEffects_cases h
    have hin : run.InFlight := by
      refine (hs.rests seat run hr).inFlight ?_
      rcases hf with ⟨execution, hf⟩ | hf
      · rw [hf]
        rfl
      · rw [hf]
        rfl
    refine disciplined_remember hs hr ?_ (fun hf => by cases hf)
    simp [ActiveRun.Rests, hin.1]

theorem disciplined_step {a : RunAct} (hs : s.Disciplined) (h : s.step D a = some t) :
    t.Disciplined :=
  RunState.step_allCuts h (fun _ _ => Disciplined.kill hs)
    (fun _ _ hu => Disciplined.onFiles hu rfl) fun _ he => effects_disciplined hs he

theorem disciplined_freshRun (plan : Plan) : (freshRun plan).Disciplined :=
  ⟨by simp [freshRun], by simp [freshRun]⟩

end RunLife

end PiSubagent
