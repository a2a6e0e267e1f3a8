import PiSubagent.Sandbox.Gondolin

/-!
# The machines a creation starts

* `SandboxOutcomes.leavesVm`: a machine is started, the creation is rejected, and nothing shows that
  the machine has ended.
* **`createGondolinAttemptSandbox_spec`**: a creation that is rejected leaves such a machine exactly
  when its outcomes say so; one that resolves leaves none but the attempt's.
* `closeStartedVm_spec`: what a close shows.
-/

namespace PiSubagent

open JsonText Prog

/-- A VM that nothing can show to run has no process. -/
def VmState.Sound (v : VmState) : Prop := v.mayRun = false → v.process = false

theorem VmState.idle_sound : VmState.idle.Sound := fun _ => rfl

variable (o : SandboxOutcomes)

/-! ## Closing -/

/-- The close number `n` does not show that a VM with or without a process has ended. -/
def SandboxOutcomes.unproved (n : ℕ) (process : Bool) : Bool :=
  !(o.close n).resolves.isOk || (process && (o.close n).retained)

theorem releaseCheckpoint_frame {P : SandboxState → Prop}
    (h : ∀ s c n, P s → P { s with checkpoint := c, checkpointReleases := n }) :
    Triple P (releaseCheckpoint o) (fun _ => P) (fun _ => P) := by
  intro s hs
  unfold releaseCheckpoint
  rw [exec_bind, exec_get]
  dsimp only
  rw [exec_bind, exec_set]
  dsimp only
  rw [exec_bind, exec_liftExcept]
  cases o.checkpointRelease s.checkpointReleases with
  | error e => exact h s s.checkpoint _ hs
  | ok _ => exact h s false _ hs

theorem releaseCapacity_frame {P : SandboxState → Prop}
    (h : ∀ s c n, P s → P { s with slot := c, capacityReleases := n }) :
    Triple P (releaseCapacity o) (fun _ => P) (fun _ => P) := by
  intro s hs
  unfold releaseCapacity
  rw [exec_bind, exec_get]
  dsimp only
  rw [exec_bind, exec_set]
  dsimp only
  rw [exec_liftExcept]
  cases o.capacityRelease s.capacityReleases with
  | error e => exact h s false _ hs
  | ok _ => exact h s false _ hs

theorem unlockWarmup_spec {P : SandboxState → Prop} (h : ∀ s l, P s → P { s with lock := l }) :
    Triple P (unlockWarmup o) (fun _ s => o.unlock.isOk = true ∧ P s)
      (fun _ s => o.unlock.isOk = false ∧ P s) := by
  intro s hs
  unfold unlockWarmup
  rw [exec_bind, exec_liftExcept]
  cases o.unlock with
  | error e => exact ⟨rfl, hs⟩
  | ok _ => exact ⟨rfl, h s false hs⟩

theorem unlockWarmup_frame {P : SandboxState → Prop} (h : ∀ s l, P s → P { s with lock := l }) :
    Triple P (unlockWarmup o) (fun _ => P) (fun _ => P) :=
  (unlockWarmup_spec o h).weaken (fun _ hs => hs) (fun _ _ hs => hs.2) fun _ _ hs => hs.2

/-- A program that does not touch what an assertion says, whatever it does. -/
theorem liftExcept_frame {α : Type} {P : SandboxState → Prop} (r : Outcome α) :
    Triple P (liftExcept r : SandboxM α) (fun _ => P) (fun _ => P) :=
  Triple.liftExcept (fun _ _ _ h => h) fun _ _ _ h => h

/-- The releases after a proved close. -/
def releaseAll (checkpoint : Bool) : SandboxM Unit := do
  when checkpoint (releaseCheckpoint o)
  releaseCapacity o

theorem releaseAll_frame (checkpoint : Bool) (w v : VmState) :
    Triple (fun s => s.warmup = w ∧ s.attempt = v) (releaseAll o checkpoint)
      (fun _ s => s.warmup = w ∧ s.attempt = v) (fun _ s => s.warmup = w ∧ s.attempt = v) :=
  Triple.bind (Triple.when (fun _ => releaseCheckpoint_frame o fun _ _ _ h => h) fun _ _ h => h)
    fun _ => releaseCapacity_frame o fun _ _ _ h => h

/-- **What a close shows**: it resolves only when the VM is seen without a process; otherwise the VM
is shown to have ended unless this close and every one before it failed to. -/
theorem closeStartedVm_spec (checkpoint : Bool) (w v : VmState) (n : ℕ) (hv : v.started = true) :
    Triple (fun s => s.warmup = w ∧ s.attempt = v ∧ s.closes = n) (closeStartedVm o checkpoint)
      (fun _ s => s.warmup = w ∧ s.attempt = ⟨true, false, true⟩ ∧ o.unproved n v.process = false)
      (fun _ s => s.warmup = w ∧ ((s.attempt = ⟨true, false, true⟩ ∧ o.unproved n v.process = false) ∨
        (s.attempt = ⟨true, v.process && (o.close n).retained, v.proved⟩ ∧
          o.unproved n v.process = true))) := by
  rintro s ⟨hw, ha, hn⟩
  unfold closeStartedVm closeVm
  rw [exec_bind, exec_bind, exec_get]
  dsimp only
  rw [exec_bind, exec_set]
  dsimp only
  rw [exec_liftExcept, ha, hn, hv]
  cases hr : (o.close n).resolves with
  | error e =>
    refine ⟨hw, Or.inr ⟨rfl, ?_⟩⟩
    rw [SandboxOutcomes.unproved, hr]
    rfl
  | ok u =>
    dsimp only
    rw [exec_bind, exec_get]
    dsimp only
    by_cases hp : (v.process && (o.close n).retained) = true
    · rw [if_pos hp]
      refine ⟨hw, Or.inr ⟨rfl, ?_⟩⟩
      rw [SandboxOutcomes.unproved, hp, Bool.or_true]
    · rw [if_neg hp]
      rw [Bool.not_eq_true] at hp
      have hu : o.unproved n v.process = false := by
        rw [SandboxOutcomes.unproved, hr, hp]
        rfl
      have hend : Triple (fun s => s.warmup = w ∧ s.attempt = ⟨true, false, true⟩)
          (releaseAll o checkpoint)
          (fun _ s => s.warmup = w ∧ s.attempt = ⟨true, false, true⟩ ∧ o.unproved n v.process = false)
          (fun _ s => s.warmup = w ∧
            ((s.attempt = ⟨true, false, true⟩ ∧ o.unproved n v.process = false) ∨
              (s.attempt = ⟨true, v.process && (o.close n).retained, v.proved⟩ ∧
                o.unproved n v.process = true))) :=
        (releaseAll_frame o checkpoint w ⟨true, false, true⟩).weaken (fun _ h => h)
          (fun _ _ h => ⟨h.1, h.2, hu⟩) fun _ _ h => ⟨h.1, Or.inl ⟨h.2, hu⟩⟩
      rw [exec_bind, proveClosed, exec_modify]
      refine hend _ ⟨hw, ?_⟩
      dsimp only
      rw [hp]

/-! ## The paths of a creation -/

/-- The warm boot a creation goes on with once it has its slot. -/
def SandboxOutcomes.prepared : Option WarmBoot :=
  match planSandbox o with
  | .error _ => none
  | .ok (bound, _) =>
    match prepareWarmBoot o.warm bound with
    | .error _ => none
    | .ok warm => if o.acquire.isOk then some warm else none

/-- What the warm-up reports once its VM has been closed. -/
def WarmupVmOutcomes.report (v : WarmupVmOutcomes) : Outcome (Option WarmupFailureCode) :=
  match v.install?.2, v.abortedAfterClose with
  | some reason, _ => .error reason
  | none, some reason => .error reason
  | none, none =>
    .ok (if v.install?.1.isNone && !v.checkpoint.isOk then some .checkpointFailed
      else v.install?.1)

/-- The warm-up VM is created and keeps a host PID after its close. -/
def WarmupVmOutcomes.leftRunning (v : WarmupVmOutcomes) : Bool := v.create.isOk && v.retained

/-- Whether a checkpoint is leased after a warm-up that goes through. -/
def SandboxOutcomes.published (w : WarmOutcomes) (warm : WarmBoot) : Option Bool :=
  if !w.temporaryPath.isOk || o.warmupVm.leftRunning then none
  else
    match o.warmupVm.report with
    | .error _ => none
    | .ok (some _) => if w.recordFailure.isOk then some warm.leased else none
    | .ok none =>
      if w.publish.isOk && w.evict.isOk then
        match w.leaseAfterWarmup with
        | .error _ => none
        | .ok leased => some (leased || warm.leased)
      else none

/-- Whether a checkpoint is leased when the creation has passed the warm-up. -/
def SandboxOutcomes.pastWarmup (warm : WarmBoot) : Option Bool :=
  match o.warm with
  | some w =>
    if warm.locked then if o.unlock.isOk then o.published w warm else none
    else some warm.leased
  | none => some warm.leased

/-- The creation runs a warm-up and leaves its VM running. -/
def SandboxOutcomes.warmupLeft (warm : WarmBoot) : Bool :=
  match o.warm with
  | some w => warm.locked && w.temporaryPath.isOk && o.warmupVm.leftRunning
  | none => false

/-- Whether a checkpoint is leased when the creation has checked its build. -/
def SandboxOutcomes.pastCheck (leased : Bool) : Option Bool :=
  match o.warm with
  | some w =>
    if !leased || o.checkpointBuildId = .ok (some w.guestAssetBuildId) then some leased
    else if (o.checkpointRelease 0).isOk then some false
    else none
  | none => some leased

/-- The attempt's VM is created. -/
def SandboxOutcomes.vmCreated (leased : Bool) : Bool :=
  if leased then o.resume.isOk || ((o.checkpointRelease 0).isOk && o.create.isOk)
  else o.create.isOk

/-- A created VM does not become ready. -/
def SandboxOutcomes.startFails : Bool :=
  !(o.start.isOk && o.spawned && o.identity.isOk && o.bind.isOk && o.tools.isOk)

/-- The attempt's VM is started, does not become ready, and its close shows nothing. -/
def SandboxOutcomes.startLeft (leased : Bool) : Bool :=
  o.vmCreated leased && o.startFails && o.unproved 0 o.spawned

/-- **A machine is started, the creation is rejected, and nothing shows that the machine has
ended.** -/
def SandboxOutcomes.leavesVm : Bool :=
  o.prepared.any fun warm =>
    o.warmupLeft warm || ((o.pastWarmup warm).bind o.pastCheck).any o.startLeft

/-! ## The steps of a creation -/

/-- Before the attempt's VM is started. -/
def SandboxState.Before (s : SandboxState) : Prop :=
  s.attempt = .idle ∧ s.closes = 0 ∧ s.checkpointReleases = 0

/-- The warm-up VM was not started, or has been seen to end. -/
def SandboxState.WarmupEnded (s : SandboxState) : Prop :=
  s.warmup.mayRun = false ∧ s.warmup.Sound

/-- The machines after a rejected creation: the warm-up VM was left or not. -/
def SandboxState.Rejected (left : Bool) (s : SandboxState) : Prop :=
  s.attempt = .idle ∧ s.warmup.mayRun = left ∧ s.warmup.Sound

theorem warmup_closed (retained : Bool) :
    (⟨true, retained, !retained⟩ : VmState).mayRun = retained ∧
      (⟨true, retained, !retained⟩ : VmState).Sound := by
  cases retained
  · exact ⟨rfl, fun _ => rfl⟩
  · exact ⟨rfl, fun h => Bool.noConfusion h⟩

/-- The warm-up VM is closed, whatever happens before. -/
theorem exec_runWarmup (v : WarmupVmOutcomes) (s : SandboxState) :
    exec (runWarmup v) s =
      (if v.leftRunning then .error warmupCleanupError else v.report,
        if v.create.isOk then { s with warmup := ⟨true, v.retained, !v.retained⟩ } else s) := by
  unfold runWarmup WarmupVmOutcomes.leftRunning WarmupVmOutcomes.report
  cases hc : v.create.isOk
  · simp only [when, Bool.false_and, Bool.false_eq_true, if_false, exec_bind, exec_pure]
    rcases hi : v.install? with ⟨failure, cancelled⟩
    cases cancelled <;> cases v.abortedAfterClose <;> simp
  · cases hr : v.retained
    · simp only [when, Bool.and_false, Bool.false_eq_true, if_false, if_true, exec_bind, exec_pure,
        exec_modify]
      rcases hi : v.install? with ⟨failure, cancelled⟩
      cases cancelled <;> cases v.abortedAfterClose <;> simp
    · simp [when, exec_bind]

/-- A warm-up VM that is left running is one whose close kept a host PID. -/
theorem runWarmup_state (v : WarmupVmOutcomes) {s : SandboxState} (hw : s.warmup = .idle)
    (hb : s.Before) {t : SandboxState}
    (ht : (if v.create.isOk then { s with warmup := ⟨true, v.retained, !v.retained⟩ } else s) = t) :
    t.Before ∧ t.warmup.mayRun = v.leftRunning ∧ t.warmup.Sound := by
  subst ht
  unfold WarmupVmOutcomes.leftRunning
  cases v.create.isOk with
  | true => exact ⟨hb, warmup_closed v.retained⟩
  | false =>
    rw [if_neg Bool.false_ne_true, hw]
    exact ⟨hb, rfl, VmState.idle_sound⟩

theorem warmUpAndPublish_spec (w : WarmOutcomes) (warm : WarmBoot) :
    Triple (fun s => s.warmup = .idle ∧ s.Before) (warmUpAndPublish o w warm)
      (fun warm' s => o.published w warm = some warm'.leased ∧
        (w.temporaryPath.isOk && o.warmupVm.leftRunning) = false ∧ s.WarmupEnded ∧ s.Before)
      (fun _ s => o.published w warm = none ∧
        s.Rejected (w.temporaryPath.isOk && o.warmupVm.leftRunning)) := by
  rintro s ⟨hw, hb⟩
  unfold warmUpAndPublish SandboxOutcomes.published
  rw [exec_bind, exec_liftExcept]
  cases ht : w.temporaryPath with
  | error e =>
    refine ⟨rfl, hb.1, ?_⟩
    rw [hw]
    exact ⟨rfl, VmState.idle_sound⟩
  | ok u =>
    dsimp only
    rw [exec_bind, exec_runWarmup]
    generalize hs : (if o.warmupVm.create.isOk then
      { s with warmup := ⟨true, o.warmupVm.retained, !o.warmupVm.retained⟩ } else s) = t
    have hst := runWarmup_state o.warmupVm hw hb hs
    cases hl : o.warmupVm.leftRunning with
    | true =>
      rw [hl] at hst
      exact ⟨rfl, hst.1.1, hst.2⟩
    | false =>
      rw [hl] at hst
      have hended : t.WarmupEnded := hst.2
      have hr : t.Rejected false := ⟨hst.1.1, hst.2⟩
      rw [if_neg Bool.false_ne_true]
      cases o.warmupVm.report with
      | error e => exact ⟨rfl, hr⟩
      | ok failure =>
        cases failure with
        | some code =>
          dsimp only
          rw [exec_bind, exec_liftExcept]
          cases w.recordFailure with
          | error e => exact ⟨rfl, hr⟩
          | ok _ => exact ⟨rfl, rfl, hended, hst.1⟩
        | none =>
          dsimp only
          rw [exec_bind, exec_liftExcept]
          cases w.publish with
          | error e => exact ⟨rfl, hr⟩
          | ok _ =>
            dsimp only
            rw [exec_bind, exec_liftExcept]
            cases w.evict with
            | error e => exact ⟨rfl, hr⟩
            | ok _ =>
              dsimp only
              rw [exec_bind, exec_liftExcept]
              cases w.leaseAfterWarmup with
              | error e => exact ⟨rfl, hr⟩
              | ok leased =>
                cases leased with
                | true => exact ⟨rfl, rfl, hended, hst.1⟩
                | false => exact ⟨rfl, rfl, hended, hst.1⟩

theorem abandonWarmup_spec (left : Bool) (error : Thrown) :
    Triple (fun s => s.Rejected left) (abandonWarmup o error) (fun _ _ => False)
      (fun _ s => s.Rejected left) := by
  apply Triple.bind (unlockWarmup_frame o fun _ _ h => h)
  intro _
  split_ifs with hk
  · exact Triple.throw fun _ h => h
  · apply Triple.bind (releaseCapacity_frame o fun _ _ _ h => h)
    intro _
    cases o.abortedAfterWarmup with
    | some reason => exact Triple.throw fun _ h => h
    | none => exact Triple.throw fun _ h => h

/-- **A warm-up leaves its VM running exactly when its close keeps a host PID**, and then the
creation is rejected. -/
theorem maybeWarmUp_spec (warm : WarmBoot) :
    Triple (fun s => s.warmup = .idle ∧ s.Before) (maybeWarmUp o warm)
      (fun warm' s => o.pastWarmup warm = some warm'.leased ∧ o.warmupLeft warm = false ∧
        s.WarmupEnded ∧ s.Before)
      (fun _ s => o.pastWarmup warm = none ∧ s.Rejected (o.warmupLeft warm)) := by
  unfold maybeWarmUp SandboxOutcomes.pastWarmup SandboxOutcomes.warmupLeft
  have hskip : ∀ s : SandboxState, s.warmup = .idle → s.WarmupEnded := by
    intro s hs
    rw [SandboxState.WarmupEnded, hs]
    exact ⟨rfl, VmState.idle_sound⟩
  cases o.warm with
  | none => exact Triple.pure fun s h => ⟨rfl, rfl, hskip s h.1, h.2⟩
  | some w =>
    cases hl : warm.locked with
    | false => exact Triple.pure fun s h => ⟨rfl, rfl, hskip s h.1, h.2⟩
    | true =>
      have hcatch : Triple (fun s => s.warmup = .idle ∧ s.Before)
          (tryCatch (warmUpAndPublish o w warm) (abandonWarmup o))
          (fun warm' s => o.published w warm = some warm'.leased ∧
            (w.temporaryPath.isOk && o.warmupVm.leftRunning) = false ∧ s.WarmupEnded ∧ s.Before)
          (fun _ s => o.published w warm = none ∧
            s.Rejected (w.temporaryPath.isOk && o.warmupVm.leftRunning)) := by
        apply Triple.tryCatch (warmUpAndPublish_spec o w warm)
        intro e
        apply Triple.of_pre
        intro hp
        exact (abandonWarmup_spec o _ e).weaken (fun _ h => h) (fun _ _ h => h.elim)
          fun _ _ h => ⟨hp, h⟩
      refine Triple.bind (hcatch.weaken (fun _ h => h) (fun _ _ h => h) ?_) ?_
      · intro e s h
        refine ⟨?_, h.2⟩
        simp only [if_true, h.1]
        split_ifs <;> rfl
      · intro warm'
        apply Triple.of_pre
        intro hp
        apply Triple.of_pre
        intro hl
        refine Triple.bind ((unlockWarmup_spec o fun _ _ h => h).weaken (fun _ h => h)
          (fun _ _ h => h) ?_) ?_
        · intro e s h
          refine ⟨?_, h.2.2.1, ?_⟩
          · simp only [if_true, h.1, Bool.false_eq_true, if_false]
          · simp only [Bool.true_and, hl]
            exact h.2.1
        · intro _
          apply Triple.of_pre
          intro hu
          refine Triple.pure fun s h => ⟨?_, ?_, h⟩
          · simp only [if_true, hu, hp]
          · simp only [Bool.true_and, hl]

theorem acquireSlot_spec (warm : WarmBoot) :
    Triple (fun s => s.warmup = .idle ∧ s.Before) (acquireSlot o warm)
      (fun _ s => o.acquire.isOk = true ∧ s.warmup = .idle ∧ s.Before)
      (fun _ s => o.acquire.isOk = false ∧ s.Rejected false) := by
  intro s hs
  have hrej : ∀ s : SandboxState, s.warmup = .idle ∧ s.attempt = .idle → s.Rejected false := by
    rintro s ⟨hw, ha⟩
    refine ⟨ha, ?_⟩
    rw [hw]
    exact ⟨rfl, VmState.idle_sound⟩
  unfold acquireSlot
  rw [exec_tryCatch, exec_bind, exec_liftExcept]
  cases o.acquire with
  | ok _ => exact ⟨rfl, hs⟩
  | error e =>
    have hback : Triple (fun s => s.warmup = .idle ∧ s.attempt = .idle)
        (do
          when warm.locked (unlockWarmup o)
          when warm.leased (releaseCheckpoint o)
          throw e : SandboxM Unit)
        (fun _ s => (Except.error e : Outcome Unit).isOk = true ∧ s.warmup = .idle ∧ s.Before)
        (fun _ s => (Except.error e : Outcome Unit).isOk = false ∧ s.Rejected false) := by
      refine Triple.bind (M := fun _ s => s.warmup = .idle ∧ s.attempt = .idle)
        (Triple.when (fun _ => ?_) fun _ _ h => h) fun _ => Triple.bind
        (M := fun _ s => s.warmup = .idle ∧ s.attempt = .idle)
        (Triple.when (fun _ => ?_) fun _ _ h => h) fun _ => Triple.throw fun s h => ⟨rfl, hrej s h⟩
      · exact (unlockWarmup_frame o fun _ _ h => h).weaken (fun _ h => h) (fun _ _ h => h)
          fun _ s h => ⟨rfl, hrej s h⟩
      · exact (releaseCheckpoint_frame o fun _ _ _ h => h).weaken (fun _ h => h) (fun _ _ h => h)
          fun _ s h => ⟨rfl, hrej s h⟩
    exact hback s ⟨hs.1, hs.2.1⟩

theorem exec_releaseCheckpoint (s : SandboxState) :
    exec (releaseCheckpoint o) s =
      match o.checkpointRelease s.checkpointReleases with
      | .ok _ => (.ok (), { s with
          checkpoint := false, checkpointReleases := s.checkpointReleases + 1 })
      | .error e => (.error e, { s with checkpointReleases := s.checkpointReleases + 1 }) := by
  unfold releaseCheckpoint
  rw [exec_bind, exec_get]
  dsimp only
  rw [exec_bind, exec_set]
  dsimp only
  rw [exec_bind, exec_liftExcept]
  cases o.checkpointRelease s.checkpointReleases <;> rfl

/-- Before the attempt's VM is created: while a checkpoint is leased, none has been released. -/
def SandboxState.Leased (leased : Bool) (s : SandboxState) : Prop :=
  s.WarmupEnded ∧ s.attempt = .idle ∧ s.closes = 0 ∧ (leased = true → s.checkpointReleases = 0)

theorem releaseMismatch_spec {s : SandboxState} (warm : WarmBoot) (he : s.WarmupEnded)
    (hb : s.Before) :
    match exec (do releaseCheckpoint o; pure { warm with leased := false } : SandboxM WarmBoot) s with
    | (.ok warm', t) => (o.checkpointRelease 0).isOk = true ∧ warm'.leased = false ∧ t.Leased false
    | (.error _, t) => (o.checkpointRelease 0).isOk = false ∧ t.Rejected false := by
  rw [exec_bind, exec_releaseCheckpoint, hb.2.2]
  cases o.checkpointRelease 0 with
  | error e => exact ⟨rfl, hb.1, he⟩
  | ok _ => exact ⟨rfl, rfl, he, hb.1, hb.2.1, fun h => Bool.noConfusion h⟩

theorem checkCheckpoint_spec (w : WarmOutcomes) (warm : WarmBoot) (hl : warm.leased = true) :
    Triple (fun s => s.WarmupEnded ∧ s.Before) (checkCheckpoint o w warm)
      (fun warm' s => s.Leased warm'.leased ∧
        if o.checkpointBuildId = .ok (some w.guestAssetBuildId) then warm'.leased = true
        else (o.checkpointRelease 0).isOk = true ∧ warm'.leased = false)
      (fun _ s => s.Rejected false ∧ o.checkpointBuildId ≠ .ok (some w.guestAssetBuildId) ∧
        (o.checkpointRelease 0).isOk = false) := by
  rintro s ⟨he, hb⟩
  by_cases hid : o.checkpointBuildId = .ok (some w.guestAssetBuildId)
  · unfold checkCheckpoint
    simp only [hid, ne_eq, not_true_eq_false, decide_false, Bool.and_false, if_false, if_true,
      exec_pure, hl, Bool.false_eq_true]
    exact ⟨⟨he, hb.1, hb.2.1, fun _ => hb.2.2⟩, trivial⟩
  · have hback : ∃ warm₁ : WarmBoot, (checkCheckpoint o w warm : SandboxM WarmBoot) =
        (do releaseCheckpoint o; pure { warm₁ with leased := false }) := by
      unfold checkCheckpoint
      cases hc : o.checkpointBuildId with
      | error e => exact ⟨_, rfl⟩
      | ok id =>
        have hne : id ≠ some w.guestAssetBuildId := fun h => hid (by rw [hc, h])
        dsimp only
        rw [if_pos hne]
        exact ⟨_, rfl⟩
    obtain ⟨warm₁, hw⟩ := hback
    have hrelease := releaseMismatch_spec o warm₁ he hb
    rw [hw]
    simp only [hid, if_false]
    revert hrelease
    rcases exec (do releaseCheckpoint o; pure { warm₁ with leased := false } : SandboxM WarmBoot) s
      with ⟨e | warm', t⟩ <;> intro hrelease
    · exact ⟨hrelease.2, hid, hrelease.1⟩
    · exact ⟨hrelease.2.1 ▸ hrelease.2.2, hrelease.1, hrelease.2.1⟩

theorem maybeCheckCheckpoint_spec (warm : WarmBoot) :
    Triple (fun s => s.WarmupEnded ∧ s.Before) (maybeCheckCheckpoint o warm)
      (fun warm' s => o.pastCheck warm.leased = some warm'.leased ∧ s.Leased warm'.leased)
      (fun _ s => o.pastCheck warm.leased = none ∧ s.Rejected false) := by
  rintro s ⟨he, hb⟩
  have hkeep : s.Leased warm.leased := ⟨he, hb.1, hb.2.1, fun _ => hb.2.2⟩
  unfold maybeCheckCheckpoint SandboxOutcomes.pastCheck
  cases o.warm with
  | none => exact ⟨rfl, hkeep⟩
  | some w =>
    cases hl : warm.leased with
    | false =>
      rw [hl] at hkeep
      refine ⟨?_, hl ▸ hkeep⟩
      rw [hl]
      rfl
    | true =>
      have hspec := checkCheckpoint_spec o w warm hl
      simp only [if_true, Bool.not_true, Bool.false_or, decide_eq_true_eq]
      rcases hx : exec (checkCheckpoint o w warm) s with ⟨e | warm', t⟩
      · have hcheck := hspec.error ⟨he, hb⟩ hx
        rw [if_neg hcheck.2.1, if_neg (by rw [hcheck.2.2]; exact Bool.false_ne_true)]
        exact ⟨rfl, hcheck.1⟩
      · have hcheck := hspec.ok ⟨he, hb⟩ hx
        refine ⟨?_, hcheck.1⟩
        by_cases hid : o.checkpointBuildId = .ok (some w.guestAssetBuildId)
        · have h := hcheck.2
          rw [if_pos hid] at h
          rw [if_pos hid, h]
        · have h := hcheck.2
          rw [if_neg hid] at h
          rw [if_neg hid, if_pos h.1, h.2]

/-- Once the attempt's VM is created: it was not started yet. -/
def SandboxState.Created (s : SandboxState) : Prop :=
  s.WarmupEnded ∧ s.attempt = .idle ∧ s.closes = 0

theorem createVm_spec (warm : WarmBoot) :
    Triple (fun s => s.Leased warm.leased) (createVm o warm)
      (fun _ s => o.vmCreated warm.leased = true ∧ s.Created)
      (fun _ s => o.vmCreated warm.leased = false ∧ s.Rejected false) := by
  rintro s ⟨he, ha, hc, hr⟩
  unfold createVm SandboxOutcomes.vmCreated
  cases hl : warm.leased with
  | false =>
    simp only [Bool.false_eq_true, if_false]
    rw [exec_bind, exec_liftExcept]
    cases o.create with
    | error e => exact ⟨rfl, ha, he⟩
    | ok _ => exact ⟨rfl, he, ha, hc⟩
  | true =>
    simp only [if_true]
    cases o.resume with
    | ok _ => exact ⟨rfl, he, ha, hc⟩
    | error e =>
      dsimp only
      rw [exec_bind, exec_releaseCheckpoint, hr hl]
      cases o.checkpointRelease 0 with
      | error e => exact ⟨rfl, ha, he⟩
      | ok _ =>
        dsimp only
        rw [exec_bind, exec_liftExcept]
        cases o.create with
        | error e => exact ⟨rfl, ha, he⟩
        | ok _ => exact ⟨rfl, he, ha, hc⟩

theorem abandonVm_spec : Triple (fun s => s.Rejected false) (abandonVm o) (fun _ _ => False)
    (fun _ s => s.Rejected false) := by
  apply Triple.get
  intro s₀
  refine Triple.bind (M := fun _ s => s.Rejected false)
    (Triple.when (fun _ => ?_) fun _ _ h => h.1) fun _ => ?_
  · exact (releaseCheckpoint_frame o fun _ _ _ h => h).weaken (fun _ h => h.1) (fun _ _ h => h)
      fun _ _ h => h
  · exact Triple.bind (releaseCapacity_frame o fun _ _ _ h => h) fun _ => Triple.throw fun _ h => h

/-- While the attempt's VM starts, and once it has. -/
def SandboxState.Running (s : SandboxState) : Prop :=
  s.WarmupEnded ∧ s.attempt = ⟨true, o.spawned, false⟩ ∧ s.closes = 0

theorem startVm_spec (warm : WarmBoot) :
    Triple SandboxState.Created (startVm o warm) (fun _ s => o.startFails = false ∧ s.Running o)
      (fun _ s => o.startFails = true ∧ s.Running o) := by
  rintro s ⟨he, -, hc⟩
  have hrun : SandboxState.Running o { s with attempt := ⟨true, o.spawned, false⟩ } :=
    ⟨he, rfl, hc⟩
  unfold startVm SandboxOutcomes.startFails
  rw [exec_bind, exec_modify]
  dsimp only
  rw [exec_bind, exec_liftExcept]
  cases o.start with
  | error e => exact ⟨rfl, hrun⟩
  | ok _ =>
    dsimp only
    rw [exec_bind, when]
    cases hs : o.spawned with
    | false =>
      rw [hs] at hrun
      exact ⟨rfl, hrun⟩
    | true =>
      rw [hs] at hrun
      rw [Bool.not_true, if_neg Bool.false_ne_true, exec_pure]
      dsimp only
      rw [exec_bind, exec_liftExcept]
      cases o.identity with
      | error e => exact ⟨rfl, hrun⟩
      | ok _ =>
        dsimp only
        rw [exec_bind, exec_liftExcept]
        cases o.bind with
        | error e => exact ⟨rfl, hrun⟩
        | ok _ =>
          dsimp only
          rw [exec_bind, exec_liftExcept]
          cases o.tools with
          | error e => exact ⟨rfl, hrun⟩
          | ok _ => exact ⟨rfl, hrun⟩

/-- **A VM that did not become ready is left running exactly when its close shows nothing.** -/
theorem abandonStart_spec (warm : WarmBoot) (memory : JsString) (error : Thrown) :
    Triple (SandboxState.Running o) (abandonStart o warm memory error) (fun _ _ => False)
      (fun _ s => s.WarmupEnded ∧ s.attempt.mayRun = o.unproved 0 o.spawned ∧ s.attempt.Sound) := by
  rintro s ⟨he, ha, hc⟩
  have hclose := closeStartedVm_spec o warm.leased s.warmup ⟨true, o.spawned, false⟩ 0 rfl
  have hend : ∀ t : SandboxState, t.warmup = s.warmup → t.WarmupEnded := by
    intro t ht
    rw [SandboxState.WarmupEnded, ht]
    exact he
  unfold abandonStart
  rw [exec_bind, exec_tryCatch]
  rcases hx : exec (closeStartedVm o warm.leased) s with ⟨e | u, t⟩
  · obtain ⟨hw, ⟨ht, hu⟩ | ⟨ht, hu⟩⟩ := hclose.error ⟨rfl, ha, hc⟩ hx
    · refine ⟨hend t hw, ?_, ?_⟩
      · rw [ht, hu]
        rfl
      · rw [ht]
        exact fun _ => rfl
    · refine ⟨hend t hw, ?_, ?_⟩
      · rw [ht, hu]
        rfl
      · rw [ht]
        exact fun h => Bool.noConfusion h
  · obtain ⟨hw, ht, hu⟩ := hclose.ok ⟨rfl, ha, hc⟩ hx
    refine ⟨hend t hw, ?_, ?_⟩
    · rw [ht, hu]
      rfl
    · rw [ht]
      exact fun _ => rfl

/-! ## A whole creation -/

/-- Nothing shows that every VM has ended. -/
def SandboxState.mayRun (s : SandboxState) : Bool := s.warmup.mayRun || s.attempt.mayRun

theorem startOrAbandon_spec (warm : WarmBoot) (memory : JsString) :
    Triple SandboxState.Created (tryCatch (startVm o warm) (abandonStart o warm memory))
      (fun _ s => o.startFails = false ∧ s.Running o)
      (fun _ s => s.mayRun = (o.startFails && o.unproved 0 o.spawned) ∧ s.warmup.Sound ∧
        s.attempt.Sound) := by
  apply Triple.tryCatch (startVm_spec o warm)
  intro e
  apply Triple.of_pre
  intro hf
  refine (abandonStart_spec o warm memory e).weaken (fun _ h => h) (fun _ _ h => h.elim) ?_
  rintro _ s ⟨he, hm, hs⟩
  refine ⟨?_, he.2, hs⟩
  rw [SandboxState.mayRun, he.1, hm, hf]
  rfl

theorem Rejected.mayRun {left : Bool} {s : SandboxState} (h : s.Rejected left) :
    s.mayRun = left ∧ s.warmup.Sound ∧ s.attempt.Sound := by
  refine ⟨?_, h.2.2, ?_⟩
  · rw [SandboxState.mayRun, h.1, h.2.1]
    exact Bool.or_false left
  · rw [h.1]
    exact VmState.idle_sound

theorem createAndStart_spec (warm : WarmBoot) (memory : JsString) :
    Triple (fun s => s.Leased warm.leased)
      (do
        let warm ← tryCatch (createVm o warm) fun _ => abandonVm o
        tryCatch (startVm o warm) (abandonStart o warm memory))
      (fun _ s => o.startLeft warm.leased = false ∧ s.Running o)
      (fun _ s => s.mayRun = o.startLeft warm.leased ∧ s.warmup.Sound ∧ s.attempt.Sound) := by
  have hcreate : Triple (fun s => s.Leased warm.leased)
      (tryCatch (createVm o warm) fun _ => abandonVm o)
      (fun _ s => o.vmCreated warm.leased = true ∧ s.Created)
      (fun _ s => o.vmCreated warm.leased = false ∧ s.Rejected false) := by
    apply Triple.tryCatch (createVm_spec o warm)
    intro e
    apply Triple.of_pre
    intro hv
    exact (abandonVm_spec o).weaken (fun _ h => h) (fun _ _ h => h.elim) fun _ _ h => ⟨hv, h⟩
  unfold SandboxOutcomes.startLeft
  refine Triple.bind (hcreate.weaken (fun _ h => h) (fun _ _ h => h) ?_) fun warm' => ?_
  · rintro _ s ⟨hv, hr⟩
    rw [hv]
    exact Rejected.mayRun hr
  · apply Triple.of_pre
    intro hv
    refine (startOrAbandon_spec o warm' memory).weaken (fun _ h => h) ?_ ?_
    · rintro _ s ⟨hf, hr⟩
      refine ⟨?_, hr⟩
      rw [hf, Bool.and_false, Bool.false_and]
    · rintro _ s ⟨hm, hs⟩
      refine ⟨?_, hs⟩
      rw [hm, hv, Bool.true_and]

theorem boot_spec (warm : WarmBoot) (memory : JsString) :
    Triple (fun s => s.warmup = .idle ∧ s.Before)
      (do
        acquireSlot o warm
        let warm ← maybeWarmUp o warm
        let warm ← maybeCheckCheckpoint o warm
        let warm ← tryCatch (createVm o warm) fun _ => abandonVm o
        tryCatch (startVm o warm) (abandonStart o warm memory))
      (fun _ s => (o.acquire.isOk && (o.warmupLeft warm ||
          ((o.pastWarmup warm).bind o.pastCheck).any o.startLeft)) = false ∧ s.Running o)
      (fun _ s => s.mayRun = (o.acquire.isOk && (o.warmupLeft warm ||
          ((o.pastWarmup warm).bind o.pastCheck).any o.startLeft)) ∧ s.warmup.Sound ∧
        s.attempt.Sound) := by
  refine Triple.bind ((acquireSlot_spec o warm).weaken (fun _ h => h) (fun _ _ h => h) ?_)
    fun _ => ?_
  · rintro _ s ⟨hq, hr⟩
    rw [hq]
    exact Rejected.mayRun hr
  apply Triple.of_pre
  intro hq
  simp only [hq, Bool.true_and]
  refine Triple.bind ((maybeWarmUp_spec o warm).weaken (fun _ h => h) (fun _ _ h => h) ?_)
    fun warm₁ => ?_
  · rintro _ s ⟨hp, hr⟩
    rw [hp, Option.bind_none, Option.any_none, Bool.or_false]
    exact Rejected.mayRun hr
  apply Triple.of_pre
  intro hp
  apply Triple.of_pre
  intro hl
  simp only [hp, hl, Option.bind_some, Bool.false_or]
  refine Triple.bind ((maybeCheckCheckpoint_spec o warm₁).weaken (fun _ h => h) (fun _ _ h => h) ?_)
    fun warm₂ => ?_
  · rintro _ s ⟨hp, hr⟩
    rw [hp, Option.any_none]
    exact Rejected.mayRun hr
  apply Triple.of_pre
  intro hc
  simp only [hc, Option.any_some]
  exact createAndStart_spec o warm₂ memory

/-- **A rejected creation leaves a VM exactly when its outcomes say so**; one that resolves has ended
its warm-up VM and started the attempt's. -/
theorem createGondolinAttemptSandbox_spec :
    Triple (fun s => s.warmup = .idle ∧ s.Before) (createGondolinAttemptSandbox o)
      (fun _ s => o.leavesVm = false ∧ s.Running o)
      (fun _ s => s.mayRun = o.leavesVm ∧ s.warmup.Sound ∧ s.attempt.Sound) := by
  have hrej : ∀ s : SandboxState, s.warmup = .idle ∧ s.Before →
      s.mayRun = false ∧ s.warmup.Sound ∧ s.attempt.Sound := by
    rintro s ⟨hw, hb⟩
    refine Rejected.mayRun ⟨hb.1, ?_⟩
    rw [hw]
    exact ⟨rfl, VmState.idle_sound⟩
  unfold createGondolinAttemptSandbox SandboxOutcomes.leavesVm SandboxOutcomes.prepared
  intro s hs
  rw [exec_bind, exec_liftExcept]
  cases planSandbox o with
  | error e => exact hrej s hs
  | ok plan =>
    obtain ⟨bound, memory⟩ := plan
    dsimp only
    rw [exec_bind, exec_liftExcept]
    cases prepareWarmBoot o.warm bound with
    | error e => exact hrej s hs
    | ok warm =>
      dsimp only
      rw [exec_bind, exec_modify]
      have hif : ((if o.acquire.isOk = true then some warm else none).any fun warm =>
          o.warmupLeft warm || ((o.pastWarmup warm).bind o.pastCheck).any o.startLeft) =
          (o.acquire.isOk && (o.warmupLeft warm ||
            ((o.pastWarmup warm).bind o.pastCheck).any o.startLeft)) := by
        cases o.acquire.isOk <;> rfl
      rw [hif]
      exact boot_spec o warm memory _ hs

end PiSubagent
