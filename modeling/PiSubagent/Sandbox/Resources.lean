import PiSubagent.Sandbox.StartedVms

/-!
# What a sandbox holds

The VM slot, the lock of a warm-up and the lease of a checkpoint, through a creation and the closes
after it.

* `SandboxOutcomes.Outside`: what code outside can answer.
* `SandboxState.Conserved`: the slot is held while a started VM was not seen to end, the checkpoint
  while the VM that boots on it was not, and the lock is not held.
* `closeAttempt`: the calls of `close` on a sandbox.
* **`sandboxResources`**: a creation that is rejected, and one that resolves with every close after
  it, conserve what they took.
-/

namespace PiSubagent

open JsonText Prog

/-- The error, if there is one, was not made by the module itself. -/
def Outcome.Foreign {α : Type} (r : Outcome α) : Prop :=
  ∀ e, r = .error e → e.kind ≠ .warmupCleanup

/-- The calls of a warm-up do not throw the module's own error. -/
structure WarmOutcomes.Foreign (w : WarmOutcomes) : Prop where
  temporaryPath : Outcome.Foreign w.temporaryPath
  recordFailure : Outcome.Foreign w.recordFailure
  publish : Outcome.Foreign w.publish
  evict : Outcome.Foreign w.evict
  leaseAfterWarmup : Outcome.Foreign w.leaseAfterWarmup

variable (o : SandboxOutcomes)

/-- What code outside can answer: the store drops the errors of its `unlink` calls, and nobody else
has the class of the error of a warm-up VM that was not seen to end. -/
structure SandboxOutcomes.Outside : Prop where
  unlock : o.unlock = .ok ()
  checkpointRelease : ∀ n, o.checkpointRelease n = .ok ()
  warm : ∀ w, o.warm = some w → w.Foreign
  abortedAfterInstall : ∀ e ∈ o.warmupVm.abortedAfterInstall, e.kind ≠ .warmupCleanup
  abortedAfterClose : ∀ e ∈ o.warmupVm.abortedAfterClose, e.kind ≠ .warmupCleanup

/-- The attempt's VM is created on a leased checkpoint. -/
def SandboxOutcomes.bootsWarm : Bool :=
  o.prepared.any fun warm =>
    ((o.pastWarmup warm).bind o.pastCheck).any fun leased => leased && o.resume.isOk

/-- The lock, the checkpoint and the slot are held as said. -/
structure SandboxState.Holds (lock checkpoint slot : Bool) (s : SandboxState) : Prop where
  lock : s.lock = lock
  checkpoint : s.checkpoint = checkpoint
  slot : s.slot = slot
  slots : s.slots = 1
  leases : s.leases ≤ 1

/-- **Nothing is held for longer than it is needed, nor given back before.** -/
structure SandboxState.Conserved (warm : Bool) (s : SandboxState) : Prop where
  lock : s.lock = false
  slot : s.slot = s.mayRun
  checkpoint : s.checkpoint = (s.attempt.mayRun && warm)
  slots : s.slots ≤ 1
  leases : s.leases ≤ 1

/-- A sandbox that was handed out, or is given up after its VM was started: its slot, and its
checkpoint if it has one, are held until a close has shown that the VM ended. -/
structure SandboxState.Serving (warm : Bool) (s : SandboxState) : Prop where
  lock : s.lock = false
  slot : s.slot = !s.attempt.proved
  checkpoint : s.checkpoint = (warm && !s.attempt.proved)
  slots : s.slots = 1
  leases : s.leases ≤ 1
  ended : s.warmup.mayRun = false
  started : s.attempt.started = true

/-- The calls of `close` on a sandbox, one after the other, and whether it is closed by them. -/
def closeAttempt (warm : Bool) : ℕ → SandboxM Bool
  | 0 => pure false
  | n + 1 => closeAttempt warm n >>= fun closed =>
    if closed then pure true
    else tryCatch (do closeStartedVm o warm; pure true) fun _ => pure false

variable {o}

/-! ## Giving back -/

theorem exec_unlockWarmup (h : o.Outside) (s : SandboxState) :
    exec (unlockWarmup o) s = (.ok (), { s with lock := false }) := by
  unfold unlockWarmup
  rw [exec_bind, exec_liftExcept, h.unlock]
  rfl

theorem exec_releaseCapacity (s : SandboxState) :
    exec (releaseCapacity o) s = (o.capacityRelease s.capacityReleases,
      { s with slot := false, capacityReleases := s.capacityReleases + 1 }) := by
  unfold releaseCapacity
  rw [exec_bind, exec_get]
  dsimp only
  rw [exec_bind, exec_set]
  dsimp only
  rw [exec_liftExcept]

theorem unlockWarmup_holds (h : o.Outside) (lock checkpoint slot : Bool) :
    Triple (fun s => s.Holds lock checkpoint slot) (unlockWarmup o)
      (fun _ s => s.Holds false checkpoint slot) (fun _ _ => False) := by
  intro s hs
  rw [exec_unlockWarmup h]
  exact { hs with lock := rfl }

theorem releaseCheckpoint_holds (h : o.Outside) (lock checkpoint slot : Bool) :
    Triple (fun s => s.Holds lock checkpoint slot) (releaseCheckpoint o)
      (fun _ s => s.Holds lock false slot) (fun _ _ => False) := by
  intro s hs
  rw [exec_releaseCheckpoint, h.checkpointRelease]
  exact { hs with checkpoint := rfl }

theorem releaseCapacity_holds (lock checkpoint slot : Bool) :
    Triple (fun s => s.Holds lock checkpoint slot) (releaseCapacity o)
      (fun _ s => s.Holds lock checkpoint false) (fun _ s => s.Holds lock checkpoint false) := by
  intro s hs
  rw [exec_releaseCapacity]
  cases o.capacityRelease s.capacityReleases with
  | error e => exact { hs with slot := rfl }
  | ok _ => exact { hs with slot := rfl }

theorem liftExcept_foreign {α : Type} {r : Outcome α} (hr : Outcome.Foreign r)
    (P : SandboxState → Prop) :
    Triple P (liftExcept r : SandboxM α) (fun _ => P) (fun e s => P s ∧ e.kind ≠ .warmupCleanup) :=
  Triple.liftExcept (fun _ _ _ hs => hs) fun e _ he hs => ⟨hs, hr e he⟩

/-! ## The warm-up -/

theorem install_foreign (h : o.Outside) {reason : Thrown}
    (hi : o.warmupVm.install?.2 = some reason) : reason.kind ≠ .warmupCleanup := by
  apply h.abortedAfterInstall reason
  unfold WarmupVmOutcomes.install? at hi
  split at hi
  · cases hi
  · split at hi
    · cases hi
    · split at hi
      · exact hi
      · split at hi
        · cases hi
        · split at hi
          · cases hi
          · cases hi

theorem report_foreign (h : o.Outside) : Outcome.Foreign o.warmupVm.report := by
  intro e he
  unfold WarmupVmOutcomes.report at he
  cases hi : o.warmupVm.install?.2 with
  | some reason =>
    rw [hi] at he
    cases he
    exact install_foreign h hi
  | none =>
    rw [hi] at he
    cases ha : o.warmupVm.abortedAfterClose with
    | some reason =>
      rw [ha] at he
      cases he
      exact h.abortedAfterClose e ha
    | none =>
      rw [ha] at he
      exact nomatch he

/-- While the warm-up runs: the lock and the slot are held, and no lease was taken. -/
def SandboxState.Warming (s : SandboxState) : Prop := s.Holds true false true ∧ s.leases = 0

/-- A warm-up throws the module's own error exactly when it leaves its VM running. -/
theorem warmUpAndPublish_holds (h : o.Outside) {w : WarmOutcomes} (hw : o.warm = some w)
    (warm : WarmBoot) (hl : warm.leased = false) :
    Triple SandboxState.Warming (warmUpAndPublish o w warm)
      (fun warm' s => s.Holds true warm'.leased true)
      (fun e s => s.Holds true false true ∧
        decide (e.kind = .warmupCleanup) = (w.temporaryPath.isOk && o.warmupVm.leftRunning)) := by
  have hf := h.warm w hw
  unfold warmUpAndPublish
  refine Triple.bind (M := fun _ s => w.temporaryPath.isOk = true ∧ s.Warming)
    (Triple.liftExcept (fun _ _ hp hs => ⟨by rw [hp]; rfl, hs⟩) fun e s hp hs => ?_) fun _ => ?_
  · refine ⟨hs.1, ?_⟩
    rw [decide_eq_false (hf.temporaryPath e hp), hp]
    rfl
  apply Triple.of_pre
  intro hp
  rw [hp, Bool.true_and]
  refine Triple.bind (M := fun _ s => o.warmupVm.leftRunning = false ∧ s.Warming) ?_ fun failure => ?_
  · -- the VM is closed
    intro s hs
    have hclosed : SandboxState.Warming (if o.warmupVm.create.isOk then
        { s with warmup := ⟨true, o.warmupVm.retained, !o.warmupVm.retained⟩ } else s) := by
      split
      · exact ⟨{ hs.1 with }, hs.2⟩
      · exact hs
    rw [exec_runWarmup]
    cases hleft : o.warmupVm.leftRunning with
    | true =>
      rw [if_pos rfl]
      exact ⟨hclosed.1, rfl⟩
    | false =>
      rw [if_neg Bool.false_ne_true]
      cases hr : o.warmupVm.report with
      | error e => exact ⟨hclosed.1, decide_eq_false (report_foreign h e hr)⟩
      | ok failure => exact ⟨rfl, hclosed⟩
  apply Triple.of_pre
  intro hleft
  rw [hleft]
  have hthrow : ∀ {α : Type} {r : Outcome α}, Outcome.Foreign r →
      Triple SandboxState.Warming (liftExcept r : SandboxM α) (fun _ => SandboxState.Warming)
        (fun e s => s.Holds true false true ∧ decide (e.kind = .warmupCleanup) = false) :=
    fun hr => (liftExcept_foreign hr SandboxState.Warming).weaken (fun _ hs => hs)
      (fun _ _ hs => hs) fun _ _ hs => ⟨hs.1.1, decide_eq_false hs.2⟩
  cases failure with
  | some code =>
    refine Triple.bind (hthrow hf.recordFailure) fun _ => Triple.pure fun s hs => ?_
    rw [hl]
    exact hs.1
  | none =>
    refine Triple.bind (hthrow hf.publish) fun _ => Triple.bind (hthrow hf.evict) fun _ =>
      Triple.bind (hthrow hf.leaseAfterWarmup) fun leased => ?_
    cases leased with
    | true =>
      rw [if_pos rfl]
      refine Triple.bind (M := fun _ s => s.Holds true true true)
        (Triple.modify fun s hs => ?_) fun _ => Triple.pure fun s hs => hs
      refine { hs.1 with checkpoint := rfl, leases := ?_ }
      change s.leases + 1 ≤ 1
      rw [hs.2]
    | false =>
      rw [if_neg Bool.false_ne_true]
      refine Triple.pure fun s hs => ?_
      rw [hl]
      exact hs.1

/-- A warm-up that has thrown gives its lock back, and its slot unless its VM may run. -/
theorem abandonWarmup_holds (h : o.Outside) (error : Thrown) :
    Triple (fun s => s.Holds true false true) (abandonWarmup o error) (fun _ _ => False)
      (fun _ s => s.Holds false false (decide (error.kind = .warmupCleanup))) := by
  unfold abandonWarmup
  refine Triple.bind ((unlockWarmup_holds h true false true).weaken (fun _ hs => hs)
    (fun _ _ hs => hs) fun _ _ hs => hs.elim) fun _ => ?_
  split_ifs with hk
  · refine Triple.throw fun s hs => ?_
    rw [decide_eq_true hk]
    exact hs
  · rw [decide_eq_false hk]
    refine Triple.bind (releaseCapacity_holds false false true) fun _ => ?_
    cases o.abortedAfterWarmup with
    | some reason => exact Triple.throw fun _ hs => hs
    | none => exact Triple.throw fun _ hs => hs

/-- A warm boot that holds a lock holds no checkpoint, and is one of a project with checkpoints. -/
structure WarmBoot.Consistent (o : SandboxOutcomes) (warm : WarmBoot) : Prop where
  enabled : o.warm = none → warm.locked = false
  single : warm.locked = true → warm.leased = false

theorem maybeWarmUp_holds (h : o.Outside) (warm : WarmBoot) (hc : warm.Consistent o) :
    Triple (fun s => s.Holds warm.locked warm.leased true ∧ s.leases = warm.leased.toNat)
      (maybeWarmUp o warm)
      (fun warm' s => s.Holds false warm'.leased true)
      (fun _ s => s.Holds false false (o.warmupLeft warm)) := by
  unfold maybeWarmUp SandboxOutcomes.warmupLeft
  cases hw : o.warm with
  | none =>
    refine Triple.pure fun s hs => ?_
    rw [hc.enabled hw] at hs
    exact hs.1
  | some w =>
    dsimp only
    cases hk : warm.locked with
    | false =>
      rw [if_neg Bool.false_ne_true]
      exact Triple.pure fun s hs => hs.1
    | true =>
      have hl := hc.single hk
      rw [if_pos rfl, Bool.true_and]
      unfold warmUp
      refine Triple.bind (M := fun warm' s => s.Holds true warm'.leased true) ?_ fun warm' => ?_
      · refine Triple.tryCatch ((warmUpAndPublish_holds h hw warm hl).weaken (fun s hs => ?_)
          (fun _ _ hs => hs) fun _ _ hs => hs) fun e => ?_
        · rw [hl] at hs
          exact hs
        · intro s hs
          rw [← hs.2]
          exact ((abandonWarmup_holds h e).weaken (fun _ h => h) (fun _ _ h => h.elim)
            fun _ _ h => h) s hs.1
      · exact Triple.bind ((unlockWarmup_holds h true warm'.leased true).weaken (fun _ hs => hs)
          (fun _ _ hs => hs) fun _ _ hs => hs.elim) fun _ => Triple.pure fun _ hs => hs

/-! ## The VM of the attempt -/

theorem acquireSlot_holds (h : o.Outside) (warm : WarmBoot) (n : ℕ) (hn : n ≤ 1) :
    Triple (fun s => s.lock = warm.locked ∧ s.checkpoint = warm.leased ∧ s.slot = false ∧
        s.slots = 0 ∧ s.leases = n)
      (acquireSlot o warm)
      (fun _ s => s.Holds warm.locked warm.leased true ∧ s.leases = n)
      (fun _ s => s.lock = false ∧ s.checkpoint = false ∧ s.slot = false ∧ s.slots = 0 ∧
        s.leases = n) := by
  rintro s ⟨hk, hc, hs, ht, hl⟩
  unfold acquireSlot
  rw [exec_tryCatch, exec_bind, exec_liftExcept]
  cases o.acquire with
  | ok _ => exact ⟨⟨hk, hc, rfl, by change s.slots + 1 = 1; rw [ht], hl.trans_le hn⟩, hl⟩
  | error e =>
    dsimp only
    cases hkw : warm.locked with
    | true =>
      rw [when, if_pos rfl, exec_bind, exec_unlockWarmup h]
      dsimp only
      cases hlw : warm.leased with
      | true =>
        rw [when, if_pos rfl, exec_bind, exec_releaseCheckpoint, h.checkpointRelease]
        exact ⟨rfl, rfl, hs, ht, hl⟩
      | false =>
        rw [when, if_neg Bool.false_ne_true, exec_bind, exec_pure]
        exact ⟨rfl, hc.trans hlw, hs, ht, hl⟩
    | false =>
      rw [when, if_neg Bool.false_ne_true, exec_bind, exec_pure]
      dsimp only
      cases hlw : warm.leased with
      | true =>
        rw [when, if_pos rfl, exec_bind, exec_releaseCheckpoint, h.checkpointRelease]
        exact ⟨hk.trans hkw, rfl, hs, ht, hl⟩
      | false =>
        rw [when, if_neg Bool.false_ne_true, exec_bind, exec_pure]
        exact ⟨hk.trans hkw, hc.trans hlw, hs, ht, hl⟩

theorem maybeCheckCheckpoint_holds (h : o.Outside) (warm : WarmBoot) :
    Triple (fun s => s.Holds false warm.leased true) (maybeCheckCheckpoint o warm)
      (fun warm' s => s.Holds false warm'.leased true) (fun _ _ => False) := by
  unfold maybeCheckCheckpoint
  cases o.warm with
  | none => exact Triple.pure fun _ hs => hs
  | some w =>
    dsimp only
    cases hl : warm.leased with
    | false =>
      rw [if_neg Bool.false_ne_true]
      refine Triple.pure fun s hs => ?_
      rw [hl]
      exact hs
    | true =>
      rw [if_pos rfl]
      have hback : ∀ warm₁ : WarmBoot, Triple (fun s => s.Holds false true true)
          (do releaseCheckpoint o; pure { warm₁ with leased := false } : SandboxM WarmBoot)
          (fun warm' s => s.Holds false warm'.leased true) (fun _ _ => False) := fun warm₁ =>
        Triple.bind (releaseCheckpoint_holds h false true true) fun _ => Triple.pure fun _ hs => hs
      unfold checkCheckpoint
      cases o.checkpointBuildId with
      | error e => exact hback _
      | ok id =>
        dsimp only
        split
        · exact hback _
        · refine Triple.pure fun s hs => ?_
          split
          · rw [hl]
            exact hs
          · rw [hl]
            exact hs

theorem createVm_holds (h : o.Outside) (warm : WarmBoot) :
    Triple (fun s => s.Holds false warm.leased true) (createVm o warm)
      (fun warm' s => warm'.leased = (warm.leased && o.resume.isOk) ∧ s.Holds false warm'.leased true)
      (fun _ s => s.Holds false false true) := by
  have hcreate : ∀ warm₁ : WarmBoot, warm₁.leased = false →
      Triple (fun s => s.Holds false false true)
        (do liftExcept o.create; pure warm₁ : SandboxM WarmBoot)
        (fun warm' s => warm'.leased = false ∧ s.Holds false warm'.leased true)
        (fun _ s => s.Holds false false true) := by
    intro warm₁ hw
    refine Triple.bind (M := fun _ s => s.Holds false false true)
      (Triple.liftExcept (fun _ _ _ hs => hs) fun _ _ _ hs => hs) fun _ => Triple.pure fun s hs => ?_
    rw [hw]
    exact ⟨rfl, hs⟩
  unfold createVm
  cases hl : warm.leased with
  | false => exact hcreate warm hl
  | true =>
    rw [if_pos rfl]
    cases o.resume with
    | ok _ =>
      refine Triple.pure fun s hs => ?_
      rw [hl]
      exact ⟨rfl, hs⟩
    | error e =>
      exact Triple.bind ((releaseCheckpoint_holds h false true true).weaken (fun _ hs => hs)
        (fun _ _ hs => hs) fun _ _ hs => hs.elim) fun _ => hcreate _ rfl

theorem abandonVm_holds :
    Triple (fun s => s.Holds false false true) (abandonVm o) (fun _ _ => False)
      (fun _ s => s.Holds false false false) := by
  apply Triple.get
  intro s₀
  refine Triple.bind (M := fun _ s => s.Holds false false true)
    (Triple.when (fun hc => ?_) fun _ _ hs => hs.1) fun _ => ?_
  · rintro s ⟨hs, rfl⟩
    exact absurd (hs.checkpoint.symm.trans hc) Bool.false_ne_true
  · exact Triple.bind (releaseCapacity_holds false false true) fun _ => Triple.throw fun _ hs => hs

theorem startVm_holds (warm : WarmBoot) :
    Triple (fun s => s.Holds false warm.leased true) (startVm o warm)
      (fun sandbox s => sandbox.leased = warm.leased ∧ s.Holds false warm.leased true)
      (fun _ s => s.Holds false warm.leased true) := by
  have hlift : ∀ {α : Type} (r : Outcome α), Triple (fun s => s.Holds false warm.leased true)
      (liftExcept r : SandboxM α) (fun _ s => s.Holds false warm.leased true)
      (fun _ s => s.Holds false warm.leased true) := fun r => liftExcept_frame r
  unfold startVm
  refine Triple.bind (M := fun _ s => s.Holds false warm.leased true)
    (Triple.modify fun s hs => { hs with }) fun _ => ?_
  refine Triple.bind (hlift _) fun _ => ?_
  refine Triple.bind (M := fun _ s => s.Holds false warm.leased true)
    (Triple.when (fun _ => Triple.throw fun _ hs => hs) fun _ _ hs => hs) fun _ => ?_
  exact Triple.bind (hlift _) fun _ => Triple.bind (hlift _) fun _ => Triple.bind (hlift _) fun _ =>
    Triple.pure fun _ hs => ⟨rfl, hs⟩

/-! ## The closes of a sandbox -/

/-- **A close gives back what the VM holds exactly when it shows that the VM has ended.** -/
theorem closeStartedVm_serving (h : o.Outside) (warm : Bool) :
    Triple (fun s => s.Serving warm) (closeStartedVm o warm)
      (fun _ s => s.Serving warm ∧ s.attempt.proved = true) (fun _ s => s.Serving warm) := by
  intro s hs
  unfold closeStartedVm closeVm
  rw [exec_bind, exec_bind, exec_get]
  dsimp only
  rw [exec_bind, exec_set]
  dsimp only
  rw [exec_liftExcept]
  cases (o.close s.closes).resolves with
  | error e => exact { hs with }
  | ok _ =>
    dsimp only
    rw [exec_bind, exec_get]
    dsimp only
    by_cases hp : (s.attempt.process && (o.close s.closes).retained) = true
    · rw [if_pos hp]
      exact { hs with }
    · rw [if_neg hp, exec_bind, proveClosed, exec_modify]
      dsimp only
      rw [exec_bind, when]
      cases warm with
      | true =>
        rw [if_pos rfl, exec_releaseCheckpoint, h.checkpointRelease]
        dsimp only
        rw [exec_releaseCapacity]
        cases o.capacityRelease _ with
        | error e => exact { hs with slot := rfl, checkpoint := rfl }
        | ok _ => exact ⟨{ hs with slot := rfl, checkpoint := rfl }, rfl⟩
      | false =>
        rw [if_neg Bool.false_ne_true, exec_pure]
        dsimp only
        rw [exec_releaseCapacity]
        cases o.capacityRelease _ with
        | error e => exact { hs with slot := rfl, checkpoint := hs.checkpoint }
        | ok _ => exact ⟨{ hs with slot := rfl, checkpoint := hs.checkpoint }, rfl⟩

/-- **Any number of closes keeps what a sandbox holds until one shows that the VM has ended.** -/
theorem closeAttempt_serving (h : o.Outside) (warm : Bool) (n : ℕ) :
    Triple (fun s => s.Serving warm) (closeAttempt o warm n)
      (fun closed s => s.Serving warm ∧ (closed = true → s.attempt.proved = true))
      (fun _ _ => False) := by
  induction n with
  | zero => exact Triple.pure fun s hs => ⟨hs, fun hc => Bool.noConfusion hc⟩
  | succ n ih =>
    unfold closeAttempt
    refine Triple.bind ih fun closed => ?_
    cases closed with
    | true =>
      rw [if_pos rfl]
      exact Triple.pure fun s hs => hs
    | false =>
      rw [if_neg Bool.false_ne_true]
      refine Triple.tryCatch (E := fun _ s => s.Serving warm) ?_ fun e => ?_
      · exact Triple.bind ((closeStartedVm_serving h warm).weaken (fun _ hs => hs.1)
          (fun _ _ hs => hs) fun _ _ hs => hs) fun _ => Triple.pure fun s hs => ⟨hs.1, fun _ => hs.2⟩
      · exact Triple.pure fun s hs => ⟨hs, fun hc => Bool.noConfusion hc⟩

/-! ## A whole creation -/

theorem SandboxState.Serving.conserved {warm : Bool} {s : SandboxState} (hs : s.Serving warm) :
    s.Conserved warm where
  lock := hs.lock
  slot := by
    rw [hs.slot, SandboxState.mayRun, hs.ended, VmState.mayRun, hs.started]
    rfl
  checkpoint := by
    rw [hs.checkpoint, VmState.mayRun, hs.started, Bool.true_and, Bool.and_comm]
  slots := hs.slots.le
  leases := hs.leases

theorem SandboxState.Rejected.conserved {left : Bool} {s : SandboxState} (hr : s.Rejected left)
    (hh : s.Holds false false left) (warm : Bool) : s.Conserved warm where
  lock := hh.lock
  slot := by rw [hh.slot, (Rejected.mayRun hr).1]
  checkpoint := by
    rw [hh.checkpoint, hr.1]
    rfl
  slots := hh.slots.le
  leases := hh.leases

theorem SandboxState.Running.serving {warm : Bool} {s : SandboxState} (hr : s.Running o)
    (hh : s.Holds false warm true) : s.Serving warm where
  lock := hh.lock
  slot := by
    rw [hh.slot, hr.2.1]
    rfl
  checkpoint := by
    rw [hh.checkpoint, hr.2.1]
    exact (Bool.and_true warm).symm
  slots := hh.slots
  leases := hh.leases
  ended := hr.1.1
  started := by rw [hr.2.1]

theorem createAndStart_resources (h : o.Outside) (warm : WarmBoot) (memory : JsString) :
    Triple (fun s => s.Leased warm.leased ∧ s.Holds false warm.leased true)
      (do
        let warm ← tryCatch (createVm o warm) fun _ => abandonVm o
        tryCatch (startVm o warm) (abandonStart o warm memory))
      (fun sandbox s => sandbox.leased = (warm.leased && o.resume.isOk) ∧
        s.Serving sandbox.leased ∧ s.attempt.proved = false)
      (fun _ s => s.Conserved (warm.leased && o.resume.isOk)) := by
  refine Triple.bind (M := fun warm' s => warm'.leased = (warm.leased && o.resume.isOk) ∧
    s.Created ∧ s.Holds false warm'.leased true) ?_ fun warm' => ?_
  · refine Triple.tryCatch (E := fun _ s => s.Rejected false ∧ s.Holds false false true)
      (((createVm_spec o warm).and (createVm_holds h warm)).weaken
      (fun _ hs => hs) (fun _ s hs => ⟨hs.2.1, hs.1.2, hs.2.2⟩)
      fun _ s hs => ⟨hs.1.2, hs.2⟩) fun e => ?_
    exact ((abandonVm_spec o).and abandonVm_holds).weaken (fun _ hs => hs)
      (fun _ _ hs => hs.1.elim) fun _ _ hs => hs.1.conserved hs.2 _
  · apply Triple.of_pre
    intro hl
    rw [← hl]
    refine Triple.tryCatch (((startVm_spec o warm').and (startVm_holds warm')).weaken
      (fun _ hs => hs) (fun sandbox s hs => ?_) fun _ s hs => hs.1.2.serving hs.2) fun e => ?_
    · have hserving := hs.1.2.serving hs.2.2
      rw [← hs.2.1] at hserving
      refine ⟨hs.2.1, hserving, ?_⟩
      rw [hs.1.2.2.1]
    · refine Triple.bind (M := fun _ s => s.Serving warm'.leased) ?_ fun _ =>
        Triple.throw fun s hs => hs.conserved
      refine Triple.tryCatch ((closeStartedVm_serving h warm'.leased).weaken (fun _ hs => hs)
        (fun _ _ hs => hs.1) fun _ _ hs => hs) fun _ => ?_
      exact Triple.throw fun s hs => hs.conserved

/-- What a warm boot that may be given up leaves behind, from its slot on. -/
theorem boot_resources (h : o.Outside) (warm : WarmBoot) (memory : JsString)
    (hw : warm.Consistent o) :
    Triple (fun s => (s.warmup = .idle ∧ s.Before) ∧ s.lock = warm.locked ∧
        s.checkpoint = warm.leased ∧ s.slot = false ∧ s.slots = 0 ∧ s.leases = warm.leased.toNat)
      (do
        acquireSlot o warm
        let warm ← maybeWarmUp o warm
        let warm ← maybeCheckCheckpoint o warm
        let warm ← tryCatch (createVm o warm) fun _ => abandonVm o
        tryCatch (startVm o warm) (abandonStart o warm memory))
      (fun sandbox s => sandbox.leased = (o.acquire.isOk &&
          ((o.pastWarmup warm).bind o.pastCheck).any fun leased => leased && o.resume.isOk) ∧
        s.Serving sandbox.leased ∧ s.attempt.proved = false)
      (fun _ s => s.Conserved (o.acquire.isOk &&
        ((o.pastWarmup warm).bind o.pastCheck).any fun leased => leased && o.resume.isOk)) := by
  refine Triple.bind (((acquireSlot_spec o warm).and
    (acquireSlot_holds h warm warm.leased.toNat (Bool.toNat_le _))).weaken (fun _ hs => hs)
      (fun _ _ hs => hs) fun _ s hs => ?_) fun _ => ?_
  · obtain ⟨⟨hq, hr⟩, hk, hc, hs, ht, hl⟩ := hs
    refine ⟨hk, ?_, ?_, ht.le.trans zero_le_one, hl.le.trans (Bool.toNat_le _)⟩
    · rw [hs, (Rejected.mayRun hr).1]
    · rw [hc, hr.1]
      rfl
  refine Triple.weaken (P := fun s => o.acquire.isOk = true ∧ (s.warmup = .idle ∧ s.Before) ∧
    s.Holds warm.locked warm.leased true ∧ s.leases = warm.leased.toNat) ?_
    (fun s hs => ⟨hs.1.1, hs.1.2, hs.2⟩) (fun _ _ hs => hs) fun _ _ hs => hs
  apply Triple.of_pre
  intro hq
  simp only [hq, Bool.true_and]
  refine Triple.bind (((maybeWarmUp_spec o warm).and (maybeWarmUp_holds h warm hw)).weaken
    (fun _ hs => hs) (fun _ _ hs => hs) fun _ s hs => hs.1.2.conserved hs.2 _) fun warm₁ => ?_
  refine Triple.weaken (P := fun s => o.pastWarmup warm = some warm₁.leased ∧
    (s.WarmupEnded ∧ s.Before) ∧ s.Holds false warm₁.leased true) ?_
    (fun s hs => ⟨hs.1.1, hs.1.2.2, hs.2⟩) (fun _ _ hs => hs) fun _ _ hs => hs
  apply Triple.of_pre
  intro hp
  simp only [hp, Option.bind_some]
  refine Triple.bind (((maybeCheckCheckpoint_spec o warm₁).and
    (maybeCheckCheckpoint_holds h warm₁)).weaken (fun _ hs => hs) (fun _ _ hs => hs)
      fun _ s hs => hs.2.elim) fun warm₂ => ?_
  refine Triple.weaken (P := fun s => o.pastCheck warm₁.leased = some warm₂.leased ∧
    s.Leased warm₂.leased ∧ s.Holds false warm₂.leased true) ?_
    (fun s hs => ⟨hs.1.1, hs.1.2, hs.2⟩) (fun _ _ hs => hs) fun _ _ hs => hs
  apply Triple.of_pre
  intro hc
  simp only [hc, Option.any_some]
  exact createAndStart_resources h warm₂ memory

theorem prepareWarmBoot_consistent {bound : Bool} {warm : WarmBoot}
    (hp : prepareWarmBoot o.warm bound = .ok warm) : warm.Consistent o := by
  have hcold : ∀ outcome : WarmupOutcome, (WarmBoot.cold outcome).Consistent o := fun _ =>
    ⟨fun _ => rfl, fun _ => rfl⟩
  have hleased : ∀ outcome : WarmupOutcome,
      (⟨outcome, true, false, none⟩ : WarmBoot).Consistent o := fun _ =>
    ⟨fun _ => rfl, fun hl => Bool.noConfusion hl⟩
  unfold prepareWarmBoot at hp
  cases hw : o.warm with
  | none =>
    rw [hw] at hp
    cases hp
    exact hcold _
  | some w =>
    have hlocked : (⟨.created, false, true, none⟩ : WarmBoot).Consistent o :=
      ⟨fun hn => (nomatch hw.symm.trans hn), fun _ => rfl⟩
    rw [hw] at hp
    dsimp only at hp
    simp only [bind, Except.bind] at hp
    repeat' split at hp
    all_goals first
      | cases hp; first | exact hcold _ | exact hleased _ | exact hlocked
      | cases hp

/-- **A creation that is rejected holds the slot, and the checkpoint its VM boots on, exactly when a
started VM was not seen to end; one that resolves holds one slot and the checkpoint of its VM until
a close shows that the VM has ended; and neither keeps the lock.** -/
theorem sandboxResources (h : o.Outside) :
    match exec (createGondolinAttemptSandbox o) .start with
    | (.error _, s) => s.Conserved o.bootsWarm
    | (.ok sandbox, s) =>
      sandbox.leased = o.bootsWarm ∧ s.Serving sandbox.leased ∧ s.attempt.proved = false ∧
        ∀ n, ∃ closed t, exec (closeAttempt o sandbox.leased n) s = (.ok closed, t) ∧
          t.Serving sandbox.leased ∧ (closed = true → t.attempt.proved = true) := by
  have hstart : SandboxState.start.Conserved o.bootsWarm :=
    ⟨rfl, rfl, rfl, zero_le_one, zero_le_one⟩
  have hserve : ∀ (sandbox : AttemptSandbox) (s : SandboxState),
      sandbox.leased = o.bootsWarm ∧ s.Serving sandbox.leased ∧ s.attempt.proved = false →
        sandbox.leased = o.bootsWarm ∧ s.Serving sandbox.leased ∧ s.attempt.proved = false ∧
          ∀ n, ∃ closed t, exec (closeAttempt o sandbox.leased n) s = (.ok closed, t) ∧
            t.Serving sandbox.leased ∧ (closed = true → t.attempt.proved = true) := by
    rintro sandbox s ⟨hl, hs, hp⟩
    refine ⟨hl, hs, hp, fun n => ?_⟩
    have hclose := closeAttempt_serving h sandbox.leased n
    rcases hx : exec (closeAttempt o sandbox.leased n) s with ⟨e | closed, t⟩
    · exact (hclose.error hs hx).elim
    · exact ⟨closed, t, rfl, hclose.ok hs hx⟩
  unfold createGondolinAttemptSandbox
  rw [exec_bind, exec_liftExcept]
  cases hplan : planSandbox o with
  | error e => exact hstart
  | ok plan =>
    obtain ⟨bound, memory⟩ := plan
    dsimp only
    rw [exec_bind, exec_liftExcept]
    cases hp : prepareWarmBoot o.warm bound with
    | error e => exact hstart
    | ok warm =>
      dsimp only
      rw [exec_bind, exec_modify]
      have hwarm : o.bootsWarm = (o.acquire.isOk &&
          ((o.pastWarmup warm).bind o.pastCheck).any fun leased => leased && o.resume.isOk) := by
        unfold SandboxOutcomes.bootsWarm SandboxOutcomes.prepared
        rw [hplan]
        dsimp only
        rw [hp]
        cases o.acquire.isOk <;> rfl
      rw [hwarm] at hserve ⊢
      have hboot := boot_resources h warm memory (prepareWarmBoot_consistent hp)
      have hpre : (SandboxState.start.leases + warm.leased.toNat) = warm.leased.toNat :=
        Nat.zero_add _
      have hend := boot_resources h warm memory (prepareWarmBoot_consistent hp)
        { SandboxState.start with
          lock := warm.locked, checkpoint := warm.leased
          leases := SandboxState.start.leases + warm.leased.toNat }
        ⟨⟨rfl, rfl, rfl, rfl⟩, rfl, rfl, rfl, rfl, hpre⟩
      revert hend
      dsimp only
      generalize exec _ _ = r
      rcases r with ⟨e | sandbox, t⟩
      · exact fun hend => hend
      · exact hserve sandbox t

/-- A sandbox on a checkpoint that is there, whose VM is seen to end by its second close. -/
def warmSandbox : SandboxOutcomes where
  memoryBytes := 512 * 1024 * 1024
  gondolinVersion := ofString "0.14.0"
  workspace := .ok ()
  dependencies := .ok true
  mounts := .ok ()
  warm := some ⟨ofString "build1", .ok none, .ok true, .ok false, .ok false, .ok .timeout, .ok false,
    .ok (), .ok (), .ok (), .ok (), .ok false⟩
  acquire := .ok ()
  unlock := .ok ()
  warmupVm := ⟨.ok (), .ok (), .ok (), .ok true, none, false, .ok (), false, none⟩
  abortedAfterWarmup := none
  checkpointBuildId := .ok (some (ofString "build1"))
  resume := .ok ()
  create := .ok ()
  start := .ok ()
  spawned := true
  identity := .ok ()
  bind := .ok ()
  tools := .ok ()
  vmId := ofString "vm1"
  close := fun n => ⟨.ok (), decide (n = 0)⟩
  checkpointRelease := fun _ => .ok ()
  capacityRelease := fun _ => .ok ()

theorem warmSandbox_outside : warmSandbox.Outside where
  unlock := rfl
  checkpointRelease := fun _ => rfl
  warm := by
    intro w hw
    cases hw
    exact ⟨fun _ h => (nomatch h), fun _ h => (nomatch h), fun _ h => (nomatch h),
      fun _ h => (nomatch h), fun _ h => (nomatch h)⟩
  abortedAfterInstall := fun _ h => (nomatch h)
  abortedAfterClose := fun _ h => (nomatch h)

/-- Its VM boots on the checkpoint, and both are held after the first close and not after the
second. -/
theorem sandboxResources_warm :
    ([0, 1, 2].map fun n =>
      match exec (createGondolinAttemptSandbox warmSandbox) .start with
      | (.error _, s) => (s.slot, s.checkpoint)
      | (.ok sandbox, s) =>
        let t := (exec (closeAttempt warmSandbox sandbox.leased n) s).2
        (t.slot, t.checkpoint)) = [(true, true), (true, true), (false, false)] ∧
      match exec (createGondolinAttemptSandbox warmSandbox) .start with
      | (.error _, s) => s.Conserved warmSandbox.bootsWarm
      | (.ok sandbox, s) =>
        sandbox.leased = warmSandbox.bootsWarm ∧ s.Serving sandbox.leased ∧
          s.attempt.proved = false ∧
          ∀ n, ∃ closed t, exec (closeAttempt warmSandbox sandbox.leased n) s = (.ok closed, t) ∧
            t.Serving sandbox.leased ∧ (closed = true → t.attempt.proved = true) :=
  ⟨by decide +kernel, sandboxResources warmSandbox_outside⟩

end PiSubagent
