import PiSubagent.Lib.Programs
import PiSubagent.Runtime.Failure

/-!
# The sandbox of an attempt

The starts and closes of the virtual machines of one attempt, with every call of code outside
answered by an outcome.

* `SandboxOutcomes`: what every call outside returns or throws.
* `SandboxState`: the two machines (`VmState`) and the resources held for them.
* `closeStartedVm`, `prepareWarmBoot`, `runWarmup`, `createGondolinAttemptSandbox`.
-/

namespace PiSubagent

open JsonText Prog

/-- What a call of code outside ends with. -/
abbrev Outcome (α : Type) := Except Thrown α

/-- `new GondolinSandboxError(message)`. -/
def sandboxError (message : String) : Thrown :=
  ⟨.sandbox, ofString "GondolinSandboxError", ofString message⟩

/-- `new WarmupCleanupError()`. -/
def warmupCleanupError : Thrown :=
  ⟨.warmupCleanup, ofString "GondolinSandboxError", ofString "warm-up VM cleanup was not proved"⟩

/-- `error instanceof GondolinSandboxError`. -/
def Thrown.isSandboxError (e : Thrown) : Bool := e.kind = .sandbox ∨ e.kind = .warmupCleanup

/-! ## Outcomes -/

/-- `WarmupOutcome`. -/
inductive WarmupOutcome where
  | reused | created | waited | failed | failedRecently | waitTimeout | abandoned | buildMismatch
  | resumeFailed | disabled | noLockfile | unsupportedLockfile | unreadableLockfile
  | noDependencyDirectory
deriving DecidableEq, Repr

/-- `WarmupFailureCode`. -/
inductive WarmupFailureCode where
  | bootFailed | bindFailed | installFailed | timeout | checkpointFailed | resumeFailed
deriving DecidableEq, Repr

/-- How a wait for another warm-up ends. -/
inductive Waited where
  | ready | failed | abandoned | timeout
deriving DecidableEq, Repr

/-- Why a project has no warm-up. -/
inductive SkipReason where
  | noLockfile | unsupportedLockfile | unreadableLockfile
deriving DecidableEq, Repr

/-- The outcome that names the reason. -/
def SkipReason.outcome : SkipReason → WarmupOutcome
  | .noLockfile => .noLockfile
  | .unsupportedLockfile => .unsupportedLockfile
  | .unreadableLockfile => .unreadableLockfile

/-- The calls on the checkpoint store, given warm checkpoints are enabled. -/
structure WarmOutcomes where
  guestAssetBuildId : JsString
  /-- `detectWarmProject`: why the project is skipped, if it is. -/
  project : Outcome (Option SkipReason)
  /-- `store.lease`, before any warm-up. -/
  lease : Outcome Bool
  failedRecently : Outcome Bool
  tryLock : Outcome Bool
  waitFor : Outcome Waited
  leaseAfterWait : Outcome Bool
  temporaryPath : Outcome Unit
  recordFailure : Outcome Unit
  publish : Outcome Unit
  evict : Outcome Unit
  leaseAfterWarmup : Outcome Bool

/-- The calls on the warm-up VM. -/
structure WarmupVmOutcomes where
  create : Outcome Unit
  start : Outcome Unit
  bind : Outcome Unit
  /-- `npm ci`: whether its exit code was 0. -/
  install : Outcome Bool
  /-- `options.signal` is aborted when the install has ended, with this reason. -/
  abortedAfterInstall : Option Thrown
  timedOut : Bool
  checkpoint : Outcome Unit
  /-- The VM still has a host PID after `close`. -/
  retained : Bool
  /-- `options.signal` is aborted when the VM has been closed, with this reason. -/
  abortedAfterClose : Option Thrown

/-- A call of `vm.close` on the attempt's VM. -/
structure CloseOutcome where
  resolves : Outcome Unit
  /-- The VM still has a host PID after it. -/
  retained : Bool

/-- What every call outside returns or throws, in one creation of a sandbox and the closes of it. -/
structure SandboxOutcomes where
  memoryBytes : ℕ
  gondolinVersion : JsString
  workspace : Outcome Unit
  /-- `planDependencyDirectories`: whether `node_modules` is bound. -/
  dependencies : Outcome Bool
  mounts : Outcome Unit
  warm : Option WarmOutcomes
  /-- `capacity.acquire`. -/
  acquire : Outcome Unit
  unlock : Outcome Unit
  warmupVm : WarmupVmOutcomes
  /-- The signal is aborted when the warm-up has thrown, with this reason. -/
  abortedAfterWarmup : Option Thrown
  /-- The build id of the leased checkpoint. -/
  checkpointBuildId : Outcome (Option JsString)
  resume : Outcome Unit
  create : Outcome Unit
  start : Outcome Unit
  /-- The VM has a host PID after `start`. -/
  spawned : Bool
  identity : Outcome Unit
  bind : Outcome Unit
  tools : Outcome Unit
  vmId : JsString
  /-- The calls of `vm.close` on the attempt's VM, in order. -/
  close : ℕ → CloseOutcome
  /-- The calls of `release` on a checkpoint lease, in order. -/
  checkpointRelease : ℕ → Outcome Unit
  /-- The calls of `release` on the slot, in order. -/
  capacityRelease : ℕ → Outcome Unit

/-! ## Machines and resources -/

/-- A virtual machine: whether it was started, whether it may have a host process, and whether a
close of it was seen to leave none. -/
structure VmState where
  started : Bool
  process : Bool
  proved : Bool
deriving DecidableEq, Repr

/-- A VM that was never started. -/
def VmState.idle : VmState := ⟨false, false, false⟩

/-- Nothing shows that the VM has ended. -/
def VmState.mayRun (v : VmState) : Bool := v.started && !v.proved

/-- The machines of an attempt, the resources held for them, and the calls made so far. -/
structure SandboxState where
  warmup : VmState
  attempt : VmState
  lock : Bool
  checkpoint : Bool
  slot : Bool
  closes : ℕ
  checkpointReleases : ℕ
  capacityReleases : ℕ
  /-- The slots that were acquired. -/
  slots : ℕ
  /-- The checkpoint leases that were taken. -/
  leases : ℕ
deriving DecidableEq, Repr

/-- Before the sandbox is created. -/
def SandboxState.start : SandboxState := ⟨.idle, .idle, false, false, false, 0, 0, 0, 0, 0⟩

/-- A program over the sandbox. -/
abbrev SandboxM := Prog SandboxState Thrown

variable (o : SandboxOutcomes)

/-- `vm.close` of the attempt's VM. A VM without a process stays without. -/
def closeVm : SandboxM Unit := do
  let s ← get
  set { s with
    closes := s.closes + 1
    attempt := { s.attempt with process := s.attempt.process && (o.close s.closes).retained } }
  liftExcept (o.close s.closes).resolves

/-- `lease.release` of a checkpoint. -/
def releaseCheckpoint : SandboxM Unit := do
  let s ← get
  set { s with checkpointReleases := s.checkpointReleases + 1 }
  liftExcept (o.checkpointRelease s.checkpointReleases)
  modify fun s => { s with checkpoint := false }

/-- `capacity.release`. Its port is closed also where the record could not be written. -/
def releaseCapacity : SandboxM Unit := do
  let s ← get
  set { s with slot := false, capacityReleases := s.capacityReleases + 1 }
  liftExcept (o.capacityRelease s.capacityReleases)

/-- `unlock`, the end of a warm-up's lock. -/
def unlockWarmup : SandboxM Unit := do
  liftExcept o.unlock
  modify fun s => { s with lock := false }

/-- `vm.getHostPid() !== null` has been read as false after a close. -/
def proveClosed : SandboxM Unit :=
  modify fun s => { s with attempt := { s.attempt with proved := true } }

/-- `closeStartedVm`. -/
def closeStartedVm (checkpoint : Bool) : SandboxM Unit := do
  closeVm o
  let s ← get
  if s.attempt.process then
    throw ⟨.sandbox, ofString "GondolinSandboxError",
      ofString "VM " ++ o.vmId ++ ofString " retained a host PID after close"⟩
  else
    proveClosed
    when checkpoint (releaseCheckpoint o)
    releaseCapacity o

/-! ## Warm boot -/

/-- `WarmBoot`: the outcome, and what is held for it. -/
structure WarmBoot where
  outcome : WarmupOutcome
  leased : Bool
  locked : Bool
  failure : Option WarmupFailureCode
deriving DecidableEq, Repr

/-- A warm boot that holds nothing. -/
def WarmBoot.cold (outcome : WarmupOutcome) : WarmBoot := ⟨outcome, false, false, none⟩

/-- `prepareWarmBoot`, given `node_modules` is bound or not. -/
def prepareWarmBoot (warm : Option WarmOutcomes) (bound : Bool) : Outcome WarmBoot :=
  match warm with
  | none => .ok (.cold .disabled)
  | some w => do
    match ← w.project with
    | some reason => .ok (.cold reason.outcome)
    | none =>
      if !bound then .ok (.cold .noDependencyDirectory)
      else if ← w.lease then .ok ⟨.reused, true, false, none⟩
      else if ← w.failedRecently then .ok (.cold .failedRecently)
      else if ← w.tryLock then .ok ⟨.created, false, true, none⟩
      else
        match ← w.waitFor with
        | .ready =>
          if ← w.leaseAfterWait then .ok ⟨.waited, true, false, none⟩ else .ok (.cold .abandoned)
        | .timeout => .ok (.cold .waitTimeout)
        | .failed => .ok (.cold .failed)
        | .abandoned => .ok (.cold .abandoned)

/-- The failure of a warm-up VM's start, bind and install, and the reason of a cancellation. -/
def WarmupVmOutcomes.install? (v : WarmupVmOutcomes) : Option WarmupFailureCode × Option Thrown :=
  if !(v.create.isOk && v.start.isOk) then (some .bootFailed, none)
  else if !v.bind.isOk then (some .bindFailed, none)
  else if v.abortedAfterInstall.isSome then (none, v.abortedAfterInstall)
  else if v.timedOut then (some .timeout, none)
  else
    match v.install with
    | .ok true => (none, none)
    | _ => (some .installFailed, none)

/-- `runWarmup`. -/
def runWarmup (v : WarmupVmOutcomes) : SandboxM (Option WarmupFailureCode) := do
  when v.create.isOk (modify fun s => { s with warmup := ⟨true, true, false⟩ })
  let (failure, cancelled) := v.install?
  let failure :=
    if failure.isNone && cancelled.isNone && !v.checkpoint.isOk then some .checkpointFailed
    else failure
  -- The error of a close is dropped; what counts is the host PID after it.
  when v.create.isOk (modify fun s => { s with warmup := ⟨true, v.retained, !v.retained⟩ })
  when (v.create.isOk && v.retained) (throw warmupCleanupError)
  match cancelled, v.abortedAfterClose with
  | some reason, _ => throw reason
  | none, some reason => throw reason
  | none, none => pure failure

/-- The warm-up and what is recorded or published of it. -/
def warmUpAndPublish (w : WarmOutcomes) (warm : WarmBoot) : SandboxM WarmBoot := do
  liftExcept w.temporaryPath
  match ← runWarmup o.warmupVm with
  | some failure =>
    liftExcept w.recordFailure
    pure { warm with outcome := .failed, failure := some failure }
  | none =>
    liftExcept w.publish
    liftExcept w.evict
    if ← liftExcept w.leaseAfterWarmup then
      modify fun s => { s with checkpoint := true, leases := s.leases + 1 }
      pure { warm with leased := true }
    else pure { warm with outcome := .abandoned }

/-- What is done when the warm-up has thrown. The slot of a VM that may still run stays held. -/
def abandonWarmup (error : Thrown) : SandboxM WarmBoot := do
  unlockWarmup o
  if error.kind = .warmupCleanup then
    throw error
  else
    releaseCapacity o
    match o.abortedAfterWarmup with
    | some reason => throw reason
    | none => throw (sandboxError "sandbox warm-up failed")

/-- The warm-up of a creation that holds its lock. -/
def warmUp (w : WarmOutcomes) (warm : WarmBoot) : SandboxM WarmBoot := do
  let warm ← tryCatch (warmUpAndPublish o w warm) (abandonWarmup o)
  unlockWarmup o
  pure warm

/-- The check of a leased checkpoint's build id. -/
def checkCheckpoint (w : WarmOutcomes) (warm : WarmBoot) : SandboxM WarmBoot := do
  let (warm, buildId) : WarmBoot × Option JsString :=
    match o.checkpointBuildId with
    | .ok id => (warm, id)
    | .error _ => ({ warm with outcome := .resumeFailed, failure := some .resumeFailed }, none)
  let warm :=
    if buildId.isSome && buildId ≠ some w.guestAssetBuildId then
      { warm with outcome := .buildMismatch }
    else warm
  if buildId ≠ some w.guestAssetBuildId then
    releaseCheckpoint o
    pure { warm with leased := false }
  else pure warm

/-! ## Creation -/

/-- `guestMemorySize`. -/
def guestMemorySize (memoryBytes : ℕ) : Outcome JsString :=
  if maxSafeInteger < memoryBytes ∨ memoryBytes = 0 ∨ memoryBytes % (1024 * 1024) ≠ 0 then
    .error (sandboxError "sandbox memory must be a positive whole number of MiB")
  else .ok (ofString (toString (memoryBytes / (1024 * 1024)) ++ "M"))

/-- Everything before the warm boot: the workspace, its dependency directories, the mounts and the
memory. -/
def planSandbox : Outcome (Bool × JsString) := do
  match o.workspace with
  | .ok _ => pure ()
  | .error error =>
    if error.isSandboxError then throw error
    else throw (sandboxError "sandbox workspace is unavailable")
  let bound ← match o.dependencies with
    | .ok bound => pure bound
    | .error _ => throw (sandboxError "dependency directory planning failed")
  o.mounts
  let memory ← guestMemorySize o.memoryBytes
  pure (bound, memory)

/-- `DEFAULT_START_TIMEOUT_MS`, in seconds. -/
def startTimeoutSeconds : ℕ := 60

/-- `sandboxStartFailureMessage`. -/
def sandboxStartFailureMessage (error : Thrown) (memory : JsString) : JsString :=
  if error.kind ≠ .startTimeout then ofString "sandbox startup failed"
  else ofString "sandbox startup failed: guest did not become ready within " ++
    ofString (toString startTimeoutSeconds) ++ ofString " s at " ++ memory

/-- `SandboxBootRecord`. -/
structure SandboxBootRecord where
  warm : Bool
  warmup : WarmupOutcome
  failure : Option WarmupFailureCode
deriving DecidableEq, Repr

/-- What the attempt uses of its sandbox: whether it runs on a checkpoint, and its record. -/
structure AttemptSandbox where
  leased : Bool
  packageVersion : JsString
  boot : SandboxBootRecord
deriving DecidableEq, Repr

/-- The creation of the VM, on the leased checkpoint if there is one. -/
def createVm (warm : WarmBoot) : SandboxM WarmBoot := do
  if warm.leased then
    match o.resume with
    | .ok _ => pure warm
    | .error _ =>
      -- The failure is recorded, and an error of that is dropped.
      releaseCheckpoint o
      liftExcept o.create
      pure ⟨.resumeFailed, false, warm.locked, some .resumeFailed⟩
  else
    liftExcept o.create
    pure warm

/-- `vm.start` and what follows until the sandbox is ready. -/
def startVm (warm : WarmBoot) : SandboxM AttemptSandbox := do
  modify fun s => { s with attempt := ⟨true, o.spawned, false⟩ }
  liftExcept o.start
  when (!o.spawned) (throw (sandboxError "started VM has no host PID"))
  liftExcept o.identity
  liftExcept o.bind
  liftExcept o.tools
  pure ⟨warm.leased, o.gondolinVersion, ⟨warm.leased, warm.outcome, warm.failure⟩⟩

/-- The warm-up, when this creation holds its lock. -/
def maybeWarmUp (warm : WarmBoot) : SandboxM WarmBoot :=
  match o.warm with
  | some w => if warm.locked then warmUp o w warm else pure warm
  | none => pure warm

/-- The check of the checkpoint, when one is leased. -/
def maybeCheckCheckpoint (warm : WarmBoot) : SandboxM WarmBoot :=
  match o.warm with
  | some w => if warm.leased then checkCheckpoint o w warm else pure warm
  | none => pure warm

/-- `capacity.acquire`, and what is given back when it throws. -/
def acquireSlot (warm : WarmBoot) : SandboxM Unit :=
  tryCatch (do
    liftExcept o.acquire
    modify fun s => { s with slot := true, slots := s.slots + 1 }) fun error => do
    when warm.locked (unlockWarmup o)
    when warm.leased (releaseCheckpoint o)
    throw error

/-- What is given back when the VM could not be created. -/
def abandonVm : SandboxM WarmBoot := do
  let s ← get
  when s.checkpoint (releaseCheckpoint o)
  releaseCapacity o
  throw (sandboxError "sandbox construction failed")

/-- What is done when a created VM did not become ready. -/
def abandonStart (warm : WarmBoot) (memory : JsString) (error : Thrown) :
    SandboxM AttemptSandbox := do
  tryCatch (closeStartedVm o warm.leased) fun _ =>
    throw (sandboxError "sandbox startup failed and cleanup was not proved")
  throw ⟨.sandbox, ofString "GondolinSandboxError", sandboxStartFailureMessage error memory⟩

/-- `createGondolinAttemptSandbox`. -/
def createGondolinAttemptSandbox : SandboxM AttemptSandbox := do
  let (bound, memory) ← liftExcept (planSandbox o)
  let warm ← liftExcept (prepareWarmBoot o.warm bound)
  modify fun s => { s with
    lock := warm.locked, checkpoint := warm.leased, leases := s.leases + warm.leased.toNat }
  acquireSlot o warm
  let warm ← maybeWarmUp o warm
  let warm ← maybeCheckCheckpoint o warm
  let warm ← tryCatch (createVm o warm) fun _ => abandonVm o
  tryCatch (startVm o warm) (abandonStart o warm memory)

end PiSubagent
