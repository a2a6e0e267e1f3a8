import PiSubagent.Service.Results

/-!
# Launching runs

`preflight`, `launch`, `startAttempt` of an initial attempt, its settlement, and the start-up and
death of seats that share one store, step by step. The steps are what happens between two points at
which another seat can act. What the outside decides (plans, digests, failures) comes with the steps.

* `deterministicIds`, `Prepared`: the identities of a request.
* `LaunchPhase`: how far a call of `launch` is.
* `LaunchState.step`: any step of any seat.
-/

namespace PiSubagent

/-! ## Requests and their identities -/

structure WorkspaceRequest where
  mode : WorkspaceMode
  startAt : Option String
deriving DecidableEq, Repr

/-- `SubagentRequest`: what launching looks at, and the rest of it as text. -/
structure SubagentRequest where
  operationId : String
  workspace : WorkspaceRequest
  rest : String
deriving DecidableEq, Repr

/-- The digests the service takes. -/
structure Digests where
  /-- `canonicalSha256({ ownerId, request })`. -/
  identity : String → SubagentRequest → String
  /-- `canonicalSha256(request)`. -/
  request : SubagentRequest → String
  /-- The key of `OperationIndex`: `sha256(ownerId \0 operationId)`. -/
  recordKey : String → String → String

structure DeterministicIds where
  runId : String
  attemptId : String
  requestSha256 : String
deriving DecidableEq, Repr

/-- `deterministicIds`. -/
def deterministicIds (H : Digests) (ownerId : String) (request : SubagentRequest) :
    DeterministicIds where
  runId := "run_" ++ String.ofList ((H.identity ownerId request).toList.take 48)
  attemptId := "attempt_" ++ String.ofList ((H.identity ownerId request).toList.take 48)
  requestSha256 := H.request request

/-- `OperationRecord`. -/
structure OperationRecord where
  ownerId : String
  operationId : String
  requestSha256 : String
  runId : String
deriving DecidableEq, Repr

/-- `PreparedPreflight`: its identities follow from the owner and the request. -/
structure Prepared where
  ownerId : String
  request : SubagentRequest
  /-- `launchPlan.identitySha256`. -/
  identitySha256 : String
  /-- `workspace.baselineSha256`. -/
  baselineSha256 : String
deriving DecidableEq, Repr

namespace Prepared

variable (H : Digests) (p : Prepared)

/-- `launchPlan.runId`. -/
def runId : String := (deterministicIds H p.ownerId p.request).runId

/-- `launchPlan.attemptId`. -/
def attemptId : String := (deterministicIds H p.ownerId p.request).attemptId

/-- The record `OperationIndex.claim` wants to be there. -/
def claim : OperationRecord where
  ownerId := p.ownerId
  operationId := p.request.operationId
  requestSha256 := (deterministicIds H p.ownerId p.request).requestSha256
  runId := p.runId H

/-- The key of the record. -/
def key : String := H.recordKey p.ownerId p.request.operationId

end Prepared

/-- `RunRecord`. -/
structure RunRecord where
  ownerId : String
  runId : String
  attemptId : String
  identitySha256 : String
  baselineSha256 : String
deriving DecidableEq, Repr

/-- `AttemptRecord` of an initial attempt. -/
structure AttemptRecord where
  ownerId : String
  runId : String
  attemptId : String
  identitySha256 : String
  worktreeAttemptId : Option String
deriving DecidableEq, Repr

namespace Prepared

variable (H : Digests) (p : Prepared)

/-- The record `RunRecordStore.create` writes. -/
def runRecord : RunRecord :=
  ⟨p.ownerId, p.runId H, p.attemptId H, p.identitySha256, p.baselineSha256⟩

/-- The record `AttemptRecordStore.create` writes. -/
def attemptRecord : AttemptRecord where
  ownerId := p.ownerId
  runId := p.runId H
  attemptId := p.attemptId H
  identitySha256 := p.identitySha256
  worktreeAttemptId := if p.request.workspace.mode = .worktree then some (p.attemptId H) else none

/-- `RunRecordStore.create` accepts a record that is there. -/
def acceptsRunRecord (existing : RunRecord) : Bool :=
  decide (existing.ownerId = p.ownerId ∧ existing.identitySha256 = p.identitySha256 ∧
    existing.baselineSha256 = p.baselineSha256)

/-- `AttemptRecordStore.create` accepts a record that is there. -/
def acceptsAttemptRecord (existing : AttemptRecord) : Bool :=
  decide (existing.ownerId = p.ownerId ∧ existing.identitySha256 = p.identitySha256 ∧
    existing.worktreeAttemptId = (p.attemptRecord H).worktreeAttemptId)

end Prepared

/-! ## Seats -/

/-- `ActiveRun`. -/
structure ActiveRun where
  ownerId : String
  runId : String
  attemptId : String
  status : RunStatus
deriving DecidableEq, Repr

/-- What a service is doing. -/
inductive ServiceState where
  | down
  /-- `createSubagentService`: the run records it has not looked at yet. -/
  | recovering (todo : List RunRecord)
  /-- It has the lease of a run it restores. -/
  | restoring (record : RunRecord) (todo : List RunRecord)
  | ready
deriving DecidableEq, Repr

/-- The run records a service still has to look at. -/
@[grind =] def ServiceState.pending : ServiceState → List RunRecord
  | .recovering todo => todo
  | .restoring record todo => record :: todo
  | _ => []

/-- A service: `runs`, the launch inside `runExclusive`, and `preflights`. -/
structure Service where
  state : ServiceState
  runs : String → Option ActiveRun
  busy : Option ℕ
  preflights : ℕ → Option Prepared

/-- No service. -/
@[grind =] def Service.down : Service := ⟨.down, fun _ => none, none, fun _ => none⟩

/-- How far a call of `launch` is. -/
inductive LaunchPhase where
  /-- It waits for `runExclusive`. -/
  | queued
  /-- The run is not in memory. -/
  | claiming
  /-- The operation is claimed. -/
  | claimed
  /-- `startAttempt`: the lease is acquired. -/
  | leased
  /-- The run record is there. -/
  | recorded
  /-- The checkout is there. -/
  | reserved
  /-- The attempt record is there. -/
  | attempted
  /-- The attempt has been handed to the executor. -/
  | running
  /-- The attempt has settled as cleanup-blocked. -/
  | blocked
  | over
deriving DecidableEq, Repr

/-- The launch has the run's lease. -/
@[grind =] def LaunchPhase.leaseHeld : LaunchPhase → Bool
  | .leased | .recorded | .reserved | .attempted | .running | .blocked => true
  | _ => false

/-- The launch has claimed its operation and has not ended. -/
@[grind =] def LaunchPhase.claimHeld : LaunchPhase → Bool
  | .claimed => true
  | phase => phase.leaseHeld

/-- The launch is inside `runExclusive`. -/
@[grind =] def LaunchPhase.inside : LaunchPhase → Bool
  | .claiming | .claimed | .leased | .recorded | .reserved | .attempted => true
  | _ => false

/-- The launch has made its checkout and the executor has not got it yet. -/
@[grind =] def LaunchPhase.checkedOut : LaunchPhase → Bool
  | .reserved | .attempted => true
  | _ => false

/-- A call of `launch`. -/
structure Launch where
  seat : ℕ
  prepared : Prepared
  phase : LaunchPhase
deriving DecidableEq, Repr

/-- Who holds the lease of a run. -/
inductive LeaseHolder where
  | launch (l : ℕ)
  | recovery (seat : ℕ)
  | other
deriving DecidableEq, Repr

/-- An initial attempt handed to the executor. -/
structure HandOver where
  ownerId : String
  operationId : String
  runId : String
  attemptId : String
deriving DecidableEq, Repr

/-- What a successful launch has returned, and for what. -/
structure Receipt where
  ownerId : String
  request : SubagentRequest
  runId : String
  attemptId : String
  status : RunStatus
deriving DecidableEq, Repr

/-- The seats, the launches, the leases and the store; and what has been requested, handed to the
executor and returned so far. -/
structure LaunchState where
  seats : ℕ → Service
  launches : ℕ → Option Launch
  nextLaunch : ℕ
  leases : String → Option LeaseHolder
  operations : String → Option OperationRecord
  runRecords : List RunRecord
  attemptRecords : List AttemptRecord
  worktreeRecords : List String
  snapshotRecords : List String
  requested : List (String × SubagentRequest)
  handed : List HandOver
  receipts : List Receipt

/-- The steps of the seats. -/
inductive LaunchAct where
  /-- `createSubagentService` lists the run records. -/
  | boot (seat : ℕ)
  /-- It tries the lease of the next run, or has looked at all. -/
  | recoverNext (seat : ℕ)
  /-- It puts a run into memory and releases the lease. -/
  | recoverSet (seat : ℕ) (status : RunStatus)
  | preflight (seat id : ℕ) (prepared : Prepared)
  /-- `launch`: the checks before `runExclusive`. -/
  | launch (seat id : ℕ) (ownerId expected : String)
  /-- `launch`: looks for the run in memory. -/
  | enter (l : ℕ)
  /-- `OperationIndex.claim`. -/
  | claim (l : ℕ)
  /-- `startAttempt`: acquires the lease. -/
  | acquire (l : ℕ)
  /-- `RunRecordStore.create`. -/
  | createRunRecord (l : ℕ)
  /-- `createAttemptWorktree`, `createReadOnlySnapshot` or neither. -/
  | checkOut (l : ℕ)
  /-- `AttemptRecordStore.create`. -/
  | createAttemptRecord (l : ℕ)
  /-- `executeAttempt`, and the run goes into memory. -/
  | execute (l : ℕ)
  /-- `startAttempt` throws; the snapshot is removed or not. -/
  | fail (l : ℕ) (removed : Bool)
  /-- The attempt removes its snapshot. -/
  | removeSnapshot (l : ℕ)
  /-- The attempt settles. -/
  | settle (l : ℕ) (status : RunStatus)
  | die (seat : ℕ)
  | otherTake (runId : String)
  | otherFree (runId : String)
deriving DecidableEq, Repr

namespace LaunchState

variable (H : Digests) (s : LaunchState)

def setSeat (seat : ℕ) (v : Service) : LaunchState :=
  { s with seats := fun n => if n = seat then v else s.seats n }

def setLaunch (l : ℕ) (v : Launch) : LaunchState :=
  { s with launches := fun k => if k = l then some v else s.launches k }

/-- The lease of a run goes to a holder. -/
def setLease (runId : String) (holder : LeaseHolder) : LaunchState :=
  { s with leases := fun r => if r = runId then some holder else s.leases r }

/-- A holder releases the lease of a run. -/
def release (runId : String) (holder : LeaseHolder) : LaunchState :=
  { s with leases := fun r =>
      if r = runId ∧ s.leases r = some holder then none else s.leases r }

/-- A launch moves on. -/
def moveTo (l : ℕ) (launch : Launch) (phase : LaunchPhase) : LaunchState :=
  s.setLaunch l { launch with phase := phase }

/-- A launch ends and leaves `runExclusive`. -/
def leave (l : ℕ) (launch : Launch) : LaunchState :=
  (s.moveTo l launch .over).setSeat launch.seat { s.seats launch.seat with busy := none }

/-- A launch ends and releases its lease. -/
def abort (l : ℕ) (launch : Launch) : LaunchState :=
  (s.leave l launch).release (launch.prepared.runId H) (.launch l)

/-- The snapshot of an attempt is removed. -/
def dropSnapshot (attemptId : String) : LaunchState :=
  { s with snapshotRecords := s.snapshotRecords.filter (· ≠ attemptId) }

/-- The checkout an attempt needs has been reserved before. -/
def isReserved (p : Prepared) : Bool :=
  match p.request.workspace.mode, p.request.workspace.startAt with
  | .worktree, _ => decide (p.attemptId H ∈ s.worktreeRecords)
  | .readOnly, some _ => decide (p.attemptId H ∈ s.snapshotRecords)
  | .readOnly, none => false

/-- The run record of a run. -/
def runRecord? (runId : String) : Option RunRecord :=
  s.runRecords.find? (·.runId = runId)

/-- The checkout an attempt needs is reserved. -/
def reserve (p : Prepared) : LaunchState :=
  match p.request.workspace.mode, p.request.workspace.startAt with
  | .worktree, _ => { s with worktreeRecords := p.attemptId H :: s.worktreeRecords }
  | .readOnly, some _ => { s with snapshotRecords := p.attemptId H :: s.snapshotRecords }
  | .readOnly, none => s

/-- The death of a seat: its leases are free, its launches end, its memory is lost. -/
def die (seat : ℕ) : LaunchState :=
  { s with
    seats := fun n => if n = seat then Service.down else s.seats n
    launches := fun l =>
      (s.launches l).map fun launch =>
        if launch.seat = seat then { launch with phase := .over } else launch
    leases := fun r =>
      match s.leases r with
      | some (.launch l) =>
        if (s.launches l).any fun launch => launch.seat = seat then none else s.leases r
      | some (.recovery n) => if n = seat then none else s.leases r
      | holder => holder }

/-- The attempt of a launch is handed to the executor and the run goes into memory. -/
def handOver (l : ℕ) (launch : Launch) : LaunchState :=
  let p := launch.prepared
  let seat := s.seats launch.seat
  let run : ActiveRun := ⟨p.ownerId, p.runId H, p.attemptId H, .active⟩
  { (s.moveTo l launch .running).setSeat launch.seat
      { seat with
        busy := none
        runs := fun r => if r = p.runId H then some run else seat.runs r } with
    handed := ⟨p.ownerId, p.request.operationId, p.runId H, p.attemptId H⟩ :: s.handed
    receipts := ⟨p.ownerId, p.request, p.runId H, p.attemptId H, .active⟩ :: s.receipts }

/-- The status of a run in memory. -/
def setStatus (seat : ℕ) (runId : String) (status : RunStatus) : LaunchState :=
  s.setSeat seat { s.seats seat with
    runs := fun r =>
      if r = runId then ((s.seats seat).runs r).map fun run => { run with status := status }
      else (s.seats seat).runs r }

/-- One step; `none` when it cannot be taken or is refused before anything happens. -/
def step (s : LaunchState) : LaunchAct → Option LaunchState
  | .boot seat =>
    match (s.seats seat).state with
    | .down => some (s.setSeat seat { Service.down with state := .recovering s.runRecords })
    | _ => none
  | .recoverNext seat =>
    match (s.seats seat).state with
    | .recovering [] => some (s.setSeat seat { s.seats seat with state := .ready })
    | .recovering (record :: todo) =>
      match s.leases record.runId with
      | none =>
        some ((s.setSeat seat { s.seats seat with state := .restoring record todo }).setLease
          record.runId (.recovery seat))
      | some _ => some (s.setSeat seat { s.seats seat with state := .recovering todo })
    | _ => none
  | .recoverSet seat status =>
    match (s.seats seat).state with
    | .restoring record todo =>
      some ((s.setSeat seat { s.seats seat with
        state := .recovering todo
        runs := fun r =>
          if r = record.runId then
            some ⟨record.ownerId, record.runId, record.attemptId, status⟩
          else (s.seats seat).runs r }).release record.runId (.recovery seat))
    | _ => none
  | .preflight seat id prepared =>
    match (s.seats seat).state with
    | .ready =>
      some { s.setSeat seat { s.seats seat with
          preflights := fun n => if n = id then some prepared else (s.seats seat).preflights n } with
        requested := (prepared.ownerId, prepared.request) :: s.requested }
    | _ => none
  | .launch seat id ownerId expected =>
    match (s.seats seat).preflights id with
    | some prepared =>
      if prepared.ownerId = ownerId ∧ prepared.identitySha256 = expected then
        some { s.setLaunch s.nextLaunch ⟨seat, prepared, .queued⟩ with
          nextLaunch := s.nextLaunch + 1 }
      else none
    | none => none
  | .enter l =>
    match s.launches l with
    | some ⟨seat, p, .queued⟩ =>
      match (s.seats seat).busy with
      | some _ => none
      | none =>
        match (s.seats seat).runs (p.runId H) with
        | some existing =>
          if existing.ownerId = p.ownerId then
            some { s.moveTo l ⟨seat, p, .queued⟩ .over with
              receipts := ⟨p.ownerId, p.request, existing.runId, existing.attemptId,
                existing.status⟩ :: s.receipts }
          else some (s.moveTo l ⟨seat, p, .queued⟩ .over)
        | none =>
          some ((s.moveTo l ⟨seat, p, .queued⟩ .claiming).setSeat seat
            { s.seats seat with busy := some l })
    | _ => none
  | .claim l =>
    match s.launches l with
    | some ⟨seat, p, .claiming⟩ =>
      match s.operations (p.key H) with
      | none =>
        some { s.moveTo l ⟨seat, p, .claiming⟩ .claimed with
          operations := fun k => if k = p.key H then some (p.claim H) else s.operations k }
      | some existing =>
        if existing = p.claim H then some (s.moveTo l ⟨seat, p, .claiming⟩ .claimed)
        else some (s.leave l ⟨seat, p, .claiming⟩)
    | _ => none
  | .acquire l =>
    match s.launches l with
    | some ⟨seat, p, .claimed⟩ =>
      match s.leases (p.runId H) with
      | none => some ((s.moveTo l ⟨seat, p, .claimed⟩ .leased).setLease (p.runId H) (.launch l))
      | some _ => some (s.leave l ⟨seat, p, .claimed⟩)
    | _ => none
  | .createRunRecord l =>
    match s.launches l with
    | some ⟨seat, p, .leased⟩ =>
      match s.runRecord? (p.runId H) with
      | none =>
        some { s.moveTo l ⟨seat, p, .leased⟩ .recorded with
          runRecords := s.runRecords ++ [p.runRecord H] }
      | some existing =>
        if p.acceptsRunRecord existing then some (s.moveTo l ⟨seat, p, .leased⟩ .recorded)
        else some (s.abort H l ⟨seat, p, .leased⟩)
    | _ => none
  | .checkOut l =>
    match s.launches l with
    | some ⟨seat, p, .recorded⟩ =>
      if s.isReserved H p then some (s.abort H l ⟨seat, p, .recorded⟩)
      else some ((s.reserve H p).moveTo l ⟨seat, p, .recorded⟩ .reserved)
    | _ => none
  | .createAttemptRecord l =>
    match s.launches l with
    | some ⟨seat, p, .reserved⟩ =>
      match s.attemptRecords.find? (·.attemptId = p.attemptId H) with
      | some existing =>
        if p.acceptsAttemptRecord H existing then
          some (s.moveTo l ⟨seat, p, .reserved⟩ .attempted)
        else some (s.abort H l ⟨seat, p, .reserved⟩)
      | none =>
        -- An initial attempt has no other attempt of the run before it.
        if s.attemptRecords.any (·.runId = p.runId H) then
          some (s.abort H l ⟨seat, p, .reserved⟩)
        else
          some { s.moveTo l ⟨seat, p, .reserved⟩ .attempted with
            attemptRecords := s.attemptRecords ++ [p.attemptRecord H] }
    | _ => none
  | .execute l =>
    match s.launches l with
    | some ⟨seat, p, .attempted⟩ => some (s.handOver H l ⟨seat, p, .attempted⟩)
    | _ => none
  | .fail l removed =>
    match s.launches l with
    | some launch =>
      if launch.phase.inside then
        if removed && launch.phase.checkedOut then
          some ((s.abort H l launch).dropSnapshot (launch.prepared.attemptId H))
        else some (s.abort H l launch)
      else none
    | none => none
  | .removeSnapshot l =>
    match s.launches l with
    | some ⟨_, p, .running⟩ => some (s.dropSnapshot (p.attemptId H))
    | _ => none
  | .settle l status =>
    match s.launches l with
    | some ⟨seat, p, .running⟩ =>
      if status = .cleanupBlocked then
        some ((s.setStatus seat (p.runId H) status).moveTo l ⟨seat, p, .running⟩ .blocked)
      else
        some (((s.setStatus seat (p.runId H) status).moveTo l ⟨seat, p, .running⟩ .over).release
          (p.runId H) (.launch l))
    | _ => none
  | .die seat => some (s.die seat)
  | .otherTake runId =>
    match s.leases runId with
    | none => some (s.setLease runId .other)
    | some _ => none
  | .otherFree runId => some (s.release runId .other)

end LaunchState

/-- Nothing has happened: no seat is up and the store is empty. -/
def emptyStore : LaunchState where
  seats := fun _ => Service.down
  launches := fun _ => none
  nextLaunch := 0
  leases := fun _ => none
  operations := fun _ => none
  runRecords := []
  attemptRecords := []
  worktreeRecords := []
  snapshotRecords := []
  requested := []
  handed := []
  receipts := []

end PiSubagent
