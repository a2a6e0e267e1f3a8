import PiSubagent.Lib.Calls
import PiSubagent.Service.Results

/-!
# Shutdown and the starts of attempts

* `Service`: the queue of `runExclusive`, the map of runs, the leases and the attempts handed to the
  executor.
* `StartPhase`, `moveStart`: `launch`, `retry` and `resume` between their awaits.
* `ShutdownPhase`: `shutdown` walks the map once and awaits what it has stopped.
* `quiet`: no start is on its way when a shutdown walks the map, and none is called later.
* **`shutdown_complete`**: after a quiet shutdown nothing executes, nothing starts, and every
  attempt has its result written or its run cleanup-blocked.
* **`shutdown_overtaken`**: a launch that shutdown does not see starts its attempt afterwards.
-/

namespace PiSubagent

open JsonText Calls

namespace Shutdown

/-! ## The service -/

/-- How far an attempt is. -/
inductive AttemptPhase where
  | executing
  /-- The executor has returned, and the snapshot is written next. -/
  | returned (status : RunStatus)
  /-- The snapshot is written, and the lease is released next. -/
  | written
  /-- The promise is settled; whether the snapshot was written. -/
  | settled (written : Bool)
deriving DecidableEq, Repr

/-- The terminal result of the attempt is not written yet, and it may be. -/
def AttemptPhase.flying : AttemptPhase → Bool
  | .executing | .returned _ => true
  | _ => false

/-- The attempt is not settled; `releasing`: neither is one that releases its lease. -/
def AttemptPhase.unsettled (releasing : Bool) (phase : AttemptPhase) : Bool :=
  phase.flying || (releasing && phase = .written)

@[simp] theorem AttemptPhase.unsettled_settled (releasing written : Bool) :
    (AttemptPhase.settled written).unsettled releasing = false := by
  cases releasing <;> rfl

/-- The attempt has the lease of its run. -/
def AttemptPhase.leased : AttemptPhase → Bool
  | .settled true => false
  | _ => true

/-- An attempt handed to the executor. -/
structure Attempt where
  runId : JsString
  phase : AttemptPhase
deriving DecidableEq, Repr

/-- `ActiveRun`; its attempt is `none` when start-up has put it into the map. -/
structure ActiveRun where
  ownerId : JsString
  attempt : Option ℕ
  status : RunStatus
deriving DecidableEq, Repr

/-- The run is active or stopping. -/
def ActiveRun.running (run : ActiveRun) : Bool := run.status = .active ∨ run.status = .stopping

/-- Who has the lease of a run: a call that starts an attempt, an attempt, or another process. -/
inductive Holder where
  | start (call : ℕ)
  | attempt (n : ℕ)
  | other
deriving DecidableEq, Repr

/-- The memory of a service, and the leases. -/
structure Service where
  queue : List ℕ
  runs : JsString → Option ActiveRun
  leases : JsString → Option Holder
  attempts : ℕ → Option Attempt
  handed : ℕ

namespace Service

variable (s : Service)

/-- The lease of a run is someone else's, or free. -/
def setLease (runId : JsString) (holder : Option Holder) : Service :=
  { s with leases := Function.update s.leases runId holder }

/-- An attempt is further. -/
def setAttempt (n : ℕ) (attempt : Attempt) : Service :=
  { s with attempts := Function.update s.attempts n (some attempt) }

/-- The run of an attempt has another status. A run that has been replaced in the map has not. -/
def setStatus (runId : JsString) (n : ℕ) (status : RunStatus) : Service :=
  match s.runs runId with
  | some run =>
    if run.attempt = some n then
      { s with runs := Function.update s.runs runId (some { run with status := status }) }
    else s
  | none => s

/-- `executeAttempt`, and `runs.set` with no await between them. -/
def handOver (ownerId runId : JsString) : Service :=
  { s with
    runs := Function.update s.runs runId (some ⟨ownerId, some s.handed, .active⟩)
    leases := Function.update s.leases runId (some (.attempt s.handed))
    attempts := Function.update s.attempts s.handed (some ⟨runId, .executing⟩)
    handed := s.handed + 1 }

/-- A call leaves the queue of `runExclusive`. -/
def leave (c : ℕ) : Service := { s with queue := s.queue.filter (· ≠ c) }

/-- The attempt is that of a run that is active or stopping. -/
def isRunning (n : ℕ) : Bool :=
  (s.attempts n).any fun attempt =>
    (s.runs attempt.runId).any fun run => run.attempt = some n ∧ run.running = true

/-- The walk of `shutdown` over the map. -/
def stopAll : Service :=
  { s with runs := fun runId => (s.runs runId).map fun run =>
      if run.running then { run with status := .stopping } else run }

end Service

/-! ## Starts -/

/-- The calls that start an attempt. -/
inductive StartKind where
  | launch | retry
  | resume (atHandoff : Bool)
deriving DecidableEq, Repr

/-- A call that starts an attempt. -/
structure StartCall where
  kind : StartKind
  ownerId : JsString
  runId : JsString
deriving DecidableEq, Repr

/-- The awaits of a start once it has its turn. -/
inductive Await where
  /-- `OperationIndex.claim`, or the checks of `retry` and `resume`. -/
  | admission
  | lease | journal | durableStatus | handoffEvent | artifacts | runRecord | checkout
  | attemptRecord
  /-- `execution()`; then the executor has the attempt. -/
  | execution
deriving DecidableEq, Repr

/-- The await after an await. -/
def Await.next : Await → Option Await
  | .admission => some .lease
  | .lease => some .journal
  | .journal => some .durableStatus
  | .durableStatus => some .handoffEvent
  | .handoffEvent => some .artifacts
  | .artifacts => some .runRecord
  | .runRecord => some .checkout
  | .checkout => some .attemptRecord
  | .attemptRecord => some .execution
  | .execution => none

/-- The start has acquired the lease. -/
def Await.leased : Await → Bool
  | .admission | .lease => false
  | _ => true

/-- How far a start is. -/
inductive StartPhase where
  | called
  | waiting
  | turn
  | preparing (next : Await)
  /-- `startAttempt` has thrown, and releases its lease next. -/
  | failing
  /-- The status of the receipt; `none` when it has thrown. -/
  | ended (receipt : Option RunStatus)
deriving DecidableEq, Repr

/-- How far `shutdown` is. -/
inductive ShutdownPhase where
  | called
  /-- `Promise.allSettled(pending)`. -/
  | waiting (pending : List ℕ)
  | resolved
deriving DecidableEq, Repr

/-- The calls on a service. -/
inductive Phase where
  | start (call : StartCall) (p : StartPhase)
  | shutdown (p : ShutdownPhase)
  | interrupt (ownerId runId : JsString) (ended : Bool)
deriving DecidableEq, Repr

/-- Whether what a call awaits succeeds, or a check that is not modelled passes. -/
inductive Outcome where
  | ok | fails
deriving DecidableEq, Repr

/-- What `launch`, `retry` and `resume` look at when they have their turn: they go on, or end. -/
def takeTurn (call : StartCall) (o : Outcome) (s : Service) : StartPhase :=
  match call.kind, s.runs call.runId with
  | .launch, none => .preparing .admission
  | .launch, some run => .ended (if run.ownerId = call.ownerId then some run.status else none)
  | _, none => .ended none
  | .retry, some run =>
    if run.ownerId = call.ownerId ∧ run.status = .failed ∧ o = .ok then .preparing .admission
    else .ended none
  | .resume atHandoff, some run =>
    let permitted : Bool :=
      if atHandoff then transitionRunStatus run.status .resumeAtHandoff ≠ none
      else run.status = .interrupted
    if run.ownerId = call.ownerId ∧ permitted = true ∧ o = .ok then .preparing .admission
    else .ended none

/-- The next step of a start. -/
def nextStart (c : ℕ) (call : StartCall) :
    StartPhase → Outcome → Service → Option (Service × StartPhase)
  | .called, .ok, s => some ({ s with queue := s.queue ++ [c] }, .waiting)
  | .called, .fails, s => some (s, .ended none)
  | .waiting, _, s => if s.queue.head? = some c then some (s, .turn) else none
  | .turn, o, s => some (s, takeTurn call o s)
  | .preparing .lease, .ok, s =>
    match s.leases call.runId with
    | none => some (s.setLease call.runId (some (.start c)), .preparing .journal)
    | some _ => some (s, .ended none)
  | .preparing await, .ok, s =>
    match await.next with
    | some next => some (s, .preparing next)
    | none => some (s.handOver call.ownerId call.runId, .ended (some .active))
  | .preparing await, .fails, s => some (s, if await.leased then .failing else .ended none)
  | .failing, _, s => some (s.setLease call.runId none, .ended none)
  | .ended _, _, _ => none

/-- A start; with its end it leaves the queue. -/
def moveStart (c : ℕ) (call : StartCall) (p : StartPhase) (o : Outcome) (s : Service) :
    Option (Service × StartPhase) :=
  (nextStart c call p o s).map fun r =>
    match r.2 with
    | .ended receipt => (r.1.leave c, .ended receipt)
    | next => (r.1, next)

/-- A step of `shutdown`. -/
def moveShutdown : ShutdownPhase → Service → Option (Service × ShutdownPhase)
  | .called, s => some (s.stopAll, .waiting ((List.range s.handed).filter s.isRunning))
  | .waiting pending, s =>
    if pending.all fun n => (s.attempts n).any fun attempt =>
        attempt.phase = .settled true ∨ attempt.phase = .settled false then
      some (s, .resolved)
    else none
  | .resolved, _ => none

/-- `interrupt`. -/
def interruptRun (ownerId runId : JsString) (s : Service) : Service :=
  match s.runs runId with
  | some run =>
    if run.ownerId = ownerId ∧ run.status = .active then
      { s with runs := Function.update s.runs runId (some { run with status := .stopping }) }
    else s
  | none => s

/-- A step of a call. -/
def movePhase (c : ℕ) (o : Outcome) : Phase → Service → Option (Service × Phase)
  | .start call p, s => (moveStart c call p o s).map fun r => (r.1, .start call r.2)
  | .shutdown p, s => (moveShutdown p s).map fun r => (r.1, .shutdown r.2)
  | .interrupt ownerId runId false, s =>
    some (interruptRun ownerId runId s, .interrupt ownerId runId true)
  | .interrupt _ _ true, _ => none

/-! ## Attempts -/

/-- What happens to attempts and to the leases of others. -/
inductive Event where
  /-- The promise of the executor settles, with a result or without. -/
  | executed (n : ℕ) (status : Option RunStatus)
  | snapshot (n : ℕ) (ok : Bool)
  | released (n : ℕ) (ok : Bool)
  | otherTakes (runId : JsString)
  | otherFrees (runId : JsString)
deriving DecidableEq, Repr

/-- The handlers of an attempt's promise, and other processes. -/
def happens : Event → Service → Option Service
  | .executed n status, s =>
    match s.attempts n with
    | some ⟨runId, .executing⟩ =>
      match status with
      | some status =>
        if status.isResultStatus then some (s.setAttempt n ⟨runId, .returned status⟩) else none
      | none =>
        some ((s.setStatus runId n .cleanupBlocked).setAttempt n ⟨runId, .settled false⟩)
    | _ => none
  | .snapshot n ok, s =>
    match s.attempts n with
    | some ⟨runId, .returned status⟩ =>
      if ok then
        some ((s.setStatus runId n status).setAttempt n
          ⟨runId, if status = .cleanupBlocked then .settled true else .written⟩)
      else some ((s.setStatus runId n .cleanupBlocked).setAttempt n ⟨runId, .settled false⟩)
    | _ => none
  | .released n ok, s =>
    match s.attempts n with
    | some ⟨runId, .written⟩ =>
      if ok then some ((s.setLease runId none).setAttempt n ⟨runId, .settled true⟩)
      else some ((s.setStatus runId n .cleanupBlocked).setAttempt n ⟨runId, .settled true⟩)
    | _ => none
  | .otherTakes runId, s =>
    match s.leases runId with
    | none => some (s.setLease runId (some .other))
    | some _ => none
  | .otherFrees runId, s =>
    if s.leases runId = some .other then some (s.setLease runId none) else none

/-- Where a call begins. -/
def Phase.entry : Phase → Bool
  | .start _ .called | .shutdown .called | .interrupt _ _ false => true
  | _ => false

/-- The calls on a service. -/
def program : Program Service Phase Outcome Event where
  entry _ _ k := k.entry
  move _ _ c o := movePhase c o
  free _ _ s := s
  outside := happens

/-- One step of a service. -/
abbrev step := World.step program

/-- One action on a service. -/
abbrev Act := Calls.Act Phase Outcome Event

/-- A run that start-up has put into the map, with the status of a result. -/
structure RecoveredRun where
  ownerId : JsString
  status : RunStatus
  settled : status.isResultStatus = true

/-- A service that has started up, with the leases that other processes have. -/
def started (recovered : JsString → Option RecoveredRun) (taken : JsString → Bool) : Service where
  queue := []
  runs := fun runId => (recovered runId).map fun run => ⟨run.ownerId, none, run.status⟩
  leases := fun runId => if taken runId then some .other else none
  attempts := fun _ => none
  handed := 0

/-! ## What every call relies on -/

/-- An attempt whose result is not written is that of a running run, one that is not settled has the
lease, and where the handler has failed the run is cleanup-blocked. -/
structure Sane (s : Service) : Prop where
  bound : ∀ n a, s.attempts n = some a → n < s.handed
  running : ∀ n a, s.attempts n = some a → a.phase.flying = true →
    ∃ run, s.runs a.runId = some run ∧ run.attempt = some n ∧ run.running = true
  leased : ∀ n a, s.attempts n = some a → a.phase.leased = true →
    s.leases a.runId = some (.attempt n)
  blocked : ∀ n a, s.attempts n = some a → a.phase = .settled false →
    ∃ run, s.runs a.runId = some run ∧ run.attempt = some n ∧ run.status = .cleanupBlocked

/-- The start has the lease. -/
def StartPhase.leased : StartPhase → Bool
  | .preparing await => await.leased
  | .failing => true
  | _ => false

/-- The call is a start on its way. -/
def Phase.starting : Phase → Bool
  | .start _ (.ended _) => false
  | .start _ _ => true
  | _ => false

/-- The call is a shutdown that has walked the map. -/
def Phase.walked : Phase → Bool
  | .shutdown .called => false
  | .shutdown _ => true
  | _ => false

/-- What a call relies on. -/
def Relies (releasing : Bool) (c : ℕ) : Phase → Service → Prop
  | .start call p, s => p.leased = true → s.leases call.runId = some (.start c)
  | .shutdown (.waiting pending), s =>
    ∀ n a, s.attempts n = some a → a.phase.unsettled releasing = true → n ∈ pending
  | .shutdown .resolved, s =>
    ∀ n a, s.attempts n = some a → a.phase.unsettled releasing = false
  | _, _ => True

/-- No start is on its way beside a shutdown that has walked the map. -/
def Apart (k l : Phase) : Prop :=
  ¬ (k.walked = true ∧ l.starting = true) ∧ ¬ (l.walked = true ∧ k.starting = true)

/-- The assertions on a service. -/
def shutdownOutline (releasing : Bool) : Outline Service Phase where
  all _ s := Sane s
  each _ c a s := Relies releasing c a.state s
  pair _ _ a _ b _ := Apart a.state b.state

/-- No attempt releases its lease. -/
def Service.released (s : Service) : Bool :=
  (List.range s.handed).all fun n => (s.attempts n).all fun a => a.phase ≠ .written

/-- When a shutdown walks the map no start is on its way, and none is called later; `releasing`: no
attempt releases its lease then. -/
def quiet (releasing : Bool) (w : World Service Phase) : Act → Bool
  | .begin _ k =>
    !k.starting || (List.range w.next).all fun d => (w.calls d).all fun b => !b.state.walked
  | .move c _ =>
    !(w.calls c).any (fun a => a.state = .shutdown .called) ||
      ((List.range w.next).all fun d => (w.calls d).all fun b => !b.state.starting) &&
        (!releasing || w.shared.released)
  | _ => true

variable {releasing : Bool} {s t : Service} {c : ℕ} {call : StartCall} {p q : StartPhase}
  {o : Outcome}

/-! ## The parts of the service -/

theorem setStatus_runs (s : Service) (runId : JsString) (n : ℕ) (status : RunStatus)
    (r : JsString) : (s.setStatus runId n status).runs r = s.runs r ∨
      r = runId ∧ ∃ run, s.runs r = some run ∧ run.attempt = some n ∧
        (s.setStatus runId n status).runs r = some { run with status := status } := by
  unfold Service.setStatus
  cases hr : s.runs runId with
  | none => exact Or.inl rfl
  | some run =>
    dsimp only
    split
    · next hn =>
      by_cases he : r = runId
      · subst he
        exact Or.inr ⟨rfl, run, hr, hn, Function.update_self _ _ _⟩
      · exact Or.inl (Function.update_of_ne he _ _)
    · exact Or.inl rfl

@[simp] theorem setStatus_attempts (runId : JsString) (n : ℕ) (status : RunStatus) :
    (s.setStatus runId n status).attempts = s.attempts := by
  unfold Service.setStatus
  split
  · split <;> rfl
  · rfl

@[simp] theorem setStatus_leases (runId : JsString) (n : ℕ) (status : RunStatus) :
    (s.setStatus runId n status).leases = s.leases := by
  unfold Service.setStatus
  split
  · split <;> rfl
  · rfl

@[simp] theorem setStatus_handed (runId : JsString) (n : ℕ) (status : RunStatus) :
    (s.setStatus runId n status).handed = s.handed := by
  unfold Service.setStatus
  split
  · split <;> rfl
  · rfl

theorem setStatus_self {runId : JsString} {n : ℕ} {run : ActiveRun} (status : RunStatus)
    (hr : s.runs runId = some run) (hn : run.attempt = some n) :
    (s.setStatus runId n status).runs runId = some { run with status := status } := by
  unfold Service.setStatus
  rw [hr]
  dsimp only
  rw [if_pos hn]
  exact Function.update_self _ _ _

theorem setAttempt_cases {n m : ℕ} {a b : Attempt} (h : (s.setAttempt n a).attempts m = some b) :
    (m = n ∧ b = a) ∨ m ≠ n ∧ s.attempts m = some b := by
  by_cases he : m = n
  · subst he
    have hself : (s.setAttempt m a).attempts m = some a := Function.update_self _ _ _
    exact Or.inl ⟨rfl, Option.some.inj (h.symm.trans hself)⟩
  · exact Or.inr ⟨he, (Function.update_of_ne he _ _).symm.trans h⟩

/-- A run that another attempt has does not change with the status of an attempt. -/
theorem setStatus_other {runId r : JsString} {n m : ℕ} {run : ActiveRun} (status : RunStatus)
    (hr : s.runs r = some run) (hm : run.attempt = some m) (hne : m ≠ n) :
    (s.setStatus runId n status).runs r = some run := by
  rcases setStatus_runs s runId n status r with h | ⟨-, run', hr', hn, -⟩
  · rw [h]
    exact hr
  · rw [hr] at hr'
    cases hr'
    rw [hm] at hn
    exact absurd (Option.some.inj hn) hne

/-- **An attempt that goes on** with a status for its run keeps the service sane. -/
theorem Sane.advance (h : Sane s) {n : ℕ} {a : Attempt} {phase : AttemptPhase}
    {status : RunStatus} (ha : s.attempts n = some a)
    (hleased : a.phase.leased = true)
    (hflying : phase.flying = false)
    (hblocked : phase = .settled false → a.phase.flying = true ∧ status = .cleanupBlocked) :
    Sane ((s.setStatus a.runId n status).setAttempt n ⟨a.runId, phase⟩) := by
  refine ⟨?_, ?_, ?_, ?_⟩
  · intro m b hb
    show m < (s.setStatus a.runId n status).handed
    rw [setStatus_handed]
    rcases setAttempt_cases hb with ⟨rfl, -⟩ | ⟨-, hb⟩
    · exact h.bound m a ha
    · rw [setStatus_attempts] at hb
      exact h.bound m b hb
  · intro m b hb hf
    rcases setAttempt_cases hb with ⟨rfl, rfl⟩ | ⟨hne, hb⟩
    · rw [hflying] at hf
      cases hf
    · rw [setStatus_attempts] at hb
      obtain ⟨run, hr, hm, hrun⟩ := h.running m b hb hf
      exact ⟨run, setStatus_other status hr hm hne, hm, hrun⟩
  · intro m b hb hl
    show (s.setStatus a.runId n status).leases b.runId = _
    rw [setStatus_leases]
    rcases setAttempt_cases hb with ⟨rfl, rfl⟩ | ⟨-, hb⟩
    · exact h.leased m a ha hleased
    · rw [setStatus_attempts] at hb
      exact h.leased m b hb hl
  · intro m b hb hs
    rcases setAttempt_cases hb with ⟨rfl, rfl⟩ | ⟨hne, hb⟩
    · obtain ⟨hf, hstatus⟩ := hblocked hs
      obtain ⟨run, hr, hm, -⟩ := h.running m a ha hf
      exact ⟨_, setStatus_self status hr hm, hm, hstatus⟩
    · rw [setStatus_attempts] at hb
      obtain ⟨run, hr, hm, hst⟩ := h.blocked m b hb hs
      exact ⟨run, setStatus_other status hr hm hne, hm, hst⟩

theorem Sane.returned (h : Sane s) {n : ℕ} {runId : JsString} {status : RunStatus}
    (ha : s.attempts n = some ⟨runId, .executing⟩) :
    Sane (s.setAttempt n ⟨runId, .returned status⟩) := by
  refine ⟨?_, ?_, ?_, ?_⟩
  · intro m b hb
    rcases setAttempt_cases hb with ⟨rfl, -⟩ | ⟨-, hb⟩
    · exact h.bound m _ ha
    · exact h.bound m b hb
  · intro m b hb hf
    rcases setAttempt_cases hb with ⟨rfl, rfl⟩ | ⟨-, hb⟩
    · exact h.running m ⟨runId, .executing⟩ ha rfl
    · exact h.running m b hb hf
  · intro m b hb hl
    rcases setAttempt_cases hb with ⟨rfl, rfl⟩ | ⟨-, hb⟩
    · exact h.leased m ⟨runId, .executing⟩ ha rfl
    · exact h.leased m b hb hl
  · intro m b hb hs
    rcases setAttempt_cases hb with ⟨rfl, rfl⟩ | ⟨-, hb⟩
    · cases hs
    · exact h.blocked m b hb hs

theorem setLease_self (runId : JsString) (x : Option Holder) :
    (s.setLease runId x).leases runId = x := Function.update_self _ _ _

theorem setLease_ne {runId r : JsString} (h : r ≠ runId) (x : Option Holder) :
    (s.setLease runId x).leases r = s.leases r := Function.update_of_ne h _ _

theorem Sane.setLease (h : Sane s) {runId : JsString} (x : Option Holder)
    (hfree : ∀ n, s.leases runId ≠ some (.attempt n)) : Sane (s.setLease runId x) := by
  refine ⟨h.bound, h.running, ?_, h.blocked⟩
  intro m b hb hl
  have hlease := h.leased m b hb hl
  have hne : b.runId ≠ runId := by
    rintro rfl
    exact hfree m hlease
  exact (setLease_ne hne x).trans hlease

theorem Sane.release (h : Sane s) {n : ℕ} {runId : JsString}
    (ha : s.attempts n = some ⟨runId, .written⟩) :
    Sane ((s.setLease runId none).setAttempt n ⟨runId, .settled true⟩) := by
  have hown := h.leased n _ ha rfl
  refine ⟨?_, ?_, ?_, ?_⟩
  · intro m b hb
    rcases setAttempt_cases hb with ⟨rfl, -⟩ | ⟨-, hb⟩
    · exact h.bound m _ ha
    · exact h.bound m b hb
  · intro m b hb hf
    rcases setAttempt_cases hb with ⟨rfl, rfl⟩ | ⟨-, hb⟩
    · cases hf
    · exact h.running m b hb hf
  · intro m b hb hl
    rcases setAttempt_cases hb with ⟨rfl, rfl⟩ | ⟨hne, hb⟩
    · cases hl
    · have hlease := h.leased m b hb hl
      have hrun : b.runId ≠ runId := by
        rintro rfl
        rw [hown] at hlease
        cases hlease
        exact hne rfl
      exact (setLease_ne hrun none).trans hlease
  · intro m b hb hs
    rcases setAttempt_cases hb with ⟨rfl, rfl⟩ | ⟨-, hb⟩
    · cases hs
    · exact h.blocked m b hb hs

/-- What a step does not take from the calls: no attempt takes off, and no start loses its lease. -/
structure Passive (s t : Service) : Prop where
  unsettled : ∀ releasing n b, t.attempts n = some b → b.phase.unsettled releasing = true →
    ∃ a, s.attempts n = some a ∧ a.phase.unsettled releasing = true
  starts : ∀ r d, s.leases r = some (.start d) → t.leases r = some (.start d)
  handed : t.handed = s.handed

theorem Passive.refl : Passive s s := ⟨fun _ _ b hb hf => ⟨b, hb, hf⟩, fun _ _ h => h, rfl⟩

theorem passive_setAttempt {n : ℕ} {a b : Attempt} (hs : s.attempts n = some a)
    (hf : ∀ releasing, b.phase.unsettled releasing = true → a.phase.unsettled releasing = true)
    (ht : t.attempts = s.attempts)
    (hl : ∀ r d, s.leases r = some (.start d) → t.leases r = some (.start d))
    (hh : t.handed = s.handed) : Passive s (t.setAttempt n b) := by
  refine ⟨?_, hl, hh⟩
  intro releasing m b' hb' hfly
  rcases setAttempt_cases hb' with ⟨rfl, rfl⟩ | ⟨-, hb'⟩
  · exact ⟨a, hs, hf releasing hfly⟩
  · rw [ht] at hb'
    exact ⟨b', hb', hfly⟩

/-- What a call relies on, over a step that takes nothing from the calls. -/
theorem Relies.passive {k : Phase} (h : Relies releasing c k s) (hp : Passive s t) :
    Relies releasing c k t := by
  cases k with
  | start call p => exact fun hl => hp.starts _ _ (h hl)
  | shutdown p =>
    cases p with
    | called => trivial
    | waiting pending =>
      intro n b hb hf
      obtain ⟨a, ha, hfa⟩ := hp.unsettled releasing n b hb hf
      exact h n a ha hfa
    | resolved =>
      intro n b hb
      by_contra hf
      obtain ⟨a, ha, hfa⟩ := hp.unsettled releasing n b hb (Bool.not_eq_false _ ▸ hf)
      rw [h n a ha] at hfa
      cases hfa
  | interrupt ownerId runId ended => trivial

/-- **The handlers of the attempts, and other processes.** -/
theorem happens_spec {e : Event} (h : Sane s) (ht : happens e s = some t) :
    Sane t ∧ Passive s t := by
  cases e with
  | executed n status =>
    simp only [happens] at ht
    split at ht
    · next runId ha =>
      cases status with
      | some status =>
        dsimp only at ht
        split at ht
        · cases ht
          exact ⟨h.returned ha, passive_setAttempt ha (fun _ _ => rfl) rfl (fun _ _ h => h) rfl⟩
        · cases ht
      | none =>
        cases ht
        refine ⟨h.advance ha rfl rfl (fun _ => ⟨rfl, rfl⟩),
          passive_setAttempt ha (fun _ _ => rfl) (setStatus_attempts _ _ _) ?_
            (setStatus_handed _ _ _)⟩
        simp
    · cases ht
  | snapshot n ok =>
    simp only [happens] at ht
    split at ht
    · next runId status ha =>
      split at ht
      · cases ht
        have hphase : (if status = .cleanupBlocked then AttemptPhase.settled true
            else .written) = .settled true ∨
              (if status = .cleanupBlocked then AttemptPhase.settled true
                else .written) = .written := by
          split
          · exact Or.inl rfl
          · exact Or.inr rfl
        generalize (if status = .cleanupBlocked then AttemptPhase.settled true
          else .written) = phase at hphase ⊢
        refine ⟨h.advance ha rfl ?_ ?_,
          passive_setAttempt ha (fun _ _ => rfl) (setStatus_attempts _ _ _) (by simp)
            (setStatus_handed _ _ _)⟩
        · rcases hphase with rfl | rfl <;> rfl
        · rcases hphase with rfl | rfl <;> exact fun hs => by cases hs
      · cases ht
        exact ⟨h.advance ha rfl rfl (fun _ => ⟨rfl, rfl⟩),
          passive_setAttempt ha (fun _ _ => rfl) (setStatus_attempts _ _ _) (by simp)
            (setStatus_handed _ _ _)⟩
    · cases ht
  | released n ok =>
    simp only [happens] at ht
    split at ht
    · next runId ha =>
      split at ht
      · cases ht
        refine ⟨h.release ha, passive_setAttempt ha (by simp) rfl ?_ rfl⟩
        intro r d hr
        have hne : r ≠ runId := by
          rintro rfl
          rw [h.leased n _ ha rfl] at hr
          cases hr
        exact (setLease_ne hne none).trans hr
      · cases ht
        exact ⟨h.advance ha rfl rfl (fun hs => by cases hs),
          passive_setAttempt ha (by simp) (setStatus_attempts _ _ _) (by simp)
            (setStatus_handed _ _ _)⟩
    · cases ht
  | otherTakes runId =>
    simp only [happens] at ht
    split at ht
    · next hl =>
      cases ht
      refine ⟨h.setLease _ (fun n hn => by rw [hl] at hn; cases hn),
        fun _ n b hb hf => ⟨b, hb, hf⟩, ?_, rfl⟩
      intro r d hr
      have hne : r ≠ runId := by
        rintro rfl
        rw [hl] at hr
        cases hr
      exact (setLease_ne hne _).trans hr
    · cases ht
  | otherFrees runId =>
    simp only [happens] at ht
    split at ht
    · next hl =>
      cases ht
      refine ⟨h.setLease _ (fun n hn => by rw [hl] at hn; cases hn),
        fun _ n b hb hf => ⟨b, hb, hf⟩, ?_, rfl⟩
      intro r d hr
      have hne : r ≠ runId := by
        rintro rfl
        rw [hl] at hr
        cases hr
      exact (setLease_ne hne _).trans hr
    · cases ht

/-- Runs that are stopped are running runs still, and the others are as they were. -/
structure Stopped (s t : Service) : Prop where
  attempts : t.attempts = s.attempts
  leases : t.leases = s.leases
  handed : t.handed = s.handed
  runs : ∀ r run, s.runs r = some run → ∃ run', t.runs r = some run' ∧
    run'.attempt = run.attempt ∧ (run.running = true → run'.running = true) ∧
      (run.running = false → run' = run)

theorem Stopped.sane (hst : Stopped s t) (h : Sane s) : Sane t := by
  refine ⟨?_, ?_, ?_, ?_⟩
  · intro n a ha
    rw [hst.attempts] at ha
    rw [hst.handed]
    exact h.bound n a ha
  · intro n a ha hf
    rw [hst.attempts] at ha
    obtain ⟨run, hr, hn, hrun⟩ := h.running n a ha hf
    obtain ⟨run', hr', hn', hrun', -⟩ := hst.runs _ run hr
    exact ⟨run', hr', hn'.trans hn, hrun' hrun⟩
  · intro n a ha hl
    rw [hst.attempts] at ha
    rw [hst.leases]
    exact h.leased n a ha hl
  · intro n a ha hs
    rw [hst.attempts] at ha
    obtain ⟨run, hr, hn, hstatus⟩ := h.blocked n a ha hs
    obtain ⟨run', hr', -, -, hsame⟩ := hst.runs _ run hr
    have hidle : run.running = false := by
      simp [ActiveRun.running, hstatus]
    rw [hsame hidle] at hr'
    exact ⟨run, hr', hn, hstatus⟩

theorem Stopped.passive (hst : Stopped s t) : Passive s t := by
  refine ⟨?_, ?_, hst.handed⟩
  · intro _ n b hb hf
    rw [hst.attempts] at hb
    exact ⟨b, hb, hf⟩
  · intro r d hr
    rw [hst.leases]
    exact hr

theorem stopped_interrupt (ownerId runId : JsString) :
    Stopped s (interruptRun ownerId runId s) := by
  unfold interruptRun
  have hrefl : Stopped s s :=
    ⟨rfl, rfl, rfl, fun r run hr => ⟨run, hr, rfl, fun h => h, fun _ => rfl⟩⟩
  cases hr : s.runs runId with
  | none => exact hrefl
  | some run =>
    dsimp only
    split
    · next hactive =>
      refine ⟨rfl, rfl, rfl, ?_⟩
      intro r run' hr'
      by_cases he : r = runId
      · subst he
        rw [hr] at hr'
        cases hr'
        have hrunning : run.running = true := decide_eq_true (Or.inl hactive.2)
        refine ⟨_, Function.update_self _ _ _, rfl, fun _ => decide_eq_true (Or.inr rfl), ?_⟩
        intro hidle
        rw [hrunning] at hidle
        cases hidle
      · exact ⟨run', (Function.update_of_ne he _ _).trans hr', rfl, fun h => h, fun _ => rfl⟩
    · exact hrefl

theorem stopped_stopAll : Stopped s s.stopAll := by
  refine ⟨rfl, rfl, rfl, ?_⟩
  intro r run hr
  refine ⟨if run.running then { run with status := .stopping } else run, ?_, ?_, ?_, ?_⟩
  · show (s.runs r).map _ = _
    rw [hr]
    rfl
  · split <;> rfl
  · intro hrun
    rw [if_pos hrun]
    exact decide_eq_true (Or.inr rfl)
  · intro hrun
    rw [hrun]
    rfl

theorem Sane.not_written (h : Sane s) (hs : s.released = true) {n : ℕ} {a : Attempt}
    (ha : s.attempts n = some a) : a.phase ≠ .written := by
  have hall := List.all_eq_true.mp hs n (List.mem_range.mpr (h.bound n a ha))
  rw [ha, Option.all_some] at hall
  exact of_decide_eq_true hall

/-- **What shutdown awaits**: every attempt that is not settled is in its list. -/
theorem Sane.pending (h : Sane s) (hs : releasing = true → s.released = true) {n : ℕ}
    {a : Attempt} (ha : s.attempts n = some a) (hu : a.phase.unsettled releasing = true) :
    n ∈ (List.range s.handed).filter s.isRunning := by
  have hf : a.phase.flying = true := by
    rcases (Bool.or_eq_true _ _).mp hu with hf | hw
    · exact hf
    · obtain ⟨hr, hw⟩ := (Bool.and_eq_true _ _).mp hw
      exact absurd (of_decide_eq_true hw) (h.not_written (hs hr) ha)
  refine List.mem_filter.mpr ⟨List.mem_range.mpr (h.bound n a ha), ?_⟩
  obtain ⟨run, hr, hn, hrun⟩ := h.running n a ha hf
  unfold Service.isRunning
  rw [ha, Option.any_some, hr, Option.any_some]
  exact decide_eq_true ⟨hn, hrun⟩

theorem moveShutdown_spec {a b : ShutdownPhase} (h : Sane s)
    (hr : Relies releasing c (.shutdown a) s)
    (hs : a = .called → releasing = true → s.released = true)
    (ht : moveShutdown a s = some (t, b)) :
    Sane t ∧ Passive s t ∧ Relies releasing c (.shutdown b) t := by
  cases a with
  | called =>
    cases ht
    exact ⟨stopped_stopAll.sane h, stopped_stopAll.passive,
      fun n a ha hf => h.pending (hs rfl) ha hf⟩
  | waiting pending =>
    simp only [moveShutdown] at ht
    split at ht
    · next hall =>
      cases ht
      refine ⟨h, .refl, ?_⟩
      intro n a ha
      by_contra hf
      have hmem := hr n a ha (Bool.not_eq_false _ ▸ hf)
      have hsettled := List.all_eq_true.mp hall n hmem
      rw [ha, Option.any_some] at hsettled
      rcases of_decide_eq_true hsettled with hs | hs <;> simp [hs] at hf
    · cases ht
  | resolved => cases ht

/-! ## Starts -/

/-- What a start does: nothing but to its lease, or it hands its attempt over under it. -/
inductive StartChange (c : ℕ) (call : StartCall) (q : StartPhase) (s t : Service) : Prop
  | same (hattempts : t.attempts = s.attempts) (hruns : t.runs = s.runs)
      (hhanded : t.handed = s.handed) (hlease : t.leases = s.leases)
      (hown : q.leased = true → s.leases call.runId = some (.start c))
  | lease (x : Option Holder) (hattempts : t.attempts = s.attempts) (hruns : t.runs = s.runs)
      (hhanded : t.handed = s.handed) (hlease : t.leases = (s.setLease call.runId x).leases)
      (hbefore : s.leases call.runId = none ∨ s.leases call.runId = some (.start c))
      (hown : q.leased = true → x = some (.start c))
  | handOver (hq : q = .ended (some .active)) (hbefore : s.leases call.runId = some (.start c))
      (hattempts : t.attempts = (s.handOver call.ownerId call.runId).attempts)
      (hruns : t.runs = (s.handOver call.ownerId call.runId).runs)
      (hhanded : t.handed = s.handed + 1)
      (hlease : t.leases = (s.handOver call.ownerId call.runId).leases)

theorem takeTurn_leased (call : StartCall) (o : Outcome) (s : Service) :
    (takeTurn call o s).leased = false := by
  unfold takeTurn
  split
  · rfl
  · rfl
  · rfl
  · split <;> rfl
  · dsimp only
    split <;> split <;> rfl

/-- **What a step of a start does.** -/
theorem nextStart_change (h : Relies releasing c (.start call p) s)
    (ht : nextStart c call p o s = some (t, q)) : StartChange c call q s t := by
  cases p with
  | called =>
    cases o with
    | ok =>
      cases ht
      exact .same rfl rfl rfl rfl (fun h => by cases h)
    | fails =>
      cases ht
      exact .same rfl rfl rfl rfl (fun h => by cases h)
  | waiting =>
    simp only [nextStart] at ht
    split at ht
    · cases ht
      exact .same rfl rfl rfl rfl (fun h => by cases h)
    · cases ht
  | turn =>
    cases ht
    refine .same rfl rfl rfl rfl ?_
    rw [takeTurn_leased]
    exact fun h => by cases h
  | preparing await =>
    cases o with
    | fails =>
      have hq : q = (if await.leased then .failing else .ended none) ∧ t = s := by
        cases await <;> cases ht <;> exact ⟨rfl, rfl⟩
      obtain ⟨rfl, rfl⟩ := hq
      refine .same rfl rfl rfl rfl ?_
      intro hl
      cases hawait : await.leased with
      | true => exact h hawait
      | false =>
        rw [hawait] at hl
        cases hl
    | ok =>
      cases await with
      | lease =>
        simp only [nextStart] at ht
        split at ht
        · next hfree =>
          cases ht
          exact .lease _ rfl rfl rfl rfl (Or.inl hfree) (fun _ => rfl)
        · cases ht
          exact .same rfl rfl rfl rfl (fun h => by cases h)
      | execution =>
        cases ht
        exact .handOver rfl (h rfl) rfl rfl rfl rfl
      | admission =>
        cases ht
        exact .same rfl rfl rfl rfl (fun h => by cases h)
      | _ =>
        cases ht
        exact .same rfl rfl rfl rfl (fun _ => h rfl)
  | failing =>
    cases ht
    exact .lease none rfl rfl rfl rfl (Or.inr (h rfl)) (fun h => by cases h)
  | ended receipt => cases ht

theorem moveStart_change (h : Relies releasing c (.start call p) s)
    (ht : moveStart c call p o s = some (t, q)) : StartChange c call q s t := by
  obtain ⟨⟨u, q'⟩, hn, hr⟩ := Option.map_eq_some_iff.mp ht
  have hu := nextStart_change h hn
  cases q' with
  | ended receipt =>
    cases hr
    cases hu with
    | same h1 h2 h3 h4 h5 => exact .same h1 h2 h3 h4 h5
    | lease x h1 h2 h3 h4 h5 h6 => exact .lease x h1 h2 h3 h4 h5 h6
    | handOver h1 h2 h3 h4 h5 h6 => exact .handOver h1 h2 h3 h4 h5 h6
  | _ =>
    cases hr
    exact hu

theorem moveStart_ended (ht : moveStart c call p o s = some (t, q)) :
    Phase.starting (.start call p) = true := by
  obtain ⟨⟨u, q'⟩, hn, -⟩ := Option.map_eq_some_iff.mp ht
  cases p with
  | ended receipt => cases hn
  | _ => rfl

/-- The attempts and runs after an attempt is handed over, when no attempt has the lease. -/
theorem Sane.handOver (h : Sane s) {ownerId runId : JsString}
    (hfree : ∀ n, s.leases runId ≠ some (.attempt n)) : Sane (s.handOver ownerId runId) := by
  have hother : ∀ n a, s.attempts n = some a → a.phase.leased = true → a.runId ≠ runId := by
    rintro n a ha hl rfl
    exact hfree n (h.leased n a ha hl)
  have hcases : ∀ n a, (s.handOver ownerId runId).attempts n = some a →
      (n = s.handed ∧ a = ⟨runId, .executing⟩) ∨ n ≠ s.handed ∧ s.attempts n = some a := by
    intro n a ha
    by_cases hn : n = s.handed
    · subst hn
      have hself : (s.handOver ownerId runId).attempts s.handed = some ⟨runId, .executing⟩ :=
        Function.update_self _ _ _
      exact Or.inl ⟨rfl, Option.some.inj (ha.symm.trans hself)⟩
    · exact Or.inr ⟨hn, (Function.update_of_ne hn _ _).symm.trans ha⟩
  have hruns : ∀ r, r ≠ runId → (s.handOver ownerId runId).runs r = s.runs r :=
    fun r hr => Function.update_of_ne hr _ _
  have hleases : ∀ r, r ≠ runId → (s.handOver ownerId runId).leases r = s.leases r :=
    fun r hr => Function.update_of_ne hr _ _
  refine ⟨?_, ?_, ?_, ?_⟩
  · intro n a ha
    show n < s.handed + 1
    rcases hcases n a ha with ⟨rfl, -⟩ | ⟨-, ha⟩
    · exact Nat.lt_succ_self _
    · exact Nat.lt_succ_of_lt (h.bound n a ha)
  · intro n a ha hf
    rcases hcases n a ha with ⟨rfl, rfl⟩ | ⟨-, ha⟩
    · exact ⟨_, Function.update_self _ _ _, rfl, decide_eq_true (Or.inl rfl)⟩
    · have hne : a.runId ≠ runId := by
        refine hother n a ha ?_
        cases hphase : a.phase <;> rw [hphase] at hf <;> first | rfl | cases hf
      rw [hruns _ hne]
      exact h.running n a ha hf
  · intro n a ha hl
    rcases hcases n a ha with ⟨rfl, rfl⟩ | ⟨-, ha⟩
    · exact Function.update_self _ _ _
    · rw [hleases _ (hother n a ha hl)]
      exact h.leased n a ha hl
  · intro n a ha hs
    rcases hcases n a ha with ⟨rfl, rfl⟩ | ⟨-, ha⟩
    · cases hs
    · rw [hruns _ (hother n a ha (by rw [hs]; rfl))]
      exact h.blocked n a ha hs

theorem Sane.congr (h : Sane s) (hattempts : t.attempts = s.attempts) (hruns : t.runs = s.runs)
    (hhanded : t.handed = s.handed) (hlease : t.leases = s.leases) : Sane t := by
  obtain ⟨h1, h2, h3, h4⟩ := h
  rw [← hattempts] at h1 h2 h3 h4
  rw [← hhanded] at h1
  rw [← hruns] at h2 h4
  rw [← hlease] at h3
  exact ⟨h1, h2, h3, h4⟩

theorem StartChange.sane (h : StartChange c call q s t) (hs : Sane s) : Sane t := by
  cases h with
  | same hattempts hruns hhanded hlease _ => exact hs.congr hattempts hruns hhanded hlease
  | lease x hattempts hruns hhanded hlease hbefore _ =>
    refine (hs.setLease x ?_).congr hattempts hruns hhanded hlease
    intro n hn
    rcases hbefore with hb | hb <;> rw [hb] at hn <;> cases hn
  | handOver _ hbefore hattempts hruns hhanded hlease =>
    refine (hs.handOver ?_).congr hattempts hruns hhanded hlease
    intro n hn
    rw [hbefore] at hn
    cases hn

theorem StartChange.own (releasing : Bool) (h : StartChange c call q s t) :
    Relies releasing c (.start call q) t := by
  intro hq
  cases h with
  | same _ _ _ hlease hown =>
    rw [hlease]
    exact hown hq
  | lease x _ _ _ hlease _ hown =>
    rw [hlease, hown hq]
    exact setLease_self _ _
  | handOver hended => rw [hended] at hq; cases hq

theorem StartChange.starts (h : StartChange c call q s t) {d : ℕ} (hd : d ≠ c) {r : JsString}
    (hr : s.leases r = some (.start d)) : t.leases r = some (.start d) := by
  have hne : ∀ x : Option Holder, s.leases call.runId = x → x ≠ some (.start d) →
      r ≠ call.runId := by
    rintro x hx hne rfl
    exact hne (hx.symm.trans hr)
  have hstart : some (Holder.start c) ≠ some (.start d) := by
    rintro ⟨⟩
    exact hd rfl
  cases h with
  | same _ _ _ hlease _ =>
    rw [hlease]
    exact hr
  | lease x _ _ _ hlease hbefore _ =>
    have hrun : r ≠ call.runId := by
      rcases hbefore with hb | hb
      · exact hne _ hb (by simp)
      · exact hne _ hb hstart
    rw [hlease, setLease_ne hrun]
    exact hr
  | handOver _ hbefore _ _ _ hlease =>
    rw [hlease]
    exact (Function.update_of_ne (hne _ hbefore hstart) _ _).trans hr

/-! ## Quiet shutdowns -/

theorem quiet_begin {w : World Service Phase} {p d : ℕ} {k : Phase} {b : Calls.Call Phase}
    (hw : (shutdownOutline releasing).Holds w) (hq : quiet releasing w (.begin p k) = true)
    (hk : k.starting = true)
    (hd : w.calls d = some b) : b.state.walked = false := by
  simp only [quiet, hk, Bool.not_true, Bool.false_or, List.all_eq_true, List.mem_range] at hq
  have hlt : d < w.next := by
    by_contra hge
    rw [hw.unused d (Nat.le_of_not_lt hge)] at hd
    cases hd
  simpa [hd] using hq d hlt

theorem quiet_walk {w : World Service Phase} {c : ℕ} {o : Outcome} {a : Calls.Call Phase}
    (hw : (shutdownOutline releasing).Holds w) (hq : quiet releasing w (.move c o) = true)
    (hc : w.calls c = some a) (ha : a.state = .shutdown .called) :
    (∀ d b, w.calls d = some b → b.state.starting = false) ∧
      (releasing = true → w.shared.released = true) := by
  simp only [quiet, hc, ha, Option.any_some, decide_true, Bool.not_true, Bool.false_or,
    Bool.and_eq_true, Bool.or_eq_true, Bool.not_eq_true', List.all_eq_true, List.mem_range] at hq
  obtain ⟨hstarts, hreleased⟩ := hq
  refine ⟨?_, ?_⟩
  · intro d b hd
    have hlt : d < w.next := by
      by_contra hge
      rw [hw.unused d (Nat.le_of_not_lt hge)] at hd
      cases hd
    simpa [hd] using hstarts d hlt
  · rintro rfl
    simpa using hreleased

theorem apart_start {call : StartCall} {p q : StartPhase} {k : Phase}
    (h : Apart (.start call p) k) (hp : Phase.starting (.start call p) = true) :
    Apart (.start call q) k ∧ Apart k (.start call q) := by
  have hk : k.walked = false := by
    by_contra hk
    exact h.2 ⟨Bool.not_eq_false _ ▸ hk, hp⟩
  have hq : Phase.walked (.start call q) = false := rfl
  simp [Apart, hk, hq]

/-- Two calls are apart when neither is a start, and when one of them is neither a start nor a
shutdown that has walked the map. -/
theorem apart_of_starting {k l : Phase} (hk : k.starting = false) (hl : l.starting = false) :
    Apart k l ∧ Apart l k := by
  simp [Apart, hk, hl]

theorem apart_of_idle {k l : Phase} (hk : k.starting = false) (hw : k.walked = false) :
    Apart k l ∧ Apart l k := by
  simp [Apart, hk, hw]

/-- **The assertions on quiet shutdowns** are kept by every step. -/
theorem shutdownOutline_sound :
    (shutdownOutline releasing).Sound program (fun w act => quiet releasing w act = true) where
  begun := by
    intro w p k hw hq he _
    have hwalked : k.walked = false := by
      cases k with
      | start call p => rfl
      | shutdown p => cases p <;> first | rfl | cases he
      | interrupt ownerId runId ended => rfl
    refine ⟨?_, ?_⟩
    · cases k with
      | start call p =>
        cases p with
        | called => exact fun hl => nomatch hl
        | _ => exact nomatch he
      | shutdown p => cases p <;> trivial
      | interrupt ownerId runId ended => trivial
    · intro d b hb
      have hapart : ¬ (b.state.walked = true ∧ k.starting = true) := by
        rintro ⟨hwalk, hk⟩
        rw [quiet_begin hw hq hk hb] at hwalk
        cases hwalk
      have hself : ¬ (k.walked = true ∧ b.state.starting = true) := by
        rw [hwalked]
        rintro ⟨hk, -⟩
        cases hk
      exact ⟨⟨hself, hapart⟩, ⟨hapart, hself⟩⟩
  move := by
    intro w c a o t k' hw hq hc _ hm
    obtain ⟨process, k⟩ := a
    have hrelies : Relies releasing c k w.shared := hw.each c _ hc
    cases k with
    | start call p =>
      obtain ⟨⟨u, q⟩, hs, he⟩ := Option.map_eq_some_iff.mp hm
      cases he
      have hstep := moveStart_change hrelies hs
      have hp := moveStart_ended hs
      have hapart : ∀ d b, d ≠ c → w.calls d = some b →
          Apart (.start call q) b.state ∧ Apart b.state (.start call q) :=
        fun d b hd hb => apart_start (hw.pair c _ d b hd.symm hc hb) hp
      have hothers : ∀ d b, d ≠ c → w.calls d = some b → Relies releasing d b.state u := by
        intro d b hd hb
        have hpair := (hw.pair c _ d b hd.symm hc hb).2
        cases hk : b.state with
        | start call' p' =>
          intro hl
          have hrel : Relies releasing d b.state w.shared := hw.each d b hb
          rw [hk] at hrel
          exact hstep.starts hd (hrel hl)
        | shutdown p' =>
          cases p' with
          | called => trivial
          | _ =>
            rw [hk] at hpair
            exact absurd ⟨rfl, hp⟩ hpair
        | interrupt ownerId runId ended => trivial
      exact ⟨hstep.sane hw.all, hstep.own releasing,
        fun d b hd hb => ⟨hothers d b hd hb, hapart d b hd hb⟩,
        fun d b e f _ _ hne hd he => hw.pair d b e f hne hd he⟩
    | shutdown p =>
      obtain ⟨⟨u, q⟩, hs, he⟩ := Option.map_eq_some_iff.mp hm
      cases he
      have hwalk : p = .called → (∀ d b, w.calls d = some b → b.state.starting = false) ∧
          (releasing = true → w.shared.released = true) := by
        rintro rfl
        exact quiet_walk hw hq hc rfl
      obtain ⟨hsane, hpassive, hown⟩ :=
        moveShutdown_spec hw.all hrelies (fun hp => (hwalk hp).2) hs
      have hquiet : ∀ d b, d ≠ c → w.calls d = some b → b.state.starting = false := by
        intro d b hd hb
        cases p with
        | called => exact (hwalk rfl).1 d b hb
        | _ =>
          by_contra hst
          exact (hw.pair c _ d b hd.symm hc hb).1 ⟨rfl, Bool.not_eq_false _ ▸ hst⟩
      refine ⟨hsane, hown, ?_, fun d b e f _ _ hne hd he => hw.pair d b e f hne hd he⟩
      intro d b hd hb
      exact ⟨Relies.passive (hw.each d b hb) hpassive, apart_of_starting rfl (hquiet d b hd hb)⟩
    | interrupt ownerId runId ended =>
      cases ended with
      | true => cases hm
      | false =>
        cases hm
        have hstop : Stopped w.shared (interruptRun ownerId runId w.shared) :=
          stopped_interrupt ownerId runId
        refine ⟨hstop.sane hw.all, trivial, ?_,
          fun d b e f _ _ hne hd he => hw.pair d b e f hne hd he⟩
        intro d b _ hb
        exact ⟨Relies.passive (hw.each d b hb) hstop.passive, apart_of_idle rfl rfl⟩
  die := by
    intro w p hw _
    exact ⟨hw.all, hw.each, hw.pair⟩
  outside := by
    intro w e t hw _ ht
    obtain ⟨hsane, hpassive⟩ := happens_spec hw.all ht
    exact ⟨hsane, fun c a hc => Relies.passive (hw.each c a hc) hpassive, hw.pair⟩

/-! ## Runs -/

/-- Every attempt has its result written, or its run is cleanup-blocked; `releasing`: its lease is
released too. -/
def Complete (releasing : Bool) (s : Service) : Prop :=
  ∀ n a, s.attempts n = some a →
    a.phase = .settled true ∨ releasing = false ∧ a.phase = .written ∨
      a.phase = .settled false ∧ ∃ run, s.runs a.runId = some run ∧ run.attempt = some n ∧
        run.status = .cleanupBlocked

variable {w v : World Service Phase} {process : ℕ}

theorem complete_of_resolved (hw : (shutdownOutline releasing).Holds w)
    (hc : w.calls c = some ⟨process, .shutdown .resolved⟩) : Complete releasing w.shared := by
  intro n a ha
  have hu : a.phase.unsettled releasing = false := hw.each c _ hc n a ha
  cases hphase : a.phase with
  | executing =>
    rw [hphase] at hu
    cases hu
  | returned status =>
    rw [hphase] at hu
    cases hu
  | written =>
    rw [hphase] at hu
    cases releasing with
    | true => cases hu
    | false => exact Or.inr (Or.inl ⟨rfl, rfl⟩)
  | settled written =>
    cases written with
    | true => exact Or.inl rfl
    | false => exact Or.inr (Or.inr ⟨rfl, hw.all.blocked n a ha hphase⟩)

theorem resolved_step {act : Act} (hw : (shutdownOutline releasing).Holds w)
    (hc : w.calls c = some ⟨process, .shutdown .resolved⟩) (hv : step w act = some v) :
    v.calls c = some ⟨process, .shutdown .resolved⟩ ∧ v.shared.handed = w.shared.handed := by
  cases act with
  | begin p k =>
    obtain ⟨-, -, rfl⟩ := World.step_begin hv
    have hne : c ≠ w.next := by
      rintro rfl
      rw [hw.unused _ le_rfl] at hc
      cases hc
    exact ⟨(World.setCall_ne hne _).trans hc, rfl⟩
  | move d o =>
    obtain ⟨⟨q, k⟩, t, k', hd, -, hm, rfl⟩ := World.step_move hv
    have hne : d ≠ c := by
      rintro rfl
      rw [hc] at hd
      cases hd
      cases hm
    refine ⟨(World.setCall_ne hne.symm _).trans hc, ?_⟩
    cases k with
    | start call p =>
      obtain ⟨⟨u, q⟩, hs, he⟩ := Option.map_eq_some_iff.mp hm
      exact absurd ⟨rfl, moveStart_ended hs⟩ (hw.pair c _ d _ hne.symm hc hd).1
    | shutdown p =>
      obtain ⟨⟨u, q⟩, hs, he⟩ := Option.map_eq_some_iff.mp hm
      cases he
      cases p with
      | called =>
        cases hs
        rfl
      | waiting pending =>
        simp only [moveShutdown] at hs
        split at hs <;> cases hs
        rfl
      | resolved => cases hs
    | interrupt ownerId runId ended =>
      cases ended <;> cases hm
      exact (stopped_interrupt ownerId runId).handed
  | die p =>
    cases hv
    exact ⟨hc, rfl⟩
  | outside e =>
    obtain ⟨t, ht, rfl⟩ := World.step_outside hv
    exact ⟨hc, (happens_spec hw.all ht).2.handed⟩

theorem sane_started (recovered : JsString → Option RecoveredRun) (taken : JsString → Bool) :
    Sane (started recovered taken) :=
  ⟨fun _ _ h => (nomatch h), fun _ _ h => (nomatch h), fun _ _ h => (nomatch h),
    fun _ _ h => (nomatch h)⟩

/-- **After a quiet shutdown** nothing executes and every attempt has its result written or its run
cleanup-blocked; then nothing starts any more. -/
theorem shutdown_complete (releasing : Bool) (recovered : JsString → Option RecoveredRun)
    (taken : JsString → Bool) (dead : ℕ → Bool) (as : List Act) (w : World Service Phase)
    (hrun : Runs.exec step (World.fresh dead (started recovered taken)) as = some w)
    (hquiet : Runs.Meets step (fun w act => quiet releasing w act = true)
      (World.fresh dead (started recovered taken)) as)
    (c process : ℕ) (hresolved : w.calls c = some ⟨process, .shutdown .resolved⟩) :
    Complete releasing w.shared ∧ ∀ bs v, Runs.exec step w bs = some v →
      Runs.Meets step (fun w act => quiet releasing w act = true) w bs →
        v.shared.handed = w.shared.handed ∧ Complete releasing v.shared := by
  have hsound : (shutdownOutline releasing).Sound program
      (fun w act => quiet releasing w act = true) := shutdownOutline_sound
  have hw : (shutdownOutline releasing).Holds w :=
    hsound.holds_exec (Outline.holds_fresh (sane_started recovered taken)) hquiet hrun
  refine ⟨complete_of_resolved hw hresolved, ?_⟩
  intro bs v hv hmeets
  have hend := Runs.exec_invariant
    (fun v => (shutdownOutline releasing).Holds v ∧
      v.calls c = some ⟨process, .shutdown .resolved⟩ ∧ v.shared.handed = w.shared.handed)
    (fun s act t hs hok ht => by
      obtain ⟨hs, hc, hh⟩ := hs
      obtain ⟨hc', hh'⟩ := resolved_step hs hc ht
      exact ⟨hsound.holds_step s act t hs hok ht, hc', hh'.trans hh⟩)
    ⟨hw, hresolved, rfl⟩ hmeets hv
  exact ⟨hend.2.2, complete_of_resolved hend.1 hend.2.1⟩

/-- A service without runs, and one launch. -/
abbrev emptyService : Service := started (fun _ => none) (fun _ => false)

/-- The launch of a run. -/
def launchRun : StartCall := ⟨.launch, ofString "owner-1", ofString "run-1"⟩

/-- The launch is about to hand its attempt over. -/
def launchPrepared : List Act :=
  .begin 0 (.start launchRun .called) :: List.replicate 12 (.move 0 .ok)

/-- Shutdown interrupts the attempt and awaits its result. -/
def shutdownAwaits : List Act :=
  launchPrepared ++ [.move 0 .ok, .begin 0 (.shutdown .called), .move 1 .ok,
    .outside (.executed 0 (some .interrupted)), .outside (.snapshot 0 true),
    .outside (.released 0 true), .move 1 .ok]

theorem shutdown_complete_interrupted : ∃ w,
    Runs.exec step (World.fresh (fun _ => false) emptyService) shutdownAwaits = some w ∧
      w.shared.attempts 0 = some ⟨ofString "run-1", .settled true⟩ ∧
      Complete true w.shared ∧ ∀ bs v, Runs.exec step w bs = some v →
        Runs.Meets step (fun w act => quiet true w act = true) w bs →
          v.shared.handed = w.shared.handed ∧ Complete true v.shared := by
  have hm : Runs.Meets step (fun w act => quiet true w act = true)
      (World.fresh (fun _ => false) emptyService) shutdownAwaits := by
    decide +kernel
  have hs : ((Runs.exec step (World.fresh (fun _ => false) emptyService) shutdownAwaits).any
      fun w => decide (w.calls 1 = some ⟨0, .shutdown .resolved⟩ ∧
        w.shared.attempts 0 = some ⟨ofString "run-1", .settled true⟩)) = true := by
    decide +kernel
  obtain ⟨w, hw, hc⟩ := (Option.any_eq_true _ _).mp hs
  obtain ⟨hc, ha⟩ := of_decide_eq_true hc
  exact ⟨w, hw, ha, shutdown_complete true _ _ _ _ w hw hm 1 0 hc⟩

/-- Shutdown finds no run, and the launch that was called before it hands its attempt over. -/
def shutdownOvertaken : List Act :=
  launchPrepared ++ [.begin 0 (.shutdown .called), .move 1 .ok, .move 1 .ok, .move 0 .ok]

/-- **A launch that shutdown does not see** starts its attempt after shutdown has resolved. -/
theorem shutdown_overtaken :
    ¬ ∀ (recovered : JsString → Option RecoveredRun) (taken : JsString → Bool) (dead : ℕ → Bool)
        (as : List Act) (w : World Service Phase) (c process : ℕ),
      Runs.exec step (World.fresh dead (started recovered taken)) as = some w →
        w.next = c + 1 → w.calls c = some ⟨process, .shutdown .resolved⟩ →
          Complete false w.shared := by
  intro h
  have hs : ((Runs.exec step (World.fresh (fun _ => false) emptyService) shutdownOvertaken).any
      fun w => decide (w.calls 1 = some ⟨0, .shutdown .resolved⟩ ∧ w.next = 2 ∧
        w.shared.attempts 0 = some ⟨ofString "run-1", .executing⟩)) = true := by
    decide +kernel
  obtain ⟨w, hw, hc⟩ := (Option.any_eq_true _ _).mp hs
  obtain ⟨hc, hnext, ha⟩ := of_decide_eq_true hc
  rcases h _ _ _ _ w 1 0 hw hnext hc 0 _ ha with hf | ⟨-, hf⟩ | ⟨hf, -⟩ <;> cases hf

end Shutdown

end PiSubagent
