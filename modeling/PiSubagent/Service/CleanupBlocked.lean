import PiSubagent.Lib.Runs
import PiSubagent.Persistence.JournalCrash
import PiSubagent.Persistence.SharedJournal
import PiSubagent.Service.Results

/-!
# Calls on a cleanup-blocked run

The owner's calls `reconcile`, `release` and `exportHandoff` on a run whose lease the seat still
holds, interleaved at their await points.

* `Instr`, `ClientCall.program`: a call as the list of its steps.
* `Seat`, `Seat.perform`: what the seat remembers, and one step of one call.
* `State.step`: any call takes its next step, or a new call starts.
* `State.Fresh`: no other call has appended since the call that appends read the journal.
* **`calls_keep_journal_intact`**: as long as every step is fresh, the journal stays intact.
-/

namespace PiSubagent

open JsonText Utf8 Runs

section

variable [SchemaText]

/-! ## Calls and their steps -/

/-- The calls that use a held lease. -/
inductive ClientCall where
  | reconcile
  | release
  | exportHandoff
deriving DecidableEq, Repr

/-- The steps of the calls, between two await points each. -/
inductive Instr where
  /-- `runExclusive`: wait for the calls before. -/
  | lock
  /-- The status checks a call starts with. -/
  | enter
  /-- `holdRunLease`: use the held lease or acquire one. -/
  | hold
  /-- `assertCurrent`, first half: read the lease record. -/
  | readLease
  /-- `assertCurrent` inside `holdRunLease`, second half. -/
  | checkHeld
  /-- `assertCurrent` elsewhere, second half. -/
  | checkLease
  /-- `acquireRunLease`: bind the port. -/
  | bind
  /-- `acquireRunLease`: replace the record. -/
  | publish
  /-- `RunJournal.open`: read and parse the file. -/
  | openRead
  /-- `RunJournal.open`: cut the torn tail. -/
  | openRepair
  /-- `assertDurableStatus`: read the events. -/
  | durableEvents
  /-- `assertDurableStatus`: read the snapshot, and decide. -/
  | durableSnapshot
  /-- `journal.readEvents`. -/
  | readEvents
  /-- What the call does outside of the store, and the result it derives. -/
  | work
  /-- `append`: build and serialize the event. -/
  | serialize
  /-- `append`: `stat` the file. -/
  | statFile
  /-- `append`: the line reaches the file. -/
  | writeLine
  /-- `append`: `sync` and `close` are done, the caller has the event. -/
  | ackLine
  /-- `writeSnapshot`: the new snapshot is renamed into place. -/
  | writeSnapshot
  /-- The seat takes over the result. -/
  | remember
  /-- `settleHeldLease`: drop the held lease if the run left cleanup-blocked. -/
  | settle
  /-- `settleHeldLease`: close the listener. -/
  | closeHeld
  /-- `held.done()`. -/
  | done
  /-- The end of `runExclusive`. -/
  | unlock
deriving DecidableEq, Repr

/-- `RunJournal.open`. -/
def openSteps : List Instr := [.readLease, .checkLease, .openRead, .openRepair]

/-- `assertDurableStatus`. -/
def durableSteps : List Instr := [.durableEvents, .durableSnapshot]

/-- `journal.append`. -/
def appendSteps : List Instr :=
  [.readLease, .checkLease, .serialize, .statFile, .writeLine, .ackLine]

/-- `journal.writeSnapshot`. -/
def snapshotSteps : List Instr := [.readLease, .checkLease, .writeSnapshot]

/-- The steps of a call. -/
def ClientCall.program : ClientCall → List Instr
  | .reconcile =>
    [.enter, .hold] ++ openSteps ++ durableSteps ++ [.readEvents, .work] ++ appendSteps ++
      snapshotSteps ++ [.remember, .settle, .done]
  | .release =>
    [.lock, .enter, .hold] ++ openSteps ++ durableSteps ++ [.readEvents, .work] ++ appendSteps ++
      snapshotSteps ++ [.remember, .settle, .done, .unlock]
  | .exportHandoff =>
    [.lock, .enter, .hold] ++ openSteps ++ durableSteps ++ [.work] ++ appendSteps ++
      [.remember, .done, .unlock]

/-- A lease: its identity and generation. -/
structure Lease where
  id : ℕ
  generation : ℕ
deriving DecidableEq, Repr

/-- A call under way: the steps still to take, those its `finally` blocks take when it throws, and
its local values. -/
structure Call where
  kind : ClientCall
  todo : List Instr
  fin : List Instr
  lease : Option Lease
  reused : Bool
  seenRecord : Option Lease
  expected : RunStatus
  events : List JournalEvent
  execution : Option AttemptExecutionResult
  entry : JsString × JsData
  append : Option AppendCall
  closing : Option Lease

/-- A call that has not taken a step yet. -/
def Call.new (kind : ClientCall) : Call where
  kind := kind
  todo := kind.program
  fin := []
  lease := none
  reused := false
  seenRecord := none
  expected := .cleanupBlocked
  events := []
  execution := none
  entry := ([], ⟨.null, trivial⟩)
  append := none
  closing := none

/-- The call throws. -/
def Call.throw (c : Call) : Call := { c with todo := c.fin }

/-- What the world outside the store answers a step. -/
structure Env where
  evidence : Option Evidence
  worktreesReleased : Bool
  exported : Option JsData
  eventId : JsString
  timestamp : JsString

/-- The run as its seat remembers it, its snapshot, and its lease on this host. -/
structure Seat where
  plan : RunPlan
  status : RunStatus
  result : Option AttemptExecutionResult
  held : Option Lease
  port : Option ℕ
  record : Option Lease
  nextLease : ℕ
  snapshot : Option (AttemptExecutionResult × ℕ)
  busy : Bool
  calls : List Call

/-- The statuses a hand-off can be exported in. -/
def handoffExportStatuses : List RunStatus := [.completed, .failed, .cancelled, .cleanupBlocked]

/-- Whether a call goes on after its first checks. -/
def Seat.admits (s : Seat) : ClientCall → Bool
  | .reconcile => s.status = .cleanupBlocked
  | .release => s.status ≠ .active ∧ s.status ≠ .stopping ∧ s.status ≠ .interrupted
  | .exportHandoff =>
    s.status ∈ handoffExportStatuses ∧
      ((s.result.bind fun r => r.handoff).bind fun w => w.handoffCommit).isSome

/-- Close the listener of a lease. -/
def Seat.close (s : Seat) (l : Lease) : Seat :=
  { s with port := if s.port = some l.id then none else s.port }

/-- `assertCurrent`, given the record it has read: the listener is open and the record is this
lease's. -/
def Seat.isCurrent (s : Seat) (lease seen : Option Lease) : Bool :=
  match lease with
  | some l => s.port = some l.id ∧ seen = some l
  | none => false

/-- What a call does outside the store, and the result and event it derives from the answer. -/
def Seat.work (s : Seat) (c : Call) (env : Env) : Call :=
  match c.kind with
  | .reconcile =>
    match env.evidence with
    | none => c.throw
    | some seen =>
      match reconcileExecution s.plan (hasPendingAbandonment c.events) s.result seen with
      | none => c.throw
      | some execution =>
        { c with
          execution := some execution
          entry := ((reconcileEvent s.plan execution seen).1,
            ⟨(reconcileEvent s.plan execution seen).2, reconcileEvent_proper _ _ _⟩) }
  | .release =>
    if !env.worktreesReleased then c.throw
    else
      match s.result with
      | none =>
        { c with
          execution := none
          entry := ((releaseEvent s.plan).1, ⟨(releaseEvent s.plan).2, releaseEvent_proper _⟩)
          todo := appendSteps ++ [.remember, .settle, .done, .unlock] }
      | some memory =>
        match releaseExecution s.plan (hasPendingAbandonment c.events) memory with
        | none => c.throw
        | some execution =>
          { c with
            execution := some execution
            entry := ((releaseEvent s.plan).1, ⟨(releaseEvent s.plan).2, releaseEvent_proper _⟩) }
  | .exportHandoff =>
    match env.exported with
    | none => c.throw
    | some data => { c with entry := (ofString "handoff-exported", data) }

/-- Whether `assertDurableStatus` accepts, given the events it has read: it reads the snapshot only
when the events do not decide, and refuses one that is ahead of the journal. -/
def Seat.durable (s : Seat) (j : RunJournal) (events : List JournalEvent) (expected : RunStatus) :
    Bool :=
  if (events.any fun e => e.type = ofString "run-abandoned") || hasPendingAbandonment events then
    assertDurableStatus events none expected
  else
    match s.snapshot with
    | some (state, lastSequence) =>
      decide (lastSequence ≤ j.sequence) && assertDurableStatus events (some state) expected
    | none => false

/-- One step of a call, on the seat; `none` when the call has to wait. The call's remaining steps
are already those after this one. -/
def Seat.perform (s : Seat) (shared : SharedJournal) (i : ℕ) (c : Call) (env : Env) :
    Instr → Option (Seat × Call)
  | .lock => if s.busy then none else some ({ s with busy := true }, { c with fin := [.unlock] })
  | .enter =>
    if s.admits c.kind then some (s, c)
    else some (s, c.throw)
  | .hold =>
    match s.held with
    | some l =>
      some (s, { c with lease := some l, reused := true, todo := .readLease :: .checkHeld :: c.todo })
    | none => some (s, { c with todo := .bind :: .publish :: c.todo })
  | .readLease => some (s, { c with seenRecord := s.record })
  | .checkHeld =>
    if s.isCurrent c.lease c.seenRecord then some (s, { c with fin := .done :: c.fin })
    else some ({ s with held := none }, { c with todo := .bind :: .publish :: c.todo })
  | .checkLease => if s.isCurrent c.lease c.seenRecord then some (s, c) else some (s, c.throw)
  | .bind =>
    match s.port with
    | some _ => some (s, c.throw)
    | none =>
      some ({ s with port := some s.nextLease, nextLease := s.nextLease + 1 },
        { c with lease := some ⟨s.nextLease, 0⟩, reused := false })
  | .publish =>
    match c.lease with
    | none => some (s, c.throw)
    | some l =>
      let lease : Lease := ⟨l.id, (s.record.map Lease.generation).getD 0 + 1⟩
      some ({ s with record := some lease }, { c with lease := some lease, fin := .done :: c.fin })
  | .openRead => if shared.opener.isNone then some (s, c.throw) else some (s, c)
  | .openRepair =>
    some (s, { c with expected := if c.kind = .reconcile then .cleanupBlocked else s.status })
  | .durableEvents | .readEvents =>
    match shared.openers i with
    | none => some (s, c.throw)
    | some o =>
      match o.journal.readEvents shared.file with
      | .error _ => some (s, c.throw)
      | .ok events => some (s, { c with events := events })
  | .durableSnapshot =>
    match shared.openers i with
    | none => some (s, c.throw)
    | some o => if s.durable o.journal c.events c.expected then some (s, c) else some (s, c.throw)
  | .work => some (s, s.work c env)
  | .serialize =>
    let call : AppendCall := ⟨c.entry.1, some c.entry.2, env.eventId, env.timestamp⟩
    match shared.openers i with
    | none => some (s, c.throw)
    | some o =>
      match o.journal.serialize call with
      | .error _ => some (s, c.throw)
      | .ok _ => some (s, { c with append := some call })
  | .statFile =>
    match shared.openers i, c.append with
    | some o, some call => if (o.journal.admits call shared.file).isSome then some (s, c)
      else some (s, c.throw)
    | _, _ => some (s, c.throw)
  | .writeLine | .ackLine => some (s, c)
  | .writeSnapshot =>
    match c.execution, shared.openers i with
    | some execution, some o => some ({ s with snapshot := some (execution, o.journal.sequence) }, c)
    | _, _ => some (s, c.throw)
  | .remember =>
    match c.execution with
    | some execution => some ({ s with result := some execution, status := execution.result.status }, c)
    | none => some (s, c)
  | .settle =>
    match s.held with
    | some l =>
      if s.status ≠ .cleanupBlocked then
        some ({ s with held := none }, { c with closing := some l, todo := .closeHeld :: c.todo })
      else some (s, c)
    | none => some (s, c)
  | .closeHeld =>
    match c.closing with
    | some l => some (s.close l, c)
    | none => some (s, c)
  | .done =>
    match c.lease with
    | some l => if c.reused then some (s, c) else some (s.close l, c)
    | none => some (s, c)
  | .unlock => some ({ s with busy := false }, c)

/-- The step of the journal that a step of a call is. -/
def Instr.sharedAct (i : ℕ) (c : Call) : Instr → Option SharedAct
  | .openRead => some (.read i)
  | .openRepair => some (.repair i)
  | .writeLine => c.append.map (.write i)
  | .ackLine => some (.ack i)
  | _ => none

/-! ## Runs -/

/-- The run: its journal file and everything else. -/
structure State where
  shared : SharedJournal
  seat : Seat

/-- A new call starts, or a call takes its next step. -/
inductive Act where
  | start (kind : ClientCall)
  | step (i : ℕ) (env : Env)

/-- The call that takes the next step, the step, and the call without it. -/
def State.next (s : State) (i : ℕ) : Option (Instr × Call) :=
  match s.seat.calls[i]? with
  | some c =>
    match c.todo with
    | instr :: rest => some (instr, { c with todo := rest })
    | [] => none
  | none => none

/-- The journal after a step. -/
def State.sharedAfter (s : State) (i : ℕ) (instr : Instr) (c : Call) : SharedJournal :=
  match instr.sharedAct i c with
  | some a => s.shared.act a
  | none => s.shared

/-- One step of the run. -/
def State.step (s : State) : Act → Option State
  | .start kind => some { s with seat := { s.seat with calls := s.seat.calls ++ [.new kind] } }
  | .step i env =>
    match s.next i with
    | none => none
    | some (instr, c) =>
      match s.seat.perform s.shared i c env instr with
      | none => none
      | some (seat, c') =>
        some ⟨s.sharedAfter i instr c, { seat with calls := seat.calls.set i c' }⟩

/-- A step that cuts the file or puts a line in it comes from a call whose journal has seen every
line of it. -/
def State.Fresh (s : State) : Act → Prop
  | .start _ => True
  | .step i _ =>
    match s.next i with
    | some (instr, c) => ∀ a ∈ instr.sharedAct i c, s.shared.Fresh a
    | none => True

instance (s : State) : (a : Act) → Decidable (s.Fresh a)
  | .start _ => .isTrue trivial
  | .step i env => by
    unfold State.Fresh
    dsimp only
    split <;> infer_instance

/-- A cleanup-blocked run whose lease the seat holds, before any call: its journal holds events, and
perhaps an open rest. -/
structure State.Held (s : State) : Prop where
  runId : s.shared.runId = s.seat.plan.runId.val
  status : s.seat.status = .cleanupBlocked
  lease : ∃ l, s.seat.held = some l ∧ s.seat.port = some l.id ∧ s.seat.record = some l
  calls : s.seat.calls = []
  openers : ∀ i, s.shared.openers i = none
  acked : s.shared.acked = []
  lines : s.shared.lines = 0
  file : ∃ es left ls, Holds s.shared.runId es left (s.shared.file.getD []) ls

theorem State.Held.sound {s : State} (h : s.Held) :
    ∃ base es left ls, SharedJournal.Sound base s.shared es left ls := by
  obtain ⟨es, left, ls, hh⟩ := h.file
  refine ⟨es.length, es, left, ls, hh, by rw [h.lines]; rfl, ?_, ?_, ?_, ?_⟩
  · intro i o ho
    rw [h.openers i] at ho
    cases ho
  · intro i j o p e f _ ho
    rw [h.openers i] at ho
    cases ho
  · intro e he
    rw [h.acked] at he
    cases he
  · rw [h.acked]
    exact List.nodup_nil

/-- **A fresh step keeps the journal intact.** -/
theorem State.step_sound {s t : State} {a : Act}
    (hs : ∃ base es left ls, SharedJournal.Sound base s.shared es left ls) (hf : s.Fresh a)
    (h : s.step a = some t) : ∃ base es left ls, SharedJournal.Sound base t.shared es left ls := by
  cases a with
  | start kind =>
    obtain rfl := Option.some.inj h
    exact hs
  | step i env =>
    obtain ⟨base, es, left, ls, hb⟩ := hs
    simp only [State.step] at h
    cases hn : s.next i with
    | none =>
      rw [hn] at h
      cases h
    | some r =>
      obtain ⟨instr, c⟩ := r
      simp only [hn] at h
      simp only [State.Fresh, hn] at hf
      cases hp : s.seat.perform s.shared i c env instr with
      | none =>
        rw [hp] at h
        cases h
      | some q =>
        simp only [hp, Option.some.injEq] at h
        subst h
        refine ⟨base, ?_⟩
        change ∃ es left ls, SharedJournal.Sound base (s.sharedAfter i instr c) es left ls
        unfold State.sharedAfter
        cases ha : instr.sharedAct i c with
        | none => exact ⟨es, left, ls, hb⟩
        | some a => exact hb.act (hf a ha)

/-- **As long as every step is fresh, the journal stays intact**: it is accepted, its events are
numbered without gap or repeat, and every acknowledged event is in it exactly once. -/
theorem calls_keep_journal_intact (s t : State) (acts : List Act) (h : s.Held)
    (hf : Meets State.step State.Fresh s acts) (hr : exec State.step s acts = some t) :
    t.shared.Intact := by
  obtain ⟨base, es, left, ls, ht⟩ := exec_invariant _ (fun _ _ _ => State.step_sound) h.sound hf hr
  exact ht.intact

end

/-! ## Two calls -/

section Calls

local instance callsSchemaText : SchemaText := plainSchemaText

/-- What the seat remembers of a cleanup-blocked run. -/
def blockedResult : AttemptExecutionResult where
  result :=
    { runId := exampleRunId.val
      status := .cleanupBlocked
      output := none
      structuredOutput := none
      usage := emptyUsage
      usageComplete := false
      runtimeMs := 0
      failure := some (reconcileFailure .cleanupBlocked)
      sandboxCleanup := .unknown
      workspaceCleanup := .notNeeded
      truncated := false }
  output := []
  sessionFile := none
  handoff := none
  structuredOutput := none
  error := some (reconcileError .cleanupBlocked)

/-- A cleanup-blocked run with one event, whose lease the seat holds. -/
def blockedRun : State where
  shared :=
    { runId := exampleRunId.val
      file := ((⟨exampleRunId.val, 0⟩ : RunJournal).append exampleCall .none none).2.2
      lines := 0
      acked := []
      openers := fun _ => none }
  seat :=
    { plan := ⟨exampleRunId, ofString "attempt_a1", .readOnly, none⟩
      status := .cleanupBlocked
      result := some blockedResult
      held := some ⟨0, 1⟩
      port := some 0
      record := some ⟨0, 1⟩
      nextLease := 1
      snapshot := some (blockedResult, 1)
      busy := false
      calls := [] }

/-- The sandbox process cannot be told; the rest is settled. -/
def unknownSandbox : Env where
  evidence := some ⟨.unknown, .notNeeded, .absent⟩
  worktreesReleased := true
  exported := none
  eventId := ofString "e2"
  timestamp := ofString "2026-01-01T00:00:01Z"

/-- Two calls of `reconcile`, step by step side by side, until both appends are acknowledged. -/
def twoReconciles : List Act :=
  [.start .reconcile, .start .reconcile] ++
    (List.replicate 19 [Act.step 0 unknownSandbox, .step 1 unknownSandbox]).flatten

/-- The worktrees are released. -/
def worktreesGone : Env := { unknownSandbox with eventId := ofString "e3" }

/-- A call of `reconcile` to its end, and then a call of `release`. -/
def reconcileThenRelease : List Act :=
  (.start .reconcile :: List.replicate 24 (.step 0 unknownSandbox)) ++
    .start .release :: List.replicate 26 (.step 1 worktreesGone)

theorem blockedRun_held : blockedRun.Held where
  runId := rfl
  status := rfl
  lease := ⟨⟨0, 1⟩, rfl, rfl, rfl⟩
  calls := rfl
  openers := fun _ => rfl
  acked := rfl
  lines := rfl
  file := by
    simp only [blockedRun]
    exact holds_of_first_append exampleRunId exampleCall (by decide +kernel)

/-- One call after the other is fresh at every step, and the events of both are there at the end. -/
theorem reconcile_then_release_keeps_journal_intact :
    ∃ t, exec State.step blockedRun reconcileThenRelease = some t ∧ t.shared.acked.length = 2 ∧
      t.shared.Intact := by
  have hr : (exec State.step blockedRun reconcileThenRelease).map
      (fun t => t.shared.acked.length) = some 2 := by decide +kernel
  have hf : Meets State.step State.Fresh blockedRun reconcileThenRelease := by decide +kernel
  obtain ⟨t, ht, hl⟩ := Option.map_eq_some_iff.mp hr
  exact ⟨t, ht, hl, calls_keep_journal_intact _ _ _ blockedRun_held hf ht⟩

/-- Two calls of `reconcile` at once are both acknowledged, and the journal is refused after them. -/
theorem two_reconciles_break_journal :
    (exec State.step blockedRun twoReconciles).map (fun t => (t.shared.acked.length,
        (parseJournal (decode (t.shared.file.getD [])) t.shared.runId).toBool)) = some (2, false) ∧
      ¬ ∀ (s t : State) (acts : List Act), s.Held → exec State.step s acts = some t →
        t.shared.Intact := by
  have hr : (exec State.step blockedRun twoReconciles).map (fun t => (t.shared.acked.length,
      (parseJournal (decode (t.shared.file.getD [])) t.shared.runId).toBool)) = some (2, false) := by
    decide +kernel
  refine ⟨hr, ?_⟩
  intro h
  obtain ⟨t, ht, hv⟩ := Option.map_eq_some_iff.mp hr
  obtain ⟨es, hp, -⟩ := h _ t _ blockedRun_held ht
  rw [hp] at hv
  exact Bool.noConfusion (Prod.mk.inj hv).2

end Calls

end PiSubagent
