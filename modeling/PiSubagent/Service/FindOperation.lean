import PiSubagent.Lib.Runs
import PiSubagent.Persistence.OperationIndex
import PiSubagent.Persistence.Retention
import PiSubagent.Service.Control
import PiSubagent.Service.RunDiscipline

/-!
# Finding a run by its operation

The operation index, the runs and the seats of one store. A launch and a control input claim their
operation in the same index; a launch writes its run record after the claim; a prune takes the
claims of its run along.

* `Store`, `Store.step`: every step of every seat. The steps of a run are those of `RunState.step`.
* `findByOperation`: what a seat answers for an operation of an owner.
* `Faithful`: what it should answer.
* `Answerable`: a launch claimed the operation, the claim can be read, and the seat knows the run at its
  latest attempt, or does not know it and has to.
* **`findByOperation_faithful`**: in every store that the seats can come to, the answer is right
  just when the operation is answerable.
* **`failed_launch_active`**: after a launch that fails behind its run record, nothing executes and
  the answer is `active`.

What a preflight has compiled is given. A prune may start for any ended run, and one that is taken
up again may succeed where the code finds what it has moved once more.
-/

namespace PiSubagent

namespace RunLife

namespace FindOperation

open JsonText (JsString ofString)
open OperationIndex (Pair OperationRecord ClaimInput Index FindPhase recordKey moveFind isIdentity
  corruption corruption_eq_none maxRecordBytes)
open Runs

/-! ## The store -/

/-- `PreparedPreflight`: what `launch` takes of it. -/
structure Prepared where
  ownerId : JsString
  operationId : JsString
  requestSha256 : JsString
  /-- `launchPlan`. -/
  plan : Plan
  /-- `launchPlan.identitySha256`. -/
  identitySha256 : JsString
  /-- `workspace.baselineSha256`. -/
  baselineSha256 : JsString

/-- `RunRecord`, next to the plan in the files of the run. -/
structure RunRecord where
  ownerId : JsString
  /-- `plan.operationId`. -/
  operationId : JsString
  /-- `plan.identitySha256`. -/
  identitySha256 : JsString
  /-- `workspace.baselineSha256`. -/
  baselineSha256 : JsString
deriving DecidableEq, Repr

namespace Prepared

variable (p : Prepared)

/-- The input of the claim of a launch. -/
def input : ClaimInput := ⟨p.ownerId, p.operationId, p.requestSha256, p.plan.runId.val⟩

/-- The record `RunRecordStore.create` writes. -/
def record : RunRecord := ⟨p.ownerId, p.operationId, p.identitySha256, p.baselineSha256⟩

/-- `RunRecordStore.create` accepts a record that is there. -/
def accepts (existing : RunRecord) : Bool :=
  existing.ownerId = p.ownerId ∧ existing.identitySha256 = p.identitySha256 ∧
    existing.baselineSha256 = p.baselineSha256

end Prepared

/-- A run, and what its run record says besides the plan, once it is there. -/
structure Run where
  record : RunRecord
  state : RunState

/-- The operation index, which of its records a launch has claimed, the runs, the seats that are up,
and how far the prunes are that have not ended. -/
structure Store (δ : Type) where
  index : Index δ
  launched : δ → Bool
  runs : JsString → Option Run
  ready : ℕ → Bool
  trash : JsString → Option ℕ

/-- Before any seat. -/
def emptyStore (δ : Type) : Store δ :=
  ⟨⟨fun _ => none, []⟩, fun _ => false, fun _ => none, fun _ => false, fun _ => none⟩

namespace Store

variable {δ : Type}

def setRun (s : Store δ) (runId : JsString) (run : Run) : Store δ :=
  { s with runs := Function.update s.runs runId (some run) }

/-- `runs.get` of a seat. -/
def memory (s : Store δ) (seat : ℕ) (runId : JsString) : Option ActiveRun :=
  (s.runs runId).bind fun run => run.state.seats seat

/-- The run record, with its plan, when it is there. -/
def runRecord (s : Store δ) (runId : JsString) : Option (RunRecord × Plan) :=
  (s.runs runId).bind fun run =>
    if run.state.files.recorded then some (run.record, run.state.files.plan) else none

end Store

/-! ## Steps -/

/-- What a prune moves, in its order. -/
inductive Discard where
  /-- The directory of the run: its journal and snapshot. -/
  | run
  | attempts
  | worktrees
  | operations
  | runRecord
deriving DecidableEq, Repr

/-- `orderedPaths` of `moveRunToTrash`. -/
def discards : List Discard := [.run, .attempts, .worktrees, .operations, .runRecord]

/-- The files of a run without something. -/
def discardFile (f : RunFiles) : Discard → RunFiles
  | .run => { f with events := [], snapshot := none }
  | .attempts => { f with attempts := [] }
  | .worktrees => { f with worktrees := [] }
  | .operations => f
  | .runRecord => { f with recorded := false }

/-- The steps of the seats. -/
inductive StoreAct where
  /-- The start-up of a seat is over. -/
  | ready (seat : ℕ)
  | die (seat : ℕ)
  /-- `launch` of a run that is not in memory: the claim, and `startAttempt` as far as it comes. -/
  | launch (seat : ℕ) (p : Prepared) (cut : ℕ) (undone : Bool)
  /-- The claim of `deliverControl`. -/
  | control (seat : ℕ) (runId : JsString) (kind : Control.ControlKind)
      (input : Control.ControlInput)
  /-- Any other step of a run. -/
  | run (runId : JsString) (a : RunAct)
  /-- A prune of a run, or a prune that takes one up again, up to where it is cut. -/
  | prune (seat : ℕ) (runId : JsString) (cut : ℕ)
  | tick (now : JsString)

section Steps

variable [SchemaText] {δ : Type} [DecidableEq δ] (sha256 : List UInt8 → δ) (D : Planner)
  (controlSha256 : Control.ControlKind → JsString → JsString)

namespace Store

variable (s : Store δ)

/-- `OperationIndex.claim`; `none` when it throws. -/
def claim (i : ClaimInput) (byLaunch : Bool) : Option (Store δ) :=
  let r := i.record s.index.now
  let key := recordKey sha256 i.pair
  if r.valid then
    match s.index.records key with
    | none =>
      some { s with
        index := { s.index with records := Function.update s.index.records key (some r) }
        launched := Function.update s.launched key byLaunch }
    | some existing =>
      if corruption i.pair existing = none ∧ i.matches existing = true then
        some { s with launched := Function.update s.launched key (byLaunch || s.launched key) }
      else none
  else none

/-- The run a launch starts from: a record that is there stays. -/
def opened (p : Prepared) : Run :=
  match s.runs p.plan.runId.val with
  | none => ⟨p.record, freshRun p.plan⟩
  | some run =>
    if run.state.files.recorded then run
    else ⟨p.record, { run.state with files := { run.state.files with plan := p.plan } }⟩

/-- `startAttempt` of a launch, which may throw at once. -/
def start (seat : ℕ) (p : Prepared) (cut : ℕ) (undone : Bool) : Store δ :=
  let run := s.opened p
  if run.state.files.recorded && !p.accepts run.record then s
  else
    match run.state.step D (if undone then .launchUndone seat cut else .launch seat cut) with
    | some state => s.setRun p.plan.runId.val { run with state := state }
    | none => s

/-- The store without something of a run. -/
def discard (runId : JsString) (s : Store δ) (d : Discard) : Store δ :=
  { s with
    index := { s.index with
      records := fun key =>
        if d = .operations ∧ (s.index.records key).any (fun r => decide (r.runId = runId)) then none
        else s.index.records key }
    runs := Function.update s.runs runId ((s.runs runId).map fun run =>
      { run with state := { run.state with files := discardFile run.state.files d } }) }

/-- A prune of a run, from where it is, and the seat forgets the run when it ends. -/
def prune (seat : ℕ) (runId : JsString) (cut : ℕ) : Store δ :=
  let todo := discards.drop ((s.trash runId).getD 0)
  let t := (todo.take cut).foldl (discard runId) s
  if cut < todo.length then
    { t with trash := Function.update s.trash runId (some ((s.trash runId).getD 0 + cut)) }
  else
    { t with
      trash := Function.update s.trash runId none
      runs := Function.update t.runs runId ((t.runs runId).map fun run =>
        { run with state := run.state.setSeat seat none }) }

/-- A seat may prune a run: the run is unleased, and has ended as far as the seat knows or is in the
trash in part. -/
def mayPrune (seat : ℕ) (runId : JsString) : Bool :=
  (s.runs runId).all (fun run => decide (run.state.lease = none)) &&
    ((s.trash runId).isSome ||
      (s.memory seat runId).any fun run => Retention.isOrdinaryTerminal run.status)

/-- One step; `none` when it cannot be taken or is refused before anything happens. -/
def step : StoreAct → Option (Store δ)
  | .ready seat =>
    if s.ready seat then none else some { s with ready := Function.update s.ready seat true }
  | .die seat =>
    some { s with
      ready := Function.update s.ready seat false
      runs := fun runId => (s.runs runId).map fun run => { run with state := run.state.kill seat } }
  | .launch seat p cut undone =>
    if s.ready seat ∧ s.memory seat p.plan.runId.val = none then
      (s.claim sha256 p.input true).map fun t => t.start D seat p cut undone
    else none
  | .control seat runId kind input =>
    match s.runs runId, s.memory seat runId with
    | some run, some _ =>
      if s.ready seat ∧ input.valid then
        s.claim sha256
          ⟨run.record.ownerId, input.operationId, controlSha256 kind input.text, runId⟩ false
      else none
    | _, _ => none
  | .run runId a =>
    match s.runs runId with
    | some run =>
      match a with
      | .launch .. | .launchUndone .. | .die _ => none
      | .open seat _ _ =>
        if s.ready seat then none
        else (run.state.step D a).map fun state => s.setRun runId { run with state := state }
      | _ =>
        if s.ready a.seat then
          (run.state.step D a).map fun state => s.setRun runId { run with state := state }
        else none
    | none => none
  | .prune seat runId cut =>
    if s.ready seat ∧ s.mayPrune seat runId then some (s.prune seat runId cut) else none
  | .tick now => some { s with index := { s.index with now := now } }

end Store

/-! ## The lookup -/

/-- `OperationIndex.find`. -/
def find (ix : Index δ) (p : Pair) : FindPhase :=
  match moveFind sha256 p .validate ix with
  | some (ix', q) => ((moveFind sha256 p q ix').map Prod.snd).getD q
  | none => .validate

/-- What `findByOperation` returns, or the error it throws. -/
inductive Answer where
  | undefined
  | found (runId attemptId : JsString) (status : RunStatus)
  /-- `PersistenceCorruptionError`. -/
  | corruption (message : String)
  /-- `Error`. -/
  | error (message : String)
deriving DecidableEq, Repr

/-- `findByOperation` of a seat. -/
def findByOperation (s : Store δ) (seat : ℕ) (p : Pair) : Answer :=
  match find sha256 s.index p with
  | .found record =>
    match s.memory seat record.runId with
    | some run => .found record.runId run.plan.attemptId run.status
    | none =>
      match s.runRecord record.runId with
      | none => .corruption "operation claim has no durable run record"
      | some (persisted, plan) =>
        if persisted.ownerId ≠ p.ownerId ∨ persisted.operationId ≠ p.operationId ∨
            plan.runId.val ≠ record.runId then
          .corruption "operation claim and run record do not match"
        else .found record.runId plan.attemptId .active
  | .corrupt message => .corruption message
  | .absent => .undefined
  | _ => .error "invalid operation lookup"

/-! ## What it should answer -/

namespace Store

/-- The claim of an operation is in the index, and a launch of the run made it. -/
def LaunchedAs (s : Store δ) (p : Pair) (runId : JsString) : Prop :=
  ∃ r, s.index.records (recordKey sha256 p) = some r ∧ r.pair = p ∧ r.runId = runId ∧
    s.launched (recordKey sha256 p) = true

/-- The claim of an operation can be read. -/
def Readable (s : Store δ) (p : Pair) : Prop :=
  ∀ r, s.index.records (recordKey sha256 p) = some r → corruption p r = none

/-- The run has a durable record, of the owner and the operation. -/
def Recorded (s : Store δ) (p : Pair) (runId : JsString) : Prop :=
  ∃ record plan, s.runRecord runId = some (record, plan) ∧ record.ownerId = p.ownerId ∧
    record.operationId = p.operationId ∧ plan.runId.val = runId

/-- The attempt of the run record. -/
def firstAttempt (s : Store δ) (runId : JsString) : Option JsString :=
  (s.runs runId).map fun run => run.state.files.plan.attemptId

/-- The attempt with the last record; before there is any, that of the run record. -/
def latestAttempt (s : Store δ) (runId : JsString) : Option JsString :=
  (s.runs runId).map fun run =>
    (run.state.files.latest.map AttemptRecord.attemptId).getD run.state.files.plan.attemptId

/-- An attempt of the run executes in some seat. -/
def Executing (s : Store δ) (runId : JsString) : Prop :=
  ∃ seat, ∃ run ∈ s.memory seat runId, run.flight.inFlight = true

end Store

/-- The answer is right: `undefined` for what no launch claims, the run with its latest attempt for
a launch with a run record, active only while an attempt executes, and corruption just for a launch
without a run record. -/
structure Faithful (s : Store δ) (seat : ℕ) (p : Pair) : Prop where
  unclaimed : (∀ runId, ¬s.LaunchedAs sha256 p runId) →
    findByOperation sha256 s seat p = .undefined
  recorded : ∀ runId, s.LaunchedAs sha256 p runId → s.Recorded p runId →
    ∃ attemptId status, findByOperation sha256 s seat p = .found runId attemptId status ∧
      s.latestAttempt runId = some attemptId ∧ (status = .active → s.Executing runId)
  corrupt : (∃ message, findByOperation sha256 s seat p = .corruption message) ↔
    ∃ runId, s.LaunchedAs sha256 p runId ∧ ¬s.Recorded p runId

/-- The index admits the ids, and no claim is there, or a launch made it and either it cannot be read
and the run has no record, or it can be read and the seat knows the run, which has its record, at its
latest attempt, or does not know it, and the run has no record or executes its first attempt, which is
its latest. -/
def Answerable (s : Store δ) (seat : ℕ) (p : Pair) : Prop :=
  (isIdentity p.ownerId && isIdentity p.operationId) = true ∧
    (s.index.records (recordKey sha256 p) = none ∨
      ∃ runId, s.LaunchedAs sha256 p runId ∧
        (¬s.Readable sha256 p ∧ ¬s.Recorded p runId ∨ s.Readable sha256 p ∧
          match s.memory seat runId with
          | some run => s.Recorded p runId ∧ s.latestAttempt runId = some run.plan.attemptId
          | none => s.Recorded p runId →
              s.Executing runId ∧ s.latestAttempt runId = s.firstAttempt runId))

/-! ## What the steps keep -/

variable {sha256 D controlSha256} {s t : Store δ} {p : Pair} {seat : ℕ}

/-- What the seats remember of the runs fits together. -/
def Store.Disciplined (s : Store δ) : Prop :=
  ∀ runId run, s.runs runId = some run → run.state.Disciplined

omit [SchemaText] [DecidableEq δ] in
theorem disciplined_emptyStore : (emptyStore δ).Disciplined := fun _ _ h => by cases h

omit [SchemaText] [DecidableEq δ] in
theorem Store.Disciplined.setRun (h : s.Disciplined) {runId : JsString} {run : Run}
    (hr : run.state.Disciplined) : (s.setRun runId run).Disciplined := by
  intro id run' hrun
  change Function.update s.runs runId (some run) id = some run' at hrun
  by_cases hid : id = runId
  · rw [hid, Function.update_self] at hrun
    cases hrun
    exact hr
  · rw [Function.update_of_ne hid] at hrun
    exact h id run' hrun

omit [SchemaText] [DecidableEq δ] in
theorem Store.Disciplined.map (h : s.Disciplined) {runId : JsString} {f : Run → Run}
    {runs : JsString → Option Run}
    (hruns : runs = Function.update s.runs runId ((s.runs runId).map f))
    (hf : ∀ run, run.state.Disciplined → (f run).state.Disciplined) :
    ∀ id run, runs id = some run → run.state.Disciplined := by
  intro id run hrun
  rw [hruns] at hrun
  by_cases hid : id = runId
  · subst hid
    rw [Function.update_self] at hrun
    obtain ⟨old, hold, rfl⟩ := Option.map_eq_some_iff.mp hrun
    exact hf old (h id old hold)
  · rw [Function.update_of_ne hid] at hrun
    exact h id run hrun

omit [SchemaText] in
theorem disciplined_files {r : RunState} (h : r.Disciplined) (f : RunFiles) :
    ({ r with files := f } : RunState).Disciplined := ⟨h.busy, h.rests⟩

omit [SchemaText] in
theorem disciplined_forget {r : RunState} (h : r.Disciplined) (seat : ℕ) :
    (r.setSeat seat none).Disciplined := by
  have hseats : ∀ n, ∀ run ∈ (r.setSeat seat none).seats n, run ∈ r.seats n := by
    intro n run hrun
    simp only [RunState.setSeat] at hrun
    split_ifs at hrun
    · cases hrun
    · exact hrun
  exact ⟨fun n run hrun => h.busy n run (hseats n run hrun),
    fun n run hrun => h.rests n run (hseats n run hrun)⟩

theorem claim_runs {i : ClaimInput} {byLaunch : Bool} (h : s.claim sha256 i byLaunch = some t) :
    t.runs = s.runs := by
  unfold Store.claim at h
  dsimp only at h
  split_ifs at h
  split at h
  · cases h
    rfl
  · split_ifs at h
    cases h
    rfl

omit [SchemaText] [DecidableEq δ] in
theorem Store.Disciplined.start (h : s.Disciplined) (q : Prepared) (cut : ℕ) (undone : Bool) :
    (s.start D seat q cut undone).Disciplined := by
  have hopened : (s.opened q).state.Disciplined := by
    unfold Store.opened
    split
    · exact disciplined_freshRun q.plan
    next run hrun =>
      split_ifs
      · exact h _ run hrun
      · exact disciplined_files (h _ run hrun) _
  unfold Store.start
  dsimp only
  split_ifs
  · exact h
  all_goals
    split
    · next state hstep => exact h.setRun (disciplined_step hopened hstep)
    · exact h

omit [SchemaText] [DecidableEq δ] in
theorem Store.Disciplined.discards (ds : List Discard) (runId : JsString) (h : s.Disciplined) :
    (ds.foldl (Store.discard runId) s).Disciplined := by
  induction ds generalizing s with
  | nil => exact h
  | cons d ds ih =>
    refine ih ?_
    exact h.map rfl fun run hrun => disciplined_files hrun _

omit [SchemaText] [DecidableEq δ] in
theorem Store.Disciplined.prune (h : s.Disciplined) (runId : JsString) (cut : ℕ) :
    (s.prune seat runId cut).Disciplined := by
  unfold Store.prune
  dsimp only
  have hmoved :=
    h.discards ((FindOperation.discards.drop ((s.trash runId).getD 0)).take cut) runId
  split_ifs
  · exact hmoved
  · exact hmoved.map rfl fun run hrun => disciplined_forget hrun seat

/-- **Every step of the store keeps what the seats remember fitting.** -/
theorem disciplined_storeStep {a : StoreAct} (h : s.Disciplined)
    (hstep : s.step sha256 D controlSha256 a = some t) : t.Disciplined := by
  have hrun : ∀ {runId : JsString} {run : Run} {b : RunAct}, s.runs runId = some run →
      (run.state.step D b).map (fun state => s.setRun runId { run with state := state }) = some t →
        t.Disciplined := by
    intro runId run b hruns hb
    obtain ⟨state, hs, rfl⟩ := Option.map_eq_some_iff.mp hb
    exact h.setRun (disciplined_step (h runId run hruns) hs)
  cases a with
  | ready seat =>
    simp only [Store.step] at hstep
    split_ifs at hstep
    cases hstep
    exact h
  | die seat =>
    cases hstep
    intro id run hr
    obtain ⟨old, hold, rfl⟩ := Option.map_eq_some_iff.mp hr
    exact RunLife.Disciplined.kill (h id old hold)
  | launch seat q cut undone =>
    simp only [Store.step] at hstep
    split_ifs at hstep
    obtain ⟨u, hu, rfl⟩ := Option.map_eq_some_iff.mp hstep
    have hud : u.Disciplined := by
      unfold Store.Disciplined
      rw [claim_runs hu]
      exact h
    exact hud.start q cut undone
  | control seat runId kind input =>
    simp only [Store.step] at hstep
    split at hstep
    · split_ifs at hstep
      unfold Store.Disciplined
      rw [claim_runs hstep]
      exact h
    · cases hstep
  | run runId b =>
    simp only [Store.step] at hstep
    split at hstep
    next run hruns =>
      split at hstep
      · cases hstep
      · cases hstep
      · cases hstep
      · split_ifs at hstep
        exact hrun hruns hstep
      · split_ifs at hstep
        exact hrun hruns hstep
    next => cases hstep
  | prune seat runId cut =>
    simp only [Store.step] at hstep
    split_ifs at hstep
    cases hstep
    exact h.prune runId cut
  | tick n =>
    cases hstep
    exact h

theorem disciplined_exec {acts : List StoreAct}
    (h : exec (Store.step sha256 D controlSha256) (emptyStore δ) acts = some s) : s.Disciplined :=
  exec_preserves Store.Disciplined (fun _ _ _ hs hstep => disciplined_storeStep hs hstep)
    disciplined_emptyStore h

/-! ## Answers -/

omit [DecidableEq δ] in
theorem find_eq (ix : Index δ) (p : Pair) :
    find sha256 ix p =
      if (isIdentity p.ownerId && isIdentity p.operationId) = true then
        match ix.records (recordKey sha256 p) with
        | none => .absent
        | some r =>
          match corruption p r with
          | some message => .corrupt message
          | none => .found r
      else .invalid := by
  unfold find moveFind
  dsimp only
  by_cases hid : (isIdentity p.ownerId && isIdentity p.operationId) = true
  · rw [if_pos hid, if_pos hid]
    rfl
  · rw [if_neg hid, if_neg hid]
    rfl

omit [SchemaText] in
theorem inFlight_of_active {run : ActiveRun} (h : run.Rests) (hs : run.status = .active) :
    run.flight.inFlight = true := by
  by_contra hf
  rw [Bool.not_eq_true] at hf
  unfold ActiveRun.Rests at h
  cases hfl : run.flight with
  | settled =>
    rw [hfl] at h
    cases hr : run.result with
    | none =>
      rw [hr] at h
      cases hs.symm.trans h
    | some r =>
      rw [hr] at h
      obtain ⟨hstatus, hresult⟩ := h
      rw [← hstatus, hs] at hresult
      cases hresult
  | running begun =>
    rw [hfl] at hf
    cases hf
  | ended execution =>
    rw [hfl] at hf
    cases hf
  | rejected =>
    rw [hfl] at hf
    cases hf

omit [SchemaText] [DecidableEq δ] in
theorem executing_of_active (h : s.Disciplined) {runId : JsString} {run : ActiveRun}
    (hm : s.memory seat runId = some run) (hs : run.status = .active) : s.Executing runId := by
  obtain ⟨stored, hstored, hseat⟩ := Option.bind_eq_some_iff.mp hm
  have hrests : run.Rests := (h runId stored hstored).rests seat run hseat
  exact ⟨seat, run, hm, inFlight_of_active hrests hs⟩

omit [SchemaText] [DecidableEq δ] in
theorem LaunchedAs.eq {runId runId' : JsString} (h : s.LaunchedAs sha256 p runId)
    (h' : s.LaunchedAs sha256 p runId') : runId = runId' := by
  obtain ⟨r, hr, -, rfl, -⟩ := h
  obtain ⟨r', hr', -, rfl, -⟩ := h'
  rw [hr] at hr'
  cases hr'
  rfl

omit [DecidableEq δ] in
theorem answer_known {runId : JsString} {run : ActiveRun}
    (hids : (isIdentity p.ownerId && isIdentity p.operationId) = true)
    (hread : s.Readable sha256 p) (hl : s.LaunchedAs sha256 p runId)
    (hm : s.memory seat runId = some run) :
    findByOperation sha256 s seat p = .found runId run.plan.attemptId run.status := by
  obtain ⟨r, hr, -, rfl, -⟩ := hl
  unfold findByOperation
  rw [find_eq, if_pos hids, hr]
  dsimp only
  rw [hread r hr]
  dsimp only
  rw [hm]

omit [DecidableEq δ] in
theorem answer_unreadable (seat : ℕ) {runId : JsString}
    (hids : (isIdentity p.ownerId && isIdentity p.operationId) = true)
    (hread : ¬s.Readable sha256 p) (hl : s.LaunchedAs sha256 p runId) :
    ∃ message, findByOperation sha256 s seat p = .corruption message := by
  obtain ⟨r, hr, -, -, -⟩ := hl
  obtain ⟨message, hmessage⟩ : ∃ message, corruption p r = some message := by
    refine Option.ne_none_iff_exists'.mp fun hnone => hread ?_
    intro r' hr'
    cases hr.symm.trans hr'
    exact hnone
  refine ⟨message, ?_⟩
  unfold findByOperation
  rw [find_eq, if_pos hids, hr]
  dsimp only
  rw [hmessage]

omit [DecidableEq δ] in
/-- The answer for a launch whose run is not in memory, with and without a run record. -/
theorem answer_unknown {runId : JsString}
    (hids : (isIdentity p.ownerId && isIdentity p.operationId) = true)
    (hread : s.Readable sha256 p) (hl : s.LaunchedAs sha256 p runId)
    (hm : s.memory seat runId = none) :
    (s.Recorded p runId → ∃ attemptId, s.firstAttempt runId = some attemptId ∧
      findByOperation sha256 s seat p = .found runId attemptId .active) ∧
    (¬s.Recorded p runId →
      ∃ message, findByOperation sha256 s seat p = .corruption message) := by
  obtain ⟨r, hr, -, rfl, -⟩ := hl
  unfold findByOperation
  rw [find_eq, if_pos hids, hr]
  dsimp only
  rw [hread r hr]
  dsimp only
  rw [hm]
  dsimp only
  constructor
  · rintro ⟨record, plan, hrec, hown, hop, hid⟩
    rw [hrec]
    dsimp only
    rw [if_neg (by simp [hown, hop, hid])]
    refine ⟨plan.attemptId, ?_, rfl⟩
    obtain ⟨run, hrun, hplan⟩ := Option.bind_eq_some_iff.mp hrec
    unfold Store.firstAttempt
    rw [hrun]
    split_ifs at hplan
    cases hplan
    rfl
  · intro hnot
    cases hrec : s.runRecord r.runId with
    | none => exact ⟨_, rfl⟩
    | some found =>
      obtain ⟨record, plan⟩ := found
      dsimp only
      by_cases hc : record.ownerId ≠ p.ownerId ∨ record.operationId ≠ p.operationId ∨
          plan.runId.val ≠ r.runId
      · rw [if_pos hc]
        exact ⟨_, rfl⟩
      · push Not at hc
        exact absurd ⟨record, plan, hrec, hc.1, hc.2.1, hc.2.2⟩ hnot

omit [DecidableEq δ] in
theorem faithful_of_answerable (hs : s.Disciplined) (h : Answerable sha256 s seat p) :
    Faithful sha256 s seat p := by
  obtain ⟨hids, hnone | ⟨runId, hl, hcase⟩⟩ := h
  · have hundef : findByOperation sha256 s seat p = .undefined := by
      unfold findByOperation
      rw [find_eq, if_pos hids, hnone]
    have hno : ∀ runId, ¬s.LaunchedAs sha256 p runId := by
      rintro runId ⟨r, hr, -⟩
      rw [hnone] at hr
      cases hr
    refine ⟨fun _ => hundef, fun runId hl => absurd hl (hno runId), ?_⟩
    rw [hundef]
    constructor
    · rintro ⟨message, hm⟩
      cases hm
    · rintro ⟨runId, hl, -⟩
      exact absurd hl (hno runId)
  · have hunclaimed : (∀ id, ¬s.LaunchedAs sha256 p id) →
        findByOperation sha256 s seat p = .undefined := fun hno => absurd hl (hno runId)
    rcases hcase with ⟨hread, hnot⟩ | ⟨hread, hcase⟩
    · refine ⟨hunclaimed, ?_, ?_⟩
      · intro id hid hrec
        obtain rfl := LaunchedAs.eq hl hid
        exact absurd hrec hnot
      · exact iff_of_true (answer_unreadable seat hids hread hl) ⟨runId, hl, hnot⟩
    cases hm : s.memory seat runId with
    | some run =>
      rw [hm] at hcase
      obtain ⟨hrec, hlatest⟩ := hcase
      have hans := answer_known hids hread hl hm
      refine ⟨hunclaimed, ?_, ?_⟩
      · intro id hid _
        obtain rfl := LaunchedAs.eq hl hid
        exact ⟨_, _, hans, hlatest, executing_of_active hs hm⟩
      · rw [hans]
        constructor
        · rintro ⟨message, hmsg⟩
          cases hmsg
        · rintro ⟨id, hid, hnot⟩
          obtain rfl := LaunchedAs.eq hl hid
          exact absurd hrec hnot
    | none =>
      rw [hm] at hcase
      obtain ⟨hfound, hcorrupt⟩ := answer_unknown hids hread hl hm
      refine ⟨hunclaimed, ?_, ?_⟩
      · intro id hid hrec
        obtain rfl := LaunchedAs.eq hl hid
        obtain ⟨attemptId, hfirst, hans⟩ := hfound hrec
        obtain ⟨hexec, hlatest⟩ := hcase hrec
        exact ⟨attemptId, .active, hans, hlatest.trans hfirst, fun _ => hexec⟩
      · constructor
        · rintro ⟨message, hmsg⟩
          refine ⟨runId, hl, ?_⟩
          intro hrec
          obtain ⟨attemptId, -, hans⟩ := hfound hrec
          rw [hans] at hmsg
          cases hmsg
        · rintro ⟨id, hid, hnot⟩
          obtain rfl := LaunchedAs.eq hl hid
          exact hcorrupt hnot

omit [DecidableEq δ] in
theorem answerable_of_faithful (h : Faithful sha256 s seat p) : Answerable sha256 s seat p := by
  have hids : (isIdentity p.ownerId && isIdentity p.operationId) = true := by
    by_contra hn
    have herr : findByOperation sha256 s seat p = .error "invalid operation lookup" := by
      unfold findByOperation
      rw [find_eq, if_neg hn]
    by_cases hl : ∃ runId, s.LaunchedAs sha256 p runId
    · obtain ⟨runId, hl⟩ := hl
      by_cases hrec : s.Recorded p runId
      · obtain ⟨_, _, hans, -⟩ := h.recorded runId hl hrec
        cases herr.symm.trans hans
      · obtain ⟨message, hans⟩ := h.corrupt.mpr ⟨runId, hl, hrec⟩
        cases herr.symm.trans hans
    · cases herr.symm.trans (h.unclaimed (not_exists.mp hl))
  refine ⟨hids, ?_⟩
  by_cases hl : ∃ runId, s.LaunchedAs sha256 p runId
  · obtain ⟨runId, hl⟩ := hl
    refine Or.inr ⟨runId, hl, ?_⟩
    by_cases hread : s.Readable sha256 p
    case neg =>
      refine Or.inl ⟨hread, fun hrec => ?_⟩
      obtain ⟨_, _, hans, -⟩ := h.recorded runId hl hrec
      obtain ⟨message, hmsg⟩ := answer_unreadable seat hids hread hl
      cases hans.symm.trans hmsg
    refine Or.inr ⟨hread, ?_⟩
    cases hm : s.memory seat runId with
    | some run =>
      have hans := answer_known hids hread hl hm
      have hrec : s.Recorded p runId := by
        by_contra hnot
        obtain ⟨message, hmsg⟩ := h.corrupt.mpr ⟨runId, hl, hnot⟩
        cases hans.symm.trans hmsg
      obtain ⟨_, _, hfound, hlatest, -⟩ := h.recorded runId hl hrec
      cases hans.symm.trans hfound
      exact ⟨hrec, hlatest⟩
    | none =>
      intro hrec
      obtain ⟨attemptId, hfirst, hans⟩ := (answer_unknown hids hread hl hm).1 hrec
      obtain ⟨_, _, hfound, hlatest, hexec⟩ := h.recorded runId hl hrec
      cases hans.symm.trans hfound
      exact ⟨hexec rfl, hlatest.trans hfirst.symm⟩
  · left
    have hundef := h.unclaimed (not_exists.mp hl)
    unfold findByOperation at hundef
    rw [find_eq, if_pos hids] at hundef
    cases hr : s.index.records (recordKey sha256 p) with
    | none => rfl
    | some r =>
      exfalso
      rw [hr] at hundef
      dsimp only at hundef
      cases hcorrupt : corruption p r with
      | some message =>
        rw [hcorrupt] at hundef
        cases hundef
      | none =>
      rw [hcorrupt] at hundef
      dsimp only at hundef
      split at hundef
      · cases hundef
      · split at hundef
        · cases hundef
        · split_ifs at hundef

/-- **`findByOperation` answers right just when the operation is answerable**, in every store that
any seats come to. -/
theorem findByOperation_faithful (sha256 : List UInt8 → δ) (D : Planner)
    (controlSha256 : Control.ControlKind → JsString → JsString) (acts : List StoreAct)
    (s : Store δ) (hrun : exec (Store.step sha256 D controlSha256) (emptyStore δ) acts = some s)
    (seat : ℕ) (p : Pair) : Faithful sha256 s seat p ↔ Answerable sha256 s seat p :=
  ⟨answerable_of_faithful, faithful_of_answerable (disciplined_exec hrun)⟩

end Steps

/-! ## Launches to look at -/

section Launches

local instance launchesSchemaText : SchemaText := plainSchemaText

/-- When everything happens. -/
def launchedAt : JsString := ofString "2026-01-01T00:00:00.000Z"

/-- A launch of a run on the live checkout. -/
def livePrepared : Prepared where
  ownerId := ofString "owner"
  operationId := ofString "operation"
  requestSha256 := List.replicate 64 (48 : UInt16)
  plan := livePlan
  identitySha256 := ofString "identity"
  baselineSha256 := ofString "baseline"

/-- A launch that another seat looks up while its attempt executes. -/
theorem findByOperation_faithful_elsewhere : ∃ s,
    exec (Store.step id sameDigest fun _ text => text) (emptyStore (List UInt8))
      [.tick launchedAt, .ready 0, .ready 1, .launch 0 livePrepared 5 false] = some s ∧
    s.memory 1 (ofString "run_a1") = none ∧ Faithful id s 1 livePrepared.input.pair := by
  obtain ⟨s, hs, hids, hrecord, hlaunch, hmemory, hattempt, hrun, hflight⟩ : ∃ s,
      exec (Store.step id sameDigest fun _ text => text) (emptyStore (List UInt8))
        [.tick launchedAt, .ready 0, .ready 1, .launch 0 livePrepared 5 false] = some s ∧
      (isIdentity (ofString "owner") && isIdentity (ofString "operation")) = true ∧
      s.index.records (recordKey id livePrepared.input.pair) =
        some (livePrepared.input.record launchedAt) ∧
      s.launched (recordKey id livePrepared.input.pair) = true ∧
      s.memory 1 (ofString "run_a1") = none ∧
      s.latestAttempt (ofString "run_a1") = s.firstAttempt (ofString "run_a1") ∧
      (s.memory 0 (ofString "run_a1")).isSome = true ∧
      (s.memory 0 (ofString "run_a1")).all (fun run => run.flight.inFlight) = true :=
    ⟨(exec _ _ _).get (by decide +kernel), (Option.some_get _).symm, by decide +kernel,
      by decide +kernel, by decide +kernel, rfl, by decide +kernel, by decide +kernel,
      by decide +kernel⟩
  refine ⟨s, hs, hmemory, ?_⟩
  refine (findByOperation_faithful id sameDigest (fun _ text => text) _ s hs 1 _).mpr ⟨hids, ?_⟩
  refine Or.inr ⟨ofString "run_a1", ⟨_, hrecord, rfl, rfl, hlaunch⟩, ?_⟩
  refine Or.inr ⟨?_, ?_⟩
  · intro r hr
    cases hrecord.symm.trans hr
    decide +kernel
  · rw [hmemory]
    obtain ⟨run, hr⟩ := Option.isSome_iff_exists.mp hrun
    rw [hr] at hflight
    exact fun _ => ⟨⟨0, run, hr, hflight⟩, hattempt⟩

/-- The launch throws after it has written the run record. -/
def untilRecorded : List StoreAct := [.tick launchedAt, .ready 0, .launch 0 livePrepared 1 true]

/-- **A launch that fails behind its run record is found active, though nothing executes.** -/
theorem failed_launch_active :
    ¬∀ (sha256 : List UInt8 → List UInt8) (D : Planner)
      (controlSha256 : Control.ControlKind → JsString → JsString) (acts : List StoreAct)
      (s : Store (List UInt8)),
      exec (Store.step sha256 D controlSha256) (emptyStore (List UInt8)) acts = some s →
        ∀ (seat : ℕ) (p : Pair), Faithful sha256 s seat p := by
  intro hall
  obtain ⟨s, hs, hanswer, hrecord, hlaunch, hmemory⟩ : ∃ s,
      exec (Store.step id sameDigest fun _ text => text) (emptyStore (List UInt8)) untilRecorded =
        some s ∧
      findByOperation id s 0 livePrepared.input.pair =
        .found (ofString "run_a1") (ofString "attempt_a1") .active ∧
      s.index.records (recordKey id livePrepared.input.pair) =
        some (livePrepared.input.record launchedAt) ∧
      s.launched (recordKey id livePrepared.input.pair) = true ∧
      ∀ n, s.memory n (ofString "run_a1") = none :=
    ⟨(exec _ _ untilRecorded).get (by decide +kernel), (Option.some_get _).symm, by decide +kernel,
      by decide +kernel, by decide +kernel, fun _ => rfl⟩
  have hlaunched : s.LaunchedAs id livePrepared.input.pair (ofString "run_a1") :=
    ⟨_, hrecord, rfl, rfl, hlaunch⟩
  have hfaithful := hall id sameDigest (fun _ text => text) untilRecorded s hs 0
    livePrepared.input.pair
  by_cases hrec : s.Recorded livePrepared.input.pair (ofString "run_a1")
  · obtain ⟨_, _, hans, -, hexec⟩ := hfaithful.recorded _ hlaunched hrec
    cases hanswer.symm.trans hans
    obtain ⟨n, run, hrun, -⟩ := hexec rfl
    rw [hmemory n] at hrun
    cases hrun
  · obtain ⟨message, hans⟩ := hfaithful.corrupt.mpr ⟨_, hlaunched, hrec⟩
    cases hanswer.symm.trans hans

end Launches

end FindOperation

end RunLife

end PiSubagent
