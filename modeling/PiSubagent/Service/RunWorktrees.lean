import PiSubagent.Service.VmEvidence
import PiSubagent.Workspace.Worktree

/-!
# A run and its worktrees

The life of a run together with its repository and the records of its worktrees. What the steps of
the run take from outside of its files is now read from there: the hand-off of a settlement and of
a start-up, what reconcile sees of the worktrees, whether they can be released, and what an attempt
may return.

* `carriedHandoff`, `recoveredHandoff`: the hand-off a run has after an attempt, and after a
  restart.
* `WorkRun`, `WorkAct`, `WorkRun.step`: the run, its repository, and its steps.
-/

namespace PiSubagent

open JsonText

namespace RunLife

open Scripts Worktree

/-! ## The hand-off of a run -/

/-- The earlier attempt whose hand-off a worktree has started at; `none` when a record cannot be
read. -/
def carriedFrom (s : Store) (r : Record) (start : JsString) :
    List AttemptRecord → Option (Option Record)
  | [] => some none
  | attempt :: attempts =>
    match attempt.worktreeAttemptId with
    | none => carriedFrom s r start attempts
    | some id =>
      if id = r.attemptId then carriedFrom s r start attempts
      else
        match s.records id with
        | none => carriedFrom s r start attempts
        | some .reserved => none
        | some (.written prior) =>
          if prior.runId = r.runId ∧ prior.handoffCommit = some start then some (some prior)
          else carriedFrom s r start attempts

/-- `carriedHandoff`: the hand-off a worktree leaves its run with. -/
def carriedHandoff (s : Store) (attempts : List AttemptRecord) (record : Option Record) :
    Option (Option Record) :=
  match record with
  | none => some none
  | some r =>
    if r.handoffCommit.isSome = true then some (some r)
    else
      match r.startCommit with
      | none => some none
      | some start => carriedFrom s r start attempts

/-- The hand-off start-up takes from the records; `none` when it throws. -/
def recoveredHandoff (s : Store) (f : RunFiles) : Option (Option Record) :=
  match f.latest.bind AttemptRecord.worktreeAttemptId with
  | none => some none
  | some id =>
    match s.records id with
    | none => some none
    | some .reserved => none
    | some (.written r) => (carriedHandoff s f.attempts (some r)).map fun h => some (h.getD r)

/-! ## State -/

/-- How far the finalization of an attempt is. -/
inductive Finalization where
  | due
  | threw
  | returned (handoff : Option Record)
deriving DecidableEq, Repr

/-- The worktree of the attempt a seat has started, as the seat knows it. -/
structure Held where
  record : Record
  finalization : Finalization
deriving DecidableEq, Repr

/-- A run, its baseline, its repository and records, the worktrees its seats hold, and the hand-offs
captured so far. -/
structure WorkRun where
  run : RunState
  head : JsString
  store : Store
  held : ℕ → Option Held
  captured : List WorktreeRecord

/-- A step; `made` is how many steps of a creation or a release of worktrees are taken. -/
inductive WorkAct where
  | life (a : RunAct) (made : ℕ)
  /-- The files of the worktree of an attempt change. -/
  | edit (seat : ℕ) (files : JsString)
  /-- The removal of a worktree stops among its files. -/
  | tear (id files : JsString)
  /-- The executor finalizes the worktree; `c` would be the name of the hand-off. -/
  | finalize (seat : ℕ) (c : JsString) (cut : ℕ)
  /-- A release throws, or is cut short, after some of its steps on the worktrees. -/
  | releaseThrows (seat made : ℕ)

namespace WorkRun

variable (w : WorkRun)

/-- A seat holds a worktree. -/
def setHeld (seat : ℕ) (held : Option Held) : WorkRun :=
  { w with held := fun n => if n = seat then held else w.held n }

/-- The worktrees that the attempt records name. -/
def worktreeIds : List JsString := worktreeAttemptIds w.run.files.attempts

/-- What reconcile sees of the worktree of an attempt. -/
def seen (id : JsString) : WorktreeSeen :=
  match w.store.records id with
  | some (.written r) =>
    if r.runId = w.run.files.plan.runId.val ∧ r.attemptId = id then
      match observeWorktree w.store r with
      | .absent => .absent
      | .unknown => .unknown
      | _ => .retained
    else .unknown
  | _ => .unknown

/-! ## What a step takes from the worktrees -/

/-- The record of a hand-off is durable, as a resume at the hand-off asks. -/
def durableHandoff (handoff : WorktreeRecord) : Option Record :=
  match w.store.records handoff.attemptId with
  | some (.written r) =>
    if r.runId = w.run.files.plan.runId.val ∧ r.attemptId = handoff.attemptId ∧
        r.handoffCommit = handoff.handoffCommit ∧ r.baselineHead = handoff.baselineHead ∧
        r.handoffRef = some (handoffRefName w.run.files.plan.runId.val handoff.attemptId) then
      some r
    else none
  | _ => none

/-- The retained worktree of an interrupted attempt. -/
def retainedWorktree : Option Record :=
  match w.run.files.latest.bind AttemptRecord.worktreeAttemptId with
  | none => none
  | some id =>
    match w.store.records id with
    | some (.written r) =>
      if r.runId = w.run.files.plan.runId.val ∧ r.attemptId = id ∧ r.releasedAt = false ∧
          (observeWorktree w.store r = .clean ∨ observeWorktree w.store r = .dirty) then some r
      else none
    | _ => none

/-- The hand-off a resume continues from. -/
def continueFrom (seat : ℕ) : Option Record :=
  (((w.run.seats seat).bind ActiveRun.result).bind AttemptExecutionResult.handoff).bind
    w.durableHandoff

/-- The attempt a seat remembers is one of a worktree run. -/
def inWorktree (seat : ℕ) : Bool :=
  (w.run.seats seat).any fun run => decide (run.plan.mode = .worktree)

/-- The attempt of a seat has returned with a hand-off. -/
def returnedHandoff (seat : ℕ) : Bool :=
  (w.run.seats seat).any fun run =>
    match run.flight with
    | .ended execution => execution.handoff.isSome
    | _ => false

/-- What an attempt may say of its workspace and its hand-off. -/
def mayLeave (plan : Plan) (held : Option Held) (execution : AttemptExecutionResult) : Bool :=
  match plan.mode, plan.startAt with
  | .readOnly, none =>
    execution.handoff = none ∧ execution.result.workspaceCleanup = .notNeeded
  | .readOnly, some _ =>
    execution.handoff = none ∧
      (execution.result.workspaceCleanup = .proved ∨
        (execution.result.status = .cleanupBlocked ∧
          (execution.result.workspaceCleanup = .retained ∨
            execution.result.workspaceCleanup = .blocked)))
  | .worktree, _ =>
    match held.map Held.finalization with
    | some (.returned handoff) =>
      execution.handoff = handoff.map Record.toWorktreeRecord ∧
        execution.result.workspaceCleanup = .proved
    | _ => execution.handoff = none ∧ execution.result.workspaceCleanup = .retained

/-- The step of the run takes from outside of its files what the worktrees show. -/
def permits : RunAct → Bool
  -- A service takes up the runs of its store before it launches another.
  | .launch _ _ | .launchUndone _ _ =>
    w.run.executed.isEmpty && w.run.files.attempts.all fun a => decide (a.kind = .initial)
  | .finish seat execution _ =>
    (w.run.seats seat).all fun run => mayLeave run.plan (w.held seat) execution
  | .settle seat handoff =>
    !w.inWorktree seat || w.returnedHandoff seat ||
      decide ((carriedHandoff w.store w.run.files.attempts ((w.held seat).map Held.record)).map
        (fun h => h.map Record.toWorktreeRecord) = some handoff)
  | .open _ handoff _ =>
    decide ((recoveredHandoff w.store w.run.files).map
      (fun h => h.map Record.toWorktreeRecord) = some handoff)
  | .reconcile _ o _ => w.worktreeIds.all fun id => decide (o.worktree id = w.seen id)
  | .resume seat continuing _ | .resumeUndone seat continuing _ =>
    if continuing then (w.continueFrom seat).isSome
    else !w.inWorktree seat || w.retainedWorktree.isSome
  | _ => true

/-! ## What a step does to the worktrees -/

/-- The record of a new worktree. -/
def newRecord (id : JsString) (start : Option JsString) : Record where
  runId := w.run.files.plan.runId.val
  attemptId := id
  baselineHead := w.head
  handoffCommit := none
  handoffRef := none
  startCommit := start
  releasedAt := false

/-- A start: its new worktree is created at the hand-off it continues from or at the plan's start,
and its attempt holds that worktree or the retained one. -/
def startWith (seat made : ℕ) (from? existing : Option Record) (t : RunState) : Option WorkRun :=
  let executed : Bool := t.executed.length ≠ w.run.executed.length
  if t.files.worktrees.length = w.run.files.worktrees.length then
    some (if executed then { w with run := t }.setHeld seat (existing.map fun r => ⟨r, .due⟩)
      else { w with run := t })
  else
    match t.files.worktrees.getLast? with
    | none => none
    | some id =>
      let start := match from? with
        | some r => r.handoffCommit
        | none => w.run.files.plan.startAt
      let record := w.newRecord id start
      let made := advance made (createAttemptWorktree record) w.store
      -- A hand-off is continued on its baseline, while its ref pins it.
      let continuable := from?.all fun r =>
        decide (r.baselineHead = w.head) && w.store.handoffReachable r
      if continuable = true ∧ (w.store.records id).isNone = true ∧
          made.1.records id ≠ none ∧ (made.2 = true ∨
            executed = false ∧ t.files.attempts.length = w.run.files.attempts.length) then
        let next := { w with run := t, store := made.1 }
        some (if executed then next.setHeld seat (some ⟨record, .due⟩) else next)
      else none

/-- The steps on the worktrees of a release or an abandonment by a seat. -/
def releaseSteps (seat : ℕ) : List Step :=
  if w.inWorktree seat then releaseRunWorktrees w.store w.worktreeIds else []

/-- The worktrees after a step of the run. -/
def follow (a : RunAct) (made : ℕ) (t : RunState) : Option WorkRun :=
  match a with
  | .launch seat _ | .launchUndone seat _ | .retry seat _ | .retryUndone seat _ =>
    w.startWith seat made none none t
  | .resume seat continuing _ | .resumeUndone seat continuing _ =>
    if continuing then w.startWith seat made (w.continueFrom seat) none t
    else w.startWith seat made none w.retainedWorktree t
  | .release seat _ _ =>
    let out := advance made (w.releaseSteps seat) w.store
    if out.2 = true then some { w with run := t, store := out.1 } else none
  | .abandon seat released cut =>
    -- The worktrees are released after the intent is durable and remembered.
    let out := advance made (w.releaseSteps seat) w.store
    if cut < 2 then some { w with run := t }
    else if cut = 2 ∨ out.2 = released then some { w with run := t, store := out.1 }
    else none
  | _ => some { w with run := t }

/-- A seat finalizes the worktree of its attempt. -/
def finalizeWith (seat : ℕ) (held : Held) (c : JsString) (cut : ℕ) : WorkRun :=
  let out := advance cut (finalizeWorktreeHandoff w.store held.record c) w.store
  let recorded := out.1.records held.record.attemptId ≠ w.store.records held.record.attemptId
  { w with
    store := out.1
    captured := w.captured ++
      if recorded then [(held.record.updated c).toWorktreeRecord] else [] }.setHeld seat
    (some ⟨held.record,
      if out.2 then .returned (finalized w.store held.record c) else .threw⟩)

/-- The worktree a seat's attempt holds and has not finalized. -/
def heldDue (seat : ℕ) : Option Held :=
  match w.run.seats seat, w.held seat with
  | some run, some held =>
    match run.flight with
    | .running true =>
      if run.plan.mode = .worktree ∧ held.finalization = .due then some held else none
    | _ => none
  | _, _ => none

/-- One step; `none` when it cannot be taken or is refused before anything happens. -/
def step (D : Planner) (w : WorkRun) : WorkAct → Option WorkRun
  | .life a made =>
    if w.permits a = true then (w.run.step D a).bind fun t => w.follow a made t else none
  | .edit seat files =>
    (w.heldDue seat).bind fun held =>
      (w.store.onRepo fun repo => repo.edit held.record.attemptId files).map fun store =>
        { w with store := store }
  | .tear id files =>
    (w.store.onRepo fun repo => repo.tear id files).map fun store => { w with store := store }
  | .finalize seat c cut => (w.heldDue seat).map fun held => w.finalizeWith seat held c cut
  | .releaseThrows seat made =>
    if (releaseEffects w.run seat true).isSome = true then
      some { w with store := (advance made (w.releaseSteps seat) w.store).1 }
    else none

end WorkRun

/-- The commits of the repository at the launch of a run: its baseline, and the hand-off its
workspace starts at. -/
structure Preflight (plan : Plan) (head : JsString)
    (commits : JsString → Option (Git.Commit JsString JsString)) : Prop where
  baseline : ∃ commit, commits head = some commit
  startAt : ∀ c ∈ plan.startAt, ∃ tree, commits c = some ⟨tree, [head]⟩

/-- A run before its launch, with its repository. -/
def freshWork (plan : Plan) (head : JsString)
    (commits : JsString → Option (Git.Commit JsString JsString)) : WorkRun where
  run := freshRun plan
  head := head
  store := ⟨⟨commits, fun _ => none, fun _ => none⟩, fun _ => none⟩
  held := fun _ => none
  captured := []

end RunLife

end PiSubagent
