import PiSubagent.Lib.GitWorktrees
import PiSubagent.Workspace.Worktree

/-!
# Releasing the worktrees of a run

`canReleaseRunWorktrees`, which decides whether a release is offered, and `releaseRunWorktrees`, with
worktrees as registrations and directories. A failure may stop a release after any of its steps; the
removal of a worktree is three of them, and a file that cannot be deleted stops it, too.

* `observeWorktree`, `canReleaseRunWorktrees`, `releaseRunWorktrees`: the functions.
* `Overseen`: what a release asks of a record and the observation leaves out.
* `Torn`: a removal that was left half-way.
* **`release_admissible`**: a release that is offered succeeds exactly when all of it holds, and one
  that failed half-way completes exactly when it left no removal torn.
* **`release_refused`**: a release that is offered and fails.
-/

namespace PiSubagent

open JsonText

namespace Release

open GitWorktrees Scripts
open Worktree (Record RefName RecordFile Observed)

/-- The repository and the record files of a run's worktrees; each record is of the attempt its file
is named after. -/
structure Store where
  repo : Repository JsString RefName JsString
  records : JsString → Option RecordFile
  own : ∀ id r, records id = some (.written r) → r.attemptId = id

/-- A step of a release. -/
abbrev Step := Store → Option Store

namespace Store

variable (s : Store)

/-- Something is at the path of a worktree. -/
def present (id : JsString) : Bool := (s.repo.disk id).isSome

/-- The directory of a worktree is its own, at its branch and the commit. -/
def isAt (r : Record) (c : JsString) : Bool :=
  s.repo.canonical r.attemptId &&
    decide (s.repo.inspect r.attemptId = some (some (.branch r.attemptId), c))

/-- `assertHandoffReachable` accepts. -/
def handoffReachable (r : Record) : Bool :=
  r.handoffCommit.all fun c =>
    r.handoffRef.isSome && decide (s.repo.refs (.handoff r.attemptId) = some c)

/-- `writeRecord`. -/
def write (r : Record) : Store :=
  { s with
    records := Function.update s.records r.attemptId (some (.written r))
    own := by
      intro id r' h
      by_cases hid : id = r.attemptId
      · rw [hid, Function.update_self] at h
        obtain rfl := RecordFile.written.inj (Option.some.inj h)
        exact hid.symm
      · rw [Function.update_of_ne hid] at h
        exact s.own id r' h }

end Store

/-! ## Observation -/

/-- `observeWorktree`. -/
def observeWorktree (s : Store) (r : Record) : Observed :=
  match s.repo.disk r.attemptId with
  | some .other => .unknown
  | none =>
    match s.repo.refs (.branch r.attemptId) with
    | none => if r.releasedAt then .absent else .unknown
    | some c => if c = r.expectedHead then .branchRetained else .unknown
  | some (.directory _) =>
    if s.isAt r r.expectedHead then
      if s.repo.clean r.attemptId then .clean else .dirty
    else .unknown

/-- The worktrees that the attempt records name by their `worktreeAttemptId`, each once. -/
def worktreeAttempts (attempts : List (Option JsString)) : List JsString :=
  (attempts.filterMap id).eraseDups

/-- `canReleaseRunWorktrees`. -/
def canReleaseRunWorktrees (mode : WorkspaceMode) (attempts : List (Option JsString)) (s : Store) :
    Bool :=
  if mode = .readOnly then true
  else if worktreeAttempts attempts = [] then false
  else (worktreeAttempts attempts).all fun id =>
    match s.records id with
    | some (.written r) =>
      r.releasedAt || !decide (observeWorktree s r = .dirty ∨ observeWorktree s r = .unknown)
    | _ => false

/-! ## Release -/

/-- How the deletions of a release go. -/
structure Deletions where
  /-- What is at the path of a worktree once its first files are deleted. -/
  left : JsString → Directory
  /-- A file of a worktree cannot be deleted. -/
  stuck : JsString → Bool

/-- `removeCleanWorktree`, to the first files that `git worktree remove` deletes. -/
def beginRemoval (runId : JsString) (d : Deletions) (r : Record) : Step := fun s =>
  if r.runId = runId ∧ s.isAt r r.expectedHead = true ∧ s.repo.clean r.attemptId = true then
    (s.repo.beginRemoval false r.attemptId (d.left r.attemptId)).map fun repo => { s with repo := repo }
  else none

/-- The directory is deleted. -/
def deleteTree (r : Record) : Step := fun s =>
  some { s with repo := s.repo.deleteTree r.attemptId }

/-- The registration is deleted. -/
def unregister (r : Record) : Step := fun s =>
  some { s with repo := s.repo.unregister r.attemptId }

/-- `removeCleanWorktree`. When a file cannot be deleted, `git worktree remove` drops the registration
all the same, and fails. -/
def removeCleanWorktree (runId : JsString) (d : Deletions) (r : Record) : List Step :=
  beginRemoval runId d r ::
    if d.stuck r.attemptId then [unregister r, fun _ => none] else [deleteTree r, unregister r]

/-- `releaseWorktreeBranch`, to the deletion of the branch. -/
def dropBranch (runId : JsString) (r : Record) : Step := fun s =>
  if r.runId = runId ∧ s.present r.attemptId = false ∧ s.handoffReachable r = true then
    match s.repo.refs (.branch r.attemptId) with
    | none => some s
    | some c =>
      if c = r.expectedHead then
        (s.repo.deleteBranch (.branch r.attemptId)).map fun repo => { s with repo := repo }
      else none
  else none

/-- `releaseWorktreeBranch`, from the deletion of the branch. -/
def writeReleased (r : Record) : Step := fun s => some (s.write r.released)

/-- The steps for one worktree, from the state its turn begins in. -/
def releaseSteps (runId : JsString) (d : Deletions) (s : Store) (id : JsString) : List Step :=
  match s.records id with
  | some (.written r) =>
    (if s.present r.attemptId then removeCleanWorktree runId d r else []) ++
      [dropBranch runId r, writeReleased r]
  -- The record cannot be read.
  | _ => [fun _ => none]

/-- The worktrees of a release in their order, for at most `n` steps. -/
def releaseEach (runId : JsString) (d : Deletions) : ℕ → List JsString → Store → Store × Bool
  | _, [], s => (s, true)
  | n, id :: ids, s =>
    match advance n (releaseSteps runId d s id) s with
    | (t, true) => releaseEach runId d (n - (releaseSteps runId d s id).length) ids t
    | (t, false) => (t, false)

/-- `releaseRunWorktrees`, stopped after at most `n` steps: the state, and whether it has returned. -/
def releaseRunWorktrees (mode : WorkspaceMode) (runId : JsString) (d : Deletions) (n : ℕ)
    (attempts : List (Option JsString)) (s : Store) : Store × Bool :=
  if mode = .readOnly then (s, true)
  else if worktreeAttempts attempts = [] then (s, false)
  else releaseEach runId d n (worktreeAttempts attempts) s

/-! ## What a release asks of a record -/

/-- A checkout other than the worktree itself is at the branch of an attempt. -/
def Store.usedElsewhere (s : Store) (id : JsString) : Bool :=
  decide (s.repo.main = .branch (.branch id)) ||
    s.repo.registered.any fun e => decide (e.2.head = .branch (.branch id)) &&
      !(decide (e.1 = id) && s.present id)

/-- The release of a record goes through. -/
structure Releasable (runId : JsString) (s : Store) (r : Record) : Prop where
  run : r.runId = runId
  reachable : s.handoffReachable r = true
  /-- A directory is the worktree's own and removable. -/
  tree : s.present r.attemptId = true → s.isAt r r.expectedHead = true ∧
    s.repo.clean r.attemptId = true ∧ s.repo.removable false r.attemptId = true
  /-- A branch is where it should be and of no other checkout. -/
  branch : ∀ c, s.repo.refs (.branch r.attemptId) = some c →
    c = r.expectedHead ∧ s.usedElsewhere r.attemptId = false

/-- What a release asks of a record and `canReleaseRunWorktrees` leaves out. -/
structure Overseen (runId : JsString) (s : Store) (r : Record) : Prop where
  run : r.runId = runId
  reachable : s.handoffReachable r = true
  /-- `git worktree remove` does not refuse the directory. -/
  unlocked : s.present r.attemptId = true →
    (s.repo.registration r.attemptId).all (fun reg => !reg.locked) = true
  /-- No other checkout is at the branch. -/
  unused : (s.repo.refs (.branch r.attemptId)).isSome = true → s.usedElsewhere r.attemptId = false
  /-- A worktree that has been released has nothing left but what a release removes. -/
  released : r.releasedAt = true →
    (s.present r.attemptId = true →
      s.isAt r r.expectedHead = true ∧ s.repo.clean r.attemptId = true) ∧
    ∀ c, s.repo.refs (.branch r.attemptId) = some c → c = r.expectedHead

/-- The record of a worktree is there and has the property. -/
def Store.Has (s : Store) (id : JsString) (P : Record → Prop) : Prop :=
  ∃ r, s.records id = some (.written r) ∧ P r

/-- A release that nothing stops returns, and leaves this state. -/
def Completes (mode : WorkspaceMode) (runId : JsString) (attempts : List (Option JsString))
    (s t : Store) : Prop :=
  ∃ d n, releaseRunWorktrees mode runId d n attempts s = (t, true)

/-- The worktrees are released: their records say so, their paths and branches are gone, and no
hand-off ref has changed. -/
structure AllReleased (ids : List JsString) (s t : Store) : Prop where
  records : ∀ id ∈ ids, t.Has id fun r => r.releasedAt = true
  paths : ∀ id ∈ ids, t.present id = false
  branches : ∀ id ∈ ids, t.repo.refs (.branch id) = none
  handoffs : ∀ id, t.repo.refs (.handoff id) = s.repo.refs (.handoff id)

/-- A clean worktree of its own is at the path. -/
def Store.Whole (s : Store) (id : JsString) : Prop :=
  s.repo.canonical id = true ∧ s.repo.clean id = true ∧ (s.repo.inspect id).isSome = true

/-- Neither a directory nor a registration is left of a worktree. -/
def Store.Gone (s : Store) (id : JsString) : Prop :=
  s.present id = false ∧ s.repo.registration id = none

/-- The removal of a worktree has begun, and what is left of it is neither nothing nor a clean
worktree. -/
def Torn (ids : List JsString) (s u : Store) : Prop :=
  ∃ id ∈ ids, s.present id = true ∧
    (u.repo.disk id ≠ s.repo.disk id ∨ u.repo.registration id ≠ s.repo.registration id) ∧
      ¬u.Whole id ∧ ¬u.Gone id

/-! ## The turn of one worktree -/

section Turn

variable {runId : JsString} {d : Deletions} {s t : Store} {r : Record} {c : JsString}

theorem isAt_iff : s.isAt r c = true ↔ ∃ d reg, s.repo.disk r.attemptId = some (.directory d) ∧
    d.canonical = true ∧ d.linked = true ∧ s.repo.registration r.attemptId = some reg ∧
      reg.head = .branch (.branch r.attemptId) ∧ s.repo.refs (.branch r.attemptId) = some c := by
  rw [Store.isAt, Bool.and_eq_true, decide_eq_true_eq]
  constructor
  · rintro ⟨hcanonical, hinspect⟩
    obtain ⟨d, reg, hd, hreg, hl, hhead, hc⟩ := Repository.inspect_branch hinspect
    rw [Repository.canonical, hd] at hcanonical
    exact ⟨d, reg, hd, hcanonical, hl, hreg, hhead, hc⟩
  · rintro ⟨d, reg, hd, hcanonical, hl, hreg, hhead, hc⟩
    refine ⟨?_, ?_⟩
    · rw [Repository.canonical, hd]
      exact hcanonical
    · rw [Repository.inspect, hd, hreg]
      dsimp only
      rw [if_pos hl, hhead, Repository.commitOf, hc]
      rfl

theorem releaseSteps_eq {id : JsString} (h : s.records id = some (.written r)) :
    releaseSteps runId d s id =
      (if s.present r.attemptId then removeCleanWorktree runId d r else []) ++
        [dropBranch runId r, writeReleased r] := by
  rw [releaseSteps, h]

/-- The store without the first files of a worktree. -/
def Store.begun (s : Store) (id : JsString) (left : Directory) : Store :=
  { s with repo := { s.repo with disk := Function.update s.repo.disk id (some (.directory left)) } }

/-- The store without the directory of a worktree. -/
def Store.treeless (s : Store) (id : JsString) : Store := { s with repo := s.repo.deleteTree id }

/-- The store without the registration of a worktree. -/
def Store.dropped (s : Store) (id : JsString) : Store := { s with repo := s.repo.unregister id }

/-- The store without the directory and the registration of a worktree. -/
def Store.unlisted (s : Store) (id : JsString) : Store :=
  (s.treeless id).dropped id

/-- The store a turn leaves its branch deletion from: without the worktree that was there. -/
def Store.bare (s : Store) (id : JsString) : Store :=
  if s.present id then s.unlisted id else s

/-- The store without the branch of a worktree. -/
def Store.branchless (s : Store) (id : JsString) : Store :=
  { s with repo := { s.repo with refs := Function.update s.repo.refs (.branch id) none } }

/-- The store after the turn of a worktree. -/
def Store.settled (s : Store) (r : Record) : Store :=
  ((s.bare r.attemptId).branchless r.attemptId).write r.released

theorem beginRemoval_iff : beginRemoval runId d r s = some t ↔
    (r.runId = runId ∧ s.isAt r r.expectedHead = true ∧ s.repo.clean r.attemptId = true ∧
      s.repo.removable false r.attemptId = true) ∧
        t = s.begun r.attemptId (d.left r.attemptId) := by
  unfold beginRemoval
  rw [Option.ite_none_right_eq_some, Option.map_eq_some_iff]
  constructor
  · rintro ⟨⟨hrun, hat, hclean⟩, repo, hrepo, rfl⟩
    obtain ⟨hremovable, rfl⟩ := Repository.beginRemoval_eq_some.mp hrepo
    exact ⟨⟨hrun, hat, hclean, hremovable⟩, rfl⟩
  · rintro ⟨⟨hrun, hat, hclean, hremovable⟩, rfl⟩
    exact ⟨⟨hrun, hat, hclean⟩, _, Repository.beginRemoval_eq_some.mpr ⟨hremovable, rfl⟩, rfl⟩

theorem treeless_begun (s : Store) (id : JsString) (left : Directory) :
    (s.begun id left).treeless id = s.treeless id := by
  unfold Store.treeless Store.begun Repository.deleteTree
  simp only [Function.update_idem]

theorem present_begun (s : Store) (id : JsString) (left : Directory) :
    (s.begun id left).present id = true := by
  change (Function.update s.repo.disk id _ id).isSome = true
  rw [Function.update_self]
  rfl

theorem present_treeless (s : Store) (id : JsString) : (s.treeless id).present id = false := by
  change (Function.update s.repo.disk id none id).isSome = false
  rw [Function.update_self]
  rfl

theorem present_bare (s : Store) (id : JsString) : (s.bare id).present id = false := by
  unfold Store.bare
  split
  · exact present_treeless s id
  · rename_i h
    exact Bool.eq_false_iff.mpr h

/-- Once the worktree is gone, the checkouts of its branch are the others. -/
theorem checkedOut_bare (s : Store) (id : JsString) :
    (s.bare id).repo.checkedOut (.branch id) = s.usedElsewhere id := by
  unfold Store.bare Store.usedElsewhere Repository.checkedOut
  split
  · rename_i h
    change (_ || (s.repo.registered.filter _).any _) = _
    rw [List.any_filter]
    congr 2
    funext e
    by_cases he : e.1 = id <;> simp [he, h]
  · rename_i h
    congr 2
    funext e
    simp [Bool.eq_false_iff.mpr h]

theorem refs_bare (s : Store) (id : JsString) : (s.bare id).repo.refs = s.repo.refs := by
  unfold Store.bare
  split <;> rfl

theorem records_bare (s : Store) (id : JsString) : (s.bare id).records = s.records := by
  unfold Store.bare
  split <;> rfl

theorem reachable_bare (s : Store) (id : JsString) (r : Record) :
    (s.bare id).handoffReachable r = s.handoffReachable r := by
  unfold Store.handoffReachable
  rw [refs_bare]

theorem branchless_of_none {id : JsString} (h : s.repo.refs (.branch id) = none) :
    s.branchless id = s := by
  have hrefs : Function.update s.repo.refs (.branch id) none = s.repo.refs := by
    rw [Function.update_eq_self_iff]
    exact h.symm
  unfold Store.branchless
  rw [hrefs]

theorem write_self (h : s.records r.attemptId = some (.written r)) : s.write r = s := by
  have hrecords : Function.update s.records r.attemptId (some (.written r)) = s.records := by
    rw [Function.update_eq_self_iff]
    exact h.symm
  cases s
  unfold Store.write
  congr

theorem dropBranch_iff : dropBranch runId r s = some t ↔
    (r.runId = runId ∧ s.present r.attemptId = false ∧ s.handoffReachable r = true ∧
      ∀ c, s.repo.refs (.branch r.attemptId) = some c →
        c = r.expectedHead ∧ s.repo.checkedOut (.branch r.attemptId) = false) ∧
    t = s.branchless r.attemptId := by
  unfold dropBranch
  cases hb : s.repo.refs (.branch r.attemptId) with
  | none =>
    rw [branchless_of_none hb]
    dsimp only
    rw [Option.ite_none_right_eq_some]
    constructor
    · rintro ⟨⟨hrun, habsent, hreachable⟩, ⟨⟩⟩
      exact ⟨⟨hrun, habsent, hreachable, fun _ h => nomatch h⟩, rfl⟩
    · rintro ⟨⟨hrun, habsent, hreachable, -⟩, rfl⟩
      exact ⟨⟨hrun, habsent, hreachable⟩, rfl⟩
  | some c =>
    dsimp only
    rw [Option.ite_none_right_eq_some, Option.ite_none_right_eq_some]
    constructor
    · rintro ⟨⟨hrun, habsent, hreachable⟩, hc, h⟩
      obtain ⟨repo, hrepo, rfl⟩ := Option.map_eq_some_iff.mp h
      obtain ⟨hout, rfl⟩ := Repository.deleteBranch_eq_some hrepo
      refine ⟨⟨hrun, habsent, hreachable, fun c' hc' => ?_⟩, rfl⟩
      obtain rfl := Option.some.inj hc'
      exact ⟨hc, hout⟩
    · rintro ⟨⟨hrun, habsent, hreachable, hbranch⟩, rfl⟩
      obtain ⟨hc, hout⟩ := hbranch c rfl
      refine ⟨⟨hrun, habsent, hreachable⟩, hc, ?_⟩
      rw [Repository.deleteBranch, hb, hout]
      rfl

theorem branchSteps_iff (runId : JsString) (s t : Store) (r : Record) : ([dropBranch runId r, writeReleased r].foldlM (fun s f => f s)
      (s.bare r.attemptId) = some t) ↔
    (r.runId = runId ∧ s.handoffReachable r = true ∧
      ∀ c, s.repo.refs (.branch r.attemptId) = some c →
        c = r.expectedHead ∧ s.usedElsewhere r.attemptId = false) ∧ t = s.settled r := by
  have hdrop (u : Store) : dropBranch runId r (s.bare r.attemptId) = some u ↔
      (r.runId = runId ∧ s.handoffReachable r = true ∧
        ∀ c, s.repo.refs (.branch r.attemptId) = some c →
          c = r.expectedHead ∧ s.usedElsewhere r.attemptId = false) ∧
        u = (s.bare r.attemptId).branchless r.attemptId := by
    rw [dropBranch_iff, reachable_bare, refs_bare, checkedOut_bare]
    simp only [present_bare, true_and]
  rw [List.foldlM_cons, Option.bind_eq_bind, Option.bind_eq_some_iff]
  constructor
  · rintro ⟨u, hu, h⟩
    obtain ⟨hc, rfl⟩ := (hdrop u).mp hu
    exact ⟨hc, (Option.some.inj h).symm⟩
  · rintro ⟨hc, rfl⟩
    exact ⟨_, (hdrop _).mpr ⟨hc, rfl⟩, rfl⟩

/-- **The turn of a worktree goes through exactly when its record is releasable** and its files can be
deleted. -/
theorem turn_iff {id : JsString} (hr : s.records id = some (.written r)) :
    (releaseSteps runId d s id).foldlM (fun s f => f s) s = some t ↔
      (Releasable runId s r ∧ (s.present r.attemptId = true → d.stuck r.attemptId = false)) ∧
        t = s.settled r := by
  rw [releaseSteps_eq hr]
  cases hp : s.present r.attemptId with
  | false =>
    have hbare : s.bare r.attemptId = s := by
      rw [Store.bare, if_neg (Bool.eq_false_iff.mp hp)]
    have hsteps := branchSteps_iff runId s t r
    rw [hbare] at hsteps
    rw [if_neg Bool.false_ne_true, List.nil_append, hsteps]
    refine and_congr_left fun _ => ⟨fun h => ⟨⟨h.1, h.2.1, fun hn => ?_, h.2.2⟩, nofun⟩,
      fun h => ⟨h.1.run, h.1.reachable, h.1.branch⟩⟩
    rw [hp] at hn
    exact nomatch hn
  | true =>
    have hbare : s.bare r.attemptId = s.unlisted r.attemptId := by rw [Store.bare, if_pos hp]
    have hsteps := branchSteps_iff runId s t r
    rw [hbare] at hsteps
    rw [if_pos rfl, removeCleanWorktree, List.cons_append, List.foldlM_cons, Option.bind_eq_bind,
      Option.bind_eq_some_iff]
    cases hstuck : d.stuck r.attemptId with
    | true =>
      refine iff_of_false ?_ fun h => nomatch h.1.2 rfl
      rintro ⟨u, -, h⟩
      rw [if_pos rfl] at h
      exact nomatch h
    | false =>
      have hrest : ([deleteTree r, unregister r] ++ [dropBranch runId r, writeReleased r]).foldlM
          (fun s f => f s) (s.begun r.attemptId (d.left r.attemptId)) =
            [dropBranch runId r, writeReleased r].foldlM (fun s f => f s)
              (s.unlisted r.attemptId) := by
        rw [Store.unlisted, ← treeless_begun s r.attemptId (d.left r.attemptId)]
        rfl
      rw [if_neg Bool.false_ne_true]
      constructor
      · rintro ⟨u, hu, h⟩
        obtain ⟨⟨hrun, hat, hclean, hremovable⟩, rfl⟩ := beginRemoval_iff.mp hu
        rw [hrest] at h
        obtain ⟨hc, rfl⟩ := hsteps.mp h
        exact ⟨⟨⟨hrun, hc.2.1, fun _ => ⟨hat, hclean, hremovable⟩, hc.2.2⟩, fun _ => rfl⟩, rfl⟩
      · rintro ⟨⟨h, -⟩, rfl⟩
        obtain ⟨hat, hclean, hremovable⟩ := h.tree hp
        refine ⟨_, beginRemoval_iff.mpr ⟨⟨h.run, hat, hclean, hremovable⟩, rfl⟩, ?_⟩
        rw [hrest]
        exact hsteps.mpr ⟨⟨h.run, h.reachable, h.branch⟩, rfl⟩

theorem turn_cases {id : JsString}
    (h : (releaseSteps runId d s id).foldlM (fun (s : Store) (f : Step) => f s) s = some t) :
    ∃ r, s.records id = some (.written r) ∧ r.attemptId = id ∧ Releasable runId s r ∧
      t = s.settled r := by
  cases hrec : s.records id with
  | none =>
    rw [releaseSteps, hrec] at h
    exact nomatch h
  | some file =>
    cases file with
    | reserved =>
      rw [releaseSteps, hrec] at h
      exact nomatch h
    | written r =>
      obtain ⟨⟨hrel, -⟩, rfl⟩ := (turn_iff hrec).mp h
      exact ⟨r, rfl, s.own id r hrec, hrel, rfl⟩

end Turn

/-! ## What a turn leaves alone -/

/-- What the files and the repository have of a worktree is the same in two states. -/
structure Kept (s t : Store) (id : JsString) : Prop where
  records : t.records id = s.records id
  disk : t.repo.disk id = s.repo.disk id
  branch : t.repo.refs (.branch id) = s.repo.refs (.branch id)
  handoff : t.repo.refs (.handoff id) = s.repo.refs (.handoff id)
  registration : t.repo.registration id = s.repo.registration id

/-- What a release reads of a worktree is the same in two states. -/
structure SameAt (s t : Store) (id : JsString) : Prop extends Kept s t id where
  used : t.usedElsewhere id = s.usedElsewhere id

section SameAt

variable {runId : JsString} {d : Deletions} {s t u : Store} {r : Record} {id : JsString}

theorem Kept.refl (s : Store) (id : JsString) : Kept s s id := ⟨rfl, rfl, rfl, rfl, rfl⟩

theorem Kept.trans (h : Kept s t id) (h' : Kept t u id) : Kept s u id where
  records := h'.records.trans h.records
  disk := h'.disk.trans h.disk
  branch := h'.branch.trans h.branch
  handoff := h'.handoff.trans h.handoff
  registration := h'.registration.trans h.registration

theorem SameAt.refl (s : Store) (id : JsString) : SameAt s s id := ⟨Kept.refl s id, rfl⟩

theorem SameAt.trans (h : SameAt s t id) (h' : SameAt t u id) : SameAt s u id :=
  ⟨h.toKept.trans h'.toKept, h'.used.trans h.used⟩

theorem SameAt.symm (h : SameAt s t id) : SameAt t s id :=
  ⟨⟨h.records.symm, h.disk.symm, h.branch.symm, h.handoff.symm, h.registration.symm⟩, h.used.symm⟩

theorem Kept.present (h : Kept s t id) : t.present id = s.present id := by
  unfold Store.present
  rw [h.disk]

theorem Kept.handoffReachable (h : Kept s t r.attemptId) :
    t.handoffReachable r = s.handoffReachable r := by
  unfold Store.handoffReachable
  rw [h.handoff]

theorem SameAt.releasable (h : SameAt s t r.attemptId) (hr : Releasable runId s r) :
    Releasable runId t r where
  run := hr.run
  reachable := by
    rw [h.handoffReachable]
    exact hr.reachable
  tree := by
    intro hp
    rw [h.present] at hp
    obtain ⟨hat, hclean, hremovable⟩ := hr.tree hp
    refine ⟨?_, ?_, ?_⟩
    · rw [isAt_iff, h.disk, h.registration, h.branch, ← isAt_iff]
      exact hat
    · rw [Repository.clean, h.disk]
      exact hclean
    · rw [Repository.removable, h.registration, h.disk]
      exact hremovable
  branch := by
    intro c hc
    rw [h.branch] at hc
    rw [h.used]
    exact hr.branch c hc

/-- **The turn of a worktree leaves every other one alone.** -/
theorem settled_sameAt (hr : Releasable runId s r) (hne : id ≠ r.attemptId) :
    SameAt s (s.settled r) id where
  records := by
    change Function.update (s.bare r.attemptId).records r.attemptId _ id = s.records id
    rw [Function.update_of_ne hne, records_bare]
  disk := by
    change (s.bare r.attemptId).repo.disk id = s.repo.disk id
    unfold Store.bare
    split
    · exact Function.update_of_ne hne _ _
    · rfl
  branch := by
    change Function.update (s.bare r.attemptId).repo.refs _ none _ = s.repo.refs _
    rw [Function.update_of_ne (fun h => hne (RefName.branch.inj h)), refs_bare]
  handoff := by
    change Function.update (s.bare r.attemptId).repo.refs (.branch r.attemptId) none (.handoff id) =
      s.repo.refs (.handoff id)
    rw [Function.update_of_ne RefName.noConfusion, refs_bare]
  registration := by
    change (s.bare r.attemptId).repo.registration id = s.repo.registration id
    unfold Store.bare
    split
    · exact Repository.registration_unregister_ne hne
    · rfl
  used := by
    have hpresent : (s.settled r).present id = s.present id := by
      unfold Store.present
      congr 1
      change (s.bare r.attemptId).repo.disk id = s.repo.disk id
      unfold Store.bare
      split
      · exact Function.update_of_ne hne _ _
      · rfl
    unfold Store.usedElsewhere
    rw [hpresent]
    change (decide ((s.bare r.attemptId).repo.main = _) ||
      (s.bare r.attemptId).repo.registered.any _) = _
    unfold Store.bare
    split
    · rename_i hp
      -- The registration that went was at its own branch.
      obtain ⟨-, reg, -, -, -, hreg, hhead, -⟩ := isAt_iff.mp (hr.tree hp).1
      change (_ || (s.repo.registered.filter _).any _) = _
      rw [List.any_filter]
      congr 1
      rw [Bool.eq_iff_iff, List.any_eq_true, List.any_eq_true]
      refine exists_congr fun e => and_congr_right fun he => ?_
      by_cases hpath : e.1 = r.attemptId
      · have hself := Repository.registration_of_mem he
        rw [hpath, hreg] at hself
        have hother : e.2.head ≠ .branch (.branch id) := by
          rw [← Option.some.inj hself, hhead]
          exact fun h => hne (RefName.branch.inj (Head.branch.inj h)).symm
        simp [hother]
      · simp [hpath]
    · rfl

theorem bare_bare (s : Store) (id : JsString) : (s.bare id).bare id = s.bare id := by
  have hp := present_bare s id
  rw [Store.bare, if_neg (Bool.eq_false_iff.mp hp)]

theorem usedElsewhere_bare (s : Store) (id : JsString) :
    (s.bare id).usedElsewhere id = s.usedElsewhere id := by
  have h := checkedOut_bare (s.bare id) id
  rw [bare_bare, checkedOut_bare] at h
  exact h.symm

theorem bare_branchless (s : Store) (id : JsString) :
    ((s.bare id).branchless id).bare id = (s.bare id).branchless id := by
  have hp : ((s.bare id).branchless id).present id = false := present_bare s id
  rw [Store.bare, if_neg (Bool.eq_false_iff.mp hp)]

theorem branchless_branchless (s : Store) (id : JsString) :
    (s.branchless id).branchless id = s.branchless id := by
  apply branchless_of_none
  change Function.update s.repo.refs _ none _ = none
  rw [Function.update_self]

theorem settled_own (s : Store) (r : Record) :
    (s.settled r).records r.attemptId = some (.written r.released) ∧
      (s.settled r).present r.attemptId = false ∧
      (s.settled r).repo.refs (.branch r.attemptId) = none ∧
      (∀ id, (s.settled r).repo.refs (.handoff id) = s.repo.refs (.handoff id)) ∧
      (s.present r.attemptId = true → (s.settled r).repo.registration r.attemptId = none) := by
  refine ⟨?_, present_bare s r.attemptId, ?_, ?_, ?_⟩
  · change Function.update _ r.attemptId _ r.attemptId = _
    rw [Function.update_self]
  · change Function.update _ _ _ _ = _
    rw [Function.update_self]
  · intro id
    change Function.update (s.bare r.attemptId).repo.refs (.branch r.attemptId) none (.handoff id) =
      s.repo.refs (.handoff id)
    rw [Function.update_of_ne RefName.noConfusion, refs_bare]
  · intro hp
    change (s.bare r.attemptId).repo.registration r.attemptId = none
    rw [Store.bare, if_pos hp]
    exact Repository.registration_unregister_self _

theorem step_kept {a : JsString} {f : Step} (hf : f ∈ releaseSteps runId d s a) (hne : id ≠ a)
    (h : f t = some u) : Kept t u id := by
  unfold releaseSteps at hf
  split at hf
  · rename_i r hr
    obtain rfl := s.own a r hr
    have hmem : f = beginRemoval runId d r ∨ f = deleteTree r ∨ f = unregister r ∨
        f = (fun _ => none) ∨ f = dropBranch runId r ∨ f = writeReleased r := by
      unfold removeCleanWorktree at hf
      split_ifs at hf <;> simp only [List.mem_append, List.mem_cons, List.not_mem_nil, or_false,
        false_or] at hf <;> tauto
    rcases hmem with rfl | rfl | rfl | rfl | rfl | rfl
    · obtain ⟨-, rfl⟩ := beginRemoval_iff.mp h
      exact ⟨rfl, Function.update_of_ne hne _ _, rfl, rfl, rfl⟩
    · obtain rfl := Option.some.inj h
      exact ⟨rfl, Function.update_of_ne hne _ _, rfl, rfl, rfl⟩
    · obtain rfl := Option.some.inj h
      exact ⟨rfl, rfl, rfl, rfl, Repository.registration_unregister_ne hne⟩
    · cases h
    · obtain ⟨-, rfl⟩ := dropBranch_iff.mp h
      have hhandoff : Function.update t.repo.refs (.branch r.attemptId) none (.handoff id) =
          t.repo.refs (.handoff id) := by
        rw [Function.update_of_ne RefName.noConfusion]
      exact ⟨rfl, rfl, Function.update_of_ne (fun h => hne (RefName.branch.inj h)) _ _, hhandoff, rfl⟩
    · obtain rfl := Option.some.inj h
      exact ⟨Function.update_of_ne hne _ _, rfl, rfl, rfl, rfl⟩
  · obtain rfl := List.mem_singleton.mp hf
    cases h

/-! ## Turns that are taken again -/

/-- Where the turn of a releasable record may be stopped. -/
inductive StoppedAt (d : Deletions) (s : Store) (r : Record) : Store → Prop
  | start : StoppedAt d s r s
  | begun (h : s.present r.attemptId = true) :
    StoppedAt d s r (s.begun r.attemptId (d.left r.attemptId))
  /-- A file could not be deleted. -/
  | stuck (h : s.present r.attemptId = true) :
    StoppedAt d s r ((s.begun r.attemptId (d.left r.attemptId)).dropped r.attemptId)
  | treeless (h : s.present r.attemptId = true) : StoppedAt d s r (s.treeless r.attemptId)
  | bare : StoppedAt d s r (s.bare r.attemptId)
  | branchless : StoppedAt d s r ((s.bare r.attemptId).branchless r.attemptId)

/-- The turn of a releasable record is stopped at one of these places. -/
theorem turn_cut {n : ℕ} (hr : s.records id = some (.written r)) (hrel : Releasable runId s r)
    (h : advance n (releaseSteps runId d s id) s = (u, false)) : StoppedAt d s r u := by
  have hdrop : dropBranch runId r (s.bare r.attemptId) =
      some ((s.bare r.attemptId).branchless r.attemptId) := by
    rw [dropBranch_iff, reachable_bare, refs_bare, checkedOut_bare]
    exact ⟨⟨hrel.run, present_bare s _, hrel.reachable, hrel.branch⟩, rfl⟩
  have hsecond {m : ℕ} (h : advance m [dropBranch runId r, writeReleased r] (s.bare r.attemptId) =
      (u, false)) : StoppedAt d s r u := by
    match m with
    | 0 => exact (Prod.mk.inj h).1 ▸ .bare
    | 1 =>
      rw [advance_some hdrop] at h
      exact (Prod.mk.inj h).1 ▸ .branchless
    | m + 2 =>
      rw [advance_some hdrop] at h
      have hwrite : writeReleased r ((s.bare r.attemptId).branchless r.attemptId) =
          some (s.settled r) := rfl
      rw [advance_some hwrite, advance_nil] at h
      exact nomatch (Prod.mk.inj h).2
  rw [releaseSteps_eq hr] at h
  cases hp : s.present r.attemptId with
  | false =>
    have hbare : s.bare r.attemptId = s := by rw [Store.bare, if_neg (Bool.eq_false_iff.mp hp)]
    rw [hp, if_neg Bool.false_ne_true, List.nil_append] at h
    rw [hbare] at hsecond
    exact hsecond h
  | true =>
    have hbare : s.bare r.attemptId = s.unlisted r.attemptId := by rw [Store.bare, if_pos hp]
    rw [hp, if_pos rfl, removeCleanWorktree, List.cons_append] at h
    obtain ⟨hat, hclean, hremovable⟩ := hrel.tree hp
    have hbegin : beginRemoval runId d r s = some (s.begun r.attemptId (d.left r.attemptId)) :=
      beginRemoval_iff.mpr ⟨⟨hrel.run, hat, hclean, hremovable⟩, rfl⟩
    have hdelete : deleteTree r (s.begun r.attemptId (d.left r.attemptId)) =
        some (s.treeless r.attemptId) := by
      rw [← treeless_begun s r.attemptId (d.left r.attemptId)]
      rfl
    have hunregister : unregister r (s.treeless r.attemptId) = some (s.bare r.attemptId) := by
      rw [hbare]
      rfl
    have hfail : unregister r (s.begun r.attemptId (d.left r.attemptId)) =
        some ((s.begun r.attemptId (d.left r.attemptId)).dropped r.attemptId) := rfl
    cases hstuck : d.stuck r.attemptId with
    | true =>
      rw [hstuck, if_pos rfl] at h
      match n with
      | 0 => exact (Prod.mk.inj h).1 ▸ .start
      | 1 =>
        rw [advance_some hbegin] at h
        exact (Prod.mk.inj h).1 ▸ .begun hp
      | 2 =>
        rw [advance_some hbegin, List.cons_append, advance_some hfail] at h
        exact (Prod.mk.inj h).1 ▸ .stuck hp
      | n + 3 =>
        rw [advance_some hbegin, List.cons_append, advance_some hfail, List.cons_append,
          advance_none rfl] at h
        exact (Prod.mk.inj h).1 ▸ .stuck hp
    | false =>
      rw [hstuck, if_neg Bool.false_ne_true] at h
      match n with
      | 0 => exact (Prod.mk.inj h).1 ▸ .start
      | 1 =>
        rw [advance_some hbegin] at h
        exact (Prod.mk.inj h).1 ▸ .begun hp
      | 2 =>
        rw [advance_some hbegin, List.cons_append, advance_some hdelete] at h
        exact (Prod.mk.inj h).1 ▸ .treeless hp
      | n + 3 =>
        rw [advance_some hbegin, List.cons_append, advance_some hdelete, List.cons_append,
          advance_some hunregister] at h
        exact hsecond h

/-- A turn that was stopped before its removal, or after it, goes through when it is taken again, to
the same end. -/
theorem turn_again (hrel : Releasable runId s r)
    (hu : u = s ∨ u = s.bare r.attemptId ∨ u = (s.bare r.attemptId).branchless r.attemptId) :
    Releasable runId u r ∧ u.settled r = s.settled r := by
  rcases hu with rfl | rfl | rfl
  · exact ⟨hrel, rfl⟩
  · refine ⟨⟨hrel.run, ?_, fun hp => ?_, ?_⟩, ?_⟩
    · rw [reachable_bare]
      exact hrel.reachable
    · rw [present_bare] at hp
      exact nomatch hp
    · rw [refs_bare, usedElsewhere_bare]
      exact hrel.branch
    · unfold Store.settled
      rw [bare_bare]
  · have hreachable : ((s.bare r.attemptId).branchless r.attemptId).handoffReachable r = true := by
      rw [← hrel.reachable, ← reachable_bare s r.attemptId]
      rfl
    refine ⟨⟨hrel.run, hreachable, fun hp => ?_, fun c hc => ?_⟩, ?_⟩
    · have habsent : ((s.bare r.attemptId).branchless r.attemptId).present r.attemptId = false :=
        present_bare s r.attemptId
      rw [habsent] at hp
      exact nomatch hp
    · change Function.update _ _ _ _ = _ at hc
      rw [Function.update_self] at hc
      exact nomatch hc
    · unfold Store.settled
      rw [bare_branchless, branchless_branchless]

/-- What the first deleted files leave is a clean worktree exactly when its turn goes through again,
to the same end. -/
theorem turn_begun (left : Directory) (hrel : Releasable runId s r)
    (hp : s.present r.attemptId = true) :
    (Releasable runId (s.begun r.attemptId left) r ↔ (s.begun r.attemptId left).Whole r.attemptId) ∧
      (s.begun r.attemptId left).settled r = s.settled r := by
  obtain ⟨e, reg, he, -, -, hreg, hhead, hc⟩ := isAt_iff.mp (hrel.tree hp).1
  have hremovable := (hrel.tree hp).2.2
  rw [Repository.removable, hreg, he, Bool.and_eq_true, Bool.and_eq_true] at hremovable
  have hdisk : (s.begun r.attemptId left).repo.disk r.attemptId = some (.directory left) :=
    Function.update_self _ _ _
  have hreg' : (s.begun r.attemptId left).repo.registration r.attemptId = some reg := hreg
  have hc' : (s.begun r.attemptId left).repo.refs (.branch r.attemptId) = some r.expectedHead := hc
  have hpresent := present_begun s r.attemptId left
  constructor
  · constructor
    · intro h
      obtain ⟨hat, hclean, -⟩ := h.tree hpresent
      rw [Store.isAt, Bool.and_eq_true, decide_eq_true_eq] at hat
      exact ⟨hat.1, hclean, by rw [hat.2]; rfl⟩
    · rintro ⟨hcanonical, hclean, hinspect⟩
      obtain ⟨⟨b, c⟩, hbc⟩ := Option.isSome_iff_exists.mp hinspect
      obtain ⟨l, reg₁, hl, hreg₁, hlinked, -, -⟩ := Repository.inspect_eq_some hbc
      rw [hdisk] at hl
      cases hl
      rw [Repository.canonical, hdisk] at hcanonical
      have hclean' : left.clean = true := by
        rw [Repository.clean, hdisk] at hclean
        exact hclean
      refine ⟨hrel.run, hrel.reachable, fun _ => ⟨?_, hclean, ?_⟩, fun c hb => ?_⟩
      · exact isAt_iff.mpr ⟨left, reg, hdisk, hcanonical, hlinked, hreg', hhead, hc'⟩
      · rw [Repository.removable, hreg', hdisk]
        simp [hremovable.1.1, hlinked, hclean']
      · obtain ⟨hhead', hused⟩ := hrel.branch c hb
        refine ⟨hhead', ?_⟩
        rw [← hused, Store.usedElsewhere, Store.usedElsewhere, hpresent, hp]
        rfl
  · have hbare : (s.begun r.attemptId left).bare r.attemptId = s.bare r.attemptId := by
      rw [Store.bare, if_pos hpresent, Store.bare, if_pos hp, Store.unlisted, treeless_begun]
      rfl
    unfold Store.settled
    rw [hbare]

/-- A turn that was stopped between the directory and the registration never goes through: Git
refuses to delete a branch that a registration is at. -/
theorem turn_treeless (hrel : Releasable runId s r) (hp : s.present r.attemptId = true) :
    ¬ Releasable runId (s.treeless r.attemptId) r := by
  intro h
  obtain ⟨-, reg, -, -, -, hreg, hhead, hc⟩ := isAt_iff.mp (hrel.tree hp).1
  have hused := (h.branch _ hc).2
  have hmem : (r.attemptId, reg) ∈ s.repo.registered := Repository.mem_of_registration hreg
  rw [Store.usedElsewhere, present_treeless, Bool.or_eq_false_iff, List.any_eq_false] at hused
  apply hused.2 _ hmem
  simp [hhead]

end SameAt

/-! ## Whole releases -/

/-- Deletions that nothing stops. -/
def Deletions.free : Deletions := ⟨fun _ => ⟨true, true, false⟩, fun _ => false⟩

/-- The turns of a release, none of them stopped. -/
def releaseAll (runId : JsString) : List JsString → Store → Option Store
  | [], s => some s
  | id :: ids, s =>
    ((releaseSteps runId .free s id).foldlM (fun (s : Store) (f : Step) => f s) s).bind
      (releaseAll runId ids)

section Runs

variable {runId : JsString} {d : Deletions} {ids : List JsString} {s t u : Store}

theorem length_releaseSteps_le (runId : JsString) (d : Deletions) (s : Store) (id : JsString) :
    (releaseSteps runId d s id).length ≤ 5 := by
  unfold releaseSteps removeCleanWorktree
  split
  · split_ifs <;> simp
  · simp

/-- A turn that goes through does so with any deletions that nothing stops. -/
theorem turn_free {id : JsString} {v : Store}
    (h : (releaseSteps runId d s id).foldlM (fun (s : Store) (f : Step) => f s) s = some v) :
    (releaseSteps runId .free s id).foldlM (fun (s : Store) (f : Step) => f s) s = some v := by
  obtain ⟨r, hr, -, hrel, rfl⟩ := turn_cases h
  exact (turn_iff hr).mpr ⟨⟨hrel, fun _ => rfl⟩, rfl⟩

/-- A release that has returned took every step, and one whose steps are all taken returns. -/
theorem releaseEach_iff :
    (∃ d n, releaseEach runId d n ids s = (t, true)) ↔ releaseAll runId ids s = some t := by
  constructor
  · rintro ⟨d, n, h⟩
    induction ids generalizing n s with
    | nil =>
      obtain ⟨rfl, -⟩ := Prod.mk.inj h
      rfl
    | cons id ids ih =>
      rw [releaseEach] at h
      rw [releaseAll]
      cases hturn : advance n (releaseSteps runId d s id) s with
      | mk v done =>
        rw [hturn] at h
        cases done with
        | false => exact nomatch (Prod.mk.inj h).2
        | true =>
          rw [turn_free (advance_finished hturn), Option.bind_some]
          exact ih _ h
  · intro h
    refine ⟨.free, 5 * ids.length, ?_⟩
    have hall (n : ℕ) (hn : 5 * ids.length ≤ n) : releaseEach runId .free n ids s = (t, true) := by
      induction ids generalizing n s with
      | nil =>
        obtain rfl := Option.some.inj h
        rfl
      | cons id ids ih =>
        have hlength := length_releaseSteps_le runId .free s id
        rw [List.length_cons] at hn
        rw [releaseAll] at h
        obtain ⟨v, hv, hrest⟩ := Option.bind_eq_some_iff.mp h
        rw [releaseEach, advance_complete hv (by omega)]
        exact ih hrest _ (by omega)
    exact hall _ (le_refl _)

/-- A turn leaves every other worktree alone, wherever it is stopped. -/
theorem turn_kept (runId : JsString) (d : Deletions) (s : Store) {a id : JsString} (hid : id ≠ a)
    (n : ℕ) : Kept s (advance n (releaseSteps runId d s a) s).1 id :=
  advance_invariant (fun t => Kept s t id)
    (fun _ hf _ _ ht hu => ht.trans (step_kept hf hid hu)) n (Kept.refl s id)

/-- A release leaves every other worktree alone, wherever it is stopped. -/
theorem releaseEach_kept (runId : JsString) (d : Deletions) {id : JsString} (hid : id ∉ ids) (n : ℕ)
    (s : Store) : Kept s (releaseEach runId d n ids s).1 id := by
  induction ids generalizing n s with
  | nil => exact Kept.refl s id
  | cons a ids ih =>
    rw [List.mem_cons, not_or] at hid
    have hturn := turn_kept runId d s hid.1 n
    rw [releaseEach]
    cases hadvance : advance n (releaseSteps runId d s a) s with
    | mk t done =>
      rw [hadvance] at hturn
      cases done with
      | false => exact hturn
      | true => exact hturn.trans (ih hid.2 _ t)

/-- A release reads and changes only the worktrees it is about. -/
theorem releaseAll_sameAt {id : JsString} (hid : id ∉ ids) (h : releaseAll runId ids s = some t) :
    SameAt s t id ∧ ∀ id, t.repo.refs (.handoff id) = s.repo.refs (.handoff id) := by
  induction ids generalizing s with
  | nil =>
    obtain rfl := Option.some.inj h
    exact ⟨SameAt.refl s id, fun _ => rfl⟩
  | cons a ids ih =>
    rw [List.mem_cons, not_or] at hid
    obtain ⟨v, hv, hrest⟩ := Option.bind_eq_some_iff.mp h
    obtain ⟨r, hr, rfl, hrel, rfl⟩ := turn_cases hv
    obtain ⟨hsame, hrefs⟩ := ih hid.2 hrest
    refine ⟨(settled_sameAt hrel hid.1).trans hsame, fun id => ?_⟩
    rw [hrefs id, (settled_own s r).2.2.2.1 id]

/-- **A release goes through exactly when every record is releasable.** -/
theorem releaseAll_isSome (hn : ids.Nodup) : (∃ t, releaseAll runId ids s = some t) ↔
    ∀ id ∈ ids, s.Has id (Releasable runId s) := by
  induction ids generalizing s with
  | nil => exact iff_of_true ⟨s, rfl⟩ fun _ h => absurd h List.not_mem_nil
  | cons a ids ih =>
    obtain ⟨ha, hrest_nodup⟩ := List.nodup_cons.mp hn
    rw [List.forall_mem_cons]
    constructor
    · rintro ⟨t, h⟩
      obtain ⟨v, hv, hrest⟩ := Option.bind_eq_some_iff.mp h
      obtain ⟨r, hr, rfl, hrel, rfl⟩ := turn_cases hv
      refine ⟨⟨r, hr, hrel⟩, fun id hid => ?_⟩
      obtain ⟨r', hr', hrel'⟩ := (ih hrest_nodup).mp ⟨t, hrest⟩ id hid
      have hsame := (settled_sameAt hrel (ne_of_mem_of_not_mem hid ha)).symm
      have hown := (s.settled r).own id r' hr'
      subst hown
      exact ⟨r', hsame.records.trans hr', hsame.releasable hrel'⟩
    · rintro ⟨⟨r, hr, hrel⟩, hids⟩
      have hown := s.own a r hr
      subst hown
      have hrest : ∀ id ∈ ids, (s.settled r).Has id (Releasable runId (s.settled r)) := by
        intro id hid
        obtain ⟨r', hr', hrel'⟩ := hids id hid
        have hsame := settled_sameAt hrel (ne_of_mem_of_not_mem hid ha)
        have hown := s.own id r' hr'
        subst hown
        exact ⟨r', hsame.records.trans hr', hsame.releasable hrel'⟩
      obtain ⟨t, ht⟩ := (ih hrest_nodup).mpr hrest
      refine ⟨t, ?_⟩
      rw [releaseAll, (turn_iff hr).mpr ⟨⟨hrel, fun _ => rfl⟩, rfl⟩]
      exact ht

theorem releaseAll_released (hn : ids.Nodup) (h : releaseAll runId ids s = some t) :
    AllReleased ids s t := by
  have hall : (∀ id ∈ ids, t.Has id (fun r => r.releasedAt = true) ∧ t.present id = false ∧
      t.repo.refs (.branch id) = none) ∧
        ∀ id, t.repo.refs (.handoff id) = s.repo.refs (.handoff id) := by
    induction ids generalizing s with
    | nil =>
      obtain rfl := Option.some.inj h
      exact ⟨fun _ h => absurd h List.not_mem_nil, fun _ => rfl⟩
    | cons a ids ih =>
      obtain ⟨ha, hrest_nodup⟩ := List.nodup_cons.mp hn
      obtain ⟨v, hv, hrest⟩ := Option.bind_eq_some_iff.mp h
      obtain ⟨r, hr, rfl, hrel, rfl⟩ := turn_cases hv
      obtain ⟨hrecord, habsent, hbranch, hrefs, -⟩ := settled_own s r
      obtain ⟨hids, hhandoffs⟩ := ih hrest_nodup hrest
      have hsame := (releaseAll_sameAt ha hrest).1
      refine ⟨List.forall_mem_cons.mpr ⟨⟨⟨r.released, ?_, rfl⟩, ?_, ?_⟩, hids⟩, fun id => ?_⟩
      · rw [hsame.records, hrecord]
      · rw [hsame.present, habsent]
      · rw [hsame.branch, hbranch]
      · rw [hhandoffs id, hrefs id]
  exact ⟨fun id hid => (hall.1 id hid).1, fun id hid => (hall.1 id hid).2.1,
    fun id hid => (hall.1 id hid).2.2, hall.2⟩

/-- The turn of a worktree that is released already changes nothing. -/
theorem turn_released {r : Record} (hr : s.records r.attemptId = some (.written r.released))
    (hrun : r.runId = runId) (hreachable : s.handoffReachable r = true)
    (habsent : s.present r.attemptId = false)
    (hbranch : s.repo.refs (.branch r.attemptId) = none) :
    (releaseSteps runId .free s r.attemptId).foldlM (fun (s : Store) (f : Step) => f s) s =
      some s := by
  rw [turn_iff hr]
  refine ⟨⟨⟨hrun, hreachable, fun hp => ?_, fun c hc => ?_⟩, fun _ => rfl⟩, ?_⟩
  · have hp' : s.present r.attemptId = true := hp
    rw [habsent] at hp'
    exact nomatch hp'
  · have hc' : s.repo.refs (.branch r.attemptId) = some c := hc
    rw [hbranch] at hc'
    exact nomatch hc'
  · have hbare : s.bare r.attemptId = s := by rw [Store.bare, if_neg (Bool.eq_false_iff.mp habsent)]
    change s = ((s.bare r.attemptId).branchless r.attemptId).write r.released
    rw [hbare, branchless_of_none hbranch, write_self hr]

/-- A turn that was stopped is torn exactly when it cannot be taken again. -/
theorem turn_torn_iff (ids : List JsString) {r : Record} {n : ℕ}
    (hr : s.records r.attemptId = some (.written r)) (hrel : Releasable runId s r)
    (h : advance n (releaseSteps runId d s r.attemptId) s = (u, false)) :
    (¬ Torn (r.attemptId :: ids) s u ∧ u.records r.attemptId = some (.written r) ∧
        Releasable runId u r ∧ u.settled r = s.settled r) ∨
      (Torn (r.attemptId :: ids) s u ∧ u.records r.attemptId = some (.written r) ∧
        ¬ Releasable runId u r) := by
  -- Only the turn's own worktree can be torn.
  have hwhole (hown : s.present r.attemptId = true → u.Whole r.attemptId ∨ u.Gone r.attemptId) :
      ¬ Torn (r.attemptId :: ids) s u := by
    rintro ⟨id, -, hp, hchanged, hnotWhole, hnotGone⟩
    by_cases hid : id = r.attemptId
    · subst hid
      exact (hown hp).elim hnotWhole hnotGone
    · have hkept := turn_kept runId d s hid n
      rw [h] at hkept
      exact hchanged.elim (fun hc => hc hkept.disk) (fun hc => hc hkept.registration)
  have htorn (hp : s.present r.attemptId = true)
      (hchanged : u.repo.disk r.attemptId ≠ s.repo.disk r.attemptId ∨
        u.repo.registration r.attemptId ≠ s.repo.registration r.attemptId)
      (hnotWhole : ¬u.Whole r.attemptId) (hnotGone : ¬u.Gone r.attemptId) :
      Torn (r.attemptId :: ids) s u := ⟨_, List.mem_cons_self, hp, hchanged, hnotWhole, hnotGone⟩
  have hbare (hp : s.present r.attemptId = true) : (s.bare r.attemptId).Gone r.attemptId :=
    ⟨present_bare s _, (settled_own s r).2.2.2.2 hp⟩
  cases turn_cut hr hrel h with
  | start =>
    refine Or.inl ⟨hwhole fun hp => Or.inl ?_, hr, turn_again hrel (Or.inl rfl)⟩
    obtain ⟨hat, hclean, -⟩ := hrel.tree hp
    rw [Store.isAt, Bool.and_eq_true, decide_eq_true_eq] at hat
    exact ⟨hat.1, hclean, by rw [hat.2]; rfl⟩
  | begun hp =>
    obtain ⟨hiff, hsettled⟩ := turn_begun (d.left r.attemptId) hrel hp
    by_cases hw : (s.begun r.attemptId (d.left r.attemptId)).Whole r.attemptId
    · exact Or.inl ⟨hwhole fun _ => Or.inl hw, hr, hiff.mpr hw, hsettled⟩
    · refine Or.inr ⟨htorn hp (Or.inl fun hsame => ?_) hw fun hg => ?_, hr, mt hiff.mp hw⟩
      · -- the worktree was a clean one
        obtain ⟨hat, hclean, -⟩ := hrel.tree hp
        rw [Store.isAt, Bool.and_eq_true, decide_eq_true_eq] at hat
        refine hw ⟨?_, ?_, ?_⟩
        · rw [Repository.canonical, hsame]
          exact hat.1
        · rw [Repository.clean, hsame]
          exact hclean
        · have hinspect : (s.begun r.attemptId (d.left r.attemptId)).repo.inspect r.attemptId =
              s.repo.inspect r.attemptId := by
            rw [Repository.inspect, hsame]
            rfl
          rw [hinspect, hat.2]
          rfl
      · rw [Store.Gone, present_begun] at hg
        exact nomatch hg.1
  | stuck hp =>
    have hreg : ((s.begun r.attemptId (d.left r.attemptId)).dropped r.attemptId).repo.registration
        r.attemptId = none := Repository.registration_unregister_self _
    have hpresent : ((s.begun r.attemptId (d.left r.attemptId)).dropped r.attemptId).present
        r.attemptId = true := present_begun s _ _
    obtain ⟨-, reg, -, -, -, hreg', -, -⟩ := isAt_iff.mp (hrel.tree hp).1
    refine Or.inr ⟨htorn hp (Or.inr ?_) ?_ ?_, hr, fun hu => ?_⟩
    · rw [hreg, hreg']
      exact nofun
    · rintro ⟨-, -, hinspect⟩
      obtain ⟨⟨b, c⟩, hbc⟩ := Option.isSome_iff_exists.mp hinspect
      obtain ⟨-, reg₁, -, hreg₁, -⟩ := Repository.inspect_eq_some hbc
      rw [hreg] at hreg₁
      exact nomatch hreg₁
    · intro hg
      rw [Store.Gone, hpresent] at hg
      exact nomatch hg.1
    · obtain ⟨-, reg₁, -, -, -, hreg₁, -, -⟩ := isAt_iff.mp (hu.tree hpresent).1
      rw [hreg] at hreg₁
      exact nomatch hreg₁
  | treeless hp =>
    obtain ⟨e, reg, he, -, -, hreg, -, -⟩ := isAt_iff.mp (hrel.tree hp).1
    have hdisk : (s.treeless r.attemptId).repo.disk r.attemptId = none := Function.update_self _ _ _
    refine Or.inr ⟨htorn hp (Or.inl ?_) ?_ ?_, hr, turn_treeless hrel hp⟩
    · rw [hdisk, he]
      exact nofun
    · rintro ⟨hcanonical, -⟩
      rw [Repository.canonical, hdisk] at hcanonical
      exact nomatch hcanonical
    · rintro ⟨-, hnone⟩
      rw [show (s.treeless r.attemptId).repo.registration r.attemptId = some reg from hreg] at hnone
      exact nomatch hnone
  | bare =>
    refine Or.inl ⟨hwhole fun hp => Or.inr (hbare hp), ?_, turn_again hrel (Or.inr (Or.inl rfl))⟩
    rw [records_bare]
    exact hr
  | branchless =>
    refine Or.inl ⟨hwhole fun hp => Or.inr (hbare hp), ?_, turn_again hrel (Or.inr (Or.inr rfl))⟩
    change (s.bare r.attemptId).records r.attemptId = _
    rw [records_bare]
    exact hr

/-- **A release that failed half-way completes when it is taken again, to the same end, exactly when
it left no removal torn.** -/
theorem releaseAll_again (hn : ids.Nodup) (h : releaseAll runId ids s = some t) {n : ℕ}
    (hcut : releaseEach runId d n ids s = (u, false)) :
    releaseAll runId ids u = some t ↔ ¬ Torn ids s u := by
  induction ids generalizing n s with
  | nil => exact nomatch (Prod.mk.inj hcut).2
  | cons a ids ih =>
    obtain ⟨ha, hrest_nodup⟩ := List.nodup_cons.mp hn
    obtain ⟨v, hv, hrest⟩ := Option.bind_eq_some_iff.mp h
    obtain ⟨r, hr, rfl, hrel, rfl⟩ := turn_cases hv
    rw [releaseEach] at hcut
    cases hturn : advance n (releaseSteps runId d s r.attemptId) s with
    | mk w done =>
      rw [hturn] at hcut
      cases done with
      | false =>
        obtain ⟨rfl, -⟩ := Prod.mk.inj hcut
        rcases turn_torn_iff ids hr hrel hturn with ⟨hwhole, hru, hrelu, hsettled⟩ |
          ⟨htorn, hru, hrelu⟩
        · refine iff_of_true ?_ hwhole
          rw [releaseAll, (turn_iff hru).mpr ⟨⟨hrelu, fun _ => rfl⟩, rfl⟩, hsettled]
          exact hrest
        · refine iff_of_false (fun hall => ?_) (not_not_intro htorn)
          obtain ⟨v', hv', -⟩ := Option.bind_eq_some_iff.mp hall
          exact hrelu ((turn_iff hru).mp hv').1.1
      | true =>
        have hw : w = s.settled r := ((turn_iff hr).mp (advance_finished hturn)).2
        subst hw
        have hkept := releaseEach_kept runId d ha
          (n - (releaseSteps runId d s r.attemptId).length) (s.settled r)
        dsimp only at hcut
        rw [hcut] at hkept
        obtain ⟨hrecord, habsent, hbranch, hrefs, hgone⟩ := settled_own s r
        have hreachable : u.handoffReachable r = true := by
          rw [hkept.handoffReachable, ← hrel.reachable]
          unfold Store.handoffReachable
          rw [hrefs]
        have hagain := turn_released (hkept.records.trans hrecord) hrel.run hreachable
          (hkept.present.trans habsent) (hkept.branch.trans hbranch)
        have hsame {id : JsString} (hid : id ∈ ids) : SameAt s (s.settled r) id :=
          settled_sameAt hrel (ne_of_mem_of_not_mem hid ha)
        have htorn : Torn (r.attemptId :: ids) s u ↔ Torn ids (s.settled r) u := by
          constructor
          · rintro ⟨id, hid, hp, hchanged, hnotWhole, hnotGone⟩
            rcases List.mem_cons.mp hid with rfl | hid
            · exact absurd ⟨hkept.present.trans habsent, hkept.registration.trans (hgone hp)⟩ hnotGone
            · refine ⟨id, hid, (hsame hid).present.trans hp, ?_, hnotWhole, hnotGone⟩
              rw [(hsame hid).disk, (hsame hid).registration]
              exact hchanged
          · rintro ⟨id, hid, hp, hchanged, hnotWhole, hnotGone⟩
            rw [(hsame hid).disk, (hsame hid).registration] at hchanged
            exact ⟨id, List.mem_cons_of_mem _ hid, (hsame hid).present.symm.trans hp, hchanged,
              hnotWhole, hnotGone⟩
        rw [htorn, releaseAll, hagain]
        exact ih hrest_nodup hrest hcut

end Runs

/-! ## What is offered -/

section Offered

variable {mode : WorkspaceMode} {runId : JsString} {attempts : List (Option JsString)}
  {s t u : Store} {r : Record}

theorem nodup_eraseDups {α : Type} [BEq α] [LawfulBEq α] : ∀ l : List α, l.eraseDups.Nodup
  | [] => List.nodup_nil
  | a :: l => by
    rw [List.eraseDups_cons, List.nodup_cons]
    refine ⟨fun h => ?_, nodup_eraseDups _⟩
    have hne := (List.mem_filter.mp (List.mem_eraseDups.mp h)).2
    rw [beq_self_eq_true] at hne
    exact nomatch hne
termination_by l => l.length
decreasing_by
  rw [List.length_cons]
  exact Nat.lt_succ_of_le (List.length_filter_le _ l)

/-- When a worktree is shown clean, it is the record's own and nothing in it has changed. -/
theorem isAt_of_observed (h : observeWorktree s r ≠ .dirty ∧ observeWorktree s r ≠ .unknown)
    (hp : s.present r.attemptId = true) :
    s.isAt r r.expectedHead = true ∧ s.repo.clean r.attemptId = true := by
  unfold observeWorktree at h
  rw [Store.present, Option.isSome_iff_exists] at hp
  obtain ⟨e, he⟩ := hp
  rw [he] at h
  cases e with
  | other => exact absurd rfl h.2
  | directory d =>
    dsimp only at h
    by_cases hat : s.isAt r r.expectedHead = true
    · rw [if_pos hat] at h
      by_cases hclean : s.repo.clean r.attemptId = true
      · exact ⟨hat, hclean⟩
      · rw [if_neg hclean] at h
        exact absurd rfl h.1
    · rw [if_neg hat] at h
      exact absurd rfl h.2

theorem branch_of_observed (h : observeWorktree s r ≠ .unknown) {c : JsString}
    (hp : s.present r.attemptId = false) (hc : s.repo.refs (.branch r.attemptId) = some c) :
    c = r.expectedHead := by
  unfold observeWorktree at h
  rw [Store.present, Option.isSome_eq_false_iff, Option.isNone_iff_eq_none] at hp
  rw [hp, hc] at h
  dsimp only at h
  by_cases he : c = r.expectedHead
  · exact he
  · rw [if_neg he] at h
    exact absurd rfl h

/-- **A record that a release is offered for is releasable exactly when what the observation leaves
out holds.** -/
theorem releasable_iff (h : r.releasedAt = true ∨
      observeWorktree s r ≠ .dirty ∧ observeWorktree s r ≠ .unknown) :
    Releasable runId s r ↔ Overseen runId s r := by
  constructor
  · intro hrel
    refine ⟨hrel.run, hrel.reachable, fun hp => ?_, fun hb => ?_, fun _ => ⟨fun hp => ?_, ?_⟩⟩
    · obtain ⟨hat, -, hremovable⟩ := hrel.tree hp
      obtain ⟨d, reg, hd, -, -, hreg, -, -⟩ := isAt_iff.mp hat
      rw [Repository.removable, hreg, hd, Bool.and_eq_true, Bool.and_eq_true] at hremovable
      rw [hreg]
      exact hremovable.1.1
    · obtain ⟨c, hc⟩ := Option.isSome_iff_exists.mp hb
      exact (hrel.branch c hc).2
    · exact ⟨(hrel.tree hp).1, (hrel.tree hp).2.1⟩
    · exact fun c hc => (hrel.branch c hc).1
  · intro hover
    have htree (hp : s.present r.attemptId = true) :
        s.isAt r r.expectedHead = true ∧ s.repo.clean r.attemptId = true := by
      rcases h with hreleased | hobserved
      · exact (hover.released hreleased).1 hp
      · exact isAt_of_observed hobserved hp
    refine ⟨hover.run, hover.reachable, fun hp => ?_, fun c hc => ⟨?_, ?_⟩⟩
    · obtain ⟨hat, hclean⟩ := htree hp
      obtain ⟨d, reg, hd, -, hlinked, hreg, -, -⟩ := isAt_iff.mp hat
      have hunlocked := hover.unlocked hp
      rw [Repository.clean, hd] at hclean
      rw [hreg, Option.all_some] at hunlocked
      refine ⟨hat, (htree hp).2, ?_⟩
      rw [Repository.removable, hreg, hd]
      simp [hunlocked, hlinked, hclean]
    · rcases h with hreleased | hobserved
      · exact (hover.released hreleased).2 c hc
      · cases hp : s.present r.attemptId with
        | false => exact branch_of_observed hobserved.2 hp hc
        | true =>
          obtain ⟨-, -, -, -, -, -, -, hb⟩ := isAt_iff.mp (htree hp).1
          rw [hb] at hc
          exact (Option.some.inj hc).symm
    · exact hover.unused (Option.isSome_iff_exists.mpr ⟨c, hc⟩)

theorem canRelease_iff : canReleaseRunWorktrees .worktree attempts s = true ↔
    worktreeAttempts attempts ≠ [] ∧ ∀ id ∈ worktreeAttempts attempts, s.Has id fun r =>
      r.releasedAt = true ∨ observeWorktree s r ≠ .dirty ∧ observeWorktree s r ≠ .unknown := by
  unfold canReleaseRunWorktrees
  rw [if_neg (by decide)]
  by_cases hids : worktreeAttempts attempts = []
  · rw [if_pos hids]
    exact iff_of_false Bool.false_ne_true fun h => h.1 hids
  · rw [if_neg hids, List.all_eq_true]
    refine (forall₂_congr fun id _ => ?_).trans (and_iff_right hids).symm
    unfold Store.Has
    split
    · rename_i r hr
      rw [hr]
      simp
    · rename_i hr
      exact iff_of_false Bool.false_ne_true fun ⟨r, h, _⟩ => hr r h

/-- A release of a run in worktrees completes when all of its turns go through. -/
theorem completes_iff : Completes .worktree runId attempts s t ↔
    worktreeAttempts attempts ≠ [] ∧ releaseAll runId (worktreeAttempts attempts) s = some t := by
  unfold Completes releaseRunWorktrees
  simp only [reduceCtorEq, if_false]
  by_cases hids : worktreeAttempts attempts = []
  · simp only [if_pos hids]
    exact iff_of_false (fun ⟨_, _, h⟩ => nomatch (Prod.mk.inj h).2) fun h => h.1 hids
  · simp only [if_neg hids]
    rw [releaseEach_iff]
    exact (and_iff_right hids).symm

/-- **A release that is offered succeeds exactly when what the observation leaves out holds of every
record, and one that failed half-way completes exactly when it left no removal torn.** -/
theorem release_admissible (mode : WorkspaceMode) (runId : JsString)
    (attempts : List (Option JsString)) (s : Store) :
    ((canReleaseRunWorktrees mode attempts s = true →
        ∃ t, Completes mode runId attempts s t ∧
          (mode = .worktree → AllReleased (worktreeAttempts attempts) s t)) ↔
      (canReleaseRunWorktrees mode attempts s = true → mode = .worktree →
        ∀ id ∈ worktreeAttempts attempts, s.Has id (Overseen runId s))) ∧
    ∀ t, Completes mode runId attempts s t → ∀ d n u,
      releaseRunWorktrees mode runId d n attempts s = (u, false) →
        (Completes mode runId attempts u t ↔ ¬ Torn (worktreeAttempts attempts) s u) := by
  cases mode with
  | readOnly =>
    refine ⟨iff_of_true (fun _ => ⟨s, ⟨.free, 0, rfl⟩, fun h => ?_⟩) fun _ h => ?_, ?_⟩
    · exact nomatch h
    · exact nomatch h
    intro t _ d n u h
    exact nomatch (Prod.mk.inj h).2
  | worktree =>
    have hn : (worktreeAttempts attempts).Nodup := nodup_eraseDups _
    refine ⟨imp_congr_right fun hoffered => ?_, fun t ht d n u hcut => ?_⟩
    · obtain ⟨hids, hrecords⟩ := canRelease_iff.mp hoffered
      -- The records of an offered release are releasable when they are overseen.
      have hall : (∀ id ∈ worktreeAttempts attempts, s.Has id (Releasable runId s)) ↔
          ∀ id ∈ worktreeAttempts attempts, s.Has id (Overseen runId s) := by
        refine forall₂_congr fun id hid => ?_
        obtain ⟨r, hr, hobserved⟩ := hrecords id hid
        refine exists_congr fun r' => and_congr_right fun hr' => ?_
        rw [hr] at hr'
        obtain rfl := RecordFile.written.inj (Option.some.inj hr')
        exact releasable_iff hobserved
      rw [← releaseAll_isSome hn] at hall
      simp only [true_implies]
      rw [← hall]
      constructor
      · rintro ⟨t, ht, -⟩
        exact ⟨t, (completes_iff.mp ht).2⟩
      · rintro ⟨t, ht⟩
        exact ⟨t, completes_iff.mpr ⟨hids, ht⟩, releaseAll_released hn ht⟩
    · obtain ⟨hids, hall⟩ := completes_iff.mp ht
      rw [releaseRunWorktrees, if_neg (by decide), if_neg hids] at hcut
      rw [completes_iff, and_iff_right hids]
      exact releaseAll_again hn hall hcut

end Offered

/-! ## A release that is offered and fails -/

/-- The hand-off of an attempt is on its branch, and nothing pins it. -/
def unpinned : Store where
  repo :=
    { refs := fun name =>
        if name = .branch (ofString "attempt_one") then some (ofString "handoff") else none
      main := .detached (ofString "baseline")
      registered := []
      nodup := List.nodup_nil
      disk := fun _ => none }
  records := fun id =>
    if id = ofString "attempt_one" then
      some (.written
        { runId := ofString "run_one"
          attemptId := ofString "attempt_one"
          baselineHead := ofString "baseline"
          handoffCommit := some (ofString "handoff")
          handoffRef := some (Worktree.handoffRefName (ofString "run_one") (ofString "attempt_one"))
          startCommit := none
          releasedAt := false })
    else none
  own := by
    intro id r h
    obtain ⟨rfl, h⟩ := Option.ite_none_right_eq_some.mp h
    cases h
    rfl

/-- **A release is offered for a worktree whose hand-off ref has been deleted, and never
completes.** -/
theorem release_refused :
    canReleaseRunWorktrees .worktree [some (ofString "attempt_one")] unpinned = true ∧
      ∀ t, ¬ Completes .worktree (ofString "run_one") [some (ofString "attempt_one")] unpinned t := by
  refine ⟨by decide +kernel, fun t h => ?_⟩
  have hnone : releaseAll (ofString "run_one") [ofString "attempt_one"] unpinned = none := by
    rw [← Option.isNone_iff_eq_none]
    decide +kernel
  have hsome := (completes_iff.mp h).2
  have hids : worktreeAttempts [some (ofString "attempt_one")] = [ofString "attempt_one"] := rfl
  rw [hids, hnone] at hsome
  exact nomatch hsome

end Release

end PiSubagent
