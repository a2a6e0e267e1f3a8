import PiSubagent.Lib.Git
import PiSubagent.Lib.Scripts
import PiSubagent.Service.Results

/-!
# Worktrees of attempts

The worktree of an attempt, its branch, its hand-off ref and its record. The functions are scripts
of atomic steps: a Git command, the write of a record, or a check that throws. A removal that stops
among the files is a step of the runs (`Git.Repository.tear`).

* `Record`, `Store`: the record of a worktree; the repository and the record files.
* `createAttemptWorktree`, `captureWorktreeHandoff`, `removeCleanWorktree`,
  `finalizeWorktreeHandoff`, `releaseWorktreeBranch`: the scripts.
* `observeWorktree`: what a record, a path, a branch and a head show together.
-/

namespace PiSubagent

open JsonText

namespace Worktree

open Scripts

/-! ## Records -/

/-- The refs of an attempt's worktree. -/
inductive RefName where
  /-- The reservation branch. -/
  | branch (attemptId : JsString)
  /-- The ref that pins the hand-off. -/
  | handoff (attemptId : JsString)
deriving DecidableEq, Repr

/-- `handoffRefName`. -/
def handoffRefName (runId attemptId : JsString) : JsString :=
  ofString "refs/pi-subagent/handoffs/" ++ runId ++ ofString "/" ++ attemptId

/-- `WorktreeRecord`, with whether it has a release receipt; path and branch follow from the
attempt. -/
structure Record extends WorktreeRecord where
  startCommit : Option JsString
  releasedAt : Bool
deriving DecidableEq, Repr

namespace Record

variable (r : Record)

/-- The commit the worktree branch holds before any hand-off is captured. -/
def start : JsString := r.startCommit.getD r.baselineHead

/-- The commit the worktree branch holds now: the hand-off once captured. -/
def expectedHead : JsString := r.handoffCommit.getD r.start

/-- The record once its hand-off is captured. -/
def updated (c : JsString) : Record :=
  { r with handoffCommit := some c, handoffRef := some (handoffRefName r.runId r.attemptId) }

/-- The record once its worktree and branch are released. -/
def released : Record := { r with releasedAt := true }

end Record

/-- The file of a record: empty while it is reserved. -/
inductive RecordFile where
  | reserved
  | written (record : Record)
deriving DecidableEq, Repr

/-- The repository of a run; trees and commits have names, worktrees are at their attempts. -/
abbrev Repository := Git.Repository JsString JsString RefName JsString

/-- The repository and the record files. -/
structure Store where
  repo : Repository
  records : JsString → Option RecordFile

/-- A step of a script. -/
abbrev Step := Store → Option Store

namespace Store

variable (s : Store)

/-- The store after a Git command. -/
def onRepo (command : Repository → Option Repository) : Option Store :=
  (command s.repo).map fun repo => { s with repo := repo }

/-- `writeRecord`. -/
def write (r : Record) : Store :=
  { s with records := Function.update s.records r.attemptId (some (.written r)) }

/-- The worktree has its branch checked out, at the commit. -/
def isAt (r : Record) (c : JsString) : Bool :=
  ((s.repo.worktrees r.attemptId).any fun w => decide (w.branch = .branch r.attemptId)) &&
    decide (s.repo.head r.attemptId = some c)

/-- `assertHandoffReachable` accepts. -/
def handoffReachable (r : Record) : Bool :=
  r.handoffCommit.all fun c =>
    r.handoffRef.isSome && decide (s.repo.refs (.handoff r.attemptId) = some c)

end Store

/-! ## Scripts -/

/-- The record file is created, and must not be there. -/
def reserve (id : JsString) : Step := fun s =>
  if (s.records id).isNone = true then
    some { s with records := Function.update s.records id (some .reserved) }
  else none

/-- `writeRecord`. -/
def writeRecord (r : Record) : Step := fun s => some (s.write r)

/-- `createAttemptWorktree`. -/
def createAttemptWorktree (r : Record) : List Step :=
  [reserve r.attemptId,
    fun s => s.onRepo fun repo => repo.addWorktree r.attemptId (.branch r.attemptId) r.start,
    writeRecord r]

/-- The checks of a capture: nothing is captured, the worktree is at its start, and the ref is
free. -/
def checkBaseline (r : Record) : Step := fun s =>
  if r.handoffCommit = none ∧ s.isAt r r.start = true ∧
      s.repo.refs (.handoff r.attemptId) = none then some s
  else none

/-- `git add -A`. -/
def stageAll (r : Record) : Step := fun s => s.onRepo fun repo => repo.stageAll r.attemptId

/-- The hand-off is squashed onto the baseline, unless its tree is the baseline's. -/
def commitHandoff (r : Record) (c : JsString) : Step := fun s =>
  match s.repo.worktrees r.attemptId, s.repo.treeOf r.baselineHead with
  | some w, some baselineTree =>
    if w.index = baselineTree then none
    else s.onRepo fun repo => repo.commitTree r.attemptId c [r.baselineHead]
  | _, _ => none

/-- The branch moves from the start to the hand-off. -/
def moveBranch (r : Record) (c : JsString) : Step := fun s =>
  s.onRepo fun repo => repo.updateRef (.branch r.attemptId) c (some r.start)

/-- The ref pins the hand-off; one that does already is accepted. -/
def pinHandoff (r : Record) (c : JsString) : Step := fun s =>
  if s.repo.refs (.handoff r.attemptId) = some c then some s
  else s.onRepo fun repo => repo.updateRef (.handoff r.attemptId) c none

/-- `captureWorktreeHandoff` of a worktree with changes. -/
def captureWorktreeHandoff (r : Record) (c : JsString) : List Step :=
  [checkBaseline r, stageAll r, commitHandoff r c, moveBranch r c, pinHandoff r c,
    writeRecord (r.updated c)]

/-- `removeCleanWorktree`. -/
def removeCleanWorktree (r : Record) : Step := fun s =>
  if s.isAt r r.expectedHead = true then
    s.onRepo fun repo => repo.removeWorktree r.attemptId
  else none

/-- `git diff --cached --quiet` fails once everything is staged. -/
def hasChanges (s : Store) (r : Record) : Bool :=
  (s.repo.worktrees r.attemptId).any fun w =>
    decide (s.repo.headTree r.attemptId ≠ some w.files)

/-- `finalizeWorktreeHandoff`; without changes there is no hand-off. -/
def finalizeWorktreeHandoff (s : Store) (r : Record) (c : JsString) : List Step :=
  if hasChanges s r then captureWorktreeHandoff r c ++ [removeCleanWorktree (r.updated c)]
  else [checkBaseline r, stageAll r, removeCleanWorktree r]

/-- What `finalizeWorktreeHandoff` returns. -/
def finalized (s : Store) (r : Record) (c : JsString) : Option Record :=
  if hasChanges s r then some (r.updated c) else none

/-- The branch of a worktree that is gone is deleted when it is at the expected commit, and the
hand-off is pinned. -/
def dropBranch (r : Record) : Step := fun s =>
  if (s.repo.worktrees r.attemptId).isNone = true ∧ s.handoffReachable r = true then
    match s.repo.refs (.branch r.attemptId) with
    | none => some s
    | some c =>
      if c = r.expectedHead then s.onRepo fun repo => repo.deleteBranch (.branch r.attemptId)
      else none
  else none

/-- `releaseWorktreeBranch`. -/
def releaseWorktreeBranch (r : Record) : List Step := [dropBranch r, writeRecord r.released]

/-- A worktree that is present is removed. -/
def removeIfPresent (r : Record) : Step := fun s =>
  if (s.repo.worktrees r.attemptId).isSome = true then removeCleanWorktree r s else some s

/-- The release of the worktree of one attempt, by its record. -/
def releaseWorktree (file : Option RecordFile) : List Step :=
  match file with
  | some (.written r) => removeIfPresent r :: releaseWorktreeBranch r
  -- The record cannot be read.
  | _ => [fun _ => none]

/-- `releaseRunWorktrees`, of the worktrees the attempt records name. -/
def releaseRunWorktrees (s : Store) (ids : List JsString) : List Step :=
  if ids = [] then [fun _ => none] else ids.flatMap fun id => releaseWorktree (s.records id)

/-! ## Observation -/

/-- `WorktreeObservation`. -/
inductive Observed where
  | absent | clean | dirty | branchRetained | unknown
deriving DecidableEq, Repr

/-- `observeWorktree`. -/
def observeWorktree (s : Store) (r : Record) : Observed :=
  match s.repo.worktrees r.attemptId with
  | none =>
    match s.repo.refs (.branch r.attemptId) with
    | none => if r.releasedAt then .absent else .unknown
    | some c => if c = r.expectedHead then .branchRetained else .unknown
  | some _ =>
    if s.isAt r r.expectedHead then
      if s.repo.clean r.attemptId then .clean else .dirty
    else .unknown

/-! ## The steps, inverted -/

section Steps

variable {r : Record} {c : JsString} {s t : Store}

theorem Store.onRepo_cases {command : Repository → Option Repository}
    (h : s.onRepo command = some t) :
    ∃ repo, command s.repo = some repo ∧ t = { s with repo := repo } := by
  obtain ⟨repo, hr, rfl⟩ := Option.map_eq_some_iff.mp h
  exact ⟨repo, hr, rfl⟩

@[simp] theorem Store.write_repo (s : Store) (r : Record) : (s.write r).repo = s.repo := rfl

theorem Store.write_self (s : Store) (r : Record) :
    (s.write r).records r.attemptId = some (.written r) := Function.update_self _ _ _

theorem Store.write_ne (s : Store) (r : Record) {id : JsString} (h : id ≠ r.attemptId) :
    (s.write r).records id = s.records id := Function.update_of_ne h _ _

theorem Store.isAt_iff : s.isAt r c = true ↔
    ∃ w, s.repo.worktrees r.attemptId = some w ∧ w.branch = .branch r.attemptId ∧
      s.repo.refs (.branch r.attemptId) = some c := by
  unfold Store.isAt Git.Repository.head
  cases hw : s.repo.worktrees r.attemptId with
  | none => simp
  | some w =>
    simp only [Option.any_some, Option.bind_some, Bool.and_eq_true, decide_eq_true_eq]
    constructor
    · rintro ⟨hb, hc⟩
      rw [hb] at hc
      exact ⟨w, rfl, hb, hc⟩
    · rintro ⟨w', hw', hb, hc⟩
      cases hw'
      rw [hb]
      exact ⟨rfl, hc⟩

theorem checkBaseline_cases (h : checkBaseline r s = some t) :
    t = s ∧ r.handoffCommit = none ∧ s.isAt r r.start = true ∧
      s.repo.refs (.handoff r.attemptId) = none := by
  unfold checkBaseline at h
  split_ifs at h with hc
  exact ⟨(Option.some.inj h).symm, hc⟩

theorem commitHandoff_cases (h : commitHandoff r c s = some t) :
    ∃ w tree, s.repo.worktrees r.attemptId = some w ∧ s.repo.treeOf r.baselineHead = some tree ∧
      w.index ≠ tree ∧ s.repo.commits c = none ∧
      t = { s with repo := { s.repo with
        commits := Function.update s.repo.commits c (some ⟨w.index, [r.baselineHead]⟩) } } := by
  unfold commitHandoff at h
  split at h
  case h_2 => cases h
  case h_1 w tree hw htree =>
    split_ifs at h with hne
    obtain ⟨repo, hr, rfl⟩ := Store.onRepo_cases h
    obtain ⟨w', hw', hnew, rfl⟩ := Git.Repository.commitTree_cases hr
    rw [hw] at hw'
    cases hw'
    exact ⟨w, tree, hw, htree, hne, hnew, rfl⟩

theorem removeCleanWorktree_cases (h : removeCleanWorktree r s = some t) :
    s.isAt r r.expectedHead = true ∧ s.repo.clean r.attemptId = true ∧
      t = { s with repo := { s.repo with
        worktrees := Function.update s.repo.worktrees r.attemptId none } } := by
  unfold removeCleanWorktree at h
  split_ifs at h with hat
  obtain ⟨repo, hr, rfl⟩ := Store.onRepo_cases h
  obtain ⟨hclean, rfl⟩ := Git.Repository.removeWorktree_cases hr
  exact ⟨hat, hclean, rfl⟩

theorem dropBranch_cases (h : dropBranch r s = some t) :
    s.repo.worktrees r.attemptId = none ∧ s.handoffReachable r = true ∧
      (t = s ∧ s.repo.refs (.branch r.attemptId) = none ∨
        s.repo.refs (.branch r.attemptId) = some r.expectedHead ∧
        t = { s with repo := { s.repo with
          refs := Function.update s.repo.refs (.branch r.attemptId) none } }) := by
  unfold dropBranch at h
  split_ifs at h with hc
  refine ⟨Option.isNone_iff_eq_none.mp hc.1, hc.2, ?_⟩
  split at h
  case h_1 hb => exact Or.inl ⟨(Option.some.inj h).symm, hb⟩
  case h_2 c hb =>
    split_ifs at h with hce
    obtain ⟨repo, hr, rfl⟩ := Store.onRepo_cases h
    rw [Git.Repository.deleteBranch_cases hr, ← hce]
    exact Or.inr ⟨hb, rfl⟩

end Steps

/-! ## The states of a creation and of a capture -/

/-- The store after the first steps of a creation. -/
def createdAt (s : Store) (r : Record) (tree : JsString) : ℕ → Store
  | 0 => s
  | 1 => { s with records := Function.update s.records r.attemptId (some .reserved) }
  | 2 =>
    { repo := { s.repo with
        refs := Function.update s.repo.refs (.branch r.attemptId) (some r.start)
        worktrees := Function.update s.repo.worktrees r.attemptId
          (some ⟨.branch r.attemptId, tree, tree⟩) }
      records := Function.update s.records r.attemptId (some .reserved) }
  | _ =>
    { repo := { s.repo with
        refs := Function.update s.repo.refs (.branch r.attemptId) (some r.start)
        worktrees := Function.update s.repo.worktrees r.attemptId
          (some ⟨.branch r.attemptId, tree, tree⟩) }
      records := Function.update s.records r.attemptId (some (.written r)) }

/-- Where a creation is left. -/
inductive CreateEnd (s : Store) (r : Record) : Store × Bool → Prop
  | unreserved : CreateEnd s r (s, false)
  | reserved (hnew : s.records r.attemptId = none) : CreateEnd s r (createdAt s r [] 1, false)
  | added (tree : JsString) (hnew : s.records r.attemptId = none)
      (hpath : s.repo.worktrees r.attemptId = none)
      (href : s.repo.refs (.branch r.attemptId) = none) (htree : s.repo.treeOf r.start = some tree) :
      CreateEnd s r (createdAt s r tree 2, false)
  | created (tree : JsString) (hnew : s.records r.attemptId = none)
      (hpath : s.repo.worktrees r.attemptId = none)
      (href : s.repo.refs (.branch r.attemptId) = none) (htree : s.repo.treeOf r.start = some tree) :
      CreateEnd s r (createdAt s r tree 3, true)

/-- **The states a creation passes through.** -/
theorem create_states (r : Record) (n : ℕ) (s : Store) :
    CreateEnd s r (advance n (createAttemptWorktree r) s) := by
  unfold createAttemptWorktree
  apply advance_cons_cases
  · exact .unreserved
  intro m t ht
  unfold reserve at ht
  split_ifs at ht with hnew
  cases ht
  have hnone := Option.isNone_iff_eq_none.mp hnew
  apply advance_cons_cases
  · exact .reserved hnone
  intro m u hu
  obtain ⟨repo, hr, rfl⟩ := Store.onRepo_cases hu
  obtain ⟨tree, htree, href, hpath, rfl⟩ := Git.Repository.addWorktree_cases hr
  apply advance_cons_cases
  · exact .added tree hnone hpath href htree
  intro m v hv
  cases hv
  rw [advance_nil]
  have hend := CreateEnd.created (s := s) (r := r) tree hnone hpath href htree
  simpa [createdAt, writeRecord, Store.write] using hend

/-- The store after the first steps of a capture. -/
def capturedAt (s : Store) (r : Record) (c : JsString) (w : Git.Worktree JsString RefName) :
    ℕ → Store
  | 0 => s
  | k + 1 =>
    let staged : Repository := { s.repo with
      worktrees := Function.update s.repo.worktrees r.attemptId
        (some { w with index := w.files }) }
    let committed : Repository := { staged with
      commits := Function.update s.repo.commits c (some ⟨w.files, [r.baselineHead]⟩) }
    let branched : Repository := { committed with
      refs := Function.update s.repo.refs (.branch r.attemptId) (some c) }
    let pinned : Repository := { branched with
      refs := Function.update branched.refs (.handoff r.attemptId) (some c) }
    match k with
    | 0 => { s with repo := staged }
    | 1 => { s with repo := committed }
    | 2 => { s with repo := branched }
    | 3 => { s with repo := pinned }
    | _ => Store.write { s with repo := pinned } (r.updated c)

/-- What the checks of a capture have found. -/
structure Capturable (s : Store) (r : Record) (w : Git.Worktree JsString RefName) : Prop where
  uncaptured : r.handoffCommit = none
  worktree : s.repo.worktrees r.attemptId = some w
  branch : w.branch = .branch r.attemptId
  head : s.repo.refs (.branch r.attemptId) = some r.start
  free : s.repo.refs (.handoff r.attemptId) = none

/-- Where a capture is left. -/
inductive CaptureEnd (s : Store) (r : Record) (c : JsString) : Store × Bool → Prop
  | unchecked : CaptureEnd s r c (s, false)
  | staged (w : Git.Worktree JsString RefName) (h : Capturable s r w) :
      CaptureEnd s r c (capturedAt s r c w 1, false)
  | cut (w : Git.Worktree JsString RefName) (h : Capturable s r w)
      (hnew : s.repo.commits c = none) (k : ℕ) (hlow : 2 ≤ k) (hhigh : k ≤ 4) :
      CaptureEnd s r c (capturedAt s r c w k, false)
  | captured (w : Git.Worktree JsString RefName) (h : Capturable s r w)
      (hnew : s.repo.commits c = none) : CaptureEnd s r c (capturedAt s r c w 5, true)

/-- **The states a capture passes through.** -/
theorem capture_states (r : Record) (c : JsString) (n : ℕ) (s : Store) :
    CaptureEnd s r c (advance n (captureWorktreeHandoff r c) s) := by
  unfold captureWorktreeHandoff
  apply advance_cons_cases
  · exact .unchecked
  intro m t ht
  obtain ⟨rfl, huncaptured, hat, hfree⟩ := checkBaseline_cases ht
  obtain ⟨w, hw, hb, hhead⟩ := Store.isAt_iff.mp hat
  have hcap : Capturable t r w := ⟨huncaptured, hw, hb, hhead, hfree⟩
  apply advance_cons_cases
  · exact .unchecked
  intro m u hu
  obtain ⟨repo, hr, rfl⟩ := Store.onRepo_cases hu
  obtain ⟨w', hw', rfl⟩ := Git.Repository.stageAll_cases hr
  rw [hw] at hw'
  cases hw'
  apply advance_cons_cases
  · exact .staged w hcap
  intro m v hv
  obtain ⟨w', tree, hw', -, -, hnew, rfl⟩ := commitHandoff_cases hv
  simp only [Function.update_self] at hw'
  cases hw'
  apply advance_cons_cases
  · exact .cut w hcap hnew 2 (by omega) (by omega)
  intro m x hx
  obtain ⟨repo, hr, rfl⟩ := Store.onRepo_cases hx
  obtain ⟨-, rfl⟩ := Git.Repository.updateRef_cases hr
  apply advance_cons_cases
  · exact .cut w hcap hnew 3 (by omega) (by omega)
  intro m y hy
  unfold pinHandoff at hy
  rw [if_neg (by simp [hfree])] at hy
  obtain ⟨repo, hr, rfl⟩ := Store.onRepo_cases hy
  obtain ⟨-, rfl⟩ := Git.Repository.updateRef_cases hr
  apply advance_cons_cases
  · exact .cut w hcap hnew 4 (by omega) (by omega)
  intro m z hz
  cases hz
  rw [advance_nil]
  exact .captured w hcap hnew

end Worktree

end PiSubagent
