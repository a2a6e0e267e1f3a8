import Mathlib.Logic.Function.Basic
import Mathlib.Tactic.SplitIfs

/-!
# Git repositories

Commits, refs and linked worktrees, and the commands on them; each command is atomic, and `none` is
the command that fails.

* `Repository`: the commits by their names, the refs, and the worktrees by their paths.
* `addWorktree`, `stageAll`, `commitTree`, `updateRef`, `removeWorktree`, `deleteBranch`; `tear` is a
  removal that stops among the files.
* `Extends`: no commit is lost; every command extends the repository.
-/

namespace Git

variable {ι τ ρ π : Type} [DecidableEq ι] [DecidableEq τ] [DecidableEq ρ] [DecidableEq π]

/-- A commit: its tree and its parents. -/
structure Commit (ι τ : Type) where
  tree : τ
  parents : List ι
deriving DecidableEq, Repr

/-- A linked worktree: the branch that is checked out, the index, and the files that are not
ignored. -/
structure Worktree (τ ρ : Type) where
  branch : ρ
  index : τ
  files : τ
deriving DecidableEq, Repr

/-- A repository. -/
structure Repository (ι τ ρ π : Type) where
  commits : ι → Option (Commit ι τ)
  refs : ρ → Option ι
  worktrees : π → Option (Worktree τ ρ)

namespace Repository

variable (r : Repository ι τ ρ π)

/-- The tree of a commit. -/
def treeOf (c : ι) : Option τ := (r.commits c).map Commit.tree

/-- The commit a worktree has checked out. -/
def head (path : π) : Option ι := (r.worktrees path).bind fun w => r.refs w.branch

/-- The tree of the commit a worktree has checked out. -/
def headTree (path : π) : Option τ := (r.head path).bind r.treeOf

/-- `git status` lists nothing. -/
def clean (path : π) : Bool :=
  match r.worktrees path with
  | some w => decide (r.headTree path = some w.index) && decide (w.files = w.index)
  | none => false

/-! ## Commands -/

/-- `git worktree add -b`. -/
def addWorktree (path : π) (branch : ρ) (start : ι) : Option (Repository ι τ ρ π) :=
  match r.treeOf start with
  | some tree =>
    if r.refs branch = none ∧ (r.worktrees path).isNone = true then
      some { r with
        refs := Function.update r.refs branch (some start)
        worktrees := Function.update r.worktrees path (some ⟨branch, tree, tree⟩) }
    else none
  | none => none

/-- The files of a worktree change. -/
def edit (path : π) (files : τ) : Option (Repository ι τ ρ π) :=
  (r.worktrees path).map fun w =>
    { r with worktrees := Function.update r.worktrees path (some { w with files := files }) }

/-- `git add -A`. -/
def stageAll (path : π) : Option (Repository ι τ ρ π) :=
  (r.worktrees path).map fun w =>
    { r with worktrees := Function.update r.worktrees path (some { w with index := w.files }) }

/-- `git commit-tree` of the index; the name of the commit is one that was not there. -/
def commitTree (path : π) (name : ι) (parents : List ι) : Option (Repository ι τ ρ π) :=
  match r.worktrees path with
  | some w =>
    if (r.commits name).isNone = true then
      some { r with commits := Function.update r.commits name (some ⟨w.index, parents⟩) }
    else none
  | none => none

/-- `git update-ref` from an expected value. -/
def updateRef (name : ρ) (new : ι) (old : Option ι) : Option (Repository ι τ ρ π) :=
  if r.refs name = old then some { r with refs := Function.update r.refs name (some new) } else none

/-- `git worktree remove`. -/
def removeWorktree (path : π) : Option (Repository ι τ ρ π) :=
  if r.clean path = true then
    some { r with worktrees := Function.update r.worktrees path none }
  else none

/-- `git worktree remove` that stops among the files. -/
def tear (path : π) (files : τ) : Option (Repository ι τ ρ π) :=
  if r.clean path = true then r.edit path files else none

/-- `git branch -D`. -/
def deleteBranch (branch : ρ) : Option (Repository ι τ ρ π) :=
  if (r.refs branch).isSome = true then
    some { r with refs := Function.update r.refs branch none }
  else none

/-! ## What the commands keep -/

variable {r} {r' r'' : Repository ι τ ρ π}

/-- Every commit is still there. -/
def Extends (r r' : Repository ι τ ρ π) : Prop := ∀ name c, r.commits name = some c →
  r'.commits name = some c

omit [DecidableEq ι] [DecidableEq τ] [DecidableEq ρ] [DecidableEq π] in
theorem Extends.refl (r : Repository ι τ ρ π) : Extends r r := fun _ _ h => h

omit [DecidableEq ι] [DecidableEq τ] [DecidableEq ρ] [DecidableEq π] in
theorem Extends.trans (h : Extends r r') (h' : Extends r' r'') : Extends r r'' :=
  fun name c hc => h' name c (h name c hc)

omit [DecidableEq ι] [DecidableEq τ] [DecidableEq ρ] [DecidableEq π] in
theorem Extends.treeOf (h : Extends r r') {c : ι} {tree : τ} (hc : r.treeOf c = some tree) :
    r'.treeOf c = some tree := by
  obtain ⟨commit, hcommit, rfl⟩ := Option.map_eq_some_iff.mp hc
  simp [Repository.treeOf, h c commit hcommit]

omit [DecidableEq ι] [DecidableEq τ] in
theorem addWorktree_cases {path : π} {branch : ρ} {start : ι}
    (h : r.addWorktree path branch start = some r') :
    ∃ tree, r.treeOf start = some tree ∧ r.refs branch = none ∧ r.worktrees path = none ∧
      r' = { r with
        refs := Function.update r.refs branch (some start)
        worktrees := Function.update r.worktrees path (some ⟨branch, tree, tree⟩) } := by
  unfold addWorktree at h
  split at h
  case h_2 => cases h
  case h_1 tree ht =>
    split_ifs at h with hc
    exact ⟨tree, ht, hc.1, Option.isNone_iff_eq_none.mp hc.2, (Option.some.inj h).symm⟩

omit [DecidableEq ι] [DecidableEq τ] [DecidableEq ρ] in
theorem edit_cases {path : π} {files : τ} (h : r.edit path files = some r') :
    ∃ w, r.worktrees path = some w ∧
      r' = { r with
        worktrees := Function.update r.worktrees path (some { w with files := files }) } := by
  obtain ⟨w, hw, rfl⟩ := Option.map_eq_some_iff.mp h
  exact ⟨w, hw, rfl⟩

omit [DecidableEq ι] [DecidableEq ρ] in
theorem tear_cases {path : π} {files : τ} (h : r.tear path files = some r') :
    ∃ w, r.worktrees path = some w ∧
      r' = { r with
        worktrees := Function.update r.worktrees path (some { w with files := files }) } :=
  edit_cases (Option.ite_none_right_eq_some.mp h).2

omit [DecidableEq ι] [DecidableEq τ] [DecidableEq ρ] in
theorem stageAll_cases {path : π} (h : r.stageAll path = some r') :
    ∃ w, r.worktrees path = some w ∧
      r' = { r with
        worktrees := Function.update r.worktrees path (some { w with index := w.files }) } := by
  obtain ⟨w, hw, rfl⟩ := Option.map_eq_some_iff.mp h
  exact ⟨w, hw, rfl⟩

omit [DecidableEq τ] [DecidableEq ρ] [DecidableEq π] in
theorem commitTree_cases {path : π} {name : ι} {parents : List ι}
    (h : r.commitTree path name parents = some r') :
    ∃ w, r.worktrees path = some w ∧ r.commits name = none ∧
      r' = { r with commits := Function.update r.commits name (some ⟨w.index, parents⟩) } := by
  unfold commitTree at h
  split at h
  case h_2 => cases h
  case h_1 w hw =>
    split_ifs at h with hc
    exact ⟨w, hw, Option.isNone_iff_eq_none.mp hc, (Option.some.inj h).symm⟩

omit [DecidableEq τ] [DecidableEq π] in
theorem updateRef_cases {name : ρ} {new : ι} {old : Option ι}
    (h : r.updateRef name new old = some r') :
    r.refs name = old ∧ r' = { r with refs := Function.update r.refs name (some new) } := by
  unfold updateRef at h
  split_ifs at h with hc
  exact ⟨hc, (Option.some.inj h).symm⟩

omit [DecidableEq ι] [DecidableEq ρ] in
theorem removeWorktree_cases {path : π} (h : r.removeWorktree path = some r') :
    r.clean path = true ∧
      r' = { r with worktrees := Function.update r.worktrees path none } := by
  unfold removeWorktree at h
  split_ifs at h with hc
  exact ⟨hc, (Option.some.inj h).symm⟩

omit [DecidableEq ι] [DecidableEq τ] [DecidableEq π] in
theorem deleteBranch_cases {branch : ρ} (h : r.deleteBranch branch = some r') :
    r' = { r with refs := Function.update r.refs branch none } := by
  unfold deleteBranch at h
  split_ifs at h
  exact (Option.some.inj h).symm

end Repository

end Git
