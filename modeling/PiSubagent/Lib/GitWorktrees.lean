import Mathlib.Logic.Function.Basic
import Mathlib.Data.List.Basic

/-!
# Linked worktrees as registrations and directories

A linked worktree of a Git repository is a registration in the repository and a directory at its
path. Each can be there without the other: a command may stop between the two, and anyone may delete
a directory. `none` is the command that fails.

* `Repository`: the refs, what the main checkout is at, the registrations and the directories.
* `inspect`: what `rev-parse` and `branch --show-current` say in a directory.
* `beginRemoval`, `deleteTree`, `unregister`: the parts of `git worktree remove`.
* `register`, `beginTree`, `finishTree`, `unlock`: the parts of `git worktree add --detach`.
* `deleteBranch`: `git branch -D`, which refuses a branch that a checkout is at.
-/

namespace GitWorktrees

/-- What a checkout is at. -/
inductive Head (ι ρ : Type) where
  | branch (b : ρ)
  | detached (c : ι)
deriving DecidableEq, Repr

/-- The registration of a linked worktree. -/
structure Registration (ι ρ : Type) where
  head : Head ι ρ
  /-- `git worktree remove` refuses it: it is locked, or has submodules. -/
  locked : Bool
deriving DecidableEq, Repr

/-- A directory at the path of a worktree. -/
structure Directory where
  /-- `realpath` is the path itself. -/
  canonical : Bool
  /-- Its `.git` file and the registration of the path belong together. -/
  linked : Bool
  /-- `git status` lists nothing. -/
  clean : Bool
deriving DecidableEq, Repr

/-- What is at a path. -/
inductive Entry where
  | directory (d : Directory)
  /-- No directory, or one that cannot be inspected. -/
  | other
deriving DecidableEq, Repr

/-- A repository with its linked worktrees; a path is registered once. -/
structure Repository (ι ρ π : Type) where
  refs : ρ → Option ι
  /-- What the main checkout is at. -/
  main : Head ι ρ
  registered : List (π × Registration ι ρ)
  nodup : (registered.map Prod.fst).Nodup
  disk : π → Option Entry

variable {ι ρ π : Type} [DecidableEq π]

namespace Repository

variable (r : Repository ι ρ π)

/-- The registration of a path. -/
def registration (p : π) : Option (Registration ι ρ) := r.registered.lookup p

/-- The commit a checkout is at. -/
def commitOf : Head ι ρ → Option ι
  | .branch b => r.refs b
  | .detached c => some c

/-- The branch and the commit that Git finds in the directory at a path; `none` where it is no
working tree of its own. -/
def inspect (p : π) : Option (Option ρ × ι) :=
  match r.disk p, r.registration p with
  | some (.directory d), some reg =>
    if d.linked then
      (r.commitOf reg.head).map fun c =>
        (match reg.head with
          | .branch b => some b
          | .detached _ => none, c)
    else none
  | _, _ => none

/-- `realpath` of the directory at a path is the path. -/
def canonical (p : π) : Bool :=
  match r.disk p with
  | some (.directory d) => d.canonical
  | _ => false

/-- `git status` of the directory at a path lists nothing. -/
def clean (p : π) : Bool :=
  match r.disk p with
  | some (.directory d) => d.clean
  | _ => false

/-- A branch that a checkout is at. -/
def checkedOut [DecidableEq ι] [DecidableEq ρ] (b : ρ) : Bool :=
  decide (r.main = .branch b) || r.registered.any fun e => decide (e.2.head = .branch b)

/-! ## Commands -/

/-- `git worktree remove` accepts the path. -/
def removable (force : Bool) (p : π) : Bool :=
  match r.registration p, r.disk p with
  | some reg, none => !reg.locked
  | some reg, some (.directory d) => !reg.locked && d.linked && (force || d.clean)
  | _, _ => false

/-- `git worktree remove`, to the first files that it deletes, and the directory without them. -/
def beginRemoval (force : Bool) (p : π) (left : Directory) : Option (Repository ι ρ π) :=
  if r.removable force p then
    some { r with disk := Function.update r.disk p (some (.directory left)) }
  else none

/-- `git worktree remove`, to the deletion of the directory. -/
def deleteTree (p : π) : Repository ι ρ π := { r with disk := Function.update r.disk p none }

/-- `git worktree remove`, from the deletion of the directory. -/
def unregister (p : π) : Repository ι ρ π :=
  { r with
    registered := r.registered.filter fun e => e.1 ≠ p
    nodup := r.nodup.sublist (List.filter_sublist.map _) }

/-- `git worktree add --detach`, to the registration; `locked` where Git locks what it is making. -/
def register (locked : Bool) (p : π) (c : ι) : Option (Repository ι ρ π) :=
  if h : (r.disk p).isNone = true ∧ p ∉ r.registered.map Prod.fst then
    some { r with
      registered := (p, ⟨.detached c, locked⟩) :: r.registered
      nodup := List.nodup_cons.mpr ⟨h.2, r.nodup⟩ }
  else none

/-- Files are missing: a checkout has begun. -/
def beginTree (p : π) : Repository ι ρ π :=
  { r with disk := Function.update r.disk p (some (.directory ⟨true, true, false⟩)) }

/-- The checkout of a registered worktree is complete. -/
def finishTree (p : π) : Repository ι ρ π :=
  { r with disk := Function.update r.disk p (some (.directory ⟨true, true, true⟩)) }

/-- `git worktree add --detach`, from the checkout. -/
def unlock (p : π) : Repository ι ρ π :=
  { r with
    registered := r.registered.map fun e => if e.1 = p then (e.1, { e.2 with locked := false }) else e
    nodup := by
      have hkeys : (r.registered.map fun e =>
          if e.1 = p then (e.1, { e.2 with locked := false }) else e).map Prod.fst =
          r.registered.map Prod.fst := by
        rw [List.map_map]
        apply List.map_congr_left
        intro e _
        rw [Function.comp_apply]
        split <;> rfl
      rw [hkeys]
      exact r.nodup }

/-- `git branch -D`. -/
def deleteBranch [DecidableEq ι] [DecidableEq ρ] (b : ρ) : Option (Repository ι ρ π) :=
  if (r.refs b).isSome && !r.checkedOut b then
    some { r with refs := Function.update r.refs b none }
  else none

/-! ## What the commands do -/

variable {r} {r' : Repository ι ρ π}

theorem inspect_eq_some {p : π} {b : Option ρ} {c : ι} (h : r.inspect p = some (b, c)) :
    ∃ d reg, r.disk p = some (.directory d) ∧ r.registration p = some reg ∧ d.linked = true ∧
      r.commitOf reg.head = some c ∧
      b = match reg.head with
        | .branch b => some b
        | .detached _ => none := by
  unfold inspect at h
  split at h
  · rename_i d reg hd hreg
    split at h
    · rename_i hl
      obtain ⟨c', hc, he⟩ := Option.map_eq_some_iff.mp h
      obtain ⟨rfl, rfl⟩ := Prod.mk.inj he
      exact ⟨d, reg, hd, hreg, hl, hc, rfl⟩
    · exact nomatch h
  · exact nomatch h

/-- The branch of an inspected worktree is the registration's, at the commit. -/
theorem inspect_branch {p : π} {b : ρ} {c : ι} (h : r.inspect p = some (some b, c)) :
    ∃ d reg, r.disk p = some (.directory d) ∧ r.registration p = some reg ∧ d.linked = true ∧
      reg.head = .branch b ∧ r.refs b = some c := by
  obtain ⟨d, reg, hd, hreg, hl, hc, hb⟩ := inspect_eq_some h
  cases hh : reg.head with
  | branch b' =>
    rw [hh] at hb hc
    obtain rfl := Option.some.inj hb
    exact ⟨d, reg, hd, hreg, hl, hh, hc⟩
  | detached c' =>
    rw [hh] at hb
    exact nomatch hb

theorem beginRemoval_eq_some {force : Bool} {p : π} {left : Directory} :
    r.beginRemoval force p left = some r' ↔ r.removable force p = true ∧
      r' = { r with disk := Function.update r.disk p (some (.directory left)) } := by
  rw [beginRemoval, Option.ite_none_right_eq_some, Option.some.injEq, eq_comm (a := r')]

omit [DecidableEq π] in
theorem deleteBranch_eq_some [DecidableEq ι] [DecidableEq ρ] {b : ρ} (h : r.deleteBranch b = some r') :
    r.checkedOut b = false ∧ r' = { r with refs := Function.update r.refs b none } := by
  obtain ⟨hc, ⟨⟩⟩ := Option.ite_none_right_eq_some.mp h
  rw [Bool.and_eq_true, Bool.not_eq_true'] at hc
  exact ⟨hc.2, rfl⟩

theorem lookup_filter_ne {l : List (π × Registration ι ρ)} {p q : π} (h : p ≠ q) :
    (l.filter fun e => e.1 ≠ q).lookup p = l.lookup p := by
  induction l with
  | nil => rfl
  | cons e l ih =>
    by_cases he : e.1 = q
    · have hp : (p == e.1) = false := by
        rw [he]
        exact beq_eq_false_iff_ne.mpr h
      rw [List.filter_cons_of_neg (by simp [he]), ih, List.lookup_cons, hp]
    · rw [List.filter_cons_of_pos (by simp [he]), List.lookup_cons, List.lookup_cons, ih]

theorem lookup_filter_self {l : List (π × Registration ι ρ)} {p : π} :
    (l.filter fun e => e.1 ≠ p).lookup p = none := by
  induction l with
  | nil => rfl
  | cons e l ih =>
    by_cases he : e.1 = p
    · rw [List.filter_cons_of_neg (by simp [he]), ih]
    · have hp : (p == e.1) = false := beq_eq_false_iff_ne.mpr (Ne.symm he)
      rw [List.filter_cons_of_pos (by simp [he]), List.lookup_cons, hp, ih]

theorem lookup_of_mem {l : List (π × Registration ι ρ)} (hnodup : (l.map Prod.fst).Nodup)
    {e : π × Registration ι ρ} (h : e ∈ l) : l.lookup e.1 = some e.2 := by
  induction l with
  | nil => exact absurd h List.not_mem_nil
  | cons d l ih =>
    rw [List.map_cons, List.nodup_cons] at hnodup
    rw [List.lookup_cons]
    rcases List.mem_cons.mp h with rfl | h
    · rw [beq_self_eq_true]
    · have hne : (e.1 == d.1) = false := by
        rw [beq_eq_false_iff_ne]
        intro he
        exact hnodup.1 (he ▸ List.mem_map_of_mem h)
      rw [hne]
      exact ih hnodup.2 h

/-- The registration of a path is the only one. -/
theorem registration_of_mem {e : π × Registration ι ρ} (h : e ∈ r.registered) :
    r.registration e.1 = some e.2 := lookup_of_mem r.nodup h

theorem mem_of_registration {p : π} {reg : Registration ι ρ} (h : r.registration p = some reg) :
    (p, reg) ∈ r.registered := by
  obtain ⟨l₁, l₂, hl, -⟩ := List.lookup_eq_some_iff.mp h
  rw [hl]
  exact List.mem_append_right _ List.mem_cons_self

@[simp] theorem registration_unregister_ne {p q : π} (h : p ≠ q) :
    (r.unregister q).registration p = r.registration p := lookup_filter_ne h

@[simp] theorem registration_unregister_self (p : π) :
    (r.unregister p).registration p = none := lookup_filter_self

theorem register_eq_some {locked : Bool} {p : π} {c : ι} (h : r.register locked p c = some r') :
    r.disk p = none ∧ r.registration p = none ∧ r'.disk = r.disk ∧
      r'.registration p = some ⟨.detached c, locked⟩ ∧
        ∀ q, q ≠ p → r'.registration q = r.registration q := by
  unfold register at h
  split at h
  · rename_i hfree
    obtain rfl := Option.some.inj h
    refine ⟨Option.isNone_iff_eq_none.mp hfree.1, ?_, rfl, ?_, fun q hq => ?_⟩
    · rw [registration, List.lookup_eq_none_iff]
      intro e he
      rw [bne_iff_ne]
      rintro rfl
      exact hfree.2 (List.mem_map_of_mem he)
    · exact List.lookup_cons_self
    · rw [registration, List.lookup_cons, beq_eq_false_iff_ne.mpr hq]
      rfl
  · exact nomatch h

/-- A path with no registration and no directory can be registered. -/
theorem register_isSome (locked : Bool) {p : π} (c : ι) (hd : r.disk p = none)
    (hr : r.registration p = none) : ∃ r', r.register locked p c = some r' := by
  have hfree : (r.disk p).isNone = true ∧ p ∉ r.registered.map Prod.fst := by
    refine ⟨by rw [hd]; rfl, fun hp => ?_⟩
    obtain ⟨e, he, rfl⟩ := List.mem_map.mp hp
    rw [registration_of_mem he] at hr
    exact nomatch hr
  exact ⟨_, dif_pos hfree⟩

theorem lookup_unlock (l : List (π × Registration ι ρ)) (p q : π) :
    (l.map fun e => if e.1 = p then (e.1, { e.2 with locked := false }) else e).lookup q =
      if q = p then (l.lookup q).map fun reg => { reg with locked := false } else l.lookup q := by
  induction l with
  | nil => simp
  | cons e l ih =>
    rw [List.map_cons, List.lookup_cons, List.lookup_cons, ih]
    by_cases hq : q = e.1
    · by_cases he : e.1 = p <;> simp [hq, he]
    · have hq' : (q == e.1) = false := beq_eq_false_iff_ne.mpr hq
      by_cases he : e.1 = p
      · have hqp : (q == p) = false := by rw [← he, hq']
        simp [he, hqp]
      · simp [he, hq']

@[simp] theorem registration_unlock_ne {p q : π} (h : q ≠ p) :
    (r.unlock p).registration q = r.registration q := by
  rw [registration, unlock, lookup_unlock, if_neg h]
  rfl

@[simp] theorem registration_unlock_self (p : π) : (r.unlock p).registration p =
    (r.registration p).map fun reg => { reg with locked := false } := by
  rw [registration, unlock, lookup_unlock, if_pos rfl]
  rfl

end Repository

end GitWorktrees
