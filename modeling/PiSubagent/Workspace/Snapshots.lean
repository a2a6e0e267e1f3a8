import PiSubagent.Lib.GitWorktrees
import PiSubagent.Lib.OrderedMap
import PiSubagent.Lib.Runs
import PiSubagent.Lib.Scripts
import PiSubagent.Preflight.Compile

/-!
# Read-only snapshots

The detached checkout of a read-only attempt: its record, its registration and its tree. Making one
and removing one are scripts, which a crash may stop after any of their steps; a reconciliation
removes what a run still holds.

* `createReadOnlySnapshot`, `removeReadOnlySnapshot`, `listRunSnapshots`, `removeRunSnapshots`,
  `reconcile`: the functions.
* `Recovers`: a reconciliation removes a snapshot and reports the workspace absent.
* `Isolated`: what a run's removal does and reports is the same in two stores.
* **`snapshots_recovered`**: when no crash leaves a record or a tree half-made, both hold after every
  crash, and of one more crash they hold exactly when it does not either.
* **`snapshots_unread`**: a crash between a record and its text.
-/

namespace PiSubagent

open JsonText

namespace Snapshots

open GitWorktrees OrderedMap Runs Scripts
open Preflight (sortBy mem_sortBy)

/-- `SnapshotRecord`; its paths follow from the attempt. -/
structure SnapshotRecord where
  runId : JsString
  attemptId : JsString
  commit : JsString
deriving DecidableEq, Repr

/-- The file of a record. -/
inductive RecordFile where
  /-- Not all of its text is there. -/
  | unfinished
  | written (record : SnapshotRecord)
deriving DecidableEq, Repr

/-- The worktrees at the snapshot paths and the files of the records, both by attempt. -/
structure Store where
  repo : Repository JsString JsString JsString
  files : List (JsString × RecordFile)
  nodup : (keys files).Nodup

/-- A step of a script. -/
abbrev Step := Store → Option Store

namespace Store

variable (s : Store)

/-- The record file of an attempt has other contents. -/
def setFile (id : JsString) (f : RecordFile) : Store :=
  { s with files := set id f s.files, nodup := nodup_keys_set id f s.nodup }

/-- The record file of an attempt is deleted. -/
def eraseFile (id : JsString) : Store :=
  { s with files := erase id s.files, nodup := nodup_keys_erase id s.nodup }

end Store

/-! ## Creation -/

/-- The record file is created, and must not be there. -/
def reserve (r : SnapshotRecord) : Step := fun s =>
  if get r.attemptId s.files = none then some (s.setFile r.attemptId .unfinished) else none

/-- The record is written. -/
def writeRecord (r : SnapshotRecord) : Step := fun s =>
  some (s.setFile r.attemptId (.written r))

/-- `git worktree add --detach`, to the registration; `locks` where Git locks what it is making. -/
def registerTree (locks : Bool) (r : SnapshotRecord) : Step := fun s =>
  (s.repo.register locks r.attemptId r.commit).map fun repo => { s with repo := repo }

/-- The checkout begins. -/
def beginTree (r : SnapshotRecord) : Step := fun s =>
  some { s with repo := s.repo.beginTree r.attemptId }

/-- The checkout is complete. -/
def finishTree (r : SnapshotRecord) : Step := fun s =>
  some { s with repo := s.repo.finishTree r.attemptId }

/-- `git worktree add --detach`, from the checkout. -/
def unlockTree (r : SnapshotRecord) : Step := fun s =>
  some { s with repo := s.repo.unlock r.attemptId }

/-- The steps of `createReadOnlySnapshot`. -/
def createSteps (locks : Bool) (r : SnapshotRecord) : List Step :=
  [reserve r, writeRecord r, registerTree locks r, beginTree r, finishTree r, unlockTree r]

/-- `createReadOnlySnapshot`, stopped after at most `n` steps, under the lease of the run. -/
def createReadOnlySnapshot (locks : Bool) (r : SnapshotRecord) (n : ℕ) (s : Store) : Store × Bool :=
  advance n (createSteps locks r) s

/-! ## Removal -/

/-- The checks of a removal, and the beginning of `git worktree remove`. -/
def beginRemoval (r : SnapshotRecord) : Step := fun s =>
  if s.repo.canonical r.attemptId = true ∧ s.repo.inspect r.attemptId = some (none, r.commit) ∧
      s.repo.clean r.attemptId = true then
    (s.repo.beginRemoval false r.attemptId ⟨true, true, false⟩).map fun repo =>
      { s with repo := repo }
  else none

/-- The tree is deleted. -/
def deleteTree (r : SnapshotRecord) : Step := fun s =>
  some { s with repo := s.repo.deleteTree r.attemptId }

/-- `git worktree remove`, from the deletion of the tree. -/
def unregister (r : SnapshotRecord) : Step := fun s =>
  some { s with repo := s.repo.unregister r.attemptId }

/-- `git worktree remove --force` of a worktree whose tree is gone. -/
def removeStale (r : SnapshotRecord) : Step := fun s =>
  if s.repo.removable true r.attemptId then unregister r s else none

/-- The record is deleted. -/
def unlinkRecord (r : SnapshotRecord) : Step := fun s => some (s.eraseFile r.attemptId)

/-- The steps of `removeReadOnlySnapshot`, from the state it begins in. -/
def removeSteps (s : Store) (r : SnapshotRecord) : List Step :=
  (if (s.repo.disk r.attemptId).isSome then [beginRemoval r, deleteTree r, unregister r]
    else if (s.repo.registration r.attemptId).isSome then [removeStale r]
    else []) ++ [unlinkRecord r]

/-- `removeReadOnlySnapshot`, stopped after at most `n` steps, under the lease of the run. -/
def removeReadOnlySnapshot (r : SnapshotRecord) (n : ℕ) (s : Store) : Store × Bool :=
  advance n (removeSteps s r) s

/-- `readSnapshotRecord`: the record of a file, which must be its own. -/
def readSnapshotRecord (e : JsString × RecordFile) : Option SnapshotRecord :=
  match e.2 with
  | .unfinished => none
  | .written r => if r.attemptId = e.1 then some r else none

/-- `listRunSnapshots`: the records of every run are read, in the order of their names. -/
def listRunSnapshots (runId : JsString) (s : Store) : Option (List SnapshotRecord) :=
  ((sortBy (fun e => e.1 ++ ofString ".json") s.files).mapM readSnapshotRecord).map fun rs =>
    rs.filter fun r => r.runId = runId

/-- The records are removed one by one, up to the first that is refused. -/
def removeEach : List SnapshotRecord → Store → Store × Bool
  | [], s => (s, true)
  | r :: rs, s =>
    match removeReadOnlySnapshot r (removeSteps s r).length s with
    | (t, true) => removeEach rs t
    | (t, false) => (t, false)

/-- `removeRunSnapshots`. -/
def removeRunSnapshots (runId : JsString) (s : Store) : Store × WorkspaceState :=
  match listRunSnapshots runId s with
  | none => (s, .unknown)
  | some rs =>
    match removeEach rs s with
    | (t, true) => (t, .absent)
    | (t, false) => (t, .unknown)

/-! ## Reconciliation -/

/-- The status start-up gives a run: that of the result it finds. While the latest attempt has not
begun, that is an earlier attempt's. -/
def recoveredStatus (found : Option RunStatus) : RunStatus := found.getD .cleanupBlocked

/-- `reconcile`, of a run whose attempts start at a hand-off: what it does to the workspace, and the
state it reports. -/
def reconcile (status : RunStatus) (process : SandboxProcess) (runId : JsString) (s : Store) :
    Store × WorkspaceState :=
  if status ≠ .cleanupBlocked then (s, .absent)
  -- A snapshot is removable only once no VM can mount it.
  else if process = .absent ∨ process = .notStarted then removeRunSnapshots runId s
  else (s, .unknown)

/-! ## What recovery is -/

/-- What there is of an attempt's snapshot. -/
structure Place where
  file : Option RecordFile
  tree : Option Entry
  registration : Option (Registration JsString JsString)
deriving DecidableEq, Repr

/-- What a store has of an attempt's snapshot. -/
def Store.place (s : Store) (id : JsString) : Place :=
  ⟨get id s.files, s.repo.disk id, s.repo.registration id⟩

/-- Nothing is left of a snapshot. -/
def Place.gone : Place := ⟨none, none, none⟩

/-- Once no VM is alive a reconciliation reports the workspace absent, and nothing of the snapshot
is left. -/
def Recovers (found : Option RunStatus) (s : Store) (r : SnapshotRecord) : Prop :=
  ∀ process, process = .absent ∨ process = .notStarted →
    (reconcile (recoveredStatus found) process r.runId s).2 = .absent ∧
      (reconcile (recoveredStatus found) process r.runId s).1.place r.attemptId = .gone

/-- The store holds a record of the run under the attempt. -/
def Store.Owns (s : Store) (runId id : JsString) : Prop :=
  ∃ r, get id s.files = some (.written r) ∧ r.runId = runId

/-- What the removal of a run's snapshots does and reports is the same in two stores, of which the
second may hold more of other runs. -/
structure Isolated (s t : Store) (runId : JsString) : Prop where
  report : (removeRunSnapshots runId t).2 = (removeRunSnapshots runId s).2
  owned : ∀ id, s.Owns runId id →
    (removeRunSnapshots runId t).1.place id = (removeRunSnapshots runId s).1.place id
  others : ∀ id, ¬ s.Owns runId id → (removeRunSnapshots runId t).1.place id = t.place id

/-! ## Crashes -/

/-- A creation or a removal, with the step at which a crash stops it. A reconciliation is a removal
for each record. -/
inductive Act where
  | create (r : SnapshotRecord) (n : ℕ)
  | remove (r : SnapshotRecord) (n : ℕ)
deriving DecidableEq, Repr

/-- The record an act is about. -/
def Act.record : Act → SnapshotRecord
  | .create r _ => r
  | .remove r _ => r

/-- An act is taken: an attempt is reserved once, and a record that is removed was written. -/
def Store.step (locks : Bool) (s : Store) : Act → Option Store
  | .create r n =>
    if get r.attemptId s.files = none then some (createReadOnlySnapshot locks r n s).1 else none
  | .remove r n =>
    if get r.attemptId s.files = some (.written r) then some (removeReadOnlySnapshot r n s).1
    else none

/-- The crash leaves neither the record nor the tree half-made, nor the worktree locked. -/
def Store.Whole (locks : Bool) (s : Store) : Act → Prop
  | .create _ n => n ≠ 1 ∧ n ≠ 4 ∧ (locks = true → n ≠ 3 ∧ n ≠ 5)
  | .remove r n => (s.repo.disk r.attemptId).isSome = true → n ≠ 1

/-- The act leaves nothing of the snapshot. -/
def Store.Clears (s : Store) : Act → Prop
  | .create _ n => n = 0
  | .remove r n => (removeSteps s r).length ≤ n

/-- The act does not leave the record file without its text. -/
def Act.readable : Act → Prop
  | .create _ n => n ≠ 1
  | .remove _ _ => True

/-- A store without snapshots. -/
def start (refs : JsString → Option JsString) (main : Head JsString JsString) : Store where
  repo := ⟨refs, main, [], List.nodup_nil, fun _ => none⟩
  files := []
  nodup := List.nodup_nil

/-! ## Places -/

/-- The tree of a snapshot, all of it there. -/
def wholeTree : Entry := .directory ⟨true, true, true⟩

/-- The tree of a snapshot with files missing. -/
def halfTree : Entry := .directory ⟨true, true, false⟩

section Places

variable {s t : Store} {r : SnapshotRecord} {id : JsString}

theorem place_setFile_self (s : Store) (id : JsString) (f : RecordFile) :
    (s.setFile id f).place id = { s.place id with file := some f } := by
  simp [Store.place, Store.setFile]

theorem place_setFile_ne (f : RecordFile) {a : JsString} (h : id ≠ a) :
    (s.setFile a f).place id = s.place id := by
  simp [Store.place, Store.setFile, h]

theorem place_eraseFile_self (s : Store) (id : JsString) :
    (s.eraseFile id).place id = { s.place id with file := none } := by
  simp [Store.place, Store.eraseFile]

theorem place_eraseFile_ne {a : JsString} (h : id ≠ a) :
    (s.eraseFile a).place id = s.place id := by
  simp [Store.place, Store.eraseFile, h]

theorem place_beginTree (s : Store) (id : JsString) :
    ({ s with repo := s.repo.beginTree id } : Store).place id =
      { s.place id with tree := some halfTree } := by
  simp [Store.place, Repository.beginTree, Repository.registration, halfTree]

theorem place_finishTree (s : Store) (id : JsString) :
    ({ s with repo := s.repo.finishTree id } : Store).place id =
      { s.place id with tree := some wholeTree } := by
  simp [Store.place, Repository.finishTree, Repository.registration, wholeTree]

theorem place_unlock (s : Store) (id : JsString) :
    ({ s with repo := s.repo.unlock id } : Store).place id =
      { s.place id with
        registration := (s.place id).registration.map fun reg => { reg with locked := false } } := by
  simp only [Store.place, Repository.registration_unlock_self]
  rfl

theorem place_unregister (s : Store) (id : JsString) :
    ({ s with repo := s.repo.unregister id } : Store).place id =
      { s.place id with registration := none } := by
  simp only [Store.place, Repository.registration_unregister_self]
  rfl

theorem place_deleteTree (s : Store) (id : JsString) :
    ({ s with repo := s.repo.deleteTree id } : Store).place id =
      { s.place id with tree := none } := by
  simp [Store.place, Repository.deleteTree, Repository.registration]

theorem createSteps_place {locks : Bool} {f : Step} (hf : f ∈ createSteps locks r)
    (hne : id ≠ r.attemptId) (h : f s = some t) : t.place id = s.place id := by
  simp only [createSteps, List.mem_cons, List.not_mem_nil, or_false] at hf
  rcases hf with rfl | rfl | rfl | rfl | rfl | rfl
  · obtain ⟨-, ⟨⟩⟩ := Option.ite_none_right_eq_some.mp h
    exact place_setFile_ne _ hne
  · obtain rfl := Option.some.inj h
    exact place_setFile_ne _ hne
  · obtain ⟨repo, hrepo, rfl⟩ := Option.map_eq_some_iff.mp h
    obtain ⟨-, -, hdisk, -, hother⟩ := Repository.register_eq_some hrepo
    simp [Store.place, hdisk, hother id hne]
  · obtain rfl := Option.some.inj h
    simp [Store.place, Repository.beginTree, Repository.registration, hne]
  · obtain rfl := Option.some.inj h
    simp [Store.place, Repository.finishTree, Repository.registration, hne]
  · obtain rfl := Option.some.inj h
    have hreg := Repository.registration_unlock_ne (r := s.repo) hne
    simp [Store.place, hreg]
    rfl

theorem beginRemoval_eq_some : beginRemoval r s = some t ↔ (s.repo.canonical r.attemptId = true ∧
    s.repo.inspect r.attemptId = some (none, r.commit) ∧ s.repo.clean r.attemptId = true ∧
      s.repo.removable false r.attemptId = true) ∧
        t = { s with repo := s.repo.beginTree r.attemptId } := by
  unfold beginRemoval
  rw [Option.ite_none_right_eq_some, Option.map_eq_some_iff]
  constructor
  · rintro ⟨⟨h1, h2, h3⟩, repo, hrepo, rfl⟩
    obtain ⟨h4, rfl⟩ := Repository.beginRemoval_eq_some.mp hrepo
    exact ⟨⟨h1, h2, h3, h4⟩, rfl⟩
  · rintro ⟨⟨h1, h2, h3, h4⟩, rfl⟩
    exact ⟨⟨h1, h2, h3⟩, _, Repository.beginRemoval_eq_some.mpr ⟨h4, rfl⟩, rfl⟩

theorem removeSteps_place {u : Store} {f : Step} (hf : f ∈ removeSteps u r)
    (hne : id ≠ r.attemptId) (h : f s = some t) : t.place id = s.place id := by
  have hunregister {t : Store} (h : unregister r s = some t) : t.place id = s.place id := by
    obtain rfl := Option.some.inj h
    have hreg := Repository.registration_unregister_ne (r := s.repo) hne
    simp only [Store.place, hreg]
    rfl
  have hmem : f = beginRemoval r ∨ f = deleteTree r ∨ f = unregister r ∨ f = removeStale r ∨
      f = unlinkRecord r := by
    unfold removeSteps at hf
    split_ifs at hf <;> simp only [List.mem_append, List.mem_cons, List.not_mem_nil, or_false,
      false_or] at hf <;> tauto
  rcases hmem with rfl | rfl | rfl | rfl | rfl
  · obtain ⟨-, rfl⟩ := beginRemoval_eq_some.mp h
    simp [Store.place, Repository.beginTree, Repository.registration, hne]
  · obtain rfl := Option.some.inj h
    simp [Store.place, Repository.deleteTree, Repository.registration, hne]
  · exact hunregister h
  · exact hunregister (Option.ite_none_right_eq_some.mp h).2
  · obtain rfl := Option.some.inj h
    exact place_eraseFile_ne hne

/-- A creation leaves every other place as it is, wherever it is stopped. -/
theorem create_place_ne (locks : Bool) (n : ℕ) (s : Store) (hne : id ≠ r.attemptId) :
    (createReadOnlySnapshot locks r n s).1.place id = s.place id :=
  advance_invariant (fun t => t.place id = s.place id)
    (fun _ hf _ _ ht hu => (createSteps_place hf hne hu).trans ht) n rfl

/-- A removal leaves every other place as it is, wherever it is stopped. -/
theorem remove_place_ne (n : ℕ) (s : Store) (hne : id ≠ r.attemptId) :
    (removeReadOnlySnapshot r n s).1.place id = s.place id :=
  advance_invariant (fun t => t.place id = s.place id)
    (fun _ hf _ _ ht hu => (removeSteps_place hf hne hu).trans ht) n rfl

/-! ## Crash points -/

/-- What a creation leaves when it is stopped after `n` steps. -/
def createdPlace (locks : Bool) (r : SnapshotRecord) : ℕ → Place
  | 0 => .gone
  | 1 => ⟨some .unfinished, none, none⟩
  | 2 => ⟨some (.written r), none, none⟩
  | 3 => ⟨some (.written r), none, some ⟨.detached r.commit, locks⟩⟩
  | 4 => ⟨some (.written r), some halfTree, some ⟨.detached r.commit, locks⟩⟩
  | 5 => ⟨some (.written r), some wholeTree, some ⟨.detached r.commit, locks⟩⟩
  | _ => ⟨some (.written r), some wholeTree, some ⟨.detached r.commit, false⟩⟩

/-- **A creation leaves these places.** -/
theorem create_place (locks : Bool) (hfree : s.place r.attemptId = .gone) (n : ℕ) :
    (createReadOnlySnapshot locks r n s).1.place r.attemptId = createdPlace locks r n := by
  obtain ⟨hfile, hdisk, hreg⟩ := Place.mk.inj hfree
  let t₁ := s.setFile r.attemptId .unfinished
  let t₂ := t₁.setFile r.attemptId (.written r)
  obtain ⟨repo, hrepo⟩ := Repository.register_isSome locks r.commit hdisk hreg
  obtain ⟨-, -, hrdisk, hrreg, -⟩ := Repository.register_eq_some hrepo
  let t₃ : Store := { t₂ with repo := repo }
  let t₄ : Store := { t₃ with repo := repo.beginTree r.attemptId }
  let t₅ : Store := { t₄ with repo := t₄.repo.finishTree r.attemptId }
  let t₆ : Store := { t₅ with repo := t₅.repo.unlock r.attemptId }
  have h₁ : reserve r s = some t₁ := if_pos hfile
  have h₂ : writeRecord r t₁ = some t₂ := rfl
  have h₃ : registerTree locks r t₂ = some t₃ := by
    change (s.repo.register locks r.attemptId r.commit).map _ = _
    rw [hrepo]
    rfl
  have h₄ : beginTree r t₃ = some t₄ := rfl
  have h₅ : finishTree r t₄ = some t₅ := rfl
  have h₆ : unlockTree r t₅ = some t₆ := rfl
  have hp₁ : t₁.place r.attemptId = ⟨some .unfinished, none, none⟩ := by
    rw [place_setFile_self, hfree]
    rfl
  have hp₂ : t₂.place r.attemptId = ⟨some (.written r), none, none⟩ := by
    rw [place_setFile_self, hp₁]
  have hp₃ : t₃.place r.attemptId =
      ⟨some (.written r), none, some ⟨.detached r.commit, locks⟩⟩ := by
    obtain ⟨hfile₂, -, -⟩ := Place.mk.inj hp₂
    simp only [Store.place, t₃, hrdisk, hdisk, hrreg, hfile₂]
  have hp₄ : t₄.place r.attemptId =
      ⟨some (.written r), some halfTree, some ⟨.detached r.commit, locks⟩⟩ := by
    rw [place_beginTree t₃, hp₃]
  have hp₅ : t₅.place r.attemptId =
      ⟨some (.written r), some wholeTree, some ⟨.detached r.commit, locks⟩⟩ := by
    rw [place_finishTree t₄, hp₄]
  have hp₆ : t₆.place r.attemptId =
      ⟨some (.written r), some wholeTree, some ⟨.detached r.commit, false⟩⟩ := by
    rw [place_unlock t₅, hp₅]
    rfl
  unfold createReadOnlySnapshot createSteps
  rcases n with _ | _ | _ | _ | _ | _ | n
  · exact hfree
  · rw [advance_some h₁]
    exact hp₁
  · rw [advance_some h₁, advance_some h₂]
    exact hp₂
  · rw [advance_some h₁, advance_some h₂, advance_some h₃]
    exact hp₃
  · rw [advance_some h₁, advance_some h₂, advance_some h₃, advance_some h₄]
    exact hp₄
  · rw [advance_some h₁, advance_some h₂, advance_some h₃, advance_some h₄, advance_some h₅]
    exact hp₅
  · rw [advance_some h₁, advance_some h₂, advance_some h₃, advance_some h₄, advance_some h₅,
      advance_some h₆, advance_nil]
    exact hp₆

end Places

/-! ## Removals -/

section Removals

variable {s t : Store} {r : SnapshotRecord} {id : JsString}

/-- A removal goes through from a place: there is no tree and no locked registration, or the tree is
the recorded checkout, unmodified. -/
def Place.removable (p : Place) (r : SnapshotRecord) : Bool :=
  match p.tree, p.registration with
  | none, none => true
  | none, some reg => !reg.locked
  | some (.directory d), some reg =>
    d.canonical && d.linked && d.clean && decide (reg = ⟨.detached r.commit, false⟩)
  | some _, _ => false

theorem beginRemoval_iff (hp : (s.repo.disk r.attemptId).isSome = true) :
    beginRemoval r s = some t ↔ (s.place r.attemptId).removable r = true ∧
      t = { s with repo := s.repo.beginTree r.attemptId } := by
  rw [beginRemoval_eq_some]
  unfold Place.removable Store.place
  refine and_congr_left fun _ => ?_
  unfold Repository.canonical Repository.inspect Repository.clean Repository.removable
  obtain ⟨e, he⟩ := Option.isSome_iff_exists.mp hp
  rw [he]
  cases e with
  | other => simp
  | directory d =>
    cases hreg : s.repo.registration r.attemptId with
    | none => simp
    | some reg =>
      obtain ⟨head, locked⟩ := reg
      cases head with
      | branch b => cases hc : s.repo.refs b <;> simp [Repository.commitOf, hc]
      | detached c =>
        simp only [Repository.commitOf, Option.map_some]
        by_cases hl : d.linked = true
        · simp [hl]
          tauto
        · simp [hl]

/-- What a removal leaves of a whole snapshot when it is stopped after `n` steps. -/
def removedPlace (p : Place) : ℕ → Place
  | 0 => p
  | 1 => { p with tree := some halfTree }
  | 2 => { p with tree := none }
  | 3 => { p with tree := none, registration := none }
  | _ => .gone

/-- **A removal of a whole snapshot leaves these places.** -/
theorem remove_mounted {p : Place} (h : s.place r.attemptId = p) (hp : p.tree.isSome = true)
    (hr : p.removable r = true) (n : ℕ) :
    (removeReadOnlySnapshot r n s).1.place r.attemptId = removedPlace p n ∧
      ((removeReadOnlySnapshot r n s).2 = true ↔ (removeSteps s r).length ≤ n) := by
  subst h
  let t₁ : Store := { s with repo := s.repo.beginTree r.attemptId }
  let t₂ : Store := { t₁ with repo := t₁.repo.deleteTree r.attemptId }
  let t₃ : Store := { t₂ with repo := t₂.repo.unregister r.attemptId }
  have hsteps : removeSteps s r = [beginRemoval r, deleteTree r, unregister r, unlinkRecord r] := by
    have hp' : (s.repo.disk r.attemptId).isSome = true := hp
    rw [removeSteps, if_pos hp']
    rfl
  have h₁ : beginRemoval r s = some t₁ := (beginRemoval_iff hp).mpr ⟨hr, rfl⟩
  have h₂ : deleteTree r t₁ = some t₂ := rfl
  have h₃ : unregister r t₂ = some t₃ := rfl
  have h₄ : unlinkRecord r t₃ = some (t₃.eraseFile r.attemptId) := rfl
  have hp₁ : t₁.place r.attemptId = { s.place r.attemptId with tree := some halfTree } :=
    place_beginTree s r.attemptId
  have hp₂ : t₂.place r.attemptId = { s.place r.attemptId with tree := none } := by
    rw [place_deleteTree t₁, hp₁]
  have hp₃ : t₃.place r.attemptId =
      { s.place r.attemptId with tree := none, registration := none } := by
    rw [place_unregister t₂, hp₂]
  have hp₄ : (t₃.eraseFile r.attemptId).place r.attemptId = .gone := by
    rw [place_eraseFile_self, hp₃]
    rfl
  unfold removeReadOnlySnapshot
  rw [hsteps]
  match n with
  | 0 => exact ⟨rfl, by simp⟩
  | 1 =>
    rw [advance_some h₁]
    exact ⟨hp₁, by simp⟩
  | 2 =>
    rw [advance_some h₁, advance_some h₂]
    exact ⟨hp₂, by simp⟩
  | 3 =>
    rw [advance_some h₁, advance_some h₂, advance_some h₃]
    exact ⟨hp₃, by simp⟩
  | n + 4 =>
    rw [advance_some h₁, advance_some h₂, advance_some h₃, advance_some h₄, advance_nil]
    exact ⟨hp₄, by simp⟩

/-- What a removal leaves of a snapshot without a tree when it is stopped after `n` steps. -/
def clearedPlace (p : Place) : ℕ → Place
  | 0 => p
  | 1 => if p.registration.isSome then { p with registration := none } else .gone
  | _ => .gone

/-- **A removal of a snapshot without a tree leaves these places.** -/
theorem remove_treeless {p : Place} (h : s.place r.attemptId = p) (hp : p.tree = none)
    (hr : p.removable r = true) (n : ℕ) :
    (removeReadOnlySnapshot r n s).1.place r.attemptId = clearedPlace p n ∧
      ((removeReadOnlySnapshot r n s).2 = true ↔ (removeSteps s r).length ≤ n) := by
  subst h
  have hdisk : s.repo.disk r.attemptId = none := hp
  unfold removeReadOnlySnapshot
  cases hreg : s.repo.registration r.attemptId with
  | none =>
    have hsteps : removeSteps s r = [unlinkRecord r] := by
      rw [removeSteps, hdisk, hreg]
      rfl
    have h₁ : unlinkRecord r s = some (s.eraseFile r.attemptId) := rfl
    have hplace : (s.eraseFile r.attemptId).place r.attemptId = .gone := by
      rw [place_eraseFile_self, Store.place, hdisk, hreg]
      rfl
    rw [hsteps]
    have hone : clearedPlace (s.place r.attemptId) 1 = .gone := by
      unfold clearedPlace Store.place
      rw [hreg]
      rfl
    match n with
    | 0 => exact ⟨rfl, by simp⟩
    | 1 =>
      rw [advance_some h₁, hone]
      exact ⟨hplace, by simp⟩
    | n + 2 =>
      rw [advance_some h₁, advance_nil]
      exact ⟨hplace, by simp⟩
  | some reg =>
    let t₁ : Store := { s with repo := s.repo.unregister r.attemptId }
    have hsteps : removeSteps s r = [removeStale r, unlinkRecord r] := by
      rw [removeSteps, hdisk, hreg]
      rfl
    have hlocked : reg.locked = false := by
      rw [Place.removable, Store.place, hdisk, hreg, Bool.not_eq_true'] at hr
      exact hr
    have hremovable : s.repo.removable true r.attemptId = true := by
      rw [Repository.removable, hdisk, hreg]
      simp [hlocked]
    have h₁ : removeStale r s = some t₁ := by
      rw [removeStale, if_pos hremovable]
      rfl
    have h₂ : unlinkRecord r t₁ = some (t₁.eraseFile r.attemptId) := rfl
    have hp₁ : t₁.place r.attemptId = { s.place r.attemptId with registration := none } :=
      place_unregister s r.attemptId
    have hp₂ : (t₁.eraseFile r.attemptId).place r.attemptId = .gone := by
      rw [place_eraseFile_self, hp₁, Store.place, hdisk]
      rfl
    have hone : clearedPlace (s.place r.attemptId) 1 =
        { s.place r.attemptId with registration := none } := by
      unfold clearedPlace Store.place
      rw [hreg]
      rfl
    rw [hsteps]
    match n with
    | 0 => exact ⟨rfl, by simp⟩
    | 1 =>
      rw [advance_some h₁, hone]
      exact ⟨hp₁, by simp⟩
    | n + 2 =>
      rw [advance_some h₁, advance_some h₂, advance_nil]
      exact ⟨hp₂, by simp⟩

/-- **A removal that is not stopped goes through exactly from a removable place.** -/
theorem remove_iff : (removeReadOnlySnapshot r (removeSteps s r).length s).2 = true ↔
    (s.place r.attemptId).removable r = true := by
  constructor
  · intro h
    cases hd : s.repo.disk r.attemptId with
    | some e =>
      have hp : (s.repo.disk r.attemptId).isSome = true := by
        rw [hd]
        rfl
      have hsteps : removeSteps s r =
          [beginRemoval r, deleteTree r, unregister r, unlinkRecord r] := by
        rw [removeSteps, if_pos hp]
        rfl
      rw [removeReadOnlySnapshot, hsteps] at h
      obtain ⟨-, u, hu, -⟩ := advance_finished_cons (Prod.ext rfl h)
      exact ((beginRemoval_iff hp).mp hu).1
    | none =>
      cases hreg : s.repo.registration r.attemptId with
      | none =>
        rw [Place.removable, Store.place, hd, hreg]
      | some reg =>
        have hsteps : removeSteps s r = [removeStale r, unlinkRecord r] := by
          rw [removeSteps, hd, hreg]
          rfl
        rw [removeReadOnlySnapshot, hsteps] at h
        obtain ⟨-, u, hu, -⟩ := advance_finished_cons (Prod.ext rfl h)
        obtain ⟨hremovable, -⟩ := Option.ite_none_right_eq_some.mp hu
        rw [Repository.removable, hd, hreg] at hremovable
        rw [Place.removable, Store.place, hd, hreg]
        exact hremovable
  · intro h
    cases hd : s.repo.disk r.attemptId with
    | none => exact (remove_treeless rfl hd h _).2.mpr (le_refl _)
    | some e =>
      have hp : (s.place r.attemptId).tree.isSome = true := by
        rw [Store.place, hd]
        rfl
      exact (remove_mounted rfl hp h _).2.mpr (le_refl _)

theorem remove_gone (h : (s.place r.attemptId).removable r = true) :
    (removeReadOnlySnapshot r (removeSteps s r).length s).1.place r.attemptId = .gone := by
  cases hd : s.repo.disk r.attemptId with
  | none =>
    rw [(remove_treeless rfl hd h _).1]
    cases hreg : s.repo.registration r.attemptId with
    | none =>
      rw [removeSteps, hd, hreg, clearedPlace.eq_def, Store.place, hreg]
      rfl
    | some reg =>
      rw [removeSteps, hd, hreg]
      rfl
  | some e =>
    have hp : (s.repo.disk r.attemptId).isSome = true := by
      rw [hd]
      rfl
    rw [(remove_mounted rfl hp h _).1, removeSteps, if_pos hp]
    rfl

end Removals

/-! ## The snapshots of a run -/

section Runs

variable {s t : Store} {r : SnapshotRecord} {runId id : JsString}

/-- Every record file has its text, and is its own. -/
def Store.Readable (s : Store) : Prop :=
  ∀ id f, get id s.files = some f → ∃ r : SnapshotRecord, r.attemptId = id ∧ f = .written r

theorem readSnapshotRecord_eq_some {e : JsString × RecordFile} :
    readSnapshotRecord e = some r ↔ e = (r.attemptId, .written r) := by
  obtain ⟨id, f⟩ := e
  unfold readSnapshotRecord
  cases f with
  | unfinished => simp
  | written r' =>
    dsimp only
    rw [Option.ite_none_right_eq_some]
    constructor
    · rintro ⟨rfl, ⟨⟩⟩
      rfl
    · rintro ⟨⟩
      exact ⟨rfl, rfl⟩

theorem mapM_readSnapshotRecord {l : List (JsString × RecordFile)} {rs : List SnapshotRecord} :
    l.mapM readSnapshotRecord = some rs ↔ l = rs.map fun r => (r.attemptId, .written r) := by
  induction l generalizing rs with
  | nil =>
    rw [List.mapM_nil]
    constructor
    · rintro ⟨⟩
      rfl
    · intro h
      rw [List.map_eq_nil_iff.mp h.symm]
      rfl
  | cons e l ih =>
    rw [List.mapM_cons]
    simp only [Option.bind_eq_bind, Option.bind_eq_some_iff, readSnapshotRecord_eq_some, ih]
    constructor
    · rintro ⟨r, rfl, rs', rfl, ⟨⟩⟩
      rfl
    · intro h
      obtain ⟨r, rs', rfl, hr, hrs⟩ := List.map_eq_cons_iff.mp h.symm
      exact ⟨r, hr.symm, rs', hrs.symm, rfl⟩

/-- **The listing succeeds exactly when every record can be read**, whichever run it is asked for. -/
theorem listRunSnapshots_isSome (runId : JsString) :
    (∃ rs, listRunSnapshots runId s = some rs) ↔ s.Readable := by
  unfold listRunSnapshots
  constructor
  · rintro ⟨rs, h⟩ id f hf
    obtain ⟨all, hall, -⟩ := Option.map_eq_some_iff.mp h
    have hmem := (mem_sortBy (fun e => e.1 ++ ofString ".json") s.files _).mpr (mem_of_get hf)
    rw [mapM_readSnapshotRecord.mp hall] at hmem
    obtain ⟨r, -, hr⟩ := List.mem_map.mp hmem
    obtain ⟨hid, hfile⟩ := Prod.mk.inj hr
    exact ⟨r, hid, hfile.symm⟩
  · intro h
    have hall (l : List (JsString × RecordFile)) (hl : ∀ e ∈ l, e ∈ s.files) :
        ∃ rs, l.mapM readSnapshotRecord = some rs := by
      induction l with
      | nil => exact ⟨[], rfl⟩
      | cons e l ih =>
        obtain ⟨rs, hrs⟩ := ih fun e he => hl e (List.mem_cons_of_mem _ he)
        obtain ⟨r, hid, hfile⟩ := h e.1 e.2 (get_of_mem s.nodup (hl e List.mem_cons_self))
        refine ⟨r :: rs, ?_⟩
        rw [mapM_readSnapshotRecord] at hrs ⊢
        rw [List.map_cons, hrs, hid, ← hfile]
    obtain ⟨rs, hrs⟩ := hall _ fun e he => (mem_sortBy _ s.files e).mp he
    rw [hrs]
    exact ⟨_, rfl⟩

theorem listRunSnapshots_spec {rs : List SnapshotRecord} (h : listRunSnapshots runId s = some rs) :
    (∀ r, r ∈ rs ↔ get r.attemptId s.files = some (.written r) ∧ r.runId = runId) ∧
      (rs.map SnapshotRecord.attemptId).Nodup := by
  obtain ⟨all, hall, rfl⟩ := Option.map_eq_some_iff.mp h
  rw [mapM_readSnapshotRecord] at hall
  have hperm : (all.map fun r => (r.attemptId, RecordFile.written r)).Perm s.files := by
    rw [← hall]
    exact List.perm_insertionSort _ _
  refine ⟨fun r => ?_, ?_⟩
  · rw [List.mem_filter, decide_eq_true_eq]
    refine and_congr_left fun _ => ⟨fun hr => ?_, fun hr => ?_⟩
    · exact get_of_mem s.nodup (hperm.mem_iff.mp (List.mem_map_of_mem hr))
    · obtain ⟨r', hr', he⟩ := List.mem_map.mp (hperm.mem_iff.mpr (mem_of_get hr))
      obtain rfl := RecordFile.written.inj (Prod.mk.inj he).2
      exact hr'
  · have hkeys : (all.map SnapshotRecord.attemptId).Nodup := by
      have hnodup := (hperm.map Prod.fst).nodup_iff.mpr s.nodup
      rw [List.map_map] at hnodup
      exact hnodup
    exact hkeys.sublist (List.filter_sublist.map _)

theorem removeEach_place_ne {rs : List SnapshotRecord} (h : id ∉ rs.map SnapshotRecord.attemptId) :
    (removeEach rs s).1.place id = s.place id := by
  induction rs generalizing s with
  | nil => rfl
  | cons r rs ih =>
    rw [List.map_cons, List.mem_cons, not_or] at h
    have hfirst := remove_place_ne (r := r) (removeSteps s r).length s h.1
    rw [removeEach]
    cases hremove : removeReadOnlySnapshot r (removeSteps s r).length s with
    | mk t done =>
      rw [hremove] at hfirst
      cases done with
      | false => exact hfirst
      | true => exact (ih h.2).trans hfirst

/-- **Several records are removed exactly when each of them is removable**, and nothing of them is
left then. -/
theorem removeEach_iff {rs : List SnapshotRecord} (hn : (rs.map SnapshotRecord.attemptId).Nodup) :
    ((removeEach rs s).2 = true ↔ ∀ r ∈ rs, (s.place r.attemptId).removable r = true) ∧
      ((removeEach rs s).2 = true →
        ∀ r ∈ rs, (removeEach rs s).1.place r.attemptId = .gone) := by
  induction rs generalizing s with
  | nil => simp [removeEach]
  | cons r rs ih =>
    rw [List.map_cons, List.nodup_cons] at hn
    have hiff := remove_iff (s := s) (r := r)
    have hgone := remove_gone (s := s) (r := r)
    have hother {r' : SnapshotRecord} (hr' : r' ∈ rs) := remove_place_ne (r := r) (s := s)
      (removeSteps s r).length (ne_of_mem_of_not_mem (List.mem_map_of_mem hr') hn.1)
    rw [removeEach, List.forall_mem_cons, List.forall_mem_cons]
    cases hremove : removeReadOnlySnapshot r (removeSteps s r).length s with
    | mk t done =>
      rw [hremove] at hiff hgone hother
      cases done with
      | false =>
        refine ⟨iff_of_false Bool.false_ne_true fun h => ?_, fun h => nomatch h⟩
        exact Bool.false_ne_true (hiff.mpr h.1)
      | true =>
        have hr := hiff.mp rfl
        obtain ⟨hrest, hclear⟩ := ih (s := t) hn.2
        refine ⟨?_, fun h => ⟨?_, hclear h⟩⟩
        · rw [hrest, and_iff_right hr]
          refine forall₂_congr fun r' hr' => ?_
          rw [hother hr']
        · rw [removeEach_place_ne hn.1]
          exact hgone hr

theorem removeRunSnapshots_of_list {rs : List SnapshotRecord}
    (h : listRunSnapshots runId s = some rs) : removeRunSnapshots runId s =
      ((removeEach rs s).1, if (removeEach rs s).2 = true then .absent else .unknown) := by
  rw [removeRunSnapshots, h]
  dsimp only
  cases removeEach rs s with
  | mk t done => cases done <;> rfl

/-- **The removal of a run's snapshots reports the workspace absent exactly when every record of any
run can be read and every one of this run is removable.** -/
theorem removeRunSnapshots_iff : (removeRunSnapshots runId s).2 = .absent ↔ s.Readable ∧
    ∀ r : SnapshotRecord, get r.attemptId s.files = some (.written r) → r.runId = runId →
      (s.place r.attemptId).removable r = true := by
  rw [← listRunSnapshots_isSome runId]
  cases hlist : listRunSnapshots runId s with
  | none =>
    rw [removeRunSnapshots, hlist]
    simp
  | some rs =>
    obtain ⟨hmem, hn⟩ := listRunSnapshots_spec hlist
    have hiff := (removeEach_iff (s := s) hn).1
    have hall : (∀ r ∈ rs, (s.place r.attemptId).removable r = true) ↔
        ∀ r : SnapshotRecord, get r.attemptId s.files = some (.written r) → r.runId = runId →
          (s.place r.attemptId).removable r = true := by
      refine forall_congr' fun r => ?_
      rw [hmem, and_imp]
    rw [← hall, ← hiff, removeRunSnapshots_of_list hlist]
    cases (removeEach rs s).2 <;> simp

theorem removeRunSnapshots_gone (h : (removeRunSnapshots runId s).2 = .absent)
    (hr : get r.attemptId s.files = some (.written r)) (hrun : r.runId = runId) :
    (removeRunSnapshots runId s).1.place r.attemptId = .gone := by
  obtain ⟨rs, hlist⟩ := (listRunSnapshots_isSome runId).mpr (removeRunSnapshots_iff.mp h).1
  obtain ⟨hmem, hn⟩ := listRunSnapshots_spec hlist
  rw [removeRunSnapshots_of_list hlist] at h ⊢
  apply (removeEach_iff hn).2
  · by_contra hfalse
    rw [if_neg hfalse] at h
    exact nomatch h
  · exact (hmem r).mpr ⟨hr, hrun⟩

/-- The removal of a run's snapshots leaves everything else as it is. -/
theorem removeRunSnapshots_others (h : ¬ s.Owns runId id) :
    (removeRunSnapshots runId s).1.place id = s.place id := by
  cases hlist : listRunSnapshots runId s with
  | none => rw [removeRunSnapshots, hlist]
  | some rs =>
    obtain ⟨hmem, -⟩ := listRunSnapshots_spec hlist
    rw [removeRunSnapshots_of_list hlist]
    apply removeEach_place_ne
    intro hid
    obtain ⟨r, hr, rfl⟩ := List.mem_map.mp hid
    exact h ⟨r, (hmem r).mp hr⟩

end Runs

/-! ## Runs with crashes -/

section Crashes

variable {locks : Bool} {s t : Store} {a : Act} {r : SnapshotRecord} {runId : JsString}

/-- The record of a snapshot is written, and a removal goes through. -/
structure Place.Tidy (p : Place) (r : SnapshotRecord) : Prop where
  file : p.file = some (.written r)
  removable : p.removable r = true

/-- Every snapshot is gone or can be removed. -/
def Store.Sound (s : Store) : Prop :=
  ∀ id, s.place id = .gone ∨ ∃ r : SnapshotRecord, r.attemptId = id ∧ (s.place id).Tidy r

theorem Store.Sound.readable (h : s.Sound) : s.Readable := by
  intro id f hf
  rcases h id with hgone | ⟨r, hid, htidy⟩
  · have hnone := congrArg Place.file hgone
    rw [Store.place, hf] at hnone
    exact nomatch hnone
  · have hfile := htidy.file
    rw [Store.place, hf] at hfile
    exact ⟨r, hid, Option.some.inj hfile⟩

theorem Store.Sound.tidy (h : s.Sound) (hr : get r.attemptId s.files = some (.written r)) :
    (s.place r.attemptId).Tidy r := by
  rcases h r.attemptId with hgone | ⟨r', -, htidy⟩
  · have hnone := congrArg Place.file hgone
    rw [Store.place, hr] at hnone
    exact nomatch hnone
  · have hfile := htidy.file
    rw [Store.place, hr] at hfile
    obtain rfl := RecordFile.written.inj (Option.some.inj hfile)
    exact htidy

/-- A crash leaves nothing of the snapshot, or what a removal goes through from, or neither. -/
inductive Left (locks : Bool) (s : Store) (a : Act) (p : Place) : Prop where
  | gone (clears : s.Clears a) (place : p = .gone)
  | tidy (clears : ¬ s.Clears a) (whole : s.Whole locks a) (place : p.Tidy a.record)
  | half (clears : ¬ s.Clears a) (whole : ¬ s.Whole locks a) (readable : a.readable)
      (file : p.file = some (.written a.record)) (removable : p.removable a.record = false)
  | unread (clears : ¬ s.Clears a) (whole : ¬ s.Whole locks a) (readable : ¬ a.readable)
      (file : p.file = some .unfinished)

theorem createdPlace_left (locks : Bool) (s : Store) (r : SnapshotRecord) (n : ℕ) :
    Left locks s (.create r n) (createdPlace locks r n) := by
  match n with
  | 0 => exact .gone rfl rfl
  | 1 =>
    refine .unread (fun h => nomatch h) (fun h => h.1 rfl) (fun h => h rfl) rfl
  | 2 =>
    refine .tidy (fun h => nomatch h) ⟨by decide, by decide, fun _ => by decide⟩ ⟨rfl, rfl⟩
  | 3 =>
    cases locks with
    | false =>
      refine .tidy (fun h => nomatch h) ⟨by decide, by decide, fun h => nomatch h⟩ ⟨rfl, rfl⟩
    | true => exact .half (fun h => nomatch h) (fun h => (h.2.2 rfl).1 rfl) (fun h => nomatch h) rfl rfl
  | 4 =>
    exact .half (fun h => nomatch h) (fun h => h.2.1 rfl) (fun h => nomatch h) rfl rfl
  | 5 =>
    cases locks with
    | false =>
      refine .tidy (fun h => nomatch h) ⟨by decide, by decide, fun h => nomatch h⟩ ⟨rfl, ?_⟩
      simp [createdPlace, Place.removable, wholeTree, Act.record]
    | true =>
      refine .half (fun h => nomatch h) (fun h => (h.2.2 rfl).2 rfl) (fun h => nomatch h) rfl ?_
      simp [createdPlace, Place.removable, wholeTree, Act.record]
  | n + 6 =>
    refine .tidy (fun h => nomatch h) ⟨?_, ?_, fun _ => ⟨?_, ?_⟩⟩ ⟨rfl, ?_⟩
    · omega
    · omega
    · omega
    · omega
    · simp [createdPlace, Place.removable, wholeTree, Act.record]

theorem removedPlace_left (locks : Bool) (hp : (s.place r.attemptId).Tidy r)
    (htree : (s.place r.attemptId).tree.isSome = true) (n : ℕ) :
    Left locks s (.remove r n) (removedPlace (s.place r.attemptId) n) := by
  have hlength : (removeSteps s r).length = 4 := by
    have hdisk : (s.repo.disk r.attemptId).isSome = true := htree
    rw [removeSteps, if_pos hdisk]
    rfl
  have hclears : s.Clears (.remove r n) ↔ 4 ≤ n := by rw [Store.Clears, hlength]
  obtain ⟨e, he⟩ := Option.isSome_iff_exists.mp htree
  -- A tree that a removal goes through from is registered at the commit.
  have hreg : (s.place r.attemptId).registration = some ⟨.detached r.commit, false⟩ := by
    have hremovable := hp.removable
    rw [Place.removable, he] at hremovable
    cases e with
    | other => exact nomatch hremovable
    | directory d =>
      cases hreg : (s.place r.attemptId).registration with
      | none =>
        rw [hreg] at hremovable
        exact nomatch hremovable
      | some reg =>
        rw [hreg] at hremovable
        dsimp only at hremovable
        rw [Bool.and_eq_true, decide_eq_true_eq] at hremovable
        rw [hremovable.2]
  match n with
  | 0 => exact .tidy (fun h => nomatch hclears.mp h) (fun _ => by decide) hp
  | 1 =>
    refine .half (fun h => ?_) (fun h => h htree rfl) trivial hp.file ?_
    · have := hclears.mp h
      omega
    · change Place.removable ⟨_, some halfTree, (s.place r.attemptId).registration⟩ r = false
      rw [hreg]
      rfl
  | 2 =>
    refine .tidy (fun h => ?_) (fun _ => by decide) ⟨hp.file, ?_⟩
    · have := hclears.mp h
      omega
    · change Place.removable ⟨_, none, (s.place r.attemptId).registration⟩ r = true
      rw [hreg]
      rfl
  | 3 =>
    refine .tidy (fun h => ?_) (fun _ => by decide) ⟨hp.file, rfl⟩
    have := hclears.mp h
    omega
  | n + 4 => exact .gone (hclears.mpr (by omega)) rfl

theorem clearedPlace_left (locks : Bool) (hp : (s.place r.attemptId).Tidy r)
    (htree : (s.place r.attemptId).tree = none) (n : ℕ) :
    Left locks s (.remove r n) (clearedPlace (s.place r.attemptId) n) := by
  have hdisk : s.repo.disk r.attemptId = none := htree
  have hwhole : s.Whole locks (.remove r n) := by
    intro h
    rw [hdisk] at h
    exact nomatch h
  have hlength : (removeSteps s r).length =
      if (s.place r.attemptId).registration.isSome then 2 else 1 := by
    rw [removeSteps, hdisk]
    change (List.append (if false = true then _ else
      if (s.place r.attemptId).registration.isSome = true then _ else _) _).length = _
    rw [if_neg Bool.false_ne_true]
    split <;> rfl
  match n with
  | 0 =>
    refine .tidy (fun h => ?_) hwhole hp
    rw [Store.Clears, hlength] at h
    split at h <;> exact nomatch h
  | 1 =>
    cases hreg : (s.place r.attemptId).registration with
    | none =>
      rw [hreg] at hlength
      refine .gone (le_of_eq hlength) ?_
      rw [clearedPlace, hreg]
      rfl
    | some reg =>
      rw [hreg] at hlength
      refine .tidy (fun h => ?_) hwhole ?_
      · rw [Store.Clears, hlength] at h
        exact absurd h (Nat.not_le.mpr Nat.one_lt_two)
      · rw [clearedPlace, hreg]
        refine ⟨hp.file, ?_⟩
        change Place.removable ⟨_, (s.place r.attemptId).tree, none⟩ r = true
        rw [htree]
        rfl
  | n + 2 =>
    refine .gone ?_ rfl
    rw [Store.Clears, hlength]
    split <;> omega

/-- **What a crash leaves of the snapshot it is about.** -/
theorem step_left (hs : s.Sound) (h : s.step locks a = some t) :
    Left locks s a (t.place a.record.attemptId) ∧
      ∀ id, id ≠ a.record.attemptId → t.place id = s.place id := by
  cases a with
  | create r n =>
    obtain ⟨hfree, ⟨⟩⟩ := Option.ite_none_right_eq_some.mp h
    have hgone : s.place r.attemptId = .gone := by
      rcases hs r.attemptId with hgone | ⟨r', -, htidy⟩
      · exact hgone
      · have hfile := htidy.file
        rw [Store.place, hfree] at hfile
        exact nomatch hfile
    refine ⟨?_, fun id hid => create_place_ne locks n s hid⟩
    change Left locks s _ ((createReadOnlySnapshot locks r n s).1.place r.attemptId)
    rw [create_place locks hgone]
    exact createdPlace_left locks s r n
  | remove r n =>
    obtain ⟨hfile, ⟨⟩⟩ := Option.ite_none_right_eq_some.mp h
    have htidy := hs.tidy hfile
    refine ⟨?_, fun id hid => remove_place_ne n s hid⟩
    change Left locks s _ ((removeReadOnlySnapshot r n s).1.place r.attemptId)
    cases htree : (s.place r.attemptId).tree with
    | none =>
      rw [(remove_treeless rfl htree htidy.removable n).1]
      exact clearedPlace_left locks htidy htree n
    | some e =>
      have hp : (s.place r.attemptId).tree.isSome = true := by
        rw [htree]
        rfl
      rw [(remove_mounted rfl hp htidy.removable n).1]
      exact removedPlace_left locks htidy hp n

theorem step_own (h : s.step locks a = some t)
    (hr : get a.record.attemptId s.files = some (.written r)) : r = a.record := by
  cases a with
  | create r' n =>
    obtain ⟨hfree, -⟩ := Option.ite_none_right_eq_some.mp h
    rw [show get r'.attemptId s.files = _ from hr] at hfree
    exact nomatch hfree
  | remove r' n =>
    obtain ⟨hfile, -⟩ := Option.ite_none_right_eq_some.mp h
    rw [show get r'.attemptId s.files = _ from hr] at hfile
    exact RecordFile.written.inj (Option.some.inj hfile)

/-- A crash that leaves nothing half-made keeps every snapshot removable. -/
theorem step_sound (hs : s.Sound) (ha : s.Whole locks a ∨ s.Clears a)
    (h : s.step locks a = some t) : t.Sound := by
  obtain ⟨hleft, hother⟩ := step_left hs h
  intro id
  by_cases hid : id = a.record.attemptId
  · subst hid
    cases hleft with
    | gone _ place => exact Or.inl place
    | tidy _ _ place => exact Or.inr ⟨a.record, rfl, place⟩
    | half clears whole => exact absurd ha (not_or.mpr ⟨whole, clears⟩)
    | unread clears whole => exact absurd ha (not_or.mpr ⟨whole, clears⟩)
  · rw [hother id hid]
    exact hs id

theorem start_sound (refs : JsString → Option JsString) (main : Head JsString JsString) :
    (start refs main).Sound := fun _ => Or.inl rfl

/-- **The removal of a run's snapshots succeeds from a sound store.** -/
theorem Store.Sound.absent (hs : s.Sound) (runId : JsString) :
    (removeRunSnapshots runId s).2 = .absent :=
  removeRunSnapshots_iff.mpr ⟨hs.readable, fun _ hr _ => (hs.tidy hr).removable⟩

/-- A snapshot that is there is recovered exactly when start-up finds no earlier result and the
removal of the run's snapshots reports the workspace absent. -/
theorem recovers_iff {found : Option RunStatus}
    (hfile : (s.place r.attemptId).file ≠ none) :
    Recovers found s r ↔ recoveredStatus found = .cleanupBlocked ∧
      (removeRunSnapshots r.runId s).2 = .absent ∧
        (removeRunSnapshots r.runId s).1.place r.attemptId = .gone := by
  unfold Recovers reconcile
  by_cases hstatus : recoveredStatus found = .cleanupBlocked
  · simp only [hstatus, ne_eq, not_true_eq_false, if_false, true_and]
    constructor
    · intro h
      have habsent := h .absent (Or.inl rfl)
      rw [if_pos (Or.inl rfl)] at habsent
      exact habsent
    · intro h process hprocess
      rw [if_pos hprocess]
      exact h
  · simp only [hstatus, ne_eq, not_false_eq_true, if_true, false_and, iff_false]
    intro h
    obtain ⟨-, hgone⟩ := h .absent (Or.inl rfl)
    rw [hgone] at hfile
    exact hfile rfl

/-- **After a crash its snapshot is recovered exactly when nothing of it is left, or the crash has
left nothing half-made and start-up finds no earlier result.** -/
theorem step_recovers (hs : s.Sound) (h : s.step locks a = some t) (found : Option RunStatus) :
    Recovers found t a.record ↔
      s.Clears a ∨ recoveredStatus found = .cleanupBlocked ∧ s.Whole locks a := by
  have hleft := (step_left hs h).1
  cases hleft with
  | gone clears place =>
    refine iff_of_true (fun process hprocess => ?_) (Or.inl clears)
    have ht := step_sound hs (Or.inr clears) h
    unfold reconcile
    split_ifs
    · exact ⟨rfl, place⟩
    · refine ⟨ht.absent _, ?_⟩
      rw [removeRunSnapshots_others, place]
      rintro ⟨r, hr, -⟩
      have hfile := congrArg Place.file place
      rw [Store.place, hr] at hfile
      exact nomatch hfile
  | tidy clears whole place =>
    have ht := step_sound hs (Or.inl whole) h
    rw [recovers_iff (by rw [place.file]; exact Option.some_ne_none _), or_iff_right clears]
    refine and_congr_right fun _ => iff_of_true ⟨ht.absent _, ?_⟩ whole
    exact removeRunSnapshots_gone (ht.absent _) place.file rfl
  | half clears whole readable file removable =>
    rw [recovers_iff (by rw [file]; exact Option.some_ne_none _), or_iff_right clears]
    refine and_congr_right fun _ => iff_of_false (fun habsent => ?_) whole
    have hremovable := (removeRunSnapshots_iff.mp habsent.1).2 a.record file rfl
    rw [removable] at hremovable
    exact nomatch hremovable
  | unread clears whole readable file =>
    rw [recovers_iff (by rw [file]; exact Option.some_ne_none _), or_iff_right clears]
    refine and_congr_right fun _ => iff_of_false (fun habsent => ?_) whole
    obtain ⟨r, -, hr⟩ := (removeRunSnapshots_iff.mp habsent.1).1 _ _ file
    exact nomatch hr

/-- **A crash changes nothing for another run exactly when it does not leave a record without its
text.** -/
theorem step_isolated (hs : s.Sound) (h : s.step locks a = some t) (hrun : runId ≠ a.record.runId) :
    Isolated s t runId ↔ a.readable := by
  obtain ⟨hleft, hother⟩ := step_left hs h
  constructor
  · intro hisolated
    by_contra hread
    have habsent := hisolated.report.trans (hs.absent runId)
    cases hleft with
    | gone clears => cases a with
      | create r n => exact hread (fun hn => by rw [Store.Clears, hn] at clears; exact nomatch clears)
      | remove r n => exact hread trivial
    | tidy _ whole => cases a with
      | create r n => exact hread whole.1
      | remove r n => exact hread trivial
    | half _ _ readable => exact hread readable
    | unread _ _ _ file =>
      obtain ⟨r, -, hr⟩ := (removeRunSnapshots_iff.mp habsent).1 _ _ file
      exact nomatch hr
  · intro hread
    -- What the crash leaves is not the other run's.
    have hmine (r : SnapshotRecord) (hr : get a.record.attemptId t.files = some (.written r)) :
        r = a.record := by
      have hfile : (t.place a.record.attemptId).file = some (.written r) := hr
      cases hleft with
      | gone _ place =>
        rw [place] at hfile
        exact nomatch hfile
      | tidy _ _ place =>
        rw [place.file] at hfile
        exact (RecordFile.written.inj (Option.some.inj hfile)).symm
      | half _ _ _ file =>
        rw [file] at hfile
        exact (RecordFile.written.inj (Option.some.inj hfile)).symm
      | unread _ _ readable => exact absurd hread readable
    have hfiles (id : JsString) (hid : id ≠ a.record.attemptId) :
        get id t.files = get id s.files := congrArg Place.file (hother id hid)
    have hreadable : t.Readable := by
      intro id f hf
      by_cases hid : id = a.record.attemptId
      · subst hid
        have hfile : (t.place a.record.attemptId).file = some f := hf
        cases hleft with
        | gone _ place =>
          rw [place] at hfile
          exact nomatch hfile
        | tidy _ _ place =>
          rw [place.file] at hfile
          exact ⟨a.record, rfl, (Option.some.inj hfile).symm⟩
        | half _ _ _ file =>
          rw [file] at hfile
          exact ⟨a.record, rfl, (Option.some.inj hfile).symm⟩
        | unread _ _ readable => exact absurd hread readable
      · rw [hfiles id hid] at hf
        exact hs.readable id f hf
    have hothers {r : SnapshotRecord} {id : JsString} (hr : get id t.files = some (.written r))
        (hrun' : r.runId = runId) : id ≠ a.record.attemptId := by
      rintro rfl
      rw [hmine r hr] at hrun'
      exact hrun hrun'.symm
    have habsent : (removeRunSnapshots runId t).2 = .absent := by
      refine removeRunSnapshots_iff.mpr ⟨hreadable, fun r hr hrun' => ?_⟩
      have hid := hothers hr hrun'
      rw [hother _ hid]
      exact (hs.tidy ((hfiles _ hid).symm.trans hr)).removable
    refine ⟨habsent.trans (hs.absent runId).symm, fun id hid => ?_, fun id hid => ?_⟩
    · obtain ⟨r, hr, rfl⟩ := hid
      obtain ⟨r', rfl, he⟩ := hs.readable id _ hr
      obtain rfl := RecordFile.written.inj he
      have hne : r.attemptId ≠ a.record.attemptId := by
        intro he
        rw [he] at hr
        exact hrun (congrArg SnapshotRecord.runId (step_own h hr))
      rw [removeRunSnapshots_gone habsent ((hfiles _ hne).trans hr) rfl,
        removeRunSnapshots_gone (hs.absent _) hr rfl]
    · apply removeRunSnapshots_others
      rintro ⟨r, hr, hrun'⟩
      have hne := hothers hr hrun'
      exact hid ⟨r, (hfiles _ hne).symm.trans hr, hrun'⟩

/-- **When no crash leaves a record or a tree half-made, every snapshot that is there is recovered;
and of one more crash, its snapshot is recovered exactly when the crash leaves nothing of it, or
nothing half-made while start-up finds no earlier result, and another run is left alone exactly when
the crash does not leave a record without its text.** -/
theorem snapshots_recovered (locks : Bool) (refs : JsString → Option JsString)
    (main : Head JsString JsString) {acts : List Act} {s : Store}
    (h : exec (Store.step locks) (start refs main) acts = some s)
    (hok : Meets (Store.step locks) (Store.Whole locks) (start refs main) acts) :
    (∀ found r, recoveredStatus found = .cleanupBlocked →
      get r.attemptId s.files = some (.written r) → Recovers found s r) ∧
    ∀ a t, s.step locks a = some t →
      (∀ found, Recovers found t a.record ↔
        s.Clears a ∨ recoveredStatus found = .cleanupBlocked ∧ s.Whole locks a) ∧
      ∀ runId, runId ≠ a.record.runId → (Isolated s t runId ↔ a.readable) := by
  have hs : s.Sound := exec_invariant Store.Sound
    (fun _ _ _ hs ha ht => step_sound hs (Or.inl ha) ht) (start_sound refs main) hok h
  refine ⟨fun found r hfound hr => ?_, fun a t ht => ?_⟩
  · have hfile : (s.place r.attemptId).file = some (.written r) := hr
    rw [recovers_iff (by rw [hfile]; exact Option.some_ne_none _)]
    exact ⟨hfound, hs.absent _, removeRunSnapshots_gone (hs.absent _) hr rfl⟩
  · exact ⟨step_recovers hs ht, fun runId hrun => step_isolated hs ht hrun⟩

instance (locks : Bool) (s : Store) (a : Act) : Decidable (s.Whole locks a) :=
  match a with
  | .create _ n => inferInstanceAs (Decidable (n ≠ 1 ∧ n ≠ 4 ∧ _))
  | .remove _ n => inferInstanceAs (Decidable (_ → n ≠ 1))

/-- A snapshot of a run. -/
def snapshotOne : SnapshotRecord :=
  ⟨ofString "run_one", ofString "attempt_one", ofString "handoff"⟩

/-- A snapshot of another run. -/
def snapshotTwo : SnapshotRecord :=
  ⟨ofString "run_two", ofString "attempt_two", ofString "handoff"⟩

/-- One creation stops once its record is written, another is complete, and its removal stops once
the tree is gone. -/
theorem snapshots_recovered_two :
    ∃ s t, exec (Store.step false) (start (fun _ => none) (.detached []))
        [.create snapshotOne 2, .create snapshotTwo 6] = some s ∧
      s.step false (.remove snapshotTwo 2) = some t ∧ Recovers none s snapshotOne ∧
        Recovers none t snapshotTwo ∧ Isolated s t snapshotOne.runId := by
  have hs : (exec (Store.step false) (start (fun _ => none) (.detached []))
      [.create snapshotOne 2, .create snapshotTwo 6]).isSome = true := by decide +kernel
  obtain ⟨s, hs⟩ := Option.isSome_iff_exists.mp hs
  have hone : (exec (Store.step false) (start (fun _ => none) (.detached []))
      [.create snapshotOne 2, .create snapshotTwo 6]).any (fun s =>
        decide (get snapshotOne.attemptId s.files = some (.written snapshotOne))) = true := by
    decide +kernel
  have ht : ((exec (Store.step false) (start (fun _ => none) (.detached []))
      [.create snapshotOne 2, .create snapshotTwo 6]).bind
        fun s => s.step false (.remove snapshotTwo 2)).isSome = true := by decide +kernel
  rw [hs] at hone
  rw [hs, Option.bind_some] at ht
  obtain ⟨t, ht⟩ := Option.isSome_iff_exists.mp ht
  obtain ⟨hall, hcrash⟩ := snapshots_recovered false (fun _ => none) (.detached []) hs
    (by decide +kernel)
  obtain ⟨hrecovers, hisolated⟩ := hcrash (.remove snapshotTwo 2) t ht
  refine ⟨s, t, hs, ht, hall none _ rfl (of_decide_eq_true hone), ?_, ?_⟩
  · exact (hrecovers none).mpr (Or.inr ⟨rfl, fun _ => by decide⟩)
  · exact (hisolated _ (by decide)).mpr trivial

/-- **A crash between the creation of a record file and its text is never recovered, and hides the
snapshots of every other run.** -/
theorem snapshots_unread :
    ∃ t, (start (fun _ => none) (.detached [])).step false (.create snapshotOne 1) = some t ∧
      ¬ Recovers none t snapshotOne ∧
        (removeRunSnapshots snapshotTwo.runId t).2 = .unknown ∧
          (removeRunSnapshots snapshotTwo.runId (start (fun _ => none) (.detached []))).2 =
            .absent := by
  refine ⟨_, rfl, fun h => ?_, by decide +kernel, by decide +kernel⟩
  have hblocked := (h .notStarted (Or.inr rfl)).1
  revert hblocked
  decide +kernel

end Crashes

end Snapshots

end PiSubagent
