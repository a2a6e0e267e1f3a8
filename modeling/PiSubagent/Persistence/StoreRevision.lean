import PiSubagent.Contracts
import PiSubagent.Lib.OrderedMap
import PiSubagent.Lib.Runs
import Mathlib.Data.List.Sort

/-!
# The revision gate

`quarantineStaleState`, rename by rename. A store has entries in eleven directories; the files in
some of them are probed for the revision they declare.

* `Entry`, `Node`, `Store`: what is live, and what is in quarantine.
* `staleRun`, `staleAttempt`, `stale`: what an older file makes stale.
* `moves`: what the gate would move, each with the least revision found for it (**`mem_moves`**).
* `quarantineStaleState`, `died`: an invocation, and one that dies between two renames.
* `SafeCut`: what is stale behind the cut is so without what is moved before it.
* **`seen_exec`**: what the deaths of a run have left is seen exactly when all cuts were safe.
* **`quarantine_gated`**: newer files move nothing; otherwise, after invocations that died and one
  that finishes, the store is `Gated` exactly when the cuts were safe.
* **`quarantine_orphaned`**: an invocation dies behind the attempt records, and the session stays.
-/

namespace PiSubagent

open JsonText OrderedMap Runs

namespace StoreRevision

/-! ## The store -/

/-- The directories of a store. -/
inductive Directory where
  | runRecords | leases | runs | attemptRecords
  | sessions | worktreeRecords | worktrees | snapshotRecords | snapshotTrees
  | operations | pins
deriving DecidableEq, Repr

/-- Where the directory is. -/
def Directory.path : Directory → String
  | .runRecords => "run-records/"
  | .leases => "leases/"
  | .runs => "runs/"
  | .attemptRecords => "attempt-records/"
  | .sessions => "sessions/"
  | .worktreeRecords => "workspace/records/"
  | .worktrees => "workspace/worktrees/"
  | .snapshotRecords => "workspace/snapshots/records/"
  | .snapshotTrees => "workspace/snapshots/trees/"
  | .operations => "operations/"
  | .pins => "retention/pins/"

/-- What its names end with behind the identity. -/
def Directory.suffix : Directory → String
  | .runRecords | .worktreeRecords | .snapshotRecords | .operations | .pins => ".json"
  | .leases => ".lease.json"
  | .runs | .attemptRecords | .sessions | .worktrees | .snapshotTrees => ""

/-- The directories whose entries belong to a run, in the order they are probed. -/
def runDirectories : List Directory := [.runRecords, .leases, .runs, .attemptRecords]

/-- The directories whose entries belong to an attempt. -/
def attemptDirectories : List Directory :=
  [.sessions, .worktreeRecords, .worktrees, .snapshotRecords, .snapshotTrees]

/-- Those of them that are probed. -/
def attemptRecordDirectories : List Directory := [.worktreeRecords, .snapshotRecords]

/-- The directories whose entries belong to nothing else. -/
def looseDirectories : List Directory := [.operations, .pins]

/-- An entry that is moved whole: a file or a directory, of a run, an attempt, an operation or a
pin. -/
structure Entry where
  directory : Directory
  id : JsString
deriving DecidableEq, Repr

/-- The path in the store. -/
def Entry.relative (e : Entry) : JsString :=
  ofString e.directory.path ++ e.id ++ ofString e.directory.suffix

/-- The files of an entry that are probed, each with its identity and the revision it declares: the
file itself, the journal and the snapshot of a run, or the records of the attempts of a run. -/
structure Node where
  files : List (JsString × Option ℤ)
deriving DecidableEq, Repr

/-- A place in quarantine. -/
structure Place where
  revision : ℤ
  path : JsString
deriving DecidableEq, Repr

/-- A store; there is one entry at a path. -/
structure Store where
  live : List (Entry × Node)
  quarantine : List (Place × Node)
  live_nodup : (keys live).Nodup
  quarantine_nodup : (keys quarantine).Nodup

/-- `CONTRACT_REVISION`. -/
def currentRevision : ℤ := contractRevision

/-- Some file of the entry declares an older revision. -/
def Node.older (node : Node) : Bool :=
  node.files.any fun file => file.2.any fun revision => revision < currentRevision

namespace Store

variable (s : Store)

/-- Some probed file of the run declares an older revision. -/
def staleRun (runId : JsString) : Bool :=
  s.live.any fun f => f.1.directory ∈ runDirectories ∧ f.1.id = runId ∧ f.2.older = true

/-- Some probed file of the attempt declares an older revision, or a stale run has a record of
it. -/
def staleAttempt (attemptId : JsString) : Bool :=
  (s.live.any fun f => f.1.directory ∈ attemptRecordDirectories ∧ f.1.id = attemptId ∧
    f.2.older = true) ||
  s.live.any fun f => f.1.directory = .attemptRecords ∧ s.staleRun f.1.id = true ∧
    attemptId ∈ f.2.files.map Prod.fst

/-- The entry is that of a stale run or attempt, or an older file itself. -/
def stale (e : Entry) : Bool :=
  if e.directory ∈ runDirectories then s.staleRun e.id
  else if e.directory ∈ attemptDirectories then s.staleAttempt e.id
  else s.live.any fun f => f.1 = e ∧ f.2.older = true

/-! ## Probing -/

/-- The entries of a directory, by their names. -/
def entries (directory : Directory) : List (Entry × Node) :=
  (s.live.filter fun f => f.1.directory = directory).insertionSort
    fun f g => ¬ g.1.relative < f.1.relative

/-- The revisions that the files of some directories declare. -/
def probed (directories : List Directory) : List (Entry × ℤ) :=
  directories.flatMap fun directory => (s.entries directory).flatMap fun f =>
    f.2.files.filterMap fun file => file.2.map fun revision => (f.1, revision)

/-- The least revision of every run. -/
def runs : List (JsString × ℤ) :=
  least [] ((s.probed runDirectories).map fun found => (found.1.id, found.2))

/-- The least revision of every attempt. -/
def attempts : List (JsString × ℤ) :=
  least [] ((s.probed attemptRecordDirectories).map fun found => (found.1.id, found.2))

/-- The revisions of operations and pins. -/
def loose : List (Entry × ℤ) := s.probed looseDirectories

/-- The newest revision found, or that of the build. -/
def newest : ℤ :=
  (s.probed (runDirectories ++ attemptRecordDirectories ++ looseDirectories)).foldl
    (fun newest found => max newest found.2) currentRevision

/-- `attemptIdsOf`. -/
def attemptIdsOf (runId : JsString) : List JsString :=
  match get ⟨.attemptRecords, runId⟩ s.live with
  | some node => node.files.map Prod.fst
  | none => []

/-! ## What is moved -/

/-- The runs with an older revision. -/
def staleRuns : List (JsString × ℤ) := s.runs.filter fun run => run.2 < currentRevision

/-- The attempts with an older revision, and those that stale runs have records of. -/
def staleAttempts : List (JsString × ℤ) :=
  s.staleRuns.foldl
    (fun found run => (s.attemptIdsOf run.1).foldl (fun m attemptId => set attemptId run.2 m) found)
    (s.attempts.filter fun attempt => attempt.2 < currentRevision)

/-- Everything that is added to the moves, with its revision. -/
def added : List (Entry × ℤ) :=
  (s.staleRuns.flatMap fun run => runDirectories.map fun directory => (⟨directory, run.1⟩, run.2)) ++
  (s.staleAttempts.flatMap fun attempt =>
    attemptDirectories.map fun directory => (⟨directory, attempt.1⟩, attempt.2)) ++
  s.loose.filter fun found => found.2 < currentRevision

/-- The moves by their paths. -/
def moves : List (Entry × ℤ) :=
  (addAll [] s.added).insertionSort fun a b => ¬ b.1.relative < a.1.relative

/-! ## Moving -/

/-- The places of an entry in quarantine, in the order they are tried. -/
def placesOf (e : Entry) (revision : ℤ) : List Place :=
  ⟨revision, e.relative⟩ :: (List.range 998).map fun ordinal =>
    ⟨revision, e.relative ++ ofString "." ++ ofString (toString (ordinal + 2))⟩

/-- `destination`; `none` when it is exhausted. -/
def destination (e : Entry) (revision : ℤ) : Option Place :=
  (placesOf e revision).find? fun place => place ∉ keys s.quarantine

/-- `rename`: the entry is live no longer, and it is at a place that was free. -/
def rename (e : Entry) (node : Node) (place : Place) (h : place ∉ keys s.quarantine) : Store where
  live := s.live.filter fun f => f.1 ≠ e
  quarantine := s.quarantine ++ [(place, node)]
  live_nodup := (List.filter_sublist.map Prod.fst).nodup s.live_nodup
  quarantine_nodup := by
    unfold keys
    rw [List.map_append]
    refine List.Nodup.append s.quarantine_nodup (List.nodup_singleton _) ?_
    intro x hx hplace
    have hx' : x = place := List.mem_singleton.mp hplace
    exact h (hx' ▸ hx)

theorem destination_free {s : Store} {e : Entry} {revision : ℤ} {place : Place}
    (h : s.destination e revision = some place) : place ∉ keys s.quarantine := by
  have hfree := List.find?_some h
  simpa using hfree

end Store

/-- How the moves end. -/
structure Moved where
  store : Store
  moved : List Entry
  finished : Bool

/-- The loop over the moves. -/
def moveAll : List (Entry × ℤ) → Store → Moved
  | [], s => ⟨s, [], true⟩
  | m :: ms, s =>
    match get m.1 s.live with
    | none => moveAll ms s
    | some node =>
      match h : s.destination m.1 m.2 with
      | none => ⟨s, [], false⟩
      | some place =>
        let rest := moveAll ms (s.rename m.1 node place (Store.destination_free h))
        ⟨rest.store, m.1 :: rest.moved, rest.finished⟩

/-- How an invocation ends. -/
inductive Outcome where
  /-- `IncompatibleContractRevisionError`. -/
  | refused (newest : ℤ)
  | exhausted
  | finished (moved : List Entry)
deriving DecidableEq, Repr

/-- **`quarantineStaleState`.** -/
def quarantineStaleState (s : Store) : Store × Outcome :=
  if s.newest > currentRevision then (s, .refused s.newest)
  else
    let r := moveAll s.moves s
    (r.store, if r.finished then .finished r.moved else .exhausted)

/-- An invocation that dies between two of its renames, with some of the moves behind it. One that
finds a destination exhausted leaves what it would leave if it died there (`exhausted_died`). -/
def died (s : Store) (k : ℕ) : Option Store :=
  if s.newest > currentRevision then some s
  else
    let r := moveAll (s.moves.take k) s
    if r.finished then some r.store else none

/-- A store without some of its live entries. -/
def Store.without (s : Store) (gone : List Entry) : Store where
  live := s.live.filter fun f => f.1 ∉ gone
  quarantine := s.quarantine
  live_nodup := (List.filter_sublist.map Prod.fst).nodup s.live_nodup
  quarantine_nodup := s.quarantine_nodup

/-- What is stale in the one store and live in the other is stale in it too. -/
def Seen (s t : Store) : Prop := ∀ f ∈ t.live, s.stale f.1 = true → t.stale f.1 = true

instance (s t : Store) : Decidable (Seen s t) :=
  inferInstanceAs (Decidable (∀ f ∈ t.live, s.stale f.1 = true → t.stale f.1 = true))

/-- What is stale behind the cut is so without what is moved before it. -/
def SafeCut (s : Store) (k : ℕ) : Prop := Seen s (s.without (keys (s.moves.take k)))

instance (s : Store) (k : ℕ) : Decidable (SafeCut s k) :=
  inferInstanceAs (Decidable (Seen s (s.without (keys (s.moves.take k)))))

/-- Every entry is live, or it has been moved, once, to a place of its own in quarantine. -/
def Conserved (before after : Store) : Prop :=
  ∃ moved : List ((Entry × Node) × Place),
    before.live.Perm (after.live ++ moved.map Prod.fst) ∧
    after.quarantine = before.quarantine ++ moved.map (fun m => (m.2, m.1.2)) ∧
    ∀ m ∈ moved, ∃ revision, m.2 ∈ Store.placesOf m.1.1 revision

/-- What the gate promises: nothing stale is live, what is not stale is where it was, every moved
entry is in quarantine exactly once, and the next invocation finds nothing to do. -/
structure Gated (before after : Store) : Prop where
  cleared : ∀ f ∈ after.live, before.stale f.1 = false
  untouched : ∀ f ∈ before.live, before.stale f.1 = false → f ∈ after.live
  conserved : Conserved before after
  again : quarantineStaleState after = (after, .finished [])

/-! ## What is probed -/

namespace Store

variable {s t : Store}

theorem older_iff (node : Node) :
    node.older = true ↔ ∃ file ∈ node.files, ∃ revision, file.2 = some revision ∧
      revision < currentRevision := by
  simp only [Node.older, List.any_eq_true, Option.any_eq_true, decide_eq_true_eq]

theorem mem_entries (directory : Directory) (f : Entry × Node) :
    f ∈ s.entries directory ↔ f ∈ s.live ∧ f.1.directory = directory := by
  unfold entries
  rw [List.mem_insertionSort, List.mem_filter, decide_eq_true_eq]

theorem mem_probed (directories : List Directory) (found : Entry × ℤ) :
    found ∈ s.probed directories ↔ found.1.directory ∈ directories ∧
      ∃ node, (found.1, node) ∈ s.live ∧ ∃ file ∈ node.files, file.2 = some found.2 := by
  simp only [probed, List.mem_flatMap, List.mem_filterMap, Option.map_eq_some_iff, mem_entries]
  constructor
  · rintro ⟨directory, hd, f, ⟨hf, rfl⟩, file, hfile, revision, hr, rfl⟩
    exact ⟨hd, f.2, hf, file, hfile, hr⟩
  · rintro ⟨hd, node, hf, file, hfile, hr⟩
    exact ⟨_, hd, (found.1, node), ⟨hf, rfl⟩, file, hfile, found.2, hr, rfl⟩

theorem older_probed (directories : List Directory) (id : JsString) :
    (∃ found ∈ (s.probed directories).map fun found => (found.1.id, found.2),
        found.1 = id ∧ found.2 < currentRevision) ↔
      (s.live.any fun f => f.1.directory ∈ directories ∧ f.1.id = id ∧ f.2.older = true) =
        true := by
  simp only [List.any_eq_true, decide_eq_true_eq, older_iff]
  constructor
  · rintro ⟨_, hmap, hid, hlt⟩
    obtain ⟨found, hfound, rfl⟩ := List.mem_map.mp hmap
    obtain ⟨hd, node, hf, file, hfile, hr⟩ := (mem_probed _ _).mp hfound
    exact ⟨(found.1, node), hf, hd, hid, file, hfile, found.2, hr, hlt⟩
  · rintro ⟨f, hf, hd, hid, file, hfile, revision, hr, hlt⟩
    have hfound : (f.1, revision) ∈ s.probed directories :=
      (mem_probed _ _).mpr ⟨hd, f.2, hf, file, hfile, hr⟩
    exact ⟨(f.1.id, revision), List.mem_map.mpr ⟨_, hfound, rfl⟩, hid, hlt⟩

/-- **Something newer is found exactly when a probed file is newer.** -/
theorem newest_gt :
    s.newest > currentRevision ↔ ∃ found ∈
      s.probed (runDirectories ++ attemptRecordDirectories ++ looseDirectories),
        found.2 > currentRevision := by
  have hfold : ∀ (l : List (Entry × ℤ)) (n : ℤ),
      l.foldl (fun newest found => max newest found.2) n > currentRevision ↔
        n > currentRevision ∨ ∃ found ∈ l, found.2 > currentRevision := by
    intro l
    induction l with
    | nil => simp
    | cons found l ih =>
      intro n
      rw [List.foldl_cons, ih]
      simp only [gt_iff_lt, lt_max_iff, List.mem_cons, exists_eq_or_imp, or_assoc]
  unfold newest
  rw [hfold]
  exact or_iff_right (lt_irrefl _)

/-! ## What is moved -/

theorem mem_attemptIdsOf (runId attemptId : JsString) :
    attemptId ∈ s.attemptIdsOf runId ↔ ∃ f ∈ s.live, f.1 = ⟨.attemptRecords, runId⟩ ∧
      attemptId ∈ f.2.files.map Prod.fst := by
  unfold attemptIdsOf
  cases hget : get ⟨.attemptRecords, runId⟩ s.live with
  | none =>
    constructor
    · intro h
      cases h
    · rintro ⟨f, hf, he, -⟩
      have hsome := get_of_mem s.live_nodup (k := f.1) (v := f.2) hf
      rw [he, hget] at hsome
      cases hsome
  | some node =>
    constructor
    · intro h
      exact ⟨_, mem_of_get hget, rfl, h⟩
    · rintro ⟨f, hf, he, h⟩
      have hsome := get_of_mem s.live_nodup (k := f.1) (v := f.2) hf
      rw [he, hget] at hsome
      cases hsome
      exact h

theorem mem_staleRuns (runId : JsString) : runId ∈ keys s.staleRuns ↔ s.staleRun runId = true := by
  have hnodup : (keys s.runs).Nodup := nodup_least (m := []) List.nodup_nil _
  have hkeys := mem_keys_filter hnodup runId (fun revision => decide (revision < currentRevision))
  unfold staleRuns
  rw [hkeys]
  unfold runs staleRun
  simp only [decide_eq_true_eq]
  rw [least_lt, ← older_probed]
  simp [OrderedMap.get]

theorem mem_staleAttempts (attemptId : JsString) :
    attemptId ∈ keys s.staleAttempts ↔ s.staleAttempt attemptId = true := by
  have hnodup : (keys s.attempts).Nodup := nodup_least (m := []) List.nodup_nil _
  have hkeys := mem_keys_filter hnodup attemptId
    (fun revision => decide (revision < currentRevision))
  have hfold : ∀ (runs m : List (JsString × ℤ)),
      attemptId ∈ keys (runs.foldl (fun found run =>
          (s.attemptIdsOf run.1).foldl (fun m id => set id run.2 m) found) m) ↔
        (∃ runId ∈ keys runs, attemptId ∈ s.attemptIdsOf runId) ∨ attemptId ∈ keys m := by
    intro runs
    induction runs with
    | nil => simp [keys]
    | cons run runs ih =>
      intro m
      rw [List.foldl_cons, ih, mem_keys_setAll]
      simp only [keys, List.map_cons, List.mem_cons, exists_eq_or_imp]
      rw [or_left_comm, or_assoc]
  have hrecorded : (∃ runId ∈ keys s.staleRuns, attemptId ∈ s.attemptIdsOf runId) ↔
      (s.live.any fun f => f.1.directory = .attemptRecords ∧ s.staleRun f.1.id = true ∧
        attemptId ∈ f.2.files.map Prod.fst) = true := by
    simp only [List.any_eq_true, decide_eq_true_eq, mem_attemptIdsOf, mem_staleRuns]
    constructor
    · rintro ⟨runId, hrun, f, hf, he, hid⟩
      exact ⟨f, hf, by rw [he], by rwa [he], hid⟩
    · rintro ⟨f, hf, hd, hrun, hid⟩
      exact ⟨f.1.id, hrun, f, hf, by rw [← hd], hid⟩
  unfold staleAttempts
  rw [hfold, hkeys, hrecorded]
  unfold staleAttempt attempts
  simp only [decide_eq_true_eq]
  rw [least_lt, older_probed, Bool.or_eq_true]
  simp [OrderedMap.get, or_comm]

theorem mem_loose (e : Entry) :
    e ∈ keys (s.loose.filter fun found => found.2 < currentRevision) ↔
      e.directory ∈ looseDirectories ∧
        (s.live.any fun f => f.1 = e ∧ f.2.older = true) = true := by
  simp only [keys, loose, List.mem_map, List.mem_filter, mem_probed, List.any_eq_true,
    decide_eq_true_eq, older_iff]
  constructor
  · rintro ⟨found, ⟨⟨hd, node, hf, file, hfile, hr⟩, hlt⟩, rfl⟩
    exact ⟨hd, (found.1, node), hf, rfl, file, hfile, found.2, hr, hlt⟩
  · rintro ⟨hd, f, hf, rfl, file, hfile, revision, hr, hlt⟩
    exact ⟨(f.1, revision), ⟨⟨hd, f.2, hf, file, hfile, hr⟩, hlt⟩, rfl⟩

theorem mem_keys_entries (directories : List Directory) (found : List (JsString × ℤ)) (e : Entry) :
    e ∈ keys (found.flatMap fun f => directories.map fun directory =>
        ((⟨directory, f.1⟩ : Entry), f.2)) ↔
      e.directory ∈ directories ∧ e.id ∈ keys found := by
  simp only [keys, List.mem_map, List.mem_flatMap]
  constructor
  · rintro ⟨_, ⟨f, hf, directory, hd, rfl⟩, rfl⟩
    exact ⟨hd, f, hf, rfl⟩
  · rintro ⟨hd, f, hf, hid⟩
    refine ⟨_, ⟨f, hf, e.directory, hd, rfl⟩, ?_⟩
    rw [hid]

/-- **What is moved is what is stale.** -/
theorem mem_moves (e : Entry) : e ∈ keys s.moves ↔ s.stale e = true := by
  have hadded : e ∈ keys s.added ↔ s.stale e = true := by
    have hsplit : e ∈ keys s.added ↔
        (e.directory ∈ runDirectories ∧ s.staleRun e.id = true) ∨
        (e.directory ∈ attemptDirectories ∧ s.staleAttempt e.id = true) ∨
        (e.directory ∈ looseDirectories ∧
          (s.live.any fun f => f.1 = e ∧ f.2.older = true) = true) := by
      rw [← mem_staleRuns, ← mem_staleAttempts, ← mem_keys_entries, ← mem_keys_entries, ← mem_loose]
      simp only [keys, added, List.map_append, List.mem_append, or_assoc]
    rw [hsplit]
    unfold stale
    cases hd : e.directory <;>
      simp [runDirectories, attemptDirectories, looseDirectories]
  have hperm : (keys s.moves).Perm (keys (addAll [] s.added)) :=
    (List.perm_insertionSort _ _).map Prod.fst
  rw [hperm.mem_iff, mem_keys_addAll, hadded]
  simp [keys]

/-! ## Fewer entries -/

theorem staleRun_mono (h : t.live ⊆ s.live) {runId : JsString} (hrun : t.staleRun runId = true) :
    s.staleRun runId = true := by
  unfold staleRun at hrun ⊢
  rw [List.any_eq_true] at hrun ⊢
  exact hrun.imp fun f hf => ⟨h hf.1, hf.2⟩

theorem staleAttempt_mono (h : t.live ⊆ s.live) {attemptId : JsString}
    (ha : t.staleAttempt attemptId = true) : s.staleAttempt attemptId = true := by
  unfold staleAttempt at ha ⊢
  simp only [Bool.or_eq_true, List.any_eq_true, decide_eq_true_eq] at ha ⊢
  apply ha.imp
  · exact fun hrec => hrec.imp fun f hf => ⟨h hf.1, hf.2⟩
  · exact fun hrun => hrun.imp fun f hf => ⟨h hf.1, hf.2.1, staleRun_mono h hf.2.2.1, hf.2.2.2⟩

theorem stale_mono (h : t.live ⊆ s.live) {e : Entry} (he : t.stale e = true) :
    s.stale e = true := by
  unfold stale at he ⊢
  split
  · next hd =>
    rw [if_pos hd] at he
    exact staleRun_mono h he
  · next hd =>
    rw [if_neg hd] at he
    split
    · next ha =>
      rw [if_pos ha] at he
      exact staleAttempt_mono h he
    · next ha =>
      rw [if_neg ha, List.any_eq_true] at he
      exact List.any_eq_true.mpr (he.imp fun f hf => ⟨h hf.1, hf.2⟩)

theorem newest_mono (h : t.live ⊆ s.live) (hs : ¬ s.newest > currentRevision) :
    ¬ t.newest > currentRevision := by
  intro ht
  apply hs
  obtain ⟨found, hfound, hgt⟩ := newest_gt.mp ht
  obtain ⟨hd, node, hf, hfile⟩ := (mem_probed _ _).mp hfound
  exact newest_gt.mpr ⟨found, (mem_probed _ _).mpr ⟨hd, node, h hf, hfile⟩, hgt⟩

end Store

/-! ## What an invocation does -/

namespace Conserved

variable {s t u : Store}

theorem refl (s : Store) : Conserved s s :=
  ⟨[], by simp, by simp, by simp⟩

theorem trans (hst : Conserved s t) (htu : Conserved t u) : Conserved s u := by
  obtain ⟨first, hlive, hquarantine, hplaces⟩ := hst
  obtain ⟨second, hlive', hquarantine', hplaces'⟩ := htu
  refine ⟨first ++ second, ?_, ?_, ?_⟩
  · have hswap : ((u.live ++ second.map Prod.fst) ++ first.map Prod.fst).Perm
        (u.live ++ (first.map Prod.fst ++ second.map Prod.fst)) := by
      rw [List.append_assoc]
      exact List.Perm.append_left _ List.perm_append_comm
    rw [List.map_append]
    exact hlive.trans ((List.Perm.append_right _ hlive').trans hswap)
  · rw [hquarantine', hquarantine, List.map_append, List.append_assoc]
  · intro m hm
    exact (List.mem_append.mp hm).elim (hplaces m) (hplaces' m)

theorem rename {e : Entry} {node : Node} {revision : ℤ} {place : Place}
    (hget : get e s.live = some node) (h : s.destination e revision = some place) :
    Conserved s (s.rename e node place (Store.destination_free h)) := by
  refine ⟨[((e, node), place)], ?_, rfl, ?_⟩
  · exact perm_filter_ne s.live_nodup (mem_of_get hget)
  · intro m hm
    have hm' : m = ((e, node), place) := List.mem_singleton.mp hm
    rw [hm']
    exact ⟨revision, List.mem_of_find?_eq_some h⟩

end Conserved

/-- What moves do: they take named entries out of the live ones, all of those when they finish. -/
structure Took (ms : List (Entry × ℤ)) (s : Store) (r : Moved) : Prop where
  live : r.store.live = s.live.filter fun f => f.1 ∉ r.moved
  named : r.moved ⊆ keys ms
  complete : r.finished = true → ∀ e ∈ keys ms, e ∈ keys s.live → e ∈ r.moved
  conserved : Conserved s r.store

theorem moveAll_took (ms : List (Entry × ℤ)) (s : Store) : Took ms s (moveAll ms s) := by
  induction ms generalizing s with
  | nil =>
    refine ⟨?_, by simp [moveAll], by simp [keys], Conserved.refl s⟩
    simp [moveAll]
  | cons m ms ih =>
    unfold moveAll
    split
    · next hget =>
      -- the source is gone
      refine ⟨(ih s).live, ?_, ?_, (ih s).conserved⟩
      · exact fun e he => List.mem_cons_of_mem _ ((ih s).named he)
      · intro hfinished e he hlive
        apply (ih s).complete hfinished e _ hlive
        apply (List.mem_cons.mp he).resolve_left
        rintro rfl
        obtain ⟨node, hnode⟩ := (mem_keys_iff_get _ _).mp hlive
        rw [hget] at hnode
        cases hnode
    · next node hget =>
      split
      · -- the destination is exhausted
        refine ⟨?_, by simp, by simp, Conserved.refl s⟩
        simp
      · next place h =>
        have hrest := ih (s.rename m.1 node place (Store.destination_free h))
        refine ⟨?_, ?_, ?_, (Conserved.rename hget h).trans hrest.conserved⟩
        · dsimp only
          rw [hrest.live]
          unfold Store.rename
          simp only [List.filter_filter, List.mem_cons, not_or, Bool.decide_and, Bool.and_comm]
        · intro e he
          apply List.mem_cons.mpr
          exact (List.mem_cons.mp he).imp id fun he => hrest.named he
        · intro hfinished e he hlive
          by_cases hem : e = m.1
          · exact List.mem_cons.mpr (Or.inl hem)
          · apply List.mem_cons_of_mem
            apply hrest.complete hfinished e ((List.mem_cons.mp he).resolve_left hem)
            obtain ⟨f, hf, rfl⟩ := List.mem_map.mp hlive
            exact List.mem_map.mpr ⟨f, List.mem_filter.mpr ⟨hf, by simpa using hem⟩, rfl⟩

/-- Where nothing of what is to be moved is live, nothing is done. -/
theorem moveAll_idle (ms : List (Entry × ℤ)) (s : Store) (h : ∀ e ∈ keys ms, e ∉ keys s.live) :
    moveAll ms s = ⟨s, [], true⟩ := by
  induction ms with
  | nil => rfl
  | cons m ms ih =>
    have hget : get m.1 s.live = none := by
      apply Option.eq_none_iff_forall_ne_some.mpr
      intro node hnode
      exact h m.1 List.mem_cons_self ((mem_keys_iff_get _ _).mpr ⟨node, hnode⟩)
    unfold moveAll
    split
    · exact ih fun e he => h e (List.mem_cons_of_mem _ he)
    · next node hnode =>
      rw [hget] at hnode
      cases hnode

/-- Invocations take out nothing that is not stale. -/
structure Advanced (s t : Store) : Prop where
  subset : t.live ⊆ s.live
  untouched : ∀ f ∈ s.live, s.stale f.1 = false → f ∈ t.live
  conserved : Conserved s t

namespace Advanced

variable {s t u : Store}

theorem refl (s : Store) : Advanced s s :=
  ⟨fun _ hf => hf, fun _ hf _ => hf, Conserved.refl s⟩

theorem not_stale (h : Advanced s t) {e : Entry} (he : s.stale e = false) : t.stale e = false := by
  by_contra hstale
  rw [Store.stale_mono h.subset (Bool.not_eq_false _ ▸ hstale)] at he
  cases he

theorem trans (hst : Advanced s t) (htu : Advanced t u) : Advanced s u where
  subset := fun _ hf => hst.subset (htu.subset hf)
  untouched := fun f hf he => htu.untouched f (hst.untouched f hf he) (hst.not_stale he)
  conserved := hst.conserved.trans htu.conserved

theorem moveAll {ms : List (Entry × ℤ)} (hms : keys ms ⊆ keys s.moves) :
    Advanced s (StoreRevision.moveAll ms s).store := by
  have htook := moveAll_took ms s
  refine ⟨?_, ?_, htook.conserved⟩
  · rw [htook.live]
    exact List.filter_subset_self _
  · intro f hf he
    rw [htook.live]
    apply List.mem_filter.mpr ⟨hf, _⟩
    rw [decide_eq_true_eq]
    intro hmoved
    rw [(Store.mem_moves _).mp (hms (htook.named hmoved))] at he
    cases he

theorem died {k : ℕ} (h : died s k = some t) : Advanced s t := by
  unfold StoreRevision.died at h
  split at h
  · cases h
    exact refl s
  · dsimp only at h
    split at h
    · cases h
      exact moveAll (List.map_subset _ (List.take_subset _ _))
    · cases h

theorem exec {cuts : List ℕ} (h : exec StoreRevision.died s cuts = some t) : Advanced s t :=
  exec_preserves (Advanced s) (fun _ _ _ hs hstep => hs.trans (died hstep)) (refl s) h

end Advanced

/-! ## Invocations that died -/

theorem exec_newer {s : Store} (h : s.newest > currentRevision) (cuts : List ℕ) :
    exec died s cuts = some s := by
  induction cuts with
  | nil => rfl
  | cons k cuts ih =>
    have hdied : died s k = some s := if_pos h
    rw [exec_cons, hdied]
    exact ih

/-- An invocation that died leaves everything but what is before the cut. -/
theorem died_live {s t : Store} {k : ℕ} (hs : ¬ s.newest > currentRevision)
    (h : died s k = some t) : t.live = (s.without (keys (s.moves.take k))).live := by
  unfold died at h
  rw [if_neg hs] at h
  dsimp only at h
  split at h
  · next hfinished =>
    cases h
    have htook := moveAll_took (s.moves.take k) s
    rw [htook.live]
    unfold Store.without
    apply List.filter_congr
    intro f hf
    simp only [decide_eq_decide, not_iff_not]
    constructor
    · exact fun hmoved => htook.named hmoved
    · exact fun he => htook.complete hfinished f.1 he (List.mem_map.mpr ⟨f, hf, rfl⟩)
  · cases h

/-- Moves that end at an exhausted destination are the moves before it. -/
theorem moveAll_exhausted (ms : List (Entry × ℤ)) (s : Store)
    (h : (moveAll ms s).finished = false) :
    ∃ k, (moveAll (ms.take k) s).store = (moveAll ms s).store ∧
      (moveAll (ms.take k) s).finished = true := by
  induction ms generalizing s with
  | nil => cases h
  | cons m ms ih =>
    cases hget : get m.1 s.live with
    | none =>
      have hskip : ∀ rest, moveAll (m :: rest) s = moveAll rest s := by
        intro rest
        rw [moveAll]
        split
        · rfl
        · next hnode =>
          rw [hget] at hnode
          cases hnode
      rw [hskip] at h ⊢
      obtain ⟨k, hk⟩ := ih s h
      refine ⟨k + 1, ?_⟩
      rw [List.take_succ_cons, hskip]
      exact hk
    | some node =>
      cases hplace : s.destination m.1 m.2 with
      | none =>
        refine ⟨0, ?_, rfl⟩
        rw [moveAll]
        simp only [hget]
        split
        · rfl
        · next hsome =>
          rw [hplace] at hsome
          cases hsome
      | some place =>
        have hmove : ∀ rest, moveAll (m :: rest) s =
            ⟨(moveAll rest (s.rename m.1 node place (Store.destination_free hplace))).store,
              m.1 :: (moveAll rest (s.rename m.1 node place (Store.destination_free hplace))).moved,
              (moveAll rest
                (s.rename m.1 node place (Store.destination_free hplace))).finished⟩ := by
          intro rest
          rw [moveAll]
          simp only [hget]
          split
          · next hnone =>
            rw [hplace] at hnone
            cases hnone
          · next place' hsome =>
            have hsame : place = place' := Option.some.inj (hplace.symm.trans hsome)
            subst hsame
            rfl
        rw [hmove] at h ⊢
        obtain ⟨k, hk⟩ := ih _ h
        refine ⟨k + 1, ?_⟩
        rw [List.take_succ_cons, hmove]
        exact hk

/-- **An invocation that finds a destination exhausted leaves what it would leave if it died
there.** -/
theorem exhausted_died {s s' : Store} (h : quarantineStaleState s = (s', .exhausted)) :
    ∃ k, died s k = some s' := by
  unfold quarantineStaleState at h
  split at h
  · next hnewer => simp at h
  · next hnewer =>
    simp only [Prod.mk.injEq] at h
    have hexhausted : (moveAll s.moves s).finished = false := by
      by_contra hfinished
      simp [hfinished] at h
    obtain ⟨k, hstore, hfinished⟩ := moveAll_exhausted s.moves s hexhausted
    refine ⟨k, ?_⟩
    unfold died
    rw [if_neg hnewer]
    simp only [hfinished, if_true, hstore, h.1]

theorem stale_congr {s t : Store} (h : s.live = t.live) (e : Entry) : s.stale e = t.stale e :=
  Bool.eq_iff_iff.mpr
    ⟨Store.stale_mono fun _ hf => h ▸ hf, Store.stale_mono fun _ hf => h ▸ hf⟩

theorem seen_died {s t : Store} {k : ℕ} (hs : ¬ s.newest > currentRevision)
    (h : died s k = some t) : Seen s t ↔ SafeCut s k := by
  have hlive := died_live hs h
  unfold SafeCut Seen
  rw [hlive]
  simp only [stale_congr hlive]

/-- **The cuts of a run were safe exactly when what was stale at the start and is left live is still
seen.** -/
theorem seen_exec {s t : Store} {cuts : List ℕ} (hs : ¬ s.newest > currentRevision)
    (h : exec died s cuts = some t) : Seen s t ↔ Meets died SafeCut s cuts := by
  induction cuts generalizing s with
  | nil =>
    cases h
    exact ⟨fun _ => trivial, fun _ _ _ he => he⟩
  | cons k cuts ih =>
    obtain ⟨u, hu, hrun⟩ := exec_cons_eq_some.mp h
    have hfirst := Advanced.died hu
    have hrest := Advanced.exec hrun
    rw [meets_cons hu, ← ih (Store.newest_mono hfirst.subset hs) hrun, ← seen_died hs hu]
    constructor
    · intro hseen
      constructor
      · -- what the first death hides stays where it is
        intro f hf he
        by_contra hhidden
        have hfalse := Bool.not_eq_true _ ▸ hhidden
        have hstale := hseen f (hrest.untouched f hf hfalse) he
        rw [hrest.not_stale hfalse] at hstale
        cases hstale
      · exact fun f hf he => hseen f hf (Store.stale_mono hfirst.subset he)
    · rintro ⟨hthere, hlater⟩ f hf he
      exact hlater f hf (hthere f (hrest.subset hf) he)

/-! ## The gate -/

theorem quarantineStaleState_finished {s s' : Store} {moved : List Entry}
    (h : quarantineStaleState s = (s', .finished moved)) :
    ¬ s.newest > currentRevision ∧ s' = (moveAll s.moves s).store ∧
      (moveAll s.moves s).finished = true := by
  unfold quarantineStaleState at h
  split at h
  · next hnewer => simp at h
  · next hnewer =>
    simp only [Prod.mk.injEq] at h
    refine ⟨hnewer, h.1.symm, ?_⟩
    by_contra hexhausted
    simp [hexhausted] at h

/-- **After an invocation that finishes nothing that it found stale is live, and the next one does
nothing.** -/
theorem finished_cleared {s s' : Store} {moved : List Entry}
    (h : quarantineStaleState s = (s', .finished moved)) :
    Advanced s s' ∧ (∀ f ∈ s'.live, s.stale f.1 = false) ∧
      quarantineStaleState s' = (s', .finished []) := by
  obtain ⟨hnewer, rfl, hfinished⟩ := quarantineStaleState_finished h
  have htook := moveAll_took s.moves s
  have hadvanced : Advanced s (moveAll s.moves s).store := Advanced.moveAll (List.Subset.refl _)
  have hcleared : ∀ f ∈ (moveAll s.moves s).store.live, s.stale f.1 = false := by
    intro f hf
    have hlive := hf
    rw [htook.live, List.mem_filter, decide_eq_true_eq] at hlive
    by_contra hstale
    apply hlive.2
    apply htook.complete hfinished
    · exact (Store.mem_moves _).mpr (Bool.not_eq_false _ ▸ hstale)
    · exact List.mem_map.mpr ⟨f, hlive.1, rfl⟩
  refine ⟨hadvanced, hcleared, ?_⟩
  have hidle : moveAll (moveAll s.moves s).store.moves (moveAll s.moves s).store =
      ⟨(moveAll s.moves s).store, [], true⟩ := by
    apply moveAll_idle
    intro e he hlive
    obtain ⟨f, hf, rfl⟩ := List.mem_map.mp hlive
    have hstale := Store.stale_mono hadvanced.subset ((Store.mem_moves _).mp he)
    rw [hcleared f hf] at hstale
    cases hstale
  unfold quarantineStaleState
  rw [if_neg (Store.newest_mono hadvanced.subset hnewer)]
  simp [hidle]

/-- **The revision gate.** Where a newer file is found nothing is moved, however many invocations
there are. Otherwise, after invocations that died and one that finishes, the gate has done what it
promises exactly when the cuts were safe. -/
theorem quarantine_gated (s₀ s : Store) (cuts : List ℕ) (hrun : exec died s₀ cuts = some s) :
    (s₀.newest > currentRevision →
      s = s₀ ∧ quarantineStaleState s = (s, .refused s₀.newest)) ∧
    (¬ s₀.newest > currentRevision → ∀ s' moved,
      quarantineStaleState s = (s', .finished moved) →
        (Gated s₀ s' ↔ Meets died SafeCut s₀ cuts)) := by
  constructor
  · intro hnewer
    have hsame : s = s₀ := Option.some.inj (hrun.symm.trans (exec_newer hnewer cuts))
    rw [hsame]
    exact ⟨rfl, if_pos hnewer⟩
  · intro holder s' moved hfinished
    obtain ⟨hlast, hcleared, hagain⟩ := finished_cleared hfinished
    have hall := (Advanced.exec hrun).trans hlast
    rw [← seen_exec holder hrun]
    constructor
    · intro hgated f hf he
      by_contra hhidden
      have hlive := hlast.untouched f hf (Bool.not_eq_true _ ▸ hhidden)
      rw [hgated.cleared f hlive] at he
      cases he
    · intro hseen
      refine ⟨?_, hall.untouched, hall.conserved, hagain⟩
      intro f hf
      by_contra hstale
      have hfound := hseen f (hlast.subset hf) (Bool.not_eq_false _ ▸ hstale)
      rw [hcleared f hf] at hfound
      cases hfound

/-- A run whose record and whose attempt record are older, and the session of the attempt. -/
def olderRun : Store where
  live := [(⟨.runRecords, ofString "r"⟩, ⟨[(ofString "r", some 12)]⟩),
    (⟨.attemptRecords, ofString "r"⟩, ⟨[(ofString "a", some 12)]⟩),
    (⟨.sessions, ofString "a"⟩, ⟨[]⟩)]
  quarantine := []
  live_nodup := by decide
  quarantine_nodup := List.nodup_nil

/-- Its worktree record is older too. -/
def olderWorktree : Store where
  live := olderRun.live ++ [(⟨.worktreeRecords, ofString "a"⟩, ⟨[(ofString "a", some 12)]⟩)]
  quarantine := []
  live_nodup := by decide
  quarantine_nodup := List.nodup_nil

/-- An invocation that dies behind the attempt records leaves the worktree record, which shows that
the session is stale. -/
theorem quarantine_gated_worktree : ∃ s s' moved, exec died olderWorktree [1] = some s ∧
    quarantineStaleState s = (s', .finished moved) ∧ Gated olderWorktree s' := by
  have heval : ((exec died olderWorktree [1]).any fun s =>
      (quarantineStaleState s).2 = .finished [⟨.runRecords, ofString "r"⟩,
        ⟨.sessions, ofString "a"⟩, ⟨.worktreeRecords, ofString "a"⟩]) = true := by
    decide +kernel
  obtain ⟨s, hrun, hs⟩ := (Option.any_eq_true _ _).mp heval
  refine ⟨s, _, _, hrun, Prod.ext rfl (of_decide_eq_true hs), ?_⟩
  have hgated := (quarantine_gated olderWorktree s [1] hrun).2 (by decide +kernel) _ _
    (Prod.ext rfl (of_decide_eq_true hs))
  exact hgated.mpr (by decide +kernel)

/-- **An invocation dies behind the attempt records, and no later one finds the session.** -/
theorem quarantine_orphaned : ¬ ∀ (s₀ s : Store) (cuts : List ℕ),
    ¬ s₀.newest > currentRevision → exec died s₀ cuts = some s → ∀ s' moved,
      quarantineStaleState s = (s', .finished moved) → Gated s₀ s' := by
  intro h
  have heval : ((exec died olderRun [1]).any fun s =>
      (quarantineStaleState s).2 = .finished [⟨.runRecords, ofString "r"⟩] ∧
      (⟨.sessions, ofString "a"⟩, ⟨[]⟩) ∈ (quarantineStaleState s).1.live) = true := by
    decide +kernel
  obtain ⟨s, hrun, hs⟩ := (Option.any_eq_true _ _).mp heval
  obtain ⟨hfinished, hlive⟩ := of_decide_eq_true hs
  have hgated := h olderRun s [1] (by decide +kernel) hrun _ _ (Prod.ext rfl hfinished)
  have hstale : olderRun.stale ⟨.sessions, ofString "a"⟩ = true := by decide +kernel
  rw [hgated.cleared _ hlive] at hstale
  cases hstale

end StoreRevision

end PiSubagent
