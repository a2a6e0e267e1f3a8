import PiSubagent.Lib.Calls
import PiSubagent.Preflight.Compile

/-!
# The attempt records of a run

* `AttemptRecord`, `Directory`: the records of a run, the queues of the processes that make them, and
  the lease of the run.
* `list`, `latest`: the records as `AttemptRecordStore` reads them.
* `CreatePhase`, `moveCreate`: `AttemptRecordStore.create` between its awaits. Every step may fail.
* `LeasePhase`: a seat takes the lease of the run and releases it after its creations.
* `Chained`: ordinals from zero, the first record initial and without parent, every other one a retry
  or resume of the one before it. The store lists such records as they are (`Chained.list_eq`).
-/

namespace PiSubagent

open JsonText Calls

namespace AttemptRecords

open Preflight (AgentLaunchPlan Platform sortBy mem_sortBy)
open RunLife (AttemptKind)

/-! ## Records -/

/-- `AttemptRecord`, without the time of its creation. -/
structure RecordFields where
  ownerId : JsString
  runId : RunId
  attemptId : JsString
  ordinal : ℕ
  kind : AttemptKind
  parentAttemptId : Option JsString
  worktreeAttemptId : Option JsString
  plan : AgentLaunchPlan

/-- `AttemptRecord`. -/
structure AttemptRecord extends RecordFields where
  createdAt : JsString

/-- What the store takes from elsewhere: the schema of the record, which every time stamp fits, and
the size of its text. -/
structure StorePlatform extends Platform where
  fieldsValid : RecordFields → Bool
  recordBytes : AttemptRecord → ℕ

/-- `MAX_ATTEMPT_RECORD_BYTES`. -/
def maxAttemptRecordBytes : ℕ := 1024 * 1024

/-- The input of `create`; the lease is the call that acquired it. -/
structure CreateInput where
  ownerId : JsString
  plan : AgentLaunchPlan
  lease : ℕ
  ordinal : ℕ
  kind : AttemptKind
  parentAttemptId : Option JsString
  worktreeAttemptId : Option JsString

/-- The record of an input; an empty identity is left out. -/
def CreateInput.fields (i : CreateInput) : RecordFields where
  ownerId := i.ownerId
  runId := i.plan.runId
  attemptId := i.plan.attemptId
  ordinal := i.ordinal
  kind := i.kind
  parentAttemptId := i.parentAttemptId.filter (· ≠ [])
  worktreeAttemptId := i.worktreeAttemptId.filter (· ≠ [])
  plan := i.plan

/-- A stored record is that of the same creation: what `create` compares. -/
def RecordFields.matches (record : RecordFields) (existing : AttemptRecord) : Bool :=
  existing.ownerId = record.ownerId ∧
    existing.plan.identitySha256 = record.plan.identitySha256 ∧
      existing.ordinal = record.ordinal ∧ existing.kind = record.kind ∧
        existing.worktreeAttemptId = record.worktreeAttemptId

/-- Why a record is not created. -/
inductive Refusal where
  | leaseIdentity | invalid | conflict | initialLineage | lineage | bytes
  /-- `PersistenceCorruptionError`. -/
  | corrupt
deriving DecidableEq, Repr

/-- The text of a refusal; of a corrupt record, the one of its identity. -/
def Refusal.text : Refusal → String
  | .leaseIdentity => "attempt record lease identity mismatch"
  | .invalid => "invalid attempt record"
  | .conflict => "attempt record conflicts with existing identity"
  | .initialLineage => "invalid initial attempt lineage"
  | .lineage => "invalid attempt lineage"
  | .bytes => "attempt record exceeds byte limit"
  | .corrupt => "attempt record identity mismatch"

/-! ## The directory -/

/-- The lease of the run: the process that has it and the call that acquired it. -/
structure Lease where
  process : ℕ
  token : ℕ
deriving DecidableEq, Repr

/-- The directory of a run, its records in the order they were linked and the temporary files of
calls; of every process the calls of `create` in the order they came, with their leases; and the
lease of the run. -/
structure Directory where
  records : List AttemptRecord
  temporaries : List ℕ
  queues : ℕ → List (ℕ × ℕ)
  lease : Option Lease

/-- The record under the name of an attempt. -/
def Directory.find (s : Directory) (attemptId : JsString) : Option AttemptRecord :=
  s.records.find? fun x => x.attemptId = attemptId

section Store

variable (S : StorePlatform)

/-- `readPath` accepts a record. -/
def readable (x : AttemptRecord) : Bool :=
  S.recordBytes x ≤ maxAttemptRecordBytes ∧ S.fieldsValid x.toRecordFields = true ∧
    x.plan.runId.val = x.runId.val ∧ x.plan.attemptId = x.attemptId ∧ x.plan.ownerId = x.ownerId ∧
      S.verifyLaunchPlanIdentity x.plan = true

/-- `AttemptRecordStore.list`: by the names of the files, then by the ordinals. -/
def list (s : Directory) : Option (List AttemptRecord) :=
  if s.records.all (readable S) then
    some ((sortBy (fun x => x.attemptId ++ ofString ".json") s.records).insertionSort
      fun left right => left.ordinal ≤ right.ordinal)
  else none

/-- `AttemptRecordStore.latest`; `none` when a record cannot be read. -/
def latest (s : Directory) : Option (Option AttemptRecord) := (list S s).map List.getLast?

/-- What `create` says of a record that follows the latest one. -/
def lineageRefusal (latest : Option AttemptRecord) (record : RecordFields) : Option Refusal :=
  if record.kind = .initial then
    if latest.isSome ∨ record.ordinal ≠ 0 ∨ record.parentAttemptId ≠ none then
      some .initialLineage
    else none
  else
    match latest with
    | none => some .lineage
    | some latest =>
      if record.ordinal ≠ latest.ordinal + 1 ∨ record.parentAttemptId ≠ some latest.attemptId then
        some .lineage
      else none

/-! ## Creation -/

/-- How a call of `create` ends. -/
inductive Ending where
  | returned (record : AttemptRecord)
  | refused (why : Refusal)
  /-- `RunLeaseFencedError`. -/
  | fenced
  /-- A step of the file system has failed. -/
  | failed

/-- How far `create` is. -/
inductive CreatePhase where
  | called
  /-- It awaits the calls before it. -/
  | waiting
  /-- `assertCurrent` is next. -/
  | entered
  /-- The record is made, and the file under its name is read next. -/
  | made (record : AttemptRecord)
  /-- There is none; `assertCurrent` is next. -/
  | absent (record : AttemptRecord)
  /-- The latest record is read and the lineage checked next. -/
  | listing (record : AttemptRecord)
  /-- The temporary file is opened next. -/
  | validated (record : AttemptRecord)
  /-- It is written and synchronized next. -/
  | opened (record : AttemptRecord)
  /-- `assertCurrent` is next. -/
  | written (record : AttemptRecord)
  | linking (record : AttemptRecord)
  /-- The directory is synchronized next. -/
  | linked (record : AttemptRecord)
  /-- The temporary file is removed next; then the call ends so, or reads the existing record. -/
  | unlinking (record : AttemptRecord) (ending : Option Ending)
  | reread (record : AttemptRecord)
  | ended (ending : Ending)

/-- How far a seat is with the lease. -/
inductive LeasePhase where
  | acquiring | held | released | unavailable
deriving DecidableEq, Repr

/-- The calls on the directory; `before` is how many records were there when a creation was called,
which the code does not know. -/
inductive Phase where
  | lease (p : LeasePhase)
  | create (i : CreateInput) (before : ℕ) (p : CreatePhase)

/-- A step of the file system succeeds, or fails; the clock when it is read. -/
inductive Outcome where
  | ok (now : JsString)
  | fails

/-- The lease is the one that a call of a process has acquired. -/
def Directory.isCurrent (s : Directory) (process token : ℕ) : Bool :=
  s.lease = some ⟨process, token⟩

/-- The call of a process that awaits no other one. -/
def Directory.turn (s : Directory) (process : ℕ) : Option ℕ :=
  (s.queues process).head?.map Prod.fst

/-- A call awaits the calls of its process before it. -/
def Directory.enqueue (s : Directory) (process : ℕ) (e : ℕ × ℕ) : Directory :=
  { s with queues := Function.update s.queues process (s.queues process ++ [e]) }

/-- A call leaves the queue of its process. -/
def Directory.leave (s : Directory) (process c : ℕ) : Directory :=
  { s with queues := Function.update s.queues process ((s.queues process).filter (·.1 ≠ c)) }

/-- What `create` answers when the file under the name of its record is there. -/
def existingEnding (record existing : AttemptRecord) : Ending :=
  if readable S existing = false then .refused .corrupt
  else if record.toRecordFields.matches existing then .returned existing
  else .refused .conflict

/-- The next step of `create`. -/
def nextPhase (runId : RunId) (process c : ℕ) (i : CreateInput) :
    CreatePhase → Outcome → Directory → Option (Directory × CreatePhase)
  | .called, _, s =>
    if i.plan.runId.val ≠ runId.val then some (s, .ended (.refused .leaseIdentity))
    else some (s.enqueue process (c, i.lease), .waiting)
  | .waiting, _, s =>
    if s.turn process = some c then some (s, .entered) else none
  | .entered, .ok now, s =>
    if s.isCurrent process i.lease = false then some (s, .ended .fenced)
    else if S.fieldsValid i.fields = true ∧ S.verifyLaunchPlanIdentity i.plan = true then
      some (s, .made { toRecordFields := i.fields, createdAt := now })
    else some (s, .ended (.refused .invalid))
  | .made record, .ok _, s =>
    match s.find record.attemptId with
    | some existing => some (s, .ended (existingEnding S record existing))
    | none => some (s, .absent record)
  | .absent record, .ok _, s =>
    if s.isCurrent process i.lease = false then some (s, .ended .fenced)
    else some (s, .listing record)
  | .listing record, .ok _, s =>
    match latest S s with
    | none => some (s, .ended (.refused .corrupt))
    | some latest =>
      match lineageRefusal latest record.toRecordFields with
      | some why => some (s, .ended (.refused why))
      | none => some (s, .validated record)
  | .validated record, .ok _, s =>
    if S.recordBytes record > maxAttemptRecordBytes then some (s, .ended (.refused .bytes))
    else some ({ s with temporaries := c :: s.temporaries }, .opened record)
  | .opened record, .ok _, s => some (s, .written record)
  | .written record, .ok _, s =>
    if s.isCurrent process i.lease = false then some (s, .unlinking record (some .fenced))
    else some (s, .linking record)
  | .linking record, .ok _, s =>
    match s.find record.attemptId with
    | some _ => some (s, .unlinking record none)
    | none => some ({ s with records := s.records ++ [record] }, .linked record)
  | .linked record, .ok _, s => some (s, .unlinking record (some (.returned record)))
  | .written record, .fails, s | .linking record, .fails, s | .linked record, .fails, s =>
    some (s, .unlinking record (some .failed))
  | .unlinking record ending, .ok _, s =>
    some ({ s with temporaries := s.temporaries.filter (· ≠ c) },
      ending.elim (.reread record) .ended)
  | .reread record, .ok _, s =>
    match s.find record.attemptId with
    | some existing => some (s, .ended (existingEnding S record existing))
    | none => some (s, .ended .failed)
  | .ended _, _, _ => none
  | _, .fails, s => some (s, .ended .failed)

/-- `create`: with its end it leaves the queue. -/
def moveCreate (runId : RunId) (process c : ℕ) (i : CreateInput) (p : CreatePhase) (o : Outcome)
    (s : Directory) : Option (Directory × CreatePhase) :=
  (nextPhase S runId process c i p o s).map fun r =>
    match r.2 with
    | .ended ending => (r.1.leave process c, .ended ending)
    | next => (r.1, next)

/-- A seat acquires the lease when nobody has it, and releases it once the creations under it have
ended. -/
def moveLease (process c : ℕ) : LeasePhase → Directory → Option (Directory × LeasePhase)
  | .acquiring, s =>
    match s.lease with
    | none => some ({ s with lease := some ⟨process, c⟩ }, .held)
    | some _ => some (s, .unavailable)
  | .held, s =>
    if (s.queues process).all fun e => e.2 ≠ c then
      some ({ s with lease := if s.isCurrent process c then none else s.lease }, .released)
    else none
  | _, _ => none

/-- A step of a call. -/
def movePhase (runId : RunId) (process c : ℕ) (o : Outcome) :
    Phase → Directory → Option (Directory × Phase)
  | .lease p, s => (moveLease process c p s).map fun r => (r.1, .lease r.2)
  | .create i before p, s =>
    (moveCreate S runId process c i p o s).map fun r => (r.1, .create i before r.2)

/-- Where a call begins. A seat creates records of its owner's plans. -/
def entry (w : World Directory Phase) : Phase → Bool
  | .lease .acquiring => true
  | .create i before .called => before = w.shared.records.length ∧ i.ownerId = i.plan.ownerId
  | _ => false

/-- The calls of any seats on the directory of a run. With its process the lease is gone. -/
def program (runId : RunId) : Program Directory Phase Outcome Empty where
  entry w _ k := entry w k
  move _ process c o := movePhase S runId process c o
  free _ process s :=
    { s with lease := s.lease.filter fun lease => lease.process ≠ process }
  outside e _ := e.elim

/-- One step on the directory. -/
abbrev step (runId : RunId) := World.step (program S runId)

/-- One action on the directory. -/
abbrev Act := Calls.Act Phase Outcome Empty

/-- A run without attempts. -/
def emptyDirectory : Directory := ⟨[], [], fun _ => [], none⟩

/-! ## Chains -/

/-- A record follows another one. -/
def Follows (x y : AttemptRecord) : Prop :=
  y.ordinal = x.ordinal + 1 ∧ y.kind ≠ .initial ∧ y.parentAttemptId = some x.attemptId

/-- The first record is initial and without parent, and every other one follows the one before. -/
structure Chained (records : List AttemptRecord) : Prop where
  first : ∀ x ∈ records.head?, x.ordinal = 0 ∧ x.kind = .initial ∧ x.parentAttemptId = none
  next : records.IsChain Follows

theorem chained_nil : Chained [] := ⟨by simp, .nil⟩

theorem Chained.ordinal {records : List AttemptRecord} (h : Chained records) :
    ∀ (n : ℕ) (hn : n < records.length), records[n].ordinal = n := by
  intro n
  induction n with
  | zero =>
    intro hn
    exact (h.first _ (by rw [List.head?_eq_getElem?, List.getElem?_eq_getElem hn]; rfl)).1
  | succ n ih =>
    intro hn
    have hf := (List.isChain_iff_getElem.mp h.next) n hn
    rw [hf.1, ih (Nat.lt_of_succ_lt hn)]

theorem Chained.eq_of_ordinal {records : List AttemptRecord} (h : Chained records)
    {x y : AttemptRecord} (hx : x ∈ records) (hy : y ∈ records) (he : x.ordinal = y.ordinal) :
    x = y := by
  obtain ⟨n, hn, rfl⟩ := List.getElem_of_mem hx
  obtain ⟨m, hm, rfl⟩ := List.getElem_of_mem hy
  rw [h.ordinal n hn, h.ordinal m hm] at he
  subst he
  rfl

theorem Chained.sorted {records : List AttemptRecord} (h : Chained records) :
    records.Pairwise fun x y => x.ordinal ≤ y.ordinal := by
  refine List.pairwise_iff_getElem.mpr ?_
  intro i j hi hj hij
  rw [h.ordinal i hi, h.ordinal j hj]
  exact hij.le

theorem lineageRefusal_none {record : RecordFields} (h : lineageRefusal none record = none) :
    record.ordinal = 0 ∧ record.kind = .initial ∧ record.parentAttemptId = none := by
  unfold lineageRefusal at h
  split at h
  · next hk =>
    split at h
    · cases h
    · next hbad =>
      simp only [not_or, not_not] at hbad
      exact ⟨hbad.2.1, hk, hbad.2.2⟩
  · cases h

theorem lineageRefusal_some {last : AttemptRecord} {record : RecordFields}
    (h : lineageRefusal (some last) record = none) :
    record.ordinal = last.ordinal + 1 ∧ record.kind ≠ .initial ∧
      record.parentAttemptId = some last.attemptId := by
  unfold lineageRefusal at h
  split at h
  · split at h
    · cases h
    · next hbad => exact absurd (Or.inl rfl) hbad
  · next hk =>
    dsimp only at h
    split at h
    · cases h
    · next hbad =>
      simp only [not_or, not_not] at hbad
      exact ⟨hbad.1, hk, hbad.2⟩

theorem Chained.concat {records : List AttemptRecord} (h : Chained records) {x : AttemptRecord}
    (hx : lineageRefusal records.getLast? x.toRecordFields = none) : Chained (records ++ [x]) := by
  cases hl : records.getLast? with
  | none =>
    rw [hl] at hx
    rw [List.getLast?_eq_none_iff] at hl
    subst hl
    refine ⟨?_, .singleton x⟩
    intro y hy
    cases hy
    exact lineageRefusal_none hx
  | some last =>
    rw [hl] at hx
    refine ⟨?_, ?_⟩
    · intro y hy
      refine h.first y ?_
      cases records with
      | nil => cases hl
      | cons a rest => exact hy
    · refine List.isChain_append.mpr ⟨h.next, .singleton x, ?_⟩
      intro y hy z hz
      rw [hl] at hy
      cases hy
      cases hz
      exact lineageRefusal_some hx

variable {S} in
/-- **The store lists a readable chain as it is.** -/
theorem Chained.list_eq {s : Directory} (h : Chained s.records)
    (hr : ∀ x ∈ s.records, readable S x = true) : list S s = some s.records := by
  unfold list
  rw [if_pos (List.all_eq_true.mpr hr), Option.some_inj]
  have hperm : ((sortBy (fun x => x.attemptId ++ ofString ".json") s.records).insertionSort
      fun left right => left.ordinal ≤ right.ordinal).Perm s.records :=
    (List.perm_insertionSort _ _).trans (List.perm_insertionSort _ _)
  have hsorted : ((sortBy (fun x => x.attemptId ++ ofString ".json") s.records).insertionSort
      fun left right => left.ordinal ≤ right.ordinal).Pairwise
        fun x y => x.ordinal ≤ y.ordinal := List.pairwise_insertionSort _ _
  refine List.Perm.eq_of_pairwise ?_ hsorted h.sorted hperm
  intro x y hx hy hxy hyx
  exact h.eq_of_ordinal (hperm.mem_iff.mp hx) hy (le_antisymm hxy hyx)

end Store

end AttemptRecords

end PiSubagent
