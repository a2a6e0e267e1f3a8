import PiSubagent.Lib.Runs
import Mathlib.Logic.Function.Basic

/-!
# The lease of a run

`acquireRunLease`, `release`, the death of processes and the fenced writes of one run, step by step.
The operating system gives exclusive binds of the run's port, and frees it when its holder closes it
or dies.

* `Phase`, `Handle`: one call of `acquireRunLease` and the lease it returns.
* `WriteState`, `Write`: one fenced write and its calls of `assertCurrent`, which read the record
  first and look at the listener and the record later.
* `LeaseState.step`: any step of any seat.
-/

namespace PiSubagent

/-- `RunLeaseRecord`, as far as a lease is told by it. Identities number the records in the order
they are published. -/
structure LeaseRecord where
  leaseId : ℕ
  generation : ℕ
deriving DecidableEq, Repr

/-- How far a call of `acquireRunLease` is. -/
inductive Phase where
  | unused
  /-- The port is bound. -/
  | bound
  /-- The record has been read. -/
  | read (existing : Option LeaseRecord)
  /-- The new record has been renamed into place. -/
  | published (record : LeaseRecord)
  /-- The lease has been returned. -/
  | held (record : LeaseRecord)
  /-- The call has thrown, or its process has died. -/
  | gone
deriving DecidableEq, Repr

/-- The call still has to return. -/
def Phase.acquiring : Phase → Bool
  | .bound | .read _ | .published _ => true
  | _ => false

/-- A call of `acquireRunLease`: its seat, how far it is, and `server.listening`. -/
structure Handle where
  seat : ℕ
  phase : Phase
  listening : Bool
deriving DecidableEq, Repr

/-- The fenced writes. -/
inductive WriteKind where
  | journalAppend | snapshot | attemptRecord | artifactPut
deriving DecidableEq, Repr

/-- The calls of `assertCurrent` a write makes after its first. -/
def WriteKind.laterAssertions : WriteKind → ℕ
  | .journalAppend | .snapshot => 0
  | .attemptRecord => 2
  | .artifactPut => 1

/-- How far a write is. -/
inductive WriteState where
  /-- `assertCurrent` has to read the record; `later` more calls of it follow. -/
  | assert (later : ℕ)
  /-- `assertCurrent` has read the record and has to compare it. -/
  | check (later : ℕ) (seen : Option LeaseRecord)
  /-- The last `assertCurrent` has passed. -/
  | ready
  | done
deriving DecidableEq, Repr

/-- A write under a lease. -/
structure Write where
  handle : ℕ
  kind : WriteKind
  state : WriteState
deriving DecidableEq, Repr

/-- A write that has changed the run's files: under which lease, and the leases acquired by then. -/
structure Effect where
  kind : WriteKind
  lease : LeaseRecord
  acquired : List LeaseRecord
deriving DecidableEq, Repr

/-- Who holds the port: a call of `acquireRunLease`, or anything else. -/
inductive PortHolder where
  | lease (h : ℕ)
  | other
deriving DecidableEq, Repr

/-- The port, the record, all calls and writes, the records published since the record was last
removed, the leases acquired, and the writes that have changed the files. -/
structure LeaseState where
  port : Option PortHolder
  record : Option LeaseRecord
  handles : ℕ → Handle
  writes : ℕ → Write
  nextHandle : ℕ
  nextWrite : ℕ
  nextLease : ℕ
  published : List LeaseRecord
  acquired : List LeaseRecord
  effects : List Effect

/-- The steps of the seats and of the operating system. -/
inductive LeaseAct where
  /-- `acquireRunLease`: bind the port. -/
  | bind (seat : ℕ)
  /-- `acquireRunLease`: read the record. -/
  | readRecord (h : ℕ)
  /-- `acquireRunLease`: rename the new record into place. -/
  | publish (h : ℕ)
  /-- `acquireRunLease`: return the lease. -/
  | returnLease (h : ℕ)
  /-- `acquireRunLease`: throw and close the listener. -/
  | throw (h : ℕ)
  /-- `release`: close the listener. -/
  | release (h : ℕ)
  /-- The port of a closed listener is free. -/
  | freePort (h : ℕ)
  /-- The process of a seat dies. -/
  | die (seat : ℕ)
  | otherBind
  | otherFree
  /-- The record is moved away. -/
  | removeRecord
  /-- A write under a lease begins. -/
  | begin (h : ℕ) (kind : WriteKind)
  /-- A write takes its next step. -/
  | write (w : ℕ)
  /-- A write ends without any effect. -/
  | abandon (w : ℕ)
deriving DecidableEq, Repr

namespace LeaseState

variable (s : LeaseState)

/-- A call of `acquireRunLease` moves on. -/
def setHandle (h : ℕ) (v : Handle) : LeaseState :=
  { s with handles := Function.update s.handles h v }

/-- A write moves on. -/
def setWrite (w : ℕ) (v : WriteState) : LeaseState :=
  { s with writes := Function.update s.writes w { s.writes w with state := v } }

/-- The comparison in `assertCurrent`, given the record it has read. -/
def isCurrent (h : ℕ) (seen : Option LeaseRecord) : Bool :=
  match (s.handles h).phase with
  | .held record => (s.handles h).listening && decide (seen = some record)
  | _ => false

/-- The record `acquireRunLease` publishes, given the one it has read. -/
def nextRecord (existing : Option LeaseRecord) : LeaseRecord :=
  ⟨s.nextLease, (existing.map LeaseRecord.generation).getD 0 + 1⟩

/-- A call of `acquireRunLease` that the seat has made. -/
def ofSeat (seat h : ℕ) : Prop :=
  (s.handles h).phase ≠ .unused ∧ (s.handles h).seat = seat

instance (seat h : ℕ) : Decidable (s.ofSeat seat h) := by
  unfold ofSeat
  infer_instance

/-- The death of a seat: its listeners are closed, its writes end. -/
def die (seat : ℕ) : LeaseState :=
  { s with
    port := match s.port with
      | some (.lease h) => if s.ofSeat seat h then none else s.port
      | p => p
    handles := fun h => if s.ofSeat seat h then ⟨seat, .gone, false⟩ else s.handles h
    writes := fun w =>
      if s.ofSeat seat (s.writes w).handle then { s.writes w with state := .done }
      else s.writes w }

/-- The next step of a write. -/
def stepWrite (w : ℕ) : Option LeaseState :=
  match (s.writes w).state with
  | .assert later => some (s.setWrite w (.check later s.record))
  | .check later seen =>
    if s.isCurrent (s.writes w).handle seen then
      match later with
      | 0 => some (s.setWrite w .ready)
      | later + 1 => some (s.setWrite w (.assert later))
    else some (s.setWrite w .done)
  | .ready =>
    match (s.handles (s.writes w).handle).phase with
    | .held record =>
      some { s.setWrite w .done with
        effects := s.effects ++ [⟨(s.writes w).kind, record, s.acquired⟩] }
    | _ => none
  | .done => none

/-- One step; `none` when it cannot be taken. -/
def step (s : LeaseState) : LeaseAct → Option LeaseState
  | .bind seat =>
    match s.port with
    | some _ => none
    | none =>
      some { s.setHandle s.nextHandle ⟨seat, .bound, true⟩ with
        port := some (.lease s.nextHandle), nextHandle := s.nextHandle + 1 }
  | .readRecord h =>
    match (s.handles h).phase with
    | .bound => some (s.setHandle h { s.handles h with phase := .read s.record })
    | _ => none
  | .publish h =>
    match (s.handles h).phase with
    | .read existing =>
      some { s.setHandle h { s.handles h with phase := .published (s.nextRecord existing) } with
        record := some (s.nextRecord existing)
        nextLease := s.nextLease + 1
        published := s.published ++ [s.nextRecord existing] }
    | _ => none
  | .returnLease h =>
    match (s.handles h).phase with
    | .published record =>
      some { s.setHandle h { s.handles h with phase := .held record } with
        acquired := s.acquired ++ [record] }
    | _ => none
  | .throw h =>
    if (s.handles h).phase.acquiring then
      some (s.setHandle h ⟨(s.handles h).seat, .gone, false⟩)
    else none
  | .release h =>
    match (s.handles h).phase with
    | .held _ => some (s.setHandle h { s.handles h with listening := false })
    | _ => none
  | .freePort h =>
    if s.port = some (.lease h) ∧ (s.handles h).listening = false then some { s with port := none }
    else none
  | .die seat => some (s.die seat)
  | .otherBind => if s.port = none then some { s with port := some .other } else none
  | .otherFree => if s.port = some .other then some { s with port := none } else none
  | .removeRecord => some { s with record := none, published := [] }
  | .begin h kind =>
    match (s.handles h).phase with
    | .held _ =>
      some { s with
        writes := Function.update s.writes s.nextWrite ⟨h, kind, .assert kind.laterAssertions⟩
        nextWrite := s.nextWrite + 1 }
    | _ => none
  | .write w => s.stepWrite w
  | .abandon w => some (s.setWrite w .done)

/-- Before any call: whatever the record and the port are. -/
structure Initial : Prop where
  port : ∀ h, s.port ≠ some (.lease h)
  handles : ∀ h, (s.handles h).phase = .unused ∧ (s.handles h).listening = false
  writes : ∀ w, (s.writes w).state = .done
  published : s.published = []
  acquired : s.acquired = []
  effects : s.effects = []

end LeaseState

end PiSubagent
