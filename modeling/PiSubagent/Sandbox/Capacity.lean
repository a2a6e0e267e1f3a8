import PiSubagent.Contracts
import PiSubagent.Lib.Calls
import Mathlib.Data.Finset.Card

/-!
# VM capacity

The managers of one root and their leases, step by step. The operating system gives exclusive binds
of localhost ports, and frees a port when its holder closes it or dies. `policy.json` is created by
`link` of a complete file, so it is whole once it is there, and nobody replaces it.

* `Root`: the policy, the ports, the records of the slots, and the clock.
* `Phase`: a call of `createVmCapacityManager`, or a call of `acquire` and the lease it returns.
* `program`: the moves of every call; other programs bind and free ports from outside.
* `Kept`: opened managers agree, a slot is held once, its record names its holder.
* `holds_exec`: `Kept` in every state of every run.

The check of an owner's text is left out; an owner that fails it gets no further.
-/

namespace PiSubagent.Capacity

open Calls (Call World Program Outline)

def minDerivedPort : ℕ := 42000

def derivedPortSpan : ℕ := 20000

def initialPollMs : ℕ := 250

def maxPollMs : ℕ := 2000

/-- `VmCapacityPolicy`. -/
structure VmCapacityPolicy where
  maxSlots : ℕ
  basePort : ℕ
deriving DecidableEq, Repr

/-- `VmCapacityLeaseRecord`, with a lease id and an owner for each. -/
structure VmCapacityLeaseRecord where
  leaseId : ℕ
  owner : ℕ
  pid : ℕ
  slot : ℕ
  port : ℕ
  acquiredAt : ℕ
  releaseRequestedAt : Option ℕ
deriving DecidableEq, Repr

/-- Who listens on a port: a call of `acquire`, or another program. -/
inductive Listener where
  | acquire (call : ℕ)
  | other
deriving DecidableEq, Repr

/-- What the seats share: `policy.json` (`some none` when it is no policy of this schema), the ports,
`slot-<n>.json`, the clock, and the next draw of `randomUUID`. -/
structure Root where
  policy : Option (Option VmCapacityPolicy)
  ports : ℕ → Option Listener
  records : ℕ → Option VmCapacityLeaseRecord
  now : ℕ
  nextUuid : ℕ

/-- The options of `createVmCapacityManager`. -/
structure ManagerOptions where
  maxSlots : ℕ
  basePort : Option ℕ
  capacityWaitMs : ℕ
deriving DecidableEq, Repr

/-- `VmCapacityManager`. -/
structure VmCapacityManager where
  maxSlots : ℕ
  basePort : ℕ
  capacityWaitMs : ℕ
deriving DecidableEq, Repr

/-- `deriveBasePort`, from the first four bytes of the root's digest. -/
def deriveBasePort (digest : ℕ) : ℕ :=
  minDerivedPort + digest % (derivedPortSpan - maxSlots + 1)

/-- `validateMaxSlots` and `validateBasePort`. -/
def VmCapacityManager.valid (m : VmCapacityManager) : Bool :=
  1 ≤ m.maxSlots ∧ m.maxSlots ≤ PiSubagent.maxSlots ∧ 1024 ≤ m.basePort ∧
    m.basePort + m.maxSlots - 1 ≤ 65535

/-- How far `createVmCapacityManager` is. -/
inductive OpenPhase where
  | validate
  /-- The policy is in a temporary file; `link` is next. -/
  | link (m : VmCapacityManager)
  | read (m : VmCapacityManager)
  | opened (m : VmCapacityManager)
  | thrown
deriving DecidableEq, Repr

/-- The call of `acquire`: its manager and the call that opened it, its owner, its bound, and when it
began. -/
structure AcquireCall where
  opener : ℕ
  manager : VmCapacityManager
  owner : ℕ
  waitMs : ℕ
  startedAt : ℕ
deriving DecidableEq, Repr

/-- How far `acquire` is, and the lease it returns; `pass` counts the calls of `tryAcquire`. -/
inductive AcquirePhase where
  | start
  /-- The head of the loop. -/
  | loop (pass pollMs : ℕ)
  /-- `tryAcquire` listens on the port of the slot next. -/
  | probe (pass pollMs slot : ℕ)
  /-- The port of the slot is bound, and the record is not written. -/
  | bound (slot leaseId : ℕ)
  /-- `tryAcquire` has found every slot busy. -/
  | missed (pass pollMs : ℕ)
  | sleep (pass pollMs till : ℕ)
  /-- The lease has been returned. -/
  | held (record : VmCapacityLeaseRecord)
  /-- The release has been called; the record is written next. -/
  | releasing (record : VmCapacityLeaseRecord)
  /-- The port is closed next. -/
  | closing (slot : ℕ)
  | closed
  /-- `VmCapacityExhaustedError`. -/
  | exhausted (pass waitedMs : ℕ)
  | thrown
deriving DecidableEq, Repr

/-- The calls on the root. -/
inductive Phase where
  | create (options : ManagerOptions) (p : OpenPhase)
  | acquire (call : AcquireCall) (p : AcquirePhase)
deriving DecidableEq, Repr

/-- Whether a step of the file system or of the network succeeds; at the head of the loop and in a
sleep, whether the signal is aborted. -/
inductive Outcome where
  | ok | fails
deriving DecidableEq, Repr

/-- `createVmCapacityManager`. -/
def moveOpen (digest : ℕ) (o : ManagerOptions) (i : Outcome) :
    OpenPhase → Root → Option (Root × OpenPhase)
  | .validate, s =>
    let m := ⟨o.maxSlots, o.basePort.getD (deriveBasePort digest), o.capacityWaitMs⟩
    some (s, if VmCapacityManager.valid m then .link m else .thrown)
  | .link m, s =>
    match i with
    | .fails => some (s, .thrown)
    | .ok =>
      some ({ s with policy := some (s.policy.getD (some ⟨m.maxSlots, m.basePort⟩)) }, .read m)
  | .read m, s =>
    match i with
    | .fails => some (s, .thrown)
    | .ok =>
      some (s, if s.policy = some (some ⟨m.maxSlots, m.basePort⟩) then .opened m else .thrown)
  | .opened _, _ => none
  | .thrown, _ => none

/-- `acquire`, `tryAcquire` and the release of the lease, for a process and its call. -/
def moveAcquire (pid c : ℕ) (a : AcquireCall) (i : Outcome) :
    AcquirePhase → Root → Option (Root × AcquirePhase)
  | .start, s => some (s, .loop 0 initialPollMs)
  | .loop pass pollMs, s =>
    match i with
    | .fails => some (s, .thrown)
    | .ok => some (s, .probe (pass + 1) pollMs 0)
  | .probe pass pollMs slot, s =>
    if slot < a.manager.maxSlots then
      match i with
      | .fails => some (s, .thrown)
      | .ok =>
        match s.ports (a.manager.basePort + slot) with
        | some _ => some (s, .probe pass pollMs (slot + 1))
        | none =>
          some ({ s with
            ports := Function.update s.ports (a.manager.basePort + slot) (some (.acquire c))
            nextUuid := s.nextUuid + 1 }, .bound slot s.nextUuid)
    else some (s, .missed pass pollMs)
  | .bound slot leaseId, s =>
    match i with
    | .fails => some (s, .closing slot)
    | .ok =>
      let record := ⟨leaseId, a.owner, pid, slot, a.manager.basePort + slot, s.now, none⟩
      some ({ s with records := Function.update s.records slot (some record) }, .held record)
  | .missed pass pollMs, s =>
    if a.waitMs ≤ s.now - a.startedAt then some (s, .exhausted pass (s.now - a.startedAt))
    else
      some (s, .sleep pass (min maxPollMs (pollMs * 2))
        (s.now + min pollMs (a.waitMs - (s.now - a.startedAt))))
  | .sleep pass pollMs till, s =>
    match i with
    | .fails => some (s, .thrown)
    | .ok => if till ≤ s.now then some (s, .loop pass pollMs) else none
  | .held record, s => some (s, .releasing record)
  | .releasing record, s =>
    match i with
    | .fails => some (s, .closing record.slot)
    | .ok =>
      let record' := { record with releaseRequestedAt := some s.now }
      some ({ s with records := Function.update s.records record.slot (some record') },
        .closing record.slot)
  | .closing slot, s =>
    some ({ s with ports := Function.update s.ports (a.manager.basePort + slot) none }, .closed)
  | .closed, _ => none
  | .exhausted _ _, _ => none
  | .thrown, _ => none

/-- A move of any call. -/
def movePhase (digest pid c : ℕ) (i : Outcome) : Phase → Root → Option (Root × Phase)
  | .create o p, s => (moveOpen digest o i p s).map fun r => (r.1, .create o r.2)
  | .acquire a p, s => (moveAcquire pid c a i p s).map fun r => (r.1, .acquire a r.2)

/-- A call of the process has opened the manager. -/
def opens (w : World Root Phase) (pid d : ℕ) (m : VmCapacityManager) : Bool :=
  match w.calls d with
  | some ⟨p, .create _ (.opened m')⟩ => p = pid ∧ m' = m
  | _ => false

/-- Where a call begins: `acquire` is called on a manager the process has opened. -/
def entry (w : World Root Phase) (pid : ℕ) : Phase → Bool
  | .create _ .validate => true
  | .acquire a .start => opens w pid a.opener a.manager && decide (a.startedAt = w.shared.now)
  | _ => false

/-- What happens from outside: time passes, and other programs bind and free ports. -/
inductive Event where
  | tick (ms : ℕ)
  | bind (port : ℕ)
  | free (port : ℕ)
deriving DecidableEq, Repr

def happens : Event → Root → Option Root
  | .tick ms, s => some { s with now := s.now + ms }
  | .bind port, s =>
    match s.ports port with
    | none => some { s with ports := Function.update s.ports port (some .other) }
    | some _ => none
  | .free port, s =>
    match s.ports port with
    | some .other => some { s with ports := Function.update s.ports port none }
    | _ => none

/-- The ports that the death of a process frees. -/
def freePorts (calls : ℕ → Option (Call Phase)) (pid : ℕ) (s : Root) : Root :=
  { s with ports := fun q =>
      match s.ports q with
      | some (.acquire c) =>
        if ((calls c).map Call.process) = some pid then none else s.ports q
      | l => l }

/-- The calls of any seats on a root with the given digest. -/
def program (digest : ℕ) : Program Root Phase Outcome Event where
  entry := entry
  move _ pid c i := movePhase digest pid c i
  free := freePorts
  outside := happens

/-- One step of the seats on a root. -/
abbrev step (digest : ℕ) := World.step (program digest)

/-- One action on a root. -/
abbrev Act := Calls.Act Phase Outcome Event

/-- A root that no call has used yet: a policy and records of earlier seats, and the ports that other
programs have bound. -/
def Root.initial (policy : Option (Option VmCapacityPolicy)) (busy : ℕ → Bool)
    (records : ℕ → Option VmCapacityLeaseRecord) (now nextUuid : ℕ) : Root :=
  ⟨policy, fun q => if busy q then some .other else none, records, now, nextUuid⟩

/-! ## What a call relies on -/

/-- The slot whose port a call has bound and not yet closed. -/
def AcquirePhase.slot : AcquirePhase → Option ℕ
  | .bound slot _ | .closing slot => some slot
  | .held r | .releasing r => some r.slot
  | _ => none

/-- The record of a lease that has been returned and whose release has not rewritten it. -/
def AcquirePhase.lease : AcquirePhase → Option VmCapacityLeaseRecord
  | .held r | .releasing r => some r
  | _ => none

/-- The record of the slot has the id of the lease. -/
def Names (s : Root) (r : VmCapacityLeaseRecord) : Prop :=
  (s.records r.slot).map VmCapacityLeaseRecord.leaseId = some r.leaseId

/-- The recorded policy is the manager's. -/
def Recorded (m : VmCapacityManager) (s : Root) : Prop :=
  s.policy = some (some ⟨m.maxSlots, m.basePort⟩)

/-- The manager that a call has opened or acquires from. -/
def Phase.manager : Phase → Option VmCapacityManager
  | .create _ (.opened m) => some m
  | .acquire a _ => some a.manager
  | _ => none

/-- A call of `acquire` holds the port of its slot, and its lease has its record. -/
structure Holding (c : ℕ) (a : AcquireCall) (p : AcquirePhase) (s : Root) : Prop where
  port : ∀ slot, p.slot = some slot → slot < a.manager.maxSlots ∧
    s.ports (a.manager.basePort + slot) = some (.acquire c)
  lease : ∀ r, p.lease = some r → r.port = a.manager.basePort + r.slot ∧ Names s r

/-- A call of `acquire` that has waited has waited long enough. -/
structure Waited (a : AcquireCall) (p : AcquirePhase) (s : Root) : Prop where
  began : a.startedAt ≤ s.now
  exhausted : ∀ pass ms, p = .exhausted pass ms → a.waitMs ≤ ms ∧ a.startedAt + ms ≤ s.now

/-- What a call relies on. -/
structure Relies (dead : ℕ → Bool) (c : ℕ) (a : Call Phase) (s : Root) : Prop where
  policy : ∀ m, a.state.manager = some m → Recorded m s
  holding : dead a.process = false → ∀ q p, a.state = .acquire q p → Holding c q p s
  waited : ∀ q p, a.state = .acquire q p → Waited q p s

/-- The policy stays, the clock runs, and every live call keeps its port and its record. -/
def capacityOutline : Outline Root Phase := Outline.separate (fun _ _ => True) Relies

/-! ## Moves -/

variable {digest pid c : ℕ} {i : Outcome} {s t : Root} {dead : ℕ → Bool}

theorem moveOpen_frame {o : ManagerOptions} {p q : OpenPhase}
    (h : moveOpen digest o i p s = some (t, q)) :
    t.ports = s.ports ∧ t.records = s.records ∧ t.now = s.now ∧
      (∀ f, s.policy = some f → t.policy = some f) ∧ ∀ m, q = .opened m → Recorded m t := by
  cases p with
  | validate =>
    simp only [moveOpen] at h
    cases h
    refine ⟨rfl, rfl, rfl, fun f hf => hf, ?_⟩
    intro m hq
    split at hq <;> cases hq
  | link m =>
    cases i with
    | fails =>
      cases h
      exact ⟨rfl, rfl, rfl, fun f hf => hf, fun m hq => by cases hq⟩
    | ok =>
      cases h
      refine ⟨rfl, rfl, rfl, ?_, fun m hq => by cases hq⟩
      intro f hf
      show some (s.policy.getD _) = some f
      rw [hf]
      rfl
  | read m =>
    cases i with
    | fails =>
      cases h
      exact ⟨rfl, rfl, rfl, fun f hf => hf, fun m hq => by cases hq⟩
    | ok =>
      cases h
      refine ⟨rfl, rfl, rfl, fun f hf => hf, ?_⟩
      intro m' hq
      split at hq
      · next hp =>
        cases hq
        exact hp
      · cases hq
  | opened m => cases h
  | thrown => cases h

/-- **What a move of `acquire` changes**: nothing, or it binds a port, writes the record of a new
holder, rewrites it for the release, or closes the port. -/
theorem moveAcquire_cases {a : AcquireCall} {p q : AcquirePhase}
    (h : moveAcquire pid c a i p s = some (t, q)) :
    (t = s ∧ (q.slot = none ∨ q.slot = p.slot) ∧ (q.lease = none ∨ q.lease = p.lease)) ∨
      (∃ pass pollMs slot, p = .probe pass pollMs slot ∧ slot < a.manager.maxSlots ∧
        s.ports (a.manager.basePort + slot) = none ∧ q = .bound slot s.nextUuid ∧
        t = { s with
          ports := Function.update s.ports (a.manager.basePort + slot) (some (.acquire c))
          nextUuid := s.nextUuid + 1 }) ∨
      (∃ slot r, p.slot = some slot ∧ q = .held r ∧ r.slot = slot ∧
        r.port = a.manager.basePort + slot ∧
        t = { s with records := Function.update s.records slot (some r) }) ∨
      (∃ r r', p = .releasing r ∧ q = .closing r.slot ∧ r'.leaseId = r.leaseId ∧
        t = { s with records := Function.update s.records r.slot (some r') }) ∨
      ∃ slot, p = .closing slot ∧ q = .closed ∧
        t = { s with ports := Function.update s.ports (a.manager.basePort + slot) none } := by
  cases p with
  | start =>
    cases h
    exact Or.inl ⟨rfl, Or.inl rfl, Or.inl rfl⟩
  | «loop» pass pollMs =>
    cases i <;> cases h <;> exact Or.inl ⟨rfl, Or.inl rfl, Or.inl rfl⟩
  | probe pass pollMs slot =>
    simp only [moveAcquire] at h
    split at h
    · next hlt =>
      cases i with
      | fails =>
        cases h
        exact Or.inl ⟨rfl, Or.inl rfl, Or.inl rfl⟩
      | ok =>
        simp only at h
        split at h
        · cases h
          exact Or.inl ⟨rfl, Or.inl rfl, Or.inl rfl⟩
        · next hn =>
          cases h
          exact Or.inr (Or.inl ⟨pass, pollMs, slot, rfl, hlt, hn, rfl, rfl⟩)
    · cases h
      exact Or.inl ⟨rfl, Or.inl rfl, Or.inl rfl⟩
  | bound slot leaseId =>
    cases i with
    | fails =>
      cases h
      exact Or.inl ⟨rfl, Or.inr rfl, Or.inl rfl⟩
    | ok =>
      cases h
      exact Or.inr (Or.inr (Or.inl ⟨slot, _, rfl, rfl, rfl, rfl, rfl⟩))
  | missed pass pollMs =>
    simp only [moveAcquire] at h
    split at h <;> cases h <;> exact Or.inl ⟨rfl, Or.inl rfl, Or.inl rfl⟩
  | sleep pass pollMs till =>
    cases i with
    | fails =>
      cases h
      exact Or.inl ⟨rfl, Or.inl rfl, Or.inl rfl⟩
    | ok =>
      simp only [moveAcquire] at h
      split at h <;> cases h
      exact Or.inl ⟨rfl, Or.inl rfl, Or.inl rfl⟩
  | held r =>
    cases h
    exact Or.inl ⟨rfl, Or.inr rfl, Or.inr rfl⟩
  | releasing r =>
    cases i with
    | fails =>
      cases h
      exact Or.inl ⟨rfl, Or.inr rfl, Or.inl rfl⟩
    | ok =>
      cases h
      exact Or.inr (Or.inr (Or.inr (Or.inl
        ⟨r, { r with releaseRequestedAt := some s.now }, rfl, rfl, rfl, rfl⟩)))
  | closing slot =>
    cases h
    exact Or.inr (Or.inr (Or.inr (Or.inr ⟨slot, rfl, rfl, rfl⟩)))
  | closed => cases h
  | exhausted pass ms => cases h
  | thrown => cases h

theorem moveAcquire_frame {a : AcquireCall} {p q : AcquirePhase}
    (h : moveAcquire pid c a i p s = some (t, q)) : t.policy = s.policy ∧ t.now = s.now := by
  rcases moveAcquire_cases h with ⟨rfl, -, -⟩ | ⟨pass, pollMs, slot, -, -, -, -, rfl⟩ |
    ⟨slot, r, -, -, -, -, rfl⟩ | ⟨r, r', -, -, -, rfl⟩ | ⟨slot, -, -, rfl⟩ <;> exact ⟨rfl, rfl⟩

/-- A call comes to the end of its wait only when the wait is over. -/
theorem moveAcquire_exhausted {a : AcquireCall} {p : AcquirePhase} {pass ms : ℕ}
    (h : moveAcquire pid c a i p s = some (t, .exhausted pass ms)) :
    ∃ pollMs, p = .missed pass pollMs ∧ a.waitMs ≤ ms ∧ ms = s.now - a.startedAt := by
  cases p with
  | missed pass' pollMs =>
    simp only [moveAcquire] at h
    split at h
    · next hle =>
      cases h
      exact ⟨pollMs, rfl, hle, rfl⟩
    · cases h
  | «loop» pass pollMs => cases i <;> cases h
  | probe pass pollMs slot =>
    simp only [moveAcquire] at h
    split at h
    · cases i with
      | fails => cases h
      | ok =>
        simp only at h
        split at h <;> cases h
    · cases h
  | bound slot leaseId => cases i <;> cases h
  | sleep pass pollMs till =>
    cases i with
    | fails => cases h
    | ok =>
      simp only [moveAcquire] at h
      split at h <;> cases h
  | releasing r => cases i <;> cases h
  | _ => cases h

theorem Holding.move {a : AcquireCall} {p q : AcquirePhase} (hh : Holding c a p s)
    (h : moveAcquire pid c a i p s = some (t, q)) : Holding c a q t := by
  rcases moveAcquire_cases h with ⟨rfl, hs, hr⟩ | ⟨pass, pollMs, slot, -, hlt, -, rfl, rfl⟩ |
    ⟨slot, r, hs, rfl, rfl, hp, rfl⟩ | ⟨r, r', rfl, rfl, -, rfl⟩ | ⟨slot, -, rfl, rfl⟩
  · refine ⟨?_, ?_⟩
    · intro slot hq
      rcases hs with hs | hs
      · cases hs.symm.trans hq
      · exact hh.port slot (hs.symm.trans hq)
    · intro r hq
      rcases hr with hr | hr
      · cases hr.symm.trans hq
      · exact hh.lease r (hr.symm.trans hq)
  · refine ⟨?_, fun r hq => by cases hq⟩
    intro slot' hq
    cases hq
    exact ⟨hlt, Function.update_self _ _ _⟩
  · refine ⟨?_, ?_⟩
    · intro slot' hq
      cases hq
      exact hh.port _ hs
    · intro r' hq
      cases hq
      refine ⟨hp, ?_⟩
      show (Function.update s.records r.slot (some r) r.slot).map _ = _
      rw [Function.update_self]
      rfl
  · refine ⟨?_, fun r hq => by cases hq⟩
    intro slot' hq
    cases hq
    exact hh.port _ rfl
  · exact ⟨fun slot' hq => (by cases hq), fun r hq => (by cases hq)⟩

/-- Another live call after the move: a port is bound where it is free, and a record is written or a
port closed by the call that holds it. -/
theorem Holding.other {a b : AcquireCall} {p q p' : AcquirePhase} {d : ℕ} (hne : d ≠ c)
    (hbase : b.manager.basePort = a.manager.basePort) (hc : Holding c a p s)
    (hd : Holding d b p' s) (h : moveAcquire pid c a i p s = some (t, q)) : Holding d b p' t := by
  -- the slots of the two calls differ
  have hslots : ∀ k l, p.slot = some k → p'.slot = some l → k ≠ l := by
    rintro k l hk hl rfl
    have h1 := (hc.port k hk).2
    have h2 := (hd.port k hl).2
    rw [hbase, h1] at h2
    cases h2
    exact hne rfl
  have hslot : ∀ r, p'.lease = some r → p'.slot = some r.slot := by
    intro r hr
    unfold AcquirePhase.lease at hr
    split at hr <;> cases hr <;> rfl
  rcases moveAcquire_cases h with ⟨rfl, -, -⟩ | ⟨pass, pollMs, slot, -, -, hn, -, rfl⟩ |
    ⟨slot, r, hs, -, -, -, rfl⟩ | ⟨r, r', rfl, -, -, rfl⟩ | ⟨slot, rfl, -, rfl⟩
  · exact hd
  · refine ⟨?_, hd.lease⟩
    intro l hl
    obtain ⟨hlt, hp⟩ := hd.port l hl
    refine ⟨hlt, ?_⟩
    have hport : b.manager.basePort + l ≠ a.manager.basePort + slot := by
      intro he
      rw [he, hn] at hp
      cases hp
    exact (Function.update_of_ne hport _ _).trans hp
  · refine ⟨hd.port, ?_⟩
    intro r' hr'
    obtain ⟨hp, hnm⟩ := hd.lease r' hr'
    refine ⟨hp, ?_⟩
    have hk := hslots slot r'.slot hs (hslot r' hr')
    show (Function.update s.records slot (some r) r'.slot).map _ = _
    rw [Function.update_of_ne hk.symm]
    exact hnm
  · refine ⟨hd.port, ?_⟩
    intro r'' hr''
    obtain ⟨hp, hnm⟩ := hd.lease r'' hr''
    refine ⟨hp, ?_⟩
    have hk := hslots r.slot r''.slot rfl (hslot r'' hr'')
    show (Function.update s.records r.slot (some r') r''.slot).map _ = _
    rw [Function.update_of_ne hk.symm]
    exact hnm
  · refine ⟨?_, hd.lease⟩
    intro l hl
    obtain ⟨hlt, hp⟩ := hd.port l hl
    refine ⟨hlt, ?_⟩
    have hk := hslots slot l rfl hl
    have hport : b.manager.basePort + l ≠ a.manager.basePort + slot := by
      rw [hbase]
      omega
    exact (Function.update_of_ne hport _ _).trans hp

/-! ## Every step keeps it -/

theorem recorded_agree {m n : VmCapacityManager} (hm : Recorded m s) (hn : Recorded n s) :
    m.maxSlots = n.maxSlots ∧ m.basePort = n.basePort := by
  have h := Option.some.inj (Option.some.inj (hm.symm.trans hn))
  exact ⟨congrArg VmCapacityPolicy.maxSlots h, congrArg VmCapacityPolicy.basePort h⟩

theorem Relies.frame {d : ℕ} {b : Call Phase} (hb : Relies dead d b s)
    (hp : ∀ f, s.policy = some f → t.policy = some f) (hn : s.now ≤ t.now)
    (hh : dead b.process = false → ∀ q p, b.state = .acquire q p → Holding d q p s →
      Holding d q p t) : Relies dead d b t where
  policy := fun m hm => hp _ (hb.policy m hm)
  holding := fun hl q p hs => hh hl q p hs (hb.holding hl q p hs)
  waited := fun q p hs => by
    obtain ⟨h1, h2⟩ := hb.waited q p hs
    refine ⟨h1.trans hn, ?_⟩
    intro pass ms he
    obtain ⟨h3, h4⟩ := h2 pass ms he
    exact ⟨h3, h4.trans hn⟩

theorem kept_create {w : World Root Phase} (hw : capacityOutline.Holds w) {o : ManagerOptions}
    {p q : OpenPhase} (h : moveOpen digest o i p w.shared = some (t, q)) :
    capacityOutline.Kept w c ⟨pid, .create o q⟩ t := by
  obtain ⟨hports, hrecs, hnow, hpol, hopen⟩ := moveOpen_frame h
  refine Outline.Kept.separate trivial ⟨?_, fun _ _ _ hs => (by cases hs), fun _ _ hs => (by cases hs)⟩ ?_
  · intro m hm
    cases q with
    | opened m' =>
      cases hm
      exact hopen m rfl
    | _ => cases hm
  · intro d b _ hb
    refine (hw.each d b hb).frame hpol (Nat.le_of_eq hnow.symm) ?_
    intro _ a p' _ hh
    refine ⟨?_, ?_⟩
    · rw [hports]
      exact hh.port
    · intro r hr
      obtain ⟨h1, h2⟩ := hh.lease r hr
      refine ⟨h1, ?_⟩
      rw [Names, hrecs]
      exact h2

theorem kept_acquire {w : World Root Phase} (hw : capacityOutline.Holds w) {a : AcquireCall}
    {p q : AcquirePhase} (hc : w.calls c = some ⟨pid, .acquire a p⟩) (hl : w.dead pid = false)
    (h : moveAcquire pid c a i p w.shared = some (t, q)) :
    capacityOutline.Kept w c ⟨pid, .acquire a q⟩ t := by
  obtain ⟨hpol, hnow⟩ := moveAcquire_frame h
  have hr := hw.each c _ hc
  have hh := hr.holding hl a p rfl
  refine Outline.Kept.separate trivial ⟨?_, ?_, ?_⟩ ?_
  · intro m hm
    rw [Recorded, hpol]
    exact hr.policy m hm
  · intro _ a' p' hs
    cases hs
    exact hh.move h
  · intro a' p' hs
    cases hs
    obtain ⟨hbegan, -⟩ := hr.waited a p rfl
    refine ⟨hbegan.trans (Nat.le_of_eq hnow.symm), ?_⟩
    intro pass ms he
    subst he
    obtain ⟨pollMs, -, hle, hms⟩ := moveAcquire_exhausted h
    refine ⟨hle, ?_⟩
    rw [hnow, hms]
    omega
  · intro d b hd hb
    have hrb := hw.each d b hb
    refine hrb.frame (fun f hf => hpol.trans hf) (Nat.le_of_eq hnow.symm) ?_
    intro hlb a' p' hs hhb
    have hma : Recorded a.manager w.shared := hr.policy _ rfl
    have hmb : Recorded a'.manager w.shared := by
      refine hrb.policy _ ?_
      rw [hs]
      rfl
    exact Holding.other hd (recorded_agree hmb hma).2 hh hhb h

/-- A process that is alive after a death was alive before it, and is another one. -/
theorem alive_before {p q : ℕ} (h : Function.update dead p true q = false) :
    dead q = false ∧ q ≠ p := by
  by_cases hq : q = p
  · rw [hq, Function.update_self] at h
    cases h
  · rw [Function.update_of_ne hq] at h
    exact ⟨h, hq⟩

theorem stable_die {w : World Root Phase} (hw : capacityOutline.Holds w) (p : ℕ) :
    capacityOutline.Stable w (Function.update w.dead p true) (freePorts w.calls p w.shared) := by
  refine Outline.Stable.separate trivial ?_
  intro c a hc
  have hr := hw.each c a hc
  refine ⟨hr.policy, ?_, fun q ph hs => ⟨(hr.waited q ph hs).began, (hr.waited q ph hs).exhausted⟩⟩
  intro hl q ph hs
  obtain ⟨hla, hne⟩ := alive_before hl
  have hh := hr.holding hla q ph hs
  refine ⟨?_, hh.lease⟩
  intro slot hsl
  obtain ⟨hlt, hport⟩ := hh.port slot hsl
  refine ⟨hlt, ?_⟩
  simp only [freePorts, hport, hc, Option.map_some, Option.some.injEq, hne, if_false]

theorem stable_outside {w : World Root Phase} (hw : capacityOutline.Holds w) {e : Event}
    (h : happens e w.shared = some t) : capacityOutline.Stable w w.dead t := by
  refine Outline.Stable.separate trivial ?_
  intro c a hc
  have hr := hw.each c a hc
  cases e with
  | tick ms =>
    cases h
    refine hr.frame (fun f hf => hf) (Nat.le_add_right _ _) ?_
    exact fun _ q p _ hh => ⟨hh.port, hh.lease⟩
  | bind port =>
    simp only [happens] at h
    split at h
    · next hn =>
      cases h
      refine hr.frame (fun f hf => hf) le_rfl ?_
      intro _ q p _ hh
      refine ⟨?_, hh.lease⟩
      intro slot hs
      obtain ⟨hlt, hp⟩ := hh.port slot hs
      refine ⟨hlt, ?_⟩
      have hne : q.manager.basePort + slot ≠ port := by
        intro he
        rw [he, hn] at hp
        cases hp
      exact (Function.update_of_ne hne _ _).trans hp
    · cases h
  | free port =>
    simp only [happens] at h
    split at h
    · next ho =>
      cases h
      refine hr.frame (fun f hf => hf) le_rfl ?_
      intro _ q p _ hh
      refine ⟨?_, hh.lease⟩
      intro slot hs
      obtain ⟨hlt, hp⟩ := hh.port slot hs
      refine ⟨hlt, ?_⟩
      have hne : q.manager.basePort + slot ≠ port := by
        intro he
        rw [he, ho] at hp
        cases hp
      exact (Function.update_of_ne hne _ _).trans hp
    · cases h

theorem opens_recorded {w : World Root Phase} (hw : capacityOutline.Holds w) {d : ℕ}
    {m : VmCapacityManager} (h : opens w pid d m = true) : Recorded m w.shared := by
  unfold opens at h
  split at h
  · next p o m' hd =>
    obtain ⟨-, rfl⟩ := of_decide_eq_true h
    exact (hw.each d _ hd).policy m' rfl
  · cases h

theorem capacityOutline_sound :
    capacityOutline.Sound (program digest) fun _ _ => True where
  begun := fun w p k hw _ he _ => by
    refine Outline.Begun.separate ?_
    have he' : entry w p k = true := he
    unfold entry at he'
    split at he'
    · exact ⟨fun m hm => (by cases hm), fun _ _ _ hs => (by cases hs), fun _ _ hs => (by cases hs)⟩
    · next a =>
      obtain ⟨hop, hst⟩ := Bool.and_eq_true_iff.mp he'
      refine ⟨?_, ?_, ?_⟩
      · intro m hm
        cases hm
        exact opens_recorded hw hop
      · intro _ q ph hs
        cases hs
        exact ⟨fun slot hs => (by cases hs), fun r hr => (by cases hr)⟩
      · intro q ph hs
        cases hs
        exact ⟨Nat.le_of_eq (of_decide_eq_true hst), fun pass ms he => (by cases he)⟩
    · cases he'
  move := fun w c a i s k hw _ hc hl hm => by
    obtain ⟨p, st⟩ := a
    cases st with
    | create o ph =>
      obtain ⟨⟨v, q⟩, hmo, hr⟩ := Option.map_eq_some_iff.mp hm
      cases hr
      exact kept_create hw hmo
    | acquire a ph =>
      obtain ⟨⟨v, q⟩, hma, hr⟩ := Option.map_eq_some_iff.mp hm
      cases hr
      exact kept_acquire hw hc hl hma
  die := fun w p hw _ => stable_die hw p
  outside := fun w e s hw _ hs => stable_outside hw hs

theorem holds_exec {policy : Option (Option VmCapacityPolicy)} {busy : ℕ → Bool}
    {records : ℕ → Option VmCapacityLeaseRecord} {now nextUuid : ℕ} {as : List Act}
    {w : World Root Phase}
    (h : Runs.exec (step digest)
      (World.fresh dead (Root.initial policy busy records now nextUuid)) as = some w) :
    capacityOutline.Holds w :=
  capacityOutline_sound.holds_exec (Outline.holds_fresh trivial) (Runs.meets_true _ _) h

/-! ## Slots and their records -/

/-- A call of a live process has bound the port of the slot and not closed it. -/
def HoldsSlot (w : World Root Phase) (c slot : ℕ) : Prop :=
  ∃ p a ph, w.calls c = some ⟨p, .acquire a ph⟩ ∧ w.dead p = false ∧ ph.slot = some slot

/-- A call of a live process has returned the lease, and its release has not written the record. -/
def HoldsLease (w : World Root Phase) (c : ℕ) (r : VmCapacityLeaseRecord) : Prop :=
  ∃ p a ph, w.calls c = some ⟨p, .acquire a ph⟩ ∧ w.dead p = false ∧ ph.lease = some r

/-- The call has opened the manager. -/
def Opened (w : World Root Phase) (c : ℕ) (m : VmCapacityManager) : Prop :=
  ∃ p o, w.calls c = some ⟨p, .create o (.opened m)⟩

/-- A step by which a call writes the record of a slot as its new holder. -/
def Acquires (w v : World Root Phase) (d slot : ℕ) : Prop :=
  ∃ p a leaseId r, w.calls d = some ⟨p, .acquire a (.bound slot leaseId)⟩ ∧
    v.calls d = some ⟨p, .acquire a (.held r)⟩

/-- Opened managers agree, a slot is held once, no more slots are held than there are, and the record
of a lease names it. -/
structure Kept (w : World Root Phase) : Prop where
  agree : ∀ c d m n, Opened w c m → Opened w d n →
    m.maxSlots = n.maxSlots ∧ m.basePort = n.basePort
  once : ∀ c d slot, HoldsSlot w c slot → HoldsSlot w d slot → c = d
  count : ∀ (cs : Finset ℕ) d m, Opened w d m → (∀ c ∈ cs, ∃ slot, HoldsSlot w c slot) →
    cs.card ≤ m.maxSlots
  record : ∀ c r, HoldsLease w c r → Names w.shared r

theorem bound_holds {p slot : ℕ} {a : AcquireCall} {ph : AcquirePhase}
    (hs : ph.slot = some slot) {r : VmCapacityLeaseRecord}
    (h : moveAcquire p c a i ph s = some (t, .held r)) : ∃ leaseId, ph = .bound slot leaseId := by
  cases ph with
  | bound slot' leaseId =>
    cases hs
    exact ⟨leaseId, rfl⟩
  | closing slot' => cases h
  | held r' => cases h
  | releasing r' => cases i <;> cases h
  | _ => cases hs

theorem Kept.of_holds {w : World Root Phase} (hw : capacityOutline.Holds w) : Kept w := by
  have hbase : ∀ c d p q a b ph ph', w.calls c = some ⟨p, .acquire a ph⟩ →
      w.calls d = some ⟨q, .acquire b ph'⟩ → a.manager.basePort = b.manager.basePort := by
    intro c d p q a b ph ph' hc hd
    exact (recorded_agree ((hw.each c _ hc).policy _ rfl) ((hw.each d _ hd).policy _ rfl)).2
  have honce : ∀ c d slot, HoldsSlot w c slot → HoldsSlot w d slot → c = d := by
    rintro c d slot ⟨p, a, ph, hc, hl, hs⟩ ⟨q, b, ph', hd, hl', hs'⟩
    have h1 := (((hw.each c _ hc).holding hl a ph rfl).port slot hs).2
    have h2 := (((hw.each d _ hd).holding hl' b ph' rfl).port slot hs').2
    rw [hbase c d p q a b ph ph' hc hd, h2] at h1
    cases h1
    rfl
  refine ⟨?_, honce, ?_, ?_⟩
  · rintro c d m n ⟨p, o, hc⟩ ⟨q, o', hd⟩
    exact recorded_agree ((hw.each c _ hc).policy m rfl) ((hw.each d _ hd).policy n rfl)
  · rintro cs d m ⟨p, o, hd⟩ hcs
    -- the slots of the calls are different numbers below the manager's bound
    choose f hf using hcs
    have hmap : ∀ c (hc : c ∈ cs), f c hc ∈ Finset.range m.maxSlots := by
      intro c hc
      obtain ⟨q, a, ph, hcc, hl, hs⟩ := hf c hc
      have hlt := (((hw.each c _ hcc).holding hl a ph rfl).port _ hs).1
      have hag := recorded_agree ((hw.each c _ hcc).policy _ rfl) ((hw.each d _ hd).policy m rfl)
      rw [Finset.mem_range, ← hag.1]
      exact hlt
    have hinj : ∀ c hc d hd, f c hc = f d hd → c = d := by
      intro c hc d hd he
      have h1 := hf c hc
      rw [he] at h1
      exact honce c d _ h1 (hf d hd)
    have := Finset.card_le_card_of_injOn (s := cs.attach) (t := Finset.range m.maxSlots)
      (fun c => f c.1 c.2) (fun c _ => hmap c.1 c.2)
      (fun c _ d _ he => Subtype.ext (hinj c.1 c.2 d.1 d.2 he))
    simpa using this
  · rintro c r ⟨p, a, ph, hc, hl, hr⟩
    exact (((hw.each c _ hc).holding hl a ph rfl).lease r hr).2

/-- **A record names its lease until the slot is acquired again**: one step. -/
theorem names_step {w v : World Root Phase} (hw : capacityOutline.Holds w)
    {r : VmCapacityLeaseRecord} (hr : Names w.shared r) {x : Act}
    (h : step digest w x = some v) : Names v.shared r ∨ ∃ d, Acquires w v d r.slot := by
  cases x with
  | begin p k =>
    obtain ⟨-, -, rfl⟩ := World.step_begin h
    exact Or.inl hr
  | die p =>
    cases h
    exact Or.inl hr
  | outside e =>
    obtain ⟨s, hs, rfl⟩ := World.step_outside h
    left
    cases e with
    | tick ms =>
      cases hs
      exact hr
    | bind port =>
      simp only [program, happens] at hs
      split at hs <;> cases hs
      exact hr
    | free port =>
      simp only [program, happens] at hs
      split at hs <;> cases hs
      exact hr
  | move d i =>
    obtain ⟨⟨p, st⟩, s, k, hd, hl, hm, rfl⟩ := World.step_move h
    cases st with
    | create o ph =>
      obtain ⟨⟨u, q⟩, hmo, he⟩ := Option.map_eq_some_iff.mp hm
      cases he
      left
      obtain ⟨-, hrec, -⟩ := moveOpen_frame hmo
      show (u.records r.slot).map _ = _
      rw [hrec]
      exact hr
    | acquire a ph =>
      obtain ⟨⟨u, q⟩, hma, he⟩ := Option.map_eq_some_iff.mp hm
      cases he
      rcases moveAcquire_cases hma with ⟨rfl, -, -⟩ | ⟨pass, pollMs, slot, -, -, -, -, rfl⟩ |
        ⟨slot, r', hs, rfl, -, -, rfl⟩ | ⟨r', r'', rfl, -, hid, rfl⟩ | ⟨slot, -, -, rfl⟩
      · exact Or.inl hr
      · exact Or.inl hr
      · by_cases hsl : r.slot = slot
        · obtain ⟨leaseId, rfl⟩ := bound_holds hs hma
          exact Or.inr ⟨d, p, a, leaseId, r', hsl ▸ hd, World.setCall_self d _⟩
        · left
          show (Function.update w.shared.records slot (some r') r.slot).map _ = _
          rw [Function.update_of_ne hsl]
          exact hr
      · left
        show (Function.update w.shared.records r'.slot (some r'') r.slot).map _ = _
        by_cases hsl : r.slot = r'.slot
        · -- the release rewrites the record of its own lease, which is this one
          have hown := (((hw.each d _ hd).holding hl a _ rfl).lease r' rfl).2
          have hids : r.leaseId = r'.leaseId := by
            unfold Names at hr hown
            rw [hsl, hown] at hr
            exact (Option.some.inj hr).symm
          rw [hsl, Function.update_self, Option.map_some, hid, hids]
        · rw [Function.update_of_ne hsl]
          exact hr
      · exact Or.inl hr

/-- **A record names its lease until the slot is acquired again.** -/
theorem names_exec {w v : World Root Phase} (hw : capacityOutline.Holds w)
    {r : VmCapacityLeaseRecord} (hr : Names w.shared r) {as : List Act}
    (h : Runs.exec (step digest) w as = some v) :
    Names v.shared r ∨ ∃ bs x cs u u' d, as = bs ++ x :: cs ∧
      Runs.exec (step digest) w bs = some u ∧ step digest u x = some u' ∧
      Acquires u u' d r.slot := by
  induction as generalizing w with
  | nil =>
    cases h
    exact Or.inl hr
  | cons x as ih =>
    obtain ⟨u, hu, hr'⟩ := Runs.exec_cons_eq_some.mp h
    rcases names_step hw hr hu with hn | ⟨d, hd⟩
    · have hwu := capacityOutline_sound.holds_step w x u hw trivial hu
      rcases ih hwu hn hr' with hv | ⟨bs, y, cs, z, z', d, rfl, hz, hz', hd⟩
      · exact Or.inl hv
      · refine Or.inr ⟨x :: bs, y, cs, z, z', d, rfl, ?_, hz', hd⟩
        exact Runs.exec_cons_eq_some.mpr ⟨u, hu, hz⟩
    · exact Or.inr ⟨[], x, as, w, u, d, rfl, rfl, hu, hd⟩

/-! ## Exhaustion -/

/-- In the run, the call has listened on the port of the slot in this call of `tryAcquire`, and the
port was busy. -/
def Busy (digest : ℕ) (w₀ : World Root Phase) (as : List Act) (c pass slot : ℕ) : Prop :=
  ∃ bs cs v p a pollMs, as = bs ++ .move c .ok :: cs ∧
    Runs.exec (step digest) w₀ bs = some v ∧
    v.calls c = some ⟨p, .acquire a (.probe pass pollMs slot)⟩ ∧
    (v.shared.ports (a.manager.basePort + slot)).isSome = true

theorem Busy.append {w₀ : World Root Phase} {as : List Act} {pass slot : ℕ}
    (h : Busy digest w₀ as c pass slot) (x : Act) : Busy digest w₀ (as ++ [x]) c pass slot := by
  obtain ⟨bs, cs, v, p, a, pollMs, rfl, hv, hc, hp⟩ := h
  exact ⟨bs, cs ++ [x], v, p, a, pollMs, by rw [List.append_assoc]; rfl, hv, hc, hp⟩

/-- The call of `tryAcquire`, and the number of slots it has found busy so far. -/
def AcquirePhase.probed (a : AcquireCall) : AcquirePhase → Option (ℕ × ℕ)
  | .probe pass _ slot => some (pass, slot)
  | .missed pass _ | .exhausted pass _ => some (pass, a.manager.maxSlots)
  | _ => none

theorem moveAcquire_probed {pid pass n : ℕ} {a : AcquireCall} {p q : AcquirePhase}
    (h : moveAcquire pid c a i p s = some (t, q)) (hq : q.probed a = some (pass, n)) :
    n = 0 ∨ (∃ m, p.probed a = some (pass, m) ∧ n ≤ m) ∨
      ∃ pollMs slot, p = .probe pass pollMs slot ∧ n = slot + 1 ∧ i = .ok ∧
        (s.ports (a.manager.basePort + slot)).isSome = true := by
  cases p with
  | start =>
    cases h
    cases hq
  | «loop» pass' pollMs =>
    cases i with
    | fails =>
      cases h
      cases hq
    | ok =>
      cases h
      cases hq
      exact Or.inl rfl
  | probe pass' pollMs slot =>
    simp only [moveAcquire] at h
    split at h
    · cases i with
      | fails =>
        cases h
        cases hq
      | ok =>
        simp only at h
        split at h
        · next l hp =>
          cases h
          cases hq
          exact Or.inr (Or.inr ⟨pollMs, slot, rfl, rfl, rfl, by rw [hp]; rfl⟩)
        · cases h
          cases hq
    · next hge =>
      cases h
      cases hq
      exact Or.inr (Or.inl ⟨slot, rfl, Nat.le_of_not_lt hge⟩)
  | missed pass' pollMs =>
    simp only [moveAcquire] at h
    split at h
    · cases h
      cases hq
      exact Or.inr (Or.inl ⟨_, rfl, le_rfl⟩)
    · cases h
      cases hq
  | bound slot leaseId => cases i <;> cases h <;> cases hq
  | sleep pass' pollMs till =>
    cases i with
    | fails =>
      cases h
      cases hq
    | ok =>
      simp only [moveAcquire] at h
      split at h <;> cases h
      cases hq
  | held r =>
    cases h
    cases hq
  | releasing r => cases i <;> cases h <;> cases hq
  | closing slot =>
    cases h
    cases hq
  | closed => cases h
  | exhausted pass' ms => cases h
  | thrown => cases h

theorem acquire_entry {u : World Root Phase} {p : ℕ} {a : AcquireCall} {ph : AcquirePhase}
    (h : entry u p (.acquire a ph) = true) : ph = .start := by
  cases ph with
  | start => rfl
  | _ => cases h

/-- **The slots a call has passed by were busy.** -/
theorem probed_busy {w₀ : World Root Phase} (h₀ : ∀ c, w₀.calls c = none) {as : List Act}
    {w : World Root Phase} (h : Runs.exec (step digest) w₀ as = some w) {p pass n : ℕ}
    {a : AcquireCall} {ph : AcquirePhase} (hc : w.calls c = some ⟨p, .acquire a ph⟩)
    (hp : ph.probed a = some (pass, n)) : ∀ slot < n, Busy digest w₀ as c pass slot := by
  induction as using List.reverseRecOn generalizing w p pass n a ph with
  | nil =>
    cases h
    rw [h₀ c] at hc
    cases hc
  | append_singleton as x ih =>
    obtain ⟨u, hu, hx⟩ := Runs.exec_concat_eq_some.mp h
    -- the call is where it was, or this is its move
    have hsame : u.calls c = some ⟨p, .acquire a ph⟩ → ∀ slot < n,
        Busy digest w₀ (as ++ [x]) c pass slot :=
      fun hcu slot hs => (ih hu hcu hp slot hs).append x
    cases x with
    | begin q k =>
      obtain ⟨-, he, rfl⟩ := World.step_begin hx
      by_cases hcn : c = u.next
      · subst hcn
        cases (World.setCall_self u.next ⟨q, k⟩).symm.trans hc
        cases acquire_entry he
        cases hp
      · exact hsame ((World.setCall_ne hcn ⟨q, k⟩).symm.trans hc)
    | die q =>
      cases hx
      exact hsame hc
    | outside e =>
      obtain ⟨s, -, rfl⟩ := World.step_outside hx
      exact hsame hc
    | move d i =>
      obtain ⟨⟨q, st⟩, s, k, hd, hl, hm, rfl⟩ := World.step_move hx
      by_cases hcd : c = d
      · subst hcd
        cases (World.setCall_self c ⟨q, k⟩).symm.trans hc
        cases st with
        | create o oph =>
          obtain ⟨r, -, he⟩ := Option.map_eq_some_iff.mp hm
          cases he
        | acquire b bph =>
          obtain ⟨⟨v, r⟩, hma, he⟩ := Option.map_eq_some_iff.mp hm
          cases he
          intro slot hs
          rcases moveAcquire_probed hma hp with rfl | ⟨m, hm', hle⟩ |
            ⟨pollMs, l, rfl, rfl, rfl, hbusy⟩
          · cases hs
          · exact (ih hu hd hm' slot (lt_of_lt_of_le hs hle)).append _
          · rcases Nat.lt_succ_iff_lt_or_eq.mp hs with hlt | rfl
            · exact (ih hu hd rfl slot hlt).append _
            · exact ⟨as, [], u, p, a, pollMs, rfl, hu, hd, hbusy⟩
      · exact hsame ((World.setCall_ne hcd ⟨q, k⟩).symm.trans hc)

/-- **VM capacity**: in every state of every run opened managers agree, a slot is held once, no more
slots are held than there are, and the record of a slot names its holder until the slot is acquired
again; a call reports exhaustion only after its wait, with every slot found busy by its last
`tryAcquire`. -/
theorem vmCapacity (digest : ℕ) (dead : ℕ → Bool) (policy : Option (Option VmCapacityPolicy))
    (busy : ℕ → Bool) (records : ℕ → Option VmCapacityLeaseRecord) (now nextUuid : ℕ)
    (as : List Act) (w : World Root Phase)
    (h : Runs.exec (step digest)
      (World.fresh dead (Root.initial policy busy records now nextUuid)) as = some w) :
    Kept w ∧
      (∀ c r bs v, HoldsLease w c r → Runs.exec (step digest) w bs = some v →
        Names v.shared r ∨ ∃ bs₁ x bs₂ u u' d, bs = bs₁ ++ x :: bs₂ ∧
          Runs.exec (step digest) w bs₁ = some u ∧ step digest u x = some u' ∧
          Acquires u u' d r.slot) ∧
      ∀ c p a pass ms, w.calls c = some ⟨p, .acquire a (.exhausted pass ms)⟩ →
        a.waitMs ≤ ms ∧ a.startedAt + ms ≤ w.shared.now ∧
          ∀ slot < a.manager.maxSlots, Busy digest
            (World.fresh dead (Root.initial policy busy records now nextUuid)) as c pass slot := by
  have hw := holds_exec h
  have hk := Kept.of_holds hw
  refine ⟨hk, ?_, ?_⟩
  · intro c r bs v hl hv
    exact names_exec hw (hk.record c r hl) hv
  · intro c p a pass ms hc
    obtain ⟨hle, hnow⟩ := ((hw.each c _ hc).waited a _ rfl).exhausted pass ms rfl
    exact ⟨hle, hnow, probed_busy (fun _ => rfl) h hc rfl⟩

/-- Two seats open the root with one slot; the first holds it, and the second waits for nothing. -/
def oneSlot : List Act :=
  [.begin 1 (.create ⟨1, none, 5⟩ .validate), .begin 2 (.create ⟨1, none, 5⟩ .validate),
    .move 0 .ok, .move 1 .ok, .move 0 .ok, .move 1 .ok, .move 1 .ok, .move 0 .ok,
    .begin 1 (.acquire ⟨0, ⟨1, 42000, 5⟩, 7, 5, 0⟩ .start), .move 2 .ok, .move 2 .ok, .move 2 .ok,
    .begin 2 (.acquire ⟨1, ⟨1, 42000, 5⟩, 8, 5, 0⟩ .start), .move 3 .ok, .move 3 .ok, .move 3 .ok,
    .move 2 .ok, .outside (.tick 6), .move 3 .ok, .move 3 .ok]

theorem vmCapacity_oneSlot : ∃ w,
    Runs.exec (step 0) (World.fresh (fun _ => false) (Root.initial none (fun _ => false)
      (fun _ => none) 0 0)) oneSlot = some w ∧ Kept w ∧
      (∃ r, HoldsLease w 2 r) ∧
      ∃ p a, w.calls 3 = some ⟨p, .acquire a (.exhausted 1 6)⟩ ∧ a.waitMs ≤ 6 := by
  have hs : ((Runs.exec (step 0) (World.fresh (fun _ => false) (Root.initial none (fun _ => false)
      (fun _ => none) 0 0)) oneSlot).any fun w => decide
        (w.calls 2 = some ⟨1, .acquire ⟨0, ⟨1, 42000, 5⟩, 7, 5, 0⟩
          (.held ⟨0, 7, 1, 0, 42000, 0, none⟩)⟩ ∧ w.dead 1 = false ∧
        w.calls 3 = some ⟨2, .acquire ⟨1, ⟨1, 42000, 5⟩, 8, 5, 0⟩ (.exhausted 1 6)⟩)) = true := by
    decide +kernel
  obtain ⟨w, hw, hc⟩ := (Option.any_eq_true _ _).mp hs
  obtain ⟨h2, hl, h3⟩ := of_decide_eq_true hc
  obtain ⟨hk, -, hx⟩ := vmCapacity 0 _ _ _ _ _ _ _ _ hw
  exact ⟨w, hw, hk, ⟨_, 1, _, _, h2, hl, rfl⟩, 2, _, h3, (hx 3 _ _ _ _ h3).1⟩

end PiSubagent.Capacity
