import PiSubagent.Lib.Calls
import Mathlib.Data.List.Sort

/-!
# The warm checkpoint store

The calls of `WarmCheckpointStore` on the files of one root, step by step: every read, link, rename
and unlink is a move of its own. A temporary file has a name nobody else uses, so the store shows it
only where a directory listing does.

* `Store`: the files of the root. `randomUUID` draws from a counter.
* `LockPhase`, `LeasePhase`, `PublishPhase`, `WaitPhase`, `EvictPhase`: how far a call is.
* `program`: the moves of every call.
* `moveLock_cases`, `moveLease_cases`, `movePublish_cases`, `moveEvict_cases`: what a move of each
  function changes.

Left out are the writes that throw, and the day-old files of `tmp`.
-/

namespace PiSubagent.Checkpoints

open Calls (Call World Program)

/-- `OwnerFile` at `<key>.lock`; the process id is `none` where `readOwner` finds none. -/
structure LockFile where
  uuid : ℕ
  pid : Option ℕ
deriving DecidableEq, Repr

/-- The name of a file of `leases/<key>`: `<uuid>.json`, or the temporary name before its rename. -/
structure LeaseName where
  uuid : ℕ
  json : Bool
deriving DecidableEq, Repr

/-- `OwnerFile` in `leases/<key>`. -/
structure LeaseFile where
  name : LeaseName
  pid : Option ℕ
deriving DecidableEq, Repr

/-- `<key>.qcow2`. -/
structure Checkpoint where
  key : ℕ
  bytes : ℕ
deriving DecidableEq, Repr

/-- The files of the root, the clock, and the next draw of `randomUUID`. Of a sidecar and of a
failure record only the time of its last change is read. -/
structure Store where
  checkpoints : List Checkpoint
  sidecars : ℕ → Option ℕ
  failures : ℕ → Option ℕ
  locks : ℕ → Option LockFile
  leases : ℕ → List LeaseFile
  now : ℕ
  nextUuid : ℕ

namespace Store

variable (s : Store)

/-- `<key>.qcow2` exists. -/
def hasCheckpoint (key : ℕ) : Prop := ∃ bytes, ⟨key, bytes⟩ ∈ s.checkpoints

instance (key : ℕ) : Decidable (s.hasCheckpoint key) :=
  decidable_of_iff (key ∈ s.checkpoints.map Checkpoint.key) <| by
    rw [List.mem_map]
    constructor
    · rintro ⟨⟨k, bytes⟩, hm, rfl⟩
      exact ⟨bytes, hm⟩
    · rintro ⟨bytes, hm⟩
      exact ⟨_, hm, rfl⟩

/-- `stat` of `<key>.qcow2`. -/
def statCheckpoint (key : ℕ) : Option ℕ :=
  (s.checkpoints.find? fun c => c.key = key).map Checkpoint.bytes

/-- A rename to `<key>.qcow2`. -/
def putCheckpoint (key bytes : ℕ) : Store :=
  { s with checkpoints := ⟨key, bytes⟩ :: s.checkpoints.filter fun c => c.key ≠ key }

/-- `unlink` of `<key>.qcow2`. -/
def unlinkCheckpoint (key : ℕ) : Store :=
  { s with checkpoints := s.checkpoints.filter fun c => c.key ≠ key }

def setSidecar (key : ℕ) (v : Option ℕ) : Store :=
  { s with sidecars := Function.update s.sidecars key v }

def setFailure (key : ℕ) (v : Option ℕ) : Store :=
  { s with failures := Function.update s.failures key v }

def setLock (key : ℕ) (v : Option LockFile) : Store :=
  { s with locks := Function.update s.locks key v }

/-- A file of `leases/<key>`, in place of one with its uuid. -/
def putLease (key : ℕ) (f : LeaseFile) : Store :=
  let others := (s.leases key).filter fun g => g.name.uuid ≠ f.name.uuid
  { s with leases := Function.update s.leases key (f :: others) }

/-- `unlink` of a file of `leases/<key>`. -/
def unlinkLease (key : ℕ) (n : LeaseName) : Store :=
  { s with leases := Function.update s.leases key ((s.leases key).filter fun g => g.name ≠ n) }

/-- `readOwner` of a file of `leases/<key>`. -/
def leaseOwner (key : ℕ) (n : LeaseName) : Option ℕ :=
  ((s.leases key).find? fun f => f.name = n).bind LeaseFile.pid

/-- `readOwner` of `<key>.lock`. -/
def lockOwner (key : ℕ) : Option ℕ := (s.locks key).bind LockFile.pid

/-- A draw of `randomUUID`. -/
def drawUuid : Store := { s with nextUuid := s.nextUuid + 1 }

end Store

/-- `owner && processAlive(owner.pid)`. -/
def ownerAlive (dead : ℕ → Bool) : Option ℕ → Bool
  | some pid => !dead pid
  | none => false

/-! ## Control points -/

/-- `tryLock` of a key, and the release it returns. -/
inductive LockPhase where
  /-- The temporary file is written; `link` is next. -/
  | link (round : ℕ)
  /-- The lock exists; its owner is read next. -/
  | read (round : ℕ)
  | probe (round : ℕ) (owner : Option ℕ)
  /-- The owner is gone; the lock is unlinked next. -/
  | reclaim (round : ℕ)
  /-- `undefined` has been returned. -/
  | refused
  /-- The release has been returned. -/
  | held (uuid : ℕ)
  /-- The release has been called. -/
  | releasing (uuid : ℕ)
  | released
deriving DecidableEq, Repr

/-- `lease` of a key, and the `CheckpointLease` it returns. -/
inductive LeasePhase where
  | create
  | write (uuid : ℕ)
  | rename (uuid : ℕ)
  | sidecar (uuid : ℕ)
  | stat (uuid : ℕ)
  | touch (uuid : ℕ)
  /-- The lease has been returned. -/
  | held (uuid : ℕ)
  /-- The release has been called, or `lease` takes its own file back. -/
  | unlink (uuid : ℕ) (returned : Bool)
  | done (returned : Bool)
deriving DecidableEq, Repr

/-- `publish` of a key. -/
inductive PublishPhase where
  | rename (bytes : ℕ)
  | stat
  | sidecar
  | clear
  | done
  /-- The checkpoint was gone at its `stat`. -/
  | thrown
deriving DecidableEq, Repr

/-- What `waitFor` returns. -/
inductive WaitOutcome where
  | ready | failed | abandoned | timeout
deriving DecidableEq, Repr

/-- `waitFor` of a key. -/
inductive WaitPhase where
  | sidecar
  | failure
  | read
  | probe (owner : Option ℕ)
  | last
  | sleep
  | done (outcome : WaitOutcome)
deriving DecidableEq, Repr

/-- A candidate of `evict`. -/
structure Candidate where
  key : ℕ
  bytes : ℕ
  usedAt : ℕ
deriving DecidableEq, Repr

/-- What `evict` knows when it looks at a candidate: the candidates after it, the bytes of the
store, and what it has evicted. -/
structure Eviction where
  rest : List Candidate
  total : ℕ
  evicted : ℕ
  evictedBytes : ℕ
deriving DecidableEq, Repr

/-- How far `leased` is. -/
inductive LeasedPhase where
  | readdir
  | entries (todo : List LeaseName) (live : Bool)
  | probe (entry : LeaseName) (owner : Option ℕ) (todo : List LeaseName) (live : Bool)
  /-- The owner of the entry is gone; the entry is unlinked next. -/
  | unlink (entry : LeaseName) (todo : List LeaseName) (live : Bool)
deriving DecidableEq, Repr

/-- `evict` for a store of at most `maxBytes`. -/
inductive EvictPhase where
  | readdir
  | size (todo : List ℕ) (candidates : List Candidate) (total : ℕ)
  | used (key bytes : ℕ) (todo : List ℕ) (candidates : List Candidate) (total : ℕ)
  /-- The head of the loop over the candidates. -/
  | next (e : Eviction)
  /-- `leased`, before the sidecar is unlinked or after it. -/
  | leased (c : Candidate) (e : Eviction) (again : Bool) (p : LeasedPhase)
  | locked (c : Candidate) (e : Eviction)
  | probe (c : Candidate) (e : Eviction) (owner : Option ℕ)
  | sidecar (c : Candidate) (e : Eviction)
  | checkpoint (c : Candidate) (e : Eviction)
  | done (evicted evictedBytes : ℕ)
deriving DecidableEq, Repr

/-- The calls of the store. -/
inductive Phase where
  | tryLock (key : ℕ) (p : LockPhase)
  | lease (key : ℕ) (p : LeasePhase)
  | publish (key : ℕ) (p : PublishPhase)
  | recordFailure (key : ℕ) (recorded : Bool)
  | waitFor (key startedAt timeoutMs failureRetryMs : ℕ) (p : WaitPhase)
  | evict (maxBytes : ℕ) (p : EvictPhase)
deriving DecidableEq, Repr

/-- What a directory listing returned, where a move reads one. -/
inductive Input where
  | none
  | keys (keys : List ℕ)
  | names (names : List LeaseName)
deriving DecidableEq, Repr

/-! ## Moves -/

/-- `tryLock` and its release, for a process. -/
def moveLock (dead : ℕ → Bool) (pid key : ℕ) : LockPhase → Store → Option (Store × LockPhase)
  | .link round, s =>
    match s.locks key with
    | none => some (s.drawUuid.setLock key (some ⟨s.nextUuid, some pid⟩), .held s.nextUuid)
    | some _ => some (s.drawUuid, .read round)
  | .read round, s => some (s, .probe round (s.lockOwner key))
  | .probe round owner, s =>
    if ownerAlive dead owner then some (s, .refused) else some (s, .reclaim round)
  | .reclaim round, s =>
    some (s.setLock key none, if round = 0 then .link 1 else .refused)
  | .held uuid, s => some (s, .releasing uuid)
  | .releasing _, s => some (s.setLock key none, .released)
  | .refused, _ => none
  | .released, _ => none

/-- `lease` and the release it returns, for a process. -/
def moveLease (pid key : ℕ) : LeasePhase → Store → Option (Store × LeasePhase)
  | .create, s =>
    some (s.drawUuid.putLease key ⟨⟨s.nextUuid, false⟩, none⟩, .write s.nextUuid)
  | .write uuid, s => some (s.putLease key ⟨⟨uuid, false⟩, some pid⟩, .rename uuid)
  | .rename uuid, s => some (s.putLease key ⟨⟨uuid, true⟩, some pid⟩, .sidecar uuid)
  | .sidecar uuid, s =>
    some (s, if (s.sidecars key).isSome then .stat uuid else .unlink uuid false)
  | .stat uuid, s =>
    some (s, if s.hasCheckpoint key then .touch uuid else .unlink uuid false)
  | .touch uuid, s =>
    some (s.setSidecar key ((s.sidecars key).map fun _ => s.now), .held uuid)
  | .held uuid, s => some (s, .unlink uuid true)
  | .unlink uuid returned, s => some (s.unlinkLease key ⟨uuid, true⟩, .done returned)
  | .done _, _ => none

/-- `publish`. -/
def movePublish (key : ℕ) : PublishPhase → Store → Option (Store × PublishPhase)
  | .rename bytes, s => some (s.putCheckpoint key bytes, .stat)
  | .stat, s => some (s, if s.hasCheckpoint key then .sidecar else .thrown)
  | .sidecar, s => some (s.setSidecar key (some s.now), .clear)
  | .clear, s => some (s.setFailure key none, .done)
  | .done, _ => none
  | .thrown, _ => none

/-- `waitFor`. -/
def moveWait (dead : ℕ → Bool) (key startedAt timeoutMs failureRetryMs : ℕ) :
    WaitPhase → Store → Option WaitPhase
  | .sidecar, s => some (if (s.sidecars key).isSome then .done .ready else .failure)
  | .failure, s =>
    some <| match s.failures key with
      | some at_ => if s.now - at_ < failureRetryMs then .done .failed else .read
      | none => .read
  | .read, s => some (.probe (s.lockOwner key))
  | .probe owner, _ => some (if ownerAlive dead owner then .sleep else .last)
  | .last, s => some (.done (if (s.sidecars key).isSome then .ready else .abandoned))
  | .sleep, s => some (if timeoutMs ≤ s.now - startedAt then .done .timeout else .sidecar)
  | .done _, _ => none

/-- `leased` of a key: its next phase, or what it returns. -/
def moveLeased (dead : ℕ → Bool) (key : ℕ) (i : Input) :
    LeasedPhase → Store → Option (Store × (LeasedPhase ⊕ Bool))
  | .readdir, s =>
    match i with
    | .names names =>
      if names.Perm ((s.leases key).map LeaseFile.name) then some (s, .inl (.entries names false))
      else none
    | _ => none
  | .entries [] live, s => some (s, .inr live)
  | .entries (n :: todo) live, s => some (s, .inl (.probe n (s.leaseOwner key n) todo live))
  | .probe n owner todo live, s =>
    if ownerAlive dead owner then some (s, .inl (.entries todo true))
    else if n.json then some (s, .inl (.unlink n todo live))
    else some (s, .inl (.entries todo live))
  | .unlink n todo live, s => some (s.unlinkLease key n, .inl (.entries todo live))

/-- `evict`. -/
def moveEvict (dead : ℕ → Bool) (maxBytes : ℕ) (i : Input) :
    EvictPhase → Store → Option (Store × EvictPhase)
  | .readdir, s =>
    match i with
    | .keys keys =>
      if keys.Perm (s.checkpoints.map Checkpoint.key) then some (s, .size keys [] 0) else none
    | _ => none
  | .size [] candidates total, s =>
    some (s, .next ⟨candidates.insertionSort fun a b => a.usedAt ≤ b.usedAt, total, 0, 0⟩)
  | .size (key :: todo) candidates total, s =>
    match s.statCheckpoint key with
    | some bytes => some (s, .used key bytes todo candidates (total + bytes))
    | none => some (s, .size todo candidates total)
  | .used key bytes todo candidates total, s =>
    some (s, .size todo (candidates ++ [⟨key, bytes, (s.sidecars key).getD 0⟩]) total)
  | .next e, s =>
    match e.rest with
    | [] => some (s, .done e.evicted e.evictedBytes)
    | c :: rest =>
      if e.total ≤ maxBytes then some (s, .done e.evicted e.evictedBytes)
      else some (s, .leased c { e with rest := rest } false .readdir)
  | .leased c e again p, s =>
    (moveLeased dead c.key i p s).map fun r =>
      (r.1, match r.2 with
        | .inl p => .leased c e again p
        | .inr true => .next e
        | .inr false => if again then .checkpoint c e else .locked c e)
  | .locked c e, s => some (s, .probe c e (s.lockOwner c.key))
  | .probe c e owner, s => some (s, if ownerAlive dead owner then .next e else .sidecar c e)
  | .sidecar c e, s => some (s.setSidecar c.key none, .leased c e true .readdir)
  | .checkpoint c e, s =>
    some (s.unlinkCheckpoint c.key,
      .next { e with
        total := e.total - c.bytes
        evicted := e.evicted + 1
        evictedBytes := e.evictedBytes + c.bytes })
  | .done _ _, _ => none

/-- A move of any call. -/
def movePhase (dead : ℕ → Bool) (pid : ℕ) (i : Input) :
    Phase → Store → Option (Store × Phase)
  | .tryLock key p, s => (moveLock dead pid key p s).map fun r => (r.1, .tryLock key r.2)
  | .lease key p, s => (moveLease pid key p s).map fun r => (r.1, .lease key r.2)
  | .publish key p, s => (movePublish key p s).map fun r => (r.1, .publish key r.2)
  | .recordFailure key false, s => some (s.setFailure key (some s.now), .recordFailure key true)
  | .recordFailure _ true, _ => none
  | .waitFor key startedAt timeoutMs failureRetryMs p, s =>
    (moveWait dead key startedAt timeoutMs failureRetryMs p s).map fun p =>
      (s, .waitFor key startedAt timeoutMs failureRetryMs p)
  | .evict maxBytes p, s => (moveEvict dead maxBytes i p s).map fun r => (r.1, .evict maxBytes r.2)

/-- Where a call begins. -/
def Phase.entry : Phase → Bool
  | .tryLock _ (.link 0) => true
  | .lease _ .create => true
  | .publish _ (.rename _) => true
  | .recordFailure _ false => true
  | .waitFor _ _ _ _ .sidecar => true
  | .evict _ .readdir => true
  | _ => false

/-- The calls of the store by any processes; time passes from outside. -/
def program : Program Store Phase Input ℕ where
  entry _ _ k := k.entry
  move dead pid _ i := movePhase dead pid i
  free _ _ s := s
  outside n s := some { s with now := s.now + n }

/-- One step of the store. -/
abbrev step := World.step program

/-- One action on the store. -/
abbrev Act := Calls.Act Phase Input ℕ

/-! ## What the moves change -/

/-- The name a call has drawn and still uses. -/
def Phase.uuid : Phase → Option ℕ
  | .tryLock _ (.held u) | .tryLock _ (.releasing u) => some u
  | .lease _ (.write u) | .lease _ (.rename u) | .lease _ (.sidecar u) | .lease _ (.stat u)
  | .lease _ (.touch u) | .lease _ (.held u) | .lease _ (.unlink u _) => some u
  | _ => none

/-- The lock a call has linked and not yet unlinked: its key and its name. -/
def Phase.locked : Phase → Option (ℕ × ℕ)
  | .tryLock key (.held u) | .tryLock key (.releasing u) => some (key, u)
  | _ => none

theorem Phase.uuid_of_locked {k : Phase} {key u : ℕ} (h : k.locked = some (key, u)) :
    k.uuid = some u := by
  unfold locked at h
  split at h <;> cases h <;> rfl

variable {dead : ℕ → Bool} {pid : ℕ} {i : Input} {s t : Store}

theorem moveLeased_cases {key : ℕ} {p : LeasedPhase} {r : LeasedPhase ⊕ Bool}
    (h : moveLeased dead key i p s = some (t, r)) :
    t = s ∨ ∃ n todo live, p = .unlink n todo live ∧ t = s.unlinkLease key n ∧
      r = .inl (.entries todo live) := by
  cases p with
  | readdir =>
    left
    simp only [moveLeased] at h
    split at h
    · split at h
      · cases h
        rfl
      · cases h
    · cases h
  | entries todo live =>
    left
    cases todo <;> cases h <;> rfl
  | probe n owner todo live =>
    left
    simp only [moveLeased] at h
    split_ifs at h <;> cases h <;> rfl
  | unlink n todo live =>
    cases h
    exact Or.inr ⟨n, todo, live, rfl, rfl, rfl⟩

/-- **What a move of `evict` changes**: nothing, a lease file whose owner is gone, the sidecar, or
the checkpoint. -/
theorem moveEvict_cases {maxBytes : ℕ} {p q : EvictPhase}
    (h : moveEvict dead maxBytes i p s = some (t, q)) :
    t = s ∨
      (∃ c e again n todo live, p = .leased c e again (.unlink n todo live) ∧
        t = s.unlinkLease c.key n ∧ q = .leased c e again (.entries todo live)) ∨
      (∃ c e, p = .sidecar c e ∧ t = s.setSidecar c.key none ∧ q = .leased c e true .readdir) ∨
      ∃ c e e', p = .checkpoint c e ∧ t = s.unlinkCheckpoint c.key ∧ q = .next e' := by
  cases p with
  | readdir =>
    left
    simp only [moveEvict] at h
    split at h
    · split at h
      · cases h
        rfl
      · cases h
    · cases h
  | size todo candidates total =>
    left
    cases todo with
    | nil =>
      cases h
      rfl
    | cons key todo =>
      simp only [moveEvict] at h
      split at h <;> cases h <;> rfl
  | used key bytes todo candidates total =>
    cases h
    exact Or.inl rfl
  | next e =>
    left
    simp only [moveEvict] at h
    split at h
    · cases h
      rfl
    · split at h <;> cases h <;> rfl
  | leased c e again p =>
    obtain ⟨⟨u, r⟩, hm, hr⟩ := Option.map_eq_some_iff.mp h
    rcases moveLeased_cases hm with rfl | ⟨n, todo, live, rfl, rfl, rfl⟩
    · cases hr
      exact Or.inl rfl
    · cases hr
      exact Or.inr (Or.inl ⟨c, e, again, n, todo, live, rfl, rfl, rfl⟩)
  | locked c e =>
    cases h
    exact Or.inl rfl
  | probe c e owner =>
    cases h
    exact Or.inl rfl
  | sidecar c e =>
    cases h
    exact Or.inr (Or.inr (Or.inl ⟨c, e, rfl, rfl, rfl⟩))
  | checkpoint c e =>
    cases h
    exact Or.inr (Or.inr (Or.inr ⟨c, e, _, rfl, rfl, rfl⟩))
  | done evicted evictedBytes => cases h

/-- **What a move changes of the locks**: nothing, or it links a lock where there is none, reclaims
one, or releases its own. -/
theorem movePhase_locks {k k' : Phase} (h : movePhase dead pid i k s = some (t, k')) :
    (t.locks = s.locks ∧ (k'.locked = none ∨ k'.locked = k.locked)) ∨
      (∃ key, s.locks key = none ∧ k'.locked = some (key, s.nextUuid) ∧
        t.locks = Function.update s.locks key (some ⟨s.nextUuid, some pid⟩)) ∨
      (∃ key round, k = .tryLock key (.reclaim round) ∧ k'.locked = none ∧
        t.locks = Function.update s.locks key none) ∨
      ∃ key u, k.locked = some (key, u) ∧ k'.locked = none ∧
        t.locks = Function.update s.locks key none := by
  cases k with
  | tryLock key p =>
    obtain ⟨⟨u, q⟩, hm, hr⟩ := Option.map_eq_some_iff.mp h
    cases hr
    cases p with
    | link round =>
      simp only [moveLock] at hm
      split at hm
      · next hn =>
        cases hm
        exact Or.inr (Or.inl ⟨key, hn, rfl, rfl⟩)
      · cases hm
        exact Or.inl ⟨rfl, Or.inl rfl⟩
    | read round =>
      cases hm
      exact Or.inl ⟨rfl, Or.inl rfl⟩
    | probe round owner =>
      simp only [moveLock] at hm
      split at hm <;> cases hm <;> exact Or.inl ⟨rfl, Or.inl rfl⟩
    | reclaim round =>
      simp only [moveLock] at hm
      cases hm
      refine Or.inr (Or.inr (Or.inl ⟨key, round, rfl, ?_, rfl⟩))
      show Phase.locked (.tryLock key (if round = 0 then .link 1 else .refused)) = none
      split <;> rfl
    | held u =>
      cases hm
      exact Or.inl ⟨rfl, Or.inr rfl⟩
    | releasing u =>
      cases hm
      exact Or.inr (Or.inr (Or.inr ⟨key, u, rfl, rfl, rfl⟩))
    | refused => cases hm
    | released => cases hm
  | lease key p =>
    obtain ⟨⟨u, q⟩, hm, hr⟩ := Option.map_eq_some_iff.mp h
    cases hr
    refine Or.inl ⟨?_, Or.inl rfl⟩
    cases p <;> cases hm <;> rfl
  | publish key p =>
    obtain ⟨⟨u, q⟩, hm, hr⟩ := Option.map_eq_some_iff.mp h
    cases hr
    refine Or.inl ⟨?_, Or.inl rfl⟩
    cases p <;> cases hm <;> rfl
  | recordFailure key recorded =>
    cases recorded with
    | false =>
      cases h
      exact Or.inl ⟨rfl, Or.inl rfl⟩
    | true => cases h
  | waitFor key startedAt timeoutMs failureRetryMs p =>
    obtain ⟨q, -, hr⟩ := Option.map_eq_some_iff.mp h
    cases hr
    exact Or.inl ⟨rfl, Or.inl rfl⟩
  | evict maxBytes p =>
    obtain ⟨⟨u, q⟩, hm, hr⟩ := Option.map_eq_some_iff.mp h
    cases hr
    refine Or.inl ⟨?_, Or.inl rfl⟩
    rcases moveEvict_cases hm with rfl | ⟨c, e, again, n, todo, live, -, rfl, -⟩ |
      ⟨c, e, -, rfl, -⟩ | ⟨c, e, e', -, rfl, -⟩ <;> rfl

/-- A move draws one name at most, and a call has its name from a draw of its own. -/
theorem movePhase_uuid {k k' : Phase} (h : movePhase dead pid i k s = some (t, k')) :
    s.nextUuid ≤ t.nextUuid ∧
      (k'.uuid = some s.nextUuid ∧ s.nextUuid < t.nextUuid ∨ k'.uuid = none ∨ k'.uuid = k.uuid) := by
  cases k with
  | tryLock key p =>
    obtain ⟨⟨u, q⟩, hm, hr⟩ := Option.map_eq_some_iff.mp h
    cases hr
    cases p with
    | link round =>
      simp only [moveLock] at hm
      split at hm
      · cases hm
        exact ⟨Nat.le_succ _, Or.inl ⟨rfl, Nat.lt_succ_self _⟩⟩
      · cases hm
        exact ⟨Nat.le_succ _, Or.inr (Or.inl rfl)⟩
    | read round =>
      cases hm
      exact ⟨le_rfl, Or.inr (Or.inl rfl)⟩
    | probe round owner =>
      simp only [moveLock] at hm
      split at hm <;> cases hm <;> exact ⟨le_rfl, Or.inr (Or.inl rfl)⟩
    | reclaim round =>
      simp only [moveLock] at hm
      cases hm
      refine ⟨le_rfl, Or.inr (Or.inl ?_)⟩
      show Phase.uuid (.tryLock key (if round = 0 then .link 1 else .refused)) = none
      split <;> rfl
    | held u =>
      cases hm
      exact ⟨le_rfl, Or.inr (Or.inr rfl)⟩
    | releasing u =>
      cases hm
      exact ⟨le_rfl, Or.inr (Or.inl rfl)⟩
    | refused => cases hm
    | released => cases hm
  | lease key p =>
    obtain ⟨⟨u, q⟩, hm, hr⟩ := Option.map_eq_some_iff.mp h
    cases hr
    cases p with
    | create =>
      cases hm
      exact ⟨Nat.le_succ _, Or.inl ⟨rfl, Nat.lt_succ_self _⟩⟩
    | sidecar u =>
      cases hm
      refine ⟨le_rfl, Or.inr (Or.inr ?_)⟩
      show Phase.uuid (.lease key (if _ then .stat u else .unlink u false)) = some u
      split <;> rfl
    | stat u =>
      cases hm
      refine ⟨le_rfl, Or.inr (Or.inr ?_)⟩
      show Phase.uuid (.lease key (if _ then .touch u else .unlink u false)) = some u
      split <;> rfl
    | done returned => cases hm
    | unlink u returned =>
      cases hm
      exact ⟨le_rfl, Or.inr (Or.inl rfl)⟩
    | _ =>
      cases hm
      exact ⟨le_rfl, Or.inr (Or.inr rfl)⟩
  | publish key p =>
    obtain ⟨⟨u, q⟩, hm, hr⟩ := Option.map_eq_some_iff.mp h
    cases hr
    refine ⟨?_, Or.inr (Or.inl rfl)⟩
    cases p <;> cases hm <;> rfl
  | recordFailure key recorded =>
    cases recorded with
    | false =>
      cases h
      exact ⟨le_rfl, Or.inr (Or.inl rfl)⟩
    | true => cases h
  | waitFor key startedAt timeoutMs failureRetryMs p =>
    obtain ⟨q, -, hr⟩ := Option.map_eq_some_iff.mp h
    cases hr
    exact ⟨le_rfl, Or.inr (Or.inl rfl)⟩
  | evict maxBytes p =>
    obtain ⟨⟨u, q⟩, hm, hr⟩ := Option.map_eq_some_iff.mp h
    cases hr
    refine ⟨?_, Or.inr (Or.inl rfl)⟩
    rcases moveEvict_cases hm with rfl | ⟨c, e, again, n, todo, live, -, rfl, -⟩ |
      ⟨c, e, -, rfl, -⟩ | ⟨c, e, e', -, rfl, -⟩ <;> rfl

/-! ## The names calls have drawn -/

/-- A call has its name from an earlier draw. -/
def Drawn (a : Call Phase) (s : Store) : Prop := ∀ u, a.state.uuid = some u → u < s.nextUuid

/-- Two calls have drawn two names. -/
def Apart (a b : Call Phase) : Prop := ∀ u, a.state.uuid = some u → b.state.uuid ≠ some u

theorem Apart.symm {a b : Call Phase} (h : Apart a b) : Apart b a := fun u hb ha => h u ha hb

theorem Drawn.move {k k' : Phase} (h : movePhase dead pid i k s = some (t, k'))
    (hd : Drawn ⟨pid, k⟩ s) : Drawn ⟨pid, k'⟩ t := by
  obtain ⟨hle, hu⟩ := movePhase_uuid h
  intro u hk
  rcases hu with ⟨he, hlt⟩ | he | he
  · cases he.symm.trans hk
    exact hlt
  · cases he.symm.trans hk
  · have := hd u (he.symm.trans hk)
    omega

theorem Drawn.other {k k' : Phase} (h : movePhase dead pid i k s = some (t, k')) {b : Call Phase}
    (hd : Drawn b s) : Drawn b t := by
  have hle := (movePhase_uuid h).1
  intro u hb
  have := hd u hb
  omega

theorem Apart.move {k k' : Phase} (h : movePhase dead pid i k s = some (t, k')) {b : Call Phase}
    (hb : Drawn b s) (ha : Apart ⟨pid, k⟩ b) : Apart ⟨pid, k'⟩ b := by
  intro u hk hbu
  rcases (movePhase_uuid h).2 with ⟨he, -⟩ | he | he
  · cases he.symm.trans hk
    exact (hb _ hbu).false
  · cases he.symm.trans hk
  · exact ha u (he.symm.trans hk) hbu

end PiSubagent.Checkpoints
