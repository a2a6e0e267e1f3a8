import PiSubagent.Contracts
import PiSubagent.Lib.Runs
import PiSubagent.Lib.Utf8
import Mathlib.Data.Fintype.Pigeonhole

/-!
# The ports of run leases

A run's lease is a listener on a port that a hash of the store root and the run gives it, one of
20000. All runs, all calls of `acquireRunLease` and all start-ups are here, and no other program
binds these ports.

* `leasePort`, `Host.step`: the port of a lease, and any step of any seat.
* `Independent`: a lease of one run that is held never makes `acquireRunLease` of another fail.
* **`leases_independent`**: that is so exactly when the two ports differ; and a start-up lists every
  record whose own lease is not in the way, where no two runs with one port are acquired.
* **`leases_collide`**: whatever the hash is, there are runs whose leases share a port.
-/

namespace PiSubagent.LeasePorts

open JsonText Utf8 Runs

/-- The store root and the run of a lease. -/
structure LeaseKey where
  root : JsString
  runId : JsString
deriving DecidableEq, Repr

variable (digest : List UInt8 → ℕ)

/-- `leasePort`, given the first four bytes of a SHA-256. -/
def leasePort (k : LeaseKey) : ℕ :=
  20000 + digest (encode (charsOf k.root) ++ 0 :: encode (charsOf k.runId)) % 20000

/-- How far a call of `acquireRunLease` is. -/
inductive Phase where
  | unused
  /-- The port is bound, and the record is not in place yet. -/
  | acquiring
  | held
  /-- `RunLeaseUnavailableError`: the port was held by this call. -/
  | unavailable (holder : ℕ)
  /-- The lease was released, the call has thrown after its bind, or its process has died. -/
  | closed
deriving DecidableEq, Repr

/-- The call listens on its port. -/
def Phase.listening : Phase → Bool
  | .acquiring | .held => true
  | _ => false

/-- A call of `acquireRunLease`. -/
structure LeaseCall where
  seat : ℕ
  key : LeaseKey
  phase : Phase
deriving DecidableEq, Repr

/-- The recovery loop of a start-up: its records, those it has still to visit, its call for the one
it is at, the runs it has listed, and the calls for those it has skipped. -/
structure Startup where
  seat : ℕ
  records : List LeaseKey
  pending : List LeaseKey
  current : Option ℕ
  listed : List LeaseKey
  skipped : List ℕ
  running : Bool
deriving DecidableEq, Repr

/-- The loop has come to its end. -/
def Startup.finished (u : Startup) : Bool := u.running && u.pending.isEmpty && u.current.isNone

/-- The ports and all calls and start-ups so far. -/
structure Host where
  port : ℕ → Option ℕ
  calls : ℕ → LeaseCall
  next : ℕ
  startups : ℕ → Startup
  nextStartup : ℕ

/-- The steps of the seats. -/
inductive HostAct where
  /-- `acquireRunLease` anywhere but in a start-up: bind the port. -/
  | acquire (seat : ℕ) (k : LeaseKey)
  /-- The record of a lease is in place, and the lease is returned. -/
  | publish (c : ℕ)
  /-- The listener is closed: by `release`, or because the call throws. -/
  | close (c : ℕ)
  /-- The process of a seat dies. -/
  | die (seat : ℕ)
  /-- A start-up reads its records. -/
  | open (seat : ℕ) (records : List LeaseKey)
  /-- A start-up calls `acquireRunLease` for its next record. -/
  | visit (i : ℕ)
  /-- A start-up that has its lease recovers and lists the run, and releases the lease. -/
  | list (i : ℕ)
  /-- A start-up throws. -/
  | abort (i : ℕ)
deriving DecidableEq, Repr

namespace Host

variable (s : Host)

/-- A call that binds the port of its run, or finds it bound. -/
def bind (seat : ℕ) (k : LeaseKey) : Host :=
  match s.port (leasePort digest k) with
  | none => { s with
      port := Function.update s.port (leasePort digest k) (some s.next)
      calls := Function.update s.calls s.next ⟨seat, k, .acquiring⟩
      next := s.next + 1 }
  | some h => { s with
      calls := Function.update s.calls s.next ⟨seat, k, .unavailable h⟩
      next := s.next + 1 }

/-- The phase of a call changes. -/
def setPhase (c : ℕ) (p : Phase) : Host :=
  { s with calls := Function.update s.calls c { s.calls c with phase := p } }

/-- The listener of a call is closed, and its port is free. -/
def close (c : ℕ) : Host :=
  { s.setPhase c .closed with
    port := Function.update s.port (leasePort digest (s.calls c).key) none }

/-- A start-up changes. -/
def setStartup (i : ℕ) (u : Startup) : Host :=
  { s with startups := Function.update s.startups i u }

/-- The process of a seat dies: its listeners are closed and its start-ups are over. -/
def die (seat : ℕ) : Host where
  port := fun p => (s.port p).filter fun h => (s.calls h).seat ≠ seat
  calls := fun c =>
    if (s.calls c).seat = seat ∧ (s.calls c).phase.listening = true then
      { s.calls c with phase := .closed }
    else s.calls c
  next := s.next
  startups := fun i =>
    if (s.startups i).seat = seat then { s.startups i with running := false } else s.startups i
  nextStartup := s.nextStartup

/-- A start-up acquires the lease of its next record; a run whose lease is unavailable is skipped. -/
def visit (i : ℕ) : Option Host :=
  match (s.startups i).running, (s.startups i).current, (s.startups i).pending with
  | true, none, k :: ks =>
    if isRunId k.runId then
      match s.port (leasePort digest k) with
      | none => some ((s.bind digest (s.startups i).seat k).setStartup i
          { s.startups i with pending := ks, current := some s.next })
      | some _ => some ((s.bind digest (s.startups i).seat k).setStartup i
          { s.startups i with pending := ks, skipped := (s.startups i).skipped ++ [s.next] })
    else none
  | _, _, _ => none

/-- A start-up that has a lease recovers and lists its run, and releases the lease. -/
def list (i : ℕ) : Option Host :=
  match (s.startups i).running, (s.startups i).current with
  | true, some c =>
    if (s.calls c).phase = .held then
      some ((s.close digest c).setStartup i
        { s.startups i with
          current := none, listed := (s.startups i).listed ++ [(s.calls c).key] })
    else none
  | _, _ => none

/-- A step of a seat. -/
def step : HostAct → Option Host
  | .acquire seat k => if isRunId k.runId then some (s.bind digest seat k) else none
  | .publish c =>
    if (s.calls c).phase = .acquiring then some (s.setPhase c .held) else none
  | .close c => if (s.calls c).phase.listening then some (s.close digest c) else none
  | .die seat => some (s.die seat)
  | .open seat records =>
    some { s with
      startups := Function.update s.startups s.nextStartup
        ⟨seat, records, records, none, [], [], true⟩
      nextStartup := s.nextStartup + 1 }
  | .visit i => s.visit digest i
  | .list i => s.list digest i
  | .abort i => some (s.setStartup i { s.startups i with running := false })

end Host

/-- Before any call. -/
def start : Host where
  port := fun _ => none
  calls := fun _ => ⟨0, ⟨[], []⟩, .unused⟩
  next := 0
  startups := fun _ => ⟨0, [], [], none, [], [], false⟩
  nextStartup := 0

/-- A lease of `a` that is held never makes a call of `acquireRunLease` for `b` fail. -/
def Independent (a b : LeaseKey) : Prop :=
  ∀ acts s t seat h, exec (Host.step digest) start acts = some s →
    s.step digest (.acquire seat b) = some t → (s.calls h).key = a → (s.calls h).phase = .held →
      (t.calls s.next).phase ≠ .unavailable h

namespace Host

/-- No call so far was for another run with the same port. -/
def AloneOnPort (s : Host) (k : LeaseKey) : Prop :=
  ∀ h < s.next, leasePort digest (s.calls h).key = leasePort digest k → (s.calls h).key = k

/-- The run that is acquired shares its port with no other run acquired before. -/
def Apart (s : Host) : HostAct → Prop
  | .acquire _ k => s.AloneOnPort digest k
  | .visit i => ∀ k ∈ (s.startups i).pending.head?, s.AloneOnPort digest k
  | _ => True

/-- A record that a start-up was refused, by a call for the same run. -/
def Refused (s : Host) (u : Startup) (k : LeaseKey) : Prop :=
  ∃ c ∈ u.skipped, ∃ h, (s.calls c).key = k ∧ (s.calls c).phase = .unavailable h ∧
    (s.calls h).key = k

/-! ## What every step keeps -/

/-- Every record of a start-up is still to be visited, at hand, listed or skipped, by calls that have
been made. -/
structure Covers (s : Host) (u : Startup) : Prop where
  records : ∀ k ∈ u.records, k ∈ u.pending ∨ (∃ c ∈ u.current, (s.calls c).key = k) ∨ k ∈ u.listed ∨
    ∃ c ∈ u.skipped, (s.calls c).key = k ∧ ∃ h, (s.calls c).phase = .unavailable h
  current : ∀ c ∈ u.current, c < s.next
  skipped : ∀ c ∈ u.skipped, c < s.next

/-- What holds of the ports, the refused calls and the start-ups in every reachable state. -/
structure Inv (s : Host) : Prop where
  port : ∀ p h, s.port p = some h →
    h < s.next ∧ leasePort digest (s.calls h).key = p ∧ (s.calls h).phase.listening = true
  bounded : ∀ c h, (s.calls c).phase = .unavailable h → c < s.next ∧ h < s.next
  startups : ∀ i, s.Covers (s.startups i)
  unused : ∀ c, s.next ≤ c → (s.calls c).phase = .unused

/-- Every call that was refused was refused by a call for the same run. -/
def Own (s : Host) : Prop :=
  ∀ c h, (s.calls c).phase = .unavailable h → (s.calls h).key = (s.calls c).key

/-- The calls of one state in a later one. -/
structure Later (s t : Host) : Prop where
  next : s.next ≤ t.next
  key : ∀ c < s.next, (t.calls c).key = (s.calls c).key
  refused : ∀ c < s.next, ∀ h, (t.calls c).phase = .unavailable h ↔
    (s.calls c).phase = .unavailable h

variable {digest}

theorem inv_start : start.Inv digest where
  port := fun _ _ h => nomatch h
  bounded := fun _ _ h => nomatch h
  startups := fun _ => ⟨fun _ h => absurd h List.not_mem_nil, fun _ h => (nomatch h),
    fun _ h => absurd h List.not_mem_nil⟩
  unused := fun _ _ => rfl

theorem own_start : start.Own := fun _ _ h => nomatch h

variable {s : Host}

/-- What a start-up has covered it has covered in every later state. -/
theorem Covers.later {u : Startup} (hu : s.Covers u) {t : Host} (hl : s.Later t) : t.Covers u where
  records := by
    intro k hk
    rcases hu.records k hk with h | ⟨c, hc, hk⟩ | h | ⟨c, hc, hk, h, hh⟩
    · exact Or.inl h
    · exact Or.inr (Or.inl ⟨c, hc, (hl.key c (hu.current c hc)).trans hk⟩)
    · exact Or.inr (Or.inr (Or.inl h))
    · have hlt := hu.skipped c hc
      exact Or.inr (Or.inr (Or.inr
        ⟨c, hc, (hl.key c hlt).trans hk, h, (hl.refused c hlt h).mpr hh⟩))
  current := fun c hc => (hu.current c hc).trans_le hl.next
  skipped := fun c hc => (hu.skipped c hc).trans_le hl.next

theorem bind_startups (seat : ℕ) (k : LeaseKey) : (s.bind digest seat k).startups = s.startups := by
  unfold Host.bind
  split <;> rfl

theorem bind_next (seat : ℕ) (k : LeaseKey) : (s.bind digest seat k).next = s.next + 1 := by
  unfold Host.bind
  split <;> rfl

theorem bind_calls_of_ne (seat : ℕ) (k : LeaseKey) {c : ℕ} (hc : c ≠ s.next) :
    (s.bind digest seat k).calls c = s.calls c := by
  unfold Host.bind
  split
  · exact Function.update_of_ne hc _ _
  · exact Function.update_of_ne hc _ _

theorem bind_key (seat : ℕ) (k : LeaseKey) : ((s.bind digest seat k).calls s.next).key = k := by
  unfold Host.bind
  split
  · dsimp only
    rw [Function.update_self]
  · dsimp only
    rw [Function.update_self]

theorem bind_refused (seat : ℕ) (k : LeaseKey) (h : ℕ) :
    ((s.bind digest seat k).calls s.next).phase = .unavailable h ↔
      s.port (leasePort digest k) = some h := by
  unfold Host.bind
  cases s.port (leasePort digest k) with
  | none =>
    dsimp only
    rw [Function.update_self]
    exact iff_of_false Phase.noConfusion (fun h => nomatch h)
  | some h' =>
    dsimp only
    rw [Function.update_self]
    exact ⟨fun he => congrArg some (Phase.unavailable.inj he),
      fun he => congrArg Phase.unavailable (Option.some.inj he)⟩

theorem bind_later (seat : ℕ) (k : LeaseKey) : s.Later (s.bind digest seat k) where
  next := by
    rw [bind_next]
    exact Nat.le_succ _
  key := fun c hc => by rw [bind_calls_of_ne seat k hc.ne]
  refused := fun c hc h => by rw [bind_calls_of_ne seat k hc.ne]

theorem bind_inv (hi : s.Inv digest) (seat : ℕ) (k : LeaseKey) : (s.bind digest seat k).Inv digest where
  port := by
    intro p h hp
    rw [bind_next]
    have hold : s.port p = some h → h < s.next + 1 ∧
        leasePort digest ((s.bind digest seat k).calls h).key = p ∧
          ((s.bind digest seat k).calls h).phase.listening = true := by
      intro hp
      obtain ⟨hlt, hkey, hlistening⟩ := hi.port p h hp
      rw [bind_calls_of_ne seat k hlt.ne]
      exact ⟨hlt.trans (Nat.lt_succ_self _), hkey, hlistening⟩
    cases hfree : s.port (leasePort digest k) with
    | some h' =>
      apply hold
      rwa [Host.bind, hfree] at hp
    | none =>
      have hbind : s.bind digest seat k = { s with
          port := Function.update s.port (leasePort digest k) (some s.next)
          calls := Function.update s.calls s.next ⟨seat, k, .acquiring⟩
          next := s.next + 1 } := by rw [Host.bind, hfree]
      by_cases hpk : p = leasePort digest k
      · rw [hbind] at hp ⊢
        subst hpk
        dsimp only at hp ⊢
        rw [Function.update_self] at hp
        obtain rfl := Option.some.inj hp
        rw [Function.update_self]
        exact ⟨Nat.lt_succ_self _, rfl, rfl⟩
      · apply hold
        rw [hbind] at hp
        dsimp only at hp
        rwa [Function.update_of_ne hpk] at hp
  bounded := by
    intro c h hc
    rw [bind_next]
    by_cases hcn : c = s.next
    · subst hcn
      have hport := hi.port _ h ((bind_refused seat k h).mp hc)
      exact ⟨Nat.lt_succ_self _, hport.1.trans (Nat.lt_succ_self _)⟩
    · rw [bind_calls_of_ne seat k hcn] at hc
      have hb := hi.bounded c h hc
      exact ⟨hb.1.trans (Nat.lt_succ_self _), hb.2.trans (Nat.lt_succ_self _)⟩
  startups := by
    intro i
    rw [bind_startups]
    exact (hi.startups i).later (bind_later seat k)
  unused := by
    intro c hc
    rw [bind_next] at hc
    rw [bind_calls_of_ne seat k (by omega)]
    exact hi.unused c (by omega)

theorem setPhase_calls_of_ne {c d : ℕ} (hd : d ≠ c) (p : Phase) :
    (s.setPhase c p).calls d = s.calls d := Function.update_of_ne hd _ _

theorem setPhase_calls (c : ℕ) (p : Phase) :
    (s.setPhase c p).calls c = { s.calls c with phase := p } := Function.update_self _ _ _

theorem setPhase_later {c : ℕ} {p : Phase} (hc : (s.calls c).phase.listening = true)
    (hp : ∀ h, p ≠ .unavailable h) : s.Later (s.setPhase c p) where
  next := le_refl _
  key := by
    intro d _
    by_cases hd : d = c
    · rw [hd, setPhase_calls]
    · rw [setPhase_calls_of_ne hd]
  refused := by
    intro d _ h
    by_cases hd : d = c
    · rw [hd, setPhase_calls]
      refine iff_of_false (hp h) fun he => ?_
      rw [he] at hc
      exact Bool.false_ne_true hc
    · rw [setPhase_calls_of_ne hd]

/-- A call that listens goes on to another phase, and its port is as said. -/
theorem setPhase_inv (hi : s.Inv digest) {c : ℕ} {p : Phase}
    (hc : (s.calls c).phase.listening = true) (hp : ∀ h, p ≠ .unavailable h)
    {port : ℕ → Option ℕ} (hport : ∀ q h, port q = some h → s.port q = some h ∧
      (h = c → p.listening = true)) :
    ({ s.setPhase c p with port := port } : Host).Inv digest where
  port := by
    intro q h hq
    obtain ⟨hq, hh⟩ := hport q h hq
    obtain ⟨hlt, hkey, hlistening⟩ := hi.port q h hq
    refine ⟨hlt, ((congrArg (leasePort digest) ((setPhase_later hc hp).key h hlt)).trans hkey), ?_⟩
    by_cases hhc : h = c
    · change ((s.setPhase c p).calls h).phase.listening = true
      rw [hhc, setPhase_calls]
      exact hh hhc
    · change ((s.setPhase c p).calls h).phase.listening = true
      rw [setPhase_calls_of_ne hhc]
      exact hlistening
  bounded := by
    intro d h hd
    change ((s.setPhase c p).calls d).phase = .unavailable h at hd
    by_cases hdc : d = c
    · rw [hdc, setPhase_calls] at hd
      exact absurd hd (hp h)
    · rw [setPhase_calls_of_ne hdc] at hd
      exact hi.bounded d h hd
  startups := by
    intro i
    have hlater := (hi.startups i).later (setPhase_later hc hp)
    exact ⟨hlater.records, hlater.current, hlater.skipped⟩
  unused := by
    intro d hd
    change ((s.setPhase c p).calls d).phase = .unused
    by_cases hdc : d = c
    · subst hdc
      rw [hi.unused d hd] at hc
      exact absurd hc Bool.false_ne_true
    · rw [setPhase_calls_of_ne hdc]
      exact hi.unused d hd

theorem close_later {c : ℕ} (hc : (s.calls c).phase.listening = true) :
    s.Later (s.close digest c) where
  next := le_refl _
  key := (setPhase_later (p := .closed) hc fun _ => Phase.noConfusion).key
  refused := (setPhase_later (p := .closed) hc fun _ => Phase.noConfusion).refused

theorem close_inv (hi : s.Inv digest) {c : ℕ} (hc : (s.calls c).phase.listening = true) :
    (s.close digest c).Inv digest := by
  apply setPhase_inv hi hc fun _ => Phase.noConfusion
  intro q h hq
  by_cases hqc : q = leasePort digest (s.calls c).key
  · rw [hqc, Function.update_self] at hq
    exact nomatch hq
  · rw [Function.update_of_ne hqc] at hq
    refine ⟨hq, fun hh => absurd ?_ hqc⟩
    rw [← hh]
    exact (hi.port q h hq).2.1.symm

theorem setStartup_inv (hi : s.Inv digest) {i : ℕ} {u : Startup} (hu : s.Covers u) :
    (s.setStartup i u).Inv digest where
  port := hi.port
  bounded := hi.bounded
  startups := by
    intro j
    have hcovers : s.Covers (Function.update s.startups i u j) := by
      by_cases hj : j = i
      · rw [hj, Function.update_self]
        exact hu
      · rw [Function.update_of_ne hj]
        exact hi.startups j
    exact ⟨hcovers.records, hcovers.current, hcovers.skipped⟩
  unused := hi.unused

theorem die_calls_key (seat c : ℕ) : ((s.die seat).calls c).key = (s.calls c).key := by
  change (if (s.calls c).seat = seat ∧ (s.calls c).phase.listening = true then
    { s.calls c with phase := .closed } else s.calls c).key = (s.calls c).key
  split <;> rfl

theorem die_calls_refused (seat c h : ℕ) :
    ((s.die seat).calls c).phase = .unavailable h ↔ (s.calls c).phase = .unavailable h := by
  change (if (s.calls c).seat = seat ∧ (s.calls c).phase.listening = true then
    { s.calls c with phase := .closed } else s.calls c).phase = .unavailable h ↔ _
  split
  · rename_i hc
    refine iff_of_false Phase.noConfusion fun he => ?_
    rw [he] at hc
    exact Bool.false_ne_true hc.2
  · exact Iff.rfl

theorem die_later (seat : ℕ) : s.Later (s.die seat) where
  next := le_refl _
  key := fun c _ => die_calls_key seat c
  refused := fun c _ h => die_calls_refused seat c h

theorem die_inv (hi : s.Inv digest) (seat : ℕ) : (s.die seat).Inv digest where
  port := by
    intro p h hp
    obtain ⟨hp, hseat⟩ := Option.filter_eq_some_iff.mp hp
    obtain ⟨hlt, hkey, hlistening⟩ := hi.port p h hp
    have hcall : (s.die seat).calls h = s.calls h := if_neg fun hc => of_decide_eq_true hseat hc.1
    rw [hcall]
    exact ⟨hlt, hkey, hlistening⟩
  bounded := fun c h hc => hi.bounded c h ((die_calls_refused seat c h).mp hc)
  startups := by
    intro i
    have hlater := (hi.startups i).later (die_later seat)
    have hcovers : (s.die seat).Covers (if (s.startups i).seat = seat then
        { s.startups i with running := false } else s.startups i) := by
      split
      · exact ⟨hlater.records, hlater.current, hlater.skipped⟩
      · exact hlater
    exact hcovers
  unused := by
    intro c hc
    have hunused := hi.unused c hc
    have hcall : (s.die seat).calls c = s.calls c := by
      refine if_neg fun h => ?_
      rw [hunused] at h
      exact Bool.false_ne_true h.2
    rw [hcall]
    exact hunused

/-! ## Every step -/

/-- **A step of a start-up that visits a record**: its call is made, and it has its lease to come or
is refused. -/
theorem visit_cases {t : Host} {i : ℕ} (h : s.visit digest i = some t) :
    ∃ k ks, (s.startups i).current = none ∧ (s.startups i).pending = k :: ks ∧
      ((s.port (leasePort digest k) = none ∧
          t = (s.bind digest (s.startups i).seat k).setStartup i
            { s.startups i with pending := ks, current := some s.next }) ∨
        ∃ holder, s.port (leasePort digest k) = some holder ∧
          t = (s.bind digest (s.startups i).seat k).setStartup i
            { s.startups i with
              pending := ks, skipped := (s.startups i).skipped ++ [s.next] }) := by
  unfold Host.visit at h
  cases hr : (s.startups i).running with
  | false =>
    rw [hr] at h
    exact nomatch h
  | true =>
    cases hc : (s.startups i).current with
    | some c =>
      rw [hr, hc] at h
      exact nomatch h
    | none =>
      cases hp : (s.startups i).pending with
      | nil =>
        rw [hr, hc, hp] at h
        exact nomatch h
      | cons k ks =>
        rw [hr, hc, hp] at h
        dsimp only at h
        split at h
        · refine ⟨k, ks, rfl, rfl, ?_⟩
          cases hport : s.port (leasePort digest k) with
          | none =>
            rw [hport] at h
            exact Or.inl ⟨rfl, (Option.some.inj h).symm⟩
          | some holder =>
            rw [hport] at h
            exact Or.inr ⟨holder, rfl, (Option.some.inj h).symm⟩
        · exact nomatch h

/-- A step of a start-up that lists a run, and gives its lease back. -/
theorem list_cases {t : Host} {i : ℕ} (h : s.list digest i = some t) :
    ∃ c, (s.startups i).current = some c ∧ (s.calls c).phase = .held ∧
      t = (s.close digest c).setStartup i
        { s.startups i with
          current := none, listed := (s.startups i).listed ++ [(s.calls c).key] } := by
  unfold Host.list at h
  cases hr : (s.startups i).running with
  | false =>
    rw [hr] at h
    exact nomatch h
  | true =>
    cases hc : (s.startups i).current with
    | none =>
      rw [hr, hc] at h
      exact nomatch h
    | some c =>
      rw [hr, hc] at h
      dsimp only at h
      split at h
      · exact ⟨c, rfl, ‹_›, (Option.some.inj h).symm⟩
      · exact nomatch h

theorem visit_covers (hi : s.Inv digest) {i : ℕ} {k : LeaseKey} {ks : List LeaseKey}
    (hc : (s.startups i).current = none) (hp : (s.startups i).pending = k :: ks) :
    (s.port (leasePort digest k) = none → (s.bind digest (s.startups i).seat k).Covers
        { s.startups i with pending := ks, current := some s.next }) ∧
      ∀ holder, s.port (leasePort digest k) = some holder →
        (s.bind digest (s.startups i).seat k).Covers
          { s.startups i with pending := ks, skipped := (s.startups i).skipped ++ [s.next] } := by
  have hbind : s.Later (s.bind digest (s.startups i).seat k) := bind_later (s.startups i).seat k
  have hlater := (hi.startups i).later hbind
  have hkey : ((s.bind digest (s.startups i).seat k).calls s.next).key = k :=
    bind_key (s.startups i).seat k
  have hnew : s.next < (s.bind digest (s.startups i).seat k).next := by
    rw [bind_next]
    exact Nat.lt_succ_self _
  refine ⟨fun _ => ⟨?_, ?_, hlater.skipped⟩, fun holder hport => ⟨?_, hlater.current, ?_⟩⟩
  · intro k' hk'
    rcases hlater.records k' hk' with h | ⟨c, hc', -⟩ | h | h
    · rw [hp] at h
      rcases List.mem_cons.mp h with rfl | h
      · exact Or.inr (Or.inl ⟨s.next, rfl, hkey⟩)
      · exact Or.inl h
    · rw [hc] at hc'
      exact nomatch hc'
    · exact Or.inr (Or.inr (Or.inl h))
    · exact Or.inr (Or.inr (Or.inr h))
  · intro c hc'
    obtain rfl := Option.some.inj hc'
    exact hnew
  · intro k' hk'
    rcases hlater.records k' hk' with h | ⟨c, hc', -⟩ | h | ⟨c, hcs, h⟩
    · rw [hp] at h
      rcases List.mem_cons.mp h with rfl | h
      · exact Or.inr (Or.inr (Or.inr ⟨s.next, List.mem_append_right _ (List.mem_singleton_self _),
          hkey, holder, (bind_refused _ _ holder).mpr hport⟩))
      · exact Or.inl h
    · rw [hc] at hc'
      exact nomatch hc'
    · exact Or.inr (Or.inr (Or.inl h))
    · exact Or.inr (Or.inr (Or.inr ⟨c, List.mem_append_left _ hcs, h⟩))
  · intro c hcs
    rcases List.mem_append.mp hcs with hcs | hcs
    · exact hlater.skipped c hcs
    · rw [List.mem_singleton.mp hcs]
      exact hnew

theorem list_covers (hi : s.Inv digest) {i c : ℕ} (hc : (s.startups i).current = some c)
    (hl : (s.calls c).phase.listening = true) :
    (s.close digest c).Covers { s.startups i with
      current := none, listed := (s.startups i).listed ++ [(s.calls c).key] } where
  records := by
    intro k hk
    have hlater : s.Later (s.close digest c) := close_later hl
    rcases ((hi.startups i).later hlater).records k hk with h | ⟨d, hd, h⟩ | h | h
    · exact Or.inl h
    · rw [hc] at hd
      obtain rfl := Option.some.inj hd
      have hkey := hlater.key c ((hi.startups i).current c hc)
      exact Or.inr (Or.inr (Or.inl (List.mem_append_right _ (by
        rw [← h, hkey]
        exact List.mem_singleton_self _))))
    · exact Or.inr (Or.inr (Or.inl (List.mem_append_left _ h)))
    · exact Or.inr (Or.inr (Or.inr h))
  current := fun _ h => (nomatch h)
  skipped := by
    have hlater : s.Later (s.close digest c) := close_later hl
    exact ((hi.startups i).later hlater).skipped

theorem listening_of_acquiring {p : Phase} (h : p = .acquiring) : p.listening = true := by
  rw [h]
  rfl

theorem listening_of_held {p : Phase} (h : p = .held) : p.listening = true := by
  rw [h]
  rfl

/-- **Every step keeps the invariant.** -/
theorem step_inv (hi : s.Inv digest) {a : HostAct} {t : Host} (h : s.step digest a = some t) :
    t.Inv digest := by
  cases a with
  | acquire seat k =>
    obtain ⟨-, ⟨⟩⟩ := Option.ite_none_right_eq_some.mp h
    exact bind_inv hi seat k
  | publish c =>
    obtain ⟨hc, ⟨⟩⟩ := Option.ite_none_right_eq_some.mp h
    exact setPhase_inv hi (listening_of_acquiring hc) (fun _ => Phase.noConfusion)
      fun _ _ hq => ⟨hq, fun _ => rfl⟩
  | close c =>
    obtain ⟨hc, ⟨⟩⟩ := Option.ite_none_right_eq_some.mp h
    exact close_inv hi hc
  | die seat =>
    obtain rfl := Option.some.inj h
    exact die_inv hi seat
  | «open» seat records =>
    obtain rfl := Option.some.inj h
    have hopen := setStartup_inv hi (i := s.nextStartup)
      (u := ⟨seat, records, records, none, [], [], true⟩) ⟨fun k hk => Or.inl hk,
        fun _ h => (nomatch h), fun _ h => absurd h List.not_mem_nil⟩
    exact ⟨hopen.port, hopen.bounded, fun i => ⟨(hopen.startups i).records,
      (hopen.startups i).current, (hopen.startups i).skipped⟩, hopen.unused⟩
  | visit i =>
    obtain ⟨k, ks, hc, hp, ⟨hport, rfl⟩ | ⟨holder, hport, rfl⟩⟩ := visit_cases h
    · exact setStartup_inv (bind_inv hi _ k) ((visit_covers hi hc hp).1 hport)
    · exact setStartup_inv (bind_inv hi _ k) ((visit_covers hi hc hp).2 holder hport)
  | list i =>
    obtain ⟨c, hc, hheld, rfl⟩ := list_cases h
    exact setStartup_inv (close_inv hi (listening_of_held hheld))
      (list_covers hi hc (listening_of_held hheld))
  | abort i =>
    obtain rfl := Option.some.inj h
    exact setStartup_inv hi ⟨(hi.startups i).records, (hi.startups i).current,
      (hi.startups i).skipped⟩

/-- A refusal of one state is one of a later state, for the same runs. -/
theorem Own.later (ho : s.Own) (hi : s.Inv digest) {t : Host} (hl : s.Later t)
    (hnew : ∀ c, s.next ≤ c → ∀ h, (t.calls c).phase = .unavailable h →
      (t.calls h).key = (t.calls c).key) : t.Own := by
  intro c h hc
  by_cases hlt : c < s.next
  · have hs := (hl.refused c hlt h).mp hc
    rw [hl.key c hlt, hl.key h (hi.bounded c h hs).2]
    exact ho c h hs
  · exact hnew c (Nat.not_lt.mp hlt) h hc

/-- A call on a port that no other run has used is refused by its own run only. -/
theorem bind_own (ho : s.Own) (hi : s.Inv digest) (seat : ℕ) {k : LeaseKey}
    (hk : s.AloneOnPort digest k) : (s.bind digest seat k).Own := by
  refine ho.later hi (bind_later seat k) fun c hc h hh => ?_
  have hlt := ((bind_inv hi seat k).bounded c h hh).1
  rw [bind_next] at hlt
  obtain rfl : c = s.next := by omega
  have hport := hi.port _ h ((bind_refused seat k h).mp hh)
  rw [bind_key, bind_calls_of_ne seat k hport.1.ne]
  exact hk h hport.1 hport.2.1

/-- **A step that acquires no run on another's port keeps refusals to their own runs.** -/
theorem step_own (ho : s.Own) (hi : s.Inv digest) {a : HostAct} {t : Host}
    (ha : s.Apart digest a) (h : s.step digest a = some t) : t.Own := by
  have hsame {t : Host} (ht : t.Inv digest) (hl : s.Later t) (hn : t.next = s.next) : t.Own := by
    refine ho.later hi hl fun c hc h hh => ?_
    rw [ht.unused c (hn.le.trans hc)] at hh
    exact nomatch hh
  have ht := step_inv hi h
  cases a with
  | acquire seat k =>
    obtain ⟨-, ⟨⟩⟩ := Option.ite_none_right_eq_some.mp h
    exact bind_own ho hi seat ha
  | publish c =>
    obtain ⟨hc, ⟨⟩⟩ := Option.ite_none_right_eq_some.mp h
    exact hsame ht (setPhase_later (listening_of_acquiring hc) fun _ => Phase.noConfusion) rfl
  | close c =>
    obtain ⟨hc, ⟨⟩⟩ := Option.ite_none_right_eq_some.mp h
    exact hsame ht (close_later hc) rfl
  | die seat =>
    obtain rfl := Option.some.inj h
    exact hsame ht (die_later seat) rfl
  | «open» seat records =>
    obtain rfl := Option.some.inj h
    exact ho
  | visit i =>
    obtain ⟨k, ks, hc, hp, ⟨hport, rfl⟩ | ⟨holder, hport, rfl⟩⟩ := visit_cases h
    · exact bind_own ho hi _ (ha k (by rw [hp]; rfl))
    · exact bind_own ho hi _ (ha k (by rw [hp]; rfl))
  | list i =>
    obtain ⟨c, hc, hheld, rfl⟩ := list_cases h
    have hown : (s.close digest c).Own :=
      hsame (close_inv hi (listening_of_held hheld)) (close_later (listening_of_held hheld)) rfl
    exact hown
  | abort i =>
    obtain rfl := Option.some.inj h
    exact ho

end Host

/-! ## Runs -/

open Host

variable {digest}

/-- **Leases on different ports are independent.** -/
theorem independent_of_ne {a b : LeaseKey} (h : leasePort digest a ≠ leasePort digest b) :
    Independent digest a b := by
  intro acts s t seat c hs ht hkey _ hrefused
  have hi := exec_preserves (Host.Inv digest) (fun _ _ _ hi ht => step_inv hi ht) inv_start hs
  obtain ⟨-, ⟨⟩⟩ := Option.ite_none_right_eq_some.mp ht
  have hport := (hi.port _ c ((bind_refused seat b c).mp hrefused)).2.1
  rw [hkey] at hport
  exact h hport

/-- One seat holds the lease of `a`. -/
def holding (a : LeaseKey) : List HostAct := [.acquire 0 a, .publish 0]

theorem exec_holding (digest : List UInt8 → ℕ) {a : LeaseKey} (ha : isRunId a.runId = true) :
    ∃ s, exec (Host.step digest) start (holding a) = some s ∧ s.next = 1 ∧
      s.calls 0 = ⟨0, a, .held⟩ ∧ s.port (leasePort digest a) = some 0 ∧
      s.startups = start.startups ∧ s.nextStartup = 0 := by
  refine ⟨(start.bind digest 0 a).setPhase 0 .held, ?_, ?_, ?_, ?_, ?_, ?_⟩
  · have hacquire : start.step digest (.acquire 0 a) = some (start.bind digest 0 a) := if_pos ha
    have hphase : ((start.bind digest 0 a).calls 0).phase = .acquiring := rfl
    have hpublish : (start.bind digest 0 a).step digest (.publish 0) =
        some ((start.bind digest 0 a).setPhase 0 .held) := if_pos (e := none) hphase
    rw [holding, exec_cons, hacquire, Option.bind_some, exec_cons, hpublish, Option.bind_some,
      exec_nil]
  · exact bind_next 0 a
  · rw [setPhase_calls]
    rfl
  · exact Function.update_self _ _ _
  · rfl
  · rfl

theorem not_independent {a b : LeaseKey} (ha : isRunId a.runId = true) (hb : isRunId b.runId = true)
    (h : leasePort digest a = leasePort digest b) : ¬ Independent digest a b := by
  intro hind
  obtain ⟨s, hs, hn, hcall, hport, -, -⟩ := exec_holding digest ha
  have ht : s.step digest (.acquire 1 b) = some (s.bind digest 1 b) := if_pos hb
  refine hind _ s _ 1 0 hs ht (by rw [hcall]) (by rw [hcall]) ?_
  rw [bind_refused, ← h]
  exact hport

/-- **The leases of two runs are independent exactly when their ports differ**; and in every run in
which no run is acquired on a port another was acquired on, a start-up that has come to its end has
listed every record that no lease of the record's own run has refused. -/
theorem leases_independent :
    (∀ a b : LeaseKey, a ≠ b → isRunId a.runId = true → isRunId b.runId = true →
      (Independent digest a b ↔ leasePort digest a ≠ leasePort digest b)) ∧
    ∀ acts s, exec (Host.step digest) start acts = some s →
      Meets (Host.step digest) (Apart digest) start acts → ∀ i, (s.startups i).finished = true →
        ∀ k ∈ (s.startups i).records,
          k ∈ (s.startups i).listed ∨ s.Refused (s.startups i) k := by
  refine ⟨fun a b _ ha hb => ⟨fun hind h => not_independent ha hb h hind, independent_of_ne⟩, ?_⟩
  intro acts s hs hm i hf k hk
  have hstep (s : Host) (a : HostAct) (t : Host) (hp : s.Inv digest ∧ s.Own)
      (ha : s.Apart digest a) (ht : s.step digest a = some t) : t.Inv digest ∧ t.Own :=
    ⟨step_inv hp.1 ht, step_own hp.2 hp.1 ha ht⟩
  obtain ⟨hi, ho⟩ := exec_invariant _ hstep ⟨inv_start, own_start⟩ hm hs
  rw [Startup.finished, Bool.and_eq_true, Bool.and_eq_true] at hf
  rcases (hi.startups i).records k hk with h | ⟨c, hc, -⟩ | h | ⟨c, hc, hkey, holder, hh⟩
  · rw [List.isEmpty_iff.mp hf.1.2] at h
    exact absurd h List.not_mem_nil
  · rw [Option.isNone_iff_eq_none.mp hf.2] at hc
    exact nomatch hc
  · exact Or.inl h
  · exact Or.inr ⟨c, hc, holder, hkey, hh, (ho c holder hh).trans hkey⟩

instance (s : Host) (k : LeaseKey) : Decidable (s.AloneOnPort digest k) :=
  inferInstanceAs (Decidable (∀ h < s.next, _ → _))

instance (s : Host) (a : HostAct) : Decidable (s.Apart digest a) :=
  match a with
  | .acquire _ k => inferInstanceAs (Decidable (s.AloneOnPort digest k))
  | .visit i => inferInstanceAs (Decidable (∀ k ∈ (s.startups i).pending.head?, _))
  | .publish _ | .close _ | .die _ | .open _ _ | .list _ | .abort _ => instDecidableTrue

/-- A start-up beside a seat that holds `run_a`: it passes that run over, and lists `run_bb`. -/
theorem leases_independent_apart :
    let digest : List UInt8 → ℕ := List.length
    let a : LeaseKey := ⟨[], ofString "run_a"⟩
    let b : LeaseKey := ⟨[], ofString "run_bb"⟩
    let acts : List HostAct :=
      [.acquire 0 a, .publish 0, .open 1 [a, b], .visit 0, .visit 0, .publish 2, .list 0]
    Independent digest a b ∧ ∃ s, exec (Host.step digest) start acts = some s ∧
      (s.startups 0).listed = [b] ∧
        (a ∈ (s.startups 0).listed ∨ s.Refused (s.startups 0) a) := by
  intro digest a b acts
  have hrun : (exec (Host.step digest) start acts).any fun s =>
      decide ((s.startups 0).listed = [b] ∧ (s.startups 0).finished = true ∧
        a ∈ (s.startups 0).records) := by
    decide +kernel
  obtain ⟨s, hs, hend⟩ := (Option.any_eq_true _ _).mp hrun
  obtain ⟨hlisted, hf, ha⟩ := of_decide_eq_true hend
  refine ⟨?_, s, hs, hlisted, ?_⟩
  · exact (leases_independent.1 a b (by decide) (by decide) (by decide)).mpr (by decide)
  · exact leases_independent.2 acts s hs (by decide +kernel) 0 hf a ha

/-! ## Runs that share a port -/

/-- A run identifier of fifteen binary digits. -/
def bitRun (f : Fin 15 → Bool) : JsString :=
  ofString "run_" ++ List.ofFn fun i => if f i then 49 else 48

theorem bitRun_isRunId (f : Fin 15 → Bool) : isRunId (bitRun f) = true := by
  have hlength : (bitRun f).length = 19 := by
    rw [bitRun, List.length_append, List.length_ofFn]
    rfl
  have hdigits : ((bitRun f).drop 4).all (fun u => isLowerUnit u || isDigitUnit u) = true := by
    change (List.ofFn fun i => if f i then (49 : UInt16) else 48).all _ = true
    rw [List.all_eq_true]
    intro u hu
    obtain ⟨i, rfl⟩ := (List.mem_ofFn' _ _).mp hu
    dsimp only
    split <;> rfl
  have hid : isIdentifier (ofString "run_") (bitRun f) = true := by
    rw [isIdentifier, Bool.and_eq_true, Bool.and_eq_true]
    refine ⟨⟨?_, ?_⟩, hdigits⟩
    · exact List.isPrefixOf_iff_prefix.mpr (List.prefix_append _ _)
    · rw [hlength]
      rfl
  rw [isRunId, hid, Bool.true_and, hasUnits, decide_eq_true_eq]
  omega

theorem bitRun_injective : Function.Injective bitRun := by
  intro f g h
  have hdigits := List.ofFn_injective (List.append_cancel_left h)
  funext i
  have hi := congrFun hdigits i
  by_cases hf : f i <;> by_cases hg : g i <;> simp_all

/-- **Some two runs of a root share a port**, whatever the hash is: there are more run identifiers
than ports. -/
theorem leasePort_not_injective (digest : List UInt8 → ℕ) (root : JsString) :
    ∃ a b : LeaseKey, a.root = root ∧ b.root = root ∧ a ≠ b ∧ isRunId a.runId = true ∧
      isRunId b.runId = true ∧ leasePort digest a = leasePort digest b := by
  have hcard : Fintype.card (Fin 20000) < Fintype.card (Fin 15 → Bool) := by
    rw [Fintype.card_fin, Fintype.card_fun, Fintype.card_bool, Fintype.card_fin]
    omega
  obtain ⟨f, g, hne, hport⟩ := Fintype.exists_ne_map_eq_of_card_lt
    (fun f => (⟨digest (encode (charsOf root) ++ 0 :: encode (charsOf (bitRun f))) % 20000,
      Nat.mod_lt _ (by omega)⟩ : Fin 20000)) hcard
  refine ⟨⟨root, bitRun f⟩, ⟨root, bitRun g⟩, rfl, rfl, ?_, bitRun_isRunId f, bitRun_isRunId g, ?_⟩
  · intro h
    exact hne (bitRun_injective (congrArg LeaseKey.runId h))
  · exact congrArg (20000 + ·) (Fin.mk.inj hport)

/-- A start-up whose only record is refused by the lease of another run ends without it. -/
theorem startup_misses {a b : LeaseKey} (hne : a ≠ b) (ha : isRunId a.runId = true)
    (hb : isRunId b.runId = true) (h : leasePort digest a = leasePort digest b) :
    ∃ s, exec (Host.step digest) start (holding a ++ [.open 1 [b], .visit 0]) = some s ∧
      (s.startups 0).finished = true ∧ (s.startups 0).records = [b] ∧ (s.startups 0).listed = [] ∧
      ¬ s.Refused (s.startups 0) b := by
  obtain ⟨s, hs, hn, hcall, hport, -, hstartup⟩ := exec_holding digest ha
  rw [h] at hport
  let u : Startup := ⟨1, [b], [b], none, [], [], true⟩
  let v : Startup := ⟨1, [b], [], none, [], [1], true⟩
  let t : Host := { s with
    startups := Function.update s.startups s.nextStartup u
    nextStartup := s.nextStartup + 1 }
  have ht : t.next = 1 := hn
  have htport : t.port (leasePort digest b) = some 0 := hport
  have hu : t.startups 0 = u := by
    change Function.update s.startups s.nextStartup u 0 = u
    rw [hstartup, Function.update_self]
  have hvisit : t.step digest (.visit 0) = some ((t.bind digest 1 b).setStartup 0 v) := by
    change t.visit digest 0 = _
    rw [Host.visit, hu]
    dsimp only [u]
    rw [if_pos hb, htport, ht]
    rfl
  have hv : ((t.bind digest 1 b).setStartup 0 v).startups 0 = v := by
    change Function.update (t.bind digest 1 b).startups 0 v 0 = v
    rw [Function.update_self]
  refine ⟨(t.bind digest 1 b).setStartup 0 v, ?_, ?_⟩
  · have hopen : s.step digest (.open 1 [b]) = some t := rfl
    rw [exec_append, hs, Option.bind_some, exec_cons, hopen, Option.bind_some, exec_cons, hvisit,
      Option.bind_some, exec_nil]
  · rw [hv]
    refine ⟨rfl, rfl, rfl, ?_⟩
    rintro ⟨c, hc, holder, -, hphase, hkey⟩
    obtain rfl := List.mem_singleton.mp hc
    have hport : t.port (leasePort digest b) = some holder := by
      rw [← bind_refused 1 b holder, ht]
      exact hphase
    rw [htport] at hport
    obtain rfl := Option.some.inj hport
    apply hne
    rw [← hkey]
    change a = ((t.bind digest 1 b).calls 0).key
    rw [bind_calls_of_ne 1 b (by rw [ht]; exact Nat.zero_ne_one)]
    exact (congrArg LeaseCall.key hcall).symm

/-- **No hash keeps leases apart**: in every root a lease of some run makes `acquireRunLease` of
another fail, and a start-up in its way ends without a recorded run that no lease of its own
refused. -/
theorem leases_collide :
    ¬ (∃ (digest : List UInt8 → ℕ) (root : JsString), ∀ a b : LeaseKey, a.root = root →
        b.root = root → a ≠ b → isRunId a.runId = true → isRunId b.runId = true →
          Independent digest a b) ∧
      ¬ ∃ (digest : List UInt8 → ℕ) (root : JsString), ∀ acts s,
        exec (Host.step digest) start acts = some s → ∀ i, (s.startups i).finished = true →
          ∀ k ∈ (s.startups i).records, k.root = root → isRunId k.runId = true →
            k ∈ (s.startups i).listed ∨ s.Refused (s.startups i) k := by
  constructor
  · rintro ⟨digest, root, h⟩
    obtain ⟨a, b, har, hbr, hne, ha, hb, hport⟩ := leasePort_not_injective digest root
    exact not_independent ha hb hport (h a b har hbr hne ha hb)
  · rintro ⟨digest, root, h⟩
    obtain ⟨a, b, -, hbr, hne, ha, hb, hport⟩ := leasePort_not_injective digest root
    obtain ⟨s, hs, hf, hrecords, hlisted, hrefused⟩ := startup_misses hne ha hb hport
    rcases h _ s hs 0 hf b (by rw [hrecords]; exact List.mem_singleton_self b) hbr hb with h | h
    · rw [hlisted] at h
      exact absurd h List.not_mem_nil
    · exact hrefused h

end PiSubagent.LeasePorts
