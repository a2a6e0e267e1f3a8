import PiSubagent.Service.Abandonment

/-!
# What reconcile says of the VMs

* `VmRun`, `VmAct`: a run with the processes of its VMs, which its attempts start and which end at
  any time.
* `Observation.truthful`: the process table identifies a process.
* `namesVms`: the steps after which the newest receipt names every VM that no attempt in flight has.
* **`namesVms_step`**: such steps keep it so.
* **`reconcile_evidence`**: after such steps, what reconcile says of the VMs is true.
-/

namespace PiSubagent

open JsonText

namespace RunLife

open Cuts Runs
open RunState (setSeat perform kill)

variable {D : Planner} {s t : RunState}

/-! ## VMs -/

/-- A VM of a run: its process, and the attempt that has started it. -/
structure Vm where
  identity : ProcessIdentity
  attemptId : JsString
deriving DecidableEq, Repr

/-- A run, and its VMs that are alive. -/
structure VmRun where
  run : RunState
  alive : List Vm

/-- A step of the run, or of a VM. -/
inductive VmAct where
  | run (a : RunAct)
  /-- The attempt of a seat starts a VM. -/
  | start (seat : ℕ) (identity : ProcessIdentity)
  /-- A VM ends. -/
  | stop (identity : ProcessIdentity)

/-- The newest `sandbox-started` receipt. -/
def receipt (events : List RunEvent) : Option (Option ProcessIdentity) :=
  lastOf RunEvent.sandbox? events

/-- The process table identifies a process: none is alive under a process identifier that it does not
list, and one that is alive is the one it lists. -/
def Observation.truthful (o : Observation) (alive : List Vm) (events : List RunEvent) : Bool :=
  match receipt events with
  | some (some identity) =>
    match o.process identity with
    | .absent => alive.all fun vm => decide (vm.identity.pid ≠ identity.pid)
    | .present observed =>
      (alive.all fun vm => decide (vm.identity.pid = identity.pid → vm.identity = observed)) &&
        decide (o.terminated = .absent ∨ o.terminated = .unknown)
    | .unknown => true
  | _ => true

/-- The VMs after reconcile has terminated the process of the newest receipt. -/
def Observation.survivors (o : Observation) (alive : List Vm) (events : List RunEvent) : List Vm :=
  match receipt events with
  | some (some identity) =>
    if o.process identity = .present identity ∧ o.terminated = .absent then
      alive.filter fun vm => decide (vm.identity ≠ identity)
    else alive
  | _ => alive

/-- One step. -/
def VmRun.step (D : Planner) (s : VmRun) : VmAct → Option VmRun
  | .run (.reconcile seat o cut) =>
    if o.truthful s.alive s.run.files.events then
      (s.run.step D (.reconcile seat o cut)).map fun t =>
        ⟨t, o.survivors s.alive s.run.files.events⟩
    else none
  | .run a => (s.run.step D a).map fun t => ⟨t, s.alive⟩
  | .start seat identity =>
    match s.run.seats seat with
    | some run =>
      match run.flight with
      | .running true =>
        if s.alive.all fun vm => decide (vm.identity.pid ≠ identity.pid) then
          some { s with alive := s.alive ++ [⟨identity, run.plan.attemptId⟩] }
        else none
      | _ => none
    | none => none
  | .stop identity =>
    some { s with alive := s.alive.filter fun vm => decide (vm.identity ≠ identity) }

/-- A write that says that no VM is alive: a cleanup that is proved or was not needed, or a status
other than cleanup-blocked. -/
def Effect.saysClean : Effect → Bool
  | .append (.runReconciled status) => decide (status ≠ .cleanupBlocked)
  | .append (.runAbandoned _) => true
  | .writeSnapshot execution =>
    execution.result.sandboxCleanup.done || decide (execution.result.status ≠ .cleanupBlocked)
  | _ => false

/-! ## The steps after which receipts name the VMs -/

/-- The VMs that are alive of the attempt a seat has in flight are named by the newest receipt. -/
def VmRun.leavesNamed (s : VmRun) (seat : ℕ) : Bool :=
  (s.run.seats seat).all fun run =>
    match run.flight with
    | .running _ => s.alive.all fun vm =>
        decide (vm.attemptId = run.plan.attemptId →
          receipt s.run.files.events = some (some vm.identity))
    | _ => true

/-- A step after which the newest receipt names every VM that no attempt in flight has. -/
def namesVms (s : VmRun) : VmAct → Bool
  | .run (.finish seat _ _) | .run (.reject seat) | .run (.die seat) => s.leavesNamed seat
  | .run (.sandboxStarted seat identity) =>
    -- No VM of an earlier attempt loses its receipt.
    (s.run.seats seat).all fun run => s.alive.all fun vm =>
      decide (vm.attemptId = run.plan.attemptId ∨ identity = some vm.identity)
  | .run (.reconcile seat _ _) =>
    -- What the seat remembers of an abandoned run is true.
    !abandonmentPending s.run.files.events || s.alive.isEmpty ||
      (s.run.seats seat).all fun run =>
        run.result.all fun memory => !memory.result.sandboxCleanup.done
  | _ => true

/-- The VM is of an attempt in flight. -/
def RunState.HasInFlight (u : RunState) (vm : Vm) : Prop :=
  ∃ n run b, u.seats n = some run ∧ run.flight = .running b ∧ run.plan.attemptId = vm.attemptId

/-- The newest receipt names every VM that no attempt in flight has. -/
structure VmsNamed (alive : List Vm) (u : RunState) : Prop where
  disciplined : u.Disciplined
  named : ∀ vm ∈ alive, u.HasInFlight vm ∨ receipt u.files.events = some (some vm.identity)

/-! ## Writes -/

section Writes

variable {seat : ℕ} {alive : List Vm}

/-- The receipts, and what a seat has in flight: nothing, or the given attempt. -/
structure Flying (seat : ℕ) (alive : List Vm) (id : Option JsString) (u : RunState) : Prop where
  named : ∀ vm ∈ alive, u.HasInFlight vm ∨ receipt u.files.events = some (some vm.identity)
  flight : ∀ run ∈ u.seats seat, ∀ b, run.flight = .running b → some run.plan.attemptId = id

/-- A write after which the seat has nothing, or the given attempt, in flight. -/
def Effect.Flies (id : Option JsString) : Effect → Prop
  | .append e => e.sandbox? = none
  | .remember run | .execute run =>
    match id with
    | none => ∀ b, run.flight ≠ .running b
    | some id => (∃ b, run.flight = .running b) ∧ run.plan.attemptId = id
  | _ => True

theorem flying_setSeat {id : Option JsString} {run : ActiveRun} {u v : RunState}
    (h : Flying seat alive id u) (hseats : v.seats = (u.setSeat seat (some run)).seats)
    (hevents : v.files.events = u.files.events)
    (hr : (Effect.remember run).Flies id) : Flying seat alive id v := by
  have hseat : v.seats seat = some run := by
    rw [hseats]
    simp [setSeat]
  refine ⟨?_, ?_⟩
  · intro vm hvm
    rw [hevents]
    refine (h.named vm hvm).imp ?_ fun hreceipt => hreceipt
    rintro ⟨n, run', b, hn, hf, hid⟩
    by_cases hs : n = seat
    · subst hs
      have hsome := h.flight run' hn b hf
      subst hsome
      obtain ⟨⟨b', hb'⟩, hid'⟩ := hr
      exact ⟨n, run, b', hseat, hb', hid'.trans hid⟩
    · refine ⟨n, run', b, ?_, hf, hid⟩
      rw [hseats]
      simp only [setSeat]
      rw [if_neg hs]
      exact hn
  · intro run' hn b hb
    rw [hseat] at hn
    cases hn
    cases id with
    | none => exact absurd hb (hr b)
    | some id => exact congrArg some hr.2

theorem flying_perform {id : Option JsString} {u : RunState} {e : Effect}
    (h : Flying seat alive id u) (he : e.Flies id) : Flying seat alive id (u.perform seat e) := by
  cases e with
  | append e =>
    refine ⟨?_, h.flight⟩
    intro vm hvm
    have hsame : receipt (u.files.events ++ [e]) = receipt u.files.events := lastOf_quiet _ he
    refine (h.named vm hvm).imp (fun hfly => hfly) fun hreceipt => ?_
    exact hsame.trans hreceipt
  | remember run => exact flying_setSeat h rfl rfl he
  | execute run => exact flying_setSeat h rfl rfl he
  | settleLease =>
    simp only [RunState.perform]
    split_ifs
    · exact ⟨h.named, h.flight⟩
    · exact h
  | _ => exact ⟨h.named, h.flight⟩

theorem flying_cuts {id : Option JsString} {es : List Effect} (h : Flying seat alive id s)
    (hes : ∀ e ∈ es, e.Flies id) : AllCuts (perform seat) (Flying seat alive id) es s :=
  AllCuts.of_preserved h fun _ e he hu => flying_perform hu (hes e he)

/-- The newest receipt names all VMs. -/
def AllNamed (alive : List Vm) (u : RunState) : Prop :=
  ∀ vm ∈ alive, receipt u.files.events = some (some vm.identity)

theorem allNamed_perform {u : RunState} {e : Effect} (h : AllNamed alive u)
    (he : ∀ note, e = .append note → note.sandbox? = none) :
    AllNamed alive (u.perform seat e) := by
  intro vm hvm
  cases e with
  | append e => exact (lastOf_quiet _ (he e rfl)).trans (h vm hvm)
  | settleLease =>
    simp only [RunState.perform]
    split_ifs <;> exact h vm hvm
  | _ => exact h vm hvm

end Writes

/-- The seat that has the lease is the only one with an attempt in flight. -/
theorem inFlight_only (h : s.Disciplined) {seat : ℕ} (hl : s.lease = none ∨ s.lease = some seat)
    {vm : Vm} (hv : s.HasInFlight vm) :
    ∃ run b, s.seats seat = some run ∧ run.flight = .running b ∧ run.plan.attemptId = vm.attemptId := by
  obtain ⟨n, run, b, hr, hf, hid⟩ := hv
  have hlease := h.busy n run hr (by rw [hf]; rfl)
  rw [hlease] at hl
  rcases hl with hl | hl
  · cases hl
  · cases hl
    exact ⟨run, b, hr, hf, hid⟩

/-- A seat that may have the lease and has nothing in flight: every VM is named. -/
theorem VmsNamed.allNamed {alive : List Vm} (h : VmsNamed alive s) {seat : ℕ}
    (hl : s.lease = none ∨ s.lease = some seat)
    (hf : ∀ run ∈ s.seats seat, ∀ b, run.flight = .running b → ∀ vm ∈ alive,
      run.plan.attemptId = vm.attemptId → receipt s.files.events = some (some vm.identity)) :
    AllNamed alive s := by
  intro vm hvm
  rcases h.named vm hvm with hfly | hreceipt
  · obtain ⟨run, b, hr, hb, hid⟩ := inFlight_only h.disciplined hl hfly
    exact hf run hr b hb vm hvm hid
  · exact hreceipt

/-! ## Steps -/

/-- What an attempt in flight, or nothing in flight, is to the seat. -/
def ActiveRun.flying (run : ActiveRun) : Option JsString :=
  match run.flight with
  | .running _ => some run.plan.attemptId
  | _ => none

theorem ActiveRun.flying_of (run : ActiveRun) {b : Bool} (h : run.flight = .running b) :
    run.flying = some run.plan.attemptId := by
  unfold ActiveRun.flying
  rw [h]

theorem ActiveRun.flies_same {run run' : ActiveRun} (hf : run'.flight = run.flight)
    (hp : run'.plan = run.plan) : (Effect.remember run').Flies run.flying := by
  unfold ActiveRun.flying Effect.Flies
  cases hr : run.flight with
  | running b =>
    simp only
    exact ⟨⟨b, hf.trans hr⟩, by rw [hp]⟩
  | _ =>
    intro b hb
    rw [hf, hr] at hb
    cases hb

theorem flies_ofStart {i : StartInput} {e : Effect} (h : e.OfStart i) :
    e.Flies (some i.plan.attemptId) := by
  cases e with
  | append e =>
    obtain ⟨-, rfl⟩ := h
    rfl
  | execute run =>
    cases h
    exact ⟨⟨false, rfl⟩, rfl⟩
  | remember run => exact h.elim
  | _ => trivial

theorem flies_settled {run : ActiveRun} (h : run.flight = .settled) :
    (Effect.remember run).Flies none := by
  intro b hb
  rw [h] at hb
  cases hb

theorem appends_noReceipt {a : RunAct} {e : RunEvent} (h : a.Appends e)
    (ha : ∀ seat identity, a ≠ .sandboxStarted seat identity) : e.sandbox? = none := by
  cases a with
  | sandboxStarted seat identity => exact absurd rfl (ha seat identity)
  | resume seat continuing cut | resumeUndone seat continuing cut =>
    cases continuing with
    | true =>
      cases h
      rfl
    | false => exact h.elim
  | reconcile seat o cut =>
    rcases h with ⟨r, rfl, -⟩ | ⟨status, -, rfl⟩ <;> rfl
  | abandon seat released cut => rcases h with rfl | ⟨r, rfl, -⟩ <;> rfl
  | finish seat execution cut => rcases h with rfl | rfl <;> rfl
  | begin seat | usageCheckpoint seat usage runtimeMs =>
    obtain ⟨attemptId, rfl⟩ := h
    rfl
  | sessionStarted seat | release seat released cut | «open» seat handoff cut =>
    cases h
    rfl
  | _ => exact h.elim

/-- The effects of an operation of a seat that has nothing in flight. -/
theorem settled_remember {a : RunAct} {es : List Effect} (h : s.effects D a = some es)
    (ha : (∃ seat o cut, a = .reconcile seat o cut) ∨ (∃ seat b cut, a = .release seat b cut) ∨
      (∃ seat b cut, a = .abandon seat b cut) ∨ ∃ seat handoff cut, a = .open seat handoff cut)
    {e : Effect} (he : e ∈ es) :
    (∀ run, e = .remember run → run.flight = .settled) ∧ ∀ run, e ≠ .execute run := by
  rcases ha with ⟨seat, o, cut, rfl⟩ | ⟨seat, b, cut, rfl⟩ | ⟨seat, b, cut, rfl⟩ |
    ⟨seat, handoff, cut, rfl⟩
  · rcases mem_reconcileEffects h he with rfl | ⟨run, execution, -, -, rfl | rfl | rfl | rfl⟩
    · simp
    · simp
    · simp
    · refine ⟨?_, by simp⟩
      rintro run' ⟨⟩
      rfl
    · simp
  · obtain ⟨run, -, -, -, -, -, hes⟩ := releaseEffects_cases h
    split at hes
    case h_1 =>
      subst hes
      rcases List.mem_pair.mp he with rfl | rfl <;> simp
    case h_2 =>
      split at hes
      case h_1 =>
        subst hes
        cases he
      case h_2 =>
        subst hes
        simp only [List.mem_cons, List.not_mem_nil, or_false] at he
        rcases he with rfl | rfl | rfl | rfl
        · simp
        · simp
        · refine ⟨?_, by simp⟩
          rintro run' ⟨⟩
          rfl
        · simp
  · obtain ⟨run, memory, -, -, -, -, -, -, rfl⟩ := abandonEffects_cases h
    have hsettle : ∀ execution, (∀ run', Effect.remember (run.settle execution) = .remember run' →
        run'.flight = .settled) ∧ ∀ run', Effect.remember (run.settle execution) ≠ .execute run' := by
      intro execution
      refine ⟨?_, by simp⟩
      rintro run' ⟨⟩
      rfl
    rcases List.mem_append.mp he with he | he
    · rcases List.mem_pair.mp he with rfl | rfl
      · simp
      · exact hsettle _
    · split_ifs at he
      · rcases List.mem_pair.mp he with rfl | rfl
        · simp
        · exact hsettle _
      · simp only [List.mem_cons, List.not_mem_nil, or_false] at he
        rcases he with rfl | rfl | rfl
        · simp
        · exact hsettle _
        · simp
      · cases he
  · obtain ⟨-, -, -, rfl⟩ := openEffects_cases h
    rcases List.mem_append.mp he with he | he
    · split at he
      · rcases List.mem_pair.mp he with rfl | rfl <;> simp
      · cases he
    · rw [List.mem_singleton.mp he]
      refine ⟨?_, by simp⟩
      rintro run' ⟨⟩
      rfl

/-- **The effects of a step, to the seat that takes them**, but for a receipt and the end of an
attempt. -/
theorem effects_fly {a : RunAct} {es : List Effect} (hs : s.Disciplined)
    (h : s.effects D a = some es)
    (ha : ∀ seat, (∀ execution cut, a ≠ .finish seat execution cut) ∧ a ≠ .reject seat ∧
      ∀ identity, a ≠ .sandboxStarted seat identity) :
    ∃ id, (∀ run ∈ s.seats a.seat, ∀ b, run.flight = .running b → some run.plan.attemptId = id) ∧
      ∀ e ∈ es, e.Flies id := by
  have happend : ∀ e, Effect.append e ∈ es → e.sandbox? = none := fun e he =>
    appends_noReceipt (effects_appends h he) fun seat identity => (ha seat).2.2 identity
  have hidle : s.lease = none → ∀ run ∈ s.seats a.seat, ∀ b, run.flight ≠ .running b := by
    intro hl run hr b hb
    have hlease := hs.busy a.seat run hr (by rw [hb]; rfl)
    rw [hl] at hlease
    cases hlease
  -- An operation of a seat that has nothing in flight.
  have hquiet : (∀ run ∈ s.seats a.seat, ∀ b, run.flight ≠ .running b) →
      (∀ e ∈ es, (∀ run, e = .remember run → run.flight = .settled) ∧ ∀ run, e ≠ .execute run) →
      ∃ id, (∀ run ∈ s.seats a.seat, ∀ b, run.flight = .running b →
        some run.plan.attemptId = id) ∧ ∀ e ∈ es, e.Flies id := by
    intro hnone hall
    refine ⟨none, fun run hr b hb => absurd hb (hnone run hr b), ?_⟩
    intro e he
    obtain ⟨hremember, hexecute⟩ := hall e he
    cases e with
    | append e => exact happend e he
    | remember run => exact flies_settled (hremember run rfl)
    | execute run => exact absurd rfl (hexecute run)
    | _ => trivial
  -- A seat that remembers its attempt as it was, but for its status.
  have hsame : ∀ run, s.seats a.seat = some run → (∀ e ∈ es, ∀ run', e = .remember run' →
      run'.flight = run.flight ∧ run'.plan = run.plan) → (∀ e ∈ es, ∀ run', e ≠ .execute run') →
      ∃ id, (∀ run ∈ s.seats a.seat, ∀ b, run.flight = .running b →
        some run.plan.attemptId = id) ∧ ∀ e ∈ es, e.Flies id := by
    intro run hr hremember hexecute
    refine ⟨run.flying, ?_, ?_⟩
    · intro run' hr' b hb
      rw [hr] at hr'
      cases hr'
      exact (run.flying_of hb).symm
    · intro e he
      cases e with
      | append e => exact happend e he
      | remember run' =>
        obtain ⟨hf, hp⟩ := hremember _ he run' rfl
        exact ActiveRun.flies_same hf hp
      | execute run' => exact absurd rfl (hexecute _ he run')
      | _ => trivial
  have hnot : ∀ run, s.seats a.seat = some run → run.flight.inFlight = false →
      ∀ run ∈ s.seats a.seat, ∀ b, run.flight ≠ .running b := by
    intro run hr hf run' hr' b hb
    rw [hr] at hr'
    cases hr'
    rw [hb] at hf
    cases hf
  cases a with
  | launch seat cut | launchUndone seat cut =>
    obtain ⟨-, hl, rfl⟩ := launchEffects_cases h
    exact ⟨_, fun run hr b hb => absurd hb (hidle hl run hr b),
      fun e he => flies_ofStart (startEffects_ofStart _ _ e he)⟩
  | retry seat cut | retryUndone seat cut =>
    obtain ⟨run, latest, r, plan, -, -, -, -, -, -, hl, -, rfl⟩ := retryEffects_cases h
    exact ⟨_, fun run hr b hb => absurd hb (hidle hl run hr b),
      fun e he => flies_ofStart (startEffects_ofStart _ _ e he)⟩
  | resume seat continuing cut | resumeUndone seat continuing cut =>
    obtain ⟨run, latest, r, plan, -, -, -, -, -, -, hl, -, rfl⟩ := resumeEffects_cases h
    exact ⟨_, fun run hr b hb => absurd hb (hidle hl run hr b),
      fun e he => flies_ofStart (startEffects_ofStart _ _ e he)⟩
  | reconcile seat o cut =>
    obtain ⟨run, hr, hst, -⟩ := reconcileEffects_cases h
    have hf := (hs.rests seat run hr).not_inFlight (by simp [hst]) (by simp [hst])
    exact hquiet (hnot run hr hf) fun e he => settled_remember h (Or.inl ⟨_, _, _, rfl⟩) he
  | release seat released cut =>
    obtain ⟨run, hr, ⟨h1, h2, -⟩, -⟩ := releaseEffects_cases h
    have hf := (hs.rests seat run hr).not_inFlight h1 h2
    exact hquiet (hnot run hr hf) fun e he =>
      settled_remember h (Or.inr (Or.inl ⟨_, _, _, rfl⟩)) he
  | abandon seat released cut =>
    obtain ⟨run, memory, hr, -, -, -, hl, -⟩ := abandonEffects_cases h
    exact hquiet (hidle hl) fun e he =>
      settled_remember h (Or.inr (Or.inr (Or.inl ⟨_, _, _, rfl⟩))) he
  | «open» seat handoff cut =>
    obtain ⟨-, -, hl, -⟩ := openEffects_cases h
    exact hquiet (hidle hl) fun e he =>
      settled_remember h (Or.inr (Or.inr (Or.inr ⟨_, _, _, rfl⟩))) he
  | die seat => cases h
  | interrupt seat =>
    obtain ⟨run, hr, -, rfl⟩ := interruptEffects_cases h
    refine hsame run hr ?_ (by simp)
    intro e he run' hrun
    rw [List.mem_singleton.mp he] at hrun
    cases hrun
    exact ⟨rfl, rfl⟩
  | shutdown seat =>
    obtain ⟨run, hr, -, rfl⟩ := shutdownEffects_cases h
    refine hsame run hr ?_ (by simp)
    intro e he run' hrun
    rw [List.mem_singleton.mp he] at hrun
    cases hrun
    exact ⟨rfl, rfl⟩
  | begin seat =>
    obtain ⟨run, hr, hf, rfl⟩ := beginEffects_cases h
    refine ⟨some run.plan.attemptId, ?_, ?_⟩
    · intro run' hr' b hb
      have hrun : s.seats seat = some run' := hr'
      rw [hr] at hrun
      cases hrun
      rfl
    · intro e he
      rcases List.mem_pair.mp he with rfl | rfl
      · rfl
      · exact ⟨⟨true, rfl⟩, rfl⟩
  | sandboxStarted seat identity => exact absurd rfl ((ha seat).2.2 identity)
  | sessionStarted seat | usageCheckpoint seat usage runtimeMs =>
    obtain ⟨run, e, hr, -, -, rfl⟩ := noteEffects_cases (fun _ => rfl) h
    exact hsame run hr (by simp) (by simp)
  | finish seat execution cut => exact absurd rfl ((ha seat).1 execution cut)
  | reject seat => exact absurd rfl (ha seat).2.1
  | settle seat handoff =>
    obtain ⟨run, execution, hr, hf, rfl⟩ := settleEffects_cases h
    refine hquiet ?_ ?_
    · intro run' hr' b hb
      have hrun : s.seats seat = some run' := hr'
      rw [hr] at hrun
      cases hrun
      rw [hf] at hb
      cases hb
    · intro e he
      simp only [settleEffects, List.mem_cons, List.not_mem_nil, or_false] at he
      rcases he with rfl | rfl | rfl
      · simp
      · refine ⟨?_, by simp⟩
        rintro run' ⟨⟩
        rfl
      · simp
  | settleBlocked seat =>
    obtain ⟨run, hr, hf, rfl⟩ := settleBlockedEffects_cases h
    refine hquiet ?_ ?_
    · intro run' hr' b hb
      have hrun : s.seats seat = some run' := hr'
      rw [hr] at hrun
      cases hrun
      rcases hf with ⟨execution, hf⟩ | hf <;> rw [hf] at hb <;> cases hb
    · intro e he
      rw [List.mem_singleton.mp he]
      refine ⟨?_, by simp⟩
      rintro run' ⟨⟩
      rfl

/-- **A step of the run keeps the receipts.** -/
theorem named_run_step {alive : List Vm} {a : RunAct} (h : VmsNamed alive s)
    (hok : namesVms ⟨s, alive⟩ (.run a) = true) (ht : s.step D a = some t) : VmsNamed alive t := by
  refine ⟨disciplined_step h.disciplined ht, ?_⟩
  -- The attempt of a seat leaves its VMs with a receipt.
  have hleaves : ∀ seat, VmRun.leavesNamed ⟨s, alive⟩ seat = true → ∀ run ∈ s.seats seat, ∀ b,
      run.flight = .running b → ∀ vm ∈ alive, run.plan.attemptId = vm.attemptId →
        receipt s.files.events = some (some vm.identity) := by
    intro seat hseat run hr b hb vm hvm hid
    unfold VmRun.leavesNamed at hseat
    have hr' : s.seats seat = some run := hr
    rw [hr', Option.all_some, hb] at hseat
    exact of_decide_eq_true (List.all_eq_true.mp hseat vm hvm) hid.symm
  have hall : ∀ seat, a.seat = seat → (∃ run b, s.seats seat = some run ∧ run.flight = .running b) →
      VmRun.leavesNamed ⟨s, alive⟩ seat = true → (∀ seat identity, a ≠ .sandboxStarted seat identity) →
      (∀ n, a ≠ .die n) → ∀ vm ∈ alive, t.HasInFlight vm ∨
        receipt t.files.events = some (some vm.identity) := by
    intro seat hseat ⟨run, b, hr, hb⟩ hleft hnot hdie
    have hl := h.disciplined.busy seat run hr (by rw [hb]; rfl)
    have hnamed : AllNamed alive s := h.allNamed (Or.inr hl) (hleaves seat hleft)
    have hkept : AllNamed alive t := by
      refine RunState.step_allCuts (P := AllNamed alive) ht (fun n hn => absurd hn (hdie n)) ?_ ?_
      · exact fun u id hu => hu
      · intro es he
        refine AllCuts.of_preserved hnamed fun u e hm hu => allNamed_perform hu ?_
        rintro note rfl
        exact appends_noReceipt (effects_appends he hm) hnot
    exact fun vm hvm => Or.inr (hkept vm hvm)
  have hother : (∀ seat, (∀ execution cut, a ≠ .finish seat execution cut) ∧ a ≠ .reject seat ∧
      ∀ identity, a ≠ .sandboxStarted seat identity) → (∀ n, a ≠ .die n) → ∀ vm ∈ alive,
      t.HasInFlight vm ∨ receipt t.files.events = some (some vm.identity) := by
    intro ha hdie
    have hfly : ∃ id, Flying a.seat alive id t := by
      cases he : s.effects D a with
      | none =>
        exfalso
        rcases RunState.step_cases ht with ⟨seat, hc, -⟩ | ⟨es, n, removals, hes, -⟩
        · exact hdie seat hc
        · rw [he] at hes
          cases hes
      | some es =>
        obtain ⟨id, hflight, hes⟩ := effects_fly h.disciplined he ha
        refine ⟨id, RunState.step_allCuts ht (fun n hn => absurd hn (hdie n)) ?_ ?_⟩
        · exact fun u x hu => flying_perform hu trivial
        · intro es' he'
          rw [he] at he'
          cases he'
          exact flying_cuts ⟨h.named, hflight⟩ hes
    obtain ⟨id, hfly⟩ := hfly
    exact hfly.named
  cases a with
  | die seat =>
    cases ht
    intro vm hvm
    rcases h.named vm hvm with ⟨n, run, b, hr, hb, hid⟩ | hreceipt
    · by_cases hseat : n = seat
      · subst hseat
        exact Or.inr (hleaves n hok run hr b hb vm hvm hid)
      · refine Or.inl ⟨n, run, b, ?_, hb, hid⟩
        simp only [setSeat]
        rw [if_neg hseat]
        exact hr
    · exact Or.inr hreceipt
  | finish seat execution cut =>
    refine hall seat rfl ?_ hok (by simp) (by simp)
    rcases RunState.step_cases ht with ⟨n, hc, -⟩ | ⟨es, n, removals, hes, -⟩
    · cases hc
    · obtain ⟨run, hr, hf, -⟩ := finishEffects_cases hes
      exact ⟨run, true, hr, hf⟩
  | reject seat =>
    refine hall seat rfl ?_ hok (by simp) (by simp)
    rcases RunState.step_cases ht with ⟨n, hc, -⟩ | ⟨es, n, removals, hes, -⟩
    · cases hc
    · obtain ⟨run, b, hr, hf, -⟩ := rejectEffects_cases hes
      exact ⟨run, b, hr, hf⟩
  | sandboxStarted seat identity =>
    intro vm hvm
    rcases RunState.step_cases ht with ⟨n, hc, -⟩ | ⟨es, n, removals, hes, rfl, hremovals⟩
    · cases hc
    · simp only [RunState.step, RunState.note] at ht
      split at ht
      case h_2 => cases ht
      case h_1 run hr =>
        split at ht
        case h_2 => cases ht
        case h_1 hf =>
          rw [← Option.some.inj ht]
          have hcond : (s.seats seat).all (fun run => alive.all fun vm =>
              decide (vm.attemptId = run.plan.attemptId ∨ identity = some vm.identity)) = true := hok
          rw [hr, Option.all_some] at hcond
          have hreceipt : receipt (s.files.events ++ [RunEvent.sandboxStarted identity]) =
              some identity := lastOf_concat _ _ _
          rcases of_decide_eq_true (List.all_eq_true.mp hcond vm hvm) with hid | hid
          · exact Or.inl ⟨seat, run, true, hr, hf, hid.symm⟩
          · right
            rw [← hid]
            exact hreceipt
  | _ => exact hother (by simp) (by simp)

theorem mem_survivors {o : Observation} {alive : List Vm} {events : List RunEvent} {vm : Vm}
    (h : vm ∈ o.survivors alive events) : vm ∈ alive := by
  unfold Observation.survivors at h
  split at h
  case h_1 =>
    split_ifs at h
    · exact List.mem_of_mem_filter h
    · exact h
  case h_2 => exact h

theorem VmsNamed.mono {alive alive' : List Vm} (h : VmsNamed alive s)
    (hsub : ∀ vm ∈ alive', vm ∈ alive) : VmsNamed alive' s :=
  ⟨h.disciplined, fun vm hvm => h.named vm (hsub vm hvm)⟩

theorem VmRun.step_run {s : VmRun} {a : RunAct} (h : ∀ seat o cut, a ≠ .reconcile seat o cut) :
    s.step D (.run a) = (s.run.step D a).map fun t => ⟨t, s.alive⟩ := by
  cases a with
  | reconcile seat o cut => exact absurd rfl (h seat o cut)
  | _ => rfl

/-- **A step that meets the condition keeps the receipts.** -/
theorem namesVms_step {s t : VmRun} {a : VmAct} (h : VmsNamed s.alive s.run)
    (hok : namesVms s a = true) (ht : s.step D a = some t) : VmsNamed t.alive t.run := by
  cases a with
  | start seat identity =>
    simp only [VmRun.step] at ht
    split at ht
    case h_2 => cases ht
    case h_1 run hr =>
      split at ht
      case h_2 => cases ht
      case h_1 hf =>
        split_ifs at ht
        cases ht
        refine ⟨h.disciplined, ?_⟩
        intro vm hvm
        rcases List.mem_append.mp hvm with hm | hm
        · exact h.named vm hm
        · rw [List.mem_singleton.mp hm]
          exact Or.inl ⟨seat, run, true, hr, hf, rfl⟩
  | stop identity =>
    cases ht
    exact h.mono fun vm hvm => List.mem_of_mem_filter hvm
  | run a =>
    have hrun : ∃ u, s.run.step D a = some u ∧ t.run = u ∧ ∀ vm ∈ t.alive, vm ∈ s.alive := by
      by_cases hrec : ∃ seat o cut, a = .reconcile seat o cut
      · obtain ⟨seat, o, cut, rfl⟩ := hrec
        simp only [VmRun.step] at ht
        split_ifs at ht
        obtain ⟨u, hu, rfl⟩ := Option.map_eq_some_iff.mp ht
        exact ⟨u, hu, rfl, fun vm hvm => mem_survivors hvm⟩
      · rw [VmRun.step_run fun seat o cut ha => hrec ⟨seat, o, cut, ha⟩] at ht
        obtain ⟨u, hu, rfl⟩ := Option.map_eq_some_iff.mp ht
        exact ⟨u, hu, rfl, fun vm hvm => hvm⟩
    obtain ⟨u, hu, rfl, hsub⟩ := hrun
    exact (named_run_step h hok hu).mono hsub

/-! ## Reconcile -/

theorem reconcileStatus_undone {pending : Bool} {sandbox workspace : CleanupOutcome}
    {session : SessionEvidence} (h : sandbox.done = false) :
    reconcileStatus pending sandbox workspace session = .cleanupBlocked := by
  unfold reconcileStatus cleanupProved
  rw [h]
  simp

/-- What says that no VM is alive is of an execution whose sandbox is cleaned up. -/
theorem saysClean_done {seat : ℕ} {o : Observation} {es : List Effect}
    (h : reconcileEffects s seat o = some es) {e : Effect} (he : e ∈ es)
    (hc : e.saysClean = true) : ∃ run, s.seats seat = some run ∧
      (reconcileSandboxCleanup (abandonmentPending s.files.events) run.result
        (sandboxProcess s.files.events o)).done = true := by
  rcases mem_reconcileEffects h he with rfl | ⟨run, execution, hr, hx, he⟩
  · cases hc
  · refine ⟨run, hr, ?_⟩
    obtain ⟨-, hresult⟩ := reconcileExecution_cases hx
    have hstatus : execution.result.status ≠ .cleanupBlocked →
        (reconcileSandboxCleanup (abandonmentPending s.files.events) run.result
          (sandboxProcess s.files.events o)).done = true := by
      intro hne
      by_contra hd
      rw [Bool.not_eq_true] at hd
      rw [hresult] at hne
      exact hne (reconcileStatus_undone hd)
    rcases he with rfl | rfl | rfl | rfl
    · by_cases hab : execution.result.status = .abandoned
      · exact hstatus (by rw [hab]; simp)
      · rw [if_neg hab] at hc
        exact hstatus (of_decide_eq_true hc)
    · rcases Bool.or_eq_true_iff.mp hc with hd | hne
      · rw [hresult] at hd
        exact hd
      · exact hstatus (of_decide_eq_true hne)
    · cases hc
    · cases hc

/-- The cleanup of a sandbox with such a process. -/
def observedCleanup : SandboxProcess → CleanupOutcome
  | .notStarted => .notNeeded
  | .absent => .proved
  | _ => .unknown

/-- **What reconcile says of the VMs is true**, when the newest receipt names all that are alive and
what the seat remembers of an abandoned run is true. -/
theorem reconcile_survivors {s : VmRun} {run : ActiveRun} {o : Observation}
    (hnamed : AllNamed s.alive s.run) (htrue : o.truthful s.alive s.run.files.events = true)
    (hmemory : abandonmentPending s.run.files.events = true → ∀ memory ∈ run.result,
      memory.result.sandboxCleanup.done = true → s.alive = [])
    (hdone : (reconcileSandboxCleanup (abandonmentPending s.run.files.events) run.result
      (sandboxProcess s.run.files.events o)).done = true) :
    o.survivors s.alive s.run.files.events = [] := by
  -- What the process table shows of the newest receipt.
  have hobserved : ∀ cleanup : CleanupOutcome, cleanup.done = true →
      cleanup = observedCleanup (sandboxProcess s.run.files.events o) → o.survivors s.alive s.run.files.events = [] := by
    rintro cleanup hd rfl
    rw [List.eq_nil_iff_forall_not_mem]
    intro vm hvm
    have halive := mem_survivors hvm
    have hreceipt := hnamed vm halive
    unfold Observation.survivors at hvm
    unfold Observation.truthful at htrue
    unfold sandboxProcess at hd
    unfold receipt at hreceipt hvm htrue
    rw [hreceipt] at hvm hd htrue
    dsimp only at hvm hd htrue
    cases hp : o.process vm.identity with
    | absent =>
      rw [hp] at htrue
      have hpid := of_decide_eq_true (List.all_eq_true.mp htrue vm halive)
      exact hpid rfl
    | unknown =>
      rw [hp] at hd
      cases hd
    | present observed =>
      rw [hp] at hd hvm htrue
      dsimp only at hd
      split_ifs at hd with hid
      · subst hid
        have hterminated := of_decide_eq_true (Bool.and_eq_true_iff.mp htrue).2
        rcases hterminated with ht | ht
        · rw [if_pos ⟨rfl, ht⟩, List.mem_filter] at hvm
          exact absurd rfl (of_decide_eq_true hvm.2)
        · rw [ht] at hd
          cases hd
      · cases hd
  unfold reconcileSandboxCleanup at hdone
  cases hres : run.result with
  | none =>
    rw [hres] at hdone
    exact hobserved _ hdone rfl
  | some memory =>
    rw [hres] at hdone
    dsimp only at hdone
    split_ifs at hdone with hm
    · obtain ⟨hp, hd⟩ := Bool.and_eq_true_iff.mp hm
      have hnil := hmemory hp memory hres hd
      rw [List.eq_nil_iff_forall_not_mem]
      intro vm hvm
      have halive := mem_survivors hvm
      rw [hnil] at halive
      cases halive
    · exact hobserved _ hdone rfl

/-- A run before its launch, without VMs. -/
def freshVms (plan : Plan) : VmRun := ⟨freshRun plan, []⟩

/-- **Reconcile says that no VM is alive only if none is**, in every run whose steps all meet
`namesVms`. -/
theorem reconcile_evidence {plan : Plan} {acts : List VmAct} {s t : VmRun} {seat cut : ℕ}
    {o : Observation}
    (hok : Meets (VmRun.step D) (fun s a => namesVms s a = true) (freshVms plan)
      (acts ++ [.run (.reconcile seat o cut)]))
    (h : exec (VmRun.step D) (freshVms plan) acts = some s)
    (ht : s.step D (.run (.reconcile seat o cut)) = some t) :
    (∃ e ∈ ((s.run.effects D (.reconcile seat o cut)).getD []).take cut, e.saysClean = true) →
      t.alive = [] := by
  rintro ⟨e, he, hclean⟩
  obtain ⟨hpre, hcond⟩ := (meets_concat h).mp hok
  have hinv : VmsNamed s.alive s.run := by
    refine exec_invariant (fun u : VmRun => VmsNamed u.alive u.run) ?_ ?_ hpre h
    · exact fun u a v hu hmeet hv => namesVms_step hu hmeet hv
    · exact ⟨disciplined_freshRun plan, by simp [freshVms]⟩
  simp only [VmRun.step] at ht
  split_ifs at ht with htrue
  obtain ⟨u, hu, rfl⟩ := Option.map_eq_some_iff.mp ht
  obtain ⟨es, hes, -⟩ := Option.map_eq_some_iff.mp hu
  have heffects : s.run.effects D (.reconcile seat o cut) = some es := hes
  rw [heffects] at he
  obtain ⟨run, hr, hdone⟩ := saysClean_done hes (List.mem_of_mem_take he) hclean
  obtain ⟨run', hr', hst, hcan, -⟩ := reconcileEffects_cases hes
  rw [hr] at hr'
  cases hr'
  have hflight := (hinv.disciplined.rests seat run hr).not_inFlight (by simp [hst]) (by simp [hst])
  have hlease : s.run.lease = none ∨ s.run.lease = some seat := by
    simpa [RunState.canHold] using hcan
  have hnamed : AllNamed s.alive s.run := by
    refine hinv.allNamed hlease ?_
    intro run' hrun b hb
    have hrun' : s.run.seats seat = some run' := hrun
    rw [hr] at hrun'
    cases hrun'
    rw [hb] at hflight
    cases hflight
  refine reconcile_survivors hnamed htrue ?_ hdone
  intro hp memory hm hd
  have hcond' : (!abandonmentPending s.run.files.events || s.alive.isEmpty ||
      (s.run.seats seat).all fun run =>
        run.result.all fun memory => !memory.result.sandboxCleanup.done) = true := hcond
  have hm' : run.result = some memory := hm
  rw [hp, hr, Option.all_some, hm', Option.all_some, hd] at hcond'
  simpa using hcond'

/-- An attempt that is lost with its seat, and its VM with a receipt. -/
def untilOrphaned : List VmAct :=
  [.run (.launch 0 5), .run (.begin 0), .start 0 sandboxIdentity,
    .run (.sandboxStarted 0 (some sandboxIdentity)), .run (.die 0), .run (.open 0 none 5)]

/-- A process that is there and can be terminated. -/
def terminable : Observation :=
  { gone .absent with process := fun identity => .present identity }

/-- Reconcile terminates the VM of a lost attempt. -/
theorem reconcile_evidence_terminated : ∃ s t,
    exec (VmRun.step sameDigest) (freshVms livePlan) untilOrphaned = some s ∧ s.alive ≠ [] ∧
      s.step sameDigest (.run (.reconcile 0 terminable 5)) = some t ∧ t.alive = [] := by
  have hrun : (exec (VmRun.step sameDigest) (freshVms livePlan) untilOrphaned).any (fun s =>
      decide (s.alive ≠ []) && (s.step sameDigest (.run (.reconcile 0 terminable 5))).isSome &&
        (((s.run.effects sameDigest (.reconcile 0 terminable 5)).getD []).take 5).any
          Effect.saysClean) = true := by
    decide +kernel
  obtain ⟨s, hs, hc⟩ := (Option.any_eq_true _ _).mp hrun
  simp only [Bool.and_eq_true] at hc
  obtain ⟨⟨halive, hstep⟩, hclean⟩ := hc
  obtain ⟨t, ht⟩ := Option.isSome_iff_exists.mp hstep
  refine ⟨s, t, hs, of_decide_eq_true halive, ht, reconcile_evidence ?_ hs ht ?_⟩
  · decide +kernel
  · exact List.any_eq_true.mp hclean

/-- Reconcile calls a sandbox not needed while its VM is alive, when the seat has died between the
start of the VM and its receipt. -/
theorem reconcile_overlooks_vm : ¬∀ acts s t seat o cut,
    exec (VmRun.step sameDigest) (freshVms livePlan) acts = some s →
      s.step sameDigest (.run (.reconcile seat o cut)) = some t →
        (∃ e ∈ ((s.run.effects sameDigest (.reconcile seat o cut)).getD []).take cut,
          e.saysClean = true) → t.alive = [] := by
  intro hall
  have hrun : (exec (VmRun.step sameDigest) (freshVms livePlan)
      [.run (.launch 0 5), .run (.begin 0), .start 0 sandboxIdentity, .run (.die 0),
        .run (.open 0 none 5)]).any (fun s =>
      (s.step sameDigest (.run (.reconcile 0 (gone .absent) 5))).any (fun t =>
        decide (t.alive ≠ [])) &&
        (((s.run.effects sameDigest (.reconcile 0 (gone .absent) 5)).getD []).take 5).any
          Effect.saysClean) = true := by
    decide +kernel
  obtain ⟨s, hs, hc⟩ := (Option.any_eq_true _ _).mp hrun
  obtain ⟨hstep, hclean⟩ := Bool.and_eq_true_iff.mp hc
  obtain ⟨t, ht, halive⟩ := (Option.any_eq_true _ _).mp hstep
  exact of_decide_eq_true halive (hall _ s t 0 (gone .absent) 5 hs ht (List.any_eq_true.mp hclean))

end RunLife

end PiSubagent
