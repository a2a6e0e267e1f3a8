import PiSubagent.Service.AttemptLineage
import PiSubagent.Service.RunBudget
import Mathlib.Data.List.TakeWhile
import Mathlib.Data.Rat.Floor
import Mathlib.Tactic.Linarith

/-!
# The totals an attempt rebuilds

`runNativeAttempt` adds what the terminal events of the journal report to the limits of its plan, so
that it can steer against the limits of the whole run.

* `reported`, `steering`: what it reads of the journal, and what it steers against.
* `Steering.pressures`, `Steering.stages`, `Steering.runtimeDelay`: the notices.
* `chargesOnce`: the steps after which the journal says what the plans have been charged with.
* **`totaled_step`**: they keep the totals.
* **`budget_rebuilt`**: after such steps, an attempt that reads the journal steers against the
  limits of the root plan and against everything the plans have been charged with.
* **`lost_attempt_uncounted`**: an attempt that was lost with its seat is charged and not counted.

Costs are doubles.
-/

namespace PiSubagent

open JsonText

namespace RunLife

open Cuts Runs
open RunState (setSeat perform kill)

variable {D : Planner} {root : Plan} {s t : RunState}

/-! ## What the executor reads -/

/-- `priorResults`. -/
def priorResults (events : List RunEvent) : List RunResult :=
  (events.filterMap RunEvent.terminal?).filter isRunResult

/-- The cost of a result, as it is read. -/
def costOf (r : RunResult) : ℚ := Double.rounded (decimalValue r.usage.cost)

/-- `priorCost`: the costs are added one after the other. -/
def priorCost (events : List RunEvent) : ℚ :=
  ((priorResults events).map costOf).foldl (fun total cost => Double.rounded (total + cost)) 0

/-- `priorRuntimeMs`, `priorTotalTokens` and `priorCost`. -/
def priorSpent (events : List RunEvent) : Spent where
  runtimeMs := ((priorResults events).map RunResult.runtimeMs).sum
  totalTokens := ((priorResults events).map fun r => r.usage.totalTokens).sum
  cost := priorCost events

/-- What an attempt steers against: `cumulativeRuntimeLimit`, `tokenLimit`, `costLimit`, and what
was used before it. -/
structure Steering where
  cumulativeRuntimeLimit : ℕ
  tokenLimit : Option ℕ
  costLimit : ℚ
  prior : Spent
deriving DecidableEq

/-- `BudgetSteeringTrigger`, of the budgets of the whole run. -/
inductive BudgetSteeringTrigger where
  | tokens | cost | cumulativeRuntime
deriving DecidableEq, Repr

/-- A use of a budget. -/
structure Pressure where
  trigger : BudgetSteeringTrigger
  used : ℚ
  limit : ℚ
deriving DecidableEq, Repr

/-- `BUDGET_STEERING_STAGES`. -/
def budgetSteeringStages : List ℚ := [Double.rounded (7 / 10), Double.rounded (9 / 10)]

/-- `budgetStagesForPressure(used / limit)`; nothing over nothing is no number. -/
def budgetStagesForPressure (p : Pressure) : List ℚ :=
  if p.limit = 0 then if 0 < p.used then budgetSteeringStages else []
  else budgetSteeringStages.filter fun stage => decide (stage ≤ Double.rounded (p.used / p.limit))

namespace Steering

variable (b : Steering)

/-- `usageBudgetPressures`. -/
def pressures (current : Spent) : List Pressure :=
  (b.tokenLimit.toList.map fun limit =>
    ⟨.tokens, ((b.prior.totalTokens + current.totalTokens : ℕ) : ℚ), limit⟩) ++
    [⟨.cost, Double.rounded (b.prior.cost + current.cost), b.costLimit⟩]

/-- The notices at the end of a turn, in the order in which they are queued. -/
def stages (current : Spent) : List (ℚ × Pressure) :=
  (b.pressures current).flatMap fun p => (budgetStagesForPressure p).map fun stage => (stage, p)

end Steering

/-! ## Sums -/

instance : Add Spent :=
  ⟨fun a b => ⟨a.runtimeMs + b.runtimeMs, a.totalTokens + b.totalTokens, a.cost + b.cost⟩⟩

instance : Zero Spent := ⟨⟨0, 0, 0⟩⟩

@[simp] theorem Spent.runtimeMs_add (a b : Spent) : (a + b).runtimeMs = a.runtimeMs + b.runtimeMs :=
  rfl

@[simp] theorem Spent.totalTokens_add (a b : Spent) :
    (a + b).totalTokens = a.totalTokens + b.totalTokens := rfl

@[simp] theorem Spent.cost_add (a b : Spent) : (a + b).cost = a.cost + b.cost := rfl

@[simp] theorem Spent.runtimeMs_zero : (0 : Spent).runtimeMs = 0 := rfl

@[simp] theorem Spent.totalTokens_zero : (0 : Spent).totalTokens = 0 := rfl

@[simp] theorem Spent.cost_zero : (0 : Spent).cost = 0 := rfl

theorem Spent.ext_iff' {a b : Spent} :
    a = b ↔ a.runtimeMs = b.runtimeMs ∧ a.totalTokens = b.totalTokens ∧ a.cost = b.cost := by
  cases a
  cases b
  simp

theorem Spent.add_zero (a : Spent) : a + 0 = a := by simp [Spent.ext_iff']

theorem Spent.zero_add (a : Spent) : 0 + a = a := by simp [Spent.ext_iff']

/-- What a result reports. -/
def reportedSpent (r : RunResult) : Spent := ⟨r.runtimeMs, r.usage.totalTokens, costOf r⟩

/-- What the terminal events report together. -/
def reported (events : List RunEvent) : Spent where
  runtimeMs := ((priorResults events).map RunResult.runtimeMs).sum
  totalTokens := ((priorResults events).map fun r => r.usage.totalTokens).sum
  cost := ((priorResults events).map costOf).sum

theorem reported_nil : reported [] = 0 := rfl

theorem reported_append (xs ys : List RunEvent) :
    reported (xs ++ ys) = reported xs + reported ys := by
  rw [Spent.ext_iff']
  simp [reported, priorResults, List.filterMap_append]

theorem reported_quiet {events : List RunEvent} (h : ∀ e ∈ events, e.terminal? = none) :
    reported events = 0 := by
  have hnone : events.filterMap RunEvent.terminal? = [] := List.filterMap_eq_nil_iff.mpr h
  unfold reported priorResults
  rw [hnone]
  rfl

theorem priorSpent_quiet (events : List RunEvent) {new : List RunEvent}
    (h : ∀ e ∈ new, e.terminal? = none) : priorSpent (events ++ new) = priorSpent events := by
  have hnone : new.filterMap RunEvent.terminal? = [] := List.filterMap_eq_nil_iff.mpr h
  unfold priorSpent priorCost priorResults
  rw [List.filterMap_append, hnone, List.append_nil]

/-- Results that report nothing add up to nothing, also in a part of the journal. -/
theorem reported_zero {events part : List RunEvent}
    (h : ∀ r ∈ priorResults events, reportedSpent r = 0) (hp : part.Sublist events) :
    reported part = 0 := by
  have hzero : ∀ r ∈ priorResults part, reportedSpent r = 0 := by
    intro r hr
    exact h r (((hp.filterMap _).filter _).mem hr)
  rw [Spent.ext_iff']
  refine ⟨List.sum_eq_zero ?_, List.sum_eq_zero ?_, List.sum_eq_zero ?_⟩
  all_goals
    intro x hx
    obtain ⟨r, hr, rfl⟩ := List.mem_map.mp hx
    obtain ⟨h1, h2, h3⟩ := Spent.ext_iff'.mp (hzero r hr)
  · exact h1
  · exact h2
  · exact h3

/-! ## Before and since an attempt began -/

/-- The attempt has begun. -/
def Begun (id : JsString) (events : List RunEvent) : Prop := ∃ e ∈ events, e.starts id = true

/-- The events before the first start of an attempt. -/
def eventsBefore (id : JsString) (events : List RunEvent) : List RunEvent :=
  events.takeWhile fun e => !e.starts id

/-- The events from the first start of an attempt on. -/
def eventsSince (id : JsString) (events : List RunEvent) : List RunEvent :=
  events.dropWhile fun e => !e.starts id

theorem reported_split (id : JsString) (events : List RunEvent) :
    reported events =
      reported (eventsBefore id events) + reported (eventsSince id events) := by
  rw [← reported_append]
  unfold eventsBefore eventsSince
  rw [List.takeWhile_append_dropWhile]

theorem eventsBefore_begun {id : JsString} {events : List RunEvent} (h : Begun id events)
    (new : List RunEvent) : eventsBefore id (events ++ new) = eventsBefore id events := by
  unfold eventsBefore
  obtain ⟨e, he, hs⟩ := h
  induction events with
  | nil => cases he
  | cons x xs ih =>
    rw [List.cons_append, List.takeWhile_cons, List.takeWhile_cons]
    by_cases hx : x.starts id = true
    · simp [hx]
    · have hmem : e ∈ xs := by
        rcases List.mem_cons.mp he with rfl | hm
        · exact absurd hs hx
        · exact hm
      simp only [hx, Bool.not_false, if_true]
      rw [ih hmem]

theorem eventsSince_begun {id : JsString} {events : List RunEvent} (h : Begun id events)
    (new : List RunEvent) : eventsSince id (events ++ new) = eventsSince id events ++ new := by
  unfold eventsSince
  obtain ⟨e, he, hs⟩ := h
  induction events with
  | nil => cases he
  | cons x xs ih =>
    rw [List.cons_append, List.dropWhile_cons, List.dropWhile_cons]
    by_cases hx : x.starts id = true
    · simp [hx]
    · have hmem : e ∈ xs := by
        rcases List.mem_cons.mp he with rfl | hm
        · exact absurd hs hx
        · exact hm
      simp only [hx, Bool.not_false, if_true]
      exact ih hmem

theorem events_not_begun {id : JsString} {events : List RunEvent} (h : ¬Begun id events) :
    eventsBefore id events = events ∧ eventsSince id events = [] := by
  have hall : ∀ e ∈ events, (!e.starts id) = true := by
    intro e he
    by_contra hne
    simp only [Bool.not_eq_true', Bool.not_eq_false] at hne
    exact h ⟨e, he, hne⟩
  exact ⟨List.takeWhile_eq_self_iff.mpr hall, List.dropWhile_eq_nil_iff.mpr hall⟩

/-- Events that report nothing change neither sum. -/
theorem reported_before_quiet (id : JsString) (events : List RunEvent) {new : List RunEvent}
    (h : ∀ e ∈ new, e.terminal? = none) :
    reported (eventsBefore id (events ++ new)) = reported (eventsBefore id events) := by
  by_cases hb : Begun id events
  · rw [eventsBefore_begun hb]
  · obtain ⟨hbefore, -⟩ := events_not_begun hb
    have hnew : ∀ e ∈ eventsBefore id new, e.terminal? = none := fun e he =>
      h e ((List.takeWhile_sublist _).mem he)
    have happ : eventsBefore id (events ++ new) = events ++ eventsBefore id new := by
      unfold eventsBefore at hbefore ⊢
      exact List.takeWhile_append_of_pos (List.takeWhile_eq_self_iff.mp hbefore)
    rw [happ, hbefore, reported_append, reported_quiet hnew, Spent.add_zero]

theorem reported_since_quiet (id : JsString) (events : List RunEvent) {new : List RunEvent}
    (h : ∀ e ∈ new, e.terminal? = none) :
    reported (eventsSince id (events ++ new)) = reported (eventsSince id events) := by
  by_cases hb : Begun id events
  · rw [eventsSince_begun hb, reported_append, reported_quiet h, Spent.add_zero]
  · obtain ⟨hbefore, hsince⟩ := events_not_begun hb
    have hnew : ∀ e ∈ eventsSince id new, e.terminal? = none := fun e he =>
      h e ((List.dropWhile_sublist _).mem he)
    have happ : eventsSince id (events ++ new) = eventsSince id new := by
      unfold eventsSince at hsince ⊢
      exact List.dropWhile_append_of_pos (List.dropWhile_eq_nil_iff.mp hsince)
    rw [happ, hsince, reported_quiet hnew, reported_nil]

/-! ## The condition -/

/-- The result a seat remembers of the latest attempt reports what its terminal events in the
journal report together, and its cost is taken from the limit without rounding. -/
def RunState.chargeIsCounted (s : RunState) (seat : ℕ) : Bool :=
  match s.seats seat, s.files.latest with
  | some run, some latest => run.result.all fun r =>
      let left := run.plan.limits.cost - costOf r.result
      decide (reportedSpent r.result = reported (eventsSince latest.attemptId s.files.events) ∧
        Double.rounded left = left)
  | _, _ => true

/-- A step after which the journal says what the plans have been charged with. -/
def chargesOnce (D : Planner) (s : RunState) (a : RunAct) : Bool :=
  match a with
  | .launch _ cut | .launchUndone _ cut =>
    -- No attempt has been retried or resumed yet, and none has reported anything.
    !(s.writes D a cut).any Effect.isAttempt ||
      s.files.attempts.all (fun a => decide (a.kind = .initial)) &&
        (priorResults s.files.events).all (fun r => decide (reportedSpent r = 0))
  | .retry seat cut | .retryUndone seat cut | .resume seat _ cut | .resumeUndone seat _ cut =>
    !(s.writes D a cut).any Effect.isAttempt || s.chargeIsCounted seat
  | .begin _ =>
    -- The costs that the journal reports add up without rounding.
    decide (priorCost s.files.events = (reported s.files.events).cost)
  | _ => true

/-! ## What steps do to the journal -/

theorem events_grow {a : RunAct} (h : s.step D a = some t) :
    ∃ new, t.files.events = s.files.events ++ new ∧ ∀ e ∈ new, a.Appends e := by
  refine RunState.step_allCuts (P := fun u => ∃ new, u.files.events = s.files.events ++ new ∧
    ∀ e ∈ new, a.Appends e) h ?_ ?_ ?_
  · exact fun _ _ => ⟨[], by simp [kill, setSeat], by simp⟩
  · exact fun _ _ hu => hu
  · intro es he
    refine AllCuts.of_preserved ⟨[], by simp, by simp⟩ ?_
    rintro u e hm ⟨new, hu, hnew⟩
    cases e with
    | append e =>
      refine ⟨new ++ [e], ?_, ?_⟩
      · show u.files.events ++ [e] = _
        rw [hu, List.append_assoc]
      · intro e' he'
        rcases List.mem_append.mp he' with he' | he'
        · exact hnew e' he'
        · rw [List.mem_singleton.mp he']
          exact effects_appends he hm
    | settleLease =>
      refine ⟨new, ?_, hnew⟩
      simp only [perform]
      split_ifs
      · exact hu
      · exact hu
    | _ => exact ⟨new, hu, hnew⟩

theorem appends_quiet {a : RunAct} {e : RunEvent} (h : a.Appends e)
    (hfinish : ∀ seat execution cut, a ≠ .finish seat execution cut) : e.terminal? = none := by
  cases a with
  | finish seat execution cut => exact absurd rfl (hfinish seat execution cut)
  | resume seat continuing cut | resumeUndone seat continuing cut =>
    cases continuing with
    | true =>
      cases h
      rfl
    | false => exact h.elim
  | begin seat | usageCheckpoint seat usage runtimeMs =>
    obtain ⟨attemptId, rfl⟩ := h
    rfl
  | reconcile seat o cut =>
    rcases h with ⟨r, rfl, -⟩ | ⟨status, -, rfl⟩ <;> rfl
  | abandon seat released cut =>
    rcases h with rfl | ⟨r, rfl, -⟩ <;> rfl
  | sandboxStarted seat identity | sessionStarted seat | release seat released cut
  | «open» seat handoff cut =>
    cases h
    rfl
  | _ => exact h.elim

theorem appends_start {a : RunAct} {e : RunEvent} (h : a.Appends e)
    (hbegin : ∀ seat, a ≠ .begin seat) : e.start? = none := by
  cases a with
  | begin seat => exact absurd rfl (hbegin seat)
  | resume seat continuing cut | resumeUndone seat continuing cut =>
    cases continuing with
    | true =>
      cases h
      rfl
    | false => exact h.elim
  | finish seat execution cut => rcases h with rfl | rfl <;> rfl
  | usageCheckpoint seat usage runtimeMs =>
    obtain ⟨attemptId, rfl⟩ := h
    rfl
  | reconcile seat o cut =>
    rcases h with ⟨r, rfl, -⟩ | ⟨status, -, rfl⟩ <;> rfl
  | abandon seat released cut =>
    rcases h with rfl | ⟨r, rfl, -⟩ <;> rfl
  | sandboxStarted seat identity | sessionStarted seat | release seat released cut
  | «open» seat handoff cut =>
    cases h
    rfl
  | _ => exact h.elim

theorem writes_start {call : StartCall} {seat cut : ℕ} (undo : Bool) {es : List Effect}
    (h : call.effects D s seat = some es) :
    s.writes D (call.act seat cut undo) cut = es.take cut := by
  have heff : s.effects D (call.act seat cut undo) = some es := by
    rw [← h]
    cases call <;> cases undo <;> rfl
  unfold RunState.writes
  rw [heff]
  rfl

/-- A start that comes neither to a record nor to the executor. -/
theorem start_neither {call : StartCall} {seat cut : ℕ} {undo : Bool}
    (ht : s.step D (call.act seat cut undo) = some t)
    (hno : ¬(s.writes D (call.act seat cut undo) cut).any Effect.isAttempt = true) :
    t.files.attempts = s.files.attempts ∧ t.seats = s.seats := by
  obtain ⟨es, hes, rfl⟩ := step_act ht
  rw [writes_start undo hes] at hno
  obtain ⟨i, -, rfl⟩ := StartCall.effects_cases hes
  have hneither : ∀ e ∈ (startEffects s.files i).take cut, e.isStarting = true ∧
      e.record? = none := by
    intro e he
    have hof := startEffects_ofStart s.files i e (List.mem_of_mem_take he)
    have hnot : e.isAttempt = false := by
      by_contra hne
      exact hno (List.any_eq_true.mpr ⟨e, he, (Bool.not_eq_false _).mp hne⟩)
    cases e with
    | createAttempt _ | execute _ => cases hnot
    | writeSnapshot _ | removeSnapshot _ | removeSnapshots | remember _ | settleLease =>
      exact hof.elim
    | _ => exact ⟨rfl, rfl⟩
  obtain ⟨-, hatt, -, -, hseats⟩ := foldl_abandonedCheckout seat (startEffects s.files i) cut
    undo (((startEffects s.files i).take cut).foldl (perform seat) s)
  rw [hatt, hseats]
  refine ⟨?_, foldl_seats s fun e he => Or.inl (hneither e he).1⟩
  rw [(foldl_lineage seat _ s).2.1, List.filterMap_eq_nil_iff.mpr fun e he => (hneither e he).2,
    List.append_nil]

/-! ## What steps do to an attempt that runs -/

/-- The seat runs an attempt with this plan, so far begun or not. -/
def RunState.Runs (s : RunState) (seat : ℕ) (plan : Plan) (begun : Bool) : Prop :=
  ∃ run, s.seats seat = some run ∧ run.plan = plan ∧ run.flight = .running begun

/-- A write after which the seat runs only what it ran. -/
def Effect.RunsOn (s : RunState) (seat : ℕ) : Effect → Prop
  | .remember run => ∀ b, run.flight = .running b → s.Runs seat run.plan b
  | .execute _ => False
  | _ => True

theorem runsOn_settle (run : ActiveRun) (execution : AttemptExecutionResult) (seat : ℕ) :
    (Effect.remember (run.settle execution)).RunsOn s seat := by
  intro b hb
  cases hb

/-- A step that neither starts nor begins an attempt writes so. -/
theorem effects_runsOn {a : RunAct} {es : List Effect} (ha : a.isStart = false)
    (hbegin : ∀ seat, a ≠ .begin seat) (h : s.effects D a = some es) :
    ∀ e ∈ es, e.RunsOn s a.seat := by
  intro e he
  cases a with
  | launch seat cut | launchUndone seat cut | retry seat cut | retryUndone seat cut
  | resume seat continuing cut | resumeUndone seat continuing cut => cases ha
  | die seat => cases h
  | begin seat => exact absurd rfl (hbegin seat)
  | sandboxStarted seat identity | sessionStarted seat | usageCheckpoint seat usage runtimeMs =>
    obtain ⟨run, e', -, -, -, rfl⟩ := noteEffects_cases (fun run => rfl) h
    rw [List.mem_singleton.mp he]
    trivial
  | finish seat execution cut =>
    obtain ⟨run, -, -, -, rfl⟩ := finishEffects_cases h
    rcases List.mem_append.mp he with he | he
    · split_ifs at he
      · rw [List.mem_singleton.mp he]
        trivial
      · cases he
    · simp only [List.mem_cons, List.not_mem_nil, or_false] at he
      rcases he with rfl | rfl | rfl
      · trivial
      · trivial
      · intro b hb
        cases hb
  | reject seat =>
    obtain ⟨run, b, -, -, rfl⟩ := rejectEffects_cases h
    rw [List.mem_singleton.mp he]
    intro b hb
    cases hb
  | settle seat handoff =>
    obtain ⟨run, execution, -, -, rfl⟩ := settleEffects_cases h
    simp only [settleEffects, List.mem_cons, List.not_mem_nil, or_false] at he
    rcases he with rfl | rfl | rfl
    · trivial
    · exact runsOn_settle run _ seat
    · trivial
  | settleBlocked seat =>
    obtain ⟨run, -, -, rfl⟩ := settleBlockedEffects_cases h
    rw [List.mem_singleton.mp he]
    intro b hb
    cases hb
  | interrupt seat =>
    obtain ⟨run, hr, -, rfl⟩ := interruptEffects_cases h
    rw [List.mem_singleton.mp he]
    exact fun b hb => ⟨run, hr, rfl, hb⟩
  | shutdown seat =>
    obtain ⟨run, hr, -, rfl⟩ := shutdownEffects_cases h
    rw [List.mem_singleton.mp he]
    exact fun b hb => ⟨run, hr, rfl, hb⟩
  | reconcile seat o cut =>
    rcases mem_reconcileEffects h he with rfl | ⟨run, execution, -, -, rfl | rfl | rfl | rfl⟩
    · trivial
    · trivial
    · trivial
    · exact runsOn_settle run _ seat
    · trivial
  | release seat released cut =>
    obtain ⟨run, -, -, -, -, -, hes⟩ := releaseEffects_cases h
    split at hes
    case h_1 =>
      subst hes
      rcases List.mem_pair.mp he with rfl | rfl <;> trivial
    case h_2 =>
      split at hes
      case h_1 =>
        subst hes
        cases he
      case h_2 =>
        subst hes
        simp only [List.mem_cons, List.not_mem_nil, or_false] at he
        rcases he with rfl | rfl | rfl | rfl
        · trivial
        · trivial
        · exact runsOn_settle run _ seat
        · trivial
  | abandon seat released cut =>
    obtain ⟨run, memory, -, -, -, -, -, -, rfl⟩ := abandonEffects_cases h
    rcases List.mem_append.mp he with he | he
    · rcases List.mem_pair.mp he with rfl | rfl
      · trivial
      · exact runsOn_settle run _ seat
    · split_ifs at he
      · rcases List.mem_pair.mp he with rfl | rfl
        · trivial
        · exact runsOn_settle run _ seat
      · simp only [List.mem_cons, List.not_mem_nil, or_false] at he
        rcases he with rfl | rfl | rfl
        · trivial
        · exact runsOn_settle run _ seat
        · trivial
      · cases he
  | «open» seat handoff cut =>
    obtain ⟨-, -, -, rfl⟩ := openEffects_cases h
    rcases List.mem_append.mp he with he | he
    · split at he
      · rcases List.mem_pair.mp he with rfl | rfl <;> trivial
      · cases he
    · rw [List.mem_singleton.mp he]
      intro b hb
      cases hb

/-- **A step that neither starts nor begins an attempt leaves the seats running what they ran.** -/
theorem runs_step {a : RunAct} (ha : a.isStart = false) (hbegin : ∀ seat, a ≠ .begin seat)
    (h : s.step D a = some t) {n : ℕ} {plan : Plan} {b : Bool} (ht : t.Runs n plan b) :
    s.Runs n plan b := by
  have hall : ∀ n plan b, t.Runs n plan b → s.Runs n plan b := by
    refine RunState.step_allCuts (P := fun u => ∀ n plan b, u.Runs n plan b → s.Runs n plan b) h
      ?_ ?_ ?_
    · rintro seat - n plan b ⟨run, hr, hp, hf⟩
      simp only [kill, setSeat] at hr
      split_ifs at hr
      exact ⟨run, hr, hp, hf⟩
    · exact fun _ _ hu => hu
    · intro es he
      refine AllCuts.of_preserved (fun _ _ _ hu => hu) ?_
      intro u e hm hu n plan b hr
      have heff := effects_runsOn ha hbegin he e hm
      cases e with
      | remember run =>
        obtain ⟨run', hr', hp, hf⟩ := hr
        simp only [perform, setSeat] at hr'
        split_ifs at hr' with hn
        · cases hr'
          rw [hn, ← hp]
          exact heff b hf
        · exact hu n plan b ⟨run', hr', hp, hf⟩
      | execute run => exact heff.elim
      | settleLease =>
        simp only [perform] at hr
        split_ifs at hr
        · exact hu n plan b hr
        · exact hu n plan b hr
      | _ => exact hu n plan b hr
  exact hall n plan b ht

theorem begin_spec {seat : ℕ} (ht : s.step D (.begin seat) = some t) :
    ∃ run, s.seats seat = some run ∧ run.flight = .running false ∧
      t.files.events = s.files.events ++ [.attemptStarting run.plan.attemptId] ∧
      t.files.attempts = s.files.attempts ∧
      t.seats = (s.setSeat seat (some { run with flight := .running true })).seats := by
  simp only [RunState.step] at ht
  split at ht
  next run hr =>
    split at ht
    next hf =>
      cases ht
      exact ⟨run, hr, hf, rfl, rfl, rfl⟩
    next => cases ht
  next => cases ht

theorem finish_spec {seat cut : ℕ} {execution : AttemptExecutionResult}
    (ht : s.step D (.finish seat execution cut) = some t) :
    ∃ run, s.seats seat = some run ∧ run.flight = .running true := by
  simp only [RunState.step] at ht
  split at ht
  next run hr =>
    split at ht
    next hf => exact ⟨run, hr, hf⟩
    next => cases ht
  next => cases ht

/-! ## Totals -/

/-- The limits are what a use has left of others. -/
structure Left (root left : Limits) (spent : Spent) : Prop where
  runtime : left.cumulativeRuntimeMs + spent.runtimeMs = root.cumulativeRuntimeMs
  tokens : left.totalTokens.map (· + spent.totalTokens) = root.totalTokens
  cost : left.cost + spent.cost = root.cost

theorem Left.refl (l : Limits) : Left l l 0 := by
  refine ⟨rfl, ?_, ?_⟩
  · cases l.totalTokens <;> rfl
  · exact add_zero l.cost

/-- A derived plan has what the attempt before it left, when its cost is not rounded. -/
theorem Left.next {root left next after : Limits} {spent : Spent} {r : RunResult}
    (h : Left root left spent) (hafter : left.after Double.rounded r = some after)
    (hexact : Double.rounded (left.cost - costOf r) = left.cost - costOf r)
    (hms : next.cumulativeRuntimeMs = after.cumulativeRuntimeMs)
    (htok : next.totalTokens = after.totalTokens) (hcost : next.cost = after.cost) :
    Left root next (spent + reportedSpent r) := by
  obtain ⟨hle, hms', -, -, htok', -, hcost', -⟩ := Limits.after_cases hafter
  refine ⟨?_, ?_, ?_⟩
  · have hr := h.runtime
    rw [hms, hms']
    show _ - r.runtimeMs + (_ + r.runtimeMs) = _
    omega
  · rw [← h.tokens, ← htok', htok, Option.map_map]
    congr 1
    funext n
    show n + (_ + r.usage.totalTokens) = n + r.usage.totalTokens + _
    omega
  · have hrest : next.cost = left.cost - costOf r := hcost.trans (hcost'.trans hexact)
    rw [← h.cost, hrest]
    show _ - costOf r + (_ + costOf r) = _
    ring

theorem Left.retry (hD : D.round = Double.rounded) {root : Limits} {current plan : Plan}
    {r : RunResult} {ordinal : ℕ} {spent : Spent} (h : Left root current.limits spent)
    (hexact : Double.rounded (current.limits.cost - costOf r) = current.limits.cost - costOf r)
    (hp : retryPlan D current r ordinal = some plan) :
    Left root plan.limits (spent + reportedSpent r) := by
  unfold retryPlan at hp
  rw [hD] at hp
  split_ifs at hp
  obtain ⟨after, hafter, rfl⟩ := Option.map_eq_some_iff.mp hp
  exact h.next hafter hexact rfl rfl rfl

theorem Left.resume (hD : D.round = Double.rounded) {root : Limits} {current plan : Plan}
    {r : RunResult} {ordinal : ℕ} {continuing : Bool} {spent : Spent}
    (h : Left root current.limits spent)
    (hexact : Double.rounded (current.limits.cost - costOf r) = current.limits.cost - costOf r)
    (hp : resumePlan D current r ordinal continuing = some plan) :
    Left root plan.limits (spent + reportedSpent r) := by
  unfold resumePlan at hp
  rw [hD] at hp
  split_ifs at hp
  obtain ⟨after, hafter, rfl⟩ := Option.map_eq_some_iff.mp hp
  exact h.next hafter hexact rfl rfl rfl

/-- Whether an event starts or ends an attempt, and whether it ends one. -/
def RunEvent.mark? (e : RunEvent) : Option Bool :=
  if e.terminal?.isSome then some true else e.start?.map fun _ => false

/-- The attempt that began last has a terminal event. -/
def hasEnded (events : List RunEvent) : Bool :=
  (lastOf RunEvent.mark? events).getD false

/-- The totals fit: an attempt that is started is recorded, one that has begun is started, the
latest plan has what the events before its start have left, an attempt that is not over has not
reported, and what it reads is not rounded. -/
structure Totaled (root : Plan) (s : RunState) : Prop where
  starts : ∀ id, Begun id s.files.events → ∃ a ∈ s.files.attempts, a.attemptId = id
  begun : ∀ n plan, s.Runs n plan true → Begun plan.attemptId s.files.events
  before : ∀ latest ∈ s.files.latest, Left root.limits latest.plan.limits
    (reported (eventsBefore latest.attemptId s.files.events))
  since : ∀ n plan b, s.Runs n plan b → (b = true → hasEnded s.files.events = false) →
    reported (eventsSince plan.attemptId s.files.events) = 0
  exact : ∀ n plan, s.Runs n plan true → hasEnded s.files.events = false →
    priorSpent s.files.events = reported s.files.events

theorem Begun.append {id : JsString} {events : List RunEvent} (h : Begun id events)
    (new : List RunEvent) : Begun id (events ++ new) := by
  obtain ⟨e, he, hs⟩ := h
  exact ⟨e, List.mem_append_left _ he, hs⟩

theorem begun_append_quiet {id : JsString} {events new : List RunEvent}
    (hnew : ∀ e ∈ new, e.start? = none) (h : Begun id (events ++ new)) : Begun id events := by
  obtain ⟨e, he, hs⟩ := h
  rcases List.mem_append.mp he with he | he
  · exact ⟨e, he, hs⟩
  · have hid := (RunEvent.starts_iff id e).mp hs
    rw [hnew e he] at hid
    cases hid

/-- Events that neither start nor end an attempt. -/
theorem hasEnded_quiet (events : List RunEvent) {new : List RunEvent}
    (hs : ∀ e ∈ new, e.start? = none) (ht : ∀ e ∈ new, e.terminal? = none) :
    hasEnded (events ++ new) = hasEnded events := by
  have hnone : ∀ e ∈ new.reverse, e.mark? = none := by
    intro e he
    have hm := List.mem_reverse.mp he
    unfold RunEvent.mark?
    rw [hs e hm, ht e hm]
    rfl
  unfold hasEnded lastOf
  rw [List.reverse_append, List.findSome?_append, List.findSome?_eq_none_iff.mpr hnone]
  rfl

theorem hasEnded_terminal (events : List RunEvent) {new : List RunEvent} (hne : new ≠ [])
    (ht : ∀ e ∈ new, e.terminal?.isSome = true) : hasEnded (events ++ new) = true := by
  obtain ⟨init, e, rfl⟩ : ∃ init e, new = init ++ [e] :=
    ⟨new.dropLast, new.getLast hne, (List.dropLast_append_getLast hne).symm⟩
  have he := ht e (by simp)
  unfold hasEnded
  rw [← List.append_assoc, lastOf_concat]
  unfold RunEvent.mark?
  rw [if_pos he]
  rfl

theorem runs_latest (hd : s.Disciplined) (hl : Lineage s) {n : ℕ} {plan : Plan} {b : Bool}
    (h : s.Runs n plan b) : s.lease = some n ∧
      ∃ latest, s.files.latest = some latest ∧ latest.attemptId = plan.attemptId := by
  obtain ⟨run, hr, rfl, hf⟩ := h
  have hin : run.flight.inFlight = true := by
    rw [hf]
    rfl
  exact ⟨hd.busy n run hr hin, hl.inFlight n run hr hin⟩

theorem runs_unique (hd : s.Disciplined) (hl : Lineage s) {n m : ℕ} {plan plan' : Plan}
    {b b' : Bool} (h : s.Runs n plan b) (h' : s.Runs m plan' b') :
    n = m ∧ plan = plan' ∧ b = b' := by
  have hn := (runs_latest hd hl h).1
  have hm := (runs_latest hd hl h').1
  obtain rfl : n = m := Option.some.inj (hn.symm.trans hm)
  obtain ⟨run, hr, rfl, hf⟩ := h
  obtain ⟨run', hr', rfl, hf'⟩ := h'
  obtain rfl : run = run' := Option.some.inj (hr.symm.trans hr')
  rw [hf] at hf'
  cases hf'
  exact ⟨rfl, rfl, rfl⟩

/-- A step that appends nothing about the start and the end of an attempt. -/
theorem totaled_quiet (h : Totaled root s) {new : List RunEvent}
    (hev : t.files.events = s.files.events ++ new) (hs : ∀ e ∈ new, e.start? = none)
    (ht : ∀ e ∈ new, e.terminal? = none) (hatt : t.files.attempts = s.files.attempts)
    (hruns : ∀ n plan b, t.Runs n plan b → s.Runs n plan b) : Totaled root t := by
  refine ⟨?_, ?_, ?_, ?_, ?_⟩
  · intro id hb
    rw [hev] at hb
    rw [hatt]
    exact h.starts id (begun_append_quiet hs hb)
  · intro n plan hr
    rw [hev]
    exact (h.begun n plan (hruns n plan true hr)).append new
  · intro latest hl
    rw [hev, reported_before_quiet _ _ ht]
    refine h.before latest ?_
    unfold RunFiles.latest at hl ⊢
    rwa [hatt] at hl
  · intro n plan b hr hend
    rw [hev] at hend ⊢
    rw [hasEnded_quiet _ hs ht] at hend
    rw [reported_since_quiet _ _ ht]
    exact h.since n plan b (hruns n plan b hr) hend
  · intro n plan hr hend
    rw [hev, hasEnded_quiet _ hs ht] at hend
    rw [hev, priorSpent_quiet _ ht, reported_append, reported_quiet ht, Spent.add_zero]
    exact h.exact n plan (hruns n plan true hr) hend

/-! ## Steps -/

section Steps

variable (hd : s.Disciplined) (hline : Lineage s)
include hd hline

theorem totaled_begin (h : Totaled root s) {seat : ℕ} (hok : chargesOnce D s (.begin seat) = true)
    (ht : s.step D (.begin seat) = some t) : Totaled root t := by
  obtain ⟨run, hr, hf, hev, hatt, hseats⟩ := begin_spec ht
  have hthis : s.Runs seat run.plan false := ⟨run, hr, rfl, hf⟩
  have hquiet : ∀ e ∈ [RunEvent.attemptStarting run.plan.attemptId], e.terminal? = none := by
    intro e he
    rw [List.mem_singleton.mp he]
    rfl
  have hruns : ∀ n plan b, t.Runs n plan b → n = seat ∧ plan = run.plan ∧ b = true := by
    rintro n plan b ⟨run', hr', rfl, hf'⟩
    rw [hseats] at hr'
    simp only [setSeat] at hr'
    split_ifs at hr' with hn
    · cases hr'
      cases hf'
      exact ⟨hn, rfl, rfl⟩
    · exact absurd (runs_unique hd hline ⟨run', hr', rfl, hf'⟩ hthis).1 hn
  refine ⟨?_, ?_, ?_, ?_, ?_⟩
  · intro id hb
    rw [hatt]
    rw [hev] at hb
    obtain ⟨e, he, hs⟩ := hb
    rcases List.mem_append.mp he with he | he
    · exact h.starts id ⟨e, he, hs⟩
    · rw [List.mem_singleton.mp he] at hs
      obtain ⟨latest, hl, hid⟩ := (runs_latest hd hline hthis).2
      refine ⟨latest, List.mem_of_getLast? hl, hid.trans ?_⟩
      exact of_decide_eq_true hs
  · intro n plan hrun
    obtain ⟨-, rfl, -⟩ := hruns n plan true hrun
    rw [hev]
    refine ⟨.attemptStarting run.plan.attemptId, List.mem_append_right _ List.mem_cons_self, ?_⟩
    exact decide_eq_true rfl
  · intro latest hl
    rw [hev, reported_before_quiet _ _ hquiet]
    refine h.before latest ?_
    unfold RunFiles.latest at hl ⊢
    rwa [hatt] at hl
  · intro n plan b hrun _
    obtain ⟨-, rfl, -⟩ := hruns n plan b hrun
    rw [hev, reported_since_quiet _ _ hquiet]
    exact h.since seat run.plan false hthis fun hb => by cases hb
  · intro n plan hrun _
    rw [hev, priorSpent_quiet _ hquiet, reported_append, reported_quiet hquiet, Spent.add_zero]
    exact Spent.ext_iff'.mpr ⟨rfl, rfl, of_decide_eq_true hok⟩

theorem totaled_finish (h : Totaled root s) {seat cut : ℕ} {execution : AttemptExecutionResult}
    (ht : s.step D (.finish seat execution cut) = some t) : Totaled root t := by
  obtain ⟨new, hev, happ⟩ := events_grow ht
  have hframe := step_frame rfl ht
  have hruns : ∀ n plan b, t.Runs n plan b → s.Runs n plan b := fun n plan b hr =>
    runs_step rfl (fun _ => by simp) ht hr
  have hstart : ∀ e ∈ new, e.start? = none := fun e he =>
    appends_start (happ e he) fun _ => by simp
  have hterm : ∀ e ∈ new, e.terminal?.isSome = true := by
    intro e he
    rcases happ e he with rfl | rfl <;> rfl
  obtain ⟨run, hr, hf⟩ := finish_spec ht
  have hthis : s.Runs seat run.plan true := ⟨run, hr, rfl, hf⟩
  have hbegun := h.begun seat run.plan hthis
  obtain ⟨latest, hl, hid⟩ := (runs_latest hd hline hthis).2
  refine ⟨?_, ?_, ?_, ?_, ?_⟩
  · intro id hb
    rw [hev] at hb
    rw [hframe.attempts]
    exact h.starts id (begun_append_quiet hstart hb)
  · intro n plan hrun
    rw [hev]
    exact (h.begun n plan (hruns n plan true hrun)).append new
  · intro latest' hl'
    have hlatest : latest' = latest := by
      unfold RunFiles.latest at hl hl'
      rw [hframe.attempts, hl] at hl'
      exact (Option.some.inj hl').symm
    rw [hlatest, hev, hid, eventsBefore_begun hbegun, ← hid]
    exact h.before latest hl
  · intro n plan b hrun hend
    obtain ⟨-, -, rfl⟩ := runs_unique hd hline (hruns n plan b hrun) hthis
    -- Once its terminal event is there, the attempt is over.
    have hnil : new = [] := by
      by_contra hne
      rw [hev, hasEnded_terminal _ hne hterm] at hend
      cases hend rfl
    rw [hev, hnil, List.append_nil] at hend ⊢
    exact h.since n plan true (hruns n plan true hrun) hend
  · intro n plan hrun hend
    have hnil : new = [] := by
      by_contra hne
      rw [hev, hasEnded_terminal _ hne hterm] at hend
      cases hend
    rw [hev, hnil, List.append_nil] at hend ⊢
    exact h.exact n plan (hruns n plan true hrun) hend

theorem totaled_start (hD : D.round = Double.rounded) (h : Totaled root s) (hlined : Lined root s) {call : StartCall}
    {seat cut : ℕ} {undo : Bool} (hok : chargesOnce D s (call.act seat cut undo) = true)
    (ht : s.step D (call.act seat cut undo) = some t) : Totaled root t := by
  obtain ⟨new, hev, happ⟩ := events_grow ht
  have hstart : ∀ e ∈ new, e.start? = none := fun e he =>
    appends_start (happ e he) fun n hn => by cases call <;> cases undo <;> cases hn
  have hquiet : ∀ e ∈ new, e.terminal? = none := fun e he =>
    appends_quiet (happ e he) fun n x c hn => by cases call <;> cases undo <;> cases hn
  obtain ⟨es, hes, htt⟩ := step_act ht
  have hwrites : s.writes D (call.act seat cut undo) cut = es.take cut := writes_start undo hes
  obtain ⟨i, hi, ho, -⟩ := start_spec ht
  have hidle : ∀ n plan b, ¬s.Runs n plan b := by
    intro n plan b hr
    have hlease := (runs_latest hd hline hr).1
    rw [hi.lease] at hlease
    cases hlease
  by_cases hany : (es.take cut).any Effect.isAttempt = true
  swap
  · obtain ⟨hatt, hseats⟩ := start_neither ht (by rw [hwrites]; exact hany)
    refine totaled_quiet h hev hstart hquiet hatt ?_
    rintro n plan b ⟨run, hr, hp, hf⟩
    rw [hseats] at hr
    exact ⟨run, hr, hp, hf⟩
  -- The attempt is recorded or handed over, so that the condition says what it is charged with.
  have hcharge : (call = .launch → (∀ a ∈ s.files.attempts, a.kind = .initial) ∧
      ∀ r ∈ priorResults s.files.events, reportedSpent r = 0) ∧
      (call ≠ .launch → s.chargeIsCounted seat = true) := by
    have hmet : ∀ o : Bool, (!(s.writes D (call.act seat cut undo) cut).any Effect.isAttempt || o) =
        true → o = true := by
      intro o hor
      rw [hwrites, hany] at hor
      simpa using hor
    cases call with
    | launch =>
      refine ⟨fun _ => ?_, fun hne => absurd rfl hne⟩
      have hcond := hmet _ (by cases undo <;> exact hok)
      simpa [List.all_eq_true] using hcond
    | retry => exact ⟨(fun hc => by cases hc), fun _ => hmet _ (by cases undo <;> exact hok)⟩
    | resume continuing =>
      exact ⟨(fun hc => by cases hc), fun _ => hmet _ (by cases undo <;> exact hok)⟩
  have hderived : ∀ run latest r, s.seats seat = some run → s.files.latest = some latest →
      run.result = some r → latest.attemptId = run.plan.attemptId → call ≠ .launch →
      Left root.limits run.plan.limits
          (reported (eventsBefore latest.attemptId s.files.events)) ∧
        reported s.files.events =
          reported (eventsBefore latest.attemptId s.files.events) + reportedSpent r.result ∧
          Double.rounded (run.plan.limits.cost - costOf r.result) =
            run.plan.limits.cost - costOf r.result := by
    intro run latest r hr hl hres hid hne
    have hcounted := hcharge.2 hne
    unfold RunState.chargeIsCounted at hcounted
    rw [hr, hl] at hcounted
    simp only [hres, Option.all_some, decide_eq_true_eq] at hcounted
    refine ⟨?_, ?_, hcounted.2⟩
    · rw [hlined.plan_eq (hlined.seats seat run hr) hl hid]
      exact h.before latest hl
    · rw [hcounted.1]
      exact reported_split _ _
  have hleft : Left root.limits i.plan.limits (reported s.files.events) := by
    cases hi with
    | launch hseat hlease =>
      have hzero := (hcharge.1 rfl).2
      rw [reported_zero hzero (List.Sublist.refl _)]
      show Left root.limits s.files.plan.limits 0
      rw [hlined.plan]
      exact Left.refl _
    | retry run latest r plan hr hl hres _ _ hid _ hplan =>
      obtain ⟨hbefore, hsum, hexact⟩ := hderived run latest r hr hl hres hid (by simp)
      rw [hsum]
      exact hbefore.retry hD hexact hplan
    | resume continuing run latest r plan hr hl hres _ hid _ hplan =>
      obtain ⟨hbefore, hsum, hexact⟩ := hderived run latest r hr hl hres hid (by simp)
      rw [hsum]
      exact hbefore.resume hD hexact hplan
  have hfresh : s.files.attempts.find? (·.attemptId = i.plan.attemptId) = none →
      ¬Begun i.plan.attemptId s.files.events := by
    intro hfind hb
    obtain ⟨a, ha, hid⟩ := h.starts _ hb
    exact List.find?_eq_none.mp hfind a ha (decide_eq_true hid)
  -- An attempt that is handed over has not reported anything.
  have hunreported : t.executed ≠ s.executed →
      reported (eventsSince i.plan.attemptId s.files.events) = 0 := by
    intro hne
    rcases ho.attempts with hsame | ⟨id, -, hfind, -, -⟩
    swap
    · rw [(events_not_begun (hfresh hfind)).2, reported_nil]
    rcases ho.executed with ⟨hx, -⟩ | ⟨-, -, a, ha, -, hord, -⟩
    · exact absurd hx hne
    rw [hsame] at ha
    have hlatest : ∀ latest, s.files.latest = some latest → i.ordinal ≠ latest.ordinal + 1 := by
      intro latest hl hsucc
      rcases hline.le_latest hl ha with rfl | hlt <;> omega
    cases hi with
    | launch hseat hlease =>
      exact reported_zero (hcharge.1 rfl).2 (List.dropWhile_sublist _)
    | retry run latest r plan hr hl => exact absurd rfl (hlatest latest hl)
    | resume continuing run latest r plan hr hl => exact absurd rfl (hlatest latest hl)
  have hruns : ∀ n plan b, t.Runs n plan b →
      plan = i.plan ∧ b = false ∧ t.executed ≠ s.executed := by
    rintro n plan b ⟨run, hr, rfl, hf⟩
    rcases ho.executed with ⟨-, hseats⟩ | ⟨hx, hseats, -⟩
    · rw [hseats] at hr
      exact absurd ⟨run, hr, rfl, hf⟩ (hidle n run.plan b)
    · rw [hseats] at hr
      simp only [setSeat] at hr
      split_ifs at hr with hn
      · cases hr
        cases hf
        exact ⟨rfl, rfl, by rw [hx]; simp⟩
      · exact absurd ⟨run, hr, rfl, hf⟩ (hidle n run.plan b)
  refine ⟨?_, ?_, ?_, ?_, ?_⟩
  · intro id hb
    rw [hev] at hb
    obtain ⟨a, ha, hid⟩ := h.starts id (begun_append_quiet hstart hb)
    refine ⟨a, ?_, hid⟩
    rcases ho.attempts with hsame | ⟨_, -, -, -, hgrown⟩
    · rwa [hsame]
    · rw [hgrown]
      exact List.mem_append_left _ ha
  · intro n plan hrun
    cases (hruns n plan true hrun).2.1
  · intro latest hl
    rw [hev, reported_before_quiet _ _ hquiet]
    rcases ho.attempts with hsame | ⟨id, -, hfind, -, hgrown⟩
    · refine h.before latest ?_
      unfold RunFiles.latest at hl ⊢
      rwa [hsame] at hl
    · unfold RunFiles.latest at hl
      rw [hgrown, List.getLast?_concat] at hl
      cases hl
      show Left root.limits i.plan.limits
        (reported (eventsBefore i.plan.attemptId s.files.events))
      rw [(events_not_begun (hfresh hfind)).1]
      exact hleft
  · intro n plan b hrun _
    obtain ⟨rfl, -, hne⟩ := hruns n plan b hrun
    rw [hev, reported_since_quiet _ _ hquiet]
    exact hunreported hne
  · intro n plan hrun
    cases (hruns n plan true hrun).2.1

/-- **Every step that meets the condition keeps the totals.** -/
theorem totaled_step (hD : D.round = Double.rounded) (h : Totaled root s) (hlined : Lined root s) {a : RunAct}
    (hok : chargesOnce D s a = true) (ht : s.step D a = some t) : Totaled root t := by
  by_cases ha : a.isStart = true
  · obtain ⟨call, cut, undo, hact⟩ := RunAct.isStart_cases ha
    rw [hact] at hok ht
    exact totaled_start hd hline hD h hlined hok ht
  · rw [Bool.not_eq_true] at ha
    by_cases hbegin : ∃ seat, a = .begin seat
    · obtain ⟨seat, rfl⟩ := hbegin
      exact totaled_begin hd hline h hok ht
    · by_cases hfinish : ∃ seat execution cut, a = .finish seat execution cut
      · obtain ⟨seat, execution, cut, rfl⟩ := hfinish
        exact totaled_finish hd hline h ht
      · have hnb : ∀ seat, a ≠ .begin seat := fun seat hs => hbegin ⟨seat, hs⟩
        obtain ⟨new, hev, happ⟩ := events_grow ht
        refine totaled_quiet h hev (fun e he => appends_start (happ e he) hnb) ?_
          (step_frame ha ht).attempts (fun n plan b hr => runs_step ha hnb ht hr)
        intro e he
        exact appends_quiet (happ e he) fun n x c hs => hfinish ⟨n, x, c, hs⟩

end Steps

/-- What every state of a run has whose steps meet the condition. -/
structure Counted (root : Plan) (s : RunState) : Prop where
  disciplined : s.Disciplined
  lineage : Lineage s
  lined : Lined root s
  totaled : Totaled root s

/-- A launch that meets the condition finds at most the initial attempt, or comes to none. -/
theorem lineage_counted (h : Counted root s) {a : RunAct} (hok : chargesOnce D s a = true)
    (ht : s.step D a = some t) : Lineage t := by
  by_cases hlaunch : a.launches = true
  · obtain ⟨undo, cut, seat, rfl⟩ : ∃ undo cut seat, a = StartCall.launch.act seat cut undo := by
      cases a with
      | launch seat cut => exact ⟨false, cut, seat, rfl⟩
      | launchUndone seat cut => exact ⟨true, cut, seat, rfl⟩
      | _ => cases hlaunch
    by_cases hany :
        (s.writes D (StartCall.launch.act seat cut undo) cut).any Effect.isAttempt = true
    · refine lineage_step h.lineage h.disciplined (fun _ => ?_) ht
      have hcond : (!(s.writes D (StartCall.launch.act seat cut undo) cut).any Effect.isAttempt ||
          s.files.attempts.all (fun a => decide (a.kind = .initial)) &&
            (priorResults s.files.events).all (fun r => decide (reportedSpent r = 0))) = true := by
        cases undo <;> exact hok
      rw [hany] at hcond
      simp only [Bool.not_true, Bool.false_or, Bool.and_eq_true, List.all_eq_true,
        decide_eq_true_eq] at hcond
      exact hcond.1
    · obtain ⟨hatt, hseats⟩ := start_neither ht hany
      refine ⟨by rw [hatt]; exact h.lineage.ordinals, by rw [hatt]; exact h.lineage.initial, ?_⟩
      intro n run hr hf
      rw [hseats] at hr
      unfold RunFiles.latest
      rw [hatt]
      exact h.lineage.inFlight n run hr hf
  · exact lineage_step h.lineage h.disciplined (fun hl => absurd hl hlaunch) ht

theorem counted_step (hD : D.round = Double.rounded) {a : RunAct} (h : Counted root s) (hok : chargesOnce D s a = true)
    (ht : s.step D a = some t) : Counted root t :=
  ⟨disciplined_step h.disciplined ht, lineage_counted h hok ht, lined_step h.lined ht,
    totaled_step h.disciplined h.lineage hD h.totaled h.lined hok ht⟩

/-- The plan of the attempt that reads the journal. -/
def RunState.reader (s : RunState) (seat : ℕ) : Option Plan :=
  (s.seats seat).bind fun run =>
    match run.flight with
    | .running true => if hasEnded s.files.events then none else some run.plan
    | _ => none

/-- What a plan has been charged with. -/
def charged (root left : Limits) : Spent where
  runtimeMs := root.cumulativeRuntimeMs - left.cumulativeRuntimeMs
  totalTokens := root.totalTokens.getD 0 - left.totalTokens.getD 0
  cost := root.cost - left.cost

theorem Counted.perform_left {seat : ℕ} {e : Effect} (h : Counted root s) (he : e.isLeft = true) :
    Counted root (s.perform seat e) := by
  have hlineage := h.lineage
  have hquiet : ∀ note : RunEvent, note.isNote = true →
      (∀ e ∈ [note], e.start? = none) ∧ ∀ e ∈ [note], e.terminal? = none := by
    intro note hn
    cases note with
    | resumeAtHandoff => exact ⟨by simp [RunEvent.start?], by simp [RunEvent.terminal?]⟩
    | _ => cases hn
  cases e with
  | append note =>
    obtain ⟨hstart, hterminal⟩ := hquiet note he
    exact ⟨Disciplined.onFiles h.disciplined rfl,
      ⟨hlineage.ordinals, hlineage.initial, hlineage.inFlight⟩, h.lined.perform_left he,
      totaled_quiet h.totaled rfl hstart hterminal rfl fun _ _ _ hr => hr⟩
  | reserveWorktree _ | reserveSnapshot _ | removeSnapshot _ =>
    exact ⟨Disciplined.onFiles h.disciplined rfl,
      ⟨hlineage.ordinals, hlineage.initial, hlineage.inFlight⟩, h.lined.perform_left he,
      totaled_quiet h.totaled (show _ = _ ++ [] from (List.append_nil _).symm) (by simp) (by simp) rfl
        fun _ _ _ hr => hr⟩
  | _ => cases he

/-- A limit of one, after uses of a hundredth and of six, is rebuilt too small. -/
example : Double.rounded (Double.rounded (Double.rounded (1 - Double.rounded (1 / 100)) -
    Double.rounded (6 / 100)) + Double.rounded (Double.rounded (1 / 100) +
      Double.rounded (6 / 100))) < 1 := by
  decide +kernel

end RunLife

end PiSubagent
