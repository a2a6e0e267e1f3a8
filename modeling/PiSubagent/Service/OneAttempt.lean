import PiSubagent.Service.Abandonment
import PiSubagent.Service.RunBudget

/-!
# One attempt at a time

* `firstLaunch`: a launch comes before anything else of the run.
* `RunState.InTurn`: the attempts handed to the executor are recorded ones, in the order of their
  records, and an attempt in flight is the last of them (`inTurn_step`).
* **`attempts_in_turn`**: in every run no attempt is executed twice, and never two at once.
-/

namespace PiSubagent

open JsonText

namespace RunLife

open Runs
open RunState (setSeat)

variable {D : Planner} {s t : RunState}

/-- A launch comes before any execution and any other attempt of the run. -/
def firstLaunch (s : RunState) (a : RunAct) : Bool :=
  !a.launches || (s.executed.isEmpty && s.files.attempts.all fun a => decide (a.kind = .initial))

theorem firstLaunch_iff {a : RunAct} : firstLaunch s a = true ↔
    (a.launches = true → s.executed = [] ∧ ∀ a ∈ s.files.attempts, a.kind = .initial) := by
  unfold firstLaunch
  cases a.launches <;> simp

/-- The attempts handed to the executor are recorded ones, in the order of their records, and the
one in flight is the last of them. -/
structure RunState.InTurn (s : RunState) : Prop where
  disciplined : s.Disciplined
  lineage : Lineage s
  ids : (s.files.attempts.map AttemptRecord.attemptId).Nodup
  executed : s.executed.Sublist (s.files.attempts.map AttemptRecord.attemptId)
  inFlight : ∀ n run, s.seats n = some run → run.flight.inFlight = true →
    s.executed.getLast? = some run.plan.attemptId

theorem inTurn_freshRun (plan : Plan) : (freshRun plan).InTurn where
  disciplined := disciplined_freshRun plan
  lineage := lineage_freshRun plan
  ids := List.nodup_nil
  executed := List.Sublist.refl _
  inFlight := by simp [freshRun]

/-- A recorded attempt that a start hands to the executor is one of a launch. -/
theorem Lineage.launched (h : Lineage s) {call : StartCall} {seat : ℕ} {i : StartInput}
    (hi : call.Input D s seat i) {a : AttemptRecord} (ha : a ∈ s.files.attempts)
    (hord : a.ordinal = i.ordinal) : call = .launch := by
  cases hi with
  | launch hseat hlease => rfl
  | retry run latest r plan hseat hlatest =>
    have hle := h.le_latest hlatest ha
    simp only at hord
    rcases hle with rfl | hlt <;> omega
  | resume continuing run latest r plan hseat hlatest =>
    have hle := h.le_latest hlatest ha
    simp only at hord
    rcases hle with rfl | hlt <;> omega

theorem RunState.InTurn.start_executed (h : s.InTurn) {call : StartCall} {seat : ℕ}
    {i : StartInput} (hi : call.Input D s seat i) (hfirst : call = .launch → s.executed = [])
    (ho : StartOutcome s t seat i) :
    t.executed.Sublist (t.files.attempts.map AttemptRecord.attemptId) := by
  have hgrows := (ho.ids h.ids).2
  rcases ho.executed with ⟨hsame, -⟩ | ⟨hx, -, a, ha, hid, hord, -⟩
  · rw [hsame]
    exact h.executed.trans hgrows
  · rw [hx]
    rcases ho.attempts with hsame | ⟨id, -, -, -, hgrown⟩
    · -- nothing was executed before a launch
      rw [hsame] at ha
      rw [hfirst (h.lineage.launched hi ha hord), List.nil_append, ← hid,
        List.singleton_sublist, hsame]
      exact List.mem_map_of_mem ha
    · rw [hgrown, List.map_append]
      exact h.executed.append (List.Sublist.refl _)

/-- **Every step leaves the attempts in turn.** -/
theorem inTurn_step {a : RunAct} (h : s.InTurn) (hfirst : firstLaunch s a = true)
    (ht : s.step D a = some t) : t.InTurn := by
  rw [firstLaunch_iff] at hfirst
  have hlineage := lineage_step h.lineage h.disciplined (fun ha => (hfirst ha).2) ht
  have hdisciplined := disciplined_step h.disciplined ht
  by_cases ha : a.isStart = true
  · obtain ⟨call, cut, undo, hact⟩ := RunAct.isStart_cases ha
    rw [hact] at ht hfirst
    obtain ⟨i, hi, ho, -⟩ := start_spec ht
    have hlaunch : call = .launch → s.executed = [] := by
      rintro rfl
      refine (hfirst ?_).1
      cases undo <;> rfl
    refine ⟨hdisciplined, hlineage, (ho.ids h.ids).1, h.start_executed hi hlaunch ho, ?_⟩
    intro n run hn hf
    rcases ho.executed with ⟨-, hseats⟩ | ⟨hx, hseats, -⟩
    · rw [hseats] at hn
      rw [h.disciplined.idle hi.lease hn] at hf
      cases hf
    · rw [hseats] at hn
      simp only [setSeat] at hn
      split_ifs at hn with hsame
      · cases hn
        rw [hx, List.getLast?_concat]
        rfl
      · rw [h.disciplined.idle hi.lease hn] at hf
        cases hf
  · have hframe := step_frame (Bool.eq_false_iff.mpr ha) ht
    refine ⟨hdisciplined, hlineage, ?_, ?_, ?_⟩
    · rw [hframe.attempts]
      exact h.ids
    · rw [hframe.attempts, hframe.executed]
      exact h.executed
    · intro n run' hn hf
      obtain ⟨run, hr, hfl, hp⟩ := hframe.flights n run' hn hf
      rw [hframe.executed, ← hp]
      exact h.inFlight n run hr hfl

theorem inTurn_left {seat : ℕ} {e : Effect} (h : s.InTurn) (he : e.isLeft = true) :
    (s.perform seat e).InTurn := by
  have hlineage := h.lineage
  cases e with
  | append _ | reserveWorktree _ | reserveSnapshot _ | removeSnapshot _ =>
    exact ⟨Disciplined.onFiles h.disciplined rfl,
      ⟨hlineage.ordinals, hlineage.initial, hlineage.inFlight⟩, h.ids, h.executed, h.inFlight⟩
  | _ => cases he

/-- **Attempts are executed one by one**: in every run whose launch comes first and whose retries and
resumes are timely, each attempt is executed at most once, in the order of the records, and an attempt
in flight is the last one that was recorded and executed, by the only seat that has one and holds the
lease. -/
theorem attempts_in_turn {plan : Plan} {as : List LateAct} {w : LateState}
    (hok : Meets (LateState.step D) (fun w act => w.meets firstLaunch act = true) (.fresh plan) as)
    (h : exec (LateState.step D) (.fresh plan) as = some w) :
    w.run.executed.Nodup ∧
      w.run.executed.Sublist (w.run.files.attempts.map AttemptRecord.attemptId) ∧
      ∀ n run, w.run.seats n = some run → run.flight.inFlight = true →
        w.run.lease = some n ∧ w.run.executed.getLast? = some run.plan.attemptId ∧
          (∃ latest, w.run.files.latest = some latest ∧ latest.attemptId = run.plan.attemptId) ∧
          ∀ m other, w.run.seats m = some other → other.flight.inFlight = true → m = n := by
  have hinv : w.run.InTurn :=
    late_invariant (inTurn_freshRun plan) (fun _ _ _ hs hok ht => inTurn_step hs hok ht)
      (fun _ _ _ hs _ he => inTurn_left hs he) hok h
  refine ⟨hinv.ids.sublist hinv.executed, hinv.executed, ?_⟩
  intro n run hn hf
  have hlease := hinv.disciplined.busy n run hn hf
  refine ⟨hlease, hinv.inFlight n run hn hf, hinv.lineage.inFlight n run hn hf, ?_⟩
  intro m other hm ho
  have hother := hinv.disciplined.busy m other hm ho
  exact Option.some.inj (hother.symm.trans hlease)

/-- Two seats read a failed attempt to retry it, and the one that has the lease first goes on. -/
theorem attempts_in_turn_retried : ∃ w,
    exec (LateState.step ordinalDigest) (.fresh retriedPlan)
      ((untilFailed .notNeeded).map .other ++ [.other (.open 1 none 5), .request 0 .retry,
        .request 1 .retry, .start 1 5 false, .refuse 0, .other (.begin 1)]) = some w ∧
      w.run.executed.length = 2 ∧ w.run.executed.Nodup ∧ w.run.lease = some 1 := by
  have hrun : (exec (LateState.step ordinalDigest) (.fresh retriedPlan)
      ((untilFailed .notNeeded).map .other ++ [.other (.open 1 none 5), .request 0 .retry,
        .request 1 .retry, .start 1 5 false, .refuse 0, .other (.begin 1)])).any
        (fun w => decide (w.run.executed.length = 2 ∧
          (w.run.seats 1).any (fun run => run.flight.inFlight) = true)) = true := by
    decide +kernel
  obtain ⟨w, hw, hchecks⟩ := (Option.any_eq_true _ _).mp hrun
  obtain ⟨hlen, hseat⟩ := of_decide_eq_true hchecks
  obtain ⟨run, hr, hf⟩ := (Option.any_eq_true _ _).mp hseat
  obtain ⟨hnodup, -, hflight⟩ := attempts_in_turn (by decide +kernel) hw
  exact ⟨w, hw, hlen, hnodup, (hflight 1 run hr hf).1⟩

end RunLife

end PiSubagent
