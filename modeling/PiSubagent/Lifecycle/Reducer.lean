import PiSubagent.Contracts

/-!
# Run status transitions

* `RunTransitionEvent`, `transitionRunStatus`: what moves a run from one status to another; `none`
  is an invalid transition.
* **`transitionRunStatus_proved`**: a run is called completed or abandoned only by an event that
  proves the cleanup of its sandbox and workspace.
-/

namespace PiSubagent

/-- `RunTransitionEventSchema`. -/
inductive RunTransitionEvent where
  | activate
  | beginStop
  | complete (sandboxCleanup workspaceCleanup : CleanupOutcome)
  | fail
  | cancel
  | interrupt
  | cleanupBlocked
  | retry
  | resume
  | resumeAtHandoff
  | abandon (sandboxCleanup workspaceCleanup : CleanupOutcome)
  | cleanupProved (terminalStatus : RunStatus) (sandboxCleanup workspaceCleanup : CleanupOutcome)
deriving DecidableEq, Repr

/-- `cleanupProved` of the reducer. -/
def cleanupProved (sandbox workspace : CleanupOutcome) : Bool := sandbox.done && workspace.done

/-- The status after an event; `none` is an `InvalidRunTransitionError`. -/
def transitionRunStatus : RunStatus → RunTransitionEvent → Option RunStatus
  | .queued, .activate => some .active
  | .queued, _ => none
  | .active, .beginStop => some .stopping
  | .active, .complete s w => some (if cleanupProved s w then .completed else .cleanupBlocked)
  | .active, .fail => some .failed
  | .active, .interrupt => some .interrupted
  | .active, .cleanupBlocked => some .cleanupBlocked
  | .active, _ => none
  | .stopping, .cancel => some .cancelled
  | .stopping, .cleanupBlocked => some .cleanupBlocked
  | .stopping, _ => none
  | .failed, .retry => some .queued
  | .failed, .resumeAtHandoff => some .queued
  | .failed, _ => none
  | .interrupted, .resume => some .queued
  | .interrupted, .abandon s w => if cleanupProved s w then some .abandoned else none
  | .interrupted, _ => none
  | .cleanupBlocked, .cleanupProved terminal s w =>
    some (if cleanupProved s w then terminal else .cleanupBlocked)
  | .cleanupBlocked, _ => none
  | .completed, .resumeAtHandoff => some .queued
  | .completed, _ => none
  | .cancelled, .resumeAtHandoff => some .queued
  | .cancelled, _ => none
  | .abandoned, _ => none

/-- **Completed and abandoned mean that the cleanup is proved.** -/
theorem transitionRunStatus_proved {current target : RunStatus} {e : RunTransitionEvent}
    (ht : target = .completed ∨ target = .abandoned)
    (h : transitionRunStatus current e = some target) :
    ∃ s w, cleanupProved s w = true ∧
      (e = .complete s w ∨ e = .abandon s w ∨ e = .cleanupProved target s w) := by
  unfold transitionRunStatus at h
  split at h
  case h_4 s w =>
    refine ⟨s, w, ?_, Or.inl rfl⟩
    by_contra hp
    rw [if_neg hp] at h
    rcases ht with rfl | rfl <;> cases h
  case h_16 s w =>
    refine ⟨s, w, ?_, Or.inr (Or.inl rfl)⟩
    by_contra hp
    rw [if_neg hp] at h
    cases h
  case h_18 terminal s w =>
    have hp : cleanupProved s w = true := by
      by_contra hp
      rw [if_neg hp] at h
      rcases ht with rfl | rfl <;> cases h
    rw [if_pos hp] at h
    exact ⟨s, w, hp, Or.inr (Or.inr (by rw [Option.some.inj h]))⟩
  all_goals rcases ht with rfl | rfl <;> cases h

end PiSubagent
