import PiSubagent.Lib.Flights

/-!
# The promises that calls share

The service loads what it executes attempts with once; the close of a sandbox and the releases of a
slot and of a lease may be asked for by several parties.

* `Memo`, `Memo.policy`: the variables, and what their handlers do.
* **`memo_shared`**: at most one operation of each runs, none begins before those before it have
  failed, and one that succeeded is the one of every later call. A release is begun once.
-/

namespace PiSubagent

namespace Memos

open Runs Flights

/-- The variables that hold a promise. -/
inductive Memo where
  /-- `executionPromise` of the service. -/
  | execution
  /-- `closePromise` of a sandbox, with `closed`. -/
  | close
  /-- `releasePromise` of a slot. -/
  | releaseSlot
  /-- `releasePromise` of the lease of a run. -/
  | releaseLease
deriving DecidableEq, Repr

/-- What the handler of an operation does. -/
def Memo.policy : Memo → Policy
  | .execution => ⟨true, false⟩
  | .close => ⟨true, true⟩
  | .releaseSlot => ⟨false, false⟩
  | .releaseLease => ⟨false, false⟩

/-- The operations that a variable has held. -/
structure Shared (memo : Memo) (s : State) : Prop where
  /-- An operation begins when those before it have failed and their handlers have run. -/
  failed : ∀ i, i + 1 < s.phases.length → s.phases[i]? = some (.handled false)
  /-- One operation runs. -/
  alone : ∀ i j : ℕ, s.phases[i]? = some .running → s.phases[j]? = some .running → i = j
  /-- What was loaded and what was closed is tried again after a failure. -/
  retried : memo = .execution ∨ memo = .close →
    ∃ i, s.call.answers = s.answers ++ [i] ∧ s.call.phases[i]? ≠ some (.handled false)
  /-- A release is begun once. -/
  released : memo = .releaseSlot ∨ memo = .releaseLease →
    s.phases.length ≤ 1 ∧ ∀ i ∈ s.answers, i = 0

theorem Memo.forgets_of {memo : Memo} (h : memo = .execution ∨ memo = .close) :
    memo.policy.forgets = true := by
  rcases h with rfl | rfl <;> rfl

theorem Memo.not_forgets_of {memo : Memo} (h : memo = .releaseSlot ∨ memo = .releaseLease) :
    memo.policy.forgets = false := by
  rcases h with rfl | rfl <;> rfl

theorem shared_of_single {memo : Memo} {s : State} (h : Single memo.policy s) : Shared memo s where
  failed := h.failed
  alone := fun i j hi hj => by
    have hilast := (h.last hi (fun hc => by cases hc)).1
    have hjlast := (h.last hj (fun hc => by cases hc)).1
    omega
  retried := fun hm => h.joins (Memo.forgets_of hm)
  released := fun hm => by
    have hlen := (h.once (Memo.not_forgets_of hm)).1
    refine ⟨hlen, fun i hi => ?_⟩
    have hlt := h.answers i hi
    omega

/-- **Calls share one operation**, in every run of calls, ends of operations and handlers; when it
has succeeded, no run from there begins another one, and all its calls get it. -/
theorem memo_shared (memo : Memo) (before after : List Act) (s t : State)
    (h : exec (step memo.policy) .start before = some s)
    (hafter : exec (step memo.policy) s after = some t) :
    Shared memo s ∧ ∀ i, Succeeded s i → t.phases.length = s.phases.length ∧
      ∃ n, t.answers = s.answers ++ List.replicate n i := by
  have hs := single_exec h
  refine ⟨shared_of_single hs, fun i hi => ?_⟩
  obtain ⟨-, hlen, hanswers⟩ := succeeded_exec hs hi hafter
  exact ⟨hlen, hanswers⟩

/-- A close fails for two callers, and is tried again. -/
def closedTwice : List Act :=
  [.call, .call, .settle 0 false, .handle 0 false, .call, .settle 1 true]

theorem memo_shared_closedTwice : ∃ s t,
    exec (step Memo.close.policy) .start closedTwice = some s ∧
    exec (step Memo.close.policy) s [.call, .handle 1 true, .call] = some t ∧
    Succeeded s 1 ∧ t.answers = [0, 0, 1, 1, 1] ∧ Shared .close s :=
  ⟨_, _, rfl, rfl, rfl, rfl,
    (memo_shared .close closedTwice [.call, .handle 1 true, .call] _ _ rfl rfl).1⟩

end Memos

end PiSubagent
