import PiSubagent.Lib.Turns

/-!
# The chains of promises

The service, the stores and the journal of a run each have operations that wait for one another on a
chain of promises.

* `Chain`: the chains of the source; one of them forgets its tail.
* **`chain_takes_turns`**: whatever the operations do between two of their steps, however they end
  and whatever happens beside them, they run one at a time, in the order of their calls.
-/

namespace PiSubagent

namespace Exclusive

open Runs Turns

/-- The variables that hold the tail of a chain. -/
inductive Chain where
  /-- `runExclusive`: `launch`, `retry`, `resume`, `abandon`, `release`, `exportHandoff`,
  `prune`. -/
  | launchTail
  /-- `deliverControl` of a run. -/
  | controlTail
  /-- `AttemptRecordStore.create` of a run, in one process. -/
  | attemptTails
  /-- `append` of a `RunJournal`; `readEvents` and `writeSnapshot` only await the tail. -/
  | appendTail
  /-- `put` of an `ArtifactStore`. -/
  | mutationTail
deriving DecidableEq, Repr

/-- Whether an operation that ends takes its promise out of the tail, when it is still there. -/
def Chain.forgets : Chain → Bool
  | .attemptTails => true
  | _ => false

variable {σ ι ε : Type}

/-- A chain, over what a step of an operation does and what happens beside the operations. -/
def Chain.program (chain : Chain) (work : ℕ → ι → σ → σ) (outside : ε → σ → σ) : Program σ ι ε where
  forgets := chain.forgets
  work := work
  outside := outside

/-- The operations of a run run one at a time, in the order of their calls. -/
structure TakesTurns (work : ℕ → ι → σ → σ) (x : σ) (as : List (Act ι ε)) (s : State σ) : Prop where
  /-- The steps come one operation after the other. -/
  serial : ((works as).map Prod.fst).Pairwise (· ≤ ·)
  /-- One operation runs. -/
  alone : ∀ c < s.made, ∀ d < s.made, s.stage c = .running → s.stage d = .running → c = d
  /-- An operation that has begun comes after operations that have ended. -/
  inOrder : ∀ c < s.made, s.stage c ≠ .waiting → ∀ d < c, s.stage d = .ended
  /-- Without anything beside them, the operations make the state one after the other. -/
  sequential : (∀ a ∈ as, a.isOutside = false) →
    s.shared = (works as).foldl (fun x w => work w.1 w.2 x) x

/-- **Operations on a chain take turns**: in every run they run one at a time and in the order of
their calls, and while one has not ended, the first of these runs or may begin. -/
theorem chain_takes_turns (chain : Chain) (work : ℕ → ι → σ → σ) (outside : ε → σ → σ) (x : σ)
    (as : List (Act ι ε)) (s : State σ)
    (h : exec (step (chain.program work outside)) (State.start x) as = some s) :
    TakesTurns work x as s ∧ ((∃ c < s.made, s.stage c ≠ .ended) →
      ∃ c < s.made, (∀ d < c, s.stage d = .ended) ∧
        (s.stage c = .running ∨ (step (chain.program work outside) s (.enter c)).isSome)) := by
  obtain ⟨hordered, hserial, -⟩ := exec_serial h
  refine ⟨⟨hserial, ?_, hordered.begun, ?_⟩, hordered.next⟩
  · intro c hc d hd hrc hrd
    exact hordered.running_unique hc hd hrc hrd
  · intro hown
    exact exec_shared h hown

/-- Two creations of an attempt record; the second one is called while the first one runs. -/
def twoCreations : List (Act Bool Unit) :=
  [.call, .enter 0, .work 0 true, .call, .work 0 false, .leave 0, .enter 1, .work 1 true]

/-- The second creation begins when the first one has ended. -/
theorem chain_takes_turns_two : ∃ s : State (List (ℕ × Bool)),
    TakesTurns (fun c i l => l ++ [(c, i)]) [] twoCreations s ∧
      s.shared = [(0, true), (0, false), (1, true)] :=
  ⟨_, (chain_takes_turns .attemptTails (fun c i l => l ++ [(c, i)]) (fun _ l => l) [] twoCreations _
    rfl).1, rfl⟩

end Exclusive

end PiSubagent
