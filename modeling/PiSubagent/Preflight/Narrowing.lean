import PiSubagent.Preflight.Compile
import PiSubagent.Service.RunBudget

/-!
# A compiled plan narrows authority

* `AgentLaunchPlan.toPlan`, `retryPlan`, `resumePlan`: the derived plans in full, over what the
  operations on a run make of the limits.
* `Derived`: the plans that any number of retries and resumes derive.
* `DiffersOnly`: the attempt, the identity and limits that are no larger (`Derived.differsOnly`).
* `Narrowed`: a plan bounded by the definition, the host and the fence on every axis.
* **`compileLaunchPlan_narrowed`**: a compiled plan is narrowed exactly when the request states the
  token limit its definition declares.
-/

namespace PiSubagent

open JsonText

namespace Preflight

/-! ## Derived plans -/

/-- What the operations on a run use of a plan. -/
def AgentLaunchPlan.toPlan (plan : AgentLaunchPlan) : RunLife.Plan where
  runId := plan.runId
  attemptId := plan.attemptId
  mode := plan.workspace.mode
  startAt := plan.workspace.startAt
  limits := plan.limits.toLimits

/-- A plan for another attempt under other limits, with an identity of its own. -/
def AgentLaunchPlan.forAttempt (S : Platform) (plan : AgentLaunchPlan) (next : RunLife.Plan) :
    AgentLaunchPlan :=
  S.identified { plan.toLaunchDraft with
    attemptId := next.attemptId
    limits := { plan.limits with toLimits := next.limits } }

/-- `retryPlan`. -/
def retryPlan (S : Platform) (D : RunLife.Planner) (current : AgentLaunchPlan)
    (r : RunResult) (ordinal : ℕ) : Option AgentLaunchPlan :=
  (RunLife.retryPlan D current.toPlan r ordinal).map (current.forAttempt S)

/-- `resumePlan`. -/
def resumePlan (S : Platform) (D : RunLife.Planner) (current : AgentLaunchPlan)
    (r : RunResult) (ordinal : ℕ) (continueFromHandoff : Bool) : Option AgentLaunchPlan :=
  (RunLife.resumePlan D current.toPlan r ordinal continueFromHandoff).map (current.forAttempt S)

/-- The plans derived from a plan, each from the one before it and a valid result. -/
inductive Derived (S : Platform) (D : RunLife.Planner) (root : AgentLaunchPlan) :
    AgentLaunchPlan → Prop
  | root : Derived S D root root
  | retry {current plan : AgentLaunchPlan} {r : RunResult} {ordinal : ℕ} :
    Derived S D root current → r.check = true → retryPlan S D current r ordinal = some plan →
      Derived S D root plan
  | resume {current plan : AgentLaunchPlan} {r : RunResult} {ordinal : ℕ} {continuing : Bool} :
    Derived S D root current → r.check = true →
      resumePlan S D current r ordinal continuing = some plan → Derived S D root plan

/-! ## Limits -/

/-- The same limits are there and none is larger. -/
def NoLarger (later now : RunLimits) : Prop :=
  ∀ key, Option.Rel (· ≤ ·) (later.get key) (now.get key)

theorem NoLarger.refl (l : RunLimits) : NoLarger l l := by
  intro key
  cases l.get key with
  | none => exact .none
  | some v => exact .some le_rfl

theorem NoLarger.trans {a b c : RunLimits} (hab : NoLarger a b) (hbc : NoLarger b c) :
    NoLarger a c := by
  intro key
  have h1 := hab key
  have h2 := hbc key
  generalize a.get key = x at h1 ⊢
  generalize b.get key = y at h1 h2
  generalize c.get key = z at h2 ⊢
  cases h1 with
  | none =>
    cases h2
    exact .none
  | some hle =>
    cases h2 with
    | some hle' => exact .some (hle.trans hle')

/-- Using limits up and lowering the number of attempts makes none larger. -/
theorem noLarger_after {l : RunLimits} {next : RunLife.Limits} {r : RunResult}
    (hr : r.check = true) (h : l.toLimits.after id r = some next) {retries resumes : ℕ}
    (hretries : retries ≤ l.retries) (hresumes : resumes ≤ l.resumes) :
    NoLarger { l with toLimits := { next with retries := retries, resumes := resumes } } l := by
  obtain ⟨-, hms, -, htimeout, htokens, -, hcost, -, -, -⟩ := RunLife.Limits.after_cases h
  have hspent := RunLife.decimalValue_nonneg ((RunLife.RunResult.check_iff r).mp hr).2.2.2.1
  simp only [id_eq] at hcost
  intro key
  cases key with
  | cumulativeRuntimeMs =>
    refine .some (Nat.cast_le.mpr ?_)
    show next.cumulativeRuntimeMs ≤ l.cumulativeRuntimeMs
    omega
  | attemptTimeoutMs =>
    refine .some (Nat.cast_le.mpr ?_)
    show next.attemptTimeoutMs ≤ l.attemptTimeoutMs
    omega
  | totalTokens =>
    show Option.Rel (· ≤ ·) (next.totalTokens.map (Nat.cast : ℕ → ℚ))
      (l.totalTokens.map (Nat.cast : ℕ → ℚ))
    rw [← htokens]
    cases next.totalTokens with
    | none => exact .none
    | some n => exact .some (Nat.cast_le.mpr (Nat.le_add_right n _))
  | cost =>
    refine .some ?_
    show next.cost ≤ l.cost
    linarith
  | outputBytes => exact .some le_rfl
  | workspaceWriteBytes => exact .some le_rfl
  | retries => exact .some (Nat.cast_le.mpr hretries)
  | resumes => exact .some (Nat.cast_le.mpr hresumes)

/-- A plan is another one but for the attempt, the identity and limits that are no larger. -/
structure DiffersOnly (root plan : AgentLaunchPlan) : Prop where
  same : { plan.toLaunchDraft with attemptId := root.attemptId, limits := root.limits } =
    root.toLaunchDraft
  limits : NoLarger plan.limits root.limits

theorem DiffersOnly.refl (plan : AgentLaunchPlan) : DiffersOnly plan plan := ⟨rfl, .refl _⟩

theorem DiffersOnly.trans {a b c : AgentLaunchPlan} (hab : DiffersOnly a b)
    (hbc : DiffersOnly b c) : DiffersOnly a c := by
  refine ⟨?_, hbc.limits.trans hab.limits⟩
  rw [← hab.same, ← hbc.same]

theorem forAttempt_differsOnly {S : Platform} {current : AgentLaunchPlan} {next : RunLife.Plan}
    (h : NoLarger { current.limits with toLimits := next.limits } current.limits) :
    DiffersOnly current (current.forAttempt S next) := ⟨rfl, h⟩

theorem retryPlan_differsOnly {S : Platform} {D : RunLife.AttemptDigest}
    {current plan : AgentLaunchPlan} {r : RunResult} {ordinal : ℕ} (hr : r.check = true)
    (h : retryPlan S (.exact D) current r ordinal = some plan) : DiffersOnly current plan := by
  obtain ⟨next, hnext, rfl⟩ := Option.map_eq_some_iff.mp h
  unfold RunLife.retryPlan at hnext
  split_ifs at hnext
  obtain ⟨after, hafter, rfl⟩ := Option.map_eq_some_iff.mp hnext
  obtain ⟨-, -, -, -, -, -, -, -, -, hresumes⟩ := RunLife.Limits.after_cases hafter
  exact forAttempt_differsOnly
    (noLarger_after hr hafter (Nat.sub_le _ 1) (le_of_eq hresumes))

theorem resumePlan_differsOnly {S : Platform} {D : RunLife.AttemptDigest}
    {current plan : AgentLaunchPlan} {r : RunResult} {ordinal : ℕ} {continuing : Bool}
    (hr : r.check = true) (h : resumePlan S (.exact D) current r ordinal continuing = some plan) :
    DiffersOnly current plan := by
  obtain ⟨next, hnext, rfl⟩ := Option.map_eq_some_iff.mp h
  unfold RunLife.resumePlan at hnext
  split_ifs at hnext
  obtain ⟨after, hafter, rfl⟩ := Option.map_eq_some_iff.mp hnext
  obtain ⟨-, -, -, -, -, -, -, -, hretries, -⟩ := RunLife.Limits.after_cases hafter
  exact forAttempt_differsOnly
    (noLarger_after hr hafter (le_of_eq hretries) (Nat.sub_le _ 1))

/-- **Retries and resumes change the attempt, the identity and limits only, and never widen.** -/
theorem Derived.differsOnly {S : Platform} {D : RunLife.AttemptDigest}
    {root plan : AgentLaunchPlan} (h : Derived S (.exact D) root plan) : DiffersOnly root plan := by
  induction h with
  | root => exact .refl _
  | retry _ hr hplan ih => exact ih.trans (retryPlan_differsOnly hr hplan)
  | resume _ hr hplan ih => exact ih.trans (resumePlan_differsOnly hr hplan)

/-! ## Narrowing -/

/-- A plan bounded by the definition, the host and the fence on every axis, and so for the plans
derived from it. -/
structure Narrowed (S : Platform) (D : RunLife.AttemptDigest) (input : LaunchInput)
    (plan : AgentLaunchPlan) : Prop where
  tools : ∀ name ∈ plan.tools, name ∈ input.agent.tools
  hostTools : ∀ ceiling ∈ input.request.ceiling, ∀ tools ∈ ceiling.tools, ∀ name ∈ plan.tools,
    name ∈ tools
  mode : plan.workspace.mode ∈ input.agent.workspaceModes
  hostMode : ∀ ceiling ∈ input.request.ceiling, ∀ modes ∈ ceiling.workspaceModes,
    plan.workspace.mode ∈ modes
  memory : plan.sandbox.memoryBytes ≤ input.agent.memoryCeilingBytes
  limits : ∀ key, ∀ maximum ∈ input.agent.limitCeiling.get key,
    ∃ value ∈ plan.limits.get key, value ≤ maximum
  model : resolveRequestedModel input.request input.agent input.inheritSessionModel =
    .ok (plan.model, plan.modelSource)
  admitted : AdmittedBy input.agent input.admitHostModel plan.model plan.modelSource
    plan.modelAdmission
  derived : ∀ later, Derived S (.exact D) plan later → DiffersOnly plan later

/-- The declared limits a request has to state: the token limit is the only optional one. -/
def StatesDeclared (input : LaunchInput) : Prop :=
  input.agent.limitCeiling.totalTokens.isSome → input.request.limits.totalTokens.isSome

instance (input : LaunchInput) : Decidable (StatesDeclared input) := by
  unfold StatesDeclared
  infer_instance

/-- A request that states what its definition declares has every limit of it. -/
theorem StatesDeclared.get {input : LaunchInput} (h : StatesDeclared input) {key : LimitKey}
    {maximum : ℚ} (hmax : maximum ∈ input.agent.limitCeiling.get key) :
    ∃ value, value ∈ input.request.limits.get key := by
  cases key with
  | totalTokens =>
    obtain ⟨n, hn, -⟩ := Option.map_eq_some_iff.mp hmax
    obtain ⟨m, hm⟩ := Option.isSome_iff_exists.mp (h (Option.isSome_iff_exists.mpr ⟨n, hn⟩))
    exact ⟨m, Option.map_eq_some_iff.mpr ⟨m, hm, rfl⟩⟩
  | _ => exact ⟨_, rfl⟩

theorem Accepted.limits_eq {S : Platform} {input : LaunchInput} {plan : AgentLaunchPlan}
    (h : Accepted S input plan) : plan.limits = input.request.limits := by
  rw [h.compiled]
  rfl

/-- An accepted plan is narrowed when the request states what the definition declares. -/
theorem Accepted.narrowed {S : Platform} {input : LaunchInput} {plan : AgentLaunchPlan}
    (h : Accepted S input plan) (hstates : StatesDeclared input) (D : RunLife.AttemptDigest) :
    Narrowed S D input plan := by
  have htools : ∀ name ∈ plan.tools, name ∈ input.request.tools := by
    rw [h.compiled]
    exact fun name hname => (mem_sortBy id _ name).mp hname
  have hmode : plan.workspace.mode = input.request.workspace.mode := by
    rw [h.compiled]
    exact h.workspace
  obtain ⟨hmodel, hadmitted⟩ := LaunchInput.chooseModel_spec h.chosen
  exact {
    tools := fun name hname => h.tools name (htools name hname)
    hostTools := fun ceiling hceiling tools hbound name hname =>
      (h.ceiling ceiling hceiling).2 tools hbound name (htools name hname)
    mode := hmode ▸ h.mode
    hostMode := fun ceiling hceiling modes hbound =>
      hmode ▸ (h.ceiling ceiling hceiling).1 modes hbound
    memory := by
      rw [h.compiled]
      exact h.memory
    limits := by
      intro key maximum hmax
      obtain ⟨value, hvalue⟩ := hstates.get hmax
      exact ⟨value, h.limits_eq ▸ hvalue, h.limits key value hvalue maximum hmax⟩
    model := hmodel
    admitted := hadmitted
    derived := fun later hlater => hlater.differsOnly }

/-- A plan that carries every declared limit comes from a request that states it. -/
theorem Accepted.statesDeclared {S : Platform} {D : RunLife.AttemptDigest} {input : LaunchInput}
    {plan : AgentLaunchPlan} (h : Accepted S input plan) (hn : Narrowed S D input plan) :
    StatesDeclared input := by
  intro hdeclared
  obtain ⟨maximum, hmax⟩ := Option.isSome_iff_exists.mp hdeclared
  obtain ⟨value, hvalue, -⟩ :=
    hn.limits .totalTokens maximum (Option.map_eq_some_iff.mpr ⟨maximum, hmax, rfl⟩)
  rw [h.limits_eq] at hvalue
  obtain ⟨n, hstated, -⟩ := Option.map_eq_some_iff.mp hvalue
  exact Option.isSome_iff_exists.mpr ⟨n, hstated⟩

/-- **A compiled plan is narrowed exactly when its request states the token limit that the
definition declares.** -/
theorem compileLaunchPlan_narrowed (S : Platform) (D : RunLife.AttemptDigest) (input : LaunchInput)
    (plan : AgentLaunchPlan) (h : S.compileLaunchPlan input = .ok plan) :
    Narrowed S D input plan ↔ StatesDeclared input :=
  ⟨(compileLaunchPlan_accepted h).statesDeclared,
    fun hstates => (compileLaunchPlan_accepted h).narrowed hstates D⟩

/-! ## A definition with a token limit -/

/-- A host on which nothing breaks a schema and every digest is the same. -/
def plainPlatform : Platform where
  requestErrors := fun _ => []
  planErrors := fun _ => []
  planBytes := fun _ => 2048
  grantsSha256 := fun _ => List.replicate 64 97
  draftSha256 := fun _ => List.replicate 64 98
  localeCompare := fun left right => if left = right then 0 else if left < right then -1 else 1

/-- The limits of the worker. -/
def workerLimits : RunLimits where
  cumulativeRuntimeMs := 60000
  attemptTimeoutMs := 30000
  totalTokens := some 100000
  cost := 10
  retries := 1
  resumes := 1
  outputBytes := 1024 * 1024
  workspaceWriteBytes := 128 * 1024 * 1024

/-- The model of the worker. -/
def workerModel : ExactModelRequest where
  provider := ofString "github-copilot"
  id := ofString "gpt-5.6-luna"
  thinking := .low

/-- A definition that declares a token limit. -/
def workerAgent : AgentDefinition where
  name := ofString "worker"
  displayName := ofString "Worker"
  prompt := ofString "Worker prompt"
  scope := .global
  source := ofString "/agents/worker.md"
  sha256 := List.replicate 64 97
  defaultModel := some workerModel
  allowedModels := [ofString "github-copilot/gpt-5.6-luna:low"]
  tools := [ofString "read", ofString "write", ofString "bash"]
  preloadSkills := []
  contextScopes := []
  workspaceModes := [.worktree]
  limitCeiling := workerLimits
  memoryCeilingBytes := 1024 * 1024 * 1024

/-- A launch of the worker under a token limit, or under none. -/
def workerLaunch (totalTokens : Option ℕ) : LaunchInput where
  ownerId := ofString "owner-1"
  runId := ⟨ofString "run_preflight", by decide +kernel⟩
  attemptId := ofString "attempt_preflight"
  request := {
    operationId := ofString "operation-1"
    agent := ofString "worker"
    agentRoots := none
    task := {
      goal := ofString "Implement it"
      context := []
      instructions := [ofString "Run tests"] }
    contextMode := .fresh
    model := none
    tools := [ofString "write", ofString "read"]
    preloadSkills := []
    contextScopes := []
    workspace := { mode := .worktree, cwd := ofString "/repo", startAt := none }
    ceiling := some { workspaceModes := some [.worktree], tools := none }
    memoryBytes := none
    outputSchema := none
    limits := { workerLimits with totalTokens := totalTokens } }
  agent := workerAgent
  resources := [
    { kind := .tool, name := ofString "write", source := ofString "builtin:write",
      sha256 := List.replicate 64 98 },
    { kind := .agent, name := ofString "worker", source := ofString "/agents/worker.md",
      sha256 := List.replicate 64 97 },
    { kind := .tool, name := ofString "read", source := ofString "builtin:read",
      sha256 := List.replicate 64 98 }]
  contextResources := []
  workspace := {
    mode := .worktree
    hostPathSha256 := List.replicate 64 97
    baselineSha256 := List.replicate 64 98
    startAt := none }
  sandbox := {
    packageVersion := ofString "0.14.0"
    imageSha256 := List.replicate 64 97
    mountPolicySha256 := List.replicate 64 98
    networkPolicySha256 := List.replicate 64 97
    capacityPolicySha256 := List.replicate 64 98
    rootfsPolicySha256 := List.replicate 64 98
    guestDiskBytes := 2 * 1024 * 1024 * 1024 }
  forkContext := none
  resolveModel := .ok
  inheritSessionModel := none
  admitHostModel := none

/-- The plan of the worker. -/
def workerPlan (totalTokens : Option ℕ) : AgentLaunchPlan :=
  plainPlatform.identified ((workerLaunch totalTokens).draft workerModel .template .exact)

/-- The worker's request states its token limit, and its plan is narrowed. -/
theorem compileLaunchPlan_narrowed_worker :
    plainPlatform.compileLaunchPlan (workerLaunch (some 50000)) = .ok (workerPlan (some 50000)) ∧
      ∀ D, Narrowed plainPlatform D (workerLaunch (some 50000)) (workerPlan (some 50000)) := by
  have h : plainPlatform.compileLaunchPlan (workerLaunch (some 50000)) =
      .ok (workerPlan (some 50000)) := by
    rfl
  exact ⟨h, fun D =>
    (compileLaunchPlan_narrowed plainPlatform D _ _ h).mpr (by decide)⟩

/-- **A request that leaves the token limit out is compiled into a plan without one.** -/
theorem compileLaunchPlan_tokensUnbounded :
    ¬ ∀ (S : Platform) (D : RunLife.AttemptDigest) (input : LaunchInput) (plan : AgentLaunchPlan),
      S.compileLaunchPlan input = .ok plan → Narrowed S D input plan := by
  intro hall
  have h : plainPlatform.compileLaunchPlan (workerLaunch none) = .ok (workerPlan none) := by
    rfl
  have hn := hall plainPlatform (fun _ _ _ _ => []) _ _ h
  exact absurd ((compileLaunchPlan_accepted h).statesDeclared hn) (by decide)

end Preflight

end PiSubagent
