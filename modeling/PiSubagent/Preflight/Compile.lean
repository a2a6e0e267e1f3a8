import PiSubagent.Contracts
import PiSubagent.Service.RunFiles
import Mathlib.Data.List.Sort

/-!
# Compiling a launch plan

* `AgentDefinition`, `SubagentRequest`, `DelegationCeiling`: the three parties that bound a launch.
* `AgentLaunchPlan`: what is approved; a `LaunchDraft` with its identity digest.
* `Platform`: what the code takes from elsewhere, the schema errors, the digests and the collation.
* **`compileLaunchPlan`**: every check of the source in its order, with the text of its refusal.
* `Accepted`, `compileLaunchPlan_accepted`: what a plan that comes out has passed, and what it is.
-/

namespace PiSubagent

open JsonText

namespace Preflight

/-! ## Texts -/

/-- The default order of `Array.prototype.sort`, by the text of an element. -/
def sortBy {α : Type} (key : α → JsString) (l : List α) : List α :=
  l.insertionSort fun a b => ¬ key b < key a

@[simp] theorem mem_sortBy {α : Type} (key : α → JsString) (l : List α) (a : α) :
    a ∈ sortBy key l ↔ a ∈ l := List.mem_insertionSort _

theorem sortBy_pairwise {α : Type} (key : α → JsString) (l : List α) :
    (sortBy key l).Pairwise fun a b => key a ≤ key b := by
  have htotal : Std.Total fun a b : α => ¬ key b < key a := ⟨fun a b => List.le_total _ _⟩
  have htrans : IsTrans α fun a b => ¬ key b < key a := ⟨fun a b c => List.le_trans⟩
  exact List.pairwise_insertionSort _ l

/-- `Array.prototype.join`. -/
def join (separator : JsString) : List JsString → JsString
  | [] => []
  | [s] => s
  | s :: t :: rest => s ++ separator ++ join separator (t :: rest)

/-- The names of a ceiling in a refusal. -/
def listed (names : List JsString) : JsString := join (ofString ", ") (sortBy id names)

/-! ## Requests and definitions -/

/-- `DelegatedTask`. -/
structure DelegatedTask where
  goal : JsString
  context : List JsString
  instructions : List JsString
deriving DecidableEq

/-- The thinking levels. -/
inductive Thinking where
  | off | minimal | low | medium | high | xhigh
deriving DecidableEq

/-- The text of a thinking level. -/
def Thinking.text : Thinking → String
  | .off => "off"
  | .minimal => "minimal"
  | .low => "low"
  | .medium => "medium"
  | .high => "high"
  | .xhigh => "xhigh"

/-- `ExactModelRequest`. -/
structure ExactModelRequest where
  provider : JsString
  id : JsString
  thinking : Thinking
deriving DecidableEq

/-- `ModelRequest`. -/
inductive ModelRequest where
  | exact (model : ExactModelRequest)
  | inherit
deriving DecidableEq

/-- `INHERIT_MODEL`. -/
def inheritModel : JsString := ofString "inherit"

/-- `HOST_MODEL`. -/
def hostModel : JsString := ofString "host"

/-- `ModelSource`. -/
inductive ModelSource where
  | request | template | inherited
deriving DecidableEq

/-- `ModelAdmission`. -/
inductive ModelAdmission where
  | exact | inherit | host
deriving DecidableEq

/-- `ContextScope`. -/
inductive ContextScope where
  | global | project
deriving DecidableEq

/-- The text of a context scope. -/
def ContextScope.text : ContextScope → String
  | .global => "global"
  | .project => "project"

/-- The context modes of a request. -/
inductive ContextMode where
  | fresh | fork
deriving DecidableEq

/-- Where an agent definition was found. -/
inductive AgentScope where
  | builtin | package | global | project
deriving DecidableEq

/-- `RunLimits`. -/
structure RunLimits extends RunLife.Limits where
  outputBytes : ℕ
  workspaceWriteBytes : ℕ
deriving DecidableEq

/-- The keys of `RunLimits`. -/
inductive LimitKey where
  | cumulativeRuntimeMs | attemptTimeoutMs | totalTokens | cost | outputBytes | workspaceWriteBytes
  | retries | resumes
deriving DecidableEq

/-- The text of a key. -/
def LimitKey.text : LimitKey → String
  | .cumulativeRuntimeMs => "cumulativeRuntimeMs"
  | .attemptTimeoutMs => "attemptTimeoutMs"
  | .totalTokens => "totalTokens"
  | .cost => "cost"
  | .outputBytes => "outputBytes"
  | .workspaceWriteBytes => "workspaceWriteBytes"
  | .retries => "retries"
  | .resumes => "resumes"

/-- The keys in the order of the schema. -/
def LimitKey.all : List LimitKey :=
  [.cumulativeRuntimeMs, .attemptTimeoutMs, .totalTokens, .cost, .outputBytes, .workspaceWriteBytes,
    .retries, .resumes]

theorem LimitKey.mem_all (key : LimitKey) : key ∈ LimitKey.all := by cases key <;> decide

/-- The value at a key; only `totalTokens` is optional. -/
def RunLimits.get (l : RunLimits) : LimitKey → Option ℚ
  | .cumulativeRuntimeMs => some l.cumulativeRuntimeMs
  | .attemptTimeoutMs => some l.attemptTimeoutMs
  | .totalTokens => l.totalTokens.map (Nat.cast : ℕ → ℚ)
  | .cost => some l.cost
  | .outputBytes => some l.outputBytes
  | .workspaceWriteBytes => some l.workspaceWriteBytes
  | .retries => some l.retries
  | .resumes => some l.resumes

/-- `DelegationCeiling`: what the host bounds. -/
structure DelegationCeiling where
  workspaceModes : Option (List WorkspaceMode)
  tools : Option (List JsString)
deriving DecidableEq

/-- `WorkspaceRequest`. -/
structure WorkspaceRequest where
  mode : WorkspaceMode
  cwd : JsString
  startAt : Option JsString
deriving DecidableEq

/-- `SubagentRequest`. -/
structure SubagentRequest where
  operationId : JsString
  agent : JsString
  agentRoots : Option (List JsString)
  task : DelegatedTask
  contextMode : ContextMode
  model : Option ModelRequest
  tools : List JsString
  preloadSkills : List JsString
  contextScopes : List ContextScope
  workspace : WorkspaceRequest
  ceiling : Option DelegationCeiling
  memoryBytes : Option ℕ
  outputSchema : Option Json
  limits : RunLimits

/-- `AgentDefinition`. -/
structure AgentDefinition where
  name : JsString
  displayName : JsString
  prompt : JsString
  scope : AgentScope
  source : JsString
  sha256 : JsString
  defaultModel : Option ExactModelRequest
  allowedModels : List JsString
  tools : List JsString
  preloadSkills : List JsString
  contextScopes : List ContextScope
  workspaceModes : List WorkspaceMode
  limitCeiling : RunLimits
  memoryCeilingBytes : ℕ

/-- The kinds of resources. -/
inductive ResourceKind where
  | agent | tool | skill | context
deriving DecidableEq

/-- The text of a kind. -/
def ResourceKind.text : ResourceKind → String
  | .agent => "agent"
  | .tool => "tool"
  | .skill => "skill"
  | .context => "context"

/-- `ResourceGrant`. -/
structure ResourceGrant where
  kind : ResourceKind
  name : JsString
  source : JsString
  sha256 : JsString
deriving DecidableEq

/-- `ResourceDigest`, as far as preflight reads it. -/
structure ResourceDigest where
  canonicalPath : JsString
  sha256 : JsString
deriving DecidableEq

/-- `ProjectedSkill`, as far as preflight reads it. -/
structure ProjectedSkill where
  name : JsString
  hostFilePath : JsString
  sha256 : JsString
deriving DecidableEq

/-- `ForkContextGrant`. -/
structure ForkContextGrant where
  parentSessionId : JsString
  parentSessionSha256 : JsString
  messageIds : List JsString
  projectionSha256 : JsString
deriving DecidableEq

/-- `ResolvedWorkspace`. -/
structure ResolvedWorkspace where
  mode : WorkspaceMode
  hostPathSha256 : JsString
  baselineSha256 : JsString
  startAt : Option JsString
deriving DecidableEq

/-- `ResolvedSandbox`. -/
structure ResolvedSandbox where
  packageVersion : JsString
  imageSha256 : JsString
  mountPolicySha256 : JsString
  networkPolicySha256 : JsString
  capacityPolicySha256 : JsString
  rootfsPolicySha256 : JsString
  guestDiskBytes : ℕ
deriving DecidableEq

/-! ## Plans -/

/-- The sandbox of a plan. -/
structure PlanSandbox extends ResolvedSandbox where
  backend : JsString
  memoryBytes : ℕ
  workspaceWriteBytes : ℕ
deriving DecidableEq

/-- The network of a plan. -/
structure PlanNetwork where
  mode : JsString
  blockInternalRanges : Bool
deriving DecidableEq

/-- A launch plan without its identity. -/
structure LaunchDraft where
  schema : JsString
  contractRevision : ℕ
  operationId : JsString
  ownerId : JsString
  runId : RunId
  attemptId : JsString
  agent : JsString
  agentDisplayName : JsString
  agentPrompt : JsString
  agentSource : JsString
  agentSha256 : JsString
  agentScope : AgentScope
  task : DelegatedTask
  contextMode : ContextMode
  forkContext : Option ForkContextGrant
  model : ExactModelRequest
  modelSource : ModelSource
  modelAdmission : ModelAdmission
  cwd : JsString
  tools : List JsString
  preloadSkills : List JsString
  contextScopes : List ContextScope
  resources : List ResourceGrant
  workspace : ResolvedWorkspace
  ceiling : Option DelegationCeiling
  sandbox : PlanSandbox
  network : PlanNetwork
  outputSchema : Option Json
  limits : RunLimits

/-- `AgentLaunchPlan`. -/
structure AgentLaunchPlan extends LaunchDraft where
  identitySha256 : JsString

/-- An error of a schema. -/
structure SchemaError where
  instancePath : JsString
  message : JsString

/-- What the code takes from elsewhere: the errors of a schema, of which a value that passes it has
none, the canonical texts and digests, and the collation of names. -/
structure Platform where
  requestErrors : SubagentRequest → List SchemaError
  planErrors : AgentLaunchPlan → List SchemaError
  planBytes : AgentLaunchPlan → ℕ
  grantsSha256 : List ResourceGrant → JsString
  draftSha256 : LaunchDraft → JsString
  localeCompare : JsString → JsString → ℤ

/-- The input of `compileLaunchPlan`. -/
structure LaunchInput where
  ownerId : JsString
  runId : RunId
  attemptId : JsString
  request : SubagentRequest
  agent : AgentDefinition
  resources : List ResourceGrant
  contextResources : List ResourceGrant
  workspace : ResolvedWorkspace
  sandbox : ResolvedSandbox
  forkContext : Option ForkContextGrant
  resolveModel : ExactModelRequest → Except JsString ExactModelRequest
  /-- The registered provider, and what it answers. -/
  inheritSessionModel : Option (Option ExactModelRequest)
  /-- The registered provider; it may answer nothing. -/
  admitHostModel : Option (ExactModelRequest → Option Bool)

/-! ## Checks -/

/-- `if (c) throw new PreflightError(message)`. -/
def refuse (c : Prop) [Decidable c] (message : JsString) : Except JsString Unit :=
  if c then .error message else .ok ()

@[simp] theorem refuse_eq_ok {c : Prop} [Decidable c] {message : JsString} {u : Unit} :
    refuse c message = .ok u ↔ ¬ c := by
  unfold refuse
  split <;> simp_all

/-- The loops that throw at the first element that is out of place. -/
def refuseFound {α : Type} (found : Option α) (message : α → JsString) : Except JsString Unit :=
  match found with
  | some a => .error (message a)
  | none => .ok ()

@[simp] theorem refuseFound_eq_ok {α : Type} {found : Option α} {message : α → JsString}
    {u : Unit} : refuseFound found message = .ok u ↔ found = none := by
  cases found with
  | none => exact ⟨fun _ => rfl, fun _ => rfl⟩
  | some a => simp [refuseFound]

theorem bind_eq_ok {ε α β : Type} {x : Except ε α} {f : α → Except ε β} {b : β} :
    (x >>= f) = .ok b ↔ ∃ a, x = .ok a ∧ f a = .ok b := by
  cases x with
  | error e => simp [bind, Except.bind]
  | ok a => simp [bind, Except.bind]

/-- `MODEL_INHERIT_REFUSAL`. -/
def modelInheritRefusal : JsString := ofString "model inherit: no session model to inherit"

/-- `MODEL_DEFAULT_REFUSAL`. -/
def modelDefaultRefusal : JsString :=
  ofString "model required: definition names no default model; the request must name one"

/-- `modelKey`. -/
def modelKey (model : ExactModelRequest) : JsString :=
  model.provider ++ ofString "/" ++ model.id ++ ofString ":" ++ ofString model.thinking.text

/-- `resolveRequestedModel`. -/
def resolveRequestedModel (request : SubagentRequest) (agent : AgentDefinition)
    (inheritSessionModel : Option (Option ExactModelRequest)) :
    Except JsString (ExactModelRequest × ModelSource) :=
  match request.model with
  | some .inherit =>
    match inheritSessionModel.join with
    | some inherited => .ok (inherited, .inherited)
    | none => .error modelInheritRefusal
  | some (.exact model) => .ok (model, .request)
  | none =>
    match agent.defaultModel with
    | some model => .ok (model, .template)
    | none => .error modelDefaultRefusal

/-- The refusal of a model. -/
def exceedsCeiling (model : ExactModelRequest) (why : JsString) : JsString :=
  ofString "model exceeds ceiling: " ++ modelKey model ++ why

/-- `assertModelAdmitted`. -/
def assertModelAdmitted (agent : AgentDefinition) (requestedModel : ExactModelRequest)
    (modelSource : ModelSource) (admitHostModel : Option (ExactModelRequest → Option Bool)) :
    Except JsString ModelAdmission :=
  if modelSource = .inherited then
    if inheritModel ∈ agent.allowedModels then .ok .inherit
    else .error (exceedsCeiling requestedModel (ofString " (template admits " ++
      listed agent.allowedModels ++ ofString ", not inherit)"))
  else if modelKey requestedModel ∈ agent.allowedModels then .ok .exact
  else if hostModel ∉ agent.allowedModels then .error (exceedsCeiling requestedModel [])
  else
    match admitHostModel.bind fun answers => answers requestedModel with
    | none => .error (exceedsCeiling requestedModel
        (ofString " (template admits host, no host model admission provider answered)"))
    | some false => .error (exceedsCeiling requestedModel
        (ofString " (template admits host, host does not admit it)"))
    | some true => .ok .host

/-- `assertSubset`, and the same loop of `assertHostCeiling`. -/
def assertSubset (refusal : JsString) (requested allowed : List JsString) :
    Except JsString Unit :=
  refuseFound (requested.find? fun name => name ∉ allowed) fun name => refusal ++ name

/-- `assertHostCeiling`. -/
def assertHostCeiling (request : SubagentRequest) : Except JsString Unit :=
  match request.ceiling with
  | none => .ok ()
  | some ceiling => do
    refuseFound (ceiling.workspaceModes.filter fun modes => request.workspace.mode ∉ modes)
      fun modes => ofString "workspace mode exceeds host ceiling: " ++
        ofString request.workspace.mode.text ++ ofString " (host allows " ++
        listed (modes.map fun mode => ofString mode.text) ++ ofString ")"
    match ceiling.tools with
    | none => .ok ()
    | some tools => assertSubset (ofString "tool exceeds host ceiling: ") request.tools tools

/-- `recordedCeiling`. -/
def recordedCeiling (ceiling : DelegationCeiling) : DelegationCeiling where
  workspaceModes := ceiling.workspaceModes.map (sortBy fun mode => ofString mode.text)
  tools := ceiling.tools.map (sortBy id)

/-- The requested limit and its ceiling are both there and the limit is above. -/
def exceedsLimit (requested ceiling : RunLimits) (key : LimitKey) : Bool :=
  (requested.get key).any fun value => (ceiling.get key).any fun maximum => maximum < value

/-- `assertLimits`. -/
def assertLimits (requested ceiling : RunLimits) : Except JsString Unit := do
  refuse (requested.attemptTimeoutMs > requested.cumulativeRuntimeMs)
    (ofString "attempt timeout exceeds cumulative runtime")
  refuseFound (LimitKey.all.find? (exceedsLimit requested ceiling))
    fun key => ofString "limit exceeds ceiling: " ++ ofString key.text

/-- The key of a resource. -/
def resourceKey (kind : ResourceKind) (name : JsString) : JsString :=
  ofString kind.text ++ ofString ":" ++ name

/-- The key of a grant. -/
def ResourceGrant.key (resource : ResourceGrant) : JsString :=
  resourceKey resource.kind resource.name

/-- The first key that is among the ones before it. -/
def repeated (seen : List JsString) : List JsString → Option JsString
  | [] => none
  | key :: rest => if key ∈ seen then some key else repeated (key :: seen) rest

/-- The keys a plan has to grant. -/
def requiredKeys (agent : AgentDefinition) (request : SubagentRequest)
    (preloadSkills : List JsString) (contextResources : List ResourceGrant) : List JsString :=
  resourceKey .agent agent.name ::
    (request.tools.map (resourceKey .tool) ++ preloadSkills.map (resourceKey .skill) ++
      contextResources.map fun resource => resourceKey .context resource.name)

/-- `validateResources`. -/
def validateResources (agent : AgentDefinition) (request : SubagentRequest)
    (preloadSkills : List JsString) (contextResources resources : List ResourceGrant) :
    Except JsString Unit := do
  let required := requiredKeys agent request preloadSkills contextResources
  refuseFound (repeated [] (resources.map ResourceGrant.key))
    fun key => ofString "duplicate resource: " ++ key
  refuseFound (required.find? fun key => key ∉ resources.map ResourceGrant.key)
    fun key => ofString "missing resource: " ++ key
  refuseFound (resources.find? fun resource => resource.kind = .tool ∧ resource.key ∉ required)
    fun resource => ofString "unrequested resource: " ++ resource.key
  let agentGrant := resources.find? fun resource => resource.key = resourceKey .agent agent.name
  refuse (agentGrant.map ResourceGrant.source ≠ some agent.source ∨
      agentGrant.map ResourceGrant.sha256 ≠ some agent.sha256)
    (ofString "agent provenance mismatch")

/-- `MIN_MEMORY_BYTES`. -/
def minMemoryBytes : ℕ := 1024 * 1024 * 1024

/-- `MAX_MEMORY_BYTES`. -/
def maxMemoryBytes : ℕ := 4 * 1024 * 1024 * 1024

/-- `MEMORY_GRANULARITY_BYTES`. -/
def memoryGranularityBytes : ℕ := 64 * 1024 * 1024

/-- `MemoryBytesSchema`. -/
def checkMemoryBytes (n : ℕ) : Bool :=
  minMemoryBytes ≤ n ∧ n ≤ maxMemoryBytes ∧ n % memoryGranularityBytes = 0

/-- The details of a refusal for a schema. -/
def schemaDetails (errors : List SchemaError) : JsString :=
  let details := join (ofString "; ") (errors.map fun error =>
    (if error.instancePath = [] then ofString "/" else error.instancePath) ++ ofString ": " ++
      error.message)
  if details = [] then [] else ofString ": " ++ details

/-- The skills the definition and the request preload, each once and sorted. -/
def mergedSkills (agent : AgentDefinition) (request : SubagentRequest) : List JsString :=
  sortBy id (agent.preloadSkills ++ request.preloadSkills).dedup

/-- The context scopes of the definition and the request, each once and sorted. -/
def mergedScopes (agent : AgentDefinition) (request : SubagentRequest) : List ContextScope :=
  sortBy (fun scope => ofString scope.text) (agent.contextScopes ++ request.contextScopes).dedup

/-- The order of the recorded resources. -/
def ResourceGrant.sortKey (resource : ResourceGrant) : JsString :=
  resource.key ++ ofString ":" ++ resource.source

/-! ## The compiler -/

namespace LaunchInput

variable (input : LaunchInput)

/-- The memory of a launch. -/
def memoryBytes : ℕ := input.request.memoryBytes.getD input.agent.memoryCeilingBytes

/-- The part of `compileLaunchPlan` that chooses the model. -/
def chooseModel : Except JsString (ExactModelRequest × ModelSource × ModelAdmission) := do
  let (requestedModel, modelSource) ←
    resolveRequestedModel input.request input.agent input.inheritSessionModel
  let modelAdmission ←
    assertModelAdmitted input.agent requestedModel modelSource input.admitHostModel
  let model ← input.resolveModel requestedModel
  refuse (model.provider ≠ requestedModel.provider ∨ model.id ≠ requestedModel.id ∨
      model.thinking ≠ requestedModel.thinking)
    (ofString "model resolver changed exact selection")
  return (model, modelSource, modelAdmission)

/-- The draft of the plan. -/
def draft (model : ExactModelRequest) (modelSource : ModelSource)
    (modelAdmission : ModelAdmission) : LaunchDraft where
  schema := ofString "pi-subagent-launch"
  contractRevision := contractRevision
  operationId := input.request.operationId
  ownerId := input.ownerId
  runId := input.runId
  attemptId := input.attemptId
  agent := input.agent.name
  agentDisplayName := input.agent.displayName
  agentPrompt := input.agent.prompt
  agentSource := input.agent.source
  agentSha256 := input.agent.sha256
  agentScope := input.agent.scope
  task := input.request.task
  contextMode := input.request.contextMode
  forkContext := input.forkContext
  model := model
  modelSource := modelSource
  modelAdmission := modelAdmission
  cwd := ofString "/workspace"
  tools := sortBy id input.request.tools
  preloadSkills := mergedSkills input.agent input.request
  contextScopes := mergedScopes input.agent input.request
  resources := sortBy ResourceGrant.sortKey input.resources
  -- an empty `startAt` is left out
  workspace := { input.workspace with startAt := input.workspace.startAt.filter (· ≠ []) }
  ceiling := input.request.ceiling.map recordedCeiling
  sandbox := {
    toResolvedSandbox := input.sandbox
    backend := ofString "gondolin"
    memoryBytes := input.memoryBytes
    workspaceWriteBytes := input.request.limits.workspaceWriteBytes }
  network := { mode := ofString "public-egress", blockInternalRanges := true }
  outputSchema := input.request.outputSchema
  limits := input.request.limits

end LaunchInput

namespace Platform

variable (S : Platform)

/-- Grants by their names. -/
def byName (grants : List ResourceGrant) : List ResourceGrant :=
  grants.insertionSort fun left right => S.localeCompare left.name right.name ≤ 0

/-- The checks of `compileLaunchPlan` before it looks at the model. -/
def checkRequest (input : LaunchInput) : Except JsString Unit := do
  let request := input.request
  let agent := input.agent
  refuse (S.requestErrors request ≠ [])
    (ofString "request violates schema" ++ schemaDetails (S.requestErrors request))
  refuse (request.contextMode = .fork ∧ input.forkContext = none ∨
      request.contextMode = .fresh ∧ input.forkContext ≠ none)
    (ofString "context projection mismatch")
  refuse (request.agent ≠ agent.name) (ofString "agent resolution mismatch")
  assertSubset (ofString "tool exceeds ceiling: ") request.tools agent.tools
  refuse (request.workspace.mode ∉ agent.workspaceModes) (ofString "workspace mode exceeds ceiling")
  refuse (input.workspace.mode ≠ request.workspace.mode ∨
      input.workspace.startAt ≠ request.workspace.startAt)
    (ofString "workspace resolution mismatch")
  assertHostCeiling request
  assertLimits request.limits agent.limitCeiling
  refuse (checkMemoryBytes agent.memoryCeilingBytes = false)
    (ofString "agent memory ceiling is invalid")
  refuse (input.memoryBytes > agent.memoryCeilingBytes)
    (ofString "memory request exceeds agent ceiling")
  refuse (∃ resource ∈ input.contextResources, resource.kind ≠ .context)
    (ofString "invalid context resource kind")
  let resourceContexts := S.byName (input.resources.filter fun resource => resource.kind = .context)
  let contextResources := S.byName input.contextResources
  refuse (S.grantsSha256 resourceContexts ≠ S.grantsSha256 contextResources)
    (ofString "context resource projection mismatch")
  validateResources agent request (mergedSkills agent request) contextResources input.resources

/-- A draft with its identity. -/
def identified (draft : LaunchDraft) : AgentLaunchPlan :=
  { toLaunchDraft := draft, identitySha256 := S.draftSha256 draft }

/-- `verifyLaunchPlanIdentity`. -/
def verifyLaunchPlanIdentity (plan : AgentLaunchPlan) : Bool :=
  S.draftSha256 plan.toLaunchDraft = plan.identitySha256

/-- **`compileLaunchPlan`.** -/
def compileLaunchPlan (input : LaunchInput) : Except JsString AgentLaunchPlan := do
  S.checkRequest input
  let (model, modelSource, modelAdmission) ← input.chooseModel
  let plan := S.identified (input.draft model modelSource modelAdmission)
  refuse (S.planBytes plan > 768 * 1024) (ofString "compiled launch plan exceeds byte limit")
  refuse (S.planErrors plan ≠ [])
    (ofString "compiled launch plan violates schema" ++ schemaDetails (S.planErrors plan))
  return plan

end Platform

/-! ## What a plan has passed -/

@[simp] theorem assertSubset_eq_ok {refusal : JsString} {requested allowed : List JsString}
    {u : Unit} :
    assertSubset refusal requested allowed = .ok u ↔ ∀ name ∈ requested, name ∈ allowed := by
  simp only [assertSubset, refuseFound_eq_ok, List.find?_eq_none, decide_eq_true_eq, not_not]

@[simp] theorem assertHostCeiling_eq_ok {request : SubagentRequest} {u : Unit} :
    assertHostCeiling request = .ok u ↔ ∀ ceiling ∈ request.ceiling,
      (∀ modes ∈ ceiling.workspaceModes, request.workspace.mode ∈ modes) ∧
        ∀ tools ∈ ceiling.tools, ∀ name ∈ request.tools, name ∈ tools := by
  unfold assertHostCeiling
  cases hc : request.ceiling with
  | none => simp
  | some ceiling =>
    simp only [bind_eq_ok, refuseFound_eq_ok, Option.filter_eq_none_iff, decide_eq_true_eq, not_not,
      Option.mem_some_iff, forall_eq']
    cases ht : ceiling.tools with
    | none => simp
    | some tools => simp

@[simp] theorem exceedsLimit_eq_false {requested ceiling : RunLimits} {key : LimitKey} :
    ¬ exceedsLimit requested ceiling key = true ↔
      ∀ value ∈ requested.get key, ∀ maximum ∈ ceiling.get key, value ≤ maximum := by
  simp only [exceedsLimit, Option.any_eq_true, decide_eq_true_eq, not_exists, not_and, not_lt,
    Option.mem_def]

@[simp] theorem assertLimits_eq_ok {requested ceiling : RunLimits} {u : Unit} :
    assertLimits requested ceiling = .ok u ↔
      requested.attemptTimeoutMs ≤ requested.cumulativeRuntimeMs ∧
        ∀ key, ∀ value ∈ requested.get key, ∀ maximum ∈ ceiling.get key, value ≤ maximum := by
  simp only [assertLimits, bind_eq_ok, refuse_eq_ok, refuseFound_eq_ok, List.find?_eq_none,
    exceedsLimit_eq_false, LimitKey.mem_all, true_implies, not_lt, gt_iff_lt, exists_const]

/-- The entry of the fence that an admission names admits the model. -/
def AdmittedBy (agent : AgentDefinition)
    (admitHostModel : Option (ExactModelRequest → Option Bool)) (model : ExactModelRequest)
    (modelSource : ModelSource) : ModelAdmission → Prop
  | .exact => modelSource ≠ .inherited ∧ modelKey model ∈ agent.allowedModels
  | .inherit => modelSource = .inherited ∧ inheritModel ∈ agent.allowedModels
  | .host => modelSource ≠ .inherited ∧ modelKey model ∉ agent.allowedModels ∧
      hostModel ∈ agent.allowedModels ∧
        (admitHostModel.bind fun answers => answers model) = some true

theorem assertModelAdmitted_admits {agent : AgentDefinition} {model : ExactModelRequest}
    {source : ModelSource} {answers : Option (ExactModelRequest → Option Bool)}
    {admission : ModelAdmission}
    (h : assertModelAdmitted agent model source answers = .ok admission) :
    AdmittedBy agent answers model source admission := by
  unfold assertModelAdmitted at h
  split_ifs at h with hs hi hx hh
  · cases h
    exact ⟨hs, hi⟩
  · cases h
    exact ⟨hs, hx⟩
  · split at h
    · cases h
    · cases h
    · next hyes =>
      cases h
      exact ⟨hs, hx, hh, hyes⟩

/-- The chosen model is the resolved one, and an entry of the definition admits it. -/
theorem LaunchInput.chooseModel_spec {input : LaunchInput} {model : ExactModelRequest}
    {source : ModelSource} {admission : ModelAdmission}
    (h : input.chooseModel = .ok (model, source, admission)) :
    resolveRequestedModel input.request input.agent input.inheritSessionModel =
        .ok (model, source) ∧
      AdmittedBy input.agent input.admitHostModel model source admission := by
  unfold LaunchInput.chooseModel at h
  simp only [bind_eq_ok, refuse_eq_ok, Prod.exists] at h
  obtain ⟨requested, source', hrequested, admission', hadmitted, resolved, -, -, hsame, hpure⟩ := h
  cases hpure
  -- the resolver may answer another object, but with the same selection
  have heq : model = requested := by
    obtain ⟨provider, id, thinking⟩ := model
    obtain ⟨provider', id', thinking'⟩ := requested
    simp only [not_or, not_not] at hsame
    obtain ⟨rfl, rfl, rfl⟩ := hsame
    rfl
  subst heq
  exact ⟨hrequested, assertModelAdmitted_admits hadmitted⟩

/-- What a compiled plan has passed, and what it is. -/
structure Accepted (S : Platform) (input : LaunchInput) (plan : AgentLaunchPlan) : Prop where
  tools : ∀ name ∈ input.request.tools, name ∈ input.agent.tools
  mode : input.request.workspace.mode ∈ input.agent.workspaceModes
  workspace : input.workspace.mode = input.request.workspace.mode
  ceiling : ∀ ceiling ∈ input.request.ceiling,
    (∀ modes ∈ ceiling.workspaceModes, input.request.workspace.mode ∈ modes) ∧
      ∀ tools ∈ ceiling.tools, ∀ name ∈ input.request.tools, name ∈ tools
  limits : ∀ key, ∀ value ∈ input.request.limits.get key,
    ∀ maximum ∈ input.agent.limitCeiling.get key, value ≤ maximum
  memory : input.memoryBytes ≤ input.agent.memoryCeilingBytes
  chosen : input.chooseModel = .ok (plan.model, plan.modelSource, plan.modelAdmission)
  compiled : plan = S.identified (input.draft plan.model plan.modelSource plan.modelAdmission)

/-- **What comes out of the compiler has passed every check.** -/
theorem compileLaunchPlan_accepted {S : Platform} {input : LaunchInput} {plan : AgentLaunchPlan}
    (h : S.compileLaunchPlan input = .ok plan) : Accepted S input plan := by
  unfold Platform.compileLaunchPlan at h
  simp only [bind_eq_ok, refuse_eq_ok, Prod.exists, exists_const] at h
  obtain ⟨⟨⟩, hchecks, model, source, admission, hchosen, -, -, hpure⟩ := h
  cases hpure
  unfold Platform.checkRequest at hchecks
  simp only [bind_eq_ok, refuse_eq_ok, assertSubset_eq_ok, assertHostCeiling_eq_ok,
    assertLimits_eq_ok, exists_const, not_not, not_or, not_lt, gt_iff_lt] at hchecks
  obtain ⟨-, -, -, htools, hmode, ⟨hworkspace, -⟩, hceiling, ⟨-, hlimits⟩, -, hmemory, -⟩ := hchecks
  exact {
    tools := htools
    mode := hmode
    workspace := hworkspace
    ceiling := hceiling
    limits := hlimits
    memory := hmemory
    chosen := hchosen
    compiled := rfl }

end Preflight

end PiSubagent
