import PiSubagent.Preflight.Narrowing

/-!
# The request of the tool

The tool `subagent` makes a definition for its one call, and a request that is within it.

* `ToolParams`: the parameters that pass the schema of the tool; `ToolContext`: what the seat
  answers.
* `prepare`: the definition and the request, or the refusal.
* `ToolAdmitted`: what else a launch of the tool has to pass.
* **`tool_compiles_iff`**: no bound of its definition refuses a request of the tool.
* **`tool_plan`**: its plan grants what was asked for; a run that may change files has a worktree.
-/

namespace PiSubagent

open JsonText

namespace ToolRequest

open Preflight

/-! ## Parameters -/

/-- `READ_ONLY_TOOLS`. -/
def readOnlyTools : List JsString :=
  [ofString "read", ofString "grep", ofString "find", ofString "ls"]

/-- `MUTATING_TOOLS`. -/
def mutatingTools : List JsString := [ofString "write", ofString "edit", ofString "bash"]

/-- `THINKING_LEVELS`. -/
def thinkingLevels : List Thinking := [.off, .minimal, .low, .medium, .high, .xhigh]

/-- `DEFAULT_ATTEMPT_TIMEOUT_MS`. -/
def defaultAttemptTimeoutMs : ℕ := 600000

/-- `MAX_CUMULATIVE_RUNTIME_MS`. -/
def maxCumulativeRuntimeMs : ℕ := 3600000

/-- `DEFAULT_MEMORY_BYTES`. -/
def defaultMemoryBytes : ℕ := minMemoryBytes

/-- The parameters of a call, which have passed the schema of the tool. -/
structure ToolParams where
  agent : JsString
  task : JsString
  contextMode : Option ContextMode
  model : Option JsString
  thinking : Option Thinking
  tools : Option (List JsString)
  preloadSkills : Option (List JsString)
  contextScopes : Option (List ContextScope)
  timeoutMs : Option ℕ
  memoryBytes : Option ℕ
  timeout : ∀ n ∈ timeoutMs, 1000 ≤ n ∧ n ≤ 3600000
  memory : ∀ n ∈ memoryBytes, checkMemoryBytes n = true

/-- What the seat answers to a call. -/
structure ToolContext where
  /-- `ctx.model`: its provider and its id. -/
  model : Option (JsString × JsString)
  /-- `ctx.thinkingLevel`. -/
  thinkingLevel : Option JsString
  cwd : JsString
  /-- `resolveDelegationCeiling`. -/
  ceiling : Except JsString (Option DelegationCeiling)
  /-- `resolveSessionModel`. -/
  sessionModel : Except JsString (Option ExactModelRequest)
  /-- The digest of the session and the call. -/
  callSha256 : JsString

/-- `resolveThinking`. -/
def resolveThinking (value : Option Thinking) (ctx : ToolContext) : Except JsString Thinking :=
  let candidate :=
    ((value.map fun level => ofString level.text).or ctx.thinkingLevel).getD (ofString "medium")
  if candidate = ofString "max" then
    .error (ofString "The subagent contract does not support max thinking.")
  else
    match thinkingLevels.find? fun level => ofString level.text = candidate with
    | some level => .ok level
    | none => .error (ofString "Unsupported thinking level: " ++ candidate)

/-- `inheritedSessionModel`. -/
def inheritedSessionModel (ctx : ToolContext) : Except JsString ExactModelRequest := do
  match ← ctx.sessionModel with
  | some inherited => return inherited
  | none => .error modelInheritRefusal

/-- The refusal of a text that names no model. -/
def modelSyntaxRefusal : JsString := ofString "Model must use provider/model syntax."

/-- `parseModel`. -/
def parseModel (value : Option JsString) (ctx : ToolContext) :
    Except JsString (JsString × JsString) :=
  match value with
  | none =>
    match ctx.model with
    | some model => .ok model
    | none => .error (ofString "No active model is available.")
  | some value =>
    if value = inheritModel then .error modelSyntaxRefusal
    else
      match value.idxOf? 47 with
      | none => .error modelSyntaxRefusal
      | some separator =>
        if separator < 1 ∨ separator + 1 = value.length then .error modelSyntaxRefusal
        else .ok (value.take separator, value.drop (separator + 1))

namespace ToolParams

variable (params : ToolParams)

/-- `tools`. -/
def grantedTools : List JsString := params.tools.getD readOnlyTools

/-- `attemptTimeoutMs`. -/
def attemptTimeoutMs : ℕ := params.timeoutMs.getD defaultAttemptTimeoutMs

/-- `memoryBytes`. -/
def grantedMemory : ℕ := params.memoryBytes.getD defaultMemoryBytes

/-- `cumulativeRuntimeMs`. -/
def cumulativeRuntimeMs : ℕ := min maxCumulativeRuntimeMs (params.attemptTimeoutMs * 3)

/-- `workspaceMode`. -/
def workspaceMode : WorkspaceMode :=
  if params.grantedTools.any fun tool => tool ∈ mutatingTools then .worktree else .readOnly

/-- The limits of the definition, with `SUBAGENT_LIMIT_CEILING`. -/
def limitCeiling : RunLimits where
  cumulativeRuntimeMs := params.cumulativeRuntimeMs
  attemptTimeoutMs := params.attemptTimeoutMs
  totalTokens := some 10000000
  cost := 100
  outputBytes := 1024 * 1024
  workspaceWriteBytes := 512 * 1024 * 1024
  retries := 1
  resumes := 1

/-- The prompt of the definition. -/
def prompt : JsString :=
  ofString "You are the delegated Pi agent named " ++ params.agent ++
    ofString (". Complete the bounded task using only the granted tools. " ++
      "Return a concise final answer.")

end ToolParams

/-- The model of a call, with the level of the session model when it is inherited. -/
structure ToolModel extends ExactModelRequest where
  inherited : Option Thinking

/-- What the digest of the definition is computed of. -/
structure AgentIdentity where
  label : JsString
  prompt : JsString
  model : ToolModel
  tools : List JsString
  preloadSkills : List JsString
  contextScopes : List ContextScope
  workspaceMode : WorkspaceMode
  timeoutMs : ℕ
  memoryBytes : ℕ

/-- The definition of the call, where `sha256` is the digest of the parts of a definition. -/
def toolAgent (sha256 : AgentIdentity → JsString) (params : ToolParams)
    (model : ToolModel) : AgentDefinition :=
  let agentIdentity := sha256
    { label := params.agent
      prompt := params.prompt
      model := model
      tools := params.grantedTools
      preloadSkills := params.preloadSkills.getD []
      contextScopes := params.contextScopes.getD []
      workspaceMode := params.workspaceMode
      timeoutMs := params.attemptTimeoutMs
      memoryBytes := params.grantedMemory }
  { name := ofString "dynamic-" ++ agentIdentity.take 32
    displayName := params.agent
    prompt := params.prompt
    scope := .builtin
    source := ofString "<extension-agent:" ++ agentIdentity ++ ofString ">"
    sha256 := agentIdentity
    defaultModel := some model.toExactModelRequest
    allowedModels := [modelKey model.toExactModelRequest]
    tools := params.grantedTools
    preloadSkills := params.preloadSkills.getD []
    contextScopes := params.contextScopes.getD []
    workspaceModes := [params.workspaceMode]
    limitCeiling := params.limitCeiling
    memoryCeilingBytes := params.grantedMemory }

/-- The request of the call. -/
def toolRequest (params : ToolParams) (ctx : ToolContext) (ceiling : Option DelegationCeiling)
    (agent : AgentDefinition) : Preflight.SubagentRequest where
  operationId := ofString "tool-" ++ ctx.callSha256
  agent := agent.name
  agentRoots := none
  task := {
    goal := params.task
    context := []
    instructions := [ofString "Complete the goal and report the result."] }
  contextMode := params.contextMode.getD .fresh
  model := agent.defaultModel.map .exact
  tools := params.grantedTools
  preloadSkills := params.preloadSkills.getD []
  contextScopes := params.contextScopes.getD []
  workspace := { mode := params.workspaceMode, cwd := ctx.cwd, startAt := none }
  ceiling := ceiling
  memoryBytes := some params.grantedMemory
  outputSchema := none
  limits := agent.limitCeiling

/-- The model of the call. -/
def chooseModel (params : ToolParams) (ctx : ToolContext) : Except JsString ToolModel := do
  if params.model = some inheritModel then
    let inherited ← inheritedSessionModel ctx
    let thinking ← resolveThinking (some (params.thinking.getD inherited.thinking)) ctx
    return { provider := inherited.provider, id := inherited.id, thinking := thinking
             inherited := some inherited.thinking }
  else
    let (provider, id) ← parseModel params.model ctx
    let thinking ← resolveThinking params.thinking ctx
    return { provider := provider, id := id, thinking := thinking, inherited := none }

/-- `execute`, up to `preflight`: the definition and the request. -/
def prepare (sha256 : AgentIdentity → JsString) (params : ToolParams) (ctx : ToolContext) :
    Except JsString (AgentDefinition × Preflight.SubagentRequest) := do
  let ceiling ← ctx.ceiling
  let model ← chooseModel params ctx
  let agent := toolAgent sha256 params model
  return (agent, toolRequest params ctx ceiling agent)

/-! ## A call that may write -/

/-- The call of a seat that has a model and no ceiling. -/
def fixerContext : ToolContext where
  model := some (ofString "github-copilot", ofString "gpt-5.6-luna")
  thinkingLevel := some (ofString "low")
  cwd := ofString "/repo"
  ceiling := .ok none
  sessionModel := .ok none
  callSha256 := List.replicate 64 99

/-- A call that asks for a tool that writes. -/
def fixerParams : ToolParams where
  agent := ofString "Fixer"
  task := ofString "Fix the build"
  contextMode := none
  model := none
  thinking := none
  tools := some [ofString "write", ofString "read"]
  preloadSkills := none
  contextScopes := none
  timeoutMs := none
  memoryBytes := none
  timeout := by simp
  memory := by simp

/-- The digest of a definition, on a host where every digest is the same. -/
def fixerSha256 : AgentIdentity → JsString := fun _ => List.replicate 64 97

/-- The definition of the call. -/
def fixerAgent : AgentDefinition :=
  toolAgent fixerSha256 fixerParams
    { provider := ofString "github-copilot", id := ofString "gpt-5.6-luna", thinking := .low
      inherited := none }

/-- The launch of the call. -/
def fixerLaunch : LaunchInput :=
  { workerLaunch none with
    agent := fixerAgent
    request := toolRequest fixerParams fixerContext none fixerAgent
    resources := [
      { kind := .agent, name := fixerAgent.name, source := fixerAgent.source,
        sha256 := fixerAgent.sha256 },
      { kind := .tool, name := ofString "read", source := ofString "builtin:read",
        sha256 := List.replicate 64 98 },
      { kind := .tool, name := ofString "write", source := ofString "builtin:write",
        sha256 := List.replicate 64 98 }] }

/-- The plan of the call. -/
def fixerPlan : AgentLaunchPlan :=
  plainPlatform.identified (fixerLaunch.draft workerModel .request .exact)

/-! ## Plans -/

variable {sha256 : AgentIdentity → JsString} {params : ToolParams} {ctx : ToolContext}
  {agent : AgentDefinition} {request : Preflight.SubagentRequest}

theorem prepare_ok (h : prepare sha256 params ctx = .ok (agent, request)) :
    ∃ ceiling model, ctx.ceiling = .ok ceiling ∧ chooseModel params ctx = .ok model ∧
      agent = toolAgent sha256 params model ∧ request = toolRequest params ctx ceiling agent := by
  unfold prepare at h
  simp only [bind_eq_ok] at h
  obtain ⟨ceiling, hceiling, model, hmodel, hpure⟩ := h
  cases hpure
  exact ⟨ceiling, model, hceiling, hmodel, rfl, rfl⟩

/-- What a launch of the tool has to pass: the schemas, the host, the resources and the resolver of
models. -/
structure ToolAdmitted (S : Platform) (input : LaunchInput) : Prop where
  schema : S.requestErrors input.request = []
  fork : (input.request.contextMode = .fork ↔ input.forkContext.isSome)
  workspace : input.workspace.mode = input.request.workspace.mode ∧ input.workspace.startAt = none
  /-- The ceiling of the host. -/
  ceiling : ∀ ceiling ∈ input.request.ceiling,
    (∀ modes ∈ ceiling.workspaceModes, input.request.workspace.mode ∈ modes) ∧
      ∀ tools ∈ ceiling.tools, ∀ name ∈ input.request.tools, name ∈ tools
  contexts : ∀ resource ∈ input.contextResources, resource.kind = .context
  projection : S.grantsSha256 (S.byName (input.resources.filter fun resource =>
    resource.kind = .context)) = S.grantsSha256 (S.byName input.contextResources)
  resources : validateResources input.agent input.request (mergedSkills input.agent input.request)
    (S.byName input.contextResources) input.resources = .ok ()
  model : ∃ model ∈ input.agent.defaultModel, input.resolveModel model = .ok model ∧
    S.planBytes (S.identified (input.draft model .request .exact)) ≤ 768 * 1024 ∧
    S.planErrors (S.identified (input.draft model .request .exact)) = []

theorem attempt_le_cumulative (params : ToolParams) :
    1000 ≤ params.attemptTimeoutMs ∧ params.attemptTimeoutMs ≤ params.cumulativeRuntimeMs := by
  have htimeout : 1000 ≤ params.attemptTimeoutMs ∧ params.attemptTimeoutMs ≤ 3600000 := by
    unfold ToolParams.attemptTimeoutMs
    cases ht : params.timeoutMs with
    | none => decide
    | some n => exact params.timeout n ht
  unfold ToolParams.cumulativeRuntimeMs maxCumulativeRuntimeMs
  omega

theorem checkMemoryBytes_granted (params : ToolParams) :
    checkMemoryBytes params.grantedMemory = true := by
  unfold ToolParams.grantedMemory
  cases hm : params.memoryBytes with
  | none => decide +kernel
  | some n => exact params.memory n hm

/-- The model of a request of the tool, and the entry that admits it. -/
theorem chooseModel_tool {input : LaunchInput} {model : ExactModelRequest}
    (hrequest : input.request.model = some (.exact model))
    (hallowed : modelKey model ∈ input.agent.allowedModels)
    (hresolve : input.resolveModel model = .ok model) :
    input.chooseModel = .ok (model, .request, .exact) := by
  have hresolved : resolveRequestedModel input.request input.agent input.inheritSessionModel =
      .ok (model, .request) := by
    rw [resolveRequestedModel, hrequest]
  have hadmitted : assertModelAdmitted input.agent model .request input.admitHostModel =
      .ok .exact := by
    rw [assertModelAdmitted, if_neg (by decide), if_pos hallowed]
  unfold LaunchInput.chooseModel
  rw [hresolved]
  change (assertModelAdmitted input.agent model .request input.admitHostModel).bind _ = _
  rw [hadmitted]
  change (input.resolveModel model).bind _ = _
  rw [hresolve]
  change (refuse (model.provider ≠ model.provider ∨ model.id ≠ model.id ∨
    model.thinking ≠ model.thinking) _).bind _ = _
  rw [refuse, if_neg (by simp)]
  rfl

/-- The checks of the compiler before it looks at the model, for a request that is within its
definition. -/
theorem checkRequest_tool {S : Platform} {input : LaunchInput}
    (hname : input.request.agent = input.agent.name)
    (htools : input.request.tools = input.agent.tools)
    (hmode : input.request.workspace.mode ∈ input.agent.workspaceModes)
    (hstart : input.request.workspace.startAt = none)
    (hlimits : input.request.limits = input.agent.limitCeiling)
    (hordered : input.request.limits.attemptTimeoutMs ≤ input.request.limits.cumulativeRuntimeMs)
    (hceiling : checkMemoryBytes input.agent.memoryCeilingBytes = true)
    (hmemory : input.memoryBytes = input.agent.memoryCeilingBytes) :
    S.checkRequest input = .ok () ↔
      S.requestErrors input.request = [] ∧
      (input.request.contextMode = .fork ↔ input.forkContext.isSome) ∧
      (input.workspace.mode = input.request.workspace.mode ∧ input.workspace.startAt = none) ∧
      (∀ ceiling ∈ input.request.ceiling,
        (∀ modes ∈ ceiling.workspaceModes, input.request.workspace.mode ∈ modes) ∧
          ∀ tools ∈ ceiling.tools, ∀ name ∈ input.request.tools, name ∈ tools) ∧
      (∀ resource ∈ input.contextResources, resource.kind = .context) ∧
      S.grantsSha256 (S.byName (input.resources.filter fun resource => resource.kind = .context)) =
        S.grantsSha256 (S.byName input.contextResources) ∧
      validateResources input.agent input.request (mergedSkills input.agent input.request)
        (S.byName input.contextResources) input.resources = .ok () := by
  have hfork : (¬ (input.request.contextMode = .fork ∧ input.forkContext = none ∨
      input.request.contextMode = .fresh ∧ input.forkContext ≠ none)) ↔
      (input.request.contextMode = .fork ↔ input.forkContext.isSome) := by
    cases input.request.contextMode <;> cases input.forkContext <;> simp
  have hwithin : ∀ key, ∀ value ∈ input.request.limits.get key,
      ∀ maximum ∈ input.agent.limitCeiling.get key, value ≤ maximum := by
    intro key value hvalue maximum hmaximum
    rw [hlimits] at hvalue
    exact le_of_eq (Option.mem_unique hvalue hmaximum)
  unfold Platform.checkRequest
  simp only [bind_eq_ok, refuse_eq_ok, assertSubset_eq_ok, assertHostCeiling_eq_ok,
    assertLimits_eq_ok, exists_const, hfork, not_not, hname, htools, hmode, hstart, hceiling,
    hmemory, true_and, not_or, not_true_eq_false, not_false_eq_true, Bool.true_eq_false, gt_iff_lt,
    lt_irrefl, not_exists, not_and, hordered]
  constructor
  · rintro ⟨hschema, hcontext, -, hworkspace, hhost, -, hkinds, hprojection, hresources⟩
    exact ⟨hschema, hcontext, hworkspace, hhost, hkinds, hprojection, hresources⟩
  · rintro ⟨hschema, hcontext, hworkspace, hhost, hkinds, hprojection, hresources⟩
    exact ⟨hschema, hcontext, fun _ hname => hname, hworkspace, hhost, hwithin, hkinds,
      hprojection, hresources⟩

theorem checkRequest_prepared {S : Platform} {input : LaunchInput}
    (h : prepare sha256 params ctx = .ok (input.agent, input.request)) :
    S.checkRequest input = .ok () ↔
      S.requestErrors input.request = [] ∧
      (input.request.contextMode = .fork ↔ input.forkContext.isSome) ∧
      (input.workspace.mode = input.request.workspace.mode ∧ input.workspace.startAt = none) ∧
      (∀ ceiling ∈ input.request.ceiling,
        (∀ modes ∈ ceiling.workspaceModes, input.request.workspace.mode ∈ modes) ∧
          ∀ tools ∈ ceiling.tools, ∀ name ∈ input.request.tools, name ∈ tools) ∧
      (∀ resource ∈ input.contextResources, resource.kind = .context) ∧
      S.grantsSha256 (S.byName (input.resources.filter fun resource => resource.kind = .context)) =
        S.grantsSha256 (S.byName input.contextResources) ∧
      validateResources input.agent input.request (mergedSkills input.agent input.request)
        (S.byName input.contextResources) input.resources = .ok () := by
  obtain ⟨ceiling, model, -, -, hagent, hrequest⟩ := prepare_ok h
  refine checkRequest_tool ?_ ?_ ?_ ?_ ?_ ?_ ?_ ?_
  · rw [hrequest]
    rfl
  · rw [hrequest, hagent]
    rfl
  · rw [hrequest, hagent]
    exact List.mem_cons_self
  · rw [hrequest]
    rfl
  · rw [hrequest]
    rfl
  · rw [hrequest, hagent]
    exact (attempt_le_cumulative params).2
  · rw [hagent]
    exact checkMemoryBytes_granted params
  · rw [LaunchInput.memoryBytes, hrequest, hagent]
    rfl

/-- **A request of the tool is refused for none of the bounds of its definition**: it is compiled
exactly when the schemas, the host's ceiling, the resources and the resolver of models admit it. -/
theorem tool_compiles_iff (S : Platform) (sha256 : AgentIdentity → JsString) (params : ToolParams)
    (ctx : ToolContext) (input : LaunchInput)
    (h : prepare sha256 params ctx = .ok (input.agent, input.request)) :
    (∃ plan, S.compileLaunchPlan input = .ok plan) ↔ ToolAdmitted S input := by
  have hchecks := checkRequest_prepared (S := S) h
  obtain ⟨ceiling, model, -, -, hagent, hrequest⟩ := prepare_ok h
  have hdefault : input.agent.defaultModel = some model.toExactModelRequest := by
    rw [hagent]
    rfl
  have hexact : input.request.model = some (.exact model.toExactModelRequest) := by
    rw [hrequest]
    change input.agent.defaultModel.map _ = _
    rw [hdefault]
    rfl
  have hallowed : modelKey model.toExactModelRequest ∈ input.agent.allowedModels := by
    rw [hagent]
    exact List.mem_cons_self
  constructor
  · rintro ⟨plan, hplan⟩
    unfold Platform.compileLaunchPlan at hplan
    simp only [bind_eq_ok, refuse_eq_ok, Prod.exists, exists_const, not_not, not_lt,
      gt_iff_lt] at hplan
    obtain ⟨⟨⟩, hcheck, chosen, source, admission, hchosen, hbytes, herrors, -⟩ := hplan
    obtain ⟨hschema, hfork, hworkspace, hhost, hkinds, hprojection, hresources⟩ :=
      hchecks.mp hcheck
    obtain ⟨hresolved, hadmitted⟩ := LaunchInput.chooseModel_spec hchosen
    rw [resolveRequestedModel, hexact] at hresolved
    cases hresolved
    have hresolve : input.resolveModel model.toExactModelRequest =
        .ok model.toExactModelRequest := by
      unfold LaunchInput.chooseModel at hchosen
      rw [resolveRequestedModel, hexact] at hchosen
      simp only [bind_eq_ok, refuse_eq_ok] at hchosen
      obtain ⟨x, hx, _, -, resolved, hresolve, _, -, hpure⟩ := hchosen
      cases hx
      cases hpure
      exact hresolve
    have hsame : admission = .exact := by
      cases admission with
      | exact => rfl
      | inherit => cases hadmitted.1
      | host => exact absurd hallowed hadmitted.2.1
    subst hsame
    exact ⟨hschema, hfork, hworkspace, hhost, hkinds, hprojection, hresources,
      _, hdefault, hresolve, hbytes, herrors⟩
  · rintro ⟨hschema, hfork, hworkspace, hhost, hkinds, hprojection, hresources, chosen, hchosen,
      hresolve, hbytes, herrors⟩
    have hcheck := hchecks.mpr
      ⟨hschema, hfork, hworkspace, hhost, hkinds, hprojection, hresources⟩
    cases hdefault.symm.trans hchosen
    refine ⟨S.identified (input.draft model.toExactModelRequest .request .exact), ?_⟩
    unfold Platform.compileLaunchPlan
    rw [hcheck, chooseModel_tool hexact hallowed hresolve]
    change (refuse _ _).bind _ = _
    rw [refuse, if_neg (Nat.not_lt.mpr hbytes)]
    change (refuse _ _).bind _ = _
    rw [refuse, if_neg (not_not.mpr herrors)]
    rfl

/-- The call of the fixer is compiled. -/
theorem tool_compiles_iff_fixer :
    prepare fixerSha256 fixerParams fixerContext = .ok (fixerLaunch.agent, fixerLaunch.request) ∧
      ToolAdmitted plainPlatform fixerLaunch := by
  have h : prepare fixerSha256 fixerParams fixerContext =
      .ok (fixerLaunch.agent, fixerLaunch.request) := by
    rfl
  have hplan : plainPlatform.compileLaunchPlan fixerLaunch = .ok fixerPlan := by
    rfl
  exact ⟨h, (tool_compiles_iff plainPlatform fixerSha256 fixerParams fixerContext fixerLaunch h).mp
    ⟨fixerPlan, hplan⟩⟩

/-- A text names the provider before its first slash and the model after it. -/
theorem parseModel_text {value provider id : JsString}
    (h : parseModel (some value) ctx = .ok (provider, id)) :
    value = provider ++ 47 :: id ∧ 47 ∉ provider ∧ provider ≠ [] ∧ id ≠ [] := by
  unfold parseModel at h
  dsimp only at h
  split_ifs at h with hinherit
  cases hi : value.idxOf? 47 with
  | none =>
    rw [hi] at h
    cases h
  | some separator =>
    rw [hi] at h
    dsimp only at h
    split_ifs at h with hbounds
    cases h
    obtain ⟨hlt, hslash, hfirst⟩ := List.findIdx?_eq_some_iff_getElem.mp hi
    rw [not_or] at hbounds
    refine ⟨?_, ?_, ?_, ?_⟩
    · have hcons := List.cons_getElem_drop_succ (h := hlt)
      rw [beq_iff_eq.mp hslash] at hcons
      rw [hcons, List.take_append_drop]
    · intro hmem
      obtain ⟨j, hj, he⟩ := List.mem_take_iff_getElem.mp hmem
      exact hfirst j (by omega) (beq_iff_eq.mpr he)
    · intro hnil
      rw [List.take_eq_nil_iff] at hnil
      rcases hnil with rfl | rfl
      · exact hbounds.1 Nat.one_pos
      · exact absurd hlt (Nat.not_lt_zero _)
    · intro hnil
      rw [List.drop_eq_nil_iff] at hnil
      exact hbounds.2 (by omega)

theorem chooseModel_ok {model : ToolModel} (h : chooseModel params ctx = .ok model) :
    (∀ value, params.model = some value → value ≠ inheritModel →
      value = model.provider ++ 47 :: model.id ∧ 47 ∉ model.provider) ∧
    (params.model = some inheritModel → ∃ session, ctx.sessionModel = .ok (some session) ∧
      model.provider = session.provider ∧ model.id = session.id) := by
  unfold chooseModel at h
  by_cases hinherit : params.model = some inheritModel
  · rw [if_pos hinherit] at h
    simp only [bind_eq_ok] at h
    obtain ⟨inherited, hinherited, thinking, -, hpure⟩ := h
    cases hpure
    refine ⟨fun value hvalue hne => ?_, fun _ => ⟨inherited, ?_, rfl, rfl⟩⟩
    · cases hinherit.symm.trans hvalue
      exact absurd rfl hne
    · unfold inheritedSessionModel at hinherited
      simp only [bind_eq_ok] at hinherited
      obtain ⟨answer, hanswer, hmatch⟩ := hinherited
      cases answer with
      | none => cases hmatch
      | some session =>
        cases hmatch
        exact hanswer
  · rw [if_neg hinherit] at h
    simp only [bind_eq_ok, Prod.exists] at h
    obtain ⟨provider, id, hparse, thinking, -, hpure⟩ := h
    cases hpure
    refine ⟨fun value hvalue _ => ?_, fun he => absurd he hinherit⟩
    rw [hvalue] at hparse
    obtain ⟨htext, hslash, -, -⟩ := parseModel_text hparse
    exact ⟨htext, hslash⟩

theorem plan_of_tool {S : Platform} {input : LaunchInput} {plan : AgentLaunchPlan}
    (h : prepare sha256 params ctx = .ok (input.agent, input.request))
    (hplan : S.compileLaunchPlan input = .ok plan) :
    ∃ ceiling model, ctx.ceiling = .ok ceiling ∧ chooseModel params ctx = .ok model ∧
      input.agent = toolAgent sha256 params model ∧
      input.request = toolRequest params ctx ceiling input.agent ∧
      plan.model = model.toExactModelRequest ∧ Accepted S input plan := by
  obtain ⟨ceiling, model, hceiling, hmodel, hagent, hrequest⟩ := prepare_ok h
  have haccepted := compileLaunchPlan_accepted hplan
  refine ⟨ceiling, model, hceiling, hmodel, hagent, hrequest, ?_, haccepted⟩
  obtain ⟨hresolved, -⟩ := LaunchInput.chooseModel_spec haccepted.chosen
  have hexact : input.request.model = some (.exact model.toExactModelRequest) := by
    rw [hrequest, hagent]
    rfl
  rw [resolveRequestedModel, hexact] at hresolved
  exact (congrArg Prod.fst (Except.ok.inj hresolved)).symm

theorem workspaceMode_eq (params : ToolParams) :
    params.workspaceMode = .worktree ↔ ∃ tool ∈ params.grantedTools, tool ∈ mutatingTools := by
  unfold ToolParams.workspaceMode
  split_ifs with hany
  · obtain ⟨tool, hmem, hmutating⟩ := List.any_eq_true.mp hany
    exact iff_of_true rfl ⟨tool, hmem, of_decide_eq_true hmutating⟩
  · refine iff_of_false (by decide) ?_
    rintro ⟨tool, hmem, hmutating⟩
    exact hany (List.any_eq_true.mpr ⟨tool, hmem, decide_eq_true hmutating⟩)

/-- **A plan of the tool grants what was asked for**: these tools and this model, within the ceiling
of the host; a worktree exactly when a tool may change files; at least a second for an attempt and at
most sixty minutes for all of them; and memory that the contract allows. -/
theorem tool_plan (S : Platform) (sha256 : AgentIdentity → JsString) (params : ToolParams)
    (ctx : ToolContext) (input : LaunchInput) (plan : AgentLaunchPlan)
    (h : prepare sha256 params ctx = .ok (input.agent, input.request))
    (hplan : S.compileLaunchPlan input = .ok plan) :
    (∀ tool, tool ∈ plan.tools ↔ tool ∈ params.grantedTools) ∧
    (plan.workspace.mode = .worktree ↔ ∃ tool ∈ plan.tools, tool ∈ mutatingTools) ∧
    (∀ ceiling, ctx.ceiling = .ok (some ceiling) →
      (∀ modes ∈ ceiling.workspaceModes, plan.workspace.mode ∈ modes) ∧
        ∀ tools ∈ ceiling.tools, ∀ tool ∈ plan.tools, tool ∈ tools) ∧
    (plan.limits = params.limitCeiling ∧ 1000 ≤ plan.limits.attemptTimeoutMs ∧
      plan.limits.attemptTimeoutMs ≤ plan.limits.cumulativeRuntimeMs ∧
      plan.limits.cumulativeRuntimeMs ≤ 3600000) ∧
    (plan.sandbox.memoryBytes = params.grantedMemory ∧
      checkMemoryBytes plan.sandbox.memoryBytes = true) ∧
    (∀ value, params.model = some value → value ≠ inheritModel →
      value = plan.model.provider ++ 47 :: plan.model.id ∧ 47 ∉ plan.model.provider) ∧
    (params.model = some inheritModel → ∃ session, ctx.sessionModel = .ok (some session) ∧
      plan.model.provider = session.provider ∧ plan.model.id = session.id) := by
  obtain ⟨ceiling, model, hceiling, hmodel, hagent, hrequest, hsame, haccepted⟩ :=
    plan_of_tool h hplan
  obtain ⟨hnamed, hinherited⟩ := chooseModel_ok hmodel
  have htools : ∀ tool, tool ∈ plan.tools ↔ tool ∈ params.grantedTools := by
    intro tool
    rw [haccepted.compiled]
    change tool ∈ sortBy id input.request.tools ↔ _
    rw [mem_sortBy, hrequest]
    rfl
  have hmode : plan.workspace.mode = params.workspaceMode := by
    rw [haccepted.compiled]
    change input.workspace.mode = _
    rw [haccepted.workspace, hrequest]
    rfl
  have hlimits : plan.limits = params.limitCeiling := by
    rw [haccepted.compiled]
    change input.request.limits = _
    rw [hrequest, hagent]
    rfl
  have hmemory : plan.sandbox.memoryBytes = params.grantedMemory := by
    rw [haccepted.compiled]
    change input.memoryBytes = _
    rw [LaunchInput.memoryBytes, hrequest]
    rfl
  refine ⟨htools, ?_, ?_, ?_, ?_, ?_, ?_⟩
  · rw [hmode, workspaceMode_eq]
    exact exists_congr fun tool => and_congr_left fun _ => (htools tool).symm
  · intro host hhost
    cases hceiling.symm.trans hhost
    have hadmits := haccepted.ceiling host (by rw [hrequest]; rfl)
    refine ⟨fun modes hmodes => ?_, fun tools hin tool htool => ?_⟩
    · rw [hmode]
      have hin := hadmits.1 modes hmodes
      rw [hrequest] at hin
      exact hin
    · refine hadmits.2 tools hin tool ?_
      rw [hrequest]
      exact (htools tool).mp htool
  · rw [hlimits]
    exact ⟨rfl, (attempt_le_cumulative params).1, (attempt_le_cumulative params).2,
      min_le_left _ _⟩
  · rw [hmemory]
    exact ⟨rfl, checkMemoryBytes_granted params⟩
  · rw [hsame]
    exact hnamed
  · rw [hsame]
    exact hinherited

/-- The plan of the fixer has a worktree. -/
theorem tool_plan_fixer :
    prepare fixerSha256 fixerParams fixerContext = .ok (fixerLaunch.agent, fixerLaunch.request) ∧
      plainPlatform.compileLaunchPlan fixerLaunch = .ok fixerPlan ∧
      fixerPlan.workspace.mode = .worktree := by
  have h : prepare fixerSha256 fixerParams fixerContext =
      .ok (fixerLaunch.agent, fixerLaunch.request) := by
    rfl
  have hplan : plainPlatform.compileLaunchPlan fixerLaunch = .ok fixerPlan := by
    rfl
  have hgrants := tool_plan plainPlatform fixerSha256 fixerParams fixerContext fixerLaunch fixerPlan
    h hplan
  have hwrite : ofString "write" ∈ fixerPlan.tools :=
    (hgrants.1 (ofString "write")).mpr List.mem_cons_self
  exact ⟨h, hplan, hgrants.2.1.mpr ⟨ofString "write", hwrite, List.mem_cons_self⟩⟩

end ToolRequest

end PiSubagent
