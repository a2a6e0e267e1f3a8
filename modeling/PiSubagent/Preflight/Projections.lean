import PiSubagent.Preflight.Compile

/-!
# Resources, and whether they are still those of a plan

* `Host`: what the service sees of its host when a call is made: definitions, files, skills, context
  files, host tools, the tool implementation, the sandbox and parent sessions.
* `toolResources`: the grants that preflight records.
* `assertSkillProjection`, `assertContextFileProjection`, `assertHostToolProjection`,
  `assertFileDigest`, `assertForkContext`: what the calls compare again.
* `Undrifted`: every digest of a plan is the current one.
* The lemmas on what each check says of one kind of resource.
-/

namespace PiSubagent

open JsonText

namespace Preflight

/-! ## What the host holds -/

/-- `HostToolDeclaration`. -/
structure HostToolDeclaration where
  name : JsString
  source : JsString
  identitySha256 : JsString
deriving DecidableEq

/-- The parent session of an owner that has both its identity and its file. -/
structure ParentSession where
  parentSessionId : JsString
  parentSessionFile : JsString
deriving DecidableEq

/-- `OwnerRegistration`. -/
structure OwnerRegistration where
  id : JsString
  parent : Option ParentSession
deriving DecidableEq

/-- `path.isAbsolute`. -/
def isAbsolute (path : JsString) : Bool := path.head? = (ofString "/").head?

/-- What the service sees of its host; a function that throws answers with the text. -/
structure Host where
  now : ℕ
  /-- `options.agents`. -/
  agents : JsString → Option AgentDefinition
  /-- `discoverAgents` over the roots of a request. -/
  discoverAgents : List JsString → Except JsString (JsString → Option AgentDefinition)
  /-- The source of a definition that was discovered is a path. -/
  discovered_isAbsolute : ∀ roots found name agent, discoverAgents roots = .ok found →
    found name = some agent → isAbsolute agent.source = true
  digestFileResource : JsString → Except JsString ResourceDigest
  resolveModel : ExactModelRequest → Except JsString ExactModelRequest
  inheritSessionModel : Option (Option ExactModelRequest)
  admitHostModel : Option (ExactModelRequest → Option Bool)
  preflightWorkspace : WorkspaceRequest → Except JsString ResolvedWorkspace
  discoverAndProjectSkills : List JsString → Except JsString (List ProjectedSkill)
  discoverAndProjectContextFiles : List ContextScope → Except JsString (List ResourceGrant)
  hostTools : List HostToolDeclaration
  toolImplementation : ResourceDigest
  /-- The sandbox that `loadExecution` resolves. -/
  sandbox : Except JsString ResolvedSandbox
  projectForkContext : ParentSession → Except JsString ForkContextGrant

/-- What the code takes from elsewhere: the digests of the other values. -/
structure DigestPlatform extends Platform where
  textsSha256 : List JsString → JsString
  forkSha256 : Option ForkContextGrant → JsString
  /-- The digest of the implementation and the name of a tool. -/
  toolSha256 : JsString → JsString → JsString

/-! ## Definitions -/

/-- `resolveRequestedAgent`. -/
def Host.resolveRequestedAgent (host : Host) (agent : JsString)
    (agentRoots : Option (List JsString)) : Except JsString (Option AgentDefinition) :=
  let roots := agentRoots.getD []
  match roots.find? fun directory => !isAbsolute directory with
  | some directory => .error (ofString "agent root must be absolute: " ++ directory)
  | none =>
    if roots = [] then .ok (host.agents agent)
    else do
      let supplied ← host.discoverAgents roots
      return (supplied agent).or (host.agents agent)

/-- `agentFromPlan`. -/
def agentFromPlan (plan : AgentLaunchPlan) : AgentDefinition where
  name := plan.agent
  displayName := plan.agentDisplayName
  prompt := plan.agentPrompt
  scope := plan.agentScope
  source := plan.agentSource
  sha256 := plan.agentSha256
  defaultModel := some plan.model
  allowedModels := [modelKey plan.model]
  tools := plan.tools
  preloadSkills := plan.preloadSkills
  contextScopes := plan.contextScopes
  workspaceModes := [plan.workspace.mode]
  limitCeiling := plan.limits
  memoryCeilingBytes := plan.sandbox.memoryBytes

/-- The definition that a retry or a resume hands over. -/
def Host.definition (host : Host) (plan : AgentLaunchPlan) : AgentDefinition :=
  (host.agents plan.agent).getD (agentFromPlan plan)

/-! ## Grants -/

/-- `IMPLEMENTED_TOOLS`. -/
def implementedTools : List JsString :=
  ["read", "write", "edit", "bash", "grep", "find", "ls"].map ofString

/-- `hostToolMap`. -/
def hostToolMap (tools : List HostToolDeclaration) :
    Except JsString (JsString → Option HostToolDeclaration) := do
  refuseFound (repeated [] (tools.map HostToolDeclaration.name))
    fun name => ofString "duplicate host tool: " ++ name
  return fun name => tools.find? fun declaration => declaration.name = name

/-- The grant of a tool: its host tool, or the implementation of the service. -/
def toolResource (S : DigestPlatform) (implementation : ResourceDigest)
    (hostTools : JsString → Option HostToolDeclaration) (tool : JsString) :
    Except JsString ResourceGrant :=
  match hostTools tool with
  | some declaration =>
    .ok { kind := .tool, name := tool, source := declaration.source,
          sha256 := declaration.identitySha256 }
  | none =>
    if tool ∈ implementedTools then
      .ok { kind := .tool, name := tool,
            source := implementation.canonicalPath ++ ofString "#" ++ tool,
            sha256 := S.toolSha256 implementation.sha256 tool }
    else .error (ofString "tool implementation unavailable: " ++ tool)

/-- The grant of a definition. -/
def AgentDefinition.resource (agent : AgentDefinition) : ResourceGrant :=
  { kind := .agent, name := agent.name, source := agent.source, sha256 := agent.sha256 }

/-- The grant of a skill. -/
def ProjectedSkill.resource (skill : ProjectedSkill) : ResourceGrant :=
  { kind := .skill, name := skill.name, source := skill.hostFilePath, sha256 := skill.sha256 }

/-- `toolResources`. -/
def toolResources (S : DigestPlatform) (agent : AgentDefinition) (request : SubagentRequest)
    (implementation : ResourceDigest) (hostTools : JsString → Option HostToolDeclaration)
    (skills : List ProjectedSkill) (contextFiles : List ResourceGrant) :
    Except JsString (List ResourceGrant) := do
  let tools ← request.tools.mapM (toolResource S implementation hostTools)
  return agent.resource :: (skills.map ProjectedSkill.resource ++ contextFiles ++ tools)

/-! ## Comparisons -/

/-- The text of a skill in the catalog. -/
def skillText (name source sha256 : JsString) : JsString :=
  name ++ ofString ":" ++ source ++ ofString ":" ++ sha256

/-- The skills of a plan. -/
def AgentLaunchPlan.skillTexts (plan : AgentLaunchPlan) : List JsString :=
  (plan.resources.filter fun resource => resource.kind = .skill).map fun resource =>
    skillText resource.name resource.source resource.sha256

/-- The skills of a projection. -/
def catalogTexts (skills : List ProjectedSkill) : List JsString :=
  skills.map fun skill => skillText skill.name skill.hostFilePath skill.sha256

/-- The context files of a plan. -/
def AgentLaunchPlan.contextGrants (plan : AgentLaunchPlan) : List ResourceGrant :=
  plan.resources.filter fun resource => resource.kind = .context

/-- The grant of a tool in a plan. -/
def AgentLaunchPlan.toolGrant (plan : AgentLaunchPlan) (tool : JsString) : Option ResourceGrant :=
  plan.resources.find? fun resource => resource.kind = .tool ∧ resource.name = tool

/-- `assertSkillProjection`. -/
def assertSkillProjection (S : DigestPlatform) (plan : AgentLaunchPlan)
    (skills : List ProjectedSkill) : Except JsString Unit :=
  refuse (S.textsSha256 (sortBy id plan.skillTexts) ≠ S.textsSha256 (sortBy id (catalogTexts skills)))
    (ofString "skill catalog changed after preflight")

/-- `assertContextFileProjection`. -/
def assertContextFileProjection (S : DigestPlatform) (plan : AgentLaunchPlan)
    (files : List ResourceGrant) : Except JsString Unit :=
  refuse (S.grantsSha256 (S.byName plan.contextGrants) ≠ S.grantsSha256 (S.byName files))
    (ofString "context file projection changed after preflight")

/-- A host tool is not the one its grant names. -/
def hostToolChanged (plan : AgentLaunchPlan) (hostTools : JsString → Option HostToolDeclaration)
    (name : JsString) : Bool :=
  name ∉ implementedTools && (hostTools name).all fun declaration =>
    (plan.toolGrant name).map ResourceGrant.source ≠ some declaration.source ∨
      (plan.toolGrant name).map ResourceGrant.sha256 ≠ some declaration.identitySha256

/-- `assertHostToolProjection`. -/
def assertHostToolProjection (plan : AgentLaunchPlan)
    (hostTools : JsString → Option HostToolDeclaration) : Except JsString Unit :=
  refuseFound (plan.tools.find? (hostToolChanged plan hostTools))
    fun name => ofString "host tool changed after preflight: " ++ name

/-- The file of a definition has its digest. -/
def assertFileDigest (host : Host) (agent : AgentDefinition) (message : JsString) :
    Except JsString Unit :=
  if isAbsolute agent.source then do
    let digest ← host.digestFileResource agent.source
    refuse (digest.sha256 ≠ agent.sha256) message
  else .ok ()

/-- The fork context of the owner is the one that the plan grants. -/
def assertForkContext (S : DigestPlatform) (host : Host) (owner : OwnerRegistration)
    (plan : AgentLaunchPlan) (unauthorized changed : JsString) :
    Except JsString ForkContextGrant := do
  match owner.parent with
  | none => .error unauthorized
  | some parent =>
    let current ← host.projectForkContext parent
    refuse (S.forkSha256 (some current) ≠ S.forkSha256 plan.forkContext) changed
    return current

/-! ## Drift -/

/-- The digest that the definition of a plan has now. -/
def Host.agentSha256 (host : Host) (plan : AgentLaunchPlan) : Option JsString :=
  if isAbsolute plan.agentSource then
    (host.digestFileResource plan.agentSource).toOption.map ResourceDigest.sha256
  else (host.agents plan.agent).map AgentDefinition.sha256

/-- The digest that a tool has now. -/
def Host.toolSha256 (S : DigestPlatform) (host : Host) (tool : JsString) : Option JsString :=
  (toolResource S host.toolImplementation
    (fun name => host.hostTools.find? fun declaration => declaration.name = name)
      tool).toOption.map ResourceGrant.sha256

/-- The image and the policies of a plan are the current ones. -/
def SameSandbox (host : Host) (plan : AgentLaunchPlan) : Prop :=
  ∃ current, host.sandbox = .ok current ∧
    current.imageSha256 = plan.sandbox.imageSha256 ∧
    current.mountPolicySha256 = plan.sandbox.mountPolicySha256 ∧
    current.networkPolicySha256 = plan.sandbox.networkPolicySha256 ∧
    current.capacityPolicySha256 = plan.sandbox.capacityPolicySha256 ∧
    current.rootfsPolicySha256 = plan.sandbox.rootfsPolicySha256

/-- The tools of a plan that meet a condition have the digests of their grants. -/
def SameTools (S : DigestPlatform) (host : Host) (plan : AgentLaunchPlan)
    (among : JsString → Prop) : Prop :=
  ∀ tool ∈ plan.tools, among tool → ∃ grant, plan.toolGrant tool = some grant ∧
    host.toolSha256 S tool = some grant.sha256

/-- The fork context of a plan is the current one. -/
def SameFork (host : Host) (owner : OwnerRegistration) (plan : AgentLaunchPlan) : Prop :=
  plan.contextMode = .fork → ∃ parent current, owner.parent = some parent ∧
    host.projectForkContext parent = .ok current ∧ plan.forkContext = some current

/-- **Every digest of a plan is the current one.** -/
structure Undrifted (S : DigestPlatform) (host : Host) (owner : OwnerRegistration)
    (plan : AgentLaunchPlan) : Prop where
  agent : host.agentSha256 plan = some plan.agentSha256
  skills : ∃ current, host.discoverAndProjectSkills plan.preloadSkills = .ok current ∧
    plan.skillTexts.Perm (catalogTexts current)
  contextFiles : ∃ current, host.discoverAndProjectContextFiles plan.contextScopes = .ok current ∧
    plan.contextGrants.Perm current
  fork : SameFork host owner plan
  tools : SameTools S host plan fun _ => True
  sandbox : SameSandbox host plan

/-- What a plan grants and what the host holds have no digest in common but as the same values. -/
structure CollisionFree (S : DigestPlatform) (host : Host) (owner : OwnerRegistration)
    (plan : AgentLaunchPlan) : Prop where
  skills : ∀ current, host.discoverAndProjectSkills plan.preloadSkills = .ok current →
    S.textsSha256 (sortBy id plan.skillTexts) = S.textsSha256 (sortBy id (catalogTexts current)) →
      sortBy id plan.skillTexts = sortBy id (catalogTexts current)
  contextFiles : ∀ current, host.discoverAndProjectContextFiles plan.contextScopes = .ok current →
    S.grantsSha256 (S.byName plan.contextGrants) = S.grantsSha256 (S.byName current) →
      S.byName plan.contextGrants = S.byName current
  fork : ∀ parent current, owner.parent = some parent →
    host.projectForkContext parent = .ok current →
      S.forkSha256 (some current) = S.forkSha256 plan.forkContext → plan.forkContext = some current

/-! ## What the checks say -/

variable {S : DigestPlatform} {host : Host} {owner : OwnerRegistration} {plan : AgentLaunchPlan}

/-- Two lists that are the same once sorted have the same elements. -/
theorem perm_of_sortBy_eq {α : Type} {key : α → JsString} {l m : List α}
    (h : sortBy key l = sortBy key m) : l.Perm m := by
  have hl := List.perm_insertionSort (fun a b => ¬ key b < key a) l
  have hm := List.perm_insertionSort (fun a b => ¬ key b < key a) m
  exact hl.symm.trans ((List.Perm.of_eq h).trans hm)

theorem perm_of_byName_eq {l m : List ResourceGrant} (h : S.byName l = S.byName m) : l.Perm m := by
  have hl := List.perm_insertionSort (fun a b => S.localeCompare a.name b.name ≤ 0) l
  have hm := List.perm_insertionSort (fun a b => S.localeCompare a.name b.name ≤ 0) m
  exact hl.symm.trans ((List.Perm.of_eq h).trans hm)

theorem assertSkillProjection_perm {current : List ProjectedSkill} {u : Unit}
    (hno : CollisionFree S host owner plan)
    (hcurrent : host.discoverAndProjectSkills plan.preloadSkills = .ok current)
    (h : assertSkillProjection S plan current = .ok u) :
    plan.skillTexts.Perm (catalogTexts current) := by
  have hsame := not_not.mp (refuse_eq_ok.mp h)
  exact perm_of_sortBy_eq (hno.skills current hcurrent hsame)

theorem assertContextFileProjection_perm {current : List ResourceGrant} {u : Unit}
    (hno : CollisionFree S host owner plan)
    (hcurrent : host.discoverAndProjectContextFiles plan.contextScopes = .ok current)
    (h : assertContextFileProjection S plan current = .ok u) :
    plan.contextGrants.Perm current := by
  have hsame := not_not.mp (refuse_eq_ok.mp h)
  exact perm_of_byName_eq (hno.contextFiles current hcurrent hsame)

theorem assertForkContext_same {current : ForkContextGrant} {unauthorized changed : JsString}
    (hno : CollisionFree S host owner plan)
    (h : assertForkContext S host owner plan unauthorized changed = .ok current) :
    SameFork host owner plan := by
  intro _
  unfold assertForkContext at h
  cases hp : owner.parent with
  | none =>
    rw [hp] at h
    cases h
  | some parent =>
    rw [hp] at h
    obtain ⟨found, hfound, hrest⟩ := bind_eq_ok.mp h
    obtain ⟨_, hsame, hpure⟩ := bind_eq_ok.mp hrest
    cases hpure
    exact ⟨parent, current, rfl, hfound,
      hno.fork parent current hp hfound (not_not.mp (refuse_eq_ok.mp hsame))⟩

theorem hostToolMap_eq {tools : List HostToolDeclaration}
    {map : JsString → Option HostToolDeclaration} (h : hostToolMap tools = .ok map) :
    map = fun name => tools.find? fun declaration => declaration.name = name := by
  obtain ⟨-, -, hpure⟩ := bind_eq_ok.mp h
  cases hpure
  rfl

/-- The host tools that are not names of the implementation have the digests of their grants. -/
theorem assertHostToolProjection_same {map : JsString → Option HostToolDeclaration} {u : Unit}
    (hmap : hostToolMap host.hostTools = .ok map)
    (h : assertHostToolProjection plan map = .ok u) :
    SameTools S host plan fun tool => tool ∉ implementedTools := by
  intro tool htool hname
  have hchanged := List.find?_eq_none.mp (refuseFound_eq_ok.mp h) tool htool
  rw [hostToolMap_eq hmap] at hchanged
  unfold hostToolChanged at hchanged
  cases hd : host.hostTools.find? fun declaration => declaration.name = tool with
  | none => simp [hd, hname] at hchanged
  | some declaration =>
    simp only [hd, hname, not_false_eq_true, decide_true, Bool.true_and, Option.all_some,
      decide_eq_true_eq, not_or, ne_eq, not_not] at hchanged
    obtain ⟨grant, hgrant, hsha⟩ := Option.map_eq_some_iff.mp hchanged.2
    refine ⟨grant, hgrant, ?_⟩
    simp only [Host.toolSha256, toolResource, hd, hsha]
    rfl

/-- The file of a definition whose source is a path has its digest. -/
theorem assertFileDigest_sha256 {agent : AgentDefinition} {message : JsString} {u : Unit}
    (h : assertFileDigest host agent message = .ok u) (hpath : isAbsolute agent.source = true) :
    (host.digestFileResource agent.source).toOption.map ResourceDigest.sha256 =
      some agent.sha256 := by
  unfold assertFileDigest at h
  rw [if_pos hpath] at h
  obtain ⟨digest, hdigest, hsame⟩ := bind_eq_ok.mp h
  rw [hdigest]
  exact congrArg some (not_not.mp (refuse_eq_ok.mp hsame))

/-- A definition whose source is no path comes from the definitions of the service. -/
theorem resolveRequestedAgent_agents {name : JsString} {roots : Option (List JsString)}
    {agent : AgentDefinition} (h : host.resolveRequestedAgent name roots = .ok (some agent))
    (hpath : isAbsolute agent.source = false) : host.agents name = some agent := by
  unfold Host.resolveRequestedAgent at h
  dsimp only at h
  split at h
  · cases h
  · split at h
    · exact Except.ok.inj h
    · obtain ⟨supplied, hsupplied, hpure⟩ := bind_eq_ok.mp h
      have hor : (supplied name).or (host.agents name) = some agent := Except.ok.inj hpure
      rcases Option.or_eq_some_iff.mp hor with hfound | ⟨-, hagents⟩
      · have habsolute := host.discovered_isAbsolute _ supplied name agent hsupplied hfound
        rw [hpath] at habsolute
        cases habsolute
      · exact hagents

end Preflight

end PiSubagent
