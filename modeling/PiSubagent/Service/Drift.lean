import PiSubagent.Lib.Runs
import PiSubagent.Preflight.Narrowing
import PiSubagent.Preflight.Projections
import PiSubagent.Service.RunSteps

/-!
# Attempts under the plan that was approved

* `preflight`: the plan of a request on a host, and what is remembered for the launch.
* `launch`, `retry`, `resume`: what each compares again before it invokes the executor.
* `Attempt.check`: what the executor compares before it begins.
* `Seat`, `step`: preflights, changes of the host, restarts of the service, and starts.
* **`start_undrifted`**: an invoked executor has an undrifted plan exactly when what its way to
  start never compares has not changed.
* **`start_drifted`**: after a restart on another image a retry invokes the executor.
-/

namespace PiSubagent

open JsonText Preflight

namespace Drift

/-! ## Preflights -/

/-- `deterministicIds`. -/
structure Ids where
  runId : RunId
  attemptId : JsString
  requestSha256 : JsString

/-- `PreparedPreflight`. -/
structure Prepared where
  identitySha256 : JsString
  expiresAt : ℕ
  launchPlan : AgentLaunchPlan
  ownerId : JsString
  requestSha256 : JsString
  agent : AgentDefinition
  agentRoots : Option (List JsString)
  request : Preflight.WorkspaceRequest
  workspace : ResolvedWorkspace
  skills : List ProjectedSkill
  contextFiles : List ResourceGrant
  forkContext : Option ForkContextGrant

/-- The fork context of a request that asks for one. -/
def preflightForkContext (host : Host) (owner : OwnerRegistration)
    (request : Preflight.SubagentRequest) : Except JsString (Option ForkContextGrant) :=
  match request.contextMode, owner.parent with
  | .fresh, _ => .ok none
  | .fork, none => .error (ofString "fork context requires an authorized parent session")
  | .fork, some parent => (host.projectForkContext parent).map some

/-- `preflight`; the sandbox is what `execution` has resolved, now or earlier. -/
def preflight (S : DigestPlatform) (host : Host) (owner : OwnerRegistration) (ids : Ids)
    (ttlMs : ℕ) (execution : Except JsString ResolvedSandbox) (request : Preflight.SubagentRequest) :
    Except JsString Prepared := do
  let found ← host.resolveRequestedAgent request.agent request.agentRoots
  match found with
  | none => .error (ofString "agent not found: " ++ request.agent)
  | some agent =>
    let workspace ← host.preflightWorkspace request.workspace
    let skills ←
      host.discoverAndProjectSkills (agent.preloadSkills ++ request.preloadSkills).eraseDups
    let contextFiles ←
      host.discoverAndProjectContextFiles (agent.contextScopes ++ request.contextScopes).eraseDups
    let forkContext ← preflightForkContext host owner request
    let hostTools ← hostToolMap host.hostTools
    let sandbox ← execution
    let resources ←
      toolResources S agent request host.toolImplementation hostTools skills contextFiles
    let launchPlan ← S.compileLaunchPlan {
      ownerId := owner.id
      runId := ids.runId
      attemptId := ids.attemptId
      request := request
      agent := agent
      resources := resources
      contextResources := contextFiles
      workspace := workspace
      sandbox := sandbox
      forkContext := forkContext
      resolveModel := host.resolveModel
      inheritSessionModel := host.inheritSessionModel
      admitHostModel := host.admitHostModel }
    return {
      identitySha256 := launchPlan.identitySha256
      expiresAt := host.now + ttlMs
      launchPlan := launchPlan
      ownerId := owner.id
      requestSha256 := ids.requestSha256
      agent := agent
      agentRoots := request.agentRoots
      request := request.workspace
      workspace := workspace
      skills := skills
      contextFiles := contextFiles
      forkContext := forkContext }

/-! ## Starts -/

/-- How the stores answer a start: the operation index, the history of the run, its lease and
journal, its session and checkout, its records, and `execution`. -/
structure Stores where
  claimed : Except JsString Unit
  history : Except JsString Unit
  session : Except JsString Unit
  checkout : Except JsString Unit
  opened : Except JsString Unit
  recorded : Except JsString Unit
  execution : Except JsString Unit

/-- What the executor is invoked with. -/
structure Attempt where
  plan : AgentLaunchPlan
  agent : AgentDefinition
  skills : List ProjectedSkill
  contextFiles : List ResourceGrant
  forkContext : Option ForkContextGrant
  hostTools : List HostToolDeclaration

/-- `startAttempt`, up to the executor. -/
def startAttempt (host : Host) (stores : Stores) (input : Attempt) : Except JsString Attempt := do
  stores.opened
  let hostTools ← hostToolMap host.hostTools
  assertHostToolProjection input.plan hostTools
  stores.recorded
  stores.execution
  return { input with hostTools := input.plan.tools.filterMap hostTools }

/-- What a call projects again and compares with the plan. -/
structure Projected where
  skills : List ProjectedSkill
  contextFiles : List ResourceGrant

/-- The skills and the context files that a call looks up again. -/
def projectAgain (S : DigestPlatform) (host : Host) (plan : AgentLaunchPlan) :
    Except JsString Projected := do
  let skills ← host.discoverAndProjectSkills plan.preloadSkills
  assertSkillProjection S plan skills
  let contextFiles ← host.discoverAndProjectContextFiles plan.contextScopes
  assertContextFileProjection S plan contextFiles
  return { skills := skills, contextFiles := contextFiles }

/-- The fork context that a call projects again when the plan has one. -/
def forkAgain (S : DigestPlatform) (host : Host) (owner : OwnerRegistration)
    (plan : AgentLaunchPlan) (unauthorized changed : JsString)
    (otherwise : Option ForkContextGrant) : Except JsString (Option ForkContextGrant) :=
  if plan.contextMode = .fork then
    (assertForkContext S host owner plan unauthorized changed).map some
  else .ok otherwise

/-- The workspace is the one it was. -/
def assertWorkspace (current before : ResolvedWorkspace) (message : JsString) :
    Except JsString Unit :=
  refuse (current.hostPathSha256 ≠ before.hostPathSha256 ∨
    current.baselineSha256 ≠ before.baselineSha256) message

/-- `launch` of a preflight that the owner has; `none` when the run is there already. -/
def launch (S : DigestPlatform) (host : Host) (owner : OwnerRegistration) (stores : Stores)
    (prepared : Prepared) (expectedIdentitySha256 : JsString) (existing : Option JsString) :
    Except JsString (Option Attempt) := do
  let plan := prepared.launchPlan
  refuse (prepared.expiresAt ≤ host.now) (ofString "preflight expired")
  refuse (prepared.identitySha256 ≠ expectedIdentitySha256) (ofString "preflight identity mismatch")
  let found ← host.resolveRequestedAgent prepared.agent.name prepared.agentRoots
  match found with
  | none => .error (ofString "agent changed after preflight")
  | some currentAgent =>
    refuse (currentAgent.source ≠ prepared.agent.source ∨
      currentAgent.sha256 ≠ prepared.agent.sha256) (ofString "agent changed after preflight")
    assertFileDigest host currentAgent (ofString "agent changed after preflight")
    let _ ← host.resolveModel plan.model
    let currentWorkspace ← host.preflightWorkspace prepared.request
    assertWorkspace currentWorkspace prepared.workspace
      (ofString "workspace changed after preflight")
    let projected ← projectAgain S host plan
    let forkContext ← forkAgain S host owner plan
      (ofString "fork context authorization was lost")
      (ofString "fork context changed after preflight") prepared.forkContext
    match existing with
    | some ownerId =>
      refuse (ownerId ≠ owner.id) (ofString "run ownership mismatch")
      return none
    | none =>
      stores.claimed
      let attempt ← startAttempt host stores {
        plan := plan
        agent := prepared.agent
        skills := projected.skills
        contextFiles := projected.contextFiles
        forkContext := forkContext
        hostTools := [] }
      return some attempt

/-- What the service remembers of a run that is settled. -/
structure Run where
  ownerId : JsString
  plan : AgentLaunchPlan
  request : Preflight.WorkspaceRequest
  workspace : ResolvedWorkspace

/-- The text of a refused `retryPlan` or `resumePlan`. -/
def budgetRefusal (kind : String) (left : ℕ) (permitted : Bool) : JsString :=
  if left < 1 then ofString (kind ++ " budget exhausted")
  else if !permitted then ofString ("failure classification does not permit " ++ kind)
  else ofString (kind ++ " run-wide budget exhausted")

/-- `retry`, with the result of the run and the next ordinal. -/
def retry (S : DigestPlatform) (D : RunLife.Planner) (host : Host)
    (owner : OwnerRegistration) (stores : Stores) (run : Run) (r : RunResult) (ordinal : ℕ) :
    Except JsString Attempt := do
  stores.history
  let workspace ← host.preflightWorkspace run.request
  assertWorkspace workspace run.workspace (ofString "workspace changed before retry")
  let agent := host.definition run.plan
  assertFileDigest host agent (ofString "agent changed before retry")
  let _ ← host.resolveModel run.plan.model
  let projected ← projectAgain S host run.plan
  let forkContext ← forkAgain S host owner run.plan
    (ofString "fork retry requires the authorized parent session")
    (ofString "fork context changed before retry") none
  match retryPlan S.toPlatform D run.plan r ordinal with
  | none => .error (budgetRefusal "retry" run.plan.limits.retries
      (RunLife.retryIs r [.manual, .backoff]))
  | some plan =>
    startAttempt host stores {
      plan := plan
      agent := agent
      skills := projected.skills
      contextFiles := projected.contextFiles
      forkContext := forkContext
      hostTools := [] }

/-- `resume`, from the session or at the hand-off. -/
def resume (S : DigestPlatform) (D : RunLife.Planner) (host : Host) (stores : Stores)
    (run : Run) (r : RunResult) (ordinal : ℕ) (continuing : Bool) : Except JsString Attempt := do
  stores.history
  match resumePlan S.toPlatform D run.plan r ordinal continuing with
  | none => .error (budgetRefusal "resume" run.plan.limits.resumes
      (continuing || RunLife.retryIs r [.resume]))
  | some plan =>
    stores.session
    let workspace ← host.preflightWorkspace run.request
    assertWorkspace workspace run.workspace (ofString "workspace changed before resume")
    let agent := host.definition run.plan
    assertFileDigest host agent (ofString "agent changed before resume")
    let _ ← host.resolveModel run.plan.model
    let projected ← projectAgain S host run.plan
    stores.checkout
    -- no fork context is handed over
    startAttempt host stores {
      plan := plan
      agent := agent
      skills := projected.skills
      contextFiles := projected.contextFiles
      forkContext := none
      hostTools := [] }

/-! ## What the executor compares -/

/-- The first host tool that is there twice, not in the plan, or not the one of a grant. -/
def mismatchedTool (plan : AgentLaunchPlan) (seen : List JsString) :
    List HostToolDeclaration → Option JsString
  | [] => none
  | declaration :: rest =>
    if declaration.name ∈ seen ∨ declaration.name ∉ plan.tools ∨
        { kind := .tool, name := declaration.name, source := declaration.source,
          sha256 := declaration.identitySha256 : ResourceGrant } ∉ plan.resources then
      some declaration.name
    else mismatchedTool plan (declaration.name :: seen) rest

/-- The comparisons at the beginning of `runNativeAttempt`. -/
def Attempt.check (S : DigestPlatform) (attempt : Attempt) : Except JsString Unit := do
  let plan := attempt.plan
  let agent := attempt.agent
  refuse (S.planErrors plan ≠ []) (ofString "invalid launch plan")
  refuse (S.verifyLaunchPlanIdentity plan = false) (ofString "launch plan identity mismatch")
  assertContextFileProjection S plan attempt.contextFiles
  refuse (plan.contextMode = .fork ∧ attempt.forkContext = none ∨
      plan.contextMode = .fresh ∧ attempt.forkContext ≠ none ∨
      attempt.forkContext ≠ none ∧
        S.forkSha256 attempt.forkContext ≠ S.forkSha256 plan.forkContext)
    (ofString "fork context projection mismatch")
  refuseFound (mismatchedTool plan [] attempt.hostTools)
    fun name => ofString "host tool identity mismatch: " ++ name
  refuseFound (plan.tools.find? fun name =>
      name ∉ attempt.hostTools.map HostToolDeclaration.name ∧ plan.toolGrant name = none)
    fun name => ofString "missing tool resource: " ++ name
  refuse (agent.name ≠ plan.agent ∨ agent.displayName ≠ plan.agentDisplayName ∨
      agent.prompt ≠ plan.agentPrompt ∨ agent.source ≠ plan.agentSource ∨
      agent.sha256 ≠ plan.agentSha256 ∨ agent.scope ≠ plan.agentScope ∨
      ¬ ∃ resource ∈ plan.resources, resource.kind = .agent ∧ resource.name = agent.name ∧
        resource.sha256 = agent.sha256)
    (ofString "attempt agent identity mismatch")

/-! ## The service over time -/

/-- The host as it is, and what the service remembers. -/
structure Seat where
  host : Host
  preflights : ℕ → Option Prepared
  runs : JsString → Option Run

/-- Before any preflight. -/
def Seat.fresh (host : Host) : Seat := ⟨host, fun _ => none, fun _ => none⟩

/-- The calls that start an attempt. -/
inductive StartCall where
  | launch (preflightId : ℕ) (expectedIdentitySha256 : JsString)
  | retry (runId : JsString) (result : RunResult) (ordinal : ℕ)
  | resume (runId : JsString) (result : RunResult) (ordinal : ℕ) (continuing : Bool)

/-- The ways to an attempt. -/
inductive Way where
  | launch | retry | resume
deriving DecidableEq

/-- The way of a call. -/
def StartCall.way : StartCall → Way
  | .launch _ _ => .launch
  | .retry _ _ _ => .retry
  | .resume _ _ _ _ => .resume

/-- `ownedRun`. -/
def Seat.ownedRun (seat : Seat) (owner : OwnerRegistration) (runId : JsString) :
    Except JsString Run :=
  match seat.runs runId with
  | none => .error (ofString "run not found")
  | some run => if run.ownerId = owner.id then .ok run else .error (ofString "run not found")

/-- A start: refused, answered without an attempt, or with what the executor is invoked with. -/
def Seat.start (S : DigestPlatform) (D : RunLife.Planner) (seat : Seat)
    (owner : OwnerRegistration) (stores : Stores) :
    StartCall → Except JsString (Option Attempt)
  | .launch preflightId expectedIdentitySha256 =>
    match seat.preflights preflightId with
    | none => .error (ofString "preflight not found")
    | some prepared => do
      refuse (prepared.ownerId ≠ owner.id) (ofString "preflight not found")
      launch S seat.host owner stores prepared expectedIdentitySha256
        ((seat.runs prepared.launchPlan.runId.val).map Run.ownerId)
  | .retry runId r ordinal => do
    let run ← seat.ownedRun owner runId
    let attempt ← retry S D seat.host owner stores run r ordinal
    return some attempt
  | .resume runId r ordinal continuing => do
    let run ← seat.ownedRun owner runId
    let attempt ← resume S D seat.host stores run r ordinal continuing
    return some attempt

/-- What the service remembers of a run once its attempt is with the executor. -/
def Seat.remembered (seat : Seat) : StartCall → AgentLaunchPlan → Option Run
  | .launch preflightId _, plan =>
    (seat.preflights preflightId).map fun prepared =>
      ⟨prepared.ownerId, plan, prepared.request, prepared.workspace⟩
  | .retry runId _ _, plan => (seat.runs runId).map fun run => { run with plan := plan }
  | .resume runId _ _ _, plan => (seat.runs runId).map fun run => { run with plan := plan }

/-- What happens. -/
inductive Act where
  /-- Something of the host changes. -/
  | change (host : Host)
  /-- Another build of the service starts up; it has the runs, and no preflight. -/
  | restart (host : Host)
  | preflight (preflightId : ℕ) (owner : OwnerRegistration) (ids : Ids) (ttlMs : ℕ)
    (execution : Except JsString ResolvedSandbox) (request : Preflight.SubagentRequest)
  | start (owner : OwnerRegistration) (stores : Stores) (call : StartCall)

/-- One step. -/
def step (S : DigestPlatform) (D : RunLife.Planner) (seat : Seat) : Act → Option Seat
  | .change host => some { seat with host := host }
  | .restart host => some { seat with host := host, preflights := fun _ => none }
  | .preflight preflightId owner ids ttlMs execution request =>
    match preflight S seat.host owner ids ttlMs execution request with
    | .error _ => some seat
    | .ok prepared =>
      some { seat with preflights := Function.update seat.preflights preflightId (some prepared) }
  | .start owner stores call =>
    match seat.start S D owner stores call with
    | .ok (some attempt) =>
      some { seat with
        runs := Function.update seat.runs attempt.plan.runId.val
          (seat.remembered call attempt.plan) }
    | _ => some seat

/-! ## What no way compares -/

/-- What the service does not compare on a way. -/
structure Unchecked (way : Way) (S : DigestPlatform) (host : Host) (owner : OwnerRegistration)
    (plan : AgentLaunchPlan) : Prop where
  sandbox : SameSandbox host plan
  tools : SameTools S host plan fun tool => tool ∈ implementedTools
  agent : way ≠ .launch → host.agentSha256 plan = some plan.agentSha256
  fork : way = .resume → SameFork host owner plan

/-- What neither the service nor the executor compares on a way. -/
structure Unproved (way : Way) (S : DigestPlatform) (host : Host) (plan : AgentLaunchPlan) :
    Prop where
  sandbox : SameSandbox host plan
  tools : SameTools S host plan fun tool => tool ∈ implementedTools
  agent : way ≠ .launch → isAbsolute plan.agentSource = false → host.agents plan.agent ≠ none

variable {S : DigestPlatform} {D : RunLife.Planner} {host : Host}
  {owner : OwnerRegistration} {stores : Stores}

/-- What every way compares is as the plan has it. -/
structure Compared (S : DigestPlatform) (host : Host) (plan : AgentLaunchPlan) : Prop where
  skills : ∃ current, host.discoverAndProjectSkills plan.preloadSkills = .ok current ∧
    plan.skillTexts.Perm (catalogTexts current)
  contextFiles : ∃ current, host.discoverAndProjectContextFiles plan.contextScopes = .ok current ∧
    plan.contextGrants.Perm current
  tools : SameTools S host plan fun tool => tool ∉ implementedTools

theorem Compared.undrifted_iff {plan : AgentLaunchPlan} (h : Compared S host plan) :
    Undrifted S host owner plan ↔
      SameSandbox host plan ∧ (SameTools S host plan fun tool => tool ∈ implementedTools) ∧
        host.agentSha256 plan = some plan.agentSha256 ∧ SameFork host owner plan := by
  constructor
  · intro hu
    exact ⟨hu.sandbox, fun tool htool _ => hu.tools tool htool trivial, hu.agent, hu.fork⟩
  · rintro ⟨hsandbox, htools, hagent, hfork⟩
    refine ⟨hagent, h.skills, h.contextFiles, hfork, ?_, hsandbox⟩
    intro tool htool _
    by_cases himpl : tool ∈ implementedTools
    · exact htools tool htool himpl
    · exact h.tools tool htool himpl

theorem projectAgain_same {plan : AgentLaunchPlan} {projected : Projected}
    (hno : CollisionFree S host owner plan) (h : projectAgain S host plan = .ok projected) :
    (∃ current, host.discoverAndProjectSkills plan.preloadSkills = .ok current ∧
        plan.skillTexts.Perm (catalogTexts current)) ∧
      ∃ current, host.discoverAndProjectContextFiles plan.contextScopes = .ok current ∧
        plan.contextGrants.Perm current := by
  unfold projectAgain at h
  obtain ⟨skills, hskills, h⟩ := bind_eq_ok.mp h
  obtain ⟨_, hsame, h⟩ := bind_eq_ok.mp h
  obtain ⟨files, hfiles, h⟩ := bind_eq_ok.mp h
  obtain ⟨_, hsame', -⟩ := bind_eq_ok.mp h
  exact ⟨⟨skills, hskills, assertSkillProjection_perm hno hskills hsame⟩,
    ⟨files, hfiles, assertContextFileProjection_perm hno hfiles hsame'⟩⟩

theorem startAttempt_same {input attempt : Attempt}
    (h : startAttempt host stores input = .ok attempt) :
    attempt.plan = input.plan ∧ attempt.agent = input.agent ∧
      attempt.forkContext = input.forkContext ∧
        SameTools S host input.plan fun tool => tool ∉ implementedTools := by
  unfold startAttempt at h
  obtain ⟨_, -, h⟩ := bind_eq_ok.mp h
  obtain ⟨map, hmap, h⟩ := bind_eq_ok.mp h
  obtain ⟨_, hsame, h⟩ := bind_eq_ok.mp h
  obtain ⟨_, -, h⟩ := bind_eq_ok.mp h
  obtain ⟨_, -, h⟩ := bind_eq_ok.mp h
  cases h
  exact ⟨rfl, rfl, rfl, assertHostToolProjection_same hmap hsame⟩

/-- The definition that was approved is the one that the plan names. -/
structure Prepared.Approved (prepared : Prepared) : Prop where
  name : prepared.launchPlan.agent = prepared.agent.name
  source : prepared.launchPlan.agentSource = prepared.agent.source
  sha256 : prepared.launchPlan.agentSha256 = prepared.agent.sha256

/-- What a plan says of a definition that has been looked up again. -/
theorem agentSha256_of_same {plan : AgentLaunchPlan} {agent : AgentDefinition} {message : JsString}
    {u : Unit} (hsource : agent.source = plan.agentSource) (hsha : agent.sha256 = plan.agentSha256)
    (hfile : assertFileDigest host agent message = .ok u)
    (hagents : isAbsolute plan.agentSource = false → host.agents plan.agent = some agent) :
    host.agentSha256 plan = some plan.agentSha256 := by
  unfold Host.agentSha256
  cases hpath : isAbsolute plan.agentSource with
  | true =>
    rw [if_pos rfl, ← hsource, ← hsha]
    exact assertFileDigest_sha256 hfile (hsource ▸ hpath)
  | false =>
    rw [if_neg (by decide), hagents hpath, ← hsha]
    rfl

theorem CollisionFree.forAttempt {plan : AgentLaunchPlan}
    {next : RunLife.Plan}
    (h : CollisionFree S host owner (plan.forAttempt S.toPlatform next)) :
    CollisionFree S host owner plan := ⟨h.skills, h.contextFiles, h.fork⟩

theorem definition_of_some {plan : AgentLaunchPlan} {agent : AgentDefinition}
    (h : host.agents plan.agent = some agent) : host.definition plan = agent := by
  unfold Host.definition
  rw [h]
  rfl

theorem forkAgain_same {plan : AgentLaunchPlan} {unauthorized changed : JsString}
    {otherwise fork : Option ForkContextGrant} (hno : CollisionFree S host owner plan)
    (h : forkAgain S host owner plan unauthorized changed otherwise = .ok fork) :
    SameFork host owner plan := by
  intro hmode
  unfold forkAgain at h
  rw [if_pos hmode] at h
  cases hforked : assertForkContext S host owner plan unauthorized changed with
  | error e =>
    rw [hforked] at h
    cases h
  | ok current => exact assertForkContext_same hno hforked hmode

/-- **What a launch that invokes the executor has compared**: everything but the sandbox and the
implementation. -/
theorem launch_spec {prepared : Prepared} {expected : JsString} {existing : Option JsString}
    {attempt : Attempt} (happroved : prepared.Approved)
    (hno : CollisionFree S host owner attempt.plan)
    (h : launch S host owner stores prepared expected existing = .ok (some attempt)) :
    Compared S host attempt.plan ∧
      host.agentSha256 attempt.plan = some attempt.plan.agentSha256 ∧
        SameFork host owner attempt.plan := by
  unfold launch at h
  dsimp only at h
  obtain ⟨_, -, h⟩ := bind_eq_ok.mp h
  obtain ⟨_, -, h⟩ := bind_eq_ok.mp h
  obtain ⟨found, hfound, h⟩ := bind_eq_ok.mp h
  cases found with
  | none => cases h
  | some agent =>
    obtain ⟨_, hsame, h⟩ := bind_eq_ok.mp h
    obtain ⟨_, hfile, h⟩ := bind_eq_ok.mp h
    obtain ⟨_, -, h⟩ := bind_eq_ok.mp h
    obtain ⟨_, -, h⟩ := bind_eq_ok.mp h
    obtain ⟨_, -, h⟩ := bind_eq_ok.mp h
    obtain ⟨projected, hprojected, h⟩ := bind_eq_ok.mp h
    obtain ⟨fork, hfork, h⟩ := bind_eq_ok.mp h
    have hagent := not_or.mp (refuse_eq_ok.mp hsame)
    have hsource := (not_not.mp hagent.1).trans happroved.source.symm
    have hsha := (not_not.mp hagent.2).trans happroved.sha256.symm
    have hcurrent : host.agentSha256 prepared.launchPlan =
        some prepared.launchPlan.agentSha256 := by
      refine agentSha256_of_same hsource hsha hfile ?_
      intro hpath
      rw [happroved.name]
      exact resolveRequestedAgent_agents hfound (hsource ▸ hpath)
    cases existing with
    | some ownerId =>
      obtain ⟨_, -, h⟩ := bind_eq_ok.mp h
      cases h
    | none =>
      obtain ⟨_, -, h⟩ := bind_eq_ok.mp h
      obtain ⟨attempt', hattempt, h⟩ := bind_eq_ok.mp h
      cases h
      obtain ⟨hplan, -, -, htools⟩ := startAttempt_same (S := S) hattempt
      rw [hplan] at hno ⊢
      obtain ⟨hskills, hfiles⟩ := projectAgain_same hno hprojected
      exact ⟨⟨hskills, hfiles, htools⟩, hcurrent, forkAgain_same hno hfork⟩

theorem retryPlan_eq {P : Platform} {current plan : AgentLaunchPlan} {r : RunResult} {ordinal : ℕ}
    (h : retryPlan P D current r ordinal = some plan) : ∃ next, plan = current.forAttempt P next := by
  obtain ⟨next, -, rfl⟩ := Option.map_eq_some_iff.mp h
  exact ⟨next, rfl⟩

theorem resumePlan_eq {P : Platform} {current plan : AgentLaunchPlan} {r : RunResult} {ordinal : ℕ}
    {continuing : Bool} (h : resumePlan P D current r ordinal continuing = some plan) :
    ∃ next, plan = current.forAttempt P next := by
  obtain ⟨next, -, rfl⟩ := Option.map_eq_some_iff.mp h
  exact ⟨next, rfl⟩

/-- **What a retry that invokes the executor has compared**: not the definition. -/
theorem retry_spec {run : Run} {r : RunResult} {ordinal : ℕ} {attempt : Attempt}
    (hno : CollisionFree S host owner attempt.plan)
    (h : retry S D host owner stores run r ordinal = .ok attempt) :
    Compared S host attempt.plan ∧ SameFork host owner attempt.plan ∧
      (∀ agent, host.agents attempt.plan.agent = some agent → attempt.agent = agent) ∧
        ∃ message, assertFileDigest host attempt.agent message = .ok () := by
  unfold retry at h
  dsimp only at h
  obtain ⟨_, -, h⟩ := bind_eq_ok.mp h
  obtain ⟨_, -, h⟩ := bind_eq_ok.mp h
  obtain ⟨_, -, h⟩ := bind_eq_ok.mp h
  obtain ⟨_, hfile, h⟩ := bind_eq_ok.mp h
  obtain ⟨_, -, h⟩ := bind_eq_ok.mp h
  obtain ⟨projected, hprojected, h⟩ := bind_eq_ok.mp h
  obtain ⟨fork, hfork, h⟩ := bind_eq_ok.mp h
  cases hplan : retryPlan S.toPlatform D run.plan r ordinal with
  | none =>
    rw [hplan] at h
    cases h
  | some plan =>
    rw [hplan] at h
    obtain ⟨next, rfl⟩ := retryPlan_eq hplan
    obtain ⟨heq, hagent, -, htools⟩ := startAttempt_same (S := S) h
    rw [heq] at hno ⊢
    have hagent : attempt.agent = host.definition run.plan := hagent
    rw [← hagent] at hfile
    obtain ⟨hskills, hfiles⟩ := projectAgain_same (CollisionFree.forAttempt hno) hprojected
    refine ⟨⟨hskills, hfiles, htools⟩, forkAgain_same (CollisionFree.forAttempt hno) hfork, ?_, _, hfile⟩
    exact fun agent hfound => hagent.trans (definition_of_some hfound)

/-- **What a resume that invokes the executor has compared**: neither the definition nor the fork
context, which it does not hand over. -/
theorem resume_spec {run : Run} {r : RunResult} {ordinal : ℕ} {continuing : Bool}
    {attempt : Attempt} (hno : CollisionFree S host owner attempt.plan)
    (h : resume S D host stores run r ordinal continuing = .ok attempt) :
    Compared S host attempt.plan ∧ attempt.forkContext = none ∧
      (∀ agent, host.agents attempt.plan.agent = some agent → attempt.agent = agent) ∧
        ∃ message, assertFileDigest host attempt.agent message = .ok () := by
  unfold resume at h
  dsimp only at h
  obtain ⟨_, -, h⟩ := bind_eq_ok.mp h
  cases hplan : resumePlan S.toPlatform D run.plan r ordinal continuing with
  | none =>
    rw [hplan] at h
    cases h
  | some plan =>
    rw [hplan] at h
    obtain ⟨_, -, h⟩ := bind_eq_ok.mp h
    obtain ⟨_, -, h⟩ := bind_eq_ok.mp h
    obtain ⟨_, -, h⟩ := bind_eq_ok.mp h
    obtain ⟨_, hfile, h⟩ := bind_eq_ok.mp h
    obtain ⟨_, -, h⟩ := bind_eq_ok.mp h
    obtain ⟨projected, hprojected, h⟩ := bind_eq_ok.mp h
    obtain ⟨_, -, h⟩ := bind_eq_ok.mp h
    obtain ⟨next, rfl⟩ := resumePlan_eq hplan
    obtain ⟨heq, hagent, hfork, htools⟩ := startAttempt_same (S := S) h
    rw [heq] at hno ⊢
    have hagent : attempt.agent = host.definition run.plan := hagent
    rw [← hagent] at hfile
    obtain ⟨hskills, hfiles⟩ := projectAgain_same (CollisionFree.forAttempt hno) hprojected
    refine ⟨⟨hskills, hfiles, htools⟩, hfork, ?_, _, hfile⟩
    exact fun agent hfound => hagent.trans (definition_of_some hfound)

/-- What the service has left on a way that compares the definition at launch and the fork context
but on resume. -/
theorem Compared.unchecked_iff {plan : AgentLaunchPlan} {way : Way} (h : Compared S host plan)
    (hagent : way = .launch → host.agentSha256 plan = some plan.agentSha256)
    (hfork : way ≠ .resume → SameFork host owner plan) :
    Undrifted S host owner plan ↔ Unchecked way S host owner plan := by
  rw [h.undrifted_iff]
  constructor
  · rintro ⟨hsandbox, htools, hsha, hsame⟩
    exact ⟨hsandbox, htools, fun _ => hsha, fun _ => hsame⟩
  · rintro ⟨hsandbox, htools, hsha, hsame⟩
    refine ⟨hsandbox, htools, ?_, ?_⟩
    · by_cases hway : way = .launch
      · exact hagent hway
      · exact hsha hway
    · by_cases hway : way = .resume
      · exact hsame hway
      · exact hfork hway

/-- What is left once the executor has compared the definition and the fork context. -/
theorem Compared.unproved_iff {plan : AgentLaunchPlan} {way : Way} (h : Compared S host plan)
    (hlaunch : way = .launch → host.agentSha256 plan = some plan.agentSha256)
    (hagent : way ≠ .launch → (host.agentSha256 plan = some plan.agentSha256 ↔
      (isAbsolute plan.agentSource = false → host.agents plan.agent ≠ none)))
    (hfork : SameFork host owner plan) :
    Undrifted S host owner plan ↔ Unproved way S host plan := by
  rw [h.undrifted_iff]
  constructor
  · rintro ⟨hsandbox, htools, hsha, -⟩
    exact ⟨hsandbox, htools, fun hway => (hagent hway).mp hsha⟩
  · rintro ⟨hsandbox, htools, hfound⟩
    refine ⟨hsandbox, htools, ?_, hfork⟩
    by_cases hway : way = .launch
    · exact hlaunch hway
    · exact (hagent hway).mpr (hfound hway)

theorem Attempt.check_spec {attempt : Attempt} (h : attempt.check S = .ok ()) :
    (attempt.plan.contextMode = .fork → attempt.forkContext ≠ none) ∧
      attempt.agent.source = attempt.plan.agentSource ∧
        attempt.agent.sha256 = attempt.plan.agentSha256 := by
  unfold Attempt.check at h
  dsimp only at h
  obtain ⟨_, -, h⟩ := bind_eq_ok.mp h
  obtain ⟨_, -, h⟩ := bind_eq_ok.mp h
  obtain ⟨_, -, h⟩ := bind_eq_ok.mp h
  obtain ⟨_, hfork, h⟩ := bind_eq_ok.mp h
  obtain ⟨_, -, h⟩ := bind_eq_ok.mp h
  obtain ⟨_, -, h⟩ := bind_eq_ok.mp h
  have hagent := refuse_eq_ok.mp h
  have hmode := refuse_eq_ok.mp hfork
  simp only [not_or, not_and, not_not, ne_eq] at hagent hmode
  exact ⟨hmode.1, hagent.2.2.2.1, hagent.2.2.2.2.1⟩

/-- The definition of a derived plan, which the executor has compared, is the current one unless it
is neither a file nor there. -/
theorem agentSha256_iff {attempt : Attempt} {message : JsString}
    (hcheck : attempt.check S = .ok ())
    (hfound : ∀ agent, host.agents attempt.plan.agent = some agent → attempt.agent = agent)
    (hfile : assertFileDigest host attempt.agent message = .ok ()) :
    host.agentSha256 attempt.plan = some attempt.plan.agentSha256 ↔
      (isAbsolute attempt.plan.agentSource = false → host.agents attempt.plan.agent ≠ none) := by
  obtain ⟨-, hsource, hsha⟩ := Attempt.check_spec hcheck
  constructor
  · intro hcurrent hpath hnone
    unfold Host.agentSha256 at hcurrent
    rw [hpath, if_neg (by decide), hnone] at hcurrent
    cases hcurrent
  · intro hthere
    refine agentSha256_of_same hsource hsha hfile ?_
    intro hpath
    obtain ⟨agent, hagent⟩ := Option.ne_none_iff_exists'.mp (hthere hpath)
    rw [hfound agent hagent]
    exact hagent

/-! ## Runs -/

/-- The preflights of a service have the definitions that their plans name. -/
def Seat.Approved (seat : Seat) : Prop :=
  ∀ preflightId prepared, seat.preflights preflightId = some prepared → prepared.Approved

theorem preflight_approved {ids : Ids} {ttlMs : ℕ} {execution : Except JsString ResolvedSandbox}
    {request : Preflight.SubagentRequest} {prepared : Prepared}
    (h : preflight S host owner ids ttlMs execution request = .ok prepared) :
    prepared.Approved := by
  unfold preflight at h
  obtain ⟨found, -, h⟩ := bind_eq_ok.mp h
  cases found with
  | none => cases h
  | some agent =>
    obtain ⟨_, -, h⟩ := bind_eq_ok.mp h
    obtain ⟨_, -, h⟩ := bind_eq_ok.mp h
    obtain ⟨_, -, h⟩ := bind_eq_ok.mp h
    obtain ⟨_, -, h⟩ := bind_eq_ok.mp h
    obtain ⟨_, -, h⟩ := bind_eq_ok.mp h
    obtain ⟨_, -, h⟩ := bind_eq_ok.mp h
    obtain ⟨_, -, h⟩ := bind_eq_ok.mp h
    obtain ⟨plan, hplan, h⟩ := bind_eq_ok.mp h
    cases h
    have hcompiled := (compileLaunchPlan_accepted hplan).compiled
    exact ⟨congrArg (fun p => p.agent) hcompiled, congrArg (fun p => p.agentSource) hcompiled,
      congrArg (fun p => p.agentSha256) hcompiled⟩

theorem approved_step {seat next : Seat} {act : Act} (h : seat.Approved)
    (hstep : step S D seat act = some next) : next.Approved := by
  cases act with
  | change host =>
    cases hstep
    exact h
  | restart host =>
    cases hstep
    exact fun _ _ hp => nomatch hp
  | preflight preflightId owner ids ttlMs execution request =>
    simp only [step] at hstep
    split at hstep
    · cases hstep
      exact h
    · next prepared hprepared =>
      cases hstep
      intro id other hother
      by_cases hid : id = preflightId
      · subst hid
        have hself := (Function.update_self id (some prepared) seat.preflights).symm.trans hother
        cases hself
        exact preflight_approved hprepared
      · exact h id other ((Function.update_of_ne hid _ _).symm.trans hother)
  | start owner stores call =>
    simp only [step] at hstep
    split at hstep
    · cases hstep
      exact h
    · cases hstep
      exact h

/-- **An invoked executor has an undrifted plan exactly when what its way to start never compares
has not changed**: for the service alone, and with what the executor compares itself. -/
theorem start_undrifted (S : DigestPlatform) (D : RunLife.Planner) (host : Host)
    (as : List Act) (seat : Seat)
    (hrun : Runs.exec (step S D) (Seat.fresh host) as = some seat) (owner : OwnerRegistration)
    (stores : Stores) (call : StartCall) (attempt : Attempt)
    (hstart : seat.start S D owner stores call = .ok (some attempt))
    (hno : CollisionFree S seat.host owner attempt.plan) :
    (Undrifted S seat.host owner attempt.plan ↔
        Unchecked call.way S seat.host owner attempt.plan) ∧
      (attempt.check S = .ok () →
        (Undrifted S seat.host owner attempt.plan ↔
          Unproved call.way S seat.host attempt.plan)) := by
  have happroved : seat.Approved :=
    Runs.exec_preserves Seat.Approved (fun _ _ _ h hs => approved_step h hs)
      (fun _ _ hp => by cases hp) hrun
  cases call with
  | launch preflightId expected =>
    simp only [Seat.start] at hstart
    cases hprepared : seat.preflights preflightId with
    | none =>
      rw [hprepared] at hstart
      cases hstart
    | some prepared =>
      rw [hprepared] at hstart
      obtain ⟨_, -, hstart⟩ := bind_eq_ok.mp hstart
      obtain ⟨hcompared, hagent, hfork⟩ :=
        launch_spec (happroved preflightId prepared hprepared) hno hstart
      exact ⟨hcompared.unchecked_iff (fun _ => hagent) (fun _ => hfork),
        fun _ => hcompared.unproved_iff (fun _ => hagent) (fun hway => absurd rfl hway) hfork⟩
  | retry runId r ordinal =>
    obtain ⟨run, -, hstart⟩ := bind_eq_ok.mp hstart
    obtain ⟨found, hretry, hpure⟩ := bind_eq_ok.mp hstart
    cases hpure
    obtain ⟨hcompared, hfork, hfound, message, hfile⟩ := retry_spec hno hretry
    exact ⟨hcompared.unchecked_iff (fun hway => by cases hway) (fun _ => hfork),
      fun hcheck => hcompared.unproved_iff (fun hway => by cases hway)
        (fun _ => agentSha256_iff hcheck hfound hfile) hfork⟩
  | resume runId r ordinal continuing =>
    obtain ⟨run, -, hstart⟩ := bind_eq_ok.mp hstart
    obtain ⟨found, hresume, hpure⟩ := bind_eq_ok.mp hstart
    cases hpure
    obtain ⟨hcompared, hnone, hfound, message, hfile⟩ := resume_spec hno hresume
    refine ⟨hcompared.unchecked_iff (fun hway => by cases hway) (fun hway => absurd rfl hway), ?_⟩
    intro hcheck
    have hfork : SameFork seat.host owner attempt.plan :=
      fun hmode => absurd hnone ((Attempt.check_spec hcheck).1 hmode)
    exact hcompared.unproved_iff (fun hway => by cases hway)
      (fun _ => agentSha256_iff hcheck hfound hfile) hfork

/-! ## A worker on two images -/

/-- Digests that are all the same; what the worker's plan compares is the same too. -/
def plainDigests : DigestPlatform where
  toPlatform := plainPlatform
  textsSha256 := fun _ => List.replicate 64 97
  forkSha256 := fun _ => List.replicate 64 97
  toolSha256 := fun _ _ => List.replicate 64 98

/-- A host with the worker, and an image. -/
def workerHost (image : JsString) : Host where
  now := 0
  agents := fun name => if name = ofString "worker" then some workerAgent else none
  discoverAgents := fun _ => .ok fun _ => none
  discovered_isAbsolute := by
    intro roots found name agent hfound hagent
    cases hfound
    cases hagent
  digestFileResource := fun path => .ok ⟨path, List.replicate 64 97⟩
  resolveModel := .ok
  inheritSessionModel := none
  admitHostModel := none
  preflightWorkspace := fun request =>
    .ok { (workerLaunch none).workspace with mode := request.mode, startAt := request.startAt }
  discoverAndProjectSkills := fun _ => .ok []
  discoverAndProjectContextFiles := fun _ => .ok []
  hostTools := []
  toolImplementation := ⟨ofString "/dist/sandbox/tools.js", List.replicate 64 98⟩
  sandbox := .ok { (workerLaunch none).sandbox with imageSha256 := image }
  projectForkContext := fun _ => .error (ofString "parent session identity mismatch")

/-- The image that the plan was approved on. -/
def approvedImage : JsString := List.replicate 64 97

/-- Another image. -/
def otherImage : JsString := List.replicate 64 99

/-- The owner of the worker. -/
def workerOwner : OwnerRegistration := ⟨ofString "owner-1", none⟩

/-- The stores answer. -/
def readyStores : Stores :=
  ⟨.ok (), .ok (), .ok (), .ok (), .ok (), .ok (), .ok ()⟩

/-- The preflight of the worker. -/
def workerPreflight : Act :=
  .preflight 0 workerOwner
    ⟨(workerLaunch none).runId, (workerLaunch none).attemptId, List.replicate 64 100⟩ 300000
    (workerHost approvedImage).sandbox (workerLaunch (some 50000)).request

/-- The launch of the worker. -/
def workerStart : StartCall := .launch 0 (List.replicate 64 98)

/-- The retry of the worker. -/
def workerRetry : StartCall :=
  .retry (ofString "run_preflight") (RunLife.failedResult .notNeeded) 1

/-- The worker is launched, and the service is up again on an image. -/
def restartedOn (image : JsString) : List Act :=
  [workerPreflight, .start workerOwner readyStores workerStart, .restart (workerHost image)]

/-- Nothing collides for the worker: neither it nor its host has skills or context files. -/
theorem worker_collisionFree {image : JsString} {plan : AgentLaunchPlan}
    (hskills : plan.skillTexts = []) (hcontext : plan.contextGrants = []) :
    CollisionFree plainDigests (workerHost image) workerOwner plan := by
  refine ⟨?_, ?_, ?_⟩
  · intro current hcurrent _
    cases hcurrent
    rw [hskills]
    rfl
  · intro current hcurrent _
    cases hcurrent
    rw [hcontext]
  · intro parent current hparent
    cases hparent

/-- What a retry of the worker on an image hands over. -/
def retriedOn (image : JsString) (P : AgentLaunchPlan → Bool) : Bool :=
  (Runs.exec (step plainDigests RunLife.sameDigest) (Seat.fresh (workerHost approvedImage))
      (restartedOn image)).any fun seat =>
    match seat.start plainDigests RunLife.sameDigest workerOwner readyStores workerRetry with
    | .ok (some attempt) =>
      attempt.plan.skillTexts = [] && attempt.plan.contextGrants = [] && P attempt.plan
    | _ => false

/-- A retry that hands its plan over, with the host and the digests it has. -/
theorem of_retriedOn {image : JsString} {P : AgentLaunchPlan → Bool}
    (h : retriedOn image P = true) : ∃ seat attempt,
      Runs.exec (step plainDigests RunLife.sameDigest) (Seat.fresh (workerHost approvedImage))
        (restartedOn image) = some seat ∧
      seat.start plainDigests RunLife.sameDigest workerOwner readyStores workerRetry =
        .ok (some attempt) ∧
      seat.host = workerHost image ∧
      CollisionFree plainDigests (workerHost image) workerOwner attempt.plan ∧
      P attempt.plan = true := by
  obtain ⟨seat, hseat, hstart⟩ := (Option.any_eq_true _ _).mp h
  have hhost : seat.host = workerHost image := by
    have hlast : Runs.exec (step plainDigests RunLife.sameDigest)
        (Seat.fresh (workerHost approvedImage))
        ([workerPreflight, .start workerOwner readyStores workerStart] ++
          [.restart (workerHost image)]) = some seat := hseat
    obtain ⟨before, -, hrestart⟩ := Runs.exec_concat_eq_some.mp hlast
    cases hrestart
    rfl
  split at hstart
  · next attempt hattempt =>
    simp only [Bool.and_eq_true, decide_eq_true_eq] at hstart
    obtain ⟨⟨hskills, hcontext⟩, hP⟩ := hstart
    exact ⟨seat, attempt, hseat, hattempt, hhost, worker_collisionFree hskills hcontext, hP⟩
  · cases hstart

/-- After a restart on the same image the plan of a retry is undrifted. -/
theorem start_undrifted_worker : ∃ seat attempt,
    Runs.exec (step plainDigests RunLife.sameDigest) (Seat.fresh (workerHost approvedImage))
      (restartedOn approvedImage) = some seat ∧
    seat.start plainDigests RunLife.sameDigest workerOwner readyStores workerRetry =
      .ok (some attempt) ∧
    Undrifted plainDigests seat.host workerOwner attempt.plan := by
  have h : retriedOn approvedImage (fun plan =>
      plan.sandbox.toResolvedSandbox = (workerLaunch none).sandbox &&
        plan.tools.all (fun tool => (plan.toolGrant tool).any fun grant =>
          (workerHost approvedImage).toolSha256 plainDigests tool = some grant.sha256) &&
        (workerHost approvedImage).agentSha256 plan = some plan.agentSha256) = true := by
    decide +kernel
  obtain ⟨seat, attempt, hseat, hstart, hhost, hno, hplan⟩ := of_retriedOn h
  simp only [Bool.and_eq_true, decide_eq_true_eq, List.all_eq_true, Option.any_eq_true] at hplan
  obtain ⟨⟨hsandbox, htools⟩, hagent⟩ := hplan
  rw [← hhost] at hno
  refine ⟨seat, attempt, hseat, hstart,
    (start_undrifted _ _ _ _ seat hseat _ _ _ attempt hstart hno).1.mpr ⟨?_, ?_, ?_, ?_⟩⟩
  · rw [hhost]
    refine ⟨_, rfl, ?_⟩
    rw [hsandbox]
    exact ⟨rfl, rfl, rfl, rfl, rfl⟩
  · intro tool htool _
    rw [hhost]
    exact htools tool htool
  · intro _
    rw [hhost]
    exact hagent
  · exact fun hway => nomatch hway

/-- **A retry after a restart on another image** invokes the executor with a drifted plan. -/
theorem start_drifted :
    ¬ ∀ (S : DigestPlatform) (D : RunLife.Planner) (host : Host) (as : List Act)
        (seat : Seat) (owner : OwnerRegistration) (stores : Stores) (call : StartCall)
        (attempt : Attempt),
      Runs.exec (step S D) (Seat.fresh host) as = some seat →
        CollisionFree S seat.host owner attempt.plan →
          seat.start S D owner stores call = .ok (some attempt) →
            Undrifted S seat.host owner attempt.plan := by
  intro hall
  have h : retriedOn otherImage (fun plan => plan.sandbox.imageSha256 = approvedImage) = true := by
    decide +kernel
  obtain ⟨seat, attempt, hseat, hstart, hhost, hno, hplan⟩ := of_retriedOn h
  rw [← hhost] at hno
  obtain ⟨current, hcurrent, himage, -⟩ :=
    (hall _ _ _ _ seat _ _ _ attempt hseat hno hstart).sandbox
  rw [hhost] at hcurrent
  cases hcurrent
  rw [of_decide_eq_true hplan] at himage
  exact absurd himage (by decide)

end Drift

end PiSubagent
