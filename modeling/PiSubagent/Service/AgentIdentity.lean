import PiSubagent.Service.Drift

/-!
# The agent of a later attempt

A retry or a resume looks the definition of its agent up by name, in what the service has discovered,
and takes the plan's own copy where there is none. It compares the file of what it has found; the
executor compares the rest with the plan, once the attempt has been created.

* `Recorded`: a definition is the one that a plan records.
* `asRecorded`: the host with the recorded definition alone; **`retry_iff`**, **`resume_iff`**:
  a call that is not refused for the agent goes on as on that host.
* `KeepsAgent`: what is claimed of a call; `AgentKept`: what the lookup finds.
* **`agentIdentity`**: a call keeps the agent exactly when its lookup does.
-/

namespace PiSubagent

open JsonText Preflight

namespace Drift.AgentIdentity

/-! ## The recorded definition -/

/-- A definition is the one that a plan records. -/
structure Recorded (agent : AgentDefinition) (plan : AgentLaunchPlan) : Prop where
  name : agent.name = plan.agent
  displayName : agent.displayName = plan.agentDisplayName
  prompt : agent.prompt = plan.agentPrompt
  source : agent.source = plan.agentSource
  sha256 : agent.sha256 = plan.agentSha256
  scope : agent.scope = plan.agentScope

theorem recorded_agentFromPlan (plan : AgentLaunchPlan) : Recorded (agentFromPlan plan) plan :=
  ⟨rfl, rfl, rfl, rfl, rfl, rfl⟩

/-- The plan grants its agent. -/
def GrantsAgent (plan : AgentLaunchPlan) : Prop :=
  ∃ resource ∈ plan.resources, resource.kind = .agent ∧ resource.name = plan.agent ∧
    resource.sha256 = plan.agentSha256

/-- Two plans record the same definition. -/
def SameAgent (plan other : AgentLaunchPlan) : Prop :=
  plan.agent = other.agent ∧ plan.agentDisplayName = other.agentDisplayName ∧
    plan.agentPrompt = other.agentPrompt ∧ plan.agentSource = other.agentSource ∧
    plan.agentSha256 = other.agentSha256 ∧ plan.agentScope = other.agentScope

/-- What the executor compares of the agent. -/
def comparesAgent (attempt : Attempt) : Prop :=
  Recorded attempt.agent attempt.plan ∧ ∃ resource ∈ attempt.plan.resources,
    resource.kind = .agent ∧ resource.name = attempt.agent.name ∧
      resource.sha256 = attempt.agent.sha256

variable {S : DigestPlatform} {D : RunLife.Planner} {host : Host}
  {owner : OwnerRegistration} {stores : Stores}

/-! ## The file of a definition -/

/-- The file of a definition, when it has one, has its digest. -/
def FileUnchanged (host : Host) (agent : AgentDefinition) : Prop :=
  isAbsolute agent.source = true →
    ∃ digest, host.digestFileResource agent.source = .ok digest ∧ digest.sha256 = agent.sha256

/-- The source of the recorded definition is unchanged. -/
def SourceUnchanged (host : Host) (plan : AgentLaunchPlan) : Prop :=
  FileUnchanged host (agentFromPlan plan)

theorem assertFileDigest_iff {agent : AgentDefinition} {message : JsString} :
    (∃ u, assertFileDigest host agent message = .ok u) ↔ FileUnchanged host agent := by
  unfold assertFileDigest FileUnchanged
  cases hpath : isAbsolute agent.source with
  | false => simp
  | true => simp only [if_true, bind_eq_ok, refuse_eq_ok, not_not, exists_const, true_imp_iff]

/-- The file of the recorded definition decides for every copy of it. -/
theorem Recorded.fileUnchanged_iff {agent : AgentDefinition} {plan : AgentLaunchPlan}
    (h : Recorded agent plan) : FileUnchanged host agent ↔ SourceUnchanged host plan := by
  unfold SourceUnchanged FileUnchanged
  rw [h.source, h.sha256]
  exact Iff.rfl

/-! ## Calls on the recorded definition -/

/-- The host as it would be with the recorded definition alone. -/
def asRecorded (host : Host) (plan : AgentLaunchPlan) : Host :=
  { host with
    agents := fun _ => none
    digestFileResource := fun path => .ok ⟨path, plan.agentSha256⟩ }

theorem fileUnchanged_asRecorded (host : Host) (plan : AgentLaunchPlan) :
    FileUnchanged (asRecorded host plan) ((asRecorded host plan).definition plan) :=
  fun _ => ⟨_, rfl, rfl⟩

/-- A retry up to the comparison of the agent's file. -/
def retryBefore (host : Host) (stores : Stores) (run : Run) : Except JsString Unit := do
  stores.history
  let workspace ← host.preflightWorkspace run.request
  assertWorkspace workspace run.workspace (ofString "workspace changed before retry")

/-- A retry from there, with a definition. -/
def retryWith (S : DigestPlatform) (D : RunLife.Planner) (host : Host)
    (owner : OwnerRegistration) (stores : Stores) (run : Run) (r : RunResult) (ordinal : ℕ)
    (agent : AgentDefinition) : Except JsString Attempt := do
  let _ ← host.resolveModel run.plan.model
  let projected ← projectAgain S host run.plan
  let forkContext ← forkAgain S host owner run.plan
    (ofString "fork retry requires the authorized parent session")
    (ofString "fork context changed before retry") none
  match retryPlan S.toPlatform D run.plan r ordinal with
  | none => .error (budgetRefusal "retry" run.plan.limits.retries
      (RunLife.retryIs r [.manual, .backoff]))
  | some plan =>
    startAttempt host stores {
      plan := plan
      agent := agent
      skills := projected.skills
      contextFiles := projected.contextFiles
      forkContext := forkContext
      hostTools := [] }

/-- A resume up to the comparison of the agent's file, with its plan. -/
def resumeBefore (S : DigestPlatform) (D : RunLife.Planner) (host : Host) (stores : Stores)
    (run : Run) (r : RunResult) (ordinal : ℕ) (continuing : Bool) :
    Except JsString AgentLaunchPlan := do
  stores.history
  match resumePlan S.toPlatform D run.plan r ordinal continuing with
  | none => .error (budgetRefusal "resume" run.plan.limits.resumes
      (continuing || RunLife.retryIs r [.resume]))
  | some plan =>
    stores.session
    let workspace ← host.preflightWorkspace run.request
    assertWorkspace workspace run.workspace (ofString "workspace changed before resume")
    return plan

/-- A resume from there, with a definition. -/
def resumeWith (S : DigestPlatform) (host : Host) (stores : Stores) (run : Run)
    (plan : AgentLaunchPlan) (agent : AgentDefinition) : Except JsString Attempt := do
  let _ ← host.resolveModel run.plan.model
  let projected ← projectAgain S host run.plan
  stores.checkout
  startAttempt host stores {
    plan := plan
    agent := agent
    skills := projected.skills
    contextFiles := projected.contextFiles
    forkContext := none
    hostTools := [] }

theorem retry_eq (run : Run) (r : RunResult) (ordinal : ℕ) :
    retry S D host owner stores run r ordinal = (do
      retryBefore host stores run
      assertFileDigest host (host.definition run.plan) (ofString "agent changed before retry")
      retryWith S D host owner stores run r ordinal (host.definition run.plan)) := by
  unfold retry retryBefore
  cases stores.history with
  | error e => rfl
  | ok u =>
    cases host.preflightWorkspace run.request with
    | error e => rfl
    | ok workspace => rfl

theorem resume_eq (run : Run) (r : RunResult) (ordinal : ℕ) (continuing : Bool) :
    resume S D host stores run r ordinal continuing = (do
      let plan ← resumeBefore S D host stores run r ordinal continuing
      assertFileDigest host (host.definition run.plan) (ofString "agent changed before resume")
      resumeWith S host stores run plan (host.definition run.plan)) := by
  unfold resume resumeBefore
  cases stores.history with
  | error e => rfl
  | ok u =>
    cases hplan : resumePlan S.toPlatform D run.plan r ordinal continuing with
    | none => rfl
    | some plan =>
      cases stores.session with
      | error e => rfl
      | ok u =>
        cases host.preflightWorkspace run.request with
        | error e => rfl
        | ok workspace =>
          simp only [bind, Except.bind]
          cases assertWorkspace workspace run.workspace
            (ofString "workspace changed before resume") <;> rfl

theorem startAttempt_agent (input : Attempt) (agent : AgentDefinition) :
    startAttempt host stores { input with agent := agent } =
      (startAttempt host stores input).map fun attempt => { attempt with agent := agent } := by
  unfold startAttempt
  cases stores.opened with
  | error e => rfl
  | ok u =>
    cases hostToolMap host.hostTools with
    | error e => rfl
    | ok hostTools =>
      simp only [bind, Except.bind]
      cases assertHostToolProjection input.plan hostTools with
      | error e => rfl
      | ok u =>
        cases stores.recorded with
        | error e => rfl
        | ok u => cases stores.execution <;> rfl

theorem retryWith_agent (run : Run) (r : RunResult) (ordinal : ℕ) (agent other : AgentDefinition) :
    retryWith S D host owner stores run r ordinal agent =
      (retryWith S D host owner stores run r ordinal other).map
        fun attempt => { attempt with agent := agent } := by
  unfold retryWith
  simp only [bind, Except.bind]
  cases host.resolveModel run.plan.model with
  | error e => rfl
  | ok model =>
    cases projectAgain S host run.plan with
    | error e => rfl
    | ok projected =>
      cases forkAgain S host owner run.plan
          (ofString "fork retry requires the authorized parent session")
          (ofString "fork context changed before retry") none with
      | error e => rfl
      | ok fork =>
        cases retryPlan S.toPlatform D run.plan r ordinal with
        | none => rfl
        | some plan =>
          exact startAttempt_agent
            ⟨plan, other, projected.skills, projected.contextFiles, fork, []⟩ agent

theorem resumeWith_agent (run : Run) (plan : AgentLaunchPlan) (agent other : AgentDefinition) :
    resumeWith S host stores run plan agent = (resumeWith S host stores run plan other).map
      fun attempt => { attempt with agent := agent } := by
  unfold resumeWith
  simp only [bind, Except.bind]
  cases host.resolveModel run.plan.model with
  | error e => rfl
  | ok model =>
    cases projectAgain S host run.plan with
    | error e => rfl
    | ok projected =>
      cases stores.checkout with
      | error e => rfl
      | ok u =>
        exact startAttempt_agent
          ⟨plan, other, projected.skills, projected.contextFiles, none, []⟩ agent

theorem handed_iff {f : AgentDefinition → Except JsString Attempt}
    (hf : ∀ agent other, f agent = (f other).map fun attempt => { attempt with agent := agent })
    {agent own : AgentDefinition} {attempt : Attempt} :
    f agent = .ok attempt ↔ attempt.agent = agent ∧ f own = .ok { attempt with agent := own } := by
  have hown : ∀ {x : AgentDefinition} {a : Attempt}, f x = .ok a → a.agent = x := by
    intro x a ha
    have hself := hf x x
    rw [ha] at hself
    exact congrArg Attempt.agent (Except.ok.inj hself)
  constructor
  · intro h
    refine ⟨hown h, ?_⟩
    rw [hf own agent, h]
    rfl
  · rintro ⟨rfl, h⟩
    rw [hf attempt.agent own, h]
    rfl

/-- A call that compares the file of a definition and then hands it over. -/
theorem compared_iff {α : Type} {before : Except JsString α}
    {rest : α → AgentDefinition → Except JsString Attempt}
    (hrest : ∀ a agent other, rest a agent =
      (rest a other).map fun attempt => { attempt with agent := agent })
    {agent : AgentDefinition} (own : AgentDefinition) {message : JsString} {attempt : Attempt} :
    (do
      let a ← before
      assertFileDigest host agent message
      rest a agent) = .ok attempt ↔
      FileUnchanged host agent ∧ attempt.agent = agent ∧
        ∃ a, before = .ok a ∧ rest a own = .ok { attempt with agent := own } := by
  have hdigest := @assertFileDigest_iff host agent message
  simp only [bind_eq_ok]
  constructor
  · rintro ⟨a, ha, u, hu, h⟩
    obtain ⟨hagent, hown⟩ := (handed_iff (hrest a)).mp h
    exact ⟨hdigest.mp ⟨u, hu⟩, hagent, a, ha, hown⟩
  · rintro ⟨hfile, hagent, a, ha, h⟩
    obtain ⟨u, hu⟩ := hdigest.mpr hfile
    exact ⟨a, ha, u, hu, (handed_iff (hrest a)).mpr ⟨hagent, h⟩⟩

/-- **A retry that is not refused for its agent** goes on as with the recorded definition. -/
theorem retry_iff {run : Run} {r : RunResult} {ordinal : ℕ} {attempt : Attempt} :
    retry S D host owner stores run r ordinal = .ok attempt ↔
      FileUnchanged host (host.definition run.plan) ∧ attempt.agent = host.definition run.plan ∧
        retry S D (asRecorded host run.plan) owner stores run r ordinal =
          .ok { attempt with agent := agentFromPlan run.plan } := by
  have hwith := fun (_ : Unit) => @retryWith_agent S D host owner stores run r ordinal
  have hrecorded : retry S D (asRecorded host run.plan) owner stores run r ordinal = (do
      retryBefore host stores run
      assertFileDigest (asRecorded host run.plan) (agentFromPlan run.plan)
        (ofString "agent changed before retry")
      retryWith S D host owner stores run r ordinal (agentFromPlan run.plan)) :=
    retry_eq run r ordinal
  rw [hrecorded, retry_eq, compared_iff hwith (agentFromPlan run.plan),
    compared_iff hwith (agentFromPlan run.plan)]
  exact and_congr_right fun _ => and_congr_right fun _ =>
    ⟨fun h => ⟨fileUnchanged_asRecorded host run.plan, rfl, h⟩, fun h => h.2.2⟩

/-- **A resume that is not refused for its agent** goes on as with the recorded definition. -/
theorem resume_iff {run : Run} {r : RunResult} {ordinal : ℕ} {continuing : Bool}
    {attempt : Attempt} :
    resume S D host stores run r ordinal continuing = .ok attempt ↔
      FileUnchanged host (host.definition run.plan) ∧ attempt.agent = host.definition run.plan ∧
        resume S D (asRecorded host run.plan) stores run r ordinal continuing =
          .ok { attempt with agent := agentFromPlan run.plan } := by
  have hwith := @resumeWith_agent S host stores run
  have hrecorded : resume S D (asRecorded host run.plan) stores run r ordinal continuing = (do
      let plan ← resumeBefore S D host stores run r ordinal continuing
      assertFileDigest (asRecorded host run.plan) (agentFromPlan run.plan)
        (ofString "agent changed before resume")
      resumeWith S host stores run plan (agentFromPlan run.plan)) :=
    resume_eq run r ordinal continuing
  rw [hrecorded, resume_eq, compared_iff hwith (agentFromPlan run.plan),
    compared_iff hwith (agentFromPlan run.plan)]
  exact and_congr_right fun _ => and_congr_right fun _ =>
    ⟨fun h => ⟨fileUnchanged_asRecorded host run.plan, rfl, h⟩, fun h => h.2.2⟩

/-- The run of a call that goes on with it. -/
def laterRun : StartCall → Option JsString
  | .launch _ _ => none
  | .retry runId _ _ => some runId
  | .resume runId _ _ _ => some runId

/-- A service whose host has the recorded definition alone. -/
def recordedSeat (seat : Seat) (plan : AgentLaunchPlan) : Seat :=
  { seat with host := asRecorded seat.host plan }

theorem start_eq_ok {seat : Seat} {call : StartCall} {runId : JsString} {run : Run}
    (hcall : laterRun call = some runId) (howned : seat.ownedRun owner runId = .ok run)
    {attempt : Attempt} : seat.start S D owner stores call = .ok (some attempt) ↔
      FileUnchanged seat.host (seat.host.definition run.plan) ∧
        attempt.agent = seat.host.definition run.plan ∧
          (recordedSeat seat run.plan).start S D owner stores call =
            .ok (some { attempt with agent := agentFromPlan run.plan }) := by
  have hrecorded : (recordedSeat seat run.plan).ownedRun owner runId = .ok run := howned
  cases call with
  | launch preflightId expected => cases hcall
  | retry id r ordinal =>
    obtain rfl := Option.some.inj hcall
    simp only [Seat.start, howned, hrecorded, bind_eq_ok, Except.ok.injEq, exists_eq_left', pure,
      Except.pure, Option.some.injEq, exists_eq_right]
    exact retry_iff
  | resume id r ordinal continuing =>
    obtain rfl := Option.some.inj hcall
    simp only [Seat.start, howned, hrecorded, bind_eq_ok, Except.ok.injEq, exists_eq_left', pure,
      Except.pure, Option.some.injEq, exists_eq_right]
    exact resume_iff

/-! ## The plans of a service -/

theorem sameAgent_forAttempt (plan : AgentLaunchPlan) (next : RunLife.Plan) :
    SameAgent (plan.forAttempt S.toPlatform next) plan := ⟨rfl, rfl, rfl, rfl, rfl, rfl⟩

theorem SameAgent.recorded {plan other : AgentLaunchPlan} (h : SameAgent plan other)
    {agent : AgentDefinition} : Recorded agent plan ↔ Recorded agent other := by
  obtain ⟨h1, h2, h3, h4, h5, h6⟩ := h
  constructor
  · rintro ⟨g1, g2, g3, g4, g5, g6⟩
    exact ⟨g1.trans h1, g2.trans h2, g3.trans h3, g4.trans h4, g5.trans h5, g6.trans h6⟩
  · rintro ⟨g1, g2, g3, g4, g5, g6⟩
    exact ⟨g1.trans h1.symm, g2.trans h2.symm, g3.trans h3.symm, g4.trans h4.symm, g5.trans h5.symm,
      g6.trans h6.symm⟩

theorem grantsAgent_forAttempt {plan : AgentLaunchPlan} (h : GrantsAgent plan)
    (next : RunLife.Plan) : GrantsAgent (plan.forAttempt S.toPlatform next) := h

/-- The plan of a later attempt is that of its run, for another attempt. -/
theorem later_plan {seat : Seat} {call : StartCall} {runId : JsString} {run : Run}
    (hcall : laterRun call = some runId) (howned : seat.ownedRun owner runId = .ok run)
    {attempt : Attempt} (h : seat.start S D owner stores call = .ok (some attempt)) :
    ∃ next, attempt.plan = run.plan.forAttempt S.toPlatform next := by
  cases call with
  | launch preflightId expected => cases hcall
  | retry id r ordinal =>
    obtain rfl := Option.some.inj hcall
    simp only [Seat.start, howned, bind_eq_ok, Except.ok.injEq, exists_eq_left', pure,
      Except.pure, Option.some.injEq, exists_eq_right] at h
    rw [retry_eq] at h
    obtain ⟨_, -, h⟩ := bind_eq_ok.mp h
    obtain ⟨_, -, h⟩ := bind_eq_ok.mp h
    unfold retryWith at h
    obtain ⟨_, -, h⟩ := bind_eq_ok.mp h
    obtain ⟨_, -, h⟩ := bind_eq_ok.mp h
    obtain ⟨_, -, h⟩ := bind_eq_ok.mp h
    cases hplan : retryPlan S.toPlatform D run.plan r ordinal with
    | none =>
      rw [hplan] at h
      cases h
    | some plan =>
      rw [hplan] at h
      obtain ⟨next, rfl⟩ := retryPlan_eq hplan
      exact ⟨next, (startAttempt_same (S := S) h).1⟩
  | resume id r ordinal continuing =>
    obtain rfl := Option.some.inj hcall
    simp only [Seat.start, howned, bind_eq_ok, Except.ok.injEq, exists_eq_left', pure,
      Except.pure, Option.some.injEq, exists_eq_right] at h
    rw [resume_eq] at h
    obtain ⟨plan, hbefore, h⟩ := bind_eq_ok.mp h
    obtain ⟨_, -, h⟩ := bind_eq_ok.mp h
    unfold resumeWith at h
    obtain ⟨_, -, h⟩ := bind_eq_ok.mp h
    obtain ⟨_, -, h⟩ := bind_eq_ok.mp h
    obtain ⟨_, -, h⟩ := bind_eq_ok.mp h
    have hsame := (startAttempt_same (S := S) h).1
    unfold resumeBefore at hbefore
    obtain ⟨_, -, hbefore⟩ := bind_eq_ok.mp hbefore
    cases hplan : resumePlan S.toPlatform D run.plan r ordinal continuing with
    | none =>
      rw [hplan] at hbefore
      cases hbefore
    | some plan' =>
      rw [hplan] at hbefore
      obtain ⟨_, -, hbefore⟩ := bind_eq_ok.mp hbefore
      obtain ⟨_, -, hbefore⟩ := bind_eq_ok.mp hbefore
      obtain ⟨_, -, hbefore⟩ := bind_eq_ok.mp hbefore
      cases hbefore
      obtain ⟨next, rfl⟩ := resumePlan_eq hplan
      exact ⟨next, hsame⟩

theorem launch_plan {prepared : Prepared} {expected : JsString} {existing : Option JsString}
    {attempt : Attempt}
    (h : launch S host owner stores prepared expected existing = .ok (some attempt)) :
    attempt.plan = prepared.launchPlan := by
  unfold launch at h
  dsimp only at h
  obtain ⟨_, -, h⟩ := bind_eq_ok.mp h
  obtain ⟨_, -, h⟩ := bind_eq_ok.mp h
  obtain ⟨found, -, h⟩ := bind_eq_ok.mp h
  cases found with
  | none => cases h
  | some agent =>
    obtain ⟨_, -, h⟩ := bind_eq_ok.mp h
    obtain ⟨_, -, h⟩ := bind_eq_ok.mp h
    obtain ⟨_, -, h⟩ := bind_eq_ok.mp h
    obtain ⟨_, -, h⟩ := bind_eq_ok.mp h
    obtain ⟨_, -, h⟩ := bind_eq_ok.mp h
    obtain ⟨_, -, h⟩ := bind_eq_ok.mp h
    obtain ⟨_, -, h⟩ := bind_eq_ok.mp h
    cases existing with
    | some ownerId =>
      obtain ⟨_, -, h⟩ := bind_eq_ok.mp h
      cases h
    | none =>
      obtain ⟨_, -, h⟩ := bind_eq_ok.mp h
      obtain ⟨attempt', hattempt, h⟩ := bind_eq_ok.mp h
      cases h
      exact (startAttempt_same (S := S) hattempt).1

theorem preflight_grants {ids : Ids} {ttlMs : ℕ} {execution : Except JsString ResolvedSandbox}
    {request : Preflight.SubagentRequest} {prepared : Prepared}
    (h : preflight S host owner ids ttlMs execution request = .ok prepared) :
    GrantsAgent prepared.launchPlan := by
  unfold preflight at h
  obtain ⟨found, -, h⟩ := bind_eq_ok.mp h
  cases found with
  | none => cases h
  | some agent =>
    obtain ⟨_, -, h⟩ := bind_eq_ok.mp h
    obtain ⟨_, -, h⟩ := bind_eq_ok.mp h
    obtain ⟨_, -, h⟩ := bind_eq_ok.mp h
    obtain ⟨_, -, h⟩ := bind_eq_ok.mp h
    obtain ⟨_, -, h⟩ := bind_eq_ok.mp h
    obtain ⟨_, -, h⟩ := bind_eq_ok.mp h
    obtain ⟨resources, hresources, h⟩ := bind_eq_ok.mp h
    obtain ⟨plan, hplan, h⟩ := bind_eq_ok.mp h
    cases h
    have hcompiled := (compileLaunchPlan_accepted hplan).compiled
    unfold toolResources at hresources
    obtain ⟨tools, -, hresources⟩ := bind_eq_ok.mp hresources
    cases hresources
    show GrantsAgent plan
    rw [hcompiled]
    exact ⟨agent.resource, (mem_sortBy _ _ _).mpr List.mem_cons_self, rfl, rfl, rfl⟩

/-- Every plan that a service has grants its agent. -/
structure Granted (seat : Seat) : Prop where
  preflights : ∀ id prepared, seat.preflights id = some prepared → GrantsAgent prepared.launchPlan
  runs : ∀ id run, seat.runs id = some run → GrantsAgent run.plan

theorem granted_fresh (host : Host) : Granted (Seat.fresh host) :=
  ⟨fun _ _ h => (nomatch h), fun _ _ h => (nomatch h)⟩

theorem ownedRun_eq {seat : Seat} {runId : JsString} {run : Run}
    (h : seat.ownedRun owner runId = .ok run) : seat.runs runId = some run := by
  unfold Seat.ownedRun at h
  split at h
  · cases h
  · split_ifs at h
    cases h
    assumption

theorem Granted.attempt {seat : Seat} (h : Granted seat) {call : StartCall} {attempt : Attempt}
    (hstart : seat.start S D owner stores call = .ok (some attempt)) : GrantsAgent attempt.plan := by
  have hlater : ∀ runId, laterRun call = some runId → GrantsAgent attempt.plan := by
    intro runId hcall
    cases howned : seat.ownedRun owner runId with
    | error e =>
      cases call with
      | launch preflightId expected => cases hcall
      | retry id r ordinal | resume id r ordinal continuing =>
        obtain rfl := Option.some.inj hcall
        simp only [Seat.start, howned] at hstart
        cases hstart
    | ok run =>
      obtain ⟨next, hplan⟩ := later_plan hcall howned hstart
      rw [hplan]
      exact grantsAgent_forAttempt (h.runs _ _ (ownedRun_eq howned)) next
  cases call with
  | launch preflightId expected =>
    simp only [Seat.start] at hstart
    split at hstart
    · cases hstart
    · rename_i prepared hprepared
      obtain ⟨_, -, hstart⟩ := bind_eq_ok.mp hstart
      rw [launch_plan hstart]
      exact h.preflights _ _ hprepared
  | retry id r ordinal | resume id r ordinal continuing => exact hlater id rfl

theorem granted_step {seat next : Seat} {act : Act} (h : Granted seat)
    (hstep : step S D seat act = some next) : Granted next := by
  cases act with
  | change host =>
    cases hstep
    exact ⟨h.preflights, h.runs⟩
  | restart host =>
    cases hstep
    exact ⟨fun _ _ hp => (nomatch hp), h.runs⟩
  | preflight id owner ids ttlMs execution request =>
    simp only [step] at hstep
    split at hstep
    · cases hstep
      exact h
    · rename_i prepared hprepared
      cases hstep
      refine ⟨?_, h.runs⟩
      intro other found hfound
      by_cases hid : other = id
      · rw [hid] at hfound
        have hself := (Function.update_self id (some prepared) seat.preflights).symm.trans hfound
        cases hself
        exact preflight_grants hprepared
      · exact h.preflights other found ((Function.update_of_ne hid _ _).symm.trans hfound)
  | start owner stores call =>
    simp only [step] at hstep
    split at hstep
    · rename_i attempt hattempt
      cases hstep
      refine ⟨h.preflights, ?_⟩
      intro other found hfound
      by_cases hid : other = attempt.plan.runId.val
      · rw [hid] at hfound
        have hself := (Function.update_self attempt.plan.runId.val
          (seat.remembered call attempt.plan) seat.runs).symm.trans hfound
        have hplan : found.plan = attempt.plan := by
          cases call with
          | launch preflightId expected | retry id r ordinal | resume id r ordinal continuing =>
            obtain ⟨before, -, rfl⟩ := Option.map_eq_some_iff.mp hself
            rfl
        rw [hplan]
        exact h.attempt hattempt
      · exact h.runs other found ((Function.update_of_ne hid _ _).symm.trans hfound)
    · cases hstep
      exact h

/-! ## What is claimed of a call -/

/-- A later attempt has the recorded definition, and the executor finds it so; and while the source of
that definition is unchanged the call goes on as on a host that has it alone. -/
structure KeepsAgent (S : DigestPlatform) (D : RunLife.Planner) (seat : Seat)
    (owner : OwnerRegistration) (stores : Stores) (call : StartCall) (run : Run) : Prop where
  exact : ∀ attempt, seat.start S D owner stores call = .ok (some attempt) →
    SameAgent attempt.plan run.plan ∧ comparesAgent attempt
  admitted : SourceUnchanged seat.host run.plan → ∀ attempt,
    (recordedSeat seat run.plan).start S D owner stores call = .ok (some attempt) →
      ∃ agent, seat.start S D owner stores call = .ok (some { attempt with agent := agent })

/-- What the service has discovered under the name of the agent is the recorded definition, or its
file and the recorded source have both changed. -/
def AgentKept (host : Host) (plan : AgentLaunchPlan) : Prop :=
  ∀ agent, host.agents plan.agent = some agent →
    Recorded agent plan ∨ ¬FileUnchanged host agent ∧ ¬SourceUnchanged host plan

/-- Nothing else refuses the call. -/
def OtherwiseAdmitted (S : DigestPlatform) (D : RunLife.Planner) (seat : Seat)
    (owner : OwnerRegistration) (stores : Stores) (call : StartCall) (run : Run) : Prop :=
  ∃ attempt, (recordedSeat seat run.plan).start S D owner stores call = .ok (some attempt)

theorem definition_of_none {plan : AgentLaunchPlan} (h : host.agents plan.agent = none) :
    host.definition plan = agentFromPlan plan := by
  unfold Host.definition
  rw [h]
  rfl

/-- What the lookup finds, when it keeps the agent and the file that is compared is unchanged. -/
theorem AgentKept.recorded {plan : AgentLaunchPlan} (h : AgentKept host plan)
    (hfile : FileUnchanged host (host.definition plan) ∨ SourceUnchanged host plan) :
    Recorded (host.definition plan) plan := by
  cases hfound : host.agents plan.agent with
  | none =>
    rw [definition_of_none hfound]
    exact recorded_agentFromPlan plan
  | some agent =>
    rw [definition_of_some hfound] at hfile ⊢
    rcases h agent hfound with hrec | ⟨hnot, hsource⟩
    · exact hrec
    · rcases hfile with hf | hs
      · exact absurd hf hnot
      · exact absurd hs hsource

/-- **Agent identity.** In every state of a service a retry or a resume keeps the agent of its run
exactly when, unless something else refuses it, its lookup does. -/
theorem agentIdentity (S : DigestPlatform) (D : RunLife.Planner) (host : Host)
    (as : List Act) (seat : Seat)
    (hrun : Runs.exec (step S D) (Seat.fresh host) as = some seat)
    (owner : OwnerRegistration) (stores : Stores) (call : StartCall) (runId : JsString) (run : Run)
    (hcall : laterRun call = some runId) (howned : seat.ownedRun owner runId = .ok run) :
    KeepsAgent S D seat owner stores call run ↔
      (OtherwiseAdmitted S D seat owner stores call run → AgentKept seat.host run.plan) := by
  have hgranted : Granted seat := Runs.exec_preserves Granted
    (fun _ _ _ h hs => granted_step h hs) (granted_fresh host) hrun
  have howned' : (recordedSeat seat run.plan).ownedRun owner runId = .ok run := howned
  constructor
  · rintro h ⟨attempt, hattempt⟩ agent hfound
    have hdefinition := definition_of_some hfound
    have hown : attempt.agent = agentFromPlan run.plan :=
      ((start_eq_ok hcall howned').mp hattempt).2.1
    by_cases hfile : FileUnchanged seat.host agent
    · left
      have hstart : seat.start S D owner stores call = .ok (some { attempt with agent := agent }) := by
        refine (start_eq_ok hcall howned).mpr ⟨hdefinition ▸ hfile, hdefinition.symm, ?_⟩
        rw [hattempt, ← hown]
      obtain ⟨hsame, hrec, -⟩ := h.exact _ hstart
      exact hsame.recorded.mp hrec
    · refine .inr ⟨hfile, fun hsource => ?_⟩
      obtain ⟨other, hstart⟩ := h.admitted hsource attempt hattempt
      have hchecked := ((start_eq_ok hcall howned).mp hstart).1
      rw [hdefinition] at hchecked
      exact hfile hchecked
  · intro h
    constructor
    · intro attempt hstart
      obtain ⟨hfile, hagent, hattempt⟩ := (start_eq_ok hcall howned).mp hstart
      obtain ⟨next, hplan⟩ := later_plan hcall howned hstart
      have hsame : SameAgent attempt.plan run.plan := hplan ▸ sameAgent_forAttempt run.plan next
      have hrec : Recorded attempt.agent attempt.plan := by
        rw [hsame.recorded, hagent]
        exact (h ⟨_, hattempt⟩).recorded (.inl hfile)
      obtain ⟨resource, hmem, hkind, hname, hsha⟩ := hgranted.attempt hstart
      exact ⟨hsame, hrec, resource, hmem, hkind, hname.trans hrec.name.symm,
        hsha.trans hrec.sha256.symm⟩
    · intro hsource attempt hattempt
      have hrec := (h ⟨attempt, hattempt⟩).recorded (.inr hsource)
      have hown : attempt.agent = agentFromPlan run.plan :=
        ((start_eq_ok hcall howned').mp hattempt).2.1
      refine ⟨seat.host.definition run.plan,
        (start_eq_ok hcall howned).mpr ⟨hrec.fileUnchanged_iff.mpr hsource, rfl, ?_⟩⟩
      rw [hattempt, ← hown]

/-! ## The worker again -/

/-- A plan records a definition. -/
def records (agent : AgentDefinition) (plan : AgentLaunchPlan) : Bool :=
  agent.name = plan.agent && agent.displayName = plan.agentDisplayName &&
    agent.prompt = plan.agentPrompt && agent.source = plan.agentSource &&
    agent.sha256 = plan.agentSha256 && agent.scope = plan.agentScope

theorem recorded_of_records {agent : AgentDefinition} {plan : AgentLaunchPlan}
    (h : records agent plan = true) : Recorded agent plan := by
  simp only [records, Bool.and_eq_true, decide_eq_true_eq] at h
  obtain ⟨⟨⟨⟨⟨h1, h2⟩, h3⟩, h4⟩, h5⟩, h6⟩ := h
  exact ⟨h1, h2, h3, h4, h5, h6⟩

/-- The identity of the worker's run. -/
def workerRunId : JsString := ofString "run_preflight"

/-- After a restart on the same host a retry keeps the worker. -/
theorem agentIdentity_worker : ∃ seat run,
    Runs.exec (step plainDigests RunLife.sameDigest)
      (Seat.fresh (workerHost approvedImage)) (restartedOn approvedImage) =
        some seat ∧
    seat.ownedRun workerOwner workerRunId = .ok run ∧
    KeepsAgent plainDigests RunLife.sameDigest seat workerOwner readyStores
      workerRetry run := by
  have hrun : (Runs.exec (step plainDigests RunLife.sameDigest)
      (Seat.fresh (workerHost approvedImage))
      (restartedOn approvedImage)).any (fun seat =>
        match seat.ownedRun workerOwner workerRunId with
        | .ok run => records workerAgent run.plan
        | .error _ => false) = true := by
    decide +kernel
  obtain ⟨seat, hseat, hrecords⟩ := (Option.any_eq_true _ _).mp hrun
  have hhost : seat.host = workerHost approvedImage := by
    have hlast : Runs.exec (step plainDigests RunLife.sameDigest)
        (Seat.fresh (workerHost approvedImage))
        ([workerPreflight, .start workerOwner readyStores workerStart] ++
          [.restart (workerHost approvedImage)]) = some seat := hseat
    obtain ⟨before, -, hrestart⟩ := Runs.exec_concat_eq_some.mp hlast
    cases hrestart
    rfl
  cases howned : seat.ownedRun workerOwner workerRunId with
  | error e =>
    rw [howned] at hrecords
    cases hrecords
  | ok run =>
    rw [howned] at hrecords
    refine ⟨seat, run, hseat, howned, (agentIdentity _ _ _ _ seat hseat _ _ workerRetry
      workerRunId run rfl howned).mpr fun _ agent hfound => .inl ?_⟩
    have hagent : agent = workerAgent := by
      rw [hhost] at hfound
      simp only [workerHost] at hfound
      split_ifs at hfound
      exact (Option.some.inj hfound).symm
    rw [hagent]
    exact recorded_of_records hrecords

/-- A worker that an owner ships with its package. -/
def shippedAgent : AgentDefinition :=
  { workerAgent with
    prompt := ofString "Shipped prompt"
    scope := .package
    source := ofString "/package/agents/worker.md"
    sha256 := List.replicate 64 99 }

/-- A host with a worker of its own, and the roots of the package. -/
def shippedHost : Host :=
  { workerHost approvedImage with
    discoverAgents := fun _ =>
      .ok fun name => if name = ofString "worker" then some shippedAgent else none
    discovered_isAbsolute := by
      intro roots found name agent hfound hagent
      cases hfound
      simp only at hagent
      split_ifs at hagent
      cases hagent
      decide
    digestFileResource := fun path =>
      .ok ⟨path, if path = shippedAgent.source then List.replicate 64 99 else List.replicate 64 97⟩ }

/-- The preflight of the shipped worker. -/
def shippedPreflight : Act :=
  .preflight 0 workerOwner
    ⟨(workerLaunch none).runId, (workerLaunch none).attemptId, List.replicate 64 100⟩ 300000
    shippedHost.sandbox
    { (workerLaunch (some 50000)).request with agentRoots := some [ofString "/package/agents"] }

/-- The recorded plan is that of the shipped worker, and a retry hands over the host's own. -/
def shadowedRetry (seat : Seat) : Bool :=
  match seat.ownedRun workerOwner workerRunId,
    seat.start plainDigests RunLife.sameDigest workerOwner readyStores workerRetry with
  | .ok run, .ok (some attempt) =>
    records shippedAgent run.plan && decide (attempt.agent.prompt = workerAgent.prompt) &&
      decide (attempt.plan.agentPrompt = shippedAgent.prompt)
  | _, _ => false

/-- **A shipped worker is retried as the host's own**: a definition of the same name that the service
has discovered shadows the recorded one, and the executor refuses the attempt that has been created. -/
theorem shipped_shadowed :
    ¬ ∀ (S : DigestPlatform) (D : RunLife.Planner) (host : Host) (as : List Act)
        (seat : Seat) (owner : OwnerRegistration) (stores : Stores) (call : StartCall)
        (runId : JsString) (run : Run),
      Runs.exec (step S D) (Seat.fresh host) as = some seat →
        laterRun call = some runId → seat.ownedRun owner runId = .ok run →
          KeepsAgent S D seat owner stores call run := by
  intro hall
  have hrun : (Runs.exec (step plainDigests RunLife.sameDigest) (Seat.fresh shippedHost)
      [shippedPreflight, .start workerOwner readyStores workerStart]).any shadowedRetry = true := by
    decide +kernel
  obtain ⟨seat, hseat, hchecks⟩ := (Option.any_eq_true _ _).mp hrun
  unfold shadowedRetry at hchecks
  split at hchecks
  · rename_i run attempt howned hstart
    simp only [Bool.and_eq_true, decide_eq_true_eq] at hchecks
    obtain ⟨⟨-, hagent⟩, hplan⟩ := hchecks
    have hkeeps := hall _ _ _ _ seat _ readyStores workerRetry workerRunId run hseat rfl
      howned
    have hprompt := (hkeeps.exact attempt hstart).2.1.prompt
    rw [hagent, hplan] at hprompt
    exact absurd hprompt (by decide)
  · cases hchecks

end Drift.AgentIdentity

end PiSubagent
