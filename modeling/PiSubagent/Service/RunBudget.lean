import PiSubagent.Service.LateStarts
import PiSubagent.Service.Ledger

/-!
# The budget of a run

* `LaunchPlan`: a plan with the fields that attempts do not change, and its digest.
* `keepsBudget`: the steps that charge an attempt with what it used.
* **`budgeted_step`**: they keep the books of the run, and what start-up makes of the usage.
* **`budget_conserved`**: after such steps, the latest plan has what the earlier attempts left of
  the root plan's limits.
-/

namespace PiSubagent

open JsonText

namespace RunLife

open Cuts Runs
open RunState (setSeat perform kill)

variable {D : Planner} {root : Plan} {s t : RunState}

/-! ## Plans with their digest -/

/-- `AgentLaunchPlan`: with the fields that no attempt changes, and its digest. -/
structure LaunchPlan (ρ : Type) where
  draft : Plan
  rest : ρ
  identitySha256 : JsString

section LaunchPlan

variable {ρ : Type} (canonicalSha256 : Plan → ρ → JsString)

/-- `{ ...draft, identitySha256: canonicalSha256(draft) }`, with which `retryPlan` and `resumePlan`
end. -/
def LaunchPlan.identified (draft : Plan) (rest : ρ) : LaunchPlan ρ :=
  ⟨draft, rest, canonicalSha256 draft rest⟩

/-- `verifyLaunchPlanIdentity`. -/
def verifyLaunchPlanIdentity (plan : LaunchPlan ρ) : Bool :=
  canonicalSha256 plan.draft plan.rest = plan.identitySha256

/-- `AgentLaunchPlanSchema`, given the check of the fields that no attempt changes. -/
def LaunchPlan.check (checkRest : ρ → Bool) (plan : LaunchPlan ρ) : Bool :=
  isRunId plan.draft.runId.val && isAttemptId plan.draft.attemptId && plan.draft.limits.check &&
    isHex 64 64 plan.identitySha256 && checkRest plan.rest

end LaunchPlan

/-- The digests of attempts are lower-case hexadecimal, cut to 48 digits. -/
def HexDigest (digest : AttemptDigest) : Prop :=
  ∀ runId parent ordinal kind, isHex 48 48 (digest runId parent ordinal kind) = true

/-- Plans are derived with such digests and exact costs. -/
structure Planner.Sound (D : Planner) : Prop where
  hex : HexDigest D.digest
  exact : D.round = id

theorem derivedAttemptId_valid (hD : D.Sound) (current : Plan) (ordinal : ℕ)
    (kind : AttemptKind) : isAttemptId (derivedAttemptId D current ordinal kind) = true := by
  have hhex := hD.hex current.runId.val current.attemptId ordinal kind
  unfold isHex at hhex
  rw [Bool.and_eq_true, decide_eq_true_eq, List.all_eq_true] at hhex
  obtain ⟨⟨hlo, hhi⟩, hunits⟩ := hhex
  have hhead : (ofString "attempt_").length = 8 := by decide
  have hlength : (derivedAttemptId D current ordinal kind).length = 56 := by
    unfold derivedAttemptId
    rw [List.length_append, hhead]
    omega
  unfold isAttemptId isIdentifier hasUnits
  rw [hlength, hhead]
  simp only [Bool.and_eq_true, decide_eq_true_eq]
  refine ⟨⟨⟨?_, by decide⟩, ?_⟩, by decide, by decide⟩
  · unfold derivedAttemptId
    exact List.isPrefixOf_iff_prefix.mpr (List.prefix_append _ _)
  · unfold derivedAttemptId
    rw [← hhead, List.drop_left, List.all_eq_true]
    intro u hu
    have hunit := hunits u hu
    unfold isHexUnit at hunit
    unfold isLowerUnit
    simp only [Bool.or_eq_true, Bool.and_eq_true, decide_eq_true_eq] at hunit ⊢
    rcases hunit with hdigit | ⟨h1, h2⟩
    · exact Or.inr hdigit
    · exact Or.inl ⟨h1, h2.trans (by decide)⟩

theorem decimalValue_nonneg {d : Decimal} (h : d.neg = false) : 0 ≤ decimalValue d := by
  unfold decimalValue
  rw [h, if_neg (by simp), one_mul]
  exact mul_nonneg (Nat.cast_nonneg d.mant) (zpow_nonneg (by norm_num) d.exp)

theorem Limits.after_valid {l next : Limits} {r : RunResult} (hl : l.check = true)
    (hr : r.check = true) (h : l.after id r = some next) : next.check = true := by
  obtain ⟨-, hms, hlow, htimeout, htok, hone, hcost, hpos, hretries, hresumes⟩ :=
    Limits.after_cases h
  have hspent := decimalValue_nonneg ((RunResult.check_iff r).mp hr).2.2.2.1
  simp only [id_eq] at hcost
  unfold Limits.check at hl ⊢
  simp only [Bool.and_eq_true, decide_eq_true_eq] at hl ⊢
  obtain ⟨⟨⟨⟨⟨⟨-, h2⟩, h3, h4⟩, h5⟩, h6, h7⟩, h8⟩, h9⟩ := hl
  refine ⟨⟨⟨⟨⟨⟨hlow, by omega⟩, ?_, ?_⟩, ?_⟩, hpos.le, by linarith⟩, by omega⟩, by omega⟩
  · rw [htimeout]
    omega
  · rw [htimeout]
    omega
  · rw [Option.all_eq_true] at h5 ⊢
    intro n hn
    have hmax := h5 (n + r.usage.totalTokens) (by rw [← htok, hn]; rfl)
    rw [decide_eq_true_eq] at hmax ⊢
    exact ⟨hone n hn, by omega⟩

theorem Limits.check_retries {l : Limits} {retries resumes : ℕ} (h : l.check = true)
    (hretries : retries ≤ l.retries) (hresumes : resumes ≤ l.resumes) :
    ({ l with retries := retries, resumes := resumes } : Limits).check = true := by
  unfold Limits.check at h ⊢
  simp only [Bool.and_eq_true, decide_eq_true_eq] at h ⊢
  exact ⟨⟨h.1.1, by omega⟩, by omega⟩

theorem retryPlan_valid (hD : D.Sound) {current plan : Plan} {r : RunResult} {ordinal : ℕ}
    (hc : current.Valid) (hr : r.check = true) (h : retryPlan D current r ordinal = some plan) :
    plan.Valid := by
  unfold retryPlan at h
  rw [hD.exact] at h
  split_ifs at h
  obtain ⟨after, hafter, rfl⟩ := Option.map_eq_some_iff.mp h
  have hretries : after.retries = current.limits.retries := by
    obtain ⟨-, -, -, -, -, -, -, -, hretries, -⟩ := Limits.after_cases hafter
    exact hretries
  refine ⟨Limits.check_retries (Limits.after_valid hc.1 hr hafter) ?_ (le_refl _),
    derivedAttemptId_valid hD current ordinal .retry⟩
  omega

theorem resumePlan_valid (hD : D.Sound) {current plan : Plan} {r : RunResult} {ordinal : ℕ}
    {continuing : Bool} (hc : current.Valid) (hr : r.check = true)
    (h : resumePlan D current r ordinal continuing = some plan) : plan.Valid := by
  unfold resumePlan at h
  rw [hD.exact] at h
  split_ifs at h
  obtain ⟨after, hafter, rfl⟩ := Option.map_eq_some_iff.mp h
  have hresumes : after.resumes = current.limits.resumes := by
    obtain ⟨-, -, -, -, -, -, -, -, -, hresumes⟩ := Limits.after_cases hafter
    exact hresumes
  refine ⟨Limits.check_retries (Limits.after_valid hc.1 hr hafter) (le_refl _) ?_,
    derivedAttemptId_valid hD current ordinal .resume⟩
  omega

/-! ## The steps that keep the budget -/

/-- The seat remembers the latest attempt. -/
def RunFiles.isLatest (f : RunFiles) (run : ActiveRun) : Bool :=
  f.latest.all fun latest => decide (latest.attemptId = run.plan.attemptId)

/-- The effects of a step that are cut short. -/
def RunState.writes (D : Planner) (s : RunState) (a : RunAct) (cut : ℕ) : List Effect :=
  ((s.effects D a).getD []).take cut

/-- The effect records an attempt. -/
def Effect.isRecord : Effect → Bool
  | .createAttempt _ => true
  | _ => false

/-- A step that charges every attempt with what it used. -/
def keepsBudget (D : Planner) (s : RunState) (a : RunAct) : Bool :=
  match a with
  | .launch _ cut | .launchUndone _ cut =>
    -- The journal is empty when the first attempt is recorded.
    !(s.writes D a cut).any Effect.isAttempt || s.files.events.isEmpty
  | .retry _ cut | .retryUndone _ cut | .resume _ _ cut | .resumeUndone _ _ cut =>
    -- A later attempt that is recorded goes to the executor.
    !(s.writes D a cut).any Effect.isRecord || (s.writes D a cut).any Effect.isExecute
  | .die seat =>
    -- The journal and the snapshot say what the attempt of a seat that dies has used.
    (s.seats seat).all fun run => run.result.isSome || s.files.settledUp
  | .reconcile seat _ cut =>
    !(s.writes D a cut).any Effect.isSnapshot || s.files.abandoning ||
      (s.seats seat).all fun run =>
        match run.result with
        | some _ => s.files.isLatest run
        | none => decide (attemptSpent run.plan.attemptId s.files.events = Spent.of emptyUsage 0)
  | .release seat _ cut =>
    !(s.writes D a cut).any Effect.isSnapshot || s.files.abandoning ||
      (s.seats seat).all s.files.isLatest
  | _ => true

/-! ## Starts -/

section Starts

variable {seat : ℕ} {i : StartInput}

/-- A state that a start has reached before it records its attempt. -/
structure Opened (root : Plan) (i : StartInput) (s u : RunState) : Prop where
  ledger : u.Ledger root
  seats : u.seats = s.seats
  lease : u.lease = s.lease
  attempts : u.files.attempts = s.files.attempts
  events : ∃ notes, u.files.events = s.files.events ++ notes ∧
    (∀ e ∈ notes, e.isNote = true) ∧ (i.continuing = false → notes = [])
  spent : ∀ id, attemptSpent id u.files.events = attemptSpent id s.files.events
  abandoning : u.files.abandoning = s.files.abandoning
  recovers : s.files.Recovers → u.files.Recovers

theorem Opened.refl (h : s.Ledger root) : Opened root i s s :=
  ⟨h, rfl, rfl, rfl, ⟨[], by simp⟩, fun _ => rfl, rfl, fun hr => hr⟩

theorem Opened.perform {u : RunState} (h : Opened root i s u) (hl : s.lease = none) {e : Effect}
    (he : e.OfStart i) (hne : e.isAttempt = false) : Opened root i s (u.perform seat e) := by
  have hidle : ∀ n, ∀ run ∈ u.seats n, ∀ x, run.flight = .ended x → run.result ≠ none :=
    fun n run hr x _ => h.ledger.idle (h.lease.trans hl) hr
  cases e with
  | append e =>
    obtain ⟨hcont, rfl⟩ := he
    obtain ⟨notes, hev, hnotes, -⟩ := h.events
    refine ⟨h.ledger.report (Or.inl rfl) hidle, h.seats, h.lease, h.attempts, ?_, ?_, ?_, ?_⟩
    · refine ⟨notes ++ [.resumeAtHandoff], ?_, ?_, ?_⟩
      · show u.files.events ++ [_] = _
        rw [hev, List.append_assoc]
      · intro e' he'
        rcases List.mem_append.mp he' with hm | hm
        · exact hnotes e' hm
        · rw [List.mem_singleton.mp hm]
          rfl
      · intro hc
        rw [hcont] at hc
        cases hc
    · intro id
      rw [← h.spent id]
      exact attemptSpent_same u.files.events rfl rfl
    · rw [← h.abandoning]
      exact abandoning_concat u.files _ rfl rfl
    · intro hr latest hlat
      have hu := h.recovers hr latest hlat
      show resultSpent { u.files with
        events := u.files.events ++ [RunEvent.resumeAtHandoff] }.recovered.1 =
        attemptSpent latest.attemptId (u.files.events ++ [.resumeAtHandoff])
      rw [u.files.recovered_quiet u.files.events rfl, attemptSpent_same u.files.events rfl rfl]
      exact hu
  | createRunRecord | reserveWorktree _ | reserveSnapshot _ =>
    exact ⟨h.ledger.other rfl rfl rfl rfl, h.seats, h.lease, h.attempts, h.events, h.spent,
      h.abandoning, h.recovers⟩
  | createAttempt _ | execute _ => cases hne
  | _ => exact he.elim

theorem opened_cuts (h : s.Ledger root) (hl : s.lease = none) {es : List Effect}
    (hes : ∀ e ∈ es, e.OfStart i) (hne : ∀ e ∈ es, e.isAttempt = false) :
    AllCuts (perform seat) (Opened root i s) es s :=
  AllCuts.of_preserved (Opened.refl h) fun _ e he hu => hu.perform hl (hes e he) (hne e he)

/-- What a start has to know of its attempt. -/
structure NextAttempt (root : Plan) (s : RunState) (i : StartInput) : Prop where
  plan : ∀ u : RunState, Opened root i s u → ∀ wid,
    (∀ a ∈ u.files.attempts, a.attemptId ≠ i.plan.attemptId) →
    BudgetKept root (u.files.perform (.createAttempt
      ⟨i.plan.attemptId, i.ordinal, i.kind, i.parentAttemptId, wid, i.plan⟩))
  ordinal : ∀ latest ∈ s.files.latest, i.ordinal = latest.ordinal + 1 ∨ i.kind = .initial
  first : i.kind = .initial ∧ i.continuing = false ∧ s.files.events = [] ∧ i.plan = root ∨
    i.kind ≠ .initial ∧ s.files.attempts ≠ [] ∧ s.files.events ≠ []
  alive : s.files.abandoning = false
  valid : i.plan.Valid

theorem attemptEffects_nil {f : RunFiles} {wid : Option JsString}
    (h : attemptEffects f i wid = some []) :
    ∃ a ∈ f.attempts, a.attemptId = i.plan.attemptId ∧ a.ordinal = i.ordinal := by
  unfold attemptEffects at h
  split at h
  case h_1 existing hfind =>
    split_ifs at h with hc
    exact ⟨existing, List.mem_of_find?_eq_some hfind, by simpa using List.find?_some hfind, hc.1⟩
  case h_2 =>
    dsimp only at h
    split_ifs at h
    cases h

theorem ledger_attempt {u : RunState} (hu : Opened root i s u) (hl : s.lease = none)
    (hi : NextAttempt root s i) {wid : Option JsString} {record : List Effect}
    (ha : attemptEffects s.files i wid = some record) :
    AllCuts (perform seat) (RunState.Ledger root) (record ++ [.execute (.start i.plan)]) u := by
  have hlease : u.lease = none := hu.lease.trans hl
  have hidle : ∀ n, ∀ x ∈ u.seats n, x.result ≠ none := fun n x hx => hu.ledger.idle hlease hx
  have halive : u.files.abandoning = false := hu.abandoning.trans hi.alive
  have hempty : i.kind = .initial → u.files.events = [] ∧ i.plan = root := by
    intro hk
    rcases hi.first with ⟨-, hc, hev, hroot⟩ | ⟨hk', -⟩
    · obtain ⟨notes, hn, -, hnil⟩ := hu.events
      rw [hn, hev, hnil hc]
      exact ⟨rfl, hroot⟩
    · exact absurd hk hk'
  have hnobody : i.kind = .initial → ∀ n, u.seats n = none := by
    intro hk n
    by_contra hne
    obtain ⟨x, hx⟩ := Option.ne_none_iff_exists'.mp hne
    exact hidle n x hx ((hu.ledger.empty (hempty hk).1).2.2 n x hx)
  rcases attemptEffects_cases ha with rfl | ⟨hfind, hlat, rfl⟩
  · -- The record is there already, so that the call is the launch of an attempt not started yet.
    obtain ⟨a, ham, haid, haord⟩ := attemptEffects_nil ha
    have hk : i.kind = .initial := by
      rcases hi.first with ⟨hk, -⟩ | ⟨-, hne, -⟩
      · exact hk
      · cases hlatest : s.files.latest with
        | none => exact absurd (List.getLast?_eq_none_iff.mp hlatest) hne
        | some latest =>
          have hle := hu.ledger.ordinals latest
            (by unfold RunFiles.latest; rw [hu.attempts]; exact hlatest) a
            (by rw [hu.attempts]; exact ham)
          rcases hi.ordinal latest hlatest with hord | hk
          · omega
          · exact hk
    obtain ⟨hev, hroot⟩ := hempty hk
    obtain ⟨-, hfew, -⟩ := hu.ledger.empty hev
    have hone : u.files.attempts = [a] := by
      rw [← hu.attempts] at ham
      obtain ⟨b, hb⟩ := List.length_eq_one_iff.mp
        (le_antisymm hfew (List.length_pos_of_mem ham))
      rw [hb] at ham ⊢
      rw [List.mem_singleton.mp ham]
    have hplan : a.plan = root := hu.ledger.first a (by rw [hone]; rfl)
    refine ⟨hu.ledger, hu.ledger.execute (Or.inl hlease) hidle halive ?_
      (hroot.trans hplan.symm) ?_ ?_⟩
    · unfold RunFiles.latest
      rw [hone]
      rfl
    · intro e he
      rw [hev] at he
      cases he
    · intro n x hx
      rw [hnobody hk n] at hx
      cases hx
  · have hnew : ∀ a ∈ u.files.attempts, a.attemptId ≠ i.plan.attemptId := by
      intro a ham
      rw [hu.attempts] at ham
      simpa using List.find?_eq_none.mp hfind a ham
    have hfirst : u.files.attempts = [] ∧ u.files.events = [] ∧ i.plan = root ∨
        u.files.attempts ≠ [] ∧ u.files.events ≠ [] := by
      rcases hi.first with ⟨hk, -⟩ | ⟨-, hne, hev⟩
      · obtain ⟨hev, hroot⟩ := hempty hk
        exact Or.inl ⟨hu.attempts.trans (List.getLast?_eq_none_iff.mp (hlat hk)), hev, hroot⟩
      · refine Or.inr ⟨by rw [hu.attempts]; exact hne, ?_⟩
        obtain ⟨notes, hn, -⟩ := hu.events
        rw [hn]
        exact fun hc => hev (List.append_eq_nil_iff.mp hc).1
    obtain ⟨attempt, hattempt⟩ : ∃ attempt : AttemptRecord,
        attempt = ⟨i.plan.attemptId, i.ordinal, i.kind, i.parentAttemptId, wid, i.plan⟩ := ⟨_, rfl⟩
    have hid : attempt.attemptId = i.plan.attemptId := by rw [hattempt]
    have hord : ∀ latest ∈ u.files.latest, attempt.ordinal = latest.ordinal + 1 := by
      intro latest hlatest
      have hlatest' : s.files.latest = some latest := by
        rw [← hlatest]
        unfold RunFiles.latest
        rw [hu.attempts]
      rcases hi.ordinal latest hlatest' with hord | hk
      · rw [hattempt]
        exact hord
      · rw [hlat hk] at hlatest'
        cases hlatest'
    rw [← hattempt]
    have hv : (u.perform seat (.createAttempt attempt)).Ledger root := by
      refine hu.ledger.createAttempt hidle ?_ ?_ hord ?_ ?_ ?_
      · rw [hattempt]
      · rw [hid]
        exact hnew
      · rw [hattempt]
        exact hfirst
      · rw [hattempt]
        exact hi.valid
      · rw [hattempt]
        exact hi.plan u hu wid hnew
    refine ⟨hu.ledger, hv, hv.execute (Or.inl hlease) hidle halive (List.getLast?_concat ..) ?_ ?_ ?_⟩
    · rw [hattempt]
    · intro e he hs
      obtain ⟨a, ham, haid⟩ := hu.ledger.starts e he _ hs
      exact hnew a ham (haid.trans hid)
    · intro n x hx hxid
      rcases hu.ledger.known n x hx with hroot | ⟨a, ham, hp⟩
      · rcases hfirst with ⟨-, hev, -⟩ | ⟨hne, -⟩
        · exact hidle n x hx ((hu.ledger.empty hev).2.2 n x hx)
        · obtain ⟨b, bs, hb⟩ := List.exists_cons_of_ne_nil hne
          have hbm : b ∈ u.files.attempts := by
            rw [hb]
            exact List.mem_cons_self
          refine hnew b hbm ?_
          rw [← hu.ledger.ids b hbm, hu.ledger.first b (by rw [hb]; rfl), ← hroot, hxid, hid]
      · refine hnew a ham ?_
        rw [← hu.ledger.ids a ham, hp, hxid, hid]

/-- **A start keeps the books** wherever it is cut. -/
theorem ledger_start (h : s.Ledger root) (hl : s.lease = none) (hi : NextAttempt root s i) :
    AllCuts (perform seat) (RunState.Ledger root) (startEffects s.files i) s := by
  rcases startEffects_shape s.files i with hs | ⟨-, ⟨-, hs⟩ | ⟨checkout, id, hc, hs⟩⟩
  · rw [hs]
    exact h
  · have hof := startEffects_ofStart s.files i
    rw [hs] at hof ⊢
    refine (opened_cuts h hl hof fun e he => ?_).mono fun u hu => hu.ledger
    rcases StartInput.mem_opening he with rfl | ⟨rfl, -⟩ <;> rfl
  · have hof := startEffects_ofStart s.files i
    have hopened : AllCuts (perform seat) (Opened root i s) (i.opening ++ checkout) s := by
      refine opened_cuts h hl (fun e he => hof e ?_) fun e he => ?_
      · rcases hs with ⟨-, hs⟩ | ⟨record, -, hs⟩
        · rw [hs]
          exact he
        · rw [hs, ← List.append_assoc]
          exact List.mem_append_left _ he
      · have hne := not_execute_opening hc he
        cases e with
        | createAttempt record => cases hne.2
        | execute run => cases hne.1
        | _ => rfl
    rcases hs with ⟨-, hs⟩ | ⟨record, ha, hs⟩
    · rw [hs]
      exact hopened.mono fun u hu => hu.ledger
    · rw [hs, ← List.append_assoc, allCuts_append]
      exact ⟨hopened.mono fun u hu => hu.ledger, ledger_attempt hopened.foldl hl hi ha⟩

/-- The durable status of a run whose abandonment has been requested. -/
theorem durableStatusIs_abandoning {f : RunFiles} (ho : f.abandoning = true) {status : RunStatus}
    (h : durableStatusIs f status = true) : AbandonmentStatus status := by
  unfold durableStatusIs at h
  split_ifs at h with hh hp
  · exact Or.inr (of_decide_eq_true h)
  · exact Or.inl (of_decide_eq_true h)
  · unfold RunFiles.abandoning at ho
    rw [Bool.not_eq_true] at hh hp
    rw [hh, hp] at ho
    cases ho

/-- A call that goes on to its attempt is of a run that is not abandoned and has a snapshot. -/
theorem admitted_alive (h : s.Ledger root) {status : RunStatus}
    (hi : i.expectedPriorStatus = some status) (hs : ¬AbandonmentStatus status)
    (hne : startEffects s.files i ≠ []) : s.files.abandoning = false ∧ s.files.events ≠ [] := by
  have hdur : durableStatusIs s.files status = true := by
    by_contra hd
    refine hne ?_
    unfold startEffects
    rw [hi]
    simp [hd]
  constructor
  · by_contra ho
    rw [Bool.not_eq_false] at ho
    exact hs (durableStatusIs_abandoning ho hdur)
  · intro hnil
    have hsn := (h.empty hnil).1
    unfold durableStatusIs at hdur
    rw [hnil, hsn] at hdur
    cases hdur

theorem nextAttempt_retry (hD : D.Sound) (h : s.Ledger root) {run : ActiveRun} {latest : AttemptRecord}
    {r : AttemptExecutionResult} {plan : Plan} (hr : s.seats seat = some run)
    (hl : s.files.latest = some latest) (hres : run.result = some r)
    (hid : latest.attemptId = run.plan.attemptId)
    (hp : retryPlan D run.plan r.result (latest.ordinal + 1) = some plan)
    (halive : s.files.abandoning = false) (hev : s.files.events ≠ []) :
    NextAttempt root s
      { plan := plan, kind := .retry, ordinal := latest.ordinal + 1
        parentAttemptId := some latest.attemptId, expectedPriorStatus := some .failed
        existingWorktree := none, continuing := false } := by
  have hplan := h.plan_eq hr hl hid.symm
  have hspent := h.knows halive seat run hr r hres latest hl hid.symm
  refine ⟨?_, ?_, Or.inr ⟨by simp, ?_, hev⟩, halive, ?_⟩
  · intro u hu wid _
    have hlu : u.files.latest = some latest := by
      unfold RunFiles.latest at hl ⊢
      rw [hu.attempts, hl]
    refine hu.ledger.kept.createAttempt (a := 1) (b := 0) (r := r.result) hlu
      (hspent.trans (hu.spent _).symm) ?_ rfl rfl
    intro spent retries resumes hc
    rw [hplan] at hp
    exact retryPlan_charged hD.exact hc hp
  · intro latest' hl'
    rw [hl] at hl'
    cases hl'
    exact Or.inl rfl
  · intro hnil
    unfold RunFiles.latest at hl
    rw [hnil] at hl
    cases hl
  · refine retryPlan_valid hD ?_ ((h.checked.seats seat run hr).1 r hres) hp
    rw [hplan]
    exact h.valid latest (List.mem_of_getLast? hl)

theorem nextAttempt_resume (hD : D.Sound) (h : s.Ledger root) {continuing : Bool} {run : ActiveRun}
    {latest : AttemptRecord} {r : AttemptExecutionResult} {plan : Plan}
    (hr : s.seats seat = some run) (hl : s.files.latest = some latest) (hres : run.result = some r)
    (hid : latest.attemptId = run.plan.attemptId)
    (hp : resumePlan D run.plan r.result (latest.ordinal + 1) continuing = some plan)
    (halive : s.files.abandoning = false) (hev : s.files.events ≠ []) :
    NextAttempt root s
      { plan := plan, kind := .resume, ordinal := latest.ordinal + 1
        parentAttemptId := some latest.attemptId, expectedPriorStatus := some run.status
        existingWorktree := if continuing then none else latest.worktreeAttemptId
        continuing := continuing } := by
  have hplan := h.plan_eq hr hl hid.symm
  have hspent := h.knows halive seat run hr r hres latest hl hid.symm
  refine ⟨?_, ?_, Or.inr ⟨by simp, ?_, hev⟩, halive, ?_⟩
  · intro u hu wid _
    have hlu : u.files.latest = some latest := by
      unfold RunFiles.latest at hl ⊢
      rw [hu.attempts, hl]
    refine hu.ledger.kept.createAttempt (a := 0) (b := 1) (r := r.result) hlu
      (hspent.trans (hu.spent _).symm) ?_ rfl rfl
    intro spent retries resumes hc
    rw [hplan] at hp
    exact resumePlan_charged hD.exact hc hp
  · intro latest' hl'
    rw [hl] at hl'
    cases hl'
    exact Or.inl rfl
  · intro hnil
    unfold RunFiles.latest at hl
    rw [hnil] at hl
    cases hl
  · refine resumePlan_valid hD ?_ ((h.checked.seats seat run hr).1 r hres) hp
    rw [hplan]
    exact h.valid latest (List.mem_of_getLast? hl)

theorem nextAttempt_launch (h : s.Ledger root) (hroot : root.Valid) (hev : s.files.events = []) :
    NextAttempt root s
      { plan := s.files.plan, kind := .initial, ordinal := 0, parentAttemptId := none
        expectedPriorStatus := none, existingWorktree := none, continuing := false } := by
  have halive : s.files.abandoning = false := by
    unfold RunFiles.abandoning
    rw [hev]
    rfl
  refine ⟨?_, fun _ _ => Or.inr rfl, Or.inl ⟨rfl, rfl, hev, h.plan⟩, halive, h.plan ▸ hroot⟩
  intro u hu wid hnew earlier latest hatt
  have hatt' : u.files.attempts ++ [_] = earlier ++ [latest] := hatt
  obtain ⟨hearlier, hlast⟩ := List.append_inj' hatt' rfl
  cases hlast
  have hnil : u.files.attempts = [] := by
    cases hu' : u.files.attempts with
    | nil => rfl
    | cons a as =>
      exfalso
      have ha : a ∈ u.files.attempts := by
        rw [hu']
        exact List.mem_cons_self
      refine hnew a ha ?_
      rw [← hu.ledger.ids a ha, hu.ledger.first a (by rw [hu']; rfl), h.plan]
  rw [← hearlier, hnil]
  show Charged root.limits s.files.plan.limits [] (countKind .retry (u.files.attempts ++ [_]))
    (countKind .resume (u.files.attempts ++ [_]))
  rw [hnil, h.plan]
  exact ⟨rfl, by cases root.limits.totalTokens <;> rfl, by simp, rfl, rfl⟩

/-! ## Starts that are cut short -/

/-- The books of a run, and that start-up finds them. -/
structure RunState.Budgeted (root : Plan) (s : RunState) : Prop where
  ledger : s.Ledger root
  recoverable : s.Recoverable

theorem RunState.Budgeted.other (h : s.Budgeted root) {e : Effect} (he : e.onFiles = true)
    (hs : e.isSnapshot = false) (hr : e.record? = none) (hv : e.event? = none) :
    (s.perform seat e).Budgeted root := by
  refine ⟨h.ledger.other he hs hr hv, ?_⟩
  cases e with
  | createRunRecord | reserveWorktree _ | reserveSnapshot _ | removeSnapshot _ | removeSnapshots =>
    exact h.recoverable
  | append _ => cases hv
  | writeSnapshot _ => cases hs
  | createAttempt _ => cases hr
  | remember _ | execute _ | settleLease => cases he

theorem RunState.Budgeted.undo (h : s.Budgeted root) (es : List Effect) (cut : ℕ) :
    ((abandonedCheckout es cut).foldl (perform seat) s).Budgeted root := by
  refine (AllCuts.of_preserved h ?_).foldl
  intro u e he hu
  obtain ⟨id, rfl⟩ := RunState.mem_abandonedCheckout he
  exact hu.other rfl rfl rfl rfl

/-- The executor has the attempt of a start that has come to its end. -/
theorem executed_take {f : RunFiles} {cut : ℕ}
    (h : ((startEffects f i).take cut).any Effect.isExecute = true) :
    ∃ before, (startEffects f i).take cut = before ++ [.execute (.start i.plan)] := by
  obtain ⟨e, he, hx⟩ := List.any_eq_true.mp h
  obtain ⟨-, checkout, id, record, hc, ha, hes⟩ :=
    startEffects_executes (List.mem_of_mem_take he) (Or.inl hx)
  have hsplit : startEffects f i =
      (i.opening ++ checkout ++ record) ++ [.execute (.start i.plan)] := by
    rw [hes]
    simp
  refine ⟨i.opening ++ checkout ++ record, ?_⟩
  have hnone : ∀ e ∈ i.opening ++ checkout ++ record, e.isExecute = false := by
    intro e hm
    rcases List.mem_append.mp hm with hm | hm
    · exact (not_execute_opening hc hm).1
    · rcases attemptEffects_cases ha with rfl | ⟨-, -, rfl⟩
      · cases hm
      · rw [List.mem_singleton.mp hm]
        rfl
  rw [hsplit] at he ⊢
  by_cases hcut : cut ≤ (i.opening ++ checkout ++ record).length
  · rw [List.take_append_of_le_length hcut] at he
    rw [hnone e (List.mem_of_mem_take he)] at hx
    cases hx
  · rw [List.take_of_length_le]
    rw [List.length_append, List.length_singleton]
    omega

/-- **A start keeps the books and what start-up finds of them**, when it knows of its attempt, and
its record, if any, is followed by the executor or is the first. -/
theorem budgeted_cut {cut : ℕ} (h : s.Budgeted root) (hl : s.lease = none)
    (hi : ((startEffects s.files i).take cut).any Effect.isAttempt = true → NextAttempt root s i)
    (hrec : ((startEffects s.files i).take cut).any Effect.isRecord = true →
      ((startEffects s.files i).take cut).any Effect.isExecute = true ∨
        s.files.events = [] ∧ i.continuing = false) :
    (((startEffects s.files i).take cut).foldl (perform seat) s).Budgeted root := by
  have hof : ∀ e ∈ (startEffects s.files i).take cut, e.OfStart i :=
    fun e he => startEffects_ofStart s.files i e (List.mem_of_mem_take he)
  by_cases hatt : ((startEffects s.files i).take cut).any Effect.isAttempt = true
  · have hledger : (((startEffects s.files i).take cut).foldl (perform seat) s).Ledger root := by
      rw [← cutShort_eq_foldl]
      exact (ledger_start h.ledger hl (hi hatt)).cutShort cut
    refine ⟨hledger, ?_⟩
    intro ho
    by_cases hx : ((startEffects s.files i).take cut).any Effect.isExecute = true
    · obtain ⟨before, hb⟩ := executed_take hx
      refine Or.inr ⟨seat, .start i.plan, ?_, ?_, rfl⟩
      · rw [hb, List.foldl_append]
        rfl
      · rw [hb, List.foldl_append]
        simp [perform, setSeat]
    · -- The first attempt is recorded, and nothing else of the run is.
      left
      have hempty : s.files.events = [] ∧ i.continuing = false := by
        obtain ⟨e, he, hea⟩ := List.any_eq_true.mp hatt
        have hrecord : ((startEffects s.files i).take cut).any Effect.isRecord = true := by
          refine List.any_eq_true.mpr ⟨e, he, ?_⟩
          cases e with
          | createAttempt _ => rfl
          | execute run => exact absurd (List.any_eq_true.mpr ⟨_, he, rfl⟩) hx
          | _ => cases hea
        exact (hrec hrecord).resolve_left hx
      have hstarting : ∀ e ∈ (startEffects s.files i).take cut, e.isStarting = true := by
        intro e he
        have hoe := hof e he
        cases e with
        | execute run => exact absurd (List.any_eq_true.mpr ⟨_, he, rfl⟩) hx
        | writeSnapshot _ | removeSnapshot _ | removeSnapshots | remember _ | settleLease =>
          exact hoe.elim
        | _ => rfl
      have hquiet : ((startEffects s.files i).take cut).filterMap Effect.event? = [] := by
        refine List.filterMap_eq_nil_iff.mpr fun e he => ?_
        have hoe := hof e he
        cases e with
        | append e =>
          have hcont : i.continuing = true := hoe.1
          rw [hempty.2] at hcont
          cases hcont
        | _ => rfl
      have hevents : (((startEffects s.files i).take cut).foldl (perform seat) s).files.events =
          [] := by
        rw [foldl_starting s hstarting]
        show s.files.events ++ _ = []
        rw [hquiet, hempty.1]
        rfl
      refine hledger.recovers ho ?_
      obtain ⟨-, hfew, -⟩ := hledger.empty hevents
      unfold RunFiles.settledUp
      rw [hevents, decide_eq_true hfew]
      simp [lastSequence]
  · have hopened : Opened root i s
        (((startEffects s.files i).take cut).foldl (perform seat) s) :=
      (opened_cuts h.ledger hl hof ?_).foldl
    · refine ⟨hopened.ledger, fun ho => Or.inl (hopened.recovers ?_)⟩
      exact h.recoverable.recovers hl (hopened.abandoning.symm.trans ho)
    · intro e he
      by_contra hne
      rw [Bool.not_eq_false] at hne
      exact hatt (List.any_eq_true.mpr ⟨e, he, hne⟩)

/-- **A call that starts an attempt keeps the books**, when it meets the condition. -/
theorem budgeted_start (hD : D.Sound) (hroot : root.Valid) (call : StartCall) {cut : ℕ}
    (undo : Bool) (hb : s.Budgeted root)
    (hok : keepsBudget D s (call.act seat cut undo) = true)
    (h : s.step D (call.act seat cut undo) = some t) : t.Budgeted root := by
  obtain ⟨es, he, rfl⟩ := step_act h
  have hcut : ((es.take cut).foldl (perform seat) s).Budgeted root := by
    have hw : s.writes D (call.act seat cut undo) cut = es.take cut := by
      have heff : s.effects D (call.act seat cut undo) = some es := by
        rw [← he]
        cases call <;> cases undo <;> rfl
      unfold RunState.writes
      rw [heff]
      rfl
    have hnonempty : ∀ p : Effect → Bool, (es.take cut).any p = true → es ≠ [] := by
      rintro p hp rfl
      simp at hp
    cases call with
    | launch =>
      obtain ⟨-, hl, rfl⟩ := launchEffects_cases he
      have hok' : (s.writes D (StartCall.launch.act seat cut undo) cut).any Effect.isAttempt = true →
          s.files.events = [] := by
        intro ha
        have hor : (!(s.writes D (StartCall.launch.act seat cut undo) cut).any Effect.isAttempt ||
            s.files.events.isEmpty) = true := by
          cases undo <;> exact hok
        rw [ha] at hor
        simpa using hor
      rw [hw] at hok'
      refine budgeted_cut hb hl (fun ha => nextAttempt_launch hb.ledger hroot (hok' ha)) ?_
      intro hr
      refine Or.inr ⟨hok' ?_, rfl⟩
      obtain ⟨e, hm, hre⟩ := List.any_eq_true.mp hr
      refine List.any_eq_true.mpr ⟨e, hm, ?_⟩
      cases e <;> first | rfl | cases hre
    | retry =>
      obtain ⟨run, latest, r, plan, hr, hlat, hres, hst, -, hid, hl, hp, rfl⟩ := retryEffects_cases he
      refine budgeted_cut hb hl ?_ ?_
      · intro ha
        obtain ⟨ho, hev⟩ := admitted_alive hb.ledger rfl (by rintro (h | h) <;> cases h)
          (hnonempty _ ha)
        exact nextAttempt_retry hD hb.ledger hr hlat hres hid hp ho hev
      · intro ha
        left
        rw [← hw] at ha ⊢
        have hor : (!(s.writes D (StartCall.retry.act seat cut undo) cut).any Effect.isRecord ||
            (s.writes D (StartCall.retry.act seat cut undo) cut).any Effect.isExecute) = true := by
          cases undo <;> exact hok
        rw [ha] at hor
        simpa using hor
    | resume continuing =>
      obtain ⟨run, latest, r, plan, hr, hlat, hres, hperm, -, hid, hl, hp, rfl⟩ :=
        resumeEffects_cases he
      refine budgeted_cut hb hl ?_ ?_
      · intro ha
        obtain ⟨ho, hev⟩ := admitted_alive hb.ledger rfl (resumePermitted_status hperm)
          (hnonempty _ ha)
        exact nextAttempt_resume hD hb.ledger hr hlat hres hid hp ho hev
      · intro ha
        left
        rw [← hw] at ha ⊢
        have hor : (!(s.writes D ((StartCall.resume continuing).act seat cut undo) cut).any
              Effect.isRecord ||
            (s.writes D ((StartCall.resume continuing).act seat cut undo) cut).any
              Effect.isExecute) = true := by
          cases undo <;> exact hok
        rw [ha] at hor
        simpa using hor
  cases undo with
  | false => exact hcut
  | true => exact hcut.undo es cut

end Starts

/-! ## Closed books -/

section Operations

variable {seat : ℕ}

theorem settleLease_files (u : RunState) (seat : ℕ) :
    (u.perform seat .settleLease).files = u.files := by
  simp only [RunState.perform]
  split_ifs <;> rfl

theorem settleLease_blocked {u : RunState} {run : ActiveRun} (hr : u.seats seat = some run)
    (hst : run.status = .cleanupBlocked) : u.perform seat .settleLease = u := by
  simp only [RunState.perform]
  rw [if_neg]
  rintro ⟨-, hall⟩
  rw [hr, Option.all_some, hst] at hall
  simp at hall

/-- What is still written of a run once its abandonment has been requested. -/
def Effect.Closing (s : RunState) : Effect → Prop
  | .append e =>
    e.isQuiet = true ∨ e.isAbandoning = true ∨ ∃ r, e = .runAbandoned r ∧ r.check = true
  | .writeSnapshot execution => execution.result.check = true
  | .remember run =>
    run.flight = .settled ∧ run.Rests ∧ (∃ r, run.result = some r ∧ r.result.check = true) ∧
      (run.plan = s.files.plan ∨ ∃ a ∈ s.files.attempts, a.plan = run.plan)
  | .removeSnapshot _ | .removeSnapshots | .settleLease => True
  | _ => False

/-- The books are closed. -/
structure Closed (root : Plan) (s u : RunState) : Prop where
  ledger : u.Ledger root
  abandoning : u.files.abandoning = true
  attempts : u.files.attempts = s.files.attempts

theorem Closed.idle {u : RunState} (h : Closed root s u) {n : ℕ} {x : ActiveRun}
    (hx : x ∈ u.seats n) : x.result ≠ none := by
  intro hn
  have ho := (h.ledger.flight n x hx hn).2.1
  rw [h.abandoning] at ho
  cases ho

theorem Closed.budgeted {u : RunState} (h : Closed root s u) : u.Budgeted root := by
  refine ⟨h.ledger, ?_⟩
  intro ho
  rw [h.abandoning] at ho
  cases ho

theorem Closed.perform {u : RunState} (h : Closed root s u) (hp : s.files.plan = root) {e : Effect}
    (he : e.Closing s) : Closed root s (u.perform seat e) := by
  have hopen : ∀ {P : Prop}, u.files.abandoning = false → P := by
    intro P ho
    rw [h.abandoning] at ho
    cases ho
  have hne : u.files.events ≠ [] := by
    intro hnil
    have ha := h.abandoning
    unfold RunFiles.abandoning at ha
    rw [hnil] at ha
    cases ha
  have hidle : ∀ n, ∀ x ∈ u.seats n, x.result ≠ none := fun n x hx => h.idle hx
  cases e with
  | append e =>
    rcases he with hq | hc
    · exact ⟨h.ledger.report (Or.inl hq) fun n x hx _ _ => hidle n x hx, abandoning_append e h.abandoning,
        h.attempts⟩
    · obtain ⟨hl, ha⟩ := h.ledger.close seat hidle hc
      exact ⟨hl, ha, h.attempts⟩
  | writeSnapshot x =>
    exact ⟨(h.ledger.snapshot _ he hne hopen fun n y hy hn => absurd hn (hidle n y hy)).1, h.abandoning,
      h.attempts⟩
  | remember run =>
    obtain ⟨hf, hrests, ⟨r, hr, hc⟩, hk⟩ := he
    refine ⟨h.ledger.rememberResult hr hf hc hrests hne ?_ (fun n x hx hn => absurd hn (hidle n x hx))
      hopen, h.abandoning, h.attempts⟩
    rw [h.attempts, ← hp]
    exact hk
  | removeSnapshot _ | removeSnapshots =>
    exact ⟨h.ledger.other rfl rfl rfl rfl, h.abandoning, h.attempts⟩
  | settleLease =>
    have hl : (u.perform seat .settleLease).Ledger root := by
      refine h.ledger.settleLease fun x hx => ⟨?_, fun hn => absurd hn (hidle seat x hx)⟩
      by_contra hf
      rw [Bool.not_eq_false] at hf
      exact hidle seat x hx ((h.ledger.disciplined.rests seat x hx).inFlight hf).1
    have hfiles := settleLease_files u seat
    exact ⟨hl, by rw [hfiles]; exact h.abandoning, by rw [hfiles]; exact h.attempts⟩
  | _ => exact he.elim

/-- What is written of a run whose abandonment has been requested keeps the books closed. -/
theorem closed_cuts (h : s.Ledger root) (ho : s.files.abandoning = true) {es : List Effect}
    (hes : ∀ e ∈ es, e.Closing s) : AllCuts (perform seat) (RunState.Budgeted root) es s := by
  have hall : AllCuts (perform seat) (Closed root s) es s :=
    AllCuts.of_preserved ⟨h, ho, rfl⟩ fun u e he hu => hu.perform h.plan (hes e he)
  exact hall.mono fun u hu => hu.budgeted

/-! ## Open books -/

/-- A state that differs in the notes of its journal alone. -/
structure Noted (root : Plan) (s u : RunState) : Prop where
  budgeted : u.Budgeted root
  seats : u.seats = s.seats
  lease : u.lease = s.lease
  attempts : u.files.attempts = s.files.attempts
  abandoning : u.files.abandoning = s.files.abandoning
  spent : ∀ id, attemptSpent id u.files.events = attemptSpent id s.files.events

theorem Noted.perform {u : RunState} (h : Noted root s u)
    (hended : ∀ n, ∀ x ∈ s.seats n, ∀ y, x.flight = .ended y → x.result ≠ none) {e : Effect}
    (he : e = .removeSnapshots ∨ ∃ note : RunEvent, e = .append note ∧ note.isQuiet = true) :
    Noted root s (u.perform seat e) := by
  rcases he with rfl | ⟨e, rfl, hq⟩
  · exact ⟨h.budgeted.other rfl rfl rfl rfl, h.seats, h.lease, h.attempts, h.abandoning, h.spent⟩
  · obtain ⟨ht, -, ha, hb, -⟩ := Reported.cases (s := u) (Or.inl hq)
    have hc : ∀ id, e.checkpoint? id = none := by
      intro id
      cases e <;> first | rfl | cases hq
    have hsame : ∀ id, attemptSpent id (u.files.events ++ [e]) = attemptSpent id u.files.events :=
      fun id => attemptSpent_same u.files.events ht (hc id)
    have habandoning := abandoning_concat u.files e ha hb
    refine ⟨⟨h.budgeted.ledger.report (Or.inl hq) ?_, ?_⟩, h.seats, h.lease, h.attempts,
      habandoning.trans h.abandoning, fun id => (hsame id).trans (h.spent id)⟩
    · rw [h.seats]
      exact hended
    · intro ho
      refine (h.budgeted.recoverable (habandoning.symm.trans ho)).imp ?_ fun hbusy => hbusy
      intro hrec latest hl
      show resultSpent { u.files with events := u.files.events ++ [e] }.recovered.1 =
        attemptSpent latest.attemptId (u.files.events ++ [e])
      rw [u.files.recovered_quiet u.files.events hq, hsame]
      exact hrec latest hl

theorem noted_append (h : s.Budgeted root)
    (hended : ∀ n, ∀ x ∈ s.seats n, ∀ y, x.flight = .ended y → x.result ≠ none) {note : RunEvent}
    (hq : note.isQuiet = true) : Noted root s (s.perform seat (.append note)) :=
  Noted.perform ⟨h, rfl, rfl, rfl, rfl, fun _ => rfl⟩ hended (Or.inr ⟨note, rfl, hq⟩)

theorem noted_cuts (h : s.Budgeted root)
    (hended : ∀ n, ∀ x ∈ s.seats n, ∀ y, x.flight = .ended y → x.result ≠ none) {es : List Effect}
    (hes : ∀ e ∈ es, e = .removeSnapshots ∨ ∃ note : RunEvent, e = .append note ∧ note.isQuiet = true) :
    AllCuts (perform seat) (Noted root s) es s :=
  AllCuts.of_preserved ⟨h, rfl, rfl, rfl, rfl, fun _ => rfl⟩ fun _ e he hu =>
    hu.perform hended (hes e he)

/-- A run is remembered with a result that start-up finds as well. -/
theorem RunState.Budgeted.rememberResult (h : s.Budgeted root) {run' : ActiveRun}
    {r : AttemptExecutionResult} (hres : run'.result = some r) (hflight : run'.flight = .settled)
    (hvalid : isRunResult r.result = true) (hstatus : run'.status = r.result.status)
    (hne : s.files.events ≠ [])
    (hknown : run'.plan = root ∨ ∃ a ∈ s.files.attempts, a.plan = run'.plan)
    (honly : ∀ n, ∀ x ∈ s.seats n, x.result = none → n = seat)
    (hspent : ∀ latest ∈ s.files.latest,
      resultSpent r.result = attemptSpent latest.attemptId s.files.events)
    (hrec : s.files.abandoning = false → s.files.Recovers) :
    (s.perform seat (.remember run')).Budgeted root := by
  have hrests : run'.Rests := by
    unfold ActiveRun.Rests
    rw [hflight, hres]
    exact ⟨hstatus, isResultStatus_of_valid hvalid⟩
  exact ⟨h.ledger.rememberResult hres hflight (check_of_isRunResult hvalid) hrests hne hknown honly
    fun _ latest hl _ => hspent latest hl, fun ho => Or.inl (hrec ho)⟩

/-- **A result of what the latest attempt has used is written and remembered.** -/
theorem settled_cuts {run : ActiveRun} {x : AttemptExecutionResult} (h : s.Budgeted root)
    (hr : s.seats seat = some run) (hcan : s.canHold seat = true)
    (ho : s.files.abandoning = false) (hne : s.files.events ≠ [])
    (hx : isRunResult x.result = true)
    (hspent : ∀ latest ∈ s.files.latest,
      resultSpent x.result = attemptSpent latest.attemptId s.files.events)
    (hflight : (∀ y, run.flight ≠ .ended y) → run.flight.inFlight = false) :
    AllCuts (perform seat) (RunState.Budgeted root)
      [.writeSnapshot x, .remember (run.settle x), .settleLease] s := by
  have honly : ∀ n, ∀ y ∈ s.seats n, y.result = none → n = seat := fun n y hy hn =>
    h.ledger.only hcan hy hn
  have hsnapshot : (s.perform seat (.writeSnapshot x)).Ledger root ∧
      (s.files.abandoning = false → (s.perform seat (.writeSnapshot x)).files.Recovers) := by
    refine h.ledger.snapshot seat (check_of_isRunResult hx) hne (fun _ => ⟨hx, hspent⟩) ?_
    intro n y hy hn latest hl hph
    obtain rfl : run = y := by
      have hsame := honly n y hy hn
      subst hsame
      exact Option.some.inj (hr.symm.trans hy)
    cases hfl : run.flight with
    | ended execution =>
      rw [hfl] at hph
      exact ⟨hph.1, hph.2.1, recovers_prior ho (priorResult_written hx) hspent⟩
    | running b =>
      have hno := hflight (by rw [hfl]; simp)
      rw [hfl] at hno
      cases hno
    | settled => trivial
    | rejected => trivial
  have h1 : (s.perform seat (.writeSnapshot x)).Budgeted root :=
    ⟨hsnapshot.1, fun _ => Or.inl (hsnapshot.2 ho)⟩
  have h2 : ((s.perform seat (.writeSnapshot x)).perform seat
      (.remember (run.settle x))).Budgeted root :=
    h1.rememberResult rfl rfl hx rfl hne (h.ledger.known seat run hr) honly hspent
      fun _ => hsnapshot.2 ho
  refine ⟨h, h1, h2, ?_⟩
  refine ⟨h2.ledger.settleLease ?_, ?_⟩
  · intro y hy
    simp only [perform, setSeat, if_true] at hy
    cases hy
    exact ⟨rfl, fun hn => by cases hn⟩
  · intro _
    rw [settleLease_files]
    exact Or.inl (hsnapshot.2 ho)

theorem take_of_unwritten {before rest : List Effect} {x : AttemptExecutionResult} {cut : ℕ}
    (h : ((before ++ .writeSnapshot x :: rest).take cut).any Effect.isSnapshot = false) :
    (before ++ .writeSnapshot x :: rest).take cut = before.take cut := by
  by_cases hc : cut ≤ before.length
  · exact List.take_append_of_le_length hc
  · exfalso
    have hmem : Effect.writeSnapshot x ∈ (before ++ .writeSnapshot x :: rest).take cut := by
      have hsplit : before ++ .writeSnapshot x :: rest = (before ++ [.writeSnapshot x]) ++ rest := by
        simp
      rw [hsplit, List.take_append]
      refine List.mem_append_left _ ?_
      rw [List.take_of_length_le]
      · simp
      · rw [List.length_append, List.length_singleton]
        omega
    exact absurd rfl (List.any_eq_false.mp h _ hmem)

/-- **A result is derived anew**: the books are kept when it is of what the latest attempt has
used, or is not written. -/
theorem budgeted_rewrite {run : ActiveRun} {es : List Effect} (before : List Effect) {note : RunEvent}
    {x : AttemptExecutionResult} {cut : ℕ} (h : s.Budgeted root) (hr : s.seats seat = some run)
    (hcan : s.canHold seat = true) (hf : run.flight.inFlight = false)
    (ho : s.files.abandoning = false)
    (hes : es = before ++ [Effect.append note] ++
      Effect.writeSnapshot x :: [.remember (run.settle x), .settleLease])
    (hbefore : ∀ e ∈ before, e = .removeSnapshots) (hnote : note.isQuiet = true)
    (hx : isRunResult x.result = true)
    (hspent : (es.take cut).any Effect.isSnapshot = true → ∀ latest ∈ s.files.latest,
      resultSpent x.result = attemptSpent latest.attemptId s.files.events) :
    (cutShort (perform seat) cut es s).Budgeted root := by
  have hended : ∀ n, ∀ y ∈ s.seats n, ∀ z, y.flight = .ended z → y.result ≠ none := by
    intro n y hy z hz hn
    have hsame := h.ledger.only hcan hy hn
    subst hsame
    obtain rfl : run = y := Option.some.inj (hr.symm.trans hy)
    rw [hz] at hf
    cases hf
  have hnoted : AllCuts (perform seat) (Noted root s) (before ++ [Effect.append note]) s := by
    refine noted_cuts h hended ?_
    intro e he
    rcases List.mem_append.mp he with hm | hm
    · exact Or.inl (hbefore e hm)
    · exact Or.inr ⟨note, List.mem_singleton.mp hm, hnote⟩
  by_cases hw : (es.take cut).any Effect.isSnapshot = true
  · refine AllCuts.cutShort ?_ cut
    rw [hes, allCuts_append]
    refine ⟨hnoted.mono fun u hu => hu.budgeted, ?_⟩
    have hu := hnoted.foldl
    refine settled_cuts hu.budgeted (by rw [hu.seats]; exact hr) ?_ (hu.abandoning.trans ho) ?_ hx ?_
      fun _ => hf
    · unfold RunState.canHold at hcan ⊢
      rw [hu.lease]
      exact hcan
    · rw [List.foldl_append]
      simp [RunState.perform, RunFiles.perform]
    · intro latest hl
      rw [hu.spent]
      refine hspent hw latest ?_
      unfold RunFiles.latest at hl ⊢
      rw [← hu.attempts]
      exact hl
  · rw [Bool.not_eq_true, hes] at hw
    rw [cutShort_eq_foldl, hes, take_of_unwritten hw, ← cutShort_eq_foldl]
    exact (hnoted.cutShort cut).budgeted

/-! ## Operations that keep the books -/

theorem run_some {cut : ℕ} {all : Option (List Effect)} (h : s.run seat cut all = some t) :
    ∃ es, all = some es ∧ t = cutShort (perform seat) cut es s := by
  obtain ⟨es, he, ht⟩ := Option.map_eq_some_iff.mp h
  exact ⟨es, he, ht.symm⟩

theorem writes_eq {a : RunAct} {es : List Effect} (h : s.effects D a = some es) (cut : ℕ) :
    s.writes D a cut = es.take cut := by
  unfold RunState.writes
  rw [h]
  rfl

theorem closing_settle (h : s.Ledger root) (run : ActiveRun) (hr : s.seats seat = some run)
    {x : AttemptExecutionResult} (hc : x.result.check = true) :
    (Effect.remember (run.settle x)).Closing s := by
  refine ⟨rfl, run.rests_settle ((RunResult.check_iff _).mp hc).2.1, ⟨x, rfl, hc⟩, ?_⟩
  rw [h.plan]
  exact h.known seat run hr

theorem spent_reconcileResult (plan : RunPlan) (pending : Bool)
    (memory : Option AttemptExecutionResult) (seen : Evidence) :
    resultSpent (reconcileResult plan pending memory seen) =
      (memory.map fun m => resultSpent m.result).getD (Spent.of emptyUsage 0) := by
  cases memory <;> rfl

theorem spent_releasedResult (plan : RunPlan) (pending : Bool) (previous : RunResult) :
    resultSpent (releasedResult plan pending previous) = resultSpent previous := by
  unfold releasedResult
  split_ifs <;> rfl

theorem budgeted_reconcile {o : Observation} {cut : ℕ} (h : s.Budgeted root)
    (hok : keepsBudget D s (.reconcile seat o cut) = true)
    (ht : s.step D (.reconcile seat o cut) = some t) : t.Budgeted root := by
  obtain ⟨es, he, rfl⟩ := run_some ht
  have hw := writes_eq (D := D) (a := .reconcile seat o cut) he cut
  obtain ⟨run, hr, hst, hcan, hdur, hes⟩ := reconcileEffects_cases he
  have hbefore : ∀ e ∈ snapshotEffects run.plan.toRunPlan
      (evidence run.plan.toRunPlan s.files o).sandboxProcess o, e = .removeSnapshots := by
    intro e hm
    unfold snapshotEffects at hm
    split_ifs at hm
    · exact List.mem_singleton.mp hm
    · cases hm
  cases hx : reconcileExecution run.plan.toRunPlan (abandonmentPending s.files.events) run.result
      (evidence run.plan.toRunPlan s.files o) with
  | none =>
    rw [hx] at hes
    refine AllCuts.cutShort (AllCuts.of_preserved h ?_) cut
    intro u e hm hu
    rw [hes, List.append_nil] at hm
    rw [hbefore e hm]
    exact hu.other rfl rfl rfl rfl
  | some x =>
    rw [hx] at hes
    obtain ⟨hvalid, hresult⟩ := reconcileExecution_cases hx
    cases ho : s.files.abandoning with
    | true =>
      refine (closed_cuts h.ledger ho ?_).cutShort cut
      intro e hm
      rw [hes] at hm
      rcases List.mem_append.mp hm with hm | hm
      · rw [hbefore e hm]
        trivial
      · simp only [List.mem_cons, List.not_mem_nil, or_false] at hm
        rcases hm with rfl | rfl | rfl | rfl
        · split_ifs
          · exact Or.inr (Or.inr ⟨_, rfl, check_of_isRunResult hvalid⟩)
          · exact Or.inl rfl
        · exact check_of_isRunResult hvalid
        · exact closing_settle h.ledger run hr (check_of_isRunResult hvalid)
        · trivial
    | false =>
      have hpending : abandonmentPending s.files.events = false :=
        (Bool.or_eq_false_iff.mp ho).1
      have hnot : ¬x.result.status = .abandoned := by
        rw [hresult, hpending]
        intro hab
        simp only [reconcileResult, reconcileStatus, Bool.false_eq_true, if_false] at hab
        split_ifs at hab
        · split at hab <;> cases hab
      dsimp only at hes
      rw [if_neg hnot] at hes
      refine budgeted_rewrite _ h hr hcan ?_ ho
        (by rw [hes, List.append_assoc]; rfl) hbefore rfl hvalid ?_
      · exact (h.ledger.disciplined.rests seat run hr).not_inFlight (by simp [hst]) (by simp [hst])
      · intro hwritten latest hl
        have hcond : (s.seats seat).all (fun run =>
            match run.result with
            | some _ => s.files.isLatest run
            | none => decide (attemptSpent run.plan.attemptId s.files.events =
                Spent.of emptyUsage 0)) = true := by
          simp only [keepsBudget, hw, hwritten, ho, Bool.not_true, Bool.false_or] at hok
          exact hok
        rw [hr, Option.all_some] at hcond
        rw [hresult, spent_reconcileResult]
        cases hres : run.result with
        | none =>
          rw [hres] at hcond
          rw [← h.ledger.latest_of hr hres hl]
          exact (of_decide_eq_true hcond).symm
        | some m =>
          rw [hres] at hcond
          have hid : latest.attemptId = run.plan.attemptId := by
            have hall : s.files.latest.all
                (fun latest => decide (latest.attemptId = run.plan.attemptId)) = true := hcond
            rw [hl, Option.all_some] at hall
            exact of_decide_eq_true hall
          exact h.ledger.knows ho seat run hr m hres latest hl hid.symm

theorem budgeted_release {released : Bool} {cut : ℕ} (h : s.Budgeted root)
    (hok : keepsBudget D s (.release seat released cut) = true)
    (ht : s.step D (.release seat released cut) = some t) : t.Budgeted root := by
  obtain ⟨es, he, rfl⟩ := run_some ht
  have hw := writes_eq (D := D) (a := .release seat released cut) he cut
  obtain ⟨run, hr, ⟨h1, h2, -⟩, hcan, hdur, -, hes⟩ := releaseEffects_cases he
  have hf := (h.ledger.disciplined.rests seat run hr).not_inFlight h1 h2
  have hended : ∀ n, ∀ y ∈ s.seats n, ∀ z, y.flight = .ended z → y.result ≠ none := by
    intro n y hy z hz hn
    have hsame := h.ledger.only hcan hy hn
    subst hsame
    obtain rfl : run = y := Option.some.inj (hr.symm.trans hy)
    rw [hz] at hf
    cases hf
  cases hres : run.result with
  | none =>
    rw [hres] at hes
    have hes' : es = [.append .runReleased, .settleLease] := hes
    have hlast : Noted root s (s.perform seat (.append .runReleased)) := noted_append h hended rfl
    have hst := (h.ledger.disciplined.rests seat run hr).status_blocked hf hres
    refine AllCuts.cutShort ?_ cut
    rw [hes']
    refine ⟨h, hlast.budgeted, hlast.budgeted.ledger.settleLease ?_, ?_⟩
    · intro y hy
      rw [hlast.seats, hr] at hy
      cases hy
      exact ⟨hf, fun _ => hst⟩
    · rw [settleLease_blocked (u := s.perform seat (.append .runReleased)) hr hst]
      exact hlast.budgeted.recoverable
  | some memory =>
    rw [hres] at hes
    cases hx : releaseExecution run.plan.toRunPlan (abandonmentPending s.files.events) memory with
    | none =>
      simp only [hx] at hes
      rw [hes, cutShort_nil]
      exact h
    | some x =>
      simp only [hx] at hes
      obtain ⟨hvalid, hresult⟩ := releaseExecution_cases hx
      cases ho : s.files.abandoning with
      | true =>
        refine (closed_cuts h.ledger ho ?_).cutShort cut
        intro e hm
        rw [hes] at hm
        simp only [List.mem_cons, List.not_mem_nil, or_false] at hm
        rcases hm with rfl | rfl | rfl | rfl
        · exact Or.inl rfl
        · exact check_of_isRunResult hvalid
        · exact closing_settle h.ledger run hr (check_of_isRunResult hvalid)
        · trivial
      | false =>
        refine budgeted_rewrite [] h hr hcan hf ho hes (by simp) rfl hvalid ?_
        intro hwritten latest hl
        have hcond : (s.seats seat).all s.files.isLatest = true := by
          simp only [keepsBudget, hw, hwritten, ho, Bool.not_true, Bool.false_or] at hok
          exact hok
        rw [hr, Option.all_some] at hcond
        have hid : latest.attemptId = run.plan.attemptId := by
          have hall : s.files.latest.all
              (fun latest => decide (latest.attemptId = run.plan.attemptId)) = true := hcond
          rw [hl, Option.all_some] at hall
          exact of_decide_eq_true hall
        rw [hresult, spent_releasedResult]
        exact h.ledger.knows ho seat run hr memory hres latest hl hid.symm

theorem budgeted_abandon {released : Bool} {cut : ℕ} (h : s.Budgeted root)
    (ht : s.step D (.abandon seat released cut) = some t) : t.Budgeted root := by
  obtain ⟨es, he, rfl⟩ := run_some ht
  obtain ⟨run, memory, hr, hres, -, -, hl, -, hes⟩ := abandonEffects_cases he
  have hcheck : memory.result.check = true := (h.ledger.checked.seats seat run hr).1 memory hres
  obtain ⟨hledger, ho⟩ : (s.perform seat (.append .runAbandoning)).Ledger root ∧
      (s.perform seat (.append .runAbandoning)).files.abandoning = true :=
    h.ledger.close seat (fun n x hx => h.ledger.idle hl hx) (Or.inl rfl)
  refine AllCuts.cutShort ?_ cut
  rw [hes]
  refine ⟨h, closed_cuts hledger ho ?_⟩
  intro e hm
  have hsettle : ∀ x : AttemptExecutionResult, x.result.check = true →
      (Effect.remember (run.settle x)).Closing (s.perform seat (.append .runAbandoning)) :=
    fun x hc => closing_settle hledger run hr hc
  have hblocked : (abandonBlocked run.plan.toRunPlan memory.result).result.check = true :=
    check_of_isRunResult (abandonBlocked_valid hcheck)
  rcases List.mem_append.mp hm with hm | hm
  · rw [List.mem_singleton.mp hm]
    exact hsettle _ (abandonPending_check hcheck)
  · split_ifs at hm with hrel hdone
    · rcases List.mem_pair.mp hm with rfl | rfl
      · exact hblocked
      · exact hsettle _ hblocked
    · have hc := check_of_isRunResult hdone.2
      simp only [List.mem_cons, List.not_mem_nil, or_false] at hm
      rcases hm with rfl | rfl | rfl
      · exact Or.inr (Or.inr ⟨_, rfl, hc⟩)
      · exact hsettle _ hc
      · exact hc
    · cases hm

theorem budgeted_open {handoff : Option WorktreeRecord} {cut : ℕ} (h : s.Budgeted root)
    (ht : s.step D (.open seat handoff cut) = some t) : t.Budgeted root := by
  obtain ⟨es, he, rfl⟩ := Option.map_eq_some_iff.mp ht
  obtain ⟨hseat, -, hl, hes⟩ := openEffects_cases he
  have hidle : ∀ n, ∀ x ∈ s.seats n, x.result ≠ none := fun n x hx => h.ledger.idle hl hx
  have hresult := recoveredExecution_result s.files handoff
  have hcheck : (s.files.recoveredExecution handoff).result.check = true := by
    rw [hresult]
    exact recovered_check s.files
  have hknown : s.files.recoveredPlan = s.files.plan ∨
      ∃ a ∈ s.files.attempts, a.plan = s.files.recoveredPlan := by
    unfold RunFiles.recoveredPlan
    cases hlat : s.files.latest with
    | none => exact Or.inl rfl
    | some latest => exact Or.inr ⟨latest, List.mem_of_getLast? hlat, rfl⟩
  refine AllCuts.cutShort ?_ _
  cases ho : s.files.abandoning with
  | true =>
    refine closed_cuts h.ledger ho ?_
    intro e hm
    rw [hes] at hm
    rcases List.mem_append.mp hm with hm | hm
    · split at hm
      · rcases List.mem_pair.mp hm with rfl | rfl
        · exact Or.inl rfl
        · exact hcheck
      · cases hm
    · rw [List.mem_singleton.mp hm]
      exact ⟨rfl, ⟨rfl, ((RunResult.check_iff _).mp hcheck).2.1⟩, ⟨_, rfl, hcheck⟩, hknown⟩
  | false =>
    have hvalid : isRunResult (s.files.recoveredExecution handoff).result = true := by
      rw [hresult]
      exact recovered_valid (Bool.or_eq_false_iff.mp ho).1
    have hrec := h.recoverable.recovers hl ho
    have hspent : ∀ latest ∈ s.files.latest,
        resultSpent (s.files.recoveredExecution handoff).result =
          attemptSpent latest.attemptId s.files.events := by
      rw [hresult]
      exact hrec
    have hknown' : s.files.recoveredPlan = root ∨
        ∃ a ∈ s.files.attempts, a.plan = s.files.recoveredPlan := by
      rw [← h.ledger.plan]
      exact hknown
    cases hnew : s.files.recovered.2 with
    | none =>
      -- The result of the run is durable, so that something has been written.
      have hne : s.files.events ≠ [] := by
        intro hnil
        have hsn := (h.ledger.empty hnil).1
        unfold RunFiles.recovered RunFiles.persistedResult RunFiles.priorResult at hnew
        rw [hnil, hsn] at hnew
        cases hnew
      rw [hnew] at hes
      rw [hes]
      exact ⟨h, h.rememberResult rfl rfl hvalid rfl hne hknown'
        (fun n x hx hn => absurd hn (hidle n x hx)) hspent fun _ => hrec⟩
    | some error =>
      rw [hnew] at hes
      have hnoted : Noted root s (s.perform seat (.append .startupReconciled)) :=
        noted_append h (fun n x hx _ _ => hidle n x hx) rfl
      have hne : (s.perform seat (.append .startupReconciled)).files.events ≠ [] := by
        simp [RunState.perform, RunFiles.perform]
      have hspent' : ∀ latest ∈ (s.perform seat (.append .startupReconciled)).files.latest,
          resultSpent (s.files.recoveredExecution handoff).result = attemptSpent latest.attemptId
            (s.perform seat (.append .startupReconciled)).files.events := by
        intro latest hlat
        rw [hspent latest hlat]
        exact (hnoted.spent latest.attemptId).symm
      have ho' : (s.perform seat (.append .startupReconciled)).files.abandoning = false :=
        hnoted.abandoning.trans ho
      have hnobody : ∀ n, ∀ x ∈ (s.perform seat (.append .startupReconciled)).seats n,
          x.result ≠ none := by
        rw [hnoted.seats]
        exact hidle
      obtain ⟨hledger, hrec'⟩ : (RunState.perform seat _ (.writeSnapshot
          ⟨(s.files.recoveredExecution handoff).result, [], none, none, none, some error⟩)).Ledger
            root ∧ _ :=
        hnoted.budgeted.ledger.snapshot seat hcheck hne (fun _ => ⟨hvalid, hspent'⟩)
          fun n x hx hn => absurd hn (hnobody n x hx)
      rw [hes]
      refine ⟨h, hnoted.budgeted, ⟨hledger, fun _ => Or.inl (hrec' ho')⟩, ?_⟩
      exact RunState.Budgeted.rememberResult ⟨hledger, fun _ => Or.inl (hrec' ho')⟩ rfl rfl hvalid rfl
        hne hknown' (fun n x hx hn => absurd hn (hidle n x hx)) hspent' fun _ => hrec' ho'

theorem budgeted_die (h : s.Budgeted root) (hok : keepsBudget D s (.die seat) = true) :
    (s.kill seat).Budgeted root := by
  refine ⟨h.ledger.kill, ?_⟩
  intro ho
  rcases h.recoverable ho with hrec | ⟨n, run, hl, hr, hn⟩
  · exact Or.inl hrec
  · by_cases hseat : n = seat
    · subst hseat
      have hcond : (s.seats n).all (fun run => run.result.isSome || s.files.settledUp) = true := hok
      rw [hr, Option.all_some, hn] at hcond
      exact Or.inl (h.ledger.recovers ho hcond)
    · refine Or.inr ⟨n, run, ?_, ?_, hn⟩
      · simp only [RunState.kill]
        rw [hl, if_neg]
        exact fun hc => hseat (Option.some.inj hc)
      · simp only [RunState.kill, setSeat]
        rw [if_neg hseat]
        exact hr

/-! ## Attempts in flight -/

/-- While the attempt of a seat is not settled, its end is not lost. -/
theorem budgeted_busy (h : s.Ledger root) (seat : ℕ) (run : ActiveRun) (hr : s.seats seat = some run)
    (hn : run.result = none) : s.Budgeted root :=
  ⟨h, fun _ => Or.inr ⟨seat, run, (h.flight seat run hr hn).1, hr, hn⟩⟩

/-- The seat of an attempt that is not settled remembers it otherwise. -/
theorem budgeted_rememberFlight (h : s.Ledger root) (run : ActiveRun) {run' : ActiveRun}
    (hr : s.seats seat = some run) (hn : run.result = none) (hn' : run'.result = none)
    (hplan : run'.plan = run.plan) (hrests : run'.Rests)
    (hres : ∀ r ∈ run'.flight.result?, r.check = true)
    (hphase : ∀ latest ∈ s.files.latest, run.flight.Phase s.files latest.attemptId →
      run'.flight.Phase s.files latest.attemptId) :
    (s.perform seat (.remember run')).Budgeted root := by
  have hseat : (s.perform seat (.remember run')).seats seat = some run' := by
    simp [RunState.perform, setSeat]
  exact budgeted_busy (h.rememberFlight hr hn hn' hplan hrests hres hphase) seat run' hseat hn'

theorem budgeted_begin (h : s.Budgeted root) (ht : s.step D (.begin seat) = some t) :
    t.Budgeted root := by
  refine RunState.step_allCuts ht (fun _ hc => by cases hc) (fun u id hu => hu.other rfl rfl rfl rfl) ?_
  intro es he
  obtain ⟨run, hr, hf, rfl⟩ := beginEffects_cases he
  have hin := (h.ledger.disciplined.rests seat run hr).inFlight (by rw [hf]; rfl)
  obtain ⟨hledger, hphase⟩ := h.ledger.begin hr hin.1 hf
  refine ⟨h, budgeted_busy hledger seat run hr hin.1, ?_⟩
  exact budgeted_rememberFlight hledger run hr hin.1 hin.1 rfl hin (by simp [Flight.result?])
    fun latest hl _ => hphase latest hl

theorem budgeted_note {a : RunAct} (ha : ∀ run, (a.note? run).isSome = true) (h : s.Budgeted root)
    (ht : s.step D a = some t) : t.Budgeted root := by
  refine RunState.step_allCuts ht ?_ (fun u id hu => hu.other rfl rfl rfl rfl) ?_
  · rintro seat rfl
    exact absurd (ha (.start s.files.plan)) (by simp [RunAct.note?])
  · intro es he
    obtain ⟨run, e, hr, hf, hnote, rfl⟩ := noteEffects_cases ha he
    have hin := (h.ledger.disciplined.rests a.seat run hr).inFlight (by rw [hf]; rfl)
    have hreported : Reported s e := by
      cases a <;> cases hnote
      · exact Or.inl rfl
      · exact Or.inl rfl
      · exact Or.inr ⟨_, run, _, _, hr, hin.1, hf, rfl⟩
    refine ⟨h, budgeted_busy (h.ledger.report hreported ?_) a.seat run hr hin.1⟩
    intro n x hx y hy hn
    have hcan : s.canHold a.seat = true := by
      simp [RunState.canHold, (h.ledger.flight a.seat run hr hin.1).1]
    have hsame := h.ledger.only hcan hx hn
    subst hsame
    obtain rfl : run = x := Option.some.inj (hr.symm.trans hx)
    rw [hf] at hy
    cases hy

theorem ended_cuts {run : ActiveRun} {e : RunEvent} {execution : AttemptExecutionResult}
    (h : s.Budgeted root) (hr : s.seats seat = some run) (hin : run.InFlight)
    (hf : run.flight = .running true) (hm : mayEnd run execution = true)
    (he : e.terminal? = some execution.result) :
    AllCuts (perform seat) (RunState.Budgeted root)
      [.append e, .writeSnapshot execution, .remember { run with flight := .ended execution }] s := by
  have hvalid : isRunResult execution.result = true := by
    unfold mayEnd at hm
    simp only [Bool.and_eq_true] at hm
    exact hm.1.1
  have hcheck := check_of_isRunResult hvalid
  have hl : s.lease = some seat := (h.ledger.flight seat run hr hin.1).1
  obtain ⟨hledger, hspent, hresult⟩ := h.ledger.terminal hr hin.1 hf he hcheck
  have hne : (s.perform seat (.append e)).files.events ≠ [] := by
    simp [RunState.perform, RunFiles.perform]
  have hlatest : ∀ latest ∈ (s.perform seat (.append e)).files.latest,
      run.plan.attemptId = latest.attemptId := fun latest hlat => hledger.latest_of hr hin.1 hlat
  have hspent' : ∀ latest ∈ (s.perform seat (.append e)).files.latest,
      resultSpent execution.result =
        attemptSpent latest.attemptId (s.perform seat (.append e)).files.events := by
    intro latest hlat
    rw [← hlatest latest hlat, hspent]
  obtain ⟨hsnap, hrec⟩ : (RunState.perform seat _ (.writeSnapshot execution)).Ledger root ∧ _ := by
    refine hledger.snapshot seat hcheck hne (fun _ => ⟨hvalid, hspent'⟩) ?_
    intro n x hx hn latest hlat hph
    have hcan : (s.perform seat (.append e)).canHold seat = true := by
      simp [RunState.canHold, RunState.perform, hl]
    have hsame := hledger.only hcan hx hn
    subst hsame
    obtain rfl : run = x := Option.some.inj (hr.symm.trans hx)
    rw [hf] at hph ⊢
    refine ⟨hph.1, Or.inr (Or.inr ⟨execution.result, execution.result, ?_,
      priorResult_written hvalid, rfl⟩)⟩
    rw [← hlatest latest hlat]
    exact hresult
  refine ⟨h, budgeted_busy hledger seat run hr hin.1,
    budgeted_busy hsnap seat run hr hin.1, ?_⟩
  refine budgeted_rememberFlight hsnap run hr hin.1 hin.1 rfl ⟨hin, hm⟩ ?_ ?_
  · rintro r ⟨⟩
    exact hcheck
  · intro latest hlat _
    exact ⟨hne, (hspent' latest hlat).symm, hrec (hledger.flight seat run hr hin.1).2.1⟩

theorem budgeted_finish {execution : AttemptExecutionResult} {cut : ℕ} (h : s.Budgeted root)
    (ht : s.step D (.finish seat execution cut) = some t) : t.Budgeted root := by
  refine RunState.step_allCuts ht (fun _ hc => by cases hc) (fun u id hu => hu.other rfl rfl rfl rfl) ?_
  intro es he
  obtain ⟨run, hr, hf, hm, rfl⟩ := finishEffects_cases he
  have hin := (h.ledger.disciplined.rests seat run hr).inFlight (by rw [hf]; rfl)
  -- The removal of the snapshot comes first.
  have hremove : AllCuts (perform seat) (fun u => u.Budgeted root ∧ u.seats = s.seats)
      (if run.plan.mode = .readOnly ∧ execution.result.workspaceCleanup = .proved
        then [Effect.removeSnapshot run.plan.attemptId] else []) s := by
    refine AllCuts.of_preserved ⟨h, rfl⟩ ?_
    rintro u e he ⟨hu, hs⟩
    split_ifs at he
    · rw [List.mem_singleton.mp he]
      exact ⟨hu.other rfl rfl rfl rfl, hs⟩
    · cases he
  unfold finishEffects
  rw [allCuts_append]
  refine ⟨hremove.mono fun u hu => hu.1, ?_⟩
  obtain ⟨hu, hseats⟩ := hremove.foldl
  have hr' := (congrFun hseats seat).trans hr
  refine ended_cuts hu hr' hin hf hm ?_
  split_ifs <;> rfl

theorem budgeted_settle {handoff : Option WorktreeRecord} (h : s.Budgeted root)
    (ht : s.step D (.settle seat handoff) = some t) : t.Budgeted root := by
  refine RunState.step_allCuts ht (fun _ hc => by cases hc) (fun u id hu => hu.other rfl rfl rfl rfl) ?_
  intro es he
  obtain ⟨run, execution, hr, hf, rfl⟩ := settleEffects_cases he
  have hrests := h.ledger.disciplined.rests seat run hr
  unfold ActiveRun.Rests at hrests
  rw [hf] at hrests
  obtain ⟨hl, ho, latest, hlat, hplan, hph⟩ := h.ledger.flight seat run hr hrests.1.1
  rw [hf] at hph
  have hcarried : (carried run execution handoff).result = execution.result := by
    unfold carried
    split_ifs <;> rfl
  have hvalid : isRunResult execution.result = true := by
    have hm := hrests.2
    unfold mayEnd at hm
    simp only [Bool.and_eq_true] at hm
    exact hm.1.1
  have hcan : s.canHold seat = true := by simp [RunState.canHold, hl]
  refine settled_cuts h hr hcan ho hph.1 (by rw [hcarried]; exact hvalid) ?_
    fun hno => absurd hf (hno execution)
  intro latest' hlat'
  rw [hlat] at hlat'
  cases hlat'
  rw [hcarried]
  exact hph.2.1.symm

/-- **What a step that meets the condition keeps.** -/
theorem budgeted_step (hD : D.Sound) (hroot : root.Valid) {a : RunAct} (h : s.Budgeted root) (hok : keepsBudget D s a = true)
    (ht : s.step D a = some t) : t.Budgeted root := by
  have hflight : ∀ {run : ActiveRun} (run' : ActiveRun), s.seats a.seat = some run →
      run.InFlight → run'.result = none → run'.plan = run.plan → run'.Rests →
      (∀ r ∈ run'.flight.result?, r.check = true) →
      (∀ latest ∈ s.files.latest, run.flight.Phase s.files latest.attemptId →
        run'.flight.Phase s.files latest.attemptId) →
      AllCuts (perform a.seat) (RunState.Budgeted root) [.remember run'] s :=
    fun run' hr hin hn' hplan hrests hres hphase =>
      ⟨h, budgeted_rememberFlight h.ledger _ hr hin.1 hn' hplan hrests hres hphase⟩
  have hremove : ∀ u id, RunState.Budgeted root u →
      RunState.Budgeted root (u.perform a.seat (.removeSnapshot id)) :=
    fun u id hu => hu.other rfl rfl rfl rfl
  cases a with
  | launch seat cut => exact budgeted_start hD hroot .launch false h hok ht
  | retry seat cut => exact budgeted_start hD hroot .retry false h hok ht
  | resume seat continuing cut =>
    exact budgeted_start hD hroot (.resume continuing) false h hok ht
  | launchUndone seat cut => exact budgeted_start hD hroot .launch true h hok ht
  | retryUndone seat cut => exact budgeted_start hD hroot .retry true h hok ht
  | resumeUndone seat continuing cut =>
    exact budgeted_start hD hroot (.resume continuing) true h hok ht
  | reconcile seat o cut => exact budgeted_reconcile h hok ht
  | release seat released cut => exact budgeted_release h hok ht
  | abandon seat released cut => exact budgeted_abandon h ht
  | «open» seat handoff cut => exact budgeted_open h ht
  | begin seat => exact budgeted_begin h ht
  | sandboxStarted seat _ | sessionStarted seat | usageCheckpoint seat _ _ =>
    exact budgeted_note (fun _ => rfl) h ht
  | finish seat execution cut => exact budgeted_finish h ht
  | settle seat handoff => exact budgeted_settle h ht
  | die seat =>
    cases ht
    exact budgeted_die h hok
  | reject seat =>
    refine RunState.step_allCuts ht (fun _ hc => by cases hc) hremove fun es he => ?_
    obtain ⟨run, b, hr, hf, rfl⟩ := rejectEffects_cases he
    have hin := (h.ledger.disciplined.rests seat run hr).inFlight (by rw [hf]; rfl)
    exact hflight _ hr hin hin.1 rfl hin (by simp [Flight.result?]) fun _ _ _ => trivial
  | settleBlocked seat =>
    refine RunState.step_allCuts ht (fun _ hc => by cases hc) hremove fun es he => ?_
    obtain ⟨run, hr, hf, rfl⟩ := settleBlockedEffects_cases he
    have hin : run.InFlight := by
      refine (h.ledger.disciplined.rests seat run hr).inFlight ?_
      rcases hf with ⟨execution, hf⟩ | hf <;> rw [hf] <;> rfl
    refine hflight _ hr hin hin.1 rfl ?_ (by simp [Flight.result?]) fun _ _ _ => trivial
    simp [ActiveRun.Rests, hin.1]
  | interrupt seat =>
    refine RunState.step_allCuts ht (fun _ hc => by cases hc) hremove fun es he => ?_
    obtain ⟨run, hr, hst, rfl⟩ := interruptEffects_cases he
    have hrests := h.ledger.disciplined.rests seat run hr
    have hin := hrests.inFlight_of_status (Or.inl hst)
    exact hflight _ hr hin hin.1 rfl (hrests.abort (Or.inl hst) false)
      (h.ledger.checked.seats seat run hr).2 fun _ _ hph => hph
  | shutdown seat =>
    refine RunState.step_allCuts ht (fun _ hc => by cases hc) hremove fun es he => ?_
    obtain ⟨run, hr, hst, rfl⟩ := shutdownEffects_cases he
    have hrests := h.ledger.disciplined.rests seat run hr
    have hin := hrests.inFlight_of_status hst
    exact hflight _ hr hin hin.1 rfl (hrests.abort hst true)
      (h.ledger.checked.seats seat run hr).2 fun _ _ hph => hph

end Operations

/-! ## Whole runs -/

theorem budgeted_left {e : Effect} (h : s.Budgeted root) (hl : s.lease = none)
    (he : e.isLeft = true) : (s.perform seat e).Budgeted root := by
  cases e with
  | append note =>
    refine (noted_append h ?_ ?_).budgeted
    · intro n x hx y hy
      have hidle := h.ledger.disciplined.idle hl (Option.mem_def.mp hx)
      rw [hy] at hidle
      cases hidle
    · cases note <;> first | rfl | cases he
  | reserveWorktree _ | reserveSnapshot _ | removeSnapshot _ => exact h.other rfl rfl rfl rfl
  | _ => cases he

theorem budgeted_freshRun (root : Plan) : (freshRun root).Budgeted root := by
  refine ⟨⟨disciplined_freshRun root, results_freshRun root, rfl, by simp [freshRun],
    by simp [freshRun], ?_, ?_, by simp [freshRun], by simp [freshRun], by simp [freshRun], ?_, ?_,
    by simp [freshRun], by simp [freshRun], by simp [freshRun], by simp [freshRun], ?_⟩, ?_⟩
  · intro latest hl
    cases hl
  · intro a ha
    cases ha
  · intro _
    exact ⟨rfl, by simp [freshRun], by simp [freshRun]⟩
  · intro earlier latest h
    exact absurd h.symm (List.append_ne_nil_of_right_ne_nil _ (List.cons_ne_nil _ _))
  · intro _ _ latest hl
    cases hl
  · intro _
    refine Or.inl fun latest hl => ?_
    cases hl

/-- **The budget of a run is conserved** when every step meets `keepsBudget` and every retry and
resume is timely: the limits of the latest attempt are what the earlier ones left, each charged once
with what it used, and the plans of all attempts, with their digests, are as the schema wants
them. -/
theorem budget_conserved {ρ : Type} {digest : AttemptDigest} {canonicalSha256 : Plan → ρ → JsString}
    {checkRest : ρ → Bool} {root : Plan} {rest : ρ} {acts : List LateAct} {t : LateState}
    (hD : HexDigest digest)
    (hdigest : ∀ draft rest, isHex 64 64 (canonicalSha256 draft rest) = true)
    (hroot : (LaunchPlan.identified canonicalSha256 root rest).check checkRest = true)
    (hok : Meets (LateState.step (.exact digest))
      (fun w act => w.meets (keepsBudget (.exact digest)) act = true) (.fresh root) acts)
    (h : exec (LateState.step (.exact digest)) (.fresh root) acts = some t) :
    BudgetKept root t.run.files ∧ (t.run.files.attempts.map AttemptRecord.attemptId).Nodup ∧
      ∀ a ∈ t.run.files.attempts,
        (LaunchPlan.identified canonicalSha256 a.plan rest).check checkRest = true ∧
          verifyLaunchPlanIdentity canonicalSha256
            (LaunchPlan.identified canonicalSha256 a.plan rest) = true := by
  unfold LaunchPlan.check at hroot
  simp only [Bool.and_eq_true] at hroot
  obtain ⟨⟨⟨⟨-, hid⟩, hlimits⟩, -⟩, hrest⟩ := hroot
  have hb : t.run.Budgeted root :=
    late_invariant (budgeted_freshRun root)
      (fun s a t hs hok ht => budgeted_step ⟨hD, rfl⟩ ⟨hlimits, hid⟩ hs hok ht)
      (fun seat s e hs hl he => budgeted_left hs hl he) hok h
  refine ⟨hb.ledger.kept, hb.ledger.nodup, ?_⟩
  intro a ha
  obtain ⟨hl, hi⟩ := hb.ledger.valid a ha
  constructor
  · unfold LaunchPlan.check
    simp only [Bool.and_eq_true]
    exact ⟨⟨⟨⟨a.plan.runId.valid, hi⟩, hl⟩, hdigest a.plan rest⟩, hrest⟩
  · unfold verifyLaunchPlanIdentity LaunchPlan.identified
    exact decide_eq_true rfl

/-- Digests that differ with the ordinal. -/
def ordinalDigest : Planner := .exact fun _ _ ordinal _ =>
  List.replicate 48 (if ordinal % 2 = 0 then 97 else 98)

/-- A plan that permits three retries. -/
def retriedPlan : Plan := { livePlan with limits := { livePlan.limits with retries := 3 } }

/-- A failed attempt, and its retry. -/
theorem budget_conserved_retry : ∃ t,
    exec (LateState.step ordinalDigest) (.fresh retriedPlan)
      ((untilFailed .notNeeded).map .other ++ [.request 0 .retry, .start 0 5 false]) = some t ∧
      t.run.files.attempts.length = 2 ∧
      BudgetKept retriedPlan t.run.files ∧
      (t.run.files.attempts.map AttemptRecord.attemptId).Nodup ∧
      ∀ a ∈ t.run.files.attempts,
        (LaunchPlan.identified (fun _ (_ : Unit) => List.replicate 64 97) a.plan ()).check
            (fun _ => true) = true ∧
          verifyLaunchPlanIdentity (fun _ (_ : Unit) => List.replicate 64 97)
            (LaunchPlan.identified (fun _ (_ : Unit) => List.replicate 64 97) a.plan ()) = true := by
  have hrun : (exec (LateState.step ordinalDigest) (.fresh retriedPlan)
      ((untilFailed .notNeeded).map .other ++ [.request 0 .retry, .start 0 5 false])).any
        (fun t => decide (t.run.files.attempts.length = 2)) = true := by
    decide +kernel
  obtain ⟨t, ht, hlen⟩ := (Option.any_eq_true _ _).mp hrun
  refine ⟨t, ht, of_decide_eq_true hlen, budget_conserved ?_ ?_ ?_ ?_ ht⟩
  · intro runId parent ordinal kind
    dsimp only
    split_ifs <;> decide
  · intro draft rest
    decide
  · decide +kernel
  · decide +kernel

/-- The tokens of the third plan, and those that the first two attempts left. -/
def thirdTokens (f : RunFiles) : Option (Option ℕ × ℕ) :=
  match f.attempts with
  | [first, second, third] =>
    some (third.plan.limits.totalTokens,
      (attemptSpent first.attemptId f.events).totalTokens +
        (attemptSpent second.attemptId f.events).totalTokens)
  | _ => none

theorem not_budgetKept {root : Plan} {f : RunFiles} {left spent total : ℕ}
    (htokens : thirdTokens f = some (some left, spent)) (htotal : root.limits.totalTokens = some total)
    (hne : left + spent ≠ total) : ¬BudgetKept root f := by
  intro hkept
  unfold thirdTokens at htokens
  split at htokens
  case h_2 => cases htokens
  case h_1 first second third hatt =>
    obtain ⟨hleft, hspent⟩ := Prod.mk.inj (Option.some.inj htokens)
    have hcharged := (hkept [first, second] third (by rw [hatt]; rfl)).tokens
    rw [hleft, htotal] at hcharged
    have hsum : left + ((attemptSpent first.attemptId f.events).totalTokens +
        ((attemptSpent second.attemptId f.events).totalTokens + 0)) = total :=
      Option.some.inj hcharged
    omega

/-- An attempt that is retried twice is charged twice, when the first retry is lost with its seat
before it begins. -/
theorem attempt_charged_twice : ¬∀ acts t,
    exec (LateState.step ordinalDigest) (.fresh retriedPlan) acts = some t →
      BudgetKept retriedPlan t.run.files := by
  intro hall
  have hrun : (exec (LateState.step ordinalDigest) (.fresh retriedPlan)
      ((untilFailed .notNeeded).map .other ++ [.request 0 .retry, .start 0 5 false, .other (.die 0),
        .other (.open 0 none 5), .request 0 .retry, .start 0 5 false])).any
        (fun t => decide (thirdTokens t.run.files = some (some 980, 10))) = true := by
    decide +kernel
  obtain ⟨t, ht, htokens⟩ := (Option.any_eq_true _ _).mp hrun
  exact not_budgetKept (of_decide_eq_true htokens) rfl (by decide) (hall _ t ht)

/-- An attempt of seat 0 from its start to its settlement. -/
def failing (execution : AttemptExecutionResult) : List LateAct :=
  [.start 0 5 false, .other (.begin 0), .other (.sandboxStarted 0 none), .other (.sessionStarted 0),
    .other (.finish 0 execution 5), .other (.settle 0 none)]

/-- A retry that waits while another seat makes the second attempt and the third executes the second
again, and what it uses is not in the third plan. -/
example : ∃ acts t, exec (LateState.step ordinalDigest) (.fresh retriedPlan) acts = some t ∧
    (t.run.executed.length, t.run.executed.dedup.length) = (4, 3) ∧
      ¬BudgetKept retriedPlan t.run.files := by
  let spent : AttemptExecutionResult :=
    { failed .notNeeded with
      result := { failedResult .notNeeded with usage := { emptyUsage with totalTokens := 30 } } }
  let acts : List LateAct := (untilFailed .notNeeded).map .other ++
    [.other (.open 1 none 5), .request 1 .retry, .request 0 .retry] ++ failing (failed .notNeeded) ++
    [.request 0 .retry] ++ failing (failed .notNeeded) ++
    [.start 1 5 false, .other (.begin 1), .other (.finish 1 spent 5)]
  have hrun : (exec (LateState.step ordinalDigest) (.fresh retriedPlan) acts).any
      (fun t => decide ((t.run.executed.length, t.run.executed.dedup.length) = (4, 3) ∧
        thirdTokens t.run.files = some (some 980, 40))) = true := by
    decide +kernel
  obtain ⟨t, ht, hchecks⟩ := (Option.any_eq_true _ _).mp hrun
  obtain ⟨hexecuted, htokens⟩ := of_decide_eq_true hchecks
  exact ⟨acts, t, ht, hexecuted, not_budgetKept htokens rfl (by decide)⟩

end RunLife

end PiSubagent
