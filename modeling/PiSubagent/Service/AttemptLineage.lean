import PiSubagent.Persistence.AttemptCreation
import PiSubagent.Preflight.Narrowing
import PiSubagent.Service.LateStarts
import PiSubagent.Service.Ledger

/-!
# The attempts of a run

* `attemptsLeft`: the retries and resumes that a plan allows. Every derived plan has one less.
* `Lined`: the attempt records of a run against their ordinals and the limits of the root plan;
  **`lined_step`**.
* **`attemptLineage`**: the records of a run are a chain, their creations answer with them, and a
  service records no more of them than the limits of the root plan allow.
-/

namespace PiSubagent

open JsonText

namespace RunLife

open Cuts Runs
open RunState (setSeat perform kill)

variable {D : Planner} {root : Plan} {s t : RunState} {seat : ℕ}

/-! ## Derived plans -/

/-- The retries and resumes that a plan allows. -/
def attemptsLeft (plan : Plan) : ℕ := plan.limits.retries + plan.limits.resumes

theorem retryPlan_attemptsLeft {current plan : Plan} {r : RunResult} {ordinal : ℕ}
    (h : retryPlan D current r ordinal = some plan) :
    attemptsLeft plan + 1 = attemptsLeft current := by
  unfold retryPlan at h
  split_ifs at h with hc
  obtain ⟨after, hafter, rfl⟩ := Option.map_eq_some_iff.mp h
  obtain ⟨-, -, -, -, -, -, -, -, -, hresumes⟩ := Limits.after_cases hafter
  show current.limits.retries - 1 + after.resumes + 1 =
    current.limits.retries + current.limits.resumes
  omega

theorem resumePlan_attemptsLeft {current plan : Plan} {r : RunResult} {ordinal : ℕ}
    {continuing : Bool} (h : resumePlan D current r ordinal continuing = some plan) :
    attemptsLeft plan + 1 = attemptsLeft current := by
  unfold resumePlan at h
  split_ifs at h with hc
  obtain ⟨after, hafter, rfl⟩ := Option.map_eq_some_iff.mp h
  obtain ⟨-, -, -, -, -, -, -, -, hretries, -⟩ := Limits.after_cases hafter
  show after.retries + (current.limits.resumes - 1) + 1 =
    current.limits.retries + current.limits.resumes
  omega

/-! ## The records against the root plan -/

/-- The plan is the root plan or that of an attempt. -/
def Known (root : Plan) (f : RunFiles) (plan : Plan) : Prop :=
  plan = root ∨ ∃ a ∈ f.attempts, a.plan = plan

/-- The attempt records count from zero, the first is of the root plan, and with every other one an
attempt less is left. -/
structure Lined (root : Plan) (s : RunState) : Prop where
  plan : s.files.plan = root
  ids : ∀ a ∈ s.files.attempts, a.plan.attemptId = a.attemptId
  nodup : (s.files.attempts.map AttemptRecord.attemptId).Nodup
  ordinals : ∀ n (hn : n < s.files.attempts.length), s.files.attempts[n].ordinal = n
  first : ∀ a ∈ s.files.attempts.head?, a.plan = root
  left : ∀ latest ∈ s.files.latest, attemptsLeft latest.plan + latest.ordinal = attemptsLeft root
  seats : ∀ n, ∀ run ∈ s.seats n, Known root s.files run.plan

theorem lined_freshRun (root : Plan) : Lined root (freshRun root) where
  plan := rfl
  ids := fun _ h => by cases h
  nodup := List.nodup_nil
  ordinals := fun _ h => by cases h
  first := fun _ h => by cases h
  left := fun _ h => by cases h
  seats := fun _ _ h => by cases h

theorem Lined.perform_left {seat : ℕ} {e : Effect} (h : Lined root s) (he : e.isLeft = true) :
    Lined root (s.perform seat e) := by
  cases e with
  | append _ | reserveWorktree _ | reserveSnapshot _ | removeSnapshot _ =>
    exact ⟨h.plan, h.ids, h.nodup, h.ordinals, h.first, h.left, h.seats⟩
  | _ => cases he

theorem Lined.length (h : Lined root s) {latest : AttemptRecord}
    (hl : s.files.latest = some latest) : s.files.attempts.length = latest.ordinal + 1 := by
  obtain ⟨earlier, he⟩ := latest_split hl
  have hord := h.ordinals earlier.length (by simp [he])
  rw [List.getElem_of_eq he, List.getElem_concat_length rfl] at hord
  rw [he, List.length_append, hord]
  rfl

/-- **No more attempts are recorded than the root plan allows.** -/
theorem Lined.bounded (h : Lined root s) :
    s.files.attempts.length ≤ 1 + root.limits.retries + root.limits.resumes := by
  cases hl : s.files.latest with
  | none =>
    rw [List.getLast?_eq_none_iff.mp hl]
    exact Nat.zero_le _
  | some latest =>
    have hleft := h.left latest hl
    have hlen := h.length hl
    unfold attemptsLeft at hleft
    omega

/-- A known plan with the identity of the latest attempt is its plan. -/
theorem Lined.plan_eq (h : Lined root s) {plan : Plan} (hk : Known root s.files plan)
    {latest : AttemptRecord} (hl : s.files.latest = some latest)
    (hid : latest.attemptId = plan.attemptId) : plan = latest.plan := by
  have hmem : latest ∈ s.files.attempts := List.mem_of_getLast? hl
  obtain ⟨a, ha, rfl⟩ : ∃ a ∈ s.files.attempts, a.plan = plan := by
    rcases hk with rfl | hk
    · cases hhead : s.files.attempts.head? with
      | none =>
        rw [List.head?_eq_none_iff.mp hhead] at hmem
        cases hmem
      | some a => exact ⟨a, List.mem_of_head? hhead, h.first a hhead⟩
    · exact hk
  rw [h.ids a ha] at hid
  rw [List.inj_on_of_nodup_map h.nodup hmem ha hid]

theorem Lined.recovered (h : Lined root s) : Known root s.files s.files.recoveredPlan := by
  unfold RunFiles.recoveredPlan
  cases hl : s.files.latest with
  | none => exact Or.inl h.plan
  | some latest => exact Or.inr ⟨latest, List.mem_of_getLast? hl, rfl⟩

theorem seats_planIs {K : Plan → Prop} {a : RunAct} (ha : a.isStart = false)
    (hseats : ∀ n, ∀ run ∈ s.seats n, K run.plan) (hrecovered : K s.files.recoveredPlan)
    (h : s.step D a = some t) : ∀ n, ∀ run ∈ t.seats n, K run.plan := by
  have hperform : ∀ (u : RunState) (e : Effect) (seat : ℕ), e.PlanIs K →
      (∀ n, ∀ run ∈ u.seats n, K run.plan) →
        ∀ n, ∀ run ∈ (u.perform seat e).seats n, K run.plan := by
    intro u e seat he hu
    cases e with
    | remember run | execute run =>
      intro n run' hn
      simp only [perform, setSeat] at hn
      split_ifs at hn
      · cases hn
        exact he
      · exact hu n run' hn
    | settleLease =>
      simp only [perform]
      split_ifs <;> exact hu
    | _ => exact hu
  refine RunState.step_allCuts (P := fun u => ∀ n, ∀ run ∈ u.seats n, K run.plan) h ?_ ?_ ?_
  · intro seat _ n run hn
    simp only [kill, setSeat] at hn
    split_ifs at hn
    · cases hn
    · exact hseats n run hn
  · exact fun u id hu => hperform u _ _ trivial hu
  · intro es hes
    refine AllCuts.of_preserved hseats ?_
    intro u e hm hu
    refine hperform u e _ (effects_planIs hseats hrecovered ?_ hes e hm) hu
    intro plan hplan
    cases a <;> first | cases ha; done | cases hplan

theorem lined_frame {a : RunAct} (ha : a.isStart = false) (h : Lined root s)
    (ht : s.step D a = some t) : Lined root t := by
  have hf := step_frame ha ht
  have hlatest : t.files.latest = s.files.latest := by
    unfold RunFiles.latest
    rw [hf.attempts]
  constructor
  · exact hf.plan.trans h.plan
  · rw [hf.attempts]
    exact h.ids
  · rw [hf.attempts]
    exact h.nodup
  · intro n hn
    simp only [hf.attempts] at hn ⊢
    exact h.ordinals n hn
  · rw [hf.attempts]
    exact h.first
  · rw [hlatest]
    exact h.left
  · have hk := seats_planIs (K := Known root s.files) ha h.seats h.recovered ht
    unfold Known at hk ⊢
    rw [hf.attempts]
    exact hk

/-- The plan of a start: the root plan where nothing is recorded, and otherwise one that has an
attempt less left than the latest. -/
theorem Lined.input (h : Lined root s) {call : StartCall} {i : StartInput}
    (hi : call.Input D s seat i) : (i.plan = root ∧ i.kind = .initial ∧ i.ordinal = 0) ∨
      ∃ latest, s.files.latest = some latest ∧ i.kind ≠ .initial ∧ i.ordinal = latest.ordinal + 1 ∧
        attemptsLeft i.plan + 1 = attemptsLeft latest.plan := by
  cases hi with
  | launch => exact Or.inl ⟨h.plan, rfl, rfl⟩
  | retry run latest r plan hseat hlatest _ _ _ hid _ hplan =>
    refine Or.inr ⟨latest, hlatest, (fun hk => by cases hk), rfl, ?_⟩
    rw [← h.plan_eq (h.seats seat run hseat) hlatest hid]
    exact retryPlan_attemptsLeft hplan
  | resume continuing run latest r plan hseat hlatest _ _ hid _ hplan =>
    refine Or.inr ⟨latest, hlatest, (fun hk => by cases hk), rfl, ?_⟩
    rw [← h.plan_eq (h.seats seat run hseat) hlatest hid]
    exact resumePlan_attemptsLeft hplan

theorem Lined.grow (h : Lined root s) {call : StartCall} {i : StartInput}
    (hi : call.Input D s seat i) {id : Option JsString} (hplan : t.files.plan = s.files.plan)
    (hseats : ∀ n, ∀ run ∈ t.seats n, Known root s.files run.plan ∨ run.plan = i.plan)
    (hfind : s.files.attempts.find? (·.attemptId = i.plan.attemptId) = none)
    (hadm : match s.files.latest with
      | none => i.kind = .initial
      | some latest => i.kind ≠ .initial ∧ i.ordinal = latest.ordinal + 1)
    (ht : t.files.attempts = s.files.attempts ++
      [⟨i.plan.attemptId, i.ordinal, i.kind, i.parentAttemptId, id, i.plan⟩]) : Lined root t := by
  have hlatest : t.files.latest = some ⟨i.plan.attemptId, i.ordinal, i.kind, i.parentAttemptId, id,
      i.plan⟩ := by
    unfold RunFiles.latest
    rw [ht, List.getLast?_concat]
  -- Either nothing is recorded yet, or the start follows the latest attempt.
  have hnext : i.ordinal = s.files.attempts.length ∧
      attemptsLeft i.plan + i.ordinal = attemptsLeft root ∧
        (s.files.attempts = [] → i.plan = root) := by
    cases hl : s.files.latest with
    | none =>
      rw [hl] at hadm
      have hnil := List.getLast?_eq_none_iff.mp hl
      rcases h.input hi with ⟨hroot, -, hzero⟩ | ⟨latest, hlat, -⟩
      · rw [hnil, hzero, hroot]
        exact ⟨rfl, rfl, fun _ => rfl⟩
      · rw [hl] at hlat
        cases hlat
    | some latest =>
      rw [hl] at hadm
      rcases h.input hi with ⟨-, hk, -⟩ | ⟨latest', hlat, -, hord, hleft⟩
      · exact absurd hk hadm.1
      · rw [hl] at hlat
        cases hlat
        have hlen := h.length hl
        have hbudget := h.left latest hl
        refine ⟨by omega, by omega, ?_⟩
        intro hnil
        rw [hnil] at hlen
        cases hlen
  obtain ⟨hord, hleft, hroot⟩ := hnext
  constructor
  · exact hplan.trans h.plan
  · intro a ha
    rw [ht] at ha
    rcases List.mem_append.mp ha with ha | ha
    · exact h.ids a ha
    · rw [List.mem_singleton.mp ha]
  · rw [ht, List.map_append]
    refine List.nodup_append.mpr ⟨h.nodup, List.nodup_singleton _, ?_⟩
    intro x hx y hy hxy
    obtain ⟨a, ha, rfl⟩ := List.mem_map.mp hx
    rw [List.map_singleton, List.mem_singleton] at hy
    exact List.find?_eq_none.mp hfind a ha (decide_eq_true (hxy.trans hy))
  · intro n hn
    simp only [ht] at hn ⊢
    rw [List.length_append, List.length_singleton] at hn
    by_cases hlt : n < s.files.attempts.length
    · rw [List.getElem_append_left hlt]
      exact h.ordinals n hlt
    · have heq : n = s.files.attempts.length := by omega
      subst heq
      rw [List.getElem_concat_length rfl]
      exact hord
  · intro a ha
    rw [ht] at ha
    cases hatt : s.files.attempts with
    | nil =>
      rw [hatt] at ha
      cases ha
      exact hroot hatt
    | cons b rest =>
      rw [hatt] at ha
      cases ha
      exact h.first a (by rw [hatt]; rfl)
  · rw [hlatest]
    rintro latest ⟨⟩
    exact hleft
  · intro n run hn
    rcases hseats n run hn with (hr | ⟨a, ha, hp⟩) | hp
    · exact Or.inl hr
    · exact Or.inr ⟨a, by rw [ht]; exact List.mem_append_left _ ha, hp⟩
    · exact Or.inr ⟨_, by rw [ht]; exact List.mem_append_right _ List.mem_cons_self, hp.symm⟩

/-- **Every step keeps the records lined up.** -/
theorem lined_step {a : RunAct} (h : Lined root s) (ht : s.step D a = some t) : Lined root t := by
  by_cases ha : a.isStart = true
  · obtain ⟨call, cut, undo, hact⟩ := RunAct.isStart_cases ha
    rw [hact] at ht
    obtain ⟨i, hi, ho, -⟩ := start_spec ht
    rcases ho.attempts with hsame | ⟨id, -, hfind, hadm, hgrown⟩
    · have hlatest : t.files.latest = s.files.latest := by
        unfold RunFiles.latest
        rw [hsame]
      constructor
      · exact ho.plan.trans h.plan
      · rw [hsame]
        exact h.ids
      · rw [hsame]
        exact h.nodup
      · intro n hn
        simp only [hsame] at hn ⊢
        exact h.ordinals n hn
      · rw [hsame]
        exact h.first
      · rw [hlatest]
        exact h.left
      · unfold Known
        rw [hsame]
        rcases ho.executed with ⟨-, hseats⟩ | ⟨-, hseats, b, hb, -, hord, -⟩
        · rw [hseats]
          exact h.seats
        · -- the attempt was there, so it is no retry or resume
          have hknown : Known root s.files i.plan := by
            rcases h.input hi with ⟨hroot, -⟩ | ⟨latest, hl, -, hnext, -⟩
            · exact Or.inl hroot
            · rw [hsame] at hb
              obtain ⟨n, hn, rfl⟩ := List.getElem_of_mem hb
              rw [h.ordinals n hn] at hord
              have hlen := h.length hl
              omega
          intro n run hn
          rw [hseats] at hn
          simp only [setSeat] at hn
          split_ifs at hn
          · cases hn
            exact hknown
          · exact h.seats n run hn
    · refine h.grow hi ho.plan ?_ hfind hadm hgrown
      intro n run hn
      rcases ho.executed with ⟨-, hseats⟩ | ⟨-, hseats, -⟩
      · rw [hseats] at hn
        exact Or.inl (h.seats n run hn)
      · rw [hseats] at hn
        simp only [setSeat] at hn
        split_ifs at hn
        · cases hn
          exact Or.inr rfl
        · exact Or.inl (h.seats n run hn)
  · exact lined_frame (Bool.not_eq_true _ ▸ ha) h ht

end RunLife

/-- **The lineage of the attempts of a run.** In every state of a run of any calls of `create` the
store lists the records as a chain and the calls have answered with them, a creation of a recorded
attempt returns its record, and stored records stay; and a service records no more attempts than the
root plan allows. -/
theorem attemptLineage (S : AttemptRecords.StorePlatform) (runId : RunId) (dead : ℕ → Bool)
    (D : RunLife.Planner) (root : RunLife.Plan) :
    (∀ as w, Runs.exec (AttemptRecords.step S runId)
        (Calls.World.fresh dead AttemptRecords.emptyDirectory) as = some w →
      AttemptRecords.RecordsKept S runId w ∧ AttemptRecords.ReturnsStored S runId w ∧
        ∀ bs v, Runs.exec (AttemptRecords.step S runId) w bs = some v →
          w.shared.records <+: v.shared.records) ∧
      ∀ acts s, Runs.exec (RunLife.RunState.step D) (RunLife.freshRun root) acts = some s →
        s.files.attempts.length ≤ 1 + root.limits.retries + root.limits.resumes := by
  refine ⟨?_, ?_⟩
  · intro as w h
    obtain ⟨hkept, hreturns⟩ := AttemptRecords.attemptRecords_chained h
    exact ⟨hkept, hreturns, fun bs v hv => AttemptRecords.records_exec hv⟩
  · intro acts s h
    have hl : RunLife.Lined root s := Runs.exec_preserves (RunLife.Lined root)
      (fun u a v hu hstep => RunLife.lined_step hu hstep) (RunLife.lined_freshRun root) h
    exact hl.bounded

/-! ## An attempt that is created twice -/

namespace AttemptRecords

open Preflight (plainPlatform workerPlan)

/-- A store whose schema accepts every record. -/
def plainStore : StorePlatform where
  toPlatform := plainPlatform
  fieldsValid := fun _ => true
  recordBytes := fun _ => 4096

/-- The creation of the worker's first attempt, under the lease of the first call. -/
def workerCreation : CreateInput where
  ownerId := ofString "owner-1"
  plan := workerPlan none
  lease := 0
  ordinal := 0
  kind := .initial
  parentAttemptId := none
  worktreeAttemptId := none

/-- The record that it makes. -/
def workerRecord : AttemptRecord := ⟨workerCreation.fields, ofString "2026-01-01T00:00:00.000Z"⟩

/-- A seat takes the lease, and the creation runs to its end. -/
def workerCreates : List Act :=
  .begin 0 (.lease .acquiring) :: .move 0 (.ok []) :: .begin 0 (.create workerCreation 0 .called) ::
    List.replicate 12 (.move 1 (.ok (ofString "2026-01-01T00:00:00.000Z")))

theorem workerCreates_exec : (Runs.exec (step plainStore (workerPlan none).runId)
    (Calls.World.fresh (fun _ => false) emptyDirectory) workerCreates).map
      (fun w => (w.shared.records, w.dead 0, w.shared.isCurrent 0 0, w.shared.queues 0, w.next)) =
        some ([workerRecord], false, true, [], 2) := by
  rfl

end AttemptRecords

open AttemptRecords in
/-- The worker's attempt is created again, and its record comes back. -/
theorem attemptLineage_worker : ∃ w v, Runs.exec (step plainStore (Preflight.workerPlan none).runId)
    (Calls.World.fresh (fun _ => false) emptyDirectory) workerCreates = some w ∧
      Runs.exec (step plainStore (Preflight.workerPlan none).runId) w
        (.begin 0 (.create workerCreation 1 .called) :: List.replicate 4 (.move 2 (.ok []))) = some v ∧
      v.calls 2 = some ⟨0, .create workerCreation 1 (.ended (.returned workerRecord))⟩ ∧
      v.shared.records = [workerRecord] := by
  obtain ⟨w, hw, he⟩ := Option.map_eq_some_iff.mp workerCreates_exec
  obtain ⟨hrecords, hdead, hcurrent, hqueue, hnext⟩ := by simpa only [Prod.mk.injEq] using he
  obtain ⟨-, hreturns, -⟩ := (attemptLineage plainStore (Preflight.workerPlan none).runId
    (fun _ => false) (.exact fun _ _ _ _ => []) (Preflight.workerPlan none).toPlan).1 _ _ hw
  obtain ⟨v, hv, hreturned, hsame⟩ := hreturns.returns 0 workerCreation workerRecord [] hdead hcurrent
    hqueue rfl (hrecords ▸ List.mem_cons_self) ⟨rfl, rfl, rfl⟩
  rw [hrecords, hnext] at hv hreturned
  exact ⟨w, v, hw, hv, hreturned, hsame.trans hrecords⟩

end PiSubagent
