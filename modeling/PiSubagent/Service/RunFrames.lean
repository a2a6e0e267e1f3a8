import PiSubagent.Service.StartFailure
import PiSubagent.Service.VmEvidence

/-!
# What a step leaves of the attempts and the worktrees

* **`start_outcome`**, `start_spec`: a start records its attempt after it has made its checkout, and
  hands it to the executor after it has recorded it.
* **`step_frame`**: no other step records an attempt, reserves a worktree or starts one.
* `Lineage`: what the attempts in flight and the attempt records have to do with each other;
  **`lineage_step`**.
-/

namespace PiSubagent

open JsonText

namespace RunLife

open Cuts Runs
open RunState (setSeat perform kill mem_abandonedCheckout)

variable {D : Planner} {s t : RunState} {seat cut : ℕ} {undo : Bool} {call : StartCall}

/-! ## Starts -/

/-- The step is a start of an attempt. -/
def RunAct.isStart : RunAct → Bool
  | .launch .. | .launchUndone .. | .retry .. | .retryUndone .. | .resume .. | .resumeUndone .. =>
    true
  | _ => false

theorem RunAct.isStart_cases {a : RunAct} (h : a.isStart = true) :
    ∃ (call : StartCall) (cut : ℕ) (undo : Bool), a = call.act a.seat cut undo := by
  cases a with
  | launch seat cut => exact ⟨.launch, cut, false, rfl⟩
  | launchUndone seat cut => exact ⟨.launch, cut, true, rfl⟩
  | retry seat cut => exact ⟨.retry, cut, false, rfl⟩
  | retryUndone seat cut => exact ⟨.retry, cut, true, rfl⟩
  | resume seat continuing cut => exact ⟨.resume continuing, cut, false, rfl⟩
  | resumeUndone seat continuing cut => exact ⟨.resume continuing, cut, true, rfl⟩
  | _ => cases h

/-- What a call starts an attempt with. -/
inductive StartCall.Input (D : Planner) (s : RunState) (seat : ℕ) :
    StartCall → StartInput → Prop
  | launch (hseat : s.seats seat = none) (hlease : s.lease = none) :
    Input D s seat .launch
      { plan := s.files.plan, kind := .initial, ordinal := 0, parentAttemptId := none
        expectedPriorStatus := none, existingWorktree := none, continuing := false }
  | retry (run : ActiveRun) (latest : AttemptRecord) (r : AttemptExecutionResult) (plan : Plan)
      (hseat : s.seats seat = some run) (hlatest : s.files.latest = some latest)
      (hresult : run.result = some r) (hstatus : run.status = .failed)
      (hhandoff : (r.handoff.bind WorktreeRecord.handoffCommit) = none)
      (hid : latest.attemptId = run.plan.attemptId) (hlease : s.lease = none)
      (hplan : retryPlan D run.plan r.result (latest.ordinal + 1) = some plan) :
    Input D s seat .retry
      { plan := plan, kind := .retry, ordinal := latest.ordinal + 1
        parentAttemptId := some latest.attemptId, expectedPriorStatus := some .failed
        existingWorktree := none, continuing := false }
  | resume (continuing : Bool) (run : ActiveRun) (latest : AttemptRecord)
      (r : AttemptExecutionResult) (plan : Plan) (hseat : s.seats seat = some run)
      (hlatest : s.files.latest = some latest) (hresult : run.result = some r)
      (hpermitted : ResumePermitted continuing run r)
      (hid : latest.attemptId = run.plan.attemptId) (hlease : s.lease = none)
      (hplan : resumePlan D run.plan r.result (latest.ordinal + 1) continuing = some plan) :
    Input D s seat (.resume continuing)
      { plan := plan, kind := .resume, ordinal := latest.ordinal + 1
        parentAttemptId := some latest.attemptId, expectedPriorStatus := some run.status
        existingWorktree := if continuing then none else latest.worktreeAttemptId
        continuing := continuing }

theorem StartCall.effects_cases {es : List Effect} (h : call.effects D s seat = some es) :
    ∃ i, call.Input D s seat i ∧ es = startEffects s.files i := by
  cases call with
  | launch =>
    obtain ⟨hseat, hl, rfl⟩ := launchEffects_cases h
    exact ⟨_, .launch hseat hl, rfl⟩
  | retry =>
    obtain ⟨run, latest, r, plan, hr, hlat, hres, hst, hh, hid, hl, hp, rfl⟩ := retryEffects_cases h
    exact ⟨_, .retry run latest r plan hr hlat hres hst hh hid hl hp, rfl⟩
  | resume continuing =>
    obtain ⟨run, latest, r, plan, hr, hlat, hres, hperm, -, hid, hl, hp, rfl⟩ :=
      resumeEffects_cases h
    exact ⟨_, .resume continuing run latest r plan hr hlat hres hperm hid hl hp, rfl⟩

theorem StartCall.Input.lease {i : StartInput} (h : call.Input D s seat i) : s.lease = none := by
  cases h <;> assumption

/-- The checkout of a start is made, and the attempt record names its worktree. -/
inductive CheckedOut (s t : RunState) (i : StartInput) : Option JsString → Prop
  | retained (id : JsString) (hmode : i.plan.mode = .worktree)
      (hexisting : i.existingWorktree = some id)
      (hsame : t.files.worktrees = s.files.worktrees) : CheckedOut s t i (some id)
  | created (hmode : i.plan.mode = .worktree) (hexisting : i.existingWorktree = none)
      (hnew : i.plan.attemptId ∉ s.files.worktrees)
      (hgrown : t.files.worktrees = s.files.worktrees ++ [i.plan.attemptId]) :
      CheckedOut s t i (some i.plan.attemptId)
  | readOnly (hmode : i.plan.mode = .readOnly)
      (hsame : t.files.worktrees = s.files.worktrees) : CheckedOut s t i none

/-- What a start leaves. -/
structure StartOutcome (s t : RunState) (seat : ℕ) (i : StartInput) : Prop where
  plan : t.files.plan = s.files.plan
  worktrees : t.files.worktrees = s.files.worktrees ∨
    i.plan.mode = .worktree ∧ i.existingWorktree = none ∧ i.plan.attemptId ∉ s.files.worktrees ∧
      t.files.worktrees = s.files.worktrees ++ [i.plan.attemptId]
  attempts : t.files.attempts = s.files.attempts ∨ ∃ id, CheckedOut s t i id ∧
    s.files.attempts.find? (·.attemptId = i.plan.attemptId) = none ∧
    (match s.files.latest with
      | none => i.kind = .initial
      | some latest => i.kind ≠ .initial ∧ i.ordinal = latest.ordinal + 1) ∧
    t.files.attempts = s.files.attempts ++
      [⟨i.plan.attemptId, i.ordinal, i.kind, i.parentAttemptId, id, i.plan⟩]
  executed : (t.executed = s.executed ∧ t.seats = s.seats) ∨
    t.executed = s.executed ++ [i.plan.attemptId] ∧
      t.seats = (s.setSeat seat (some (.start i.plan))).seats ∧
      ∃ a ∈ t.files.attempts, a.attemptId = i.plan.attemptId ∧ a.ordinal = i.ordinal ∧
        a.kind = i.kind ∧ CheckedOut s t i a.worktreeAttemptId

theorem foldl_seats {es : List Effect} (s : RunState) (h : ∀ e ∈ es, e.isStarting = true ∨
    ∃ id, e = .removeSnapshot id) : (es.foldl (perform seat) s).seats = s.seats := by
  induction es generalizing s with
  | nil => rfl
  | cons e es ih =>
    rw [List.foldl_cons, ih _ fun e he => h e (List.mem_cons_of_mem _ he)]
    rcases h e List.mem_cons_self with hs | ⟨id, rfl⟩
    · cases e <;> first | rfl | cases hs
    · rfl

theorem foldl_lineage (seat : ℕ) (es : List Effect) (s : RunState) :
    (es.foldl (perform seat) s).files.plan = s.files.plan ∧
      (es.foldl (perform seat) s).files.attempts =
        s.files.attempts ++ es.filterMap Effect.record? ∧
      (es.foldl (perform seat) s).files.worktrees =
        s.files.worktrees ++ es.filterMap Effect.worktree? := by
  induction es generalizing s with
  | nil => simp
  | cons e es ih =>
    obtain ⟨h1, h2, h3⟩ := ih (s.perform seat e)
    rw [List.foldl_cons, h1, h2, h3]
    cases e with
    | settleLease =>
      simp only [RunState.perform]
      split_ifs <;> exact ⟨rfl, rfl, rfl⟩
    | createAttempt record =>
      refine ⟨rfl, ?_, rfl⟩
      simp [perform, RunFiles.perform, Effect.record?]
    | reserveWorktree id =>
      refine ⟨rfl, rfl, ?_⟩
      simp [perform, RunFiles.perform, Effect.worktree?]
    | _ => exact ⟨rfl, rfl, rfl⟩

theorem foldl_abandonedCheckout (seat : ℕ) (es : List Effect) (cut : ℕ) (undo : Bool)
    (s : RunState) :
    ((if undo then abandonedCheckout es cut else []).foldl (perform seat) s).files.plan =
        s.files.plan ∧
      ((if undo then abandonedCheckout es cut else []).foldl (perform seat) s).files.attempts =
        s.files.attempts ∧
      ((if undo then abandonedCheckout es cut else []).foldl (perform seat) s).files.worktrees =
        s.files.worktrees ∧
      ((if undo then abandonedCheckout es cut else []).foldl (perform seat) s).executed =
        s.executed ∧
      ((if undo then abandonedCheckout es cut else []).foldl (perform seat) s).seats =
        s.seats := by
  have hremove : ∀ e ∈ (if undo then abandonedCheckout es cut else []),
      ∃ id, e = .removeSnapshot id := by
    intro e he
    split_ifs at he with hu
    · exact mem_abandonedCheckout he
    · cases he
  generalize (if undo then abandonedCheckout es cut else []) = removals at hremove
  have hnone : ∀ {α : Type} (f : Effect → Option α), (∀ id, f (.removeSnapshot id) = none) →
      removals.filterMap f = [] := by
    intro α f hf
    refine List.filterMap_eq_nil_iff.mpr fun e he => ?_
    obtain ⟨id, rfl⟩ := hremove e he
    exact hf id
  obtain ⟨h1, h2, h3⟩ := foldl_lineage seat removals s
  rw [hnone Effect.record? fun _ => rfl, List.append_nil] at h2
  rw [hnone Effect.worktree? fun _ => rfl, List.append_nil] at h3
  refine ⟨h1, h2, h3, ?_, foldl_seats s fun e he => Or.inr (hremove e he)⟩
  rw [foldl_executed, hnone Effect.executed? fun _ => rfl, List.append_nil]

theorem checkoutEffects_worktree {f : RunFiles} {i : StartInput} {checkout : List Effect}
    {id : Option JsString} (h : checkoutEffects f i = some (checkout, id)) :
    (i.plan.mode = .worktree ∧ (∃ existing, i.existingWorktree = some existing ∧
        id = some existing ∧ checkout = []) ∨
      i.plan.mode = .worktree ∧ i.existingWorktree = none ∧ i.plan.attemptId ∉ f.worktrees ∧
        id = some i.plan.attemptId ∧ checkout = [.reserveWorktree i.plan.attemptId] ∨
      i.plan.mode = .readOnly ∧ id = none ∧ checkout.filterMap Effect.worktree? = []) := by
  unfold checkoutEffects at h
  split at h
  case h_1 existing hmode hexisting =>
    cases h
    exact Or.inl ⟨hmode, existing, hexisting, rfl, rfl⟩
  case h_2 hmode hexisting =>
    split_ifs at h with hnew
    cases h
    exact Or.inr (Or.inl ⟨hmode, hexisting, hnew, rfl, rfl⟩)
  case h_3 hmode _ =>
    split_ifs at h
    cases h
    exact Or.inr (Or.inr ⟨hmode, rfl, rfl⟩)
  case h_4 hmode _ =>
    cases h
    exact Or.inr (Or.inr ⟨hmode, rfl, rfl⟩)

theorem attemptEffects_admitted {f : RunFiles} {i : StartInput} {id : Option JsString}
    {record : List Effect} (h : attemptEffects f i id = some record) :
    (record = [] ∧ ∃ a ∈ f.attempts, a.attemptId = i.plan.attemptId ∧ a.ordinal = i.ordinal ∧
      a.kind = i.kind ∧ a.worktreeAttemptId = id) ∨
    f.attempts.find? (·.attemptId = i.plan.attemptId) = none ∧
      (match f.latest with
        | none => i.kind = .initial
        | some latest => i.kind ≠ .initial ∧ i.ordinal = latest.ordinal + 1) ∧
      record = [.createAttempt
        ⟨i.plan.attemptId, i.ordinal, i.kind, i.parentAttemptId, id, i.plan⟩] := by
  unfold attemptEffects at h
  split at h
  case h_1 existing hfind =>
    split_ifs at h with hc
    cases h
    have hid := List.find?_some hfind
    exact Or.inl ⟨rfl, existing, List.mem_of_find?_eq_some hfind, of_decide_eq_true hid, hc⟩
  case h_2 hfind =>
    dsimp only at h
    split_ifs at h with hadmit
    cases h
    refine Or.inr ⟨hfind, ?_, rfl⟩
    cases hl : f.latest with
    | none =>
      rw [hl] at hadmit
      exact (of_decide_eq_true hadmit).1
    | some latest =>
      rw [hl] at hadmit
      exact ⟨(of_decide_eq_true hadmit).1, (of_decide_eq_true hadmit).2.1⟩

theorem outcome_early {i : StartInput} {checkout rest : List Effect} {id : Option JsString}
    (hc : checkoutEffects s.files i = some (checkout, id))
    (hes : rest.Sublist (i.opening ++ checkout)) :
    StartOutcome s (rest.foldl (perform seat) s) seat i := by
  have hmem : ∀ e ∈ rest, e ∈ i.opening ++ checkout := fun e he => hes.subset he
  have hno : ∀ e ∈ rest, e.isExecute = false ∧ e.record? = none :=
    fun e he => not_execute_opening hc (hmem e he)
  obtain ⟨h1, h2, h3⟩ := foldl_lineage seat rest s
  rw [List.filterMap_eq_nil_iff.mpr fun e he => (hno e he).2, List.append_nil] at h2
  have hexec : rest.filterMap Effect.executed? = [] := by
    refine List.filterMap_eq_nil_iff.mpr fun e he => ?_
    have hx := (hno e he).1
    cases e <;> first | rfl | cases hx
  refine ⟨h1, ?_, Or.inl h2, Or.inl ⟨?_, ?_⟩⟩
  · have hsub := hes.filterMap Effect.worktree?
    have hopening : i.opening.filterMap Effect.worktree? = [] := by
      refine List.filterMap_eq_nil_iff.mpr fun e he => ?_
      rcases StartInput.mem_opening he with rfl | ⟨rfl, -⟩ <;> rfl
    rw [List.filterMap_append, hopening, List.nil_append] at hsub
    rw [h3]
    rcases checkoutEffects_worktree hc with ⟨-, existing, -, -, rfl⟩ | ⟨hm, he, hn, -, rfl⟩ |
      ⟨-, -, hw⟩
    · rw [List.sublist_nil.mp hsub, List.append_nil]
      exact Or.inl rfl
    · rcases List.sublist_singleton.mp hsub with hnil | hone
      · rw [hnil, List.append_nil]
        exact Or.inl rfl
      · rw [hone]
        exact Or.inr ⟨hm, he, hn, rfl⟩
    · rw [hw] at hsub
      rw [List.sublist_nil.mp hsub, List.append_nil]
      exact Or.inl rfl
  · rw [foldl_executed, hexec, List.append_nil]
  · refine foldl_seats s fun e he => Or.inl ?_
    rcases List.mem_append.mp (hmem e he) with ho | ho
    · rcases StartInput.mem_opening ho with rfl | ⟨rfl, -⟩ <;> rfl
    · have hof := checkoutEffects_ofStart hc e ho
      have hx := (hno e he).1
      cases e <;> first | rfl | exact hof.elim | cases hx

theorem outcome_late {i : StartInput} {checkout record : List Effect} {id : Option JsString}
    (hc : checkoutEffects s.files i = some (checkout, id))
    (ha : attemptEffects s.files i id = some record) (k : ℕ) :
    StartOutcome s (((i.opening ++ checkout) ++
      (record ++ [Effect.execute (.start i.plan)]).take k).foldl (perform seat) s) seat i := by
  set all := (i.opening ++ checkout) ++ (record ++ [Effect.execute (.start i.plan)]).take k
    with hall
  obtain ⟨h1, h2, h3⟩ := foldl_lineage seat all s
  have hopening : ∀ {α : Type} (f : Effect → Option α), f (.append .resumeAtHandoff) = none →
      f .createRunRecord = none → i.opening.filterMap f = [] := by
    intro α f ha hr
    refine List.filterMap_eq_nil_iff.mpr fun e he => ?_
    rcases StartInput.mem_opening he with rfl | ⟨rfl, -⟩
    · exact ha
    · exact hr
  have hbefore : ∀ e ∈ i.opening ++ checkout, e.record? = none ∧ e.executed? = none ∧
      e.isStarting = true := by
    intro e he
    obtain ⟨hx, hr⟩ := not_execute_opening hc he
    refine ⟨hr, (by cases e <;> first | rfl | cases hx), ?_⟩
    rcases List.mem_append.mp he with ho | ho
    · rcases StartInput.mem_opening ho with rfl | ⟨rfl, -⟩ <;> rfl
    · have hof := checkoutEffects_ofStart hc e ho
      cases e <;> first | rfl | exact hof.elim | cases hx
  -- What is left of the record and the executor.
  have hrest : ∀ rest : List Effect, (∀ e ∈ rest, e.worktree? = none) →
      ((i.opening ++ checkout) ++ rest).filterMap Effect.worktree? =
        checkout.filterMap Effect.worktree? := by
    intro rest hw
    rw [List.filterMap_append, List.filterMap_append, hopening _ rfl rfl, List.nil_append,
      List.filterMap_eq_nil_iff.mpr hw, List.append_nil]
  have hrecord : record = [] ∨ ∃ r, record = [.createAttempt r] := by
    rcases attemptEffects_admitted ha with ⟨rfl, -⟩ | ⟨-, -, rfl⟩
    · exact Or.inl rfl
    · exact Or.inr ⟨_, rfl⟩
  have htail : ∀ e ∈ (record ++ [Effect.execute (.start i.plan)]).take k, e.worktree? = none := by
    intro e he
    have hm := List.mem_of_mem_take he
    rcases hrecord with rfl | ⟨r, rfl⟩
    · rw [List.nil_append, List.mem_singleton] at hm
      rw [hm]
      rfl
    · rw [List.singleton_append, List.mem_pair] at hm
      rcases hm with rfl | rfl <;> rfl
  rw [hall, hrest _ htail] at h3
  rw [← hall] at h3
  have hchecked : CheckedOut s (all.foldl (perform seat) s) i id := by
    rcases checkoutEffects_worktree hc with ⟨hm, existing, he, rfl, rfl⟩ | ⟨hm, he, hn, rfl, rfl⟩ |
      ⟨hm, rfl, hw⟩
    · rw [List.filterMap_nil, List.append_nil] at h3
      exact .retained existing hm he h3
    · exact .created hm he hn h3
    · rw [hw, List.append_nil] at h3
      exact .readOnly hm h3
  have hworktrees : (all.foldl (perform seat) s).files.worktrees = s.files.worktrees ∨
      i.plan.mode = .worktree ∧ i.existingWorktree = none ∧
        i.plan.attemptId ∉ s.files.worktrees ∧
          (all.foldl (perform seat) s).files.worktrees =
            s.files.worktrees ++ [i.plan.attemptId] := by
    cases hchecked with
    | retained _ _ _ hsame => exact Or.inl hsame
    | created hm he hn hgrown => exact Or.inr ⟨hm, he, hn, hgrown⟩
    | readOnly _ hsame => exact Or.inl hsame
  have hnone : ∀ {α : Type} (f : Effect → Option α), (∀ e ∈ i.opening ++ checkout, f e = none) →
      all.filterMap f = ((record ++ [Effect.execute (.start i.plan)]).take k).filterMap f := by
    intro α f hf
    rw [hall, List.filterMap_append, List.filterMap_eq_nil_iff.mpr hf, List.nil_append]
  rw [hnone _ fun e he => (hbefore e he).1] at h2
  have hexecuted : (all.foldl (perform seat) s).executed =
      s.executed ++ all.filterMap Effect.executed? := foldl_executed all s
  rw [hnone _ fun e he => (hbefore e he).2.1] at hexecuted
  have hseats : ∀ rest : List Effect,
      (((i.opening ++ checkout) ++ rest).foldl (perform seat) s).seats =
        (rest.foldl (perform seat) { s with files := s.files.written (i.opening ++ checkout) }).seats := by
    intro rest
    rw [List.foldl_append, foldl_starting s fun e he => (hbefore e he).2.2]
  rcases attemptEffects_admitted ha with ⟨rfl, a, hmem, hid, hord, hkind, hwid⟩ | ⟨hfind, hadm, rfl⟩
  · -- The attempt is recorded already.
    cases k with
    | zero =>
      simp only [List.nil_append, List.take_zero, List.filterMap_nil, List.append_nil] at h2 hexecuted
      refine ⟨h1, hworktrees, Or.inl h2, Or.inl ⟨hexecuted, ?_⟩⟩
      rw [hall, hseats]
      rfl
    | succ k =>
      simp only [List.nil_append, List.take_succ_cons, List.take_nil] at h2 hexecuted
      refine ⟨h1, hworktrees, Or.inl (by simpa [List.filterMap_cons, Effect.record?] using h2), Or.inr ⟨?_, ?_, a, ?_,
        hid, hord, hkind, hwid ▸ hchecked⟩⟩
      · simpa [List.filterMap_cons, Effect.executed?, ActiveRun.start] using hexecuted
      · rw [hall, hseats]
        simp [perform, setSeat]
      · rw [h2]
        simpa [List.filterMap_cons, Effect.record?] using hmem
  · rcases k with _ | _ | k
    · simp only [List.take_zero, List.filterMap_nil, List.append_nil] at h2 hexecuted
      refine ⟨h1, hworktrees, Or.inl h2, Or.inl ⟨hexecuted, ?_⟩⟩
      rw [hall, hseats]
      rfl
    · simp only [List.singleton_append, List.take_succ_cons, List.take_zero] at h2 hexecuted
      refine ⟨h1, hworktrees, Or.inr ⟨id, hchecked, hfind, hadm, ?_⟩, Or.inl ⟨?_, ?_⟩⟩
      · simpa [List.filterMap_cons, Effect.record?] using h2
      · simpa [List.filterMap_cons, Effect.executed?] using hexecuted
      · rw [hall, hseats]
        rfl
    · simp only [List.singleton_append, List.take_succ_cons, List.take_nil] at h2 hexecuted
      have hatt : (all.foldl (perform seat) s).files.attempts = s.files.attempts ++
          [⟨i.plan.attemptId, i.ordinal, i.kind, i.parentAttemptId, id, i.plan⟩] := by
        simpa [List.filterMap_cons, Effect.record?] using h2
      refine ⟨h1, hworktrees, Or.inr ⟨id, hchecked, hfind, hadm, hatt⟩, Or.inr ⟨?_, ?_,
        ⟨i.plan.attemptId, i.ordinal, i.kind, i.parentAttemptId, id, i.plan⟩, ?_, rfl, rfl, rfl,
        hchecked⟩⟩
      · simpa [List.filterMap_cons, Effect.executed?, ActiveRun.start] using hexecuted
      · rw [hall, hseats]
        simp [perform, setSeat]
      · rw [hatt]
        exact List.mem_append_right _ List.mem_cons_self

theorem StartOutcome.congr {i : StartInput} {u : RunState} (h : StartOutcome s u seat i)
    (hplan : t.files.plan = u.files.plan) (hatt : t.files.attempts = u.files.attempts)
    (hwork : t.files.worktrees = u.files.worktrees) (hexec : t.executed = u.executed)
    (hseats : t.seats = u.seats) : StartOutcome s t seat i := by
  have hchecked : ∀ id, CheckedOut s u i id → CheckedOut s t i id := by
    intro id hid
    cases hid with
    | retained id hm he hsame => exact .retained id hm he (hwork.trans hsame)
    | created hm he hn hgrown => exact .created hm he hn (hwork.trans hgrown)
    | readOnly hm hsame => exact .readOnly hm (hwork.trans hsame)
  constructor
  · rw [hplan]
    exact h.plan
  · rw [hwork]
    exact h.worktrees
  · rw [hatt]
    exact h.attempts.imp (fun heq => heq) fun ⟨id, hid, hrest⟩ => ⟨id, hchecked id hid, hrest⟩
  · rw [hexec, hseats, hatt]
    refine h.executed.imp (fun heq => heq) ?_
    rintro ⟨h1, h2, a, ha, hid, hord, hkind, hc⟩
    exact ⟨h1, h2, a, ha, hid, hord, hkind, hchecked _ hc⟩

/-- **A start records its attempt after it has made its checkout, and hands it to the executor after
it has recorded it**, wherever it is cut. -/
theorem start_outcome (s : RunState) (seat : ℕ) (i : StartInput) (cut : ℕ) (undo : Bool) :
    StartOutcome s ((if undo then abandonedCheckout (startEffects s.files i) cut else []).foldl
      (perform seat) (((startEffects s.files i).take cut).foldl (perform seat) s)) seat i := by
  obtain ⟨h1, h2, h3, h4, h5⟩ := foldl_abandonedCheckout seat (startEffects s.files i) cut
    undo (((startEffects s.files i).take cut).foldl (perform seat) s)
  refine StartOutcome.congr ?_ h1 h2 h3 h4 h5
  clear h1 h2 h3 h4 h5
  have hnothing : ∀ rest : List Effect, (∀ e ∈ rest, e.isStarting = true ∧ e.record? = none ∧
      e.worktree? = none) → StartOutcome s (rest.foldl (perform seat) s) seat i := by
    intro rest hrest
    obtain ⟨h1, h2, h3⟩ := foldl_lineage seat rest s
    rw [List.filterMap_eq_nil_iff.mpr fun e he => (hrest e he).2.1, List.append_nil] at h2
    rw [List.filterMap_eq_nil_iff.mpr fun e he => (hrest e he).2.2, List.append_nil] at h3
    refine ⟨h1, Or.inl h3, Or.inl h2, Or.inl ⟨?_, foldl_seats s fun e he => Or.inl (hrest e he).1⟩⟩
    have hexec : rest.filterMap Effect.executed? = [] := by
      refine List.filterMap_eq_nil_iff.mpr fun e he => ?_
      have hx := (hrest e he).1
      cases e <;> first | rfl | cases hx
    rw [foldl_executed, hexec, List.append_nil]
  rcases startEffects_shape s.files i with hnil | ⟨-, ⟨-, hop⟩ | ⟨checkout, id, hc, ⟨-, hop⟩ |
    ⟨record, ha, hop⟩⟩⟩
  · rw [hnil, List.take_nil]
    exact hnothing [] (by simp)
  · rw [hop]
    refine hnothing _ fun e he => ?_
    rcases StartInput.mem_opening (List.mem_of_mem_take he) with rfl | ⟨rfl, -⟩ <;>
      exact ⟨rfl, rfl, rfl⟩
  · rw [hop]
    exact outcome_early hc (List.take_sublist _ _)
  · rw [hop, ← List.append_assoc]
    by_cases hcut : cut ≤ (i.opening ++ checkout).length
    · rw [List.take_append_of_le_length hcut]
      exact outcome_early hc (List.take_sublist _ _)
    · obtain ⟨k, rfl⟩ := Nat.exists_eq_add_of_le (Nat.le_of_not_le hcut)
      rw [List.take_length_add_append]
      exact outcome_late hc ha k

theorem start_spec (h : s.step D (call.act seat cut undo) = some t) :
    ∃ i, call.Input D s seat i ∧ StartOutcome s t seat i ∧
      (startEffects s.files i = [] → t.files = s.files ∧ t.executed = s.executed) := by
  obtain ⟨es, hes, rfl⟩ := step_act h
  obtain ⟨i, hi, rfl⟩ := StartCall.effects_cases hes
  refine ⟨i, hi, start_outcome s seat i cut undo, ?_⟩
  intro hnil
  have hnone : abandonedCheckout [] cut = [] := by simp [abandonedCheckout]
  rw [hnil, hnone, ite_self, List.take_nil]
  exact ⟨rfl, rfl⟩

theorem StartOutcome.ids {seat : ℕ} {i : StartInput} (ho : StartOutcome s t seat i)
    (h : (s.files.attempts.map AttemptRecord.attemptId).Nodup) :
    (t.files.attempts.map AttemptRecord.attemptId).Nodup ∧
      (s.files.attempts.map AttemptRecord.attemptId).Sublist
        (t.files.attempts.map AttemptRecord.attemptId) := by
  rcases ho.attempts with hsame | ⟨id, -, hnew, -, hgrown⟩
  · rw [hsame]
    exact ⟨h, List.Sublist.refl _⟩
  · rw [hgrown, List.map_append]
    refine ⟨List.nodup_append.mpr ⟨h, List.nodup_singleton _, ?_⟩, List.sublist_append_left _ _⟩
    intro x hx y hy hxy
    obtain ⟨a, ha, rfl⟩ := List.mem_map.mp hx
    rw [List.map_singleton, List.mem_singleton] at hy
    have hne := List.find?_eq_none.mp hnew a ha
    exact hne (decide_eq_true (hxy.trans hy))

theorem StartOutcome.grown {seat : ℕ} {i : StartInput} (ho : StartOutcome s t seat i) :
    ∀ r ∈ s.files.attempts, r ∈ t.files.attempts := by
  intro r hr
  rcases ho.attempts with hsame | ⟨id, -, -, -, hgrown⟩
  · rw [hsame]
    exact hr
  · rw [hgrown]
    exact List.mem_append_left _ hr

/-! ## The other steps -/

/-- What a step that starts no attempt leaves. -/
structure StepFrame (s t : RunState) : Prop where
  plan : t.files.plan = s.files.plan
  attempts : t.files.attempts = s.files.attempts
  worktrees : t.files.worktrees = s.files.worktrees
  executed : t.executed = s.executed
  flights : ∀ n run', t.seats n = some run' → run'.flight.inFlight = true →
    ∃ run, s.seats n = some run ∧ run.flight.inFlight = true ∧ run.plan = run'.plan

/-- A write of a step that starts no attempt. -/
def Effect.Frames (s : RunState) (seat : ℕ) : Effect → Prop
  | .createRunRecord | .reserveWorktree _ | .reserveSnapshot _ | .createAttempt _ | .execute _ =>
    False
  | .remember run' => run'.flight.inFlight = true →
    ∃ run, s.seats seat = some run ∧ run.flight.inFlight = true ∧ run.plan = run'.plan
  | _ => True

theorem stepFrame_perform {u : RunState} {e : Effect} (h : StepFrame s u) (he : e.Frames s seat) :
    StepFrame s (u.perform seat e) := by
  cases e with
  | remember run' =>
    refine ⟨h.plan, h.attempts, h.worktrees, h.executed, ?_⟩
    intro n run hn hf
    simp only [perform, setSeat] at hn
    split_ifs at hn with hs
    · cases hn
      rw [hs]
      exact he hf
    · exact h.flights n run hn hf
  | settleLease =>
    simp only [perform]
    split_ifs
    · exact ⟨h.plan, h.attempts, h.worktrees, h.executed, h.flights⟩
    · exact h
  | createRunRecord | reserveWorktree _ | reserveSnapshot _ | createAttempt _ | execute _ =>
    exact he.elim
  | _ => exact ⟨h.plan, h.attempts, h.worktrees, h.executed, h.flights⟩

theorem frames_settle (run : ActiveRun) (execution : AttemptExecutionResult) :
    (Effect.remember (run.settle execution)).Frames s seat := by
  intro hf
  cases hf

theorem frames_same {run run' : ActiveRun} (hr : s.seats seat = some run)
    (hf : run'.flight.inFlight = true → run.flight.inFlight = true) (hp : run'.plan = run.plan) :
    (Effect.remember run').Frames s seat :=
  fun hin => ⟨run, hr, hf hin, hp.symm⟩

/-- **The writes of a step that starts no attempt.** -/
theorem effects_frame {a : RunAct} {es : List Effect} (ha : a.isStart = false)
    (h : s.effects D a = some es) : ∀ e ∈ es, e.Frames s a.seat := by
  intro e he
  cases a with
  | launch seat cut | launchUndone seat cut | retry seat cut | retryUndone seat cut
  | resume seat continuing cut | resumeUndone seat continuing cut => cases ha
  | die seat => cases h
  | begin seat =>
    obtain ⟨run, hr, hf, rfl⟩ := beginEffects_cases h
    rcases List.mem_pair.mp he with rfl | rfl
    · trivial
    · exact frames_same hr (fun _ => by rw [hf]; rfl) rfl
  | sandboxStarted seat identity | sessionStarted seat | usageCheckpoint seat usage runtimeMs =>
    obtain ⟨run, e', -, -, -, rfl⟩ := noteEffects_cases (fun run => rfl) h
    rw [List.mem_singleton.mp he]
    trivial
  | finish seat execution cut =>
    obtain ⟨run, hr, hf, -, rfl⟩ := finishEffects_cases h
    rcases List.mem_append.mp he with he | he
    · split_ifs at he
      · rw [List.mem_singleton.mp he]
        trivial
      · cases he
    · simp only [List.mem_cons, List.not_mem_nil, or_false] at he
      rcases he with rfl | rfl | rfl
      · trivial
      · trivial
      · exact frames_same hr (fun _ => by rw [hf]; rfl) rfl
  | reject seat =>
    obtain ⟨run, b, hr, hf, rfl⟩ := rejectEffects_cases h
    rw [List.mem_singleton.mp he]
    exact frames_same hr (fun _ => by rw [hf]; rfl) rfl
  | settle seat handoff =>
    obtain ⟨run, execution, hr, hf, rfl⟩ := settleEffects_cases h
    simp only [settleEffects, List.mem_cons, List.not_mem_nil, or_false] at he
    rcases he with rfl | rfl | rfl
    · trivial
    · exact frames_settle run _
    · trivial
  | settleBlocked seat =>
    obtain ⟨run, hr, -, rfl⟩ := settleBlockedEffects_cases h
    rw [List.mem_singleton.mp he]
    intro hf
    cases hf
  | interrupt seat =>
    obtain ⟨run, hr, -, rfl⟩ := interruptEffects_cases h
    rw [List.mem_singleton.mp he]
    exact frames_same hr (fun hf => hf) rfl
  | shutdown seat =>
    obtain ⟨run, hr, -, rfl⟩ := shutdownEffects_cases h
    rw [List.mem_singleton.mp he]
    exact frames_same hr (fun hf => hf) rfl
  | reconcile seat o cut =>
    rcases mem_reconcileEffects h he with rfl | ⟨run, execution, -, -, rfl | rfl | rfl | rfl⟩
    · trivial
    · trivial
    · trivial
    · exact frames_settle run _
    · trivial
  | release seat released cut =>
    obtain ⟨run, -, -, -, -, -, hes⟩ := releaseEffects_cases h
    split at hes
    case h_1 =>
      subst hes
      rcases List.mem_pair.mp he with rfl | rfl <;> trivial
    case h_2 =>
      split at hes
      case h_1 =>
        subst hes
        cases he
      case h_2 =>
        subst hes
        simp only [List.mem_cons, List.not_mem_nil, or_false] at he
        rcases he with rfl | rfl | rfl | rfl
        · trivial
        · trivial
        · exact frames_settle run _
        · trivial
  | abandon seat released cut =>
    obtain ⟨run, memory, -, -, -, -, -, -, rfl⟩ := abandonEffects_cases h
    rcases List.mem_append.mp he with he | he
    · rcases List.mem_pair.mp he with rfl | rfl
      · trivial
      · exact frames_settle run _
    · split_ifs at he
      · rcases List.mem_pair.mp he with rfl | rfl
        · trivial
        · exact frames_settle run _
      · simp only [List.mem_cons, List.not_mem_nil, or_false] at he
        rcases he with rfl | rfl | rfl
        · trivial
        · exact frames_settle run _
        · trivial
      · cases he
  | «open» seat handoff cut =>
    obtain ⟨-, -, -, rfl⟩ := openEffects_cases h
    rcases List.mem_append.mp he with he | he
    · split at he
      · rcases List.mem_pair.mp he with rfl | rfl <;> trivial
      · cases he
    · rw [List.mem_singleton.mp he]
      intro hf
      cases hf

/-- **No other step records an attempt, reserves a worktree or starts one.** -/
theorem step_frame {a : RunAct} (ha : a.isStart = false) (h : s.step D a = some t) :
    StepFrame s t := by
  have hrefl : StepFrame s s := ⟨rfl, rfl, rfl, rfl, fun n run hn hf => ⟨run, hn, hf, rfl⟩⟩
  refine RunState.step_allCuts h ?_ ?_ ?_
  · intro seat _
    refine ⟨rfl, rfl, rfl, rfl, ?_⟩
    intro n run hn hf
    simp only [kill, setSeat] at hn
    split_ifs at hn
    exact ⟨run, hn, hf, rfl⟩
  · exact fun u id hu => ⟨hu.plan, hu.attempts, hu.worktrees, hu.executed, hu.flights⟩
  · intro effects he
    exact AllCuts.of_preserved hrefl fun u e hmem hu =>
      stepFrame_perform hu (effects_frame ha he e hmem)

/-! ## Lineage -/

/-- The attempts are in the order of their ordinals, and an attempt in flight is the latest. -/
structure Lineage (s : RunState) : Prop where
  ordinals : s.files.attempts.Pairwise fun a b => a.ordinal < b.ordinal
  initial : ∀ a ∈ s.files.attempts, a.kind = .initial → a.ordinal = 0
  inFlight : ∀ n run, s.seats n = some run → run.flight.inFlight = true →
    ∃ latest, s.files.latest = some latest ∧ latest.attemptId = run.plan.attemptId

theorem lineage_freshRun (plan : Plan) : Lineage (freshRun plan) :=
  ⟨List.Pairwise.nil, by simp [freshRun], by simp [freshRun]⟩

theorem lineage_frame (h : Lineage s) (hf : StepFrame s t) : Lineage t := by
  have hlatest : t.files.latest = s.files.latest := by
    unfold RunFiles.latest
    rw [hf.attempts]
  refine ⟨by rw [hf.attempts]; exact h.ordinals, by rw [hf.attempts]; exact h.initial, ?_⟩
  intro n run' hn hin
  obtain ⟨run, hr, hfl, hp⟩ := hf.flights n run' hn hin
  rw [hlatest, ← hp]
  exact h.inFlight n run hr hfl

theorem latest_split {f : RunFiles} {latest : AttemptRecord} (h : f.latest = some latest) :
    ∃ earlier, f.attempts = earlier ++ [latest] := by
  obtain ⟨hne, hlast⟩ := List.getLast?_eq_some_iff.mp h
  exact ⟨hne, hlast⟩

theorem Lineage.le_latest (h : Lineage s) {latest a : AttemptRecord}
    (hl : s.files.latest = some latest) (ha : a ∈ s.files.attempts) :
    a = latest ∨ a.ordinal < latest.ordinal := by
  obtain ⟨earlier, he⟩ := latest_split hl
  have hpair := h.ordinals
  rw [he] at ha hpair
  rcases List.mem_append.mp ha with ha | ha
  · exact Or.inr ((List.pairwise_append.mp hpair).2.2 a ha latest List.mem_cons_self)
  · exact Or.inl (List.mem_singleton.mp ha)

/-- Nothing is in flight while the lease is free. -/
theorem RunState.Disciplined.idle (h : s.Disciplined) (hl : s.lease = none) {n : ℕ}
    {run : ActiveRun} (hr : s.seats n = some run) : run.flight.inFlight = false := by
  by_contra hf
  rw [Bool.not_eq_false] at hf
  have hlease := h.busy n run hr hf
  rw [hl] at hlease
  cases hlease

theorem lineage_start {i : StartInput} (h : Lineage s) (hi : call.Input D s seat i)
    (hinitial : call = .launch → ∀ a ∈ s.files.attempts, a.kind = .initial)
    (ho : StartOutcome s t seat i) :
    t.files.attempts.Pairwise (fun a b => a.ordinal < b.ordinal) ∧
      (∀ a ∈ t.files.attempts, a.kind = .initial → a.ordinal = 0) ∧
        (t.executed ≠ s.executed → ∃ latest, t.files.latest = some latest ∧
          latest.attemptId = i.plan.attemptId ∧ CheckedOut s t i latest.worktreeAttemptId) := by
  have hexecuted : t.executed ≠ s.executed → ∃ a ∈ t.files.attempts,
      a.attemptId = i.plan.attemptId ∧ a.ordinal = i.ordinal ∧ a.kind = i.kind ∧
        CheckedOut s t i a.worktreeAttemptId := by
    intro hne
    rcases ho.executed with ⟨hsame, -⟩ | ⟨-, -, ha⟩
    · exact absurd hsame hne
    · exact ha
  -- An attempt that was there with the ordinal of the start is the latest.
  have hthere : ∀ a ∈ s.files.attempts, a.ordinal = i.ordinal → s.files.latest = some a := by
    intro a ha hord
    cases hl : s.files.latest with
    | none =>
      rw [List.getLast?_eq_none_iff.mp hl] at ha
      cases ha
    | some latest =>
      rcases h.le_latest hl ha with rfl | hlt
      · rfl
      · cases hi with
        | launch hseat hlease =>
          have hmem : latest ∈ s.files.attempts := List.mem_of_getLast? hl
          have hzero := h.initial latest hmem (hinitial rfl latest hmem)
          omega
        | retry run latest' r plan hseat hlatest =>
          rw [hlatest] at hl
          cases hl
          simp only at hord
          omega
        | resume continuing run latest' r plan hseat hlatest =>
          rw [hlatest] at hl
          cases hl
          simp only at hord
          omega
  rcases ho.attempts with hsame | ⟨id, hc, hfind, hadm, hgrown⟩
  · have hlatest : t.files.latest = s.files.latest := by
      unfold RunFiles.latest
      rw [hsame]
    rw [hsame, hlatest]
    refine ⟨h.ordinals, h.initial, ?_⟩
    intro hne
    obtain ⟨a, ha, hid, hord, -, hca⟩ := hexecuted hne
    rw [hsame] at ha
    exact ⟨a, hthere a ha hord, hid, hca⟩
  · have hnew : ∀ a ∈ s.files.attempts, a.ordinal < i.ordinal := by
      intro a ha
      cases hl : s.files.latest with
      | none =>
        rw [List.getLast?_eq_none_iff.mp hl] at ha
        cases ha
      | some latest =>
        rw [hl] at hadm
        rcases h.le_latest hl ha with rfl | hlt
        · omega
        · omega
    have hlatest : t.files.latest = some ⟨i.plan.attemptId, i.ordinal, i.kind,
        i.parentAttemptId, id, i.plan⟩ := by
      unfold RunFiles.latest
      rw [hgrown, List.getLast?_concat]
    rw [hgrown, hlatest]
    refine ⟨?_, ?_, fun _ => ⟨_, rfl, rfl, hc⟩⟩
    · refine List.pairwise_append.mpr ⟨h.ordinals, List.pairwise_singleton _ _, ?_⟩
      intro a ha b hb
      rw [List.mem_singleton.mp hb]
      exact hnew a ha
    · intro a ha hk
      rcases List.mem_append.mp ha with ha | ha
      · exact h.initial a ha hk
      · rw [List.mem_singleton] at ha
        subst ha
        cases hi with
        | launch hseat hlease => rfl
        | retry run latest r plan => cases hk
        | resume continuing run latest r plan => cases hk

/-- **The lineage of the attempts**, when a launch is of a run without other attempts. -/
theorem lineage_step {a : RunAct} (h : Lineage s) (hs : s.Disciplined)
    (hinitial : a.launches = true → ∀ a ∈ s.files.attempts, a.kind = .initial)
    (ht : s.step D a = some t) : Lineage t := by
  by_cases ha : a.isStart = true
  · obtain ⟨call, cut, undo, hact⟩ := RunAct.isStart_cases ha
    rw [hact] at ht hinitial
    obtain ⟨i, hi, ho, -⟩ := start_spec ht
    have hlaunch : call = .launch → ∀ a ∈ s.files.attempts, a.kind = .initial := by
      rintro rfl
      refine hinitial ?_
      cases undo <;> rfl
    obtain ⟨hpair, hinit, hexec⟩ := lineage_start h hi hlaunch ho
    refine ⟨hpair, hinit, ?_⟩
    intro n run hn hf
    rcases ho.executed with ⟨-, hseats⟩ | ⟨hx, hseats, -⟩
    · rw [hseats] at hn
      rw [hs.idle hi.lease hn] at hf
      cases hf
    · rw [hseats] at hn
      simp only [setSeat] at hn
      split_ifs at hn with hsame
      · cases hn
        obtain ⟨latest, hl, hid, -⟩ := hexec (by rw [hx]; simp)
        exact ⟨latest, hl, hid⟩
      · rw [hs.idle hi.lease hn] at hf
        cases hf
  · exact lineage_frame h (step_frame (Bool.eq_false_iff.mpr ha) ht)

end RunLife

end PiSubagent
