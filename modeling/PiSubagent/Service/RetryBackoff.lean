import PiSubagent.Preflight.Narrowing
import PiSubagent.Service.BudgetTotals
import PiSubagent.Service.RunSummary

/-!
# When a failed run may be retried

* `retryCheck`: what `retry` checks before it prepares the next attempt.
* `ShowsLife`: what the service has of a run is a state of the run's life.
* `failedLast`: whose terminal event is the last one in the journal.
* `Backed`, `Attributed`: a backoff failure is stored only after an attempt has failed in the
  journal, and every failure in the journal is that of a recorded attempt.
* `HeldUntil`: `retry` is refused exactly until the instant that the summary shows.
-/

namespace PiSubagent

open JsonText

namespace RunLife

open Cuts Runs
open RunState (setSeat perform kill)
open Summaries (Run RunRead lastOfType retryDelayMs retryAt summarizeRun)

variable {D : Planner} {root : Plan} {s t : RunState}

/-! ## The check -/

/-- What `retry` throws: an error with a message, or `RetryBackoffError`. -/
inductive RetryRefusal where
  | error (message : JsString)
  | backoff (retryAt : ℤ)
deriving DecidableEq

/-- `if (c) throw new Error(message)`. -/
def refuseRetry (c : Prop) [Decidable c] (message : String) : Except RetryRefusal Unit :=
  if c then .error (.error (ofString message)) else .ok ()

/-- `retry` before it prepares the next attempt, at an instant. -/
def retryCheck (run : Run) (read : RunRead) (now : ℤ) : Except RetryRefusal Unit := do
  refuseRetry (run.status ≠ .failed ∨ run.result.isNone) "run is not retryable"
  refuseRetry (¬run.failure.any fun f => f.retry = .manual ∨ f.retry = .backoff)
    "failure classification does not permit retry"
  refuseRetry (run.handoffCommit ≠ none)
    "retry would discard the run's hand-off; resume at the hand-off instead"
  match read.attempts.getLast? with
  | none => refuseRetry True "attempt history mismatch"
  | some latest =>
    refuseRetry (latest.attemptId ≠ run.plan.attemptId) "attempt history mismatch"
    let retryDelay := retryDelayMs run.failure latest.ordinal
    if 0 < retryDelay then
      match lastOfType read.events "attempt-failed" with
      | none => refuseRetry True "retry terminal evidence is unavailable"
      | some terminalEvent =>
        match (dateParse terminalEvent.timestamp).map fun t => t + (retryDelay : ℤ) with
        | some retryAt => if now < retryAt then .error (.backoff retryAt) else .ok ()
        -- `NaN` is not later than now.
        | none => .ok ()
    else .ok ()

/-! ## The delay -/

theorem retryDelayMs_backoff {failure : ClassifiedFailure} (h : failure.retry = .backoff)
    (ordinal : ℕ) : retryDelayMs (some failure) ordinal =
      min 300000 (failure.retryAfterMs.getD 1000 * 2 ^ min ordinal 8) := by
  unfold retryDelayMs
  exact if_pos h

/-- **The delay never decreases with the ordinal.** -/
theorem retryDelayMs_mono (failure : Option ClassifiedFailure) : Monotone (retryDelayMs failure) := by
  intro m n hmn
  unfold retryDelayMs
  cases failure with
  | none => exact le_rfl
  | some f =>
    dsimp only
    split_ifs
    · have hpow : 2 ^ min m 8 ≤ 2 ^ min n 8 :=
        Nat.pow_le_pow_right Nat.two_pos (min_le_min_right 8 hmn)
      exact min_le_min_left 300000 (Nat.mul_le_mul_left _ hpow)
    · exact le_rfl

theorem delay_eq_iff {r failed latest : ℕ} (hr : 0 < r) (hle : failed ≤ latest) :
    min 300000 (r * 2 ^ min latest 8) = min 300000 (r * 2 ^ failed) ↔
      failed = min latest 8 ∨ 300000 ≤ r * 2 ^ min failed 8 := by
  have hstrict : ∀ {a b : ℕ}, a < b → r * 2 ^ a < r * 2 ^ b := fun hab =>
    Nat.mul_lt_mul_of_pos_left (Nat.pow_lt_pow_right Nat.one_lt_two hab) hr
  have hweak : ∀ {a b : ℕ}, a ≤ b → r * 2 ^ a ≤ r * 2 ^ b := fun hab =>
    Nat.mul_le_mul_left r (Nat.pow_le_pow_right Nat.two_pos hab)
  constructor
  · intro heq
    by_contra hne
    obtain ⟨hne, hlow⟩ := not_or.mp hne
    rw [not_le] at hlow
    rcases lt_or_gt_of_ne hne with hlt | hgt
    · -- the failed attempt's own delay is not capped, and the other one is longer
      rw [min_eq_left (by omega : failed ≤ 8)] at hlow
      have hmore := hstrict hlt
      omega
    · -- the exponent of the latest attempt is capped
      have hcap : min latest 8 = 8 := by omega
      rw [hcap] at heq hgt
      rw [min_eq_right (by omega : 8 ≤ failed)] at hlow
      have hmore := hstrict hgt
      omega
  · rintro (rfl | hhigh)
    · rfl
    · have hfailed := hweak (min_le_left failed 8)
      have hlatest := hweak (min_le_min_right 8 hle)
      rw [min_eq_left (hhigh.trans hlatest), min_eq_left (hhigh.trans hfailed)]

/-! ## A run and its life -/

/-- The types of the events of a run's life. -/
def lifeTypes : List String :=
  ["attempt-starting", "sandbox-started", "session-started", "usage-checkpoint",
    "attempt-completed", "attempt-failed", "startup-reconciled", "run-reconciled", "run-released",
    "resume-at-handoff", "run-abandoning", "run-abandoned"]

theorem RunEvent.type_mem (e : RunEvent) : e.type ∈ lifeTypes := by
  cases e <;> simp [RunEvent.type, lifeTypes]

/-- The events of a run's life in its journal. -/
def lifeEvents (events : List JournalEvent) : List JournalEvent :=
  events.filter fun e => lifeTypes.any fun type => decide (e.type = ofString type)

/-- What the service has of a run in memory and in its files is a state of the run's life. -/
structure ShowsLife (f : RunFiles) (memory : ActiveRun) (run : Run) (read : RunRead) : Prop where
  attemptId : run.plan.attemptId = memory.plan.attemptId
  status : run.status = memory.status
  result : run.result = memory.result
  attempts : read.attempts.map (fun a => (a.attemptId, a.ordinal)) =
    f.attempts.map fun a => (a.attemptId, a.ordinal)
  events : (lifeEvents read.events).map (·.type) = f.events.map fun e => ofString e.type
  files : run.read = .ok read

/-- The event ends an attempt that has not completed. -/
def RunEvent.isFailed : RunEvent → Bool
  | .attemptFailed _ => true
  | _ => false

theorem RunEvent.type_failed (e : RunEvent) :
    ofString e.type = ofString "attempt-failed" ↔ e.isFailed = true := by
  rw [ofString_inj]
  cases e <;> simp [RunEvent.type, RunEvent.isFailed]

/-- The last terminal event of an attempt that has not completed: how many events of the run's life
stand before it, and the ordinal of the attempt that had started last before it. -/
def failedLast (f : RunFiles) : Option (ℕ × ℕ) :=
  match f.events.reverse.dropWhile fun e => !e.isFailed with
  | [] => none
  | _ :: earlier => (earlier.findSome? RunEvent.start?).bind fun id =>
    (f.attempts.find? fun a => a.attemptId = id).map fun a => (earlier.length, a.ordinal)

/-- The last terminal event of an attempt that has not completed, in the journal. -/
theorem last_failed_split {events : List RunEvent} (h : events.any RunEvent.isFailed = true) :
    ∃ before e after, events = before ++ e :: after ∧ e.isFailed = true ∧
      (∀ e' ∈ after, e'.isFailed = false) ∧
        events.reverse.dropWhile (fun e => !e.isFailed) = e :: before.reverse := by
  have hsplit : (events.reverse.takeWhile fun e => !e.isFailed) ++
      (events.reverse.dropWhile fun e => !e.isFailed) = events.reverse :=
    List.takeWhile_append_dropWhile
  have hafter : ∀ e ∈ events.reverse.takeWhile fun e => !e.isFailed, (!e.isFailed) = true :=
    fun e he => List.mem_takeWhile_imp (p := fun e : RunEvent => !e.isFailed) he
  generalize (events.reverse.takeWhile fun e => !e.isFailed) = after at hsplit hafter
  cases hdrop : events.reverse.dropWhile fun e => !e.isFailed with
  | nil =>
    obtain ⟨e, he, hf⟩ := List.any_eq_true.mp h
    have hno := List.dropWhile_eq_nil_iff.mp hdrop e (List.mem_reverse.mpr he)
    simp [hf] at hno
  | cons e earlier =>
    have hhead := List.head?_dropWhile_not (fun e : RunEvent => !e.isFailed) events.reverse
    rw [hdrop] at hsplit hhead
    refine ⟨earlier.reverse, e, after.reverse, ?_, by simpa using hhead, ?_,
      by rw [List.reverse_reverse]⟩
    · rw [← List.reverse_reverse events, ← hsplit, List.reverse_append, List.reverse_cons,
        List.append_assoc, List.singleton_append]
    · intro e' he'
      simpa using hafter e' (List.mem_reverse.mp he')

theorem failedLast_split {f : RunFiles} {i ordinal : ℕ} (h : failedLast f = some (i, ordinal)) :
    ∃ before e after, f.events = before ++ e :: after ∧ before.length = i ∧ e.isFailed = true ∧
      (∀ e' ∈ after, e'.isFailed = false) ∧ ∃ a ∈ f.attempts, a.ordinal = ordinal := by
  have hany : f.events.any RunEvent.isFailed = true := by
    by_contra hno
    rw [List.any_eq_true] at hno
    have hnil : (f.events.reverse.dropWhile fun e => !e.isFailed) = [] := by
      refine List.dropWhile_eq_nil_iff.mpr fun e he => ?_
      simpa using fun hf => hno ⟨e, List.mem_reverse.mp he, hf⟩
    unfold failedLast at h
    rw [hnil] at h
    cases h
  obtain ⟨before, e, after, hev, he, hafter, hdrop⟩ := last_failed_split hany
  unfold failedLast at h
  rw [hdrop] at h
  obtain ⟨id, -, hid⟩ := Option.bind_eq_some_iff.mp h
  obtain ⟨a, ha, hpair⟩ := Option.map_eq_some_iff.mp hid
  cases hpair
  exact ⟨before, e, after, hev, (by rw [List.length_reverse]), he, hafter, a,
    List.mem_of_find?_eq_some ha, rfl⟩

/-- The last event of a type is among the events of the run's life. -/
theorem lastOfType_life {type : String} (h : type ∈ lifeTypes) (events : List JournalEvent) :
    lastOfType events type = lastOfType (lifeEvents events) type := by
  unfold lastOfType lifeEvents
  rw [← List.filter_reverse, List.find?_filter]
  congr 1
  funext e
  by_cases he : e.type = ofString type
  · have hany : (lifeTypes.any fun type => decide (e.type = ofString type)) = true :=
      List.any_eq_true.mpr ⟨type, h, decide_eq_true he⟩
    simp [he] at hany ⊢
    exact hany
  · simp [he]

theorem lastOfType_split {before after : List JournalEvent} {e : JournalEvent} {type : String}
    (he : e.type = ofString type) (hafter : ∀ e' ∈ after, e'.type ≠ ofString type) :
    lastOfType (before ++ e :: after) type = some e := by
  unfold lastOfType
  have hnone : (after.reverse.find? fun e' => decide (e'.type = ofString type)) = none := by
    refine List.find?_eq_none.mpr fun e' he' => ?_
    simpa using hafter e' (List.mem_reverse.mp he')
  rw [List.reverse_append, List.reverse_cons, List.append_assoc, List.find?_append, hnone,
    Option.none_or, List.singleton_append, List.find?_cons_of_pos (by simpa using he)]

/-- The journal shows the last failure where the run's life has it. -/
theorem ShowsLife.lastFailed {memory : ActiveRun} {run : Run} {read : RunRead} {f : RunFiles}
    (h : ShowsLife f memory run read) {i ordinal : ℕ} (hf : failedLast f = some (i, ordinal)) :
    ∃ e, (lifeEvents read.events)[i]? = some e ∧
      lastOfType read.events "attempt-failed" = some e := by
  obtain ⟨before, e, after, hev, rfl, he, hafter, -⟩ := failedLast_split hf
  have htypes := h.events
  rw [hev, List.map_append, List.map_cons] at htypes
  obtain ⟨before', rest, hlife, hbefore, hrest⟩ := List.map_eq_append_iff.mp htypes
  obtain ⟨e', after', rfl, htype, hafter'⟩ := List.map_eq_cons_iff.mp hrest
  refine ⟨e', ?_, ?_⟩
  · have hlen : before'.length = before.length := by
      simpa using congrArg List.length hbefore
    rw [hlife, ← hlen, List.getElem?_append_right (le_refl _), Nat.sub_self]
    rfl
  · rw [lastOfType_life (by decide), hlife]
    refine lastOfType_split ?_ ?_
    · rw [htype, e.type_failed]
      exact he
    · intro x hx
      have hmem : x.type ∈ after.map fun e => ofString e.type :=
        hafter' ▸ List.mem_map_of_mem hx
      obtain ⟨y, hy, hxy⟩ := List.mem_map.mp hmem
      rw [← hxy, Ne, y.type_failed, hafter y hy]
      exact Bool.false_ne_true

/-! ## The instant at which a retry is no longer refused -/

/-- A retry is refused exactly until an instant, which is the one that the summary of the run shows,
and a later ordinal would not have made it an earlier one. -/
structure HeldUntil (run : Run) (read : RunRead) (instant : ℤ) : Prop where
  refused : ∀ now, retryCheck run read now =
    if now < instant then .error (.backoff instant) else .ok ()
  shown : ∀ pins now summary, summarizeRun run pins now = .ok summary →
    summary.retryAt = some instant
  grows : Monotone (retryDelayMs run.failure)

/-- The seat knows of the latest attempt, and the exponent that the code takes is the ordinal of the
attempt that failed last, or both delays are at their most. -/
def HeldAsDocumented (run : Run) (read : RunRead) (retryAfterMs ordinal : ℕ) : Prop :=
  ∃ latest ∈ read.attempts.getLast?, latest.attemptId = run.plan.attemptId ∧
    (ordinal = min latest.ordinal 8 ∨ 300000 ≤ retryAfterMs * 2 ^ min ordinal 8)

section Held

variable {run : Run} {read : RunRead} {failure : ClassifiedFailure} {e : JournalEvent} {failedAt : ℤ}
  (hread : run.read = .ok read) (hstatus : run.status = .failed)
  (hfailure : run.failure = some failure) (hretry : failure.retry = .backoff)
  (hhandoff : run.handoffCommit = none) (hpos : 0 < failure.retryAfterMs.getD 1000)
  (hlast : lastOfType read.events "attempt-failed" = some e)
  (hat : dateParse e.timestamp = some failedAt)

include hfailure hretry in
theorem delay_of_backoff (ordinal : ℕ) : retryDelayMs run.failure ordinal =
    min 300000 (failure.retryAfterMs.getD 1000 * 2 ^ min ordinal 8) := by
  rw [hfailure]
  exact retryDelayMs_backoff hretry ordinal

include hfailure hretry hpos in
theorem delay_pos (ordinal : ℕ) : 0 < retryDelayMs run.failure ordinal := by
  rw [delay_of_backoff hfailure hretry]
  exact lt_min (by norm_num) (Nat.mul_pos hpos (Nat.pow_pos Nat.two_pos))

include hread hfailure hretry hpos hlast hat in
theorem summary_retryAt {pins : List RunId} {now : ℤ} {summary : Summaries.RunSummary}
    (h : summarizeRun run pins now = .ok summary) : summary.retryAt =
      some (failedAt + retryDelayMs run.failure ((read.attempts.getLast?.map (·.ordinal)).getD 0)) := by
  unfold summarizeRun at h
  rw [hread] at h
  cases h
  change retryAt run read = _
  unfold retryAt
  rw [if_pos (delay_pos hfailure hretry hpos _), hlast, Option.bind_some, hat]
  rfl

include hstatus hfailure hretry hhandoff hpos hlast hat in
theorem retryCheck_eq {latest : AttemptRecords.AttemptRecord}
    (hlatest : read.attempts.getLast? = some latest) (now : ℤ) :
    retryCheck run read now =
      if latest.attemptId ≠ run.plan.attemptId then
        .error (.error (ofString "attempt history mismatch"))
      else if now < failedAt + retryDelayMs run.failure latest.ordinal then
        .error (.backoff (failedAt + retryDelayMs run.failure latest.ordinal))
      else .ok () := by
  have hresult : run.result.isNone = false := by
    cases hr : run.result with
    | none => simp [Run.failure, hr] at hfailure
    | some execution => rfl
  have hdelay := delay_pos hfailure hretry hpos latest.ordinal
  unfold retryCheck refuseRetry
  rw [if_neg (by simp [hstatus, hresult]), if_neg (by simp [hfailure, hretry]),
    if_neg (by simp [hhandoff]), hlatest]
  by_cases hid : latest.attemptId = run.plan.attemptId
  · simp only [hid, ne_eq, not_true_eq_false, if_false, hdelay, hlast, hat, if_true]
    rfl
  · simp only [ne_eq, hid, not_false_eq_true, if_true]
    rfl

include hread hstatus hfailure hretry hhandoff hpos hlast hat in
/-- **When a retry is held back as documented.** -/
theorem heldUntil_iff {ordinal : ℕ} {latest : AttemptRecords.AttemptRecord}
    (hlatest : read.attempts.getLast? = some latest) (hle : ordinal ≤ latest.ordinal) :
    HeldUntil run read
        (failedAt + (min 300000 (failure.retryAfterMs.getD 1000 * 2 ^ ordinal) : ℕ)) ↔
      HeldAsDocumented run read (failure.retryAfterMs.getD 1000) ordinal := by
  have hsummary := @summary_retryAt _ _ _ _ _ hread hfailure hretry hpos hlast hat
  have hcheck := retryCheck_eq hstatus hfailure hretry hhandoff hpos hlast hat hlatest
  rw [hlatest] at hsummary
  have hdelay := delay_of_backoff hfailure hretry latest.ordinal
  constructor
  · intro h
    obtain ⟨summary, hok⟩ : ∃ summary, summarizeRun run [] 0 = .ok summary := by
      unfold summarizeRun
      rw [hread]
      exact ⟨_, rfl⟩
    have hshown := (h.shown [] 0 summary hok).symm.trans (hsummary hok)
    have hsame : min 300000 (failure.retryAfterMs.getD 1000 * 2 ^ ordinal) =
        min 300000 (failure.retryAfterMs.getD 1000 * 2 ^ min latest.ordinal 8) := by
      rw [← hdelay]
      have hint := Option.some.inj hshown
      simp only [Option.map_some, Option.getD_some] at hint
      omega
    refine ⟨latest, hlatest, ?_, (delay_eq_iff hpos hle).mp hsame.symm⟩
    by_contra hid
    have hrefused := h.refused
      (failedAt + (min 300000 (failure.retryAfterMs.getD 1000 * 2 ^ ordinal) : ℕ))
    rw [hcheck, if_pos hid, if_neg (lt_irrefl _)] at hrefused
    cases hrefused
  · rintro ⟨latest', hlatest', hid, hcond⟩
    obtain rfl : latest = latest' := Option.some.inj (hlatest.symm.trans hlatest')
    have hsame := (delay_eq_iff hpos hle).mpr hcond
    rw [← hdelay] at hsame
    rw [← hsame]
    refine ⟨?_, ?_, retryDelayMs_mono _⟩
    · intro now
      rw [hcheck, if_neg (not_not.mpr hid)]
    · intro pins now summary hok
      exact hsummary hok

end Held

/-! ## Backoff failures have terminal events -/

/-- The result has no backoff failure. -/
def Calm (r : RunResult) : Prop := retryIs r [.backoff] = false

/-- An attempt has ended without having completed. -/
def hasFailed (events : List RunEvent) : Bool := events.any RunEvent.isFailed

/-- A result with a backoff failure is stored only after an attempt has failed in the journal. -/
def Backed (s : RunState) : Prop := hasFailed s.files.events = true ∨ s.Results Calm

theorem calm_of_failure {r : RunResult} {f : ClassifiedFailure} (h : r.failure = some f)
    (hf : f.retry ≠ .backoff) : Calm r := by
  unfold Calm retryIs
  rw [h]
  simpa using hf

theorem calm_congr {r r' : RunResult} (h : r.failure = r'.failure) (hr : Calm r') : Calm r := by
  unfold Calm retryIs at hr ⊢
  rw [h]
  exact hr

theorem reconcileFailure_retry (status : RunStatus) : (reconcileFailure status).retry ≠ .backoff := by
  cases status <;> simp [reconcileFailure]

theorem releasedResult_failure (plan : RunPlan) (pending : Bool) (previous : RunResult) :
    (releasedResult plan pending previous).failure = previous.failure := by
  unfold releasedResult
  split_ifs <;> rfl

theorem calm_prior {f : RunFiles} (hs : ∀ snapshot ∈ f.snapshot, Calm snapshot.state.result)
    {r : RunResult} (h : f.priorResult = some r) : Calm r := by
  obtain ⟨-, snapshot, hsnap, rfl, -⟩ := priorResult_valid h
  exact hs snapshot hsnap

theorem calm_recovered (hs : s.Results Calm) : Calm s.files.recovered.1 := by
  have hlost : Calm s.files.lostResult := calm_of_failure rfl (by decide)
  have hpersisted : ∀ r, s.files.persistedResult = some r → Calm r := by
    intro r hr
    unfold RunFiles.persistedResult at hr
    split at hr
    case h_1 result hlast =>
      split_ifs at hr
      · cases hr
        obtain ⟨e, he, hx⟩ := List.exists_of_findSome?_eq_some hlast
        refine hs.events e (List.mem_reverse.mp he) r ?_
        cases e <;> first | exact hx | cases hx
      · exact calm_prior hs.snapshot hr
    case h_2 => exact calm_prior hs.snapshot hr
  unfold RunFiles.recovered
  split_ifs
  · exact calm_of_failure rfl (by decide)
  · split
    case h_1 result hr => exact hpersisted result hr
    case h_2 => exact hlost

theorem calm_such {a : RunAct} (hs : s.Results Calm)
    (hfinish : ∀ seat execution cut, a = .finish seat execution cut → Calm execution.result) :
    StoresSuch Calm s a where
  finish seat execution cut _ ha _ := hfinish seat execution cut ha
  reconcile seat o cut run execution _ hx := by
    rw [(reconcileExecution_cases hx).2]
    exact calm_of_failure rfl (reconcileFailure_retry _)
  release seat released cut run memory next _ hm hx := by
    rw [(releaseExecution_cases hx).2]
    exact calm_congr (releasedResult_failure _ _ _) hm
  pending _ _ _ _ _ _ _ _ _ _ _ := calm_of_failure rfl (by decide)
  blocked _ _ _ _ _ _ _ := calm_of_failure rfl (by decide)
  done _ _ _ _ _ _ _ := calm_of_failure rfl (by decide)
  recovered _ _ _ _ := calm_recovered hs

theorem hasFailed_append {events : List RunEvent} (h : hasFailed events = true)
    (new : List RunEvent) : hasFailed (events ++ new) = true := by
  unfold hasFailed at h ⊢
  rw [List.any_append, h]
  rfl

/-- The end of an attempt writes its terminal event before its result. -/
theorem backed_finish {seat cut : ℕ} {execution : AttemptExecutionResult} (h : s.Results Calm)
    (hx : ¬Calm execution.result) (ht : s.step D (.finish seat execution cut) = some t) :
    Backed t := by
  refine RunState.step_allCuts (P := Backed) ht (fun _ ha => by cases ha) ?_ ?_
  · intro u id hu
    exact hu.imp (fun hev => hev) fun hr => results_perform hr trivial
  · intro es he
    obtain ⟨run, hr, -, hm, rfl⟩ := finishEffects_cases he
    have hstatus : execution.result.status ≠ .completed := by
      intro hc
      unfold mayEnd at hm
      simp only [Bool.and_eq_true] at hm
      have hvalid := hm.1.1
      unfold isRunResult at hvalid
      rw [hc] at hvalid
      have hnone : execution.result.failure = none := by
        simpa using (Bool.and_eq_true_iff.mp (Bool.and_eq_true_iff.mp hvalid).2).2
      exact hx (by simp [Calm, retryIs, hnone])
    have hafter : ∀ u : RunState, hasFailed u.files.events = true →
        AllCuts (perform seat) Backed [.writeSnapshot execution,
          .remember { run with flight := .ended execution }] u :=
      fun u hu => ⟨Or.inl hu, Or.inl hu, Or.inl hu⟩
    have hwrites : ∀ u : RunState, u.Results Calm →
        AllCuts (perform seat) Backed [.append (.attemptFailed execution),
          .writeSnapshot execution, .remember { run with flight := .ended execution }] u := by
      refine fun u hu => ⟨Or.inr hu, hafter _ ?_⟩
      change hasFailed (u.files.events ++ [.attemptFailed execution]) = true
      unfold hasFailed
      rw [List.any_append, Bool.or_eq_true]
      exact Or.inr rfl
    unfold finishEffects
    rw [if_neg hstatus]
    split_ifs
    · exact ⟨Or.inr h, hwrites _ (results_perform h trivial)⟩
    · exact hwrites s h

theorem backed_step {a : RunAct} (h : Backed s) (ht : s.step D a = some t) : Backed t := by
  rcases h with hev | hres
  · obtain ⟨new, hnew, -⟩ := events_grow ht
    exact Or.inl (hnew ▸ hasFailed_append hev new)
  · by_cases hf : ∀ seat execution cut, a = .finish seat execution cut → Calm execution.result
    · exact Or.inr ((calm_such hres hf).step hres ht)
    · simp only [not_forall] at hf
      obtain ⟨seat, execution, cut, rfl, hx⟩ := hf
      exact backed_finish hres hx ht

theorem backed_freshRun (plan : Plan) : Backed (freshRun plan) := Or.inr (results_freshRun plan)

/-! ## Terminal events are those of recorded attempts -/

/-- The attempts that run are recorded, the one that has begun is the last the journal has started,
and every attempt that has failed had started before. -/
structure Attributed (s : RunState) : Prop where
  recorded : ∀ n plan b, s.Runs n plan b → ∃ a ∈ s.files.attempts, a.attemptId = plan.attemptId
  begun : ∀ n plan, s.Runs n plan true →
    lastOf RunEvent.start? s.files.events = some plan.attemptId
  started : ∀ e ∈ s.files.events, ∀ id ∈ e.start?, ∃ a ∈ s.files.attempts, a.attemptId = id
  failed : ∀ before e after, s.files.events = before ++ e :: after → e.isFailed = true →
    (lastOf RunEvent.start? before).isSome = true

theorem attributed_freshRun (plan : Plan) : Attributed (freshRun plan) where
  recorded := by simp [RunState.Runs, freshRun]
  begun := by simp [RunState.Runs, freshRun]
  started := by simp [freshRun]
  failed := by simp [freshRun]

theorem lastStart_append {events new : List RunEvent} (h : ∀ e ∈ new, e.start? = none) :
    lastOf RunEvent.start? (events ++ new) = lastOf RunEvent.start? events := by
  induction new using List.reverseRecOn with
  | nil => rw [List.append_nil]
  | append_singleton new e ih =>
    have hnone : e.start? = none := h e (List.mem_append_right _ List.mem_cons_self)
    rw [← List.append_assoc, lastOf_concat, hnone, Option.none_or]
    exact ih fun e' he' => h e' (List.mem_append_left _ he')

/-- An event of a journal that has grown is old, or it follows the old ones. -/
theorem split_grown {events new before after : List RunEvent} {e : RunEvent}
    (h : events ++ new = before ++ e :: after) :
    (∃ after', events = before ++ e :: after') ∨
      ∃ middle, before = events ++ middle ∧ new = middle ++ e :: after := by
  rcases List.append_eq_append_iff.mp h with ⟨middle, hb, hn⟩ | ⟨rest, hb, hn⟩
  · exact Or.inr ⟨middle, hb, hn⟩
  · cases rest with
    | nil =>
      rw [List.append_nil] at hb
      exact Or.inr ⟨[], (by rw [hb, List.append_nil]), hn.symm⟩
    | cons x rest =>
      rw [List.cons_append] at hn
      cases hn
      exact Or.inl ⟨rest, hb⟩

theorem attributed_quiet (h : Attributed s) {new : List RunEvent}
    (hev : t.files.events = s.files.events ++ new) (hstart : ∀ e ∈ new, e.start? = none)
    (hfailed : (∃ e ∈ new, e.isFailed = true) →
      (lastOf RunEvent.start? s.files.events).isSome = true)
    (hatt : ∃ more, t.files.attempts = s.files.attempts ++ more)
    (hruns : ∀ n plan b, t.Runs n plan b → s.Runs n plan b ∨
      b = false ∧ ∃ a ∈ t.files.attempts, a.attemptId = plan.attemptId) : Attributed t := by
  obtain ⟨more, hatt⟩ := hatt
  have hkept : ∀ id, (∃ a ∈ s.files.attempts, a.attemptId = id) →
      ∃ a ∈ t.files.attempts, a.attemptId = id := by
    rintro id ⟨a, ha, hid⟩
    exact ⟨a, by rw [hatt]; exact List.mem_append_left _ ha, hid⟩
  refine ⟨?_, ?_, ?_, ?_⟩
  · intro n plan b hr
    rcases hruns n plan b hr with hr | ⟨-, ha⟩
    · exact hkept _ (h.recorded n plan b hr)
    · exact ha
  · intro n plan hr
    rcases hruns n plan true hr with hr | ⟨hb, -⟩
    · rw [hev, lastStart_append hstart]
      exact h.begun n plan hr
    · cases hb
  · intro e he id hid
    rw [hev] at he
    rcases List.mem_append.mp he with he | he
    · exact hkept id (h.started e he id hid)
    · rw [hstart e he] at hid
      cases hid
  · intro before e after hsplit he
    rw [hev] at hsplit
    rcases split_grown hsplit with ⟨after', hold⟩ | ⟨middle, rfl, hnew⟩
    · exact h.failed before e after' hold he
    · have hmem : e ∈ new := by
        rw [hnew]
        exact List.mem_append_right _ List.mem_cons_self
      rw [lastStart_append fun e' he' => hstart e' (by rw [hnew]; exact List.mem_append_left _ he')]
      exact hfailed ⟨e, hmem, he⟩

theorem attributed_begin (hd : s.Disciplined) (h : Attributed s) {seat : ℕ}
    (ht : s.step D (.begin seat) = some t) : Attributed t := by
  obtain ⟨run, hr, hf, hev, hatt, hseats⟩ := begin_spec ht
  have hlease : s.lease = some seat := hd.busy seat run hr (by rw [hf]; rfl)
  -- Nothing else is in flight.
  have hruns : ∀ n plan b, t.Runs n plan b → plan = run.plan := by
    rintro n plan b ⟨run', hr', rfl, hf'⟩
    rw [hseats] at hr'
    simp only [setSeat] at hr'
    split_ifs at hr' with hn
    · cases hr'
      rfl
    · have hother := hd.busy n run' hr' (by rw [hf']; rfl)
      rw [hlease] at hother
      exact absurd (Option.some.inj hother).symm hn
  have hthis := h.recorded seat run.plan false ⟨run, hr, rfl, hf⟩
  refine ⟨?_, ?_, ?_, ?_⟩
  · intro n plan b hrun
    rw [hruns n plan b hrun, hatt]
    exact hthis
  · intro n plan hrun
    rw [hruns n plan true hrun, hev, lastOf_concat]
    rfl
  · intro e he id hid
    rw [hev] at he
    rw [hatt]
    rcases List.mem_append.mp he with he | he
    · exact h.started e he id hid
    · rw [List.mem_singleton.mp he] at hid
      cases hid
      exact hthis
  · intro before e after hsplit he
    rw [hev] at hsplit
    rcases split_grown hsplit with ⟨after', hold⟩ | ⟨middle, -, hnew⟩
    · exact h.failed before e after' hold he
    · have hmem : e ∈ [RunEvent.attemptStarting run.plan.attemptId] := by
        rw [hnew]
        exact List.mem_append_right _ List.mem_cons_self
      rw [List.mem_singleton.mp hmem] at he
      cases he

/-- **Every step keeps terminal events with their attempts.** -/
theorem attributed_step {a : RunAct} (hd : s.Disciplined) (h : Attributed s)
    (ht : s.step D a = some t) : Attributed t := by
  by_cases hb : ∃ seat, a = .begin seat
  · obtain ⟨seat, rfl⟩ := hb
    exact attributed_begin hd h ht
  have hbegin : ∀ seat, a ≠ .begin seat := fun seat ha => hb ⟨seat, ha⟩
  obtain ⟨new, hev, happ⟩ := events_grow ht
  have hstart : ∀ e ∈ new, e.start? = none := fun e he => appends_start (happ e he) hbegin
  have hfailed : (∃ e ∈ new, e.isFailed = true) →
      (lastOf RunEvent.start? s.files.events).isSome = true := by
    rintro ⟨e, he, hfail⟩
    by_cases hf : ∃ seat execution cut, a = .finish seat execution cut
    · obtain ⟨seat, execution, cut, rfl⟩ := hf
      obtain ⟨run, hr, hflight⟩ := finish_spec ht
      rw [h.begun seat run.plan ⟨run, hr, rfl, hflight⟩]
      rfl
    · have hquiet := appends_quiet (happ e he) fun seat x cut ha => hf ⟨seat, x, cut, ha⟩
      cases e <;> first | cases hfail; done | cases hquiet
  by_cases ha : a.isStart = true
  · obtain ⟨call, cut, undo, hact⟩ := RunAct.isStart_cases ha
    rw [hact] at ht
    obtain ⟨i, hi, ho, -⟩ := start_spec ht
    refine attributed_quiet h hev hstart hfailed ?_ ?_
    · rcases ho.attempts with hsame | ⟨id, -, -, -, hgrown⟩
      · exact ⟨[], by rw [hsame, List.append_nil]⟩
      · exact ⟨_, hgrown⟩
    · rintro n plan b ⟨run, hr, rfl, hf⟩
      rcases ho.executed with ⟨-, hseats⟩ | ⟨-, hseats, a', ha', hid, -⟩
      · rw [hseats] at hr
        exact Or.inl ⟨run, hr, rfl, hf⟩
      · rw [hseats] at hr
        simp only [setSeat] at hr
        split_ifs at hr
        · cases hr
          cases hf
          exact Or.inr ⟨rfl, a', ha', hid⟩
        · exact Or.inl ⟨run, hr, rfl, hf⟩
  · have ha' : a.isStart = false := Bool.eq_false_iff.mpr ha
    refine attributed_quiet h hev hstart hfailed ⟨[], ?_⟩ ?_
    · rw [(step_frame ha' ht).attempts, List.append_nil]
    · exact fun n plan b hr => Or.inl (runs_step ha' hbegin ht hr)

/-! ## Retries of a run that has failed -/

/-- What every step keeps. -/
structure Durable (root : Plan) (s : RunState) : Prop where
  disciplined : s.Disciplined
  checked : s.Checked
  lined : Lined root s
  backed : Backed s
  attributed : Attributed s

theorem durable_exec {acts : List RunAct}
    (h : exec (RunState.step D) (freshRun root) acts = some s) : Durable root s := by
  refine exec_preserves (Durable root) (fun u a v hu hv => ?_) ?_ h
  · exact ⟨disciplined_step hu.disciplined hv, checked_step hu.checked hv, lined_step hu.lined hv,
      backed_step hu.backed hv, attributed_step hu.disciplined hu.attributed hv⟩
  · exact ⟨disciplined_freshRun root, results_freshRun root, lined_freshRun root,
      backed_freshRun root, attributed_freshRun root⟩

/-- **A run with a backoff failure has an attempt that failed last.** -/
theorem Durable.exists_failedLast (h : Durable root s) {seat : ℕ} {memory : ActiveRun}
    (hmemory : s.seats seat = some memory) {execution : AttemptExecutionResult}
    (hresult : memory.result = some execution) (hbackoff : ¬Calm execution.result) :
    ∃ i ordinal, failedLast s.files = some (i, ordinal) := by
  have hfailed : hasFailed s.files.events = true := by
    rcases h.backed with hev | hcalm
    · exact hev
    · exact absurd ((hcalm.seats seat memory hmemory).1 execution hresult) hbackoff
  obtain ⟨before, e, after, hev, he, -, hdrop⟩ := last_failed_split hfailed
  obtain ⟨id, hid⟩ := Option.isSome_iff_exists.mp (h.attributed.failed before e after hev he)
  obtain ⟨start, hstart, hs⟩ := List.exists_of_findSome?_eq_some hid
  have hmem : start ∈ s.files.events := by
    rw [hev]
    exact List.mem_append_left _ (List.mem_reverse.mp hstart)
  obtain ⟨a, ha, haid⟩ := h.attributed.started start hmem id hs
  obtain ⟨b, hb⟩ : ∃ b, (s.files.attempts.find? fun a => a.attemptId = id) = some b := by
    refine Option.isSome_iff_exists.mp (List.find?_isSome.mpr ⟨a, ha, ?_⟩)
    exact decide_eq_true haid
  refine ⟨before.reverse.length, b.ordinal, ?_⟩
  unfold failedLast
  rw [hdrop]
  change ((before.reverse.findSome? RunEvent.start?).bind _) = _
  rw [show before.reverse.findSome? RunEvent.start? = some id from hid, Option.bind_some, hb]
  rfl

theorem Durable.ordinal_le (h : Durable root s) {memory : ActiveRun} {run : Run} {read : RunRead}
    (hshow : ShowsLife s.files memory run read) {i ordinal : ℕ}
    (hf : failedLast s.files = some (i, ordinal)) :
    ∃ latest, read.attempts.getLast? = some latest ∧ ordinal ≤ latest.ordinal := by
  obtain ⟨-, -, -, -, -, -, -, a, ha, rfl⟩ := failedLast_split hf
  obtain ⟨n, hn, rfl⟩ := List.getElem_of_mem ha
  have hlast := congrArg List.getLast? hshow.attempts
  rw [List.getLast?_map, List.getLast?_map] at hlast
  cases hl : s.files.attempts.getLast? with
  | none =>
    rw [List.getLast?_eq_none_iff.mp hl] at hn
    cases hn
  | some latest =>
    rw [hl] at hlast
    obtain ⟨latest', hlatest', hpair⟩ := Option.map_eq_some_iff.mp hlast
    have hlength := h.lined.length hl
    have hord : latest'.ordinal = latest.ordinal := (Prod.mk.inj hpair).2
    refine ⟨latest', hlatest', ?_⟩
    rw [h.lined.ordinals n hn]
    omega

/-- **When a retry is held back as documented.** In every state of a run's life, an attempt has
failed last where the seat remembers a backoff failure; and the retry is refused exactly until the
documented delay has passed since that attempt's terminal event, and the summary shows that instant,
exactly when the seat knows of the latest attempt and the cap of the exponent does not matter. -/
theorem retry_backoff {D : Planner} {root : Plan} {acts : List RunAct} {s : RunState}
    (hrun : exec (RunState.step D) (freshRun root) acts = some s) {seat : ℕ} {memory : ActiveRun}
    (hmemory : s.seats seat = some memory) {run : Run} {read : RunRead}
    (hshow : ShowsLife s.files memory run read) (hstatus : run.status = .failed)
    {failure : ClassifiedFailure} (hfailure : run.failure = some failure)
    (hretry : failure.retry = .backoff) (hhandoff : run.handoffCommit = none) :
    ∃ i ordinal e failedAt, failedLast s.files = some (i, ordinal) ∧
      (lifeEvents read.events)[i]? = some e ∧ dateParse e.timestamp = some failedAt ∧
        (HeldUntil run read
            (failedAt + (min 300000 (failure.retryAfterMs.getD 1000 * 2 ^ ordinal) : ℕ)) ↔
          HeldAsDocumented run read (failure.retryAfterMs.getD 1000) ordinal) := by
  have hd := durable_exec hrun
  obtain ⟨execution, hexecution, hf⟩ := Option.bind_eq_some_iff.mp hfailure
  rw [hshow.result] at hexecution
  have hbackoff : ¬Calm execution.result := by
    simp [Calm, retryIs, hf, hretry]
  obtain ⟨i, ordinal, hlast⟩ := hd.exists_failedLast hmemory hexecution hbackoff
  obtain ⟨e, he, hevent⟩ := hshow.lastFailed hlast
  obtain ⟨latest, hlatest, hle⟩ := hd.ordinal_le hshow hlast
  have hmem : e ∈ read.events := (List.mem_filter.mp (List.mem_of_getElem? he)).1
  obtain ⟨failedAt, hat⟩ : ∃ failedAt, dateParse e.timestamp = some failedAt :=
    Option.isSome_iff_exists.mp (dateParse_isSome (run.stamped read hshow.files e hmem))
  have hpos : 0 < failure.retryAfterMs.getD 1000 := by
    have hcheck := (hd.checked.seats seat memory hmemory).1 execution hexecution
    have hfail := ((RunResult.check_iff _).mp hcheck).2.2.2.2.2
    rw [hf] at hfail
    cases hms : failure.retryAfterMs with
    | none => norm_num
    | some ms =>
      simp only [Option.all_some, ClassifiedFailure.check, hms, Bool.and_eq_true,
        decide_eq_true_eq] at hfail
      have hlow := hfail.2.1
      rw [Option.getD_some]
      omega
  exact ⟨i, ordinal, e, failedAt, hlast, he, hat,
    heldUntil_iff hshow.files hstatus hfailure hretry hhandoff hpos hevent hat hlatest hle⟩

/-! ## Runs to look at -/

/-- A provider that asks for a second. -/
def throttledFailure : ClassifiedFailure :=
  ⟨.providerTransient, .provider, .backoff, ofString "throttled", ofString "retry", some 1000⟩

/-- An attempt that the provider throttles. -/
def throttled : AttemptExecutionResult :=
  { failed .notNeeded with
    result := { failedResult .notNeeded with failure := some throttledFailure } }

/-- Digests that differ with the ordinal, up to nine. -/
def digitDigest : Planner := .exact fun _ _ ordinal _ => List.replicate 48 (48 + ordinal.toUInt16)

/-- A plan that permits ten retries. -/
def tenRetriesPlan : Plan := { livePlan with limits := { livePlan.limits with retries := 10 } }

/-- An attempt that is throttled, and so many retries. -/
def untilThrottled : ℕ → List RunAct
  | 0 => [.launch 0 5, .begin 0, .finish 0 throttled 5, .settle 0 none]
  | n + 1 => untilThrottled n ++ [.retry 0 5, .begin 0, .finish 0 throttled 5, .settle 0 none]

/-- When everything happens. -/
def sampleTimestamp : JsString := ofString "2024-05-01T10:00:00.000Z"

/-- The record of an attempt. -/
def shownRecord (a : AttemptRecord) : AttemptRecords.AttemptRecord where
  ownerId := ofString "owner-1"
  runId := a.plan.runId
  attemptId := a.attemptId
  ordinal := a.ordinal
  kind := a.kind
  parentAttemptId := a.parentAttemptId
  worktreeAttemptId := a.worktreeAttemptId
  plan := { Preflight.workerPlan none with runId := a.plan.runId, attemptId := a.attemptId }
  createdAt := sampleTimestamp

/-- An event of the journal. -/
def shownEvent (e : RunEvent) : JournalEvent :=
  ⟨1, ofString "event-1", sampleTimestamp, ofString "run_a1", ofString e.type, .null⟩

/-- What the files of a run show. -/
def shownRead (f : RunFiles) (few : f.events.length < 2 ^ 32) : RunRead where
  attempts := f.attempts.map shownRecord
  events := f.events.map shownEvent
  retainedWorktree := false
  workspaceReleasable := true
  few := by rwa [List.length_map]

/-- What a seat remembers of a run. -/
def shownRun (memory : ActiveRun) (f : RunFiles) (few : f.events.length < 2 ^ 32) : Run where
  plan := { Preflight.workerPlan none with
    runId := memory.plan.runId, attemptId := memory.plan.attemptId }
  ownerId := ofString "owner-1"
  status := memory.status
  result := memory.result
  repositoryRoot := ofString "/repo"
  createdAt := sampleTimestamp
  control := false
  read := .ok (shownRead f few)
  dated := by decide +kernel
  stamped := by
    rintro r hr e he
    cases hr
    obtain ⟨e', -, rfl⟩ := List.mem_map.mp he
    change isDateTime sampleTimestamp = true
    decide +kernel

theorem lifeEvents_shown (events : List RunEvent) :
    lifeEvents (events.map shownEvent) = events.map shownEvent := by
  refine List.filter_eq_self.mpr fun e he => ?_
  obtain ⟨e', -, rfl⟩ := List.mem_map.mp he
  exact List.any_eq_true.mpr ⟨e'.type, e'.type_mem, decide_eq_true rfl⟩

theorem shows_shown (f : RunFiles) (memory : ActiveRun) (few : f.events.length < 2 ^ 32) :
    ShowsLife f memory (shownRun memory f few) (shownRead f few) where
  attemptId := rfl
  status := rfl
  result := rfl
  attempts := by
    change (f.attempts.map shownRecord).map _ = _
    rw [List.map_map]
    rfl
  events := by
    change (lifeEvents (f.events.map shownEvent)).map _ = _
    rw [lifeEvents_shown, List.map_map]
    rfl
  files := rfl

/-- The run has been throttled, and the attempt that failed last is the latest, with an ordinal. -/
def isThrottled (s : RunState) (memory : ActiveRun) (ordinal : ℕ) : Prop :=
  s.files.events.length < 2 ^ 32 ∧ memory.status = .failed ∧
    (memory.result.bind fun execution => execution.result.failure) = some throttledFailure ∧
    (memory.result.bind fun execution => execution.handoff.bind (·.handoffCommit)) = none ∧
    (s.files.attempts.getLast?.map fun a => (a.attemptId, a.ordinal)) =
      some (memory.plan.attemptId, ordinal) ∧
    (failedLast s.files).map Prod.snd = some ordinal

instance (s : RunState) (memory : ActiveRun) (ordinal : ℕ) :
    Decidable (isThrottled s memory ordinal) := by
  unfold isThrottled
  infer_instance

theorem isThrottled.latest {memory : ActiveRun} {ordinal : ℕ} (h : isThrottled s memory ordinal) :
    ∃ latest, (shownRead s.files h.1).attempts.getLast? = some latest ∧
      latest.attemptId = memory.plan.attemptId ∧ latest.ordinal = ordinal := by
  obtain ⟨a, ha, hpair⟩ := Option.map_eq_some_iff.mp h.2.2.2.2.1
  refine ⟨shownRecord a, ?_, (Prod.mk.inj hpair).1, (Prod.mk.inj hpair).2⟩
  change (s.files.attempts.map shownRecord).getLast? = _
  rw [List.getLast?_map, ha]
  rfl

theorem isThrottled.ordinal_eq {memory : ActiveRun} {ordinal i o : ℕ}
    (h : isThrottled s memory ordinal) (hf : failedLast s.files = some (i, o)) : o = ordinal := by
  have hsnd := h.2.2.2.2.2
  rw [hf] at hsnd
  exact Option.some.inj hsnd

theorem shown_time {f : RunFiles} {few : f.events.length < 2 ^ 32} {i : ℕ} {e : JournalEvent}
    (h : (lifeEvents (shownRead f few).events)[i]? = some e) :
    dateParse e.timestamp = some 1714557600000 := by
  have hmem := List.mem_of_getElem? h
  obtain ⟨e', -, rfl⟩ := List.mem_map.mp (List.mem_filter.mp hmem).1
  change dateParse sampleTimestamp = _
  decide +kernel

/-- The first attempt is throttled: its retry is refused for a second. -/
theorem retry_backoff_throttled : ∃ s memory, ∃ few : s.files.events.length < 2 ^ 32,
    exec (RunState.step digitDigest) (freshRun tenRetriesPlan) (untilThrottled 0) = some s ∧
      s.seats 0 = some memory ∧
        HeldUntil (shownRun memory s.files few) (shownRead s.files few)
          1714557601000 := by
  have hany : (exec (RunState.step digitDigest) (freshRun tenRetriesPlan) (untilThrottled 0)).any
      (fun s => (s.seats 0).any fun memory => decide (isThrottled s memory 0)) = true := by
    decide +kernel
  obtain ⟨s, hs, hseat⟩ := (Option.any_eq_true _ _).mp hany
  obtain ⟨memory, hmemory, hthrottled⟩ := (Option.any_eq_true _ _).mp hseat
  have h := of_decide_eq_true hthrottled
  refine ⟨s, memory, h.1, hs, hmemory, ?_⟩
  obtain ⟨i, ordinal, e, failedAt, hlast, he, hat, hiff⟩ := retry_backoff hs hmemory
    (shows_shown s.files memory h.1) h.2.1 h.2.2.1 rfl h.2.2.2.1
  obtain rfl := h.ordinal_eq hlast
  rw [shown_time he] at hat
  cases hat
  obtain ⟨latest, hlatest, hid, hord⟩ := h.latest
  exact hiff.mpr ⟨latest, hlatest, hid, Or.inl (by rw [hord]; rfl)⟩

/-- **The ninth retry fails, and the next one is admitted too early**: after 256 seconds and not
after 300. -/
theorem ninth_retry_early :
    ¬∀ (D : Planner) (root : Plan) (acts : List RunAct) (s : RunState),
      exec (RunState.step D) (freshRun root) acts = some s →
        ∀ seat memory, s.seats seat = some memory →
          ∀ run read, ShowsLife s.files memory run read → run.status = .failed →
            ∀ failure, run.failure = some failure → failure.retry = .backoff →
              run.handoffCommit = none → ∃ i ordinal e failedAt,
                failedLast s.files = some (i, ordinal) ∧
                  (lifeEvents read.events)[i]? = some e ∧
                    dateParse e.timestamp = some failedAt ∧
                      HeldUntil run read (failedAt +
                        (min 300000 (failure.retryAfterMs.getD 1000 * 2 ^ ordinal) : ℕ)) := by
  intro hall
  have hany : (exec (RunState.step digitDigest) (freshRun tenRetriesPlan) (untilThrottled 9)).any
      (fun s => (s.seats 0).any fun memory => decide (isThrottled s memory 9)) = true := by
    decide +kernel
  obtain ⟨s, hs, hseat⟩ := (Option.any_eq_true _ _).mp hany
  obtain ⟨memory, hmemory, hthrottled⟩ := (Option.any_eq_true _ _).mp hseat
  have h := of_decide_eq_true hthrottled
  have hshow := shows_shown s.files memory h.1
  obtain ⟨i, ordinal, e, failedAt, hlast, he, hat, hheld⟩ := hall _ _ _ s hs 0 memory hmemory _ _
    hshow h.2.1 throttledFailure h.2.2.1 rfl h.2.2.2.1
  obtain rfl := h.ordinal_eq hlast
  obtain ⟨e', he', hevent⟩ := hshow.lastFailed hlast
  obtain rfl : e = e' := Option.some.inj (he.symm.trans he')
  obtain ⟨latest, hlatest, -, hord⟩ := h.latest
  -- The summary shows an instant 256 seconds after the failure.
  have hfailure : (shownRun memory s.files h.1).failure = some throttledFailure :=
    h.2.2.1
  have hshown := @summary_retryAt _ _ _ _ _ hshow.files hfailure rfl (by decide) hevent hat [] 0 _
    rfl
  rw [hheld.shown [] 0 _ rfl, hlatest, Option.map_some, Option.getD_some, hord,
    delay_of_backoff hfailure rfl] at hshown
  have hint := Option.some.inj hshown
  norm_num [throttledFailure] at hint

end RunLife

end PiSubagent
