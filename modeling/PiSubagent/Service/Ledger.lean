import PiSubagent.Service.Abandonment
import PiSubagent.Service.StartFailure

/-!
# The books of a run

* `Spent`, `attemptSpent`: what an attempt has used, by the journal.
* `Charged`, `BudgetKept`: limits that are what earlier attempts left of the root plan's.
* `RunFiles.settledUp`, `RunFiles.Recovers`: when start-up finds what the latest attempt has used.
* `RunState.Ledger`: every attempt is charged with what it used, in the files and in every seat's
  memory.
* `Ledger.report`, `Ledger.snapshot`, `Ledger.terminal`, `Ledger.begin`, `Ledger.close`,
  `Ledger.createAttempt`, `Ledger.rememberResult`, `Ledger.execute`: which writes keep it.
* **`Charged.next`**: a derived plan has what the attempt before it left.
-/

namespace PiSubagent

open JsonText

namespace RunLife

open Cuts
open RunState (setSeat perform kill)

/-! ## What an attempt has used -/

/-- What an attempt uses of the limits. -/
structure Spent where
  runtimeMs : ℕ
  totalTokens : ℕ
  cost : ℚ
deriving DecidableEq, Repr

/-- A reported usage and runtime. -/
def Spent.of (usage : Usage) (runtimeMs : ℕ) : Spent :=
  ⟨runtimeMs, usage.totalTokens, decimalValue usage.cost⟩

/-- What a result reports. -/
def resultSpent (r : RunResult) : Spent := Spent.of r.usage r.runtimeMs

/-- The attempt an event starts. -/
def RunEvent.start? : RunEvent → Option JsString
  | .attemptStarting id => some id
  | _ => none

/-- The result an attempt ends with. -/
def RunEvent.terminal? : RunEvent → Option RunResult
  | .attemptCompleted execution | .attemptFailed execution => some execution.result
  | _ => none

/-- The last result of an attempt, in a journal with its newest event first. -/
def resultIn (id : JsString) : List RunEvent → Option RunResult
  | [] => none
  | e :: older =>
    match e.terminal? with
    | some r => if older.findSome? RunEvent.start? = some id then some r else resultIn id older
    | none => resultIn id older

/-- The result an attempt has ended with: that of its last `attempt-completed` or `attempt-failed`,
which are of the attempt that was started last. -/
def attemptResult (id : JsString) (events : List RunEvent) : Option RunResult :=
  resultIn id events.reverse

/-- The usage of a checkpoint, as far as its checks accept it. -/
def checkpointSpent : Option (Usage × ℕ) → Spent
  | some (usage, runtimeMs) =>
    Spent.of (if usage.cost.neg then emptyUsage else usage)
      (if runtimeMs ≤ maxSafeInteger then runtimeMs else 0)
  | none => Spent.of emptyUsage 0

/-- **What an attempt has used, by the journal**: what its result reports, or its last checkpoint
when it has none. -/
def attemptSpent (id : JsString) (events : List RunEvent) : Spent :=
  match attemptResult id events with
  | some r => resultSpent r
  | none => checkpointSpent (lastOf (RunEvent.checkpoint? id) events)

/-! ## Limits -/

/-- The limits are what attempts have left of others. -/
structure Charged (root left : Limits) (spent : List Spent) (retries resumes : ℕ) : Prop where
  runtime : left.cumulativeRuntimeMs + (spent.map Spent.runtimeMs).sum = root.cumulativeRuntimeMs
  tokens : left.totalTokens.map (· + (spent.map Spent.totalTokens).sum) = root.totalTokens
  cost : left.cost = root.cost - (spent.map Spent.cost).sum
  retries : left.retries + retries = root.retries
  resumes : left.resumes + resumes = root.resumes

/-- `RunLimitsSchema`. -/
def Limits.check (l : Limits) : Bool :=
  decide (1000 ≤ l.cumulativeRuntimeMs ∧ l.cumulativeRuntimeMs ≤ 3600000) &&
    decide (1000 ≤ l.attemptTimeoutMs ∧ l.attemptTimeoutMs ≤ 3600000) &&
    l.totalTokens.all (fun n => decide (1 ≤ n ∧ n ≤ 10000000)) &&
    decide (0 ≤ l.cost ∧ l.cost ≤ maxSafeInteger) &&
    decide (l.retries ≤ 10) && decide (l.resumes ≤ 10)

/-- The limits and the attempt of a plan are as its schema wants them. -/
def Plan.Valid (plan : Plan) : Prop := plan.limits.check = true ∧ isAttemptId plan.attemptId = true

/-- The number of attempts of a kind. -/
def countKind (kind : AttemptKind) (attempts : List AttemptRecord) : ℕ :=
  attempts.countP fun a => decide (a.kind = kind)

/-- The limits of the latest attempt are what the earlier ones left. -/
def BudgetKept (root : Plan) (f : RunFiles) : Prop :=
  ∀ earlier latest, f.attempts = earlier ++ [latest] →
    Charged root.limits latest.plan.limits
      (earlier.map fun a => attemptSpent a.attemptId f.events)
      (countKind .retry f.attempts) (countKind .resume f.attempts)

/-! ## What the files say of the usage -/

/-- The journal has no result of an attempt that is newer than the snapshot, and the start of the
latest attempt if it is not the first. -/
def RunFiles.settledUp (f : RunFiles) : Bool :=
  (lastSequence (fun e => e.terminal?.isSome) f.events).all
      (fun n => decide (n ≤ (f.snapshot.map Snapshot.lastSequence).getD 0)) &&
    (f.latestStart.isSome || decide (f.attempts.length ≤ 1))

/-- The abandonment of the run has been requested. -/
def RunFiles.abandoning (f : RunFiles) : Bool :=
  abandonmentPending f.events || hasAbandoned f.events

/-- The effect is a snapshot. -/
def Effect.isSnapshot : Effect → Bool
  | .writeSnapshot _ => true
  | _ => false

/-! ## Scans of the journal -/

theorem attemptResult_concat (id : JsString) (events : List RunEvent) (e : RunEvent) :
    attemptResult id (events ++ [e]) =
      match e.terminal? with
      | some r =>
        if lastOf RunEvent.start? events = some id then some r else attemptResult id events
      | none => attemptResult id events := by
  unfold attemptResult
  rw [List.reverse_append, List.reverse_singleton, List.singleton_append]
  rfl

theorem attemptResult_started {id : JsString} {events : List RunEvent}
    (h : attemptResult id events ≠ none) : ∃ e ∈ events, e.start? = some id := by
  induction events using List.reverseRecOn with
  | nil => exact absurd rfl h
  | append_singleton events e ih =>
    rw [attemptResult_concat] at h
    have hold : attemptResult id events ≠ none → ∃ e' ∈ events ++ [e], e'.start? = some id := by
      intro h'
      obtain ⟨e', hm, he'⟩ := ih h'
      exact ⟨e', List.mem_append_left _ hm, he'⟩
    cases ht : e.terminal? with
    | none =>
      rw [ht] at h
      exact hold h
    | some r =>
      rw [ht] at h
      dsimp only at h
      split_ifs at h with hs
      · unfold lastOf at hs
        obtain ⟨e', hm, he'⟩ := List.exists_of_findSome?_eq_some hs
        exact ⟨e', List.mem_append_left _ (List.mem_reverse.mp hm), he'⟩
      · exact hold h

/-- What an attempt has used changes with its result and its checkpoints alone. -/
theorem attemptSpent_same {id : JsString} (events : List RunEvent) {e : RunEvent}
    (ht : e.terminal? = none) (hc : e.checkpoint? id = none) :
    attemptSpent id (events ++ [e]) = attemptSpent id events := by
  unfold attemptSpent
  rw [attemptResult_concat, ht, lastOf_concat, hc]
  rfl

theorem attemptSpent_terminal (id : JsString) (events : List RunEvent) {e : RunEvent}
    {r : RunResult} (ht : e.terminal? = some r) :
    attemptSpent id (events ++ [e]) =
      if lastOf RunEvent.start? events = some id then resultSpent r
      else attemptSpent id events := by
  have hc : e.checkpoint? id = none := by
    cases e <;> first | rfl | cases ht
  unfold attemptSpent
  rw [attemptResult_concat, ht, lastOf_concat, hc]
  dsimp only
  split_ifs <;> rfl

theorem RunEvent.starts_iff (id : JsString) (e : RunEvent) :
    e.starts id = true ↔ e.start? = some id := by
  cases e <;> simp [RunEvent.starts, RunEvent.start?]

theorem lastSequence_ne_none {p : RunEvent → Bool} {events : List RunEvent}
    (h : lastSequence p events ≠ none) : ∃ e ∈ events, p e = true := by
  unfold lastSequence at h
  cases hf : events.reverse.findIdx? p with
  | none =>
    rw [hf] at h
    exact absurd rfl h
  | some i =>
    obtain ⟨hi, hp, -⟩ := List.findIdx?_eq_some_iff_getElem.mp hf
    exact ⟨_, List.mem_reverse.mp (List.getElem_mem hi), hp⟩

theorem lastSequence_le {p : RunEvent → Bool} {events : List RunEvent} {n : ℕ}
    (h : lastSequence p events = some n) : n ≤ events.length := by
  unfold lastSequence at h
  split at h
  · cases h
    omega
  · cases h

theorem abandoning_concat (f : RunFiles) (e : RunEvent) (h1 : e.isAbandoning = false)
    (h2 : e.abandoned? = none) :
    { f with events := f.events ++ [e] }.abandoning = f.abandoning := by
  unfold RunFiles.abandoning
  rw [abandonmentPending_concat, hasAbandoned_concat, h1, h2]
  simp

/-- An abandonment that has been requested stays so. -/
theorem abandoning_append {f : RunFiles} (e : RunEvent) (h : f.abandoning = true) :
    { f with events := f.events ++ [e] }.abandoning = true := by
  unfold RunFiles.abandoning at h ⊢
  rw [abandonmentPending_concat, hasAbandoned_concat]
  rcases Bool.or_eq_true_iff.mp h with hp | hh
  · cases ha : e.abandoned?.isSome with
    | true => simp
    | false => cases hr : e.isAbandoning <;> simp [hp]
  · simp [hh]

theorem lastOf_abandoned {events : List RunEvent} (h : hasAbandoned events = false) :
    lastOf RunEvent.abandoned? events = none := by
  unfold lastOf
  rw [List.findSome?_eq_none_iff]
  intro e he
  unfold hasAbandoned at h
  have hn := List.any_eq_false.mp h e (List.mem_reverse.mp he)
  simpa using hn

/-! ## What start-up makes of the usage -/

/-- Start-up takes the usage that the journal has of the latest attempt. -/
def RunFiles.Recovers (f : RunFiles) : Prop :=
  ∀ latest ∈ f.latest, resultSpent f.recovered.1 = attemptSpent latest.attemptId f.events

theorem recovered_open {f : RunFiles} (h : f.abandoning = false) :
    f.recovered.1 = f.priorResult.getD f.lostResult := by
  unfold RunFiles.abandoning at h
  rw [Bool.or_eq_false_iff] at h
  unfold RunFiles.recovered RunFiles.persistedResult
  rw [if_neg (by simp [h.1]), lastOf_abandoned h.2]
  dsimp only
  cases f.priorResult <;> rfl

theorem spent_lostResult (f : RunFiles) : resultSpent f.lostResult =
    checkpointSpent (lastOf (RunEvent.checkpoint? f.recoveredPlan.attemptId) f.events) := by
  show Spent.of f.checkpoint.1 f.checkpoint.2 = _
  unfold RunFiles.checkpoint
  cases lastOf (RunEvent.checkpoint? f.recoveredPlan.attemptId) f.events with
  | none => rfl
  | some c => rfl

theorem recovers_prior {f : RunFiles} (h : f.abandoning = false) {r : RunResult}
    (hp : f.priorResult = some r)
    (hs : ∀ latest ∈ f.latest, resultSpent r = attemptSpent latest.attemptId f.events) :
    f.Recovers := by
  intro latest hl
  rw [recovered_open h, hp]
  exact hs latest hl

theorem priorResult_none {f : RunFiles} (h : f.snapshot = none) : f.priorResult = none := by
  unfold RunFiles.priorResult
  rw [h]

/-- A snapshot that is older than the start of the latest attempt is not taken. -/
theorem priorResult_older {f : RunFiles} {start : ℕ} (hstart : f.latestStart = some start)
    (h : ∀ snapshot, f.snapshot = some snapshot → snapshot.lastSequence < start) :
    f.priorResult = none := by
  cases hsn : f.snapshot with
  | none => exact priorResult_none hsn
  | some snapshot =>
    unfold RunFiles.priorResult RunFiles.snapshotCoversLatestAttempt
    rw [hstart, hsn]
    simp [h snapshot hsn]

theorem recovers_lost {f : RunFiles} (h : f.abandoning = false) (hp : f.priorResult = none)
    (hr : ∀ latest ∈ f.latest, f.recoveredPlan.attemptId = latest.attemptId ∧
      attemptResult latest.attemptId f.events = none) : f.Recovers := by
  intro latest hl
  obtain ⟨hid, hres⟩ := hr latest hl
  unfold attemptSpent
  rw [recovered_open h, hp, hres, ← hid]
  exact spent_lostResult f

/-- A valid snapshot that has just been written covers the latest attempt. -/
theorem priorResult_written {f : RunFiles} {execution : AttemptExecutionResult}
    (h : isRunResult execution.result = true) :
    (f.perform (.writeSnapshot execution)).priorResult = some execution.result := by
  have hcovers : (f.perform (.writeSnapshot execution)).snapshotCoversLatestAttempt = true := by
    unfold RunFiles.snapshotCoversLatestAttempt
    rw [Option.all_eq_true_iff_get]
    intro hs
    rw [decide_eq_true_eq]
    exact lastSequence_le (Option.some_get hs).symm
  unfold RunFiles.priorResult
  show (if ((f.perform (.writeSnapshot execution)).snapshotCoversLatestAttempt &&
    isRunResult execution.result) = true then some execution.result else none) = _
  rw [hcovers, h]
  rfl

/-- An event that starts no attempt leaves the result of the snapshot as it is. -/
theorem priorResult_append (f : RunFiles) {e : RunEvent} (h : e.start? = none) :
    { f with events := f.events ++ [e] }.priorResult = f.priorResult := by
  have hstart : { f with events := f.events ++ [e] }.latestStart = f.latestStart := by
    rw [RunFiles.latestStart_eq, RunFiles.latestStart_eq, lastSequence_concat, if_neg]
    · rfl
    · rw [RunEvent.starts_iff, h]
      simp
  unfold RunFiles.priorResult RunFiles.snapshotCoversLatestAttempt
  rw [hstart]

theorem settledUp_append (f : RunFiles) {e : RunEvent} (ht : e.terminal? = none)
    (hs : e.start? = none) : { f with events := f.events ++ [e] }.settledUp = f.settledUp := by
  have hstart : { f with events := f.events ++ [e] }.latestStart = f.latestStart := by
    rw [RunFiles.latestStart_eq, RunFiles.latestStart_eq, lastSequence_concat, if_neg]
    · rfl
    · rw [RunEvent.starts_iff, hs]
      simp
  unfold RunFiles.settledUp
  rw [hstart, lastSequence_concat, ht]
  rfl

/-! ## The books of a run -/

/-- What the journal and the snapshot say of an attempt in flight. -/
def Flight.Phase (f : RunFiles) (id : JsString) : Flight → Prop
  | .running false =>
    (∀ e ∈ f.events, e.start? ≠ some id) ∨
      lastOf RunEvent.start? f.events = some id ∧ attemptResult id f.events = none ∧
        f.priorResult = none
  | .running true =>
    lastOf RunEvent.start? f.events = some id ∧
      -- Nothing of its end is durable, its end is in the journal alone, or in the snapshot as well.
      (attemptResult id f.events = none ∧ f.priorResult = none ∨ f.settledUp = false ∨
        ∃ r p, attemptResult id f.events = some r ∧ f.priorResult = some p ∧
          resultSpent p = resultSpent r)
  | .ended execution =>
    f.events ≠ [] ∧ attemptSpent id f.events = resultSpent execution.result ∧ f.Recovers
  | _ => True

/-- Every attempt is charged with what it used, in the files and in every seat's memory. -/
structure RunState.Ledger (root : Plan) (s : RunState) : Prop where
  disciplined : s.Disciplined
  checked : s.Checked
  plan : s.files.plan = root
  ids : ∀ a ∈ s.files.attempts, a.plan.attemptId = a.attemptId
  nodup : (s.files.attempts.map AttemptRecord.attemptId).Nodup
  ordinals : ∀ latest ∈ s.files.latest, ∀ a ∈ s.files.attempts, a.ordinal ≤ latest.ordinal
  first : ∀ a ∈ s.files.attempts.head?, a.plan = root
  valid : ∀ a ∈ s.files.attempts, a.plan.Valid
  starts : ∀ e ∈ s.files.events, ∀ id ∈ e.start?, ∃ a ∈ s.files.attempts, a.attemptId = id
  sequence : ∀ snapshot ∈ s.files.snapshot, snapshot.lastSequence ≤ s.files.events.length
  empty : s.files.events = [] → s.files.snapshot = none ∧ s.files.attempts.length ≤ 1 ∧
    ∀ n, ∀ run ∈ s.seats n, run.result = none
  kept : BudgetKept root s.files
  known : ∀ n, ∀ run ∈ s.seats n, run.plan = root ∨ ∃ a ∈ s.files.attempts, a.plan = run.plan
  flight : ∀ n, ∀ run ∈ s.seats n, run.result = none → s.lease = some n ∧
    s.files.abandoning = false ∧ ∃ latest, s.files.latest = some latest ∧
      run.plan = latest.plan ∧ run.flight.Phase s.files latest.attemptId
  alone : ∀ n, ∀ run ∈ s.seats n, run.result = none → ∀ m, ∀ run' ∈ s.seats m,
    run'.result ≠ none → run'.plan.attemptId ≠ run.plan.attemptId
  knows : s.files.abandoning = false → ∀ n, ∀ run ∈ s.seats n, ∀ r ∈ run.result,
    ∀ latest ∈ s.files.latest, run.plan.attemptId = latest.attemptId →
      resultSpent r.result = attemptSpent latest.attemptId s.files.events
  recovers : s.files.abandoning = false → s.files.settledUp = true → s.files.Recovers

/-- Start-up finds what the latest attempt has used, or its seat is still there. -/
def RunState.Recoverable (s : RunState) : Prop :=
  s.files.abandoning = false → s.files.Recovers ∨
    ∃ n run, s.lease = some n ∧ s.seats n = some run ∧ run.result = none

variable {D : Planner} {root : Plan} {s t : RunState}

theorem RunState.Ledger.latest_id (h : s.Ledger root) {latest : AttemptRecord}
    (hl : s.files.latest = some latest) : s.files.recoveredPlan.attemptId = latest.attemptId := by
  unfold RunFiles.recoveredPlan
  rw [hl]
  exact h.ids latest (List.mem_of_getLast? hl)

theorem RunState.Ledger.plan_eq (h : s.Ledger root) {n : ℕ} {run : ActiveRun}
    (hr : s.seats n = some run) {latest : AttemptRecord} (hl : s.files.latest = some latest)
    (hid : run.plan.attemptId = latest.attemptId) : run.plan = latest.plan := by
  have hmem : ∃ a ∈ s.files.attempts, a.plan = run.plan := by
    rcases h.known n run hr with hroot | ha
    · cases hh : s.files.attempts with
      | nil =>
        unfold RunFiles.latest at hl
        rw [hh] at hl
        cases hl
      | cons a as =>
        refine ⟨a, List.mem_cons_self, ?_⟩
        rw [hroot]
        exact h.first a (by rw [hh]; rfl)
    · exact ha
  obtain ⟨a, ha, hplan⟩ := hmem
  have hsame : a.attemptId = latest.attemptId := by
    rw [← h.ids a ha, hplan, hid]
  have haeq : a = latest :=
    List.inj_on_of_nodup_map h.nodup ha (List.mem_of_getLast? hl) hsame
  rw [← haeq, hplan]

theorem RunState.Ledger.idle (h : s.Ledger root) (hl : s.lease = none) {n : ℕ} {run : ActiveRun}
    (hr : s.seats n = some run) : run.result ≠ none := by
  intro hn
  have hlease := (h.flight n run hr hn).1
  rw [hl] at hlease
  cases hlease

/-- A seat that has the lease is the only one whose attempt may be unsettled. -/
theorem RunState.Ledger.only (h : s.Ledger root) {seat : ℕ} (hl : s.canHold seat = true) {n : ℕ}
    {run : ActiveRun} (hr : s.seats n = some run) (hn : run.result = none) : n = seat := by
  have hlease := (h.flight n run hr hn).1
  unfold RunState.canHold at hl
  rw [decide_eq_true_eq, hlease] at hl
  rcases hl with hl | hl
  · cases hl
  · exact Option.some.inj hl

theorem RunState.Recoverable.recovers (hc : s.Recoverable) (hl : s.lease = none)
    (ho : s.files.abandoning = false) : s.files.Recovers := by
  rcases hc ho with hr | ⟨n, run, hlease, -⟩
  · exact hr
  · rw [hl] at hlease
    cases hlease

/-! ## Writes to the files -/

section Files

variable {seat : ℕ}

theorem RunState.Ledger.other (h : s.Ledger root) {e : Effect} (he : e.onFiles = true)
    (hs : e.isSnapshot = false) (hr : e.record? = none) (hv : e.event? = none) :
    (s.perform seat e).Ledger root := by
  have hd : (s.perform seat e).Disciplined := Disciplined.onFiles h.disciplined he
  cases e with
  | createRunRecord | reserveWorktree _ | reserveSnapshot _ | removeSnapshot _ | removeSnapshots =>
    exact ⟨hd, ⟨h.checked.events, h.checked.snapshot, h.checked.seats⟩, h.plan, h.ids, h.nodup,
      h.ordinals, h.first, h.valid, h.starts, h.sequence, h.empty, h.kept, h.known, h.flight, h.alone,
      h.knows, h.recovers⟩
  | append _ => cases hv
  | writeSnapshot _ => cases hs
  | createAttempt _ => cases hr
  | remember _ | execute _ | settleLease => cases he

theorem Flight.Phase.append {f : RunFiles} {id : JsString} {flight : Flight} {e : RunEvent}
    (h : flight.Phase f id) (hin : ∀ x, flight ≠ .ended x) (ht : e.terminal? = none)
    (hs : e.start? = none) : flight.Phase { f with events := f.events ++ [e] } id := by
  have hresult : attemptResult id (f.events ++ [e]) = attemptResult id f.events := by
    rw [attemptResult_concat, ht]
  have hstart : lastOf RunEvent.start? (f.events ++ [e]) = lastOf RunEvent.start? f.events :=
    lastOf_quiet f.events hs
  unfold Flight.Phase at h ⊢
  split
  case h_1 =>
    refine h.imp (fun hnever e' he' => ?_) fun hstarted => ?_
    · rcases List.mem_append.mp he' with hm | hm
      · exact hnever e' hm
      · rw [List.mem_singleton.mp hm, hs]
        simp
    · simp only [hresult, hstart, priorResult_append f hs]
      exact hstarted
  case h_2 =>
    simp only [hresult, hstart, settledUp_append f ht hs, priorResult_append f hs]
    exact h
  case h_3 x => exact absurd rfl (hin x)
  case h_4 => trivial

/-- An event an attempt in flight reports, or that says nothing of it. -/
def Reported (s : RunState) (e : RunEvent) : Prop :=
  e.isQuiet = true ∨ ∃ n run usage runtimeMs, s.seats n = some run ∧ run.result = none ∧
    run.flight = .running true ∧ e = .usageCheckpoint run.plan.attemptId usage runtimeMs

theorem Reported.cases {e : RunEvent} (h : Reported s e) : e.terminal? = none ∧ e.start? = none ∧
    e.isAbandoning = false ∧ e.abandoned? = none ∧ e.result? = none := by
  rcases h with h | ⟨n, run, usage, runtimeMs, -, -, -, rfl⟩
  · cases e <;> first | exact ⟨rfl, rfl, rfl, rfl, rfl⟩ | cases h
  · exact ⟨rfl, rfl, rfl, rfl, rfl⟩

/-- Events that an attempt reports, or that say nothing of it, keep the books. -/
theorem RunState.Ledger.report (h : s.Ledger root) {e : RunEvent} (he : Reported s e)
    (hended : ∀ n, ∀ run ∈ s.seats n, ∀ x, run.flight = .ended x → run.result ≠ none) :
    (s.perform seat (.append e)).Ledger root := by
  obtain ⟨ht, hs, ha, hab, hres⟩ := he.cases
  -- A checkpoint is of the latest attempt, which no other seat remembers with a result.
  have hcheck : ∀ id, e.checkpoint? id ≠ none → ∃ n run, s.seats n = some run ∧
      run.result = none ∧ run.flight = .running true ∧ run.plan.attemptId = id := by
    intro id hc
    rcases he with hq | ⟨n, run, usage, runtimeMs, hr, hn, hf, rfl⟩
    · cases e <;> first | exact absurd rfl hc | cases hq
    · refine ⟨n, run, hr, hn, hf, ?_⟩
      by_contra hid
      exact hc (by simp [RunEvent.checkpoint?, hid])
  have hlatestOf : ∀ n run latest, s.seats n = some run → run.result = none →
      s.files.latest = some latest → run.plan.attemptId = latest.attemptId := by
    intro n run latest hr hn hl
    obtain ⟨-, -, latest', hl', hplan, -⟩ := h.flight n run hr hn
    rw [hl] at hl'
    cases hl'
    rw [hplan, h.ids latest (List.mem_of_getLast? hl)]
  have hopen : (s.perform seat (.append e)).files.abandoning = s.files.abandoning :=
    abandoning_concat s.files e ha hab
  refine ⟨Disciplined.onFiles h.disciplined rfl,
    results_perform (e := .append e) h.checked (by simp [Effect.Results, hres]), h.plan, h.ids,
    h.nodup, h.ordinals, h.first, h.valid, ?_, ?_, ?_, ?_, h.known, ?_, h.alone, ?_, ?_⟩
  · intro e' he' id hid
    rcases List.mem_append.mp he' with hm | hm
    · exact h.starts e' hm id hid
    · rw [List.mem_singleton.mp hm, hs] at hid
      cases hid
  · intro snapshot hsn
    have hle := h.sequence snapshot hsn
    show snapshot.lastSequence ≤ (s.files.events ++ [e]).length
    rw [List.length_append]
    omega
  · intro hnil
    exact absurd hnil (by simp [perform, RunFiles.perform])
  · intro earlier latest hatt
    have hkept := h.kept earlier latest hatt
    have hsame : (earlier.map fun a => attemptSpent a.attemptId (s.files.events ++ [e])) =
        earlier.map fun a => attemptSpent a.attemptId s.files.events := by
      refine List.map_congr_left fun a hm => attemptSpent_same _ ht ?_
      by_contra hc
      obtain ⟨n, run, hr, hn, -, hid⟩ := hcheck a.attemptId hc
      have hl : s.files.latest = some latest := by
        have hatt' : s.files.attempts = earlier ++ [latest] := hatt
        unfold RunFiles.latest
        rw [hatt', List.getLast?_concat]
      have hnd := h.nodup
      have hatt' : s.files.attempts = earlier ++ [latest] := hatt
      rw [hatt', List.map_append, List.nodup_append] at hnd
      refine hnd.2.2 a.attemptId (List.mem_map_of_mem hm) latest.attemptId (by simp) ?_
      rw [← hid, hlatestOf n run latest hr hn hl]
    show Charged _ _ (earlier.map fun a => attemptSpent a.attemptId (s.files.events ++ [e])) _ _
    rw [hsame]
    exact hkept
  · intro n run hr hn
    obtain ⟨hlease, hop, latest, hl, hplan, hph⟩ := h.flight n run hr hn
    refine ⟨hlease, hopen.trans hop, latest, hl, hplan, ?_⟩
    exact hph.append (fun x hx => hended n run hr x hx hn) ht hs
  · intro hop n run hr r hrr latest hl hid
    rw [hopen] at hop
    have hk := h.knows hop n run hr r hrr latest hl hid
    show resultSpent r.result = attemptSpent latest.attemptId (s.files.events ++ [e])
    rw [attemptSpent_same s.files.events ht, hk]
    by_contra hc
    obtain ⟨m, run', hr', hn', -, hid'⟩ := hcheck latest.attemptId hc
    have hres' : run.result ≠ none := by
      rw [Option.mem_def.mp hrr]
      simp
    exact h.alone m run' hr' hn' n run hr hres' (by rw [hid, hid'])
  · intro hop hset
    have hop' : s.files.abandoning = false := hopen.symm.trans hop
    have hset' : s.files.settledUp = true := (settledUp_append s.files ht hs).symm.trans hset
    rcases he with hq | ⟨n, run, usage, runtimeMs, hr, hn, hf, rfl⟩
    · intro latest hl
      have hrec := h.recovers hop' hset' latest hl
      have hc : e.checkpoint? latest.attemptId = none := by
        cases e <;> first | rfl | cases hq
      show resultSpent { s.files with events := s.files.events ++ [e] }.recovered.1 =
        attemptSpent latest.attemptId (s.files.events ++ [e])
      rw [s.files.recovered_quiet s.files.events hq, attemptSpent_same _ ht hc]
      exact hrec
    · obtain ⟨-, -, latest, hl, hplan, hph⟩ := h.flight n run hr hn
      have hid : s.files.recoveredPlan.attemptId = latest.attemptId := h.latest_id hl
      rw [hf] at hph
      have hph' := hph.append (e := .usageCheckpoint run.plan.attemptId usage runtimeMs)
        (by simp) ht hs
      obtain ⟨-, ⟨hr0, hp0⟩ | hb | ⟨r, p, hr1, hp1, hrp⟩⟩ := hph'
      · refine recovers_lost hop hp0 fun latest' hl' => ?_
        have hl'' : s.files.latest = some latest' := hl'
        rw [hl] at hl''
        cases hl''
        exact ⟨hid, hr0⟩
      · exact absurd (hset.symm.trans hb) (by simp)
      · refine recovers_prior hop hp1 fun latest' hl' => ?_
        have hl'' : s.files.latest = some latest' := hl'
        rw [hl] at hl''
        cases hl''
        have hspent : attemptSpent latest.attemptId
            (s.files.events ++ [.usageCheckpoint run.plan.attemptId usage runtimeMs]) =
              resultSpent r := by
          unfold attemptSpent
          rw [hr1]
        rw [hrp, ← hspent]
        rfl

/-- A snapshot of what the latest attempt has used keeps the books. -/
theorem RunState.Ledger.snapshot (h : s.Ledger root) (seat : ℕ)
    {execution : AttemptExecutionResult}
    (hcheck : execution.result.check = true) (hne : s.files.events ≠ [])
    (hv : s.files.abandoning = false → isRunResult execution.result = true ∧
      ∀ latest ∈ s.files.latest,
        resultSpent execution.result = attemptSpent latest.attemptId s.files.events)
    (hphase : ∀ n, ∀ run ∈ s.seats n, run.result = none → ∀ latest ∈ s.files.latest,
      run.flight.Phase s.files latest.attemptId →
        run.flight.Phase (s.files.perform (.writeSnapshot execution)) latest.attemptId) :
    (s.perform seat (.writeSnapshot execution)).Ledger root ∧
      (s.files.abandoning = false →
        (s.perform seat (.writeSnapshot execution)).files.Recovers) := by
  have hrec : s.files.abandoning = false →
      (s.perform seat (.writeSnapshot execution)).files.Recovers := by
    intro ho
    obtain ⟨hvalid, hspent⟩ := hv ho
    exact recovers_prior ho (priorResult_written hvalid) hspent
  refine ⟨⟨Disciplined.onFiles h.disciplined rfl,
    results_perform (e := .writeSnapshot execution) h.checked hcheck, h.plan, h.ids, h.nodup,
    h.ordinals, h.first, h.valid, h.starts, ?_, fun hnil => absurd hnil hne, h.kept, h.known, ?_, h.alone,
    h.knows, fun ho _ => hrec ho⟩, hrec⟩
  · rintro snapshot ⟨⟩
    exact le_refl _
  · intro n run hr hn
    obtain ⟨hlease, hop, latest, hl, hplan, hph⟩ := h.flight n run hr hn
    exact ⟨hlease, hop, latest, hl, hplan, hphase n run hr hn latest hl hph⟩

theorem RunState.Ledger.latest_of (h : s.Ledger root) {n : ℕ} {run : ActiveRun}
    (hr : s.seats n = some run) (hn : run.result = none) {latest : AttemptRecord}
    (hl : s.files.latest = some latest) : run.plan.attemptId = latest.attemptId := by
  obtain ⟨-, -, latest', hl', hplan, -⟩ := h.flight n run hr hn
  rw [hl] at hl'
  cases hl'
  rw [hplan, h.ids latest (List.mem_of_getLast? hl)]

theorem RunState.Ledger.earlier_ne (h : s.Ledger root) {earlier : List AttemptRecord}
    {latest a : AttemptRecord} (hatt : s.files.attempts = earlier ++ [latest]) (ha : a ∈ earlier) :
    a.attemptId ≠ latest.attemptId := by
  have hnd := h.nodup
  rw [hatt, List.map_append, List.nodup_append] at hnd
  exact hnd.2.2 a.attemptId (List.mem_map_of_mem ha) latest.attemptId (by simp)

theorem latest_of_append {f : RunFiles} {earlier : List AttemptRecord} {latest : AttemptRecord}
    (hatt : f.attempts = earlier ++ [latest]) : f.latest = some latest := by
  unfold RunFiles.latest
  rw [hatt, List.getLast?_concat]

/-- Seats that remember a result do not know of an attempt that is not settled. -/
theorem RunState.Ledger.not_latest (h : s.Ledger root) {n m : ℕ} {run run' : ActiveRun}
    (hr : s.seats n = some run) (hn : run.result = none) (hr' : s.seats m = some run')
    {r : AttemptExecutionResult} (hres : run'.result = some r) {latest : AttemptRecord}
    (hl : s.files.latest = some latest) : run'.plan.attemptId ≠ latest.attemptId := by
  rw [← h.latest_of hr hn hl]
  exact h.alone n run hr hn m run' hr' (by rw [hres]; simp)

/-- The end of an attempt is in the journal before it is in the snapshot. -/
theorem RunState.Ledger.terminal (h : s.Ledger root) {run : ActiveRun}
    (hr : s.seats seat = some run) (hn : run.result = none) (hf : run.flight = .running true)
    {e : RunEvent} {r : RunResult} (he : e.terminal? = some r) (hcheck : r.check = true) :
    (s.perform seat (.append e)).Ledger root ∧
      attemptSpent run.plan.attemptId (s.perform seat (.append e)).files.events = resultSpent r ∧
        attemptResult run.plan.attemptId (s.perform seat (.append e)).files.events = some r := by
  obtain ⟨hlease, hop, latest, hl, hplan, hph⟩ := h.flight seat run hr hn
  have hid := h.latest_of hr hn hl
  have hlast : lastOf RunEvent.start? s.files.events = some latest.attemptId := by
    rw [hf] at hph
    exact hph.1
  have hs : e.start? = none := by
    cases e <;> first | rfl | cases he
  have hopen : (s.perform seat (.append e)).files.abandoning = s.files.abandoning := by
    refine abandoning_concat s.files e ?_ ?_
    · cases e <;> first | rfl | cases he
    · cases e <;> first | rfl | cases he
  have hresult : e.result? = some r := by
    cases e <;> first | exact he | cases he
  have hunsettled : (s.perform seat (.append e)).files.settledUp = false := by
    unfold RunFiles.settledUp
    show ((lastSequence (fun e => e.terminal?.isSome) (s.files.events ++ [e])).all _ && _) = false
    rw [lastSequence_concat, he]
    simp only [Option.isSome_some, if_true, Option.all_some, Bool.and_eq_false_iff,
      decide_eq_false_iff_not]
    left
    cases hsn : s.files.snapshot with
    | none => simp [perform, RunFiles.perform, hsn]
    | some snapshot =>
      have hle := h.sequence snapshot hsn
      simp only [perform, RunFiles.perform, hsn, Option.map_some, Option.getD_some]
      omega
  have hspent : attemptSpent run.plan.attemptId (s.files.events ++ [e]) = resultSpent r := by
    rw [attemptSpent_terminal _ _ he, hid, if_pos hlast]
  refine ⟨⟨Disciplined.onFiles h.disciplined rfl,
    results_perform (e := .append e) h.checked (by simpa [Effect.Results, hresult] using hcheck),
    h.plan, h.ids, h.nodup, h.ordinals, h.first, h.valid, ?_, ?_, ?_, ?_, h.known, ?_, h.alone, ?_, ?_⟩,
    hspent, ?_⟩
  · intro e' he' id hid
    rcases List.mem_append.mp he' with hm | hm
    · exact h.starts e' hm id hid
    · rw [List.mem_singleton.mp hm, hs] at hid
      cases hid
  · intro snapshot hsn
    have hle := h.sequence snapshot hsn
    show snapshot.lastSequence ≤ (s.files.events ++ [e]).length
    rw [List.length_append]
    omega
  · intro hnil
    exact absurd hnil (by simp [perform, RunFiles.perform])
  · intro earlier latest' hatt
    have hatt' : s.files.attempts = earlier ++ [latest'] := hatt
    have hsame : (earlier.map fun a => attemptSpent a.attemptId (s.files.events ++ [e])) =
        earlier.map fun a => attemptSpent a.attemptId s.files.events := by
      refine List.map_congr_left fun a hm => ?_
      rw [attemptSpent_terminal _ _ he, if_neg]
      rw [hlast]
      have hl' := latest_of_append hatt'
      rw [hl] at hl'
      cases hl'
      exact fun hc => h.earlier_ne hatt' hm (Option.some.inj hc).symm
    show Charged _ _ (earlier.map fun a => attemptSpent a.attemptId (s.files.events ++ [e])) _ _
    rw [hsame]
    exact h.kept earlier latest' hatt
  · intro n run' hr' hn'
    obtain ⟨hlease', hop', latest', hl', hplan', -⟩ := h.flight n run' hr' hn'
    have hseat : n = seat := by
      rw [hlease] at hlease'
      exact (Option.some.inj hlease').symm
    subst hseat
    have hrun : run = run' := Option.some.inj (hr.symm.trans hr')
    rw [hl] at hl'
    cases hl'
    refine ⟨hlease', hopen.trans hop', latest, hl, hplan', ?_⟩
    rw [← hrun, hf]
    exact ⟨(lastOf_quiet s.files.events hs).trans hlast, Or.inr (Or.inl hunsettled)⟩
  · intro _ n run' hr' r' hrr latest' hl' hid'
    exact absurd hid' (h.not_latest hr hn hr' hrr hl')
  · intro _ hset
    rw [hunsettled] at hset
    cases hset
  · show attemptResult run.plan.attemptId (s.files.events ++ [e]) = some r
    rw [attemptResult_concat, he]
    dsimp only
    rw [hid, if_pos hlast]

/-- A request for abandonment, or its completion, closes the books. -/
theorem RunState.Ledger.close (h : s.Ledger root) (seat : ℕ) (hidle : ∀ n, ∀ x ∈ s.seats n, x.result ≠ none)
    {e : RunEvent} (he : e.isAbandoning = true ∨ ∃ r, e = .runAbandoned r ∧ r.check = true) :
    (s.perform seat (.append e)).Ledger root ∧
      (s.perform seat (.append e)).files.abandoning = true := by
  have hclosed : (s.perform seat (.append e)).files.abandoning = true := by
    unfold RunFiles.abandoning
    show (abandonmentPending (s.files.events ++ [e]) || hasAbandoned (s.files.events ++ [e])) = true
    rw [abandonmentPending_concat, hasAbandoned_concat]
    rcases he with he | ⟨r, rfl, -⟩
    · rw [if_pos he, Bool.true_or]
    · simp [RunEvent.abandoned?]
  have hquiet : e.terminal? = none ∧ e.start? = none ∧ ∀ id, e.checkpoint? id = none := by
    rcases he with he | ⟨r, rfl, -⟩
    · cases e <;> first | exact ⟨rfl, rfl, fun _ => rfl⟩ | cases he
    · exact ⟨rfl, rfl, fun _ => rfl⟩
  have hres : ∀ r ∈ e.result?, r.check = true := by
    intro r hr
    rcases he with he | ⟨r', rfl, hc⟩
    · obtain rfl : e = .runAbandoning := by
        cases e <;> first | rfl | cases he
      cases hr
    · cases hr
      exact hc
  refine ⟨⟨Disciplined.onFiles h.disciplined rfl, results_perform (e := .append e) h.checked hres,
    h.plan, h.ids, h.nodup, h.ordinals, h.first, h.valid, ?_, ?_, ?_, ?_, h.known,
    fun n x hx hn => absurd hn (hidle n x hx), h.alone, ?_, ?_⟩, hclosed⟩
  · intro e' he' id hid
    rcases List.mem_append.mp he' with hm | hm
    · exact h.starts e' hm id hid
    · rw [List.mem_singleton.mp hm, hquiet.2.1] at hid
      cases hid
  · intro snapshot hsn
    have hle := h.sequence snapshot hsn
    show snapshot.lastSequence ≤ (s.files.events ++ [e]).length
    rw [List.length_append]
    omega
  · intro hnil
    exact absurd hnil (by simp [perform, RunFiles.perform])
  · intro earlier latest hatt
    have hsame : (earlier.map fun a => attemptSpent a.attemptId (s.files.events ++ [e])) =
        earlier.map fun a => attemptSpent a.attemptId s.files.events :=
      List.map_congr_left fun a _ => attemptSpent_same _ hquiet.1 (hquiet.2.2 _)
    show Charged _ _ (earlier.map fun a => attemptSpent a.attemptId (s.files.events ++ [e])) _ _
    rw [hsame]
    exact h.kept earlier latest hatt
  · intro ho
    rw [hclosed] at ho
    cases ho
  · intro ho
    rw [hclosed] at ho
    cases ho

theorem RunState.Ledger.begin (h : s.Ledger root) {run : ActiveRun} (hr : s.seats seat = some run)
    (hn : run.result = none) (hf : run.flight = .running false) :
    (s.perform seat (.append (.attemptStarting run.plan.attemptId))).Ledger root ∧
      ∀ latest ∈ s.files.latest, Flight.Phase
        (s.perform seat (.append (.attemptStarting run.plan.attemptId))).files latest.attemptId
        (.running true) := by
  obtain ⟨hlease, hop, latest, hl, hplan, hph⟩ := h.flight seat run hr hn
  have hid := h.latest_of hr hn hl
  rw [hf] at hph
  have hopen : (s.perform seat (.append (.attemptStarting run.plan.attemptId))).files.abandoning =
      s.files.abandoning := abandoning_concat s.files _ rfl rfl
  have hresult : attemptResult latest.attemptId
      (s.perform seat (.append (.attemptStarting run.plan.attemptId))).files.events = none := by
    show attemptResult latest.attemptId (s.files.events ++ [_]) = none
    rw [attemptResult_concat]
    show attemptResult latest.attemptId s.files.events = none
    rcases hph with hnever | hstarted
    · by_contra hne
      obtain ⟨e, he, hs⟩ := attemptResult_started hne
      exact hnever e he hs
    · exact hstarted.2.1
  have hlast : lastOf RunEvent.start?
      (s.perform seat (.append (.attemptStarting run.plan.attemptId))).files.events =
        some latest.attemptId := by
    show lastOf RunEvent.start? (s.files.events ++ [_]) = _
    rw [lastOf_concat, hid]
    rfl
  -- The snapshot is older than the start.
  have hprior : (s.perform seat
      (.append (.attemptStarting run.plan.attemptId))).files.priorResult = none := by
    have hstart : (s.perform seat
        (.append (.attemptStarting run.plan.attemptId))).files.latestStart =
          some (s.files.events.length + 1) := by
      rw [RunFiles.latestStart_eq]
      show lastSequence (RunEvent.starts s.files.recoveredPlan.attemptId)
        (s.files.events ++ [_]) = _
      rw [lastSequence_concat, if_pos]
      rw [RunEvent.starts_iff, h.latest_id hl, hid]
      rfl
    refine priorResult_older hstart fun snapshot hsn => ?_
    have hle := h.sequence snapshot hsn
    omega
  refine ⟨⟨Disciplined.onFiles h.disciplined rfl,
    results_perform (e := .append (.attemptStarting run.plan.attemptId)) h.checked
      (by simp [Effect.Results, RunEvent.result?]),
    h.plan, h.ids, h.nodup, h.ordinals, h.first, h.valid, ?_, ?_, ?_, ?_, h.known, ?_, h.alone, ?_, ?_⟩, ?_⟩
  · intro e' he' id hid'
    rcases List.mem_append.mp he' with hm | hm
    · exact h.starts e' hm id hid'
    · rw [List.mem_singleton.mp hm] at hid'
      cases hid'
      exact ⟨latest, List.mem_of_getLast? hl, hid.symm⟩
  · intro snapshot hsn
    have hle := h.sequence snapshot hsn
    show snapshot.lastSequence ≤ (s.files.events ++ [_]).length
    rw [List.length_append]
    omega
  · intro hnil
    exact absurd hnil (by simp [perform, RunFiles.perform])
  · intro earlier latest' hatt
    have hsame : (earlier.map fun a => attemptSpent a.attemptId
        (s.files.events ++ [.attemptStarting run.plan.attemptId])) =
          earlier.map fun a => attemptSpent a.attemptId s.files.events :=
      List.map_congr_left fun a _ => attemptSpent_same _ rfl rfl
    show Charged _ _ (earlier.map fun a => attemptSpent a.attemptId
      (s.files.events ++ [.attemptStarting run.plan.attemptId])) _ _
    rw [hsame]
    exact h.kept earlier latest' hatt
  · intro n run' hr' hn'
    obtain ⟨hlease', hop', latest', hl', hplan', -⟩ := h.flight n run' hr' hn'
    have hseat : n = seat := by
      rw [hlease] at hlease'
      exact (Option.some.inj hlease').symm
    subst hseat
    have hrun : run = run' := Option.some.inj (hr.symm.trans hr')
    rw [hl] at hl'
    cases hl'
    refine ⟨hlease', hopen.trans hop', latest, hl, hplan', ?_⟩
    rw [← hrun, hf]
    exact Or.inr ⟨hlast, hresult, hprior⟩
  · intro ho n run' hr' r hrr latest' hl' hid'
    have hk := h.knows (hopen.symm.trans ho) n run' hr' r hrr latest' hl' hid'
    rw [hk]
    exact (attemptSpent_same s.files.events rfl rfl).symm
  · intro ho _
    refine recovers_lost ho hprior fun latest' hl' => ?_
    have hl'' : s.files.latest = some latest' := hl'
    rw [hl] at hl''
    cases hl''
    exact ⟨h.latest_id hl, hresult⟩
  · intro latest' hl'
    rw [hl] at hl'
    cases hl'
    exact ⟨hlast, Or.inl ⟨hresult, hprior⟩⟩

theorem RunState.Ledger.createAttempt (h : s.Ledger root)
    (hidle : ∀ n, ∀ x ∈ s.seats n, x.result ≠ none) {record : AttemptRecord}
    (hid : record.plan.attemptId = record.attemptId)
    (hnew : ∀ a ∈ s.files.attempts, a.attemptId ≠ record.attemptId)
    (hord : ∀ latest ∈ s.files.latest, record.ordinal = latest.ordinal + 1)
    (hfirst : s.files.attempts = [] ∧ s.files.events = [] ∧ record.plan = root ∨
      s.files.attempts ≠ [] ∧ s.files.events ≠ [])
    (hvalid : record.plan.Valid)
    (hkept : BudgetKept root (s.files.perform (.createAttempt record))) :
    (s.perform seat (.createAttempt record)).Ledger root := by
  have hlatest : (s.perform seat (.createAttempt record)).files.latest = some record := by
    show (s.files.attempts ++ [record]).getLast? = some record
    rw [List.getLast?_concat]
  -- The attempt was never started.
  have hnever : ∀ e ∈ s.files.events, e.start? ≠ some record.attemptId := by
    intro e he hs
    obtain ⟨a, ha, haid⟩ := h.starts e he record.attemptId hs
    exact hnew a ha haid
  refine ⟨Disciplined.onFiles h.disciplined rfl,
    results_perform (e := .createAttempt record) h.checked trivial, h.plan, ?_, ?_, ?_, ?_, ?_, ?_,
    h.sequence, ?_, hkept, ?_, fun n x hx hn => absurd hn (hidle n x hx), h.alone, ?_, ?_⟩
  · intro a ha
    rcases List.mem_append.mp ha with hm | hm
    · exact h.ids a hm
    · rw [List.mem_singleton.mp hm, hid]
  · show ((s.files.attempts ++ [record]).map AttemptRecord.attemptId).Nodup
    rw [List.map_append, List.nodup_append]
    refine ⟨h.nodup, List.nodup_singleton _, ?_⟩
    intro id hm id' hm' heq
    obtain ⟨a, ha, rfl⟩ := List.mem_map.mp hm
    rw [List.mem_singleton.mp hm'] at heq
    exact hnew a ha heq
  · intro latest hl a ha
    rw [hlatest] at hl
    cases hl
    rcases List.mem_append.mp ha with hm | hm
    · cases hold : s.files.latest with
      | none =>
        unfold RunFiles.latest at hold
        rw [List.getLast?_eq_none_iff.mp hold] at hm
        cases hm
      | some latest =>
        have hle := h.ordinals latest hold a hm
        have heq := hord latest hold
        omega
    · rw [List.mem_singleton.mp hm]
  · intro a ha
    have ha' : (s.files.attempts ++ [record]).head? = some a := ha
    rcases hfirst with ⟨hnil, -, hroot⟩ | ⟨hne, -⟩
    · rw [hnil] at ha'
      cases ha'
      exact hroot
    · obtain ⟨b, bs, hb⟩ := List.exists_cons_of_ne_nil hne
      refine h.first a ?_
      rw [hb] at ha' ⊢
      exact ha'
  · intro a ha
    rcases List.mem_append.mp ha with hm | hm
    · exact h.valid a hm
    · rw [List.mem_singleton.mp hm]
      exact hvalid
  · intro e he id hs
    obtain ⟨a, ha, haid⟩ := h.starts e he id hs
    exact ⟨a, List.mem_append_left _ ha, haid⟩
  · intro hnil
    obtain ⟨h1, -, h3⟩ := h.empty hnil
    refine ⟨h1, ?_, h3⟩
    rcases hfirst with ⟨ha, -⟩ | ⟨-, hne⟩
    · show (s.files.attempts ++ [record]).length ≤ 1
      rw [ha]
      exact le_refl 1
    · exact absurd hnil hne
  · intro n x hx
    exact (h.known n x hx).imp_right
      (Exists.imp fun a ha => ⟨List.mem_append_left _ ha.1, ha.2⟩)
  · intro _ n x hx r hxr latest hl hidx
    rw [hlatest] at hl
    cases hl
    exfalso
    rcases h.known n x hx with hroot | ⟨a, ha, hp⟩
    · rcases hfirst with ⟨-, hnil, -⟩ | ⟨hne, -⟩
      · exact hidle n x hx ((h.empty hnil).2.2 n x hx)
      · obtain ⟨b, bs, hb⟩ := List.exists_cons_of_ne_nil hne
        have hbm : b ∈ s.files.attempts := by
          rw [hb]
          exact List.mem_cons_self
        refine hnew b hbm ?_
        rw [← h.ids b hbm, h.first b (by rw [hb]; rfl), ← hroot, hidx]
    · refine hnew a ha ?_
      rw [← h.ids a ha, hp, hidx]
  · intro ho hset
    have hplan : (s.perform seat (.createAttempt record)).files.recoveredPlan = record.plan := by
      unfold RunFiles.recoveredPlan
      rw [hlatest]
      rfl
    have hstart : (s.perform seat (.createAttempt record)).files.latestStart = none := by
      by_contra hne
      rw [RunFiles.latestStart_eq] at hne
      obtain ⟨e, he, hs⟩ := lastSequence_ne_none hne
      rw [RunEvent.starts_iff, hplan, hid] at hs
      exact hnever e he hs
    unfold RunFiles.settledUp at hset
    rw [hstart] at hset
    have hfew := (Bool.and_eq_true_iff.mp hset).2
    rw [Option.isSome_none, Bool.false_or] at hfew
    have hlen : (s.files.attempts ++ [record]).length ≤ 1 := of_decide_eq_true hfew
    rcases hfirst with ⟨hnil, hev, -⟩ | ⟨hne, -⟩
    · have hsn := (h.empty hev).1
      refine recovers_lost ho ?_ fun latest hl => ⟨?_, ?_⟩
      · exact priorResult_none hsn
      · rw [hplan, hid]
        rw [hlatest] at hl
        cases hl
        rfl
      · by_contra hne
        obtain ⟨e, he, -⟩ := attemptResult_started hne
        have he' : e ∈ s.files.events := he
        rw [hev] at he'
        cases he'
    · rw [List.length_append, List.length_singleton] at hlen
      exact absurd (List.length_eq_zero_iff.mp (by omega)) hne

end Files

/-! ## Writes to memory -/

section Memory

variable {seat : ℕ} {run run' : ActiveRun}

theorem RunState.Ledger.rememberFlight (h : s.Ledger root) (hr : s.seats seat = some run)
    (hn : run.result = none) (hn' : run'.result = none) (hplan : run'.plan = run.plan)
    (hrests : run'.Rests) (hres : ∀ r ∈ run'.flight.result?, r.check = true)
    (hphase : ∀ latest ∈ s.files.latest, run.flight.Phase s.files latest.attemptId →
      run'.flight.Phase s.files latest.attemptId) :
    (s.perform seat (.remember run')).Ledger root := by
  have hlease := (h.flight seat run hr hn).1
  have hmem : ∀ n, ∀ x ∈ (s.perform seat (.remember run')).seats n,
      (n = seat ∧ x = run') ∨ (n ≠ seat ∧ s.seats n = some x) := by
    intro n x hx
    simp only [perform, setSeat] at hx
    split_ifs at hx with hs
    · cases hx
      exact Or.inl ⟨hs, rfl⟩
    · exact Or.inr ⟨hs, hx⟩
  refine ⟨Disciplined.remember h.disciplined hrests fun _ => hlease,
    results_perform (e := .remember run') h.checked ⟨by simp [hn'], hres⟩, h.plan, h.ids, h.nodup,
    h.ordinals, h.first, h.valid, h.starts, h.sequence, ?_, h.kept, ?_, ?_, ?_, ?_, h.recovers⟩
  · intro hnil
    obtain ⟨h1, h2, h3⟩ := h.empty hnil
    refine ⟨h1, h2, ?_⟩
    intro n x hx
    rcases hmem n x hx with ⟨-, rfl⟩ | ⟨-, hx⟩
    · exact hn'
    · exact h3 n x hx
  · intro n x hx
    rcases hmem n x hx with ⟨-, rfl⟩ | ⟨-, hx⟩
    · rw [hplan]
      exact h.known seat run hr
    · exact h.known n x hx
  · intro n x hx hxn
    rcases hmem n x hx with ⟨rfl, rfl⟩ | ⟨-, hx⟩
    · obtain ⟨hl, ho, latest, hlat, hp, hph⟩ := h.flight n run hr hn
      exact ⟨hl, ho, latest, hlat, hplan.trans hp, hphase latest hlat hph⟩
    · exact h.flight n x hx hxn
  · intro n x hx hxn m y hy hyn
    rcases hmem m y hy with ⟨rfl, rfl⟩ | ⟨-, hy'⟩
    · exact absurd hn' hyn
    · rcases hmem n x hx with ⟨-, rfl⟩ | ⟨-, hx'⟩
      · rw [hplan]
        exact h.alone seat run hr hn m y hy' hyn
      · exact h.alone n x hx' hxn m y hy' hyn
  · intro ho n x hx r hxr latest hl hid
    rcases hmem n x hx with ⟨-, rfl⟩ | ⟨-, hx⟩
    · rw [hn'] at hxr
      cases hxr
    · exact h.knows ho n x hx r hxr latest hl hid

theorem RunState.Ledger.rememberResult (h : s.Ledger root) {r : AttemptExecutionResult}
    (hres : run'.result = some r) (hflight : run'.flight = .settled) (hcheck : r.result.check = true)
    (hrests : run'.Rests) (hne : s.files.events ≠ [])
    (hknown : run'.plan = root ∨ ∃ a ∈ s.files.attempts, a.plan = run'.plan)
    (honly : ∀ n, ∀ x ∈ s.seats n, x.result = none → n = seat)
    (hknows : s.files.abandoning = false → ∀ latest ∈ s.files.latest,
      run'.plan.attemptId = latest.attemptId →
        resultSpent r.result = attemptSpent latest.attemptId s.files.events) :
    (s.perform seat (.remember run')).Ledger root := by
  have hmem : ∀ n, ∀ x ∈ (s.perform seat (.remember run')).seats n,
      x = run' ∨ (n ≠ seat ∧ s.seats n = some x) := by
    intro n x hx
    simp only [perform, setSeat] at hx
    split_ifs at hx with hs
    · cases hx
      exact Or.inl rfl
    · exact Or.inr ⟨hs, hx⟩
  -- No attempt is left unsettled.
  have hidle : ∀ n, ∀ x ∈ (s.perform seat (.remember run')).seats n, x.result ≠ none := by
    intro n x hx hn
    rcases hmem n x hx with rfl | ⟨hne, hx⟩
    · rw [hres] at hn
      cases hn
    · exact hne (honly n x hx hn)
  have hsettled : run'.flight.inFlight = false := by
    rw [hflight]
    rfl
  refine ⟨Disciplined.remember h.disciplined hrests fun hf => absurd (hsettled.symm.trans hf) (by simp),
    results_perform (e := .remember run') h.checked
      ⟨by rw [hres]; rintro x ⟨⟩; exact hcheck, by rw [hflight]; simp [Flight.result?]⟩,
    h.plan, h.ids, h.nodup, h.ordinals, h.first, h.valid, h.starts, h.sequence, fun hnil => absurd hnil hne,
    h.kept, ?_, ?_, ?_, ?_, h.recovers⟩
  · intro n x hx
    rcases hmem n x hx with rfl | ⟨-, hx⟩
    · exact hknown
    · exact h.known n x hx
  · exact fun n x hx hn => absurd hn (hidle n x hx)
  · exact fun n x hx hn => absurd hn (hidle n x hx)
  · intro ho n x hx r' hxr latest hl hid
    rcases hmem n x hx with rfl | ⟨-, hx⟩
    · rw [hres] at hxr
      cases hxr
      exact hknows ho latest hl hid
    · exact h.knows ho n x hx r' hxr latest hl hid

theorem RunState.Ledger.execute (h : s.Ledger root) {plan : Plan} {latest : AttemptRecord}
    (hl : s.lease = none ∨ s.lease = some seat) (hidle : ∀ n, ∀ x ∈ s.seats n, x.result ≠ none)
    (ho : s.files.abandoning = false) (hlatest : s.files.latest = some latest)
    (hplan : plan = latest.plan) (hnew : ∀ e ∈ s.files.events, e.start? ≠ some latest.attemptId)
    (hother : ∀ n, ∀ x ∈ s.seats n, x.plan.attemptId ≠ latest.attemptId) :
    (s.perform seat (.execute (.start plan))).Ledger root := by
  have hid : plan.attemptId = latest.attemptId := by
    rw [hplan, h.ids latest (List.mem_of_getLast? hlatest)]
  have hmem : ∀ n, ∀ x ∈ (s.perform seat (.execute (.start plan))).seats n,
      (n = seat ∧ x = .start plan) ∨ s.seats n = some x := by
    intro n x hx
    simp only [perform, setSeat] at hx
    split_ifs at hx with hs
    · cases hx
      exact Or.inl ⟨hs, rfl⟩
    · exact Or.inr hx
  refine ⟨Disciplined.execute h.disciplined (ActiveRun.rests_start plan) hl,
    results_perform (e := .execute (.start plan)) h.checked
      (ActiveRun.results_start (Q := fun r => r.check = true) plan), h.plan, h.ids, h.nodup,
    h.ordinals, h.first, h.valid, h.starts, h.sequence, ?_, h.kept, ?_, ?_, ?_, ?_, h.recovers⟩
  · intro hnil
    obtain ⟨h1, h2, h3⟩ := h.empty hnil
    refine ⟨h1, h2, ?_⟩
    intro n x hx
    rcases hmem n x hx with ⟨-, rfl⟩ | hx
    · rfl
    · exact h3 n x hx
  · intro n x hx
    rcases hmem n x hx with ⟨-, rfl⟩ | hx
    · exact Or.inr ⟨latest, List.mem_of_getLast? hlatest, hplan.symm⟩
    · exact h.known n x hx
  · intro n x hx hn
    rcases hmem n x hx with ⟨rfl, rfl⟩ | hx
    · exact ⟨rfl, ho, latest, hlatest, hplan, Or.inl hnew⟩
    · exact absurd hn (hidle n x hx)
  · intro n x hx hn m y hy hyn
    rcases hmem m y hy with ⟨rfl, rfl⟩ | hy
    · exact absurd rfl hyn
    · rcases hmem n x hx with ⟨-, rfl⟩ | hx
      · show y.plan.attemptId ≠ plan.attemptId
        rw [hid]
        exact hother m y hy
      · exact absurd hn (hidle n x hx)
  · intro ho' n x hx r hxr latest' hl' hid'
    rcases hmem n x hx with ⟨-, rfl⟩ | hx
    · cases hxr
    · exact h.knows ho' n x hx r hxr latest' hl' hid'

theorem RunState.Ledger.settleLease (h : s.Ledger root)
    (hseat : ∀ run ∈ s.seats seat, run.flight.inFlight = false ∧
      (run.result = none → run.status = .cleanupBlocked)) :
    (s.perform seat .settleLease).Ledger root := by
  have hd : (s.perform seat .settleLease).Disciplined :=
    Disciplined.settleLease h.disciplined fun run hr => (hseat run hr).1
  simp only [perform] at hd ⊢
  split_ifs at hd ⊢ with hc
  · refine ⟨hd, ⟨h.checked.events, h.checked.snapshot, h.checked.seats⟩, h.plan, h.ids, h.nodup,
      h.ordinals, h.first, h.valid, h.starts, h.sequence, h.empty, h.kept, h.known, ?_, h.alone, h.knows,
      h.recovers⟩
    intro n x hx hn
    exfalso
    have hlease := (h.flight n x hx hn).1
    rw [hc.1] at hlease
    cases hlease
    have hall := hc.2
    have hxs : s.seats seat = some x := hx
    rw [hxs] at hall
    simp [(hseat x hx).2 hn] at hall
  · exact h

theorem RunState.Ledger.kill (h : s.Ledger root) : (s.kill seat).Ledger root := by
  have hmem : ∀ n, ∀ x ∈ (s.kill seat).seats n, n ≠ seat ∧ s.seats n = some x := by
    intro n x hx
    simp only [RunState.kill, setSeat] at hx
    split_ifs at hx with hs
    · cases hx
    · exact ⟨hs, hx⟩
  refine ⟨Disciplined.kill h.disciplined, results_kill h.checked, h.plan, h.ids, h.nodup, h.ordinals,
    h.first, h.valid, h.starts, h.sequence, ?_, h.kept, fun n x hx => h.known n x (hmem n x hx).2, ?_,
    fun n x hx hn m y hy => h.alone n x (hmem n x hx).2 hn m y (hmem m y hy).2,
    fun ho n x hx => h.knows ho n x (hmem n x hx).2, h.recovers⟩
  · intro hnil
    obtain ⟨h1, h2, h3⟩ := h.empty hnil
    exact ⟨h1, h2, fun n x hx => h3 n x (hmem n x hx).2⟩
  · intro n x hx hn
    obtain ⟨hne, hx⟩ := hmem n x hx
    obtain ⟨hl, hrest⟩ := h.flight n x hx hn
    refine ⟨?_, hrest⟩
    simp only [RunState.kill]
    rw [hl, if_neg]
    exact fun hc => hne (Option.some.inj hc)

end Memory

/-! ## Charging an attempt -/

theorem Limits.after_cases {round : ℚ → ℚ} {l next : Limits} {r : RunResult}
    (h : l.after round r = some next) :
    r.runtimeMs ≤ l.cumulativeRuntimeMs ∧ next.cumulativeRuntimeMs = l.cumulativeRuntimeMs - r.runtimeMs ∧
      1000 ≤ next.cumulativeRuntimeMs ∧
      next.attemptTimeoutMs = min l.attemptTimeoutMs next.cumulativeRuntimeMs ∧
      next.totalTokens.map (· + r.usage.totalTokens) = l.totalTokens ∧
      (∀ n ∈ next.totalTokens, 1 ≤ n) ∧
      next.cost = round (l.cost - round (decimalValue r.usage.cost)) ∧
      0 < next.cost ∧ next.retries = l.retries ∧ next.resumes = l.resumes := by
  unfold Limits.after at h
  dsimp only at h
  split_ifs at h with hc
  cases h
  rw [not_or, not_or, not_lt, not_le, Option.any_eq_true] at hc
  obtain ⟨hms, htok, hcost⟩ := hc
  have htok' : ∀ n ∈ l.totalTokens.map (fun limit => limit - r.usage.totalTokens), 1 ≤ n := by
    intro n hn
    by_contra hlt
    exact htok ⟨n, hn, decide_eq_true (by omega)⟩
  refine ⟨by omega, rfl, hms, rfl, ?_, htok', rfl, hcost, rfl, rfl⟩
  show (l.totalTokens.map fun limit => limit - r.usage.totalTokens).map _ = _
  cases ht : l.totalTokens with
  | none => rfl
  | some limit =>
    have hle := htok' (limit - r.usage.totalTokens) (by rw [ht]; rfl)
    simp only [Option.map_some, Option.some.injEq]
    omega

/-- **A derived plan has what the attempt before it left.** -/
theorem Charged.next {root left next : Limits} {spent : List Spent} {retries resumes : ℕ}
    {r : RunResult} {a b : ℕ} (h : Charged root left spent retries resumes)
    {after : Limits} (hafter : left.after id r = some after)
    (hms : next.cumulativeRuntimeMs = after.cumulativeRuntimeMs)
    (htok : next.totalTokens = after.totalTokens) (hcost : next.cost = after.cost)
    (hretries : next.retries + a = left.retries) (hresumes : next.resumes + b = left.resumes) :
    Charged root next (spent ++ [resultSpent r]) (retries + a) (resumes + b) := by
  obtain ⟨hle, hms', -, -, htok', -, hcost', -⟩ := Limits.after_cases hafter
  refine ⟨?_, ?_, ?_, ?_, ?_⟩
  · have hr := h.runtime
    rw [List.map_append, List.sum_append, hms, hms']
    show _ - _ + (_ + (r.runtimeMs + 0)) = _
    omega
  · have ht := h.tokens
    rw [List.map_append, List.sum_append, htok, ← ht, ← htok']
    show _ = (after.totalTokens.map _).map _
    rw [Option.map_map]
    congr 1
    funext n
    show n + (_ + (r.usage.totalTokens + 0)) = n + r.usage.totalTokens + _
    omega
  · rw [List.map_append, List.sum_append, hcost, hcost', h.cost]
    show _ - decimalValue r.usage.cost = _ - (_ + (decimalValue r.usage.cost + 0))
    ring
  · have hr := h.retries
    omega
  · have hr := h.resumes
    omega

theorem retryPlan_charged {root : Limits} {current plan : Plan} {r : RunResult} {ordinal : ℕ}
    {spent : List Spent} {retries resumes : ℕ}
    (hD : D.round = id) (h : Charged root current.limits spent retries resumes)
    (hp : retryPlan D current r ordinal = some plan) :
    Charged root plan.limits (spent ++ [resultSpent r]) (retries + 1) resumes := by
  unfold retryPlan at hp
  rw [hD] at hp
  split_ifs at hp with hc
  obtain ⟨after, hafter, rfl⟩ := Option.map_eq_some_iff.mp hp
  have hone : 1 ≤ current.limits.retries := by omega
  obtain ⟨-, -, -, -, -, -, -, -, -, hresumes⟩ := Limits.after_cases hafter
  exact h.next (b := 0) hafter rfl rfl rfl (Nat.sub_add_cancel hone) hresumes

theorem resumePlan_charged {root : Limits} {current plan : Plan} {r : RunResult} {ordinal : ℕ}
    {continuing : Bool} {spent : List Spent} {retries resumes : ℕ}
    (hD : D.round = id) (h : Charged root current.limits spent retries resumes)
    (hp : resumePlan D current r ordinal continuing = some plan) :
    Charged root plan.limits (spent ++ [resultSpent r]) retries (resumes + 1) := by
  unfold resumePlan at hp
  rw [hD] at hp
  split_ifs at hp with hc
  obtain ⟨after, hafter, rfl⟩ := Option.map_eq_some_iff.mp hp
  have hone : 1 ≤ current.limits.resumes := by omega
  obtain ⟨-, -, -, -, -, -, -, -, hretries, -⟩ := Limits.after_cases hafter
  exact h.next (a := 0) hafter rfl rfl rfl hretries (Nat.sub_add_cancel hone)

theorem BudgetKept.createAttempt {f : RunFiles} {latest record : AttemptRecord} {a b : ℕ}
    {r : RunResult} (h : BudgetKept root f) (hl : f.latest = some latest)
    (hspent : resultSpent r = attemptSpent latest.attemptId f.events)
    (hnext : ∀ spent retries resumes,
      Charged root.limits latest.plan.limits spent retries resumes →
        Charged root.limits record.plan.limits (spent ++ [resultSpent r]) (retries + a)
          (resumes + b))
    (ha : countKind .retry [record] = a) (hb : countKind .resume [record] = b) :
    BudgetKept root (f.perform (.createAttempt record)) := by
  intro earlier last hatt
  have hatt' : f.attempts ++ [record] = earlier ++ [last] := hatt
  obtain ⟨rfl, hlast⟩ := List.append_inj' hatt' rfl
  cases hlast
  have hsplit : f.attempts = f.attempts.dropLast ++ [latest] := by
    have hne : f.attempts ≠ [] := by
      intro hnil
      unfold RunFiles.latest at hl
      rw [hnil] at hl
      cases hl
    have hgl : f.attempts.getLast hne = latest := by
      unfold RunFiles.latest at hl
      rw [List.getLast?_eq_some_getLast hne] at hl
      exact Option.some.inj hl
    rw [← hgl, List.dropLast_append_getLast hne]
  have hold := hnext _ _ _ (h f.attempts.dropLast latest hsplit)
  have hmap : (f.attempts.map fun a => attemptSpent a.attemptId f.events) =
      (f.attempts.dropLast.map fun a => attemptSpent a.attemptId f.events) ++ [resultSpent r] := by
    rw [hspent]
    conv_lhs => rw [hsplit]
    rw [List.map_append]
    rfl
  have hcount : ∀ kind, countKind kind (f.attempts ++ [record]) =
      countKind kind f.attempts + countKind kind [record] := fun kind => List.countP_append
  show Charged _ _ (f.attempts.map fun a => attemptSpent a.attemptId f.events)
    (countKind .retry (f.attempts ++ [record])) (countKind .resume (f.attempts ++ [record]))
  rw [hmap, hcount, hcount, ha, hb]
  exact hold

end RunLife

end PiSubagent
