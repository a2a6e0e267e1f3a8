import PiSubagent.Service.RunFrames

/-!
# Retries and resumes that read before they have the lease

`retry` and `resume` read the run in memory and the attempt history first, and `startAttempt` takes
the lease later. Between the two, other seats go on.

* `LateState`, `LateState.step`: the life of a run in which every retry and resume is a request and,
  later, its start. A seat's other operations on runs wait until then (`runExclusive`).
* `LateState.timely`: a start does not hand over an attempt when another seat has recorded one since
  its call read the history.
* **`late_step`**: a timely step is one of the run in which retry and resume read under the lease, or
  leaves a note and a checkout at most.
* **`late_invariant`**: so invariants of such runs are invariants of these.
-/

namespace PiSubagent

open JsonText

namespace RunLife

open Cuts Runs
open RunState (setSeat perform kill mem_abandonedCheckout)

/-! ## Steps -/

/-- What a call starts an attempt with; a launch reads no attempts. -/
def StartCall.input (D : Planner) :
    StartCall → ActiveRun → AttemptRecord → Option StartInput
  | .launch, _, _ => none
  | .retry, run, latest => retryInput D run latest
  | .resume continuing, run, latest => resumeInput D run latest continuing

/-- A run, and the retries and resumes that have read it and wait for the lease. -/
structure LateState where
  run : RunState
  waiting : ℕ → Option (StartCall × StartInput)

/-- The steps of the seats. -/
inductive LateAct where
  /-- A retry or resume reads the memory of its seat and the attempt history. -/
  | request (seat : ℕ) (call : StartCall)
  /-- It has the lease, and `startAttempt` goes on, perhaps cut short. -/
  | start (seat cut : ℕ) (undo : Bool)
  /-- It throws before it has the lease. -/
  | refuse (seat : ℕ)
  | other (a : RunAct)

/-- The step is a retry or a resume. -/
def RunAct.rereads : RunAct → Bool
  | .retry .. | .retryUndone .. | .resume .. | .resumeUndone .. => true
  | _ => false

/-- The operation runs under `runExclusive`. -/
def RunAct.exclusive : RunAct → Bool
  | .launch .. | .launchUndone .. | .retry .. | .retryUndone .. | .resume .. | .resumeUndone ..
  | .reconcile .. | .release .. | .abandon .. => true
  | _ => false

/-- The step is the death of its seat. -/
def RunAct.dies : RunAct → Bool
  | .die _ => true
  | _ => false

namespace LateState

variable (D : Planner) (w : LateState)

/-- A call of a seat waits, or none. -/
def setWaiting (seat : ℕ) (call : Option (StartCall × StartInput)) : LateState :=
  { w with waiting := Function.update w.waiting seat call }

/-- One step; `none` when it cannot be taken. -/
def step : LateAct → Option LateState
  | .request seat call =>
    match w.waiting seat, w.run.seats seat, w.run.files.latest with
    | none, some run, some latest =>
      (call.input D run latest).map fun i => w.setWaiting seat (some (call, i))
    | _, _, _ => none
  | .start seat cut undo =>
    match w.waiting seat with
    | some (_, i) =>
      if w.run.lease = none then
        let effects := some (startEffects w.run.files i)
        (if undo then w.run.undone seat cut effects else w.run.run seat cut effects).map fun s =>
          { w.setWaiting seat none with run := s }
      else none
    | none => none
  | .refuse seat => (w.waiting seat).map fun _ => w.setWaiting seat none
  | .other a =>
    if a.rereads = false ∧ (w.waiting a.seat = none ∨ a.exclusive = false) then
      (w.run.step D a).map fun s =>
        { (if a.dies then w.setWaiting a.seat none else w) with run := s }
    else none

/-- A run before its launch. -/
def fresh (plan : Plan) : LateState := ⟨freshRun plan, fun _ => none⟩

/-- When a start hands an attempt over, the latest attempt is still the one that its call has read. -/
def timely : LateAct → Bool
  | .start seat cut _ =>
    (w.waiting seat).all fun c =>
      decide (w.run.files.latest.map AttemptRecord.attemptId = c.2.parentAttemptId) ||
        !((startEffects w.run.files c.2).take cut).any Effect.isExecute
  | _ => true

/-- The step of the run in which retry and resume read under the lease. -/
def act : LateAct → Option RunAct
  | .start seat cut undo => (w.waiting seat).map fun c => c.1.act seat cut undo
  | .other a => some a
  | _ => none

/-- A step is timely, and meets a condition on the steps of the run. -/
def meets (ok : RunState → RunAct → Bool) (act : LateAct) : Bool :=
  w.timely act && (w.act act).all (ok w.run)

end LateState

variable {D : Planner} {s t : RunState} {w v : LateState} {seat cut : ℕ} {undo : Bool}
  {i : StartInput}

/-! ## Starts -/

/-- The effect records an attempt or hands it to the executor. -/
def Effect.isAttempt : Effect → Bool
  | .createAttempt _ | .execute _ => true
  | _ => false

/-- The note that a continuation was asked for. -/
def RunEvent.isNote : RunEvent → Bool
  | .resumeAtHandoff => true
  | _ => false

/-- The effect is a note, a checkout or the removal of one: what a start leaves that records no
attempt. -/
def Effect.isLeft : Effect → Bool
  | .append e => e.isNote
  | .reserveWorktree _ | .reserveSnapshot _ | .removeSnapshot _ => true
  | _ => false

/-- A start is cut short. -/
def startCut (s : RunState) (seat : ℕ) (i : StartInput) (cut : ℕ) (undo : Bool) : RunState :=
  (if undo then abandonedCheckout (startEffects s.files i) cut else []).foldl (perform seat)
    (((startEffects s.files i).take cut).foldl (perform seat) s)

theorem startCut_eq :
    (if undo then s.undone seat cut (some (startEffects s.files i))
      else s.run seat cut (some (startEffects s.files i))) = some (startCut s seat i cut undo) := by
  unfold startCut
  cases undo with
  | false => exact congrArg some (cutShort_eq_foldl _ _ _)
  | true =>
    rw [if_pos rfl, if_pos rfl, ← cutShort_eq_foldl]
    rfl

theorem step_start (h : w.step D (.start seat cut undo) = some v) :
    ∃ c, w.waiting seat = some c ∧ w.run.lease = none ∧
      v = { w.setWaiting seat none with run := startCut w.run seat c.2 cut undo } := by
  simp only [LateState.step] at h
  split at h
  case h_2 => cases h
  case h_1 call i hw =>
    split at h
    case isFalse => cases h
    case isTrue hl =>
      rw [startCut_eq] at h
      exact ⟨(call, i), hw, hl, (Option.some.inj h).symm⟩

theorem step_other {a : RunAct} (h : w.step D (.other a) = some v) :
    a.rereads = false ∧ (w.waiting a.seat = none ∨ a.exclusive = false) ∧
      w.run.step D a = some v.run ∧
      v.waiting = if a.dies then Function.update w.waiting a.seat none else w.waiting := by
  simp only [LateState.step] at h
  split_ifs at h with hc hd
  · obtain ⟨u, hu, rfl⟩ := Option.map_eq_some_iff.mp h
    exact ⟨hc.1, hc.2, hu, by rw [if_pos hd]; rfl⟩
  · obtain ⟨u, hu, rfl⟩ := Option.map_eq_some_iff.mp h
    exact ⟨hc.1, hc.2, hu, by rw [if_neg hd]⟩

/-! ## What a waiting call has read -/

theorem StartCall.input_cases {call : StartCall} {run : ActiveRun} {latest : AttemptRecord}
    (h : call.input D run latest = some i) :
    i.kind ≠ .initial ∧ i.ordinal = latest.ordinal + 1 ∧
      i.parentAttemptId = some latest.attemptId ∧ run.status ≠ .active ∧
        run.status ≠ .stopping ∧ run.result ≠ none := by
  cases call with
  | launch => cases h
  | retry =>
    obtain ⟨r, plan, hres, hst, -, -, -, rfl⟩ := retryInput_cases h
    refine ⟨by simp, rfl, rfl, ?_, ?_, by simp [hres]⟩ <;> rw [hst] <;> simp
  | resume continuing =>
    obtain ⟨r, plan, hres, hperm, -, -, -, rfl⟩ := resumeInput_cases h
    refine ⟨by simp, rfl, rfl, ?_, ?_, by simp [hres]⟩
    · intro hst
      cases continuing with
      | true =>
        have htransition : transitionRunStatus run.status .resumeAtHandoff ≠ none := hperm.2.1
        rw [hst] at htransition
        exact htransition rfl
      | false =>
        rw [show run.status = .interrupted from hperm.1] at hst
        cases hst
    · intro hst
      cases continuing with
      | true =>
        have htransition : transitionRunStatus run.status .resumeAtHandoff ≠ none := hperm.2.1
        rw [hst] at htransition
        exact htransition rfl
      | false =>
        rw [show run.status = .interrupted from hperm.1] at hst
        cases hst

/-- A waiting call has read the memory of its seat, which stays as it was, and an attempt record. -/
structure LateState.Prepared (D : Planner) (w : LateState) : Prop where
  disciplined : w.run.Disciplined
  ids : (w.run.files.attempts.map AttemptRecord.attemptId).Nodup
  waiting : ∀ seat call i, w.waiting seat = some (call, i) → ∃ run latest,
    w.run.seats seat = some run ∧ latest ∈ w.run.files.attempts ∧
      call.input D run latest = some i

theorem prepared_fresh (plan : Plan) : (LateState.fresh plan).Prepared D where
  disciplined := disciplined_freshRun plan
  ids := List.nodup_nil
  waiting := fun _ _ _ h => by cases h

/-- The attempts after a step: those before it, and perhaps one more. -/
theorem step_attempts {a : RunAct} (h : s.step D a = some t)
    (hids : (s.files.attempts.map AttemptRecord.attemptId).Nodup) :
    (t.files.attempts.map AttemptRecord.attemptId).Nodup ∧
      ∀ r ∈ s.files.attempts, r ∈ t.files.attempts := by
  by_cases ha : a.isStart = true
  · obtain ⟨call, cut, undo, hact⟩ := RunAct.isStart_cases ha
    rw [hact] at h
    obtain ⟨i, -, ho, -⟩ := start_spec h
    exact ⟨(ho.ids hids).1, ho.grown⟩
  · have hf := step_frame (Bool.eq_false_iff.mpr ha) h
    rw [hf.attempts]
    exact ⟨hids, fun _ hr => hr⟩

/-- A step that does not run under `runExclusive` leaves a run at rest. -/
theorem step_rests {a : RunAct} (hs : s.Disciplined) (h : s.step D a = some t)
    (hexclusive : a.exclusive = false) (hdies : a.dies = false) {run : ActiveRun}
    (hr : s.seats a.seat = some run) (h1 : run.status ≠ .active) (h2 : run.status ≠ .stopping) :
    t.seats a.seat = some run := by
  have hidle : run.flight.inFlight = false := (hs.rests a.seat run hr).not_inFlight h1 h2
  rcases RunState.step_cases h with ⟨seat, rfl, -⟩ | ⟨es, -, -, he, -, -⟩
  · cases hdies
  · exfalso
    have same : ∀ {run' : ActiveRun}, s.seats a.seat = some run' → run = run' :=
      fun h' => Option.some.inj (hr.symm.trans h')
    cases a with
    | launch seat cut | launchUndone seat cut | retry seat cut | retryUndone seat cut
    | resume seat continuing cut | resumeUndone seat continuing cut | reconcile seat o cut
    | release seat released cut | abandon seat released cut => cases hexclusive
    | die seat => cases hdies
    | begin seat =>
      obtain ⟨run', hr', hf, -⟩ := beginEffects_cases he
      obtain rfl := same hr'
      rw [hf] at hidle
      cases hidle
    | sandboxStarted seat _ | sessionStarted seat | usageCheckpoint seat _ _ =>
      obtain ⟨run', e, hr', hf, -⟩ := noteEffects_cases (fun _ => rfl) he
      obtain rfl := same hr'
      rw [hf] at hidle
      cases hidle
    | finish seat execution cut =>
      obtain ⟨run', hr', hf, -⟩ := finishEffects_cases he
      obtain rfl := same hr'
      rw [hf] at hidle
      cases hidle
    | reject seat =>
      obtain ⟨run', b, hr', hf, -⟩ := rejectEffects_cases he
      obtain rfl := same hr'
      rw [hf] at hidle
      cases hidle
    | settle seat handoff =>
      obtain ⟨run', execution, hr', hf, -⟩ := settleEffects_cases he
      obtain rfl := same hr'
      rw [hf] at hidle
      cases hidle
    | settleBlocked seat =>
      obtain ⟨run', hr', hf, -⟩ := settleBlockedEffects_cases he
      obtain rfl := same hr'
      rcases hf with ⟨execution, hf⟩ | hf <;> rw [hf] at hidle <;> cases hidle
    | interrupt seat =>
      obtain ⟨run', hr', hst, -⟩ := interruptEffects_cases he
      obtain rfl := same hr'
      exact h1 hst
    | shutdown seat =>
      obtain ⟨run', hr', hst, -⟩ := shutdownEffects_cases he
      obtain rfl := same hr'
      exact hst.elim h1 h2
    | «open» seat handoff cut =>
      obtain ⟨hnone, -⟩ := openEffects_cases he
      rw [show s.seats seat = some run from hr] at hnone
      cases hnone

theorem startCut_seats_ne {n : ℕ} (hn : n ≠ seat) :
    (startCut s seat i cut undo).seats n = s.seats n := by
  have hfold : ∀ (es : List Effect) (u : RunState), (es.foldl (perform seat) u).seats n = u.seats n := by
    intro es
    induction es with
    | nil => exact fun _ => rfl
    | cons e es ih =>
      intro u
      rw [List.foldl_cons, ih, perform_seats]
      cases e.run? with
      | some run => exact if_neg hn
      | none => rfl
  unfold startCut
  rw [hfold, hfold]

theorem disciplined_startCut (hs : s.Disciplined) (hl : s.lease = none) :
    (startCut s seat i cut undo).Disciplined := by
  have hcut : (((startEffects s.files i).take cut).foldl (perform seat) s).Disciplined := by
    rw [← cutShort_eq_foldl]
    exact (disciplined_start hs hl).cutShort cut
  refine (AllCuts.of_preserved hcut ?_).foldl
  intro u e he hu
  have hremove : ∃ id, e = .removeSnapshot id := by
    split_ifs at he
    · exact mem_abandonedCheckout he
    · cases he
  obtain ⟨id, rfl⟩ := hremove
  exact Disciplined.onFiles hu rfl

/-- **Waiting calls stay prepared.** -/
theorem LateState.Prepared.step {act : LateAct} (hw : w.Prepared D) (h : w.step D act = some v) :
    v.Prepared D := by
  cases act with
  | request seat call =>
    simp only [LateState.step] at h
    split at h
    case h_2 => cases h
    case h_1 run latest _ hr hl =>
      obtain ⟨i, hi, rfl⟩ := Option.map_eq_some_iff.mp h
      refine ⟨hw.disciplined, hw.ids, ?_⟩
      intro n call' i' hn
      by_cases hseat : n = seat
      · subst hseat
        rw [show (w.setWaiting n (some (call, i))).waiting n = some (call, i) from
          Function.update_self _ _ _] at hn
        cases hn
        exact ⟨run, latest, hr, List.mem_of_getLast? hl, hi⟩
      · exact hw.waiting n call' i' ((Function.update_of_ne hseat _ _).symm.trans hn)
  | refuse seat =>
    obtain ⟨c, -, rfl⟩ := Option.map_eq_some_iff.mp h
    refine ⟨hw.disciplined, hw.ids, ?_⟩
    intro n call i hn
    by_cases hseat : n = seat
    · subst hseat
      rw [show (w.setWaiting n none).waiting n = none from Function.update_self _ _ _] at hn
      cases hn
    · exact hw.waiting n call i ((Function.update_of_ne hseat _ _).symm.trans hn)
  | start seat cut undo =>
    obtain ⟨c, -, hl, rfl⟩ := step_start h
    have ho := start_outcome w.run seat c.2 cut undo
    refine ⟨disciplined_startCut hw.disciplined hl, (ho.ids hw.ids).1, ?_⟩
    intro n call i hn
    by_cases hseat : n = seat
    · subst hseat
      rw [show (w.setWaiting n none).waiting n = none from Function.update_self _ _ _] at hn
      cases hn
    · obtain ⟨run, latest, hr, hlatest, hi⟩ :=
        hw.waiting n call i ((Function.update_of_ne hseat _ _).symm.trans hn)
      exact ⟨run, latest, (startCut_seats_ne hseat).trans hr, ho.grown latest hlatest, hi⟩
  | other a =>
    obtain ⟨-, hexclusive, hrun, hwaiting⟩ := step_other h
    obtain ⟨hids, hgrown⟩ := step_attempts hrun hw.ids
    refine ⟨disciplined_step hw.disciplined hrun, hids, ?_⟩
    intro n call i hn
    rw [hwaiting] at hn
    have hold : w.waiting n = some (call, i) ∧ (n = a.seat → a.dies = false) := by
      split_ifs at hn with hd
      · by_cases hseat : n = a.seat
        · subst hseat
          rw [Function.update_self] at hn
          cases hn
        · exact ⟨(Function.update_of_ne hseat _ _).symm.trans hn, fun he => absurd he hseat⟩
      · exact ⟨hn, fun _ => Bool.eq_false_iff.mpr hd⟩
    obtain ⟨run, latest, hr, hlatest, hi⟩ := hw.waiting n call i hold.1
    refine ⟨run, latest, ?_, hgrown latest hlatest, hi⟩
    by_cases hseat : n = a.seat
    · subst hseat
      obtain ⟨-, -, -, h1, h2, -⟩ := StartCall.input_cases hi
      refine step_rests hw.disciplined hrun ?_ (hold.2 rfl) hr h1 h2
      rcases hexclusive with hnone | hex
      · rw [hold.1] at hnone
        cases hnone
      · exact hex
    · exact (step_seats_ne hrun hseat).trans hr

/-! ## Starts that record or execute an attempt -/

/-- A start leaves notes and checkouts at most, up to its attempt. -/
theorem startEffects_left {f : RunFiles} {e : Effect} (hkind : i.kind ≠ .initial)
    (he : e ∈ startEffects f i) (hno : e.isAttempt = false) : e.isLeft = true := by
  have hof := startEffects_ofStart f i e he
  cases e with
  | append e =>
    obtain ⟨-, rfl⟩ := hof
    rfl
  | createRunRecord => exact absurd hof hkind
  | reserveWorktree _ | reserveSnapshot _ => rfl
  | createAttempt _ | execute _ => cases hno
  | writeSnapshot _ | removeSnapshot _ | removeSnapshots | remember _ | settleLease =>
    exact hof.elim

/-- A record that is there is not made again; a new one has the latest attempt as its parent. -/
theorem attemptEffects_parent {f : RunFiles} {id : Option JsString} {record : List Effect}
    (hkind : i.kind ≠ .initial) (h : attemptEffects f i id = some record) :
    record = [] ∨ f.latest.map AttemptRecord.attemptId = i.parentAttemptId := by
  unfold attemptEffects at h
  split at h
  case h_1 =>
    split_ifs at h
    cases h
    exact Or.inl rfl
  case h_2 hfind =>
    dsimp only at h
    split_ifs at h with hadmit
    cases hl : f.latest with
    | none =>
      rw [hl] at hadmit
      exact absurd (of_decide_eq_true hadmit).1 hkind
    | some latest =>
      rw [hl] at hadmit
      exact Or.inr (of_decide_eq_true hadmit).2.2.symm

/-- A start records an attempt only after the one its call has read. -/
theorem startEffects_parent {f : RunFiles} (hkind : i.kind ≠ .initial)
    (hattempt : ((startEffects f i).take cut).any Effect.isAttempt = true)
    (htimely : ((startEffects f i).take cut).any Effect.isExecute = true →
      f.latest.map AttemptRecord.attemptId = i.parentAttemptId) :
    f.latest.map AttemptRecord.attemptId = i.parentAttemptId := by
  obtain ⟨e, he, hatt⟩ := List.any_eq_true.mp hattempt
  have hx : e.isExecute = true ∨ e.record? ≠ none := by
    cases e with
    | createAttempt r => exact Or.inr (by simp [Effect.record?])
    | execute run => exact Or.inl rfl
    | _ => cases hatt
  obtain ⟨-, checkout, id, record, hc, ha, hes⟩ :=
    startEffects_executes (List.mem_of_mem_take he) hx
  rcases attemptEffects_parent hkind ha with rfl | hparent
  · -- without a record of its own the start has nothing but the hand-over left
    refine htimely (List.any_eq_true.mpr ⟨e, he, hx.resolve_right ?_⟩)
    have hm := List.mem_of_mem_take he
    rw [hes, ← List.append_assoc] at hm
    rcases List.mem_append.mp hm with hm | hm
    · exact not_not_intro (not_execute_opening hc hm).2
    · rw [List.nil_append, List.mem_singleton] at hm
      rw [hm]
      exact not_not_intro rfl
  · exact hparent

/-- The call would start the same attempt in the state in which its start has the lease. -/
theorem StartCall.effects_of_input {call : StartCall} {run : ActiveRun} {latest : AttemptRecord}
    (hr : s.seats seat = some run) (hlatest : s.files.latest = some latest) (hl : s.lease = none)
    (hi : call.input D run latest = some i) :
    call.effects D s seat = some (startEffects s.files i) := by
  have hinput : ∀ {input : ActiveRun → AttemptRecord → Option StartInput},
      input run latest = some i → inputEffects s seat input = some (startEffects s.files i) := by
    intro input hinput
    unfold inputEffects
    rw [hr, hlatest]
    dsimp only
    rw [if_pos hl, hinput]
    rfl
  cases call with
  | launch => cases hi
  | retry => exact hinput hi
  | resume continuing => exact hinput hi

theorem step_startCall {call : StartCall} {es : List Effect} (h : call.effects D s seat = some es) :
    s.step D (call.act seat cut undo) =
      if undo then s.undone seat cut (some es) else s.run seat cut (some es) := by
  rw [← h]
  cases call <;> cases undo <;> rfl

/-! ## Late starts and starts under the lease -/

/-- **A timely step is one of the run whose retries and resumes read under the lease**, or leaves
notes and checkouts at most. -/
theorem late_step {act : LateAct} (hw : w.Prepared D) (htimely : w.timely act = true)
    (h : w.step D act = some v) :
    v.run = w.run ∨ (∃ a, w.act act = some a ∧ w.run.step D a = some v.run) ∨
      w.run.lease = none ∧ ∃ (seat : ℕ) (es : List Effect), (∀ e ∈ es, e.isLeft = true) ∧
        v.run = es.foldl (perform seat) w.run := by
  cases act with
  | request seat call =>
    simp only [LateState.step] at h
    split at h
    case h_2 => cases h
    case h_1 =>
      obtain ⟨i, -, rfl⟩ := Option.map_eq_some_iff.mp h
      exact Or.inl rfl
  | refuse seat =>
    obtain ⟨c, -, rfl⟩ := Option.map_eq_some_iff.mp h
    exact Or.inl rfl
  | other a => exact Or.inr (Or.inl ⟨a, rfl, (step_other h).2.2.1⟩)
  | start seat cut undo =>
    obtain ⟨⟨call, i⟩, hc, hl, rfl⟩ := step_start h
    obtain ⟨run, latest, hr, hmem, hi⟩ := hw.waiting seat call i hc
    obtain ⟨hkind, -, hparent, -⟩ := StartCall.input_cases hi
    by_cases hattempt : ((startEffects w.run.files i).take cut).any Effect.isAttempt = true
    · refine Or.inr (Or.inl ⟨call.act seat cut undo, by simp [LateState.act, hc], ?_⟩)
      have hlast : w.run.files.latest.map AttemptRecord.attemptId = i.parentAttemptId := by
        refine startEffects_parent hkind hattempt fun hexecute => ?_
        simp only [LateState.timely, hc, Option.all_some, hexecute, Bool.not_true, Bool.or_false,
          decide_eq_true_eq] at htimely
        exact htimely
      rw [hparent] at hlast
      obtain ⟨latest', hlatest', hid⟩ := Option.map_eq_some_iff.mp hlast
      have hsame : latest' = latest :=
        List.inj_on_of_nodup_map hw.ids (List.mem_of_getLast? hlatest') hmem hid
      subst hsame
      rw [step_startCall (StartCall.effects_of_input hr hlatest' hl hi)]
      exact startCut_eq
    · refine Or.inr (Or.inr ⟨hl, seat, (startEffects w.run.files i).take cut ++
        (if undo then abandonedCheckout (startEffects w.run.files i) cut else []), ?_, ?_⟩)
      · intro e he
        rcases List.mem_append.mp he with he | he
        · refine startEffects_left hkind (List.mem_of_mem_take he) ?_
          by_contra hne
          exact hattempt (List.any_eq_true.mpr ⟨e, he, (Bool.not_eq_false _).mp hne⟩)
        · split_ifs at he
          · obtain ⟨id, rfl⟩ := mem_abandonedCheckout he
            rfl
          · cases he
      · rw [List.foldl_append]
        rfl

/-- **Invariants of the runs whose retries and resumes read under the lease are invariants of late
starts**, when notes and checkouts keep them while nobody holds the lease. -/
theorem late_invariant {P : RunState → Prop} {ok : RunState → RunAct → Bool} {plan : Plan}
    (hstart : P (freshRun plan))
    (hstep : ∀ s a t, P s → ok s a = true → s.step D a = some t → P t)
    (hleft : ∀ seat s, ∀ e : Effect, P s → s.lease = none → e.isLeft = true →
      P (s.perform seat e))
    {as : List LateAct}
    (hmeets : Meets (LateState.step D) (fun w act => w.meets ok act = true) (.fresh plan) as)
    (h : exec (LateState.step D) (.fresh plan) as = some v) : P v.run := by
  have hinv : v.Prepared D ∧ P v.run := by
    refine exec_invariant (fun w : LateState => w.Prepared D ∧ P w.run) ?_
      ⟨prepared_fresh plan, hstart⟩ hmeets h
    intro w act v ⟨hw, hp⟩ hok hv
    obtain ⟨htimely, hmeet⟩ := (Bool.and_eq_true _ _).mp hok
    refine ⟨hw.step hv, ?_⟩
    rcases late_step hw htimely hv with hsame | ⟨a, ha, hrun⟩ | ⟨hl, seat, es, hes, hrun⟩
    · rw [hsame]
      exact hp
    · rw [ha] at hmeet
      exact hstep w.run a v.run hp hmeet hrun
    · rw [hrun]
      refine ((AllCuts.of_preserved (P := fun u => u.lease = none ∧ P u) ⟨hl, hp⟩ ?_).foldl).2
      intro u e he ⟨hu, hpu⟩
      refine ⟨?_, hleft seat u e hpu hu (hes e he)⟩
      have hleft' := hes e he
      cases e with
      | append _ | reserveWorktree _ | reserveSnapshot _ | removeSnapshot _ => exact hu
      | _ => cases hleft'
  exact hinv.2

end RunLife

end PiSubagent
