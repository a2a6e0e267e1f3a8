import PiSubagent.Lib.Runs
import PiSubagent.Service.RunRecords
import PiSubagent.Service.RunSummary
import PiSubagent.Workspace.HandoffExport

/-!
# The hand-offs a run exports

`exportHandoff` of the service, of the hand-off a seat remembers, over the whole life of the run.

* `RunState.Carries`: the hand-offs that seats remember (`carries_step`).
* `WorkRun.Kept`: they are captured ones, and a captured one came after the launch (`kept_step`).
* **`export_admitted`**: in every run, no check of its identity refuses the export of a hand-off.
* **`export_patches`**: what is exported, ever after, is the files the attempt had left.
-/

namespace PiSubagent

open JsonText

namespace RunLife

open Runs Scripts Worktree
open RunState (setSeat perform kill)
open Git.Repository (Extends Complete)

/-! ## The export -/

namespace WorkRun

variable (w : WorkRun)

/-- The hand-off that a seat remembers of the run. -/
def handoffOf (seat : ℕ) : Option WorktreeRecord :=
  ((w.run.seats seat).bind ActiveRun.result).bind AttemptExecutionResult.handoff

/-- `exportHandoff`, when the lease is current at the two checks of the export; a record that cannot
be read is refused like one that differs. -/
def exportHandoff (P : ExportPlatform) (seat : ℕ) (current still : Bool) (maxBytes : Option ℤ) :
    Except ExportRefusal HandoffExport :=
  match w.run.seats seat with
  | none => refused "run not found"
  | some run =>
    if run.status ∉ Summaries.handoffExportStatuses then
      refused ("handoff export requires a durable terminal run; run is " ++ run.status.text)
    else
      match w.handoffOf seat with
      | none => refused "run has no handoff commit to export"
      | some handoff =>
        if handoff.handoffCommit = none then refused "run has no handoff commit to export"
        else if w.run.canHold seat = false then .error .unavailable
        else if durableStatusIs w.run.files run.status = false then .error .changed
        else
          match w.durableHandoff handoff with
          | none => refused "durable handoff identity mismatch"
          | some record =>
            exportWorktreeHandoff P w.store record
              ⟨w.run.files.plan.runId.val, current, still⟩ maxBytes

end WorkRun

/-! ## The hand-offs that seats remember -/

variable {D : Planner} {s t : RunState} {K : WorktreeRecord → Prop}

/-- The hand-off of an execution has a property. -/
def Carries (K : WorktreeRecord → Prop) (e : AttemptExecutionResult) : Prop :=
  ∀ h, e.handoff = some h → K h

/-- The hand-offs that a seat remembers have a property. -/
def ActiveRun.Carries (K : WorktreeRecord → Prop) (run : ActiveRun) : Prop :=
  (∀ e, run.result = some e → RunLife.Carries K e) ∧
    ∀ e, run.flight = .ended e → RunLife.Carries K e

/-- The hand-offs that an effect makes a seat remember have a property. -/
def Effect.Carries (K : WorktreeRecord → Prop) : Effect → Prop
  | .remember run | .execute run => run.Carries K
  | _ => True

/-- All hand-offs that are remembered have a property. -/
def RunState.Carries (K : WorktreeRecord → Prop) (s : RunState) : Prop :=
  ∀ n run, s.seats n = some run → run.Carries K

/-- The hand-offs that come with a step have a property. -/
def RunAct.Brings (K : WorktreeRecord → Prop) (s : RunState) : RunAct → Prop
  | .finish seat execution _ => ∀ run, s.seats seat = some run → run.flight = .running true →
      Carries K execution
  | .settle seat handoff => ∀ run execution, s.seats seat = some run →
      run.flight = .ended execution → Carries K (carried run execution handoff)
  | .open _ handoff _ => ∀ h, handoff = some h → K h
  | _ => True

theorem carries_none {e : AttemptExecutionResult} (h : e.handoff = none) : Carries K e := by
  intro x hx
  rw [h] at hx
  cases hx

theorem ActiveRun.carries_settle (run : ActiveRun) {e : AttemptExecutionResult}
    (h : RunLife.Carries K e) : (run.settle e).Carries K := by
  refine ⟨fun x hx => ?_, (fun x hx => by cases hx)⟩
  cases hx
  exact h

theorem ActiveRun.carries_start (plan : Plan) : (ActiveRun.start plan).Carries K :=
  ⟨(fun x hx => by cases hx), (fun x hx => by cases hx)⟩

theorem carries_setSeat {seat : ℕ} {run : Option ActiveRun} (h : s.Carries K)
    (hr : ∀ r, run = some r → r.Carries K) : (s.setSeat seat run).Carries K := by
  intro n r hn
  simp only [setSeat] at hn
  split_ifs at hn
  · exact hr r hn
  · exact h n r hn

theorem carries_perform {seat : ℕ} {e : Effect} (h : s.Carries K) (he : e.Carries K) :
    (s.perform seat e).Carries K := by
  cases e with
  | remember run =>
    refine carries_setSeat h fun r hr => ?_
    cases hr
    exact he
  | execute run =>
    have hset : (s.setSeat seat (some run)).Carries K := by
      refine carries_setSeat h fun r hr => ?_
      cases hr
      exact he
    exact hset
  | settleLease =>
    simp only [perform]
    split_ifs <;> exact h
  | _ => exact h

theorem carries_ofStart {i : StartInput} {e : Effect} (h : e.OfStart i) : e.Carries K := by
  cases e with
  | execute run =>
    cases h
    exact ActiveRun.carries_start i.plan
  | remember run => cases h
  | _ => trivial

theorem reconcileExecution_carries {plan : RunPlan} {pending : Bool} {run : ActiveRun}
    {seen : Evidence} {execution : AttemptExecutionResult} (hr : run.Carries K)
    (h : reconcileExecution plan pending run.result seen = some execution) :
    Carries K execution := by
  unfold reconcileExecution at h
  dsimp only at h
  split at h
  case isFalse => cases h
  case isTrue =>
    cases h
    intro x hx
    cases pending with
    | true => cases hx
    | false =>
      obtain ⟨memory, hmemory, hhandoff⟩ := Option.bind_eq_some_iff.mp hx
      exact hr.1 memory hmemory x hhandoff

theorem releaseExecution_carries {plan : RunPlan} {pending : Bool}
    {memory next : AttemptExecutionResult} (hm : Carries K memory)
    (h : releaseExecution plan pending memory = some next) : Carries K next := by
  rw [releaseExecution_eq] at h
  split_ifs at h
  cases h
  unfold releasedExecution
  split_ifs
  · exact carries_none rfl
  · exact hm

/-- The effects of a step make seats remember hand-offs with the property. -/
theorem effects_carries {a : RunAct} {es : List Effect} (hb : a.Brings K s) (hs : s.Carries K)
    (h : s.effects D a = some es) : ∀ e ∈ es, e.Carries K := by
  cases a with
  | launch seat cut | launchUndone seat cut =>
    obtain ⟨-, -, rfl⟩ := launchEffects_cases h
    exact fun e he => carries_ofStart (startEffects_ofStart _ _ e he)
  | retry seat cut | retryUndone seat cut =>
    obtain ⟨run, latest, r, plan, -, -, -, -, -, -, -, -, rfl⟩ := retryEffects_cases h
    exact fun e he => carries_ofStart (startEffects_ofStart _ _ e he)
  | resume seat continuing cut | resumeUndone seat continuing cut =>
    obtain ⟨run, latest, r, plan, -, -, -, -, -, -, -, -, rfl⟩ := resumeEffects_cases h
    exact fun e he => carries_ofStart (startEffects_ofStart _ _ e he)
  | reconcile seat o cut =>
    intro e he
    rcases mem_reconcileEffects h he with rfl | ⟨run, execution, hr, hx, he⟩
    · trivial
    · have hcarries := reconcileExecution_carries (hs seat run hr) hx
      rcases he with rfl | rfl | rfl | rfl
      · trivial
      · trivial
      · exact run.carries_settle hcarries
      · trivial
  | release seat released cut =>
    intro e he
    obtain ⟨run, hr, -, -, -, -, hes⟩ := releaseEffects_cases h
    cases hres : run.result with
    | none =>
      rw [hres] at hes
      dsimp only at hes
      subst hes
      rcases List.mem_pair.mp he with rfl | rfl <;> trivial
    | some memory =>
      rw [hres] at hes
      dsimp only at hes
      split at hes
      case h_1 =>
        subst hes
        cases he
      case h_2 next hx =>
        subst hes
        simp only [List.mem_cons, List.not_mem_nil, or_false] at he
        rcases he with rfl | rfl | rfl | rfl
        · trivial
        · trivial
        · exact run.carries_settle
            (releaseExecution_carries ((hs seat run hr).1 memory hres) hx)
        · trivial
  | abandon seat released cut =>
    intro e he
    obtain ⟨run, memory, hr, hres, -, -, -, -, rfl⟩ := abandonEffects_cases h
    rw [List.mem_append] at he
    rcases he with he | he
    · rcases List.mem_pair.mp he with rfl | rfl
      · trivial
      · exact run.carries_settle (carries_none rfl)
    · split_ifs at he
      · rcases List.mem_pair.mp he with rfl | rfl
        · trivial
        · exact run.carries_settle (carries_none rfl)
      · simp only [List.mem_cons, List.not_mem_nil, or_false] at he
        rcases he with rfl | rfl | rfl
        · trivial
        · exact run.carries_settle (carries_none rfl)
        · trivial
      · cases he
  | «open» seat handoff cut =>
    intro e he
    obtain ⟨-, -, -, rfl⟩ := openEffects_cases h
    rcases List.mem_append.mp he with he | he
    · split at he
      case h_1 => rcases List.mem_pair.mp he with rfl | rfl <;> trivial
      case h_2 => cases he
    · rw [List.mem_singleton.mp he]
      refine ⟨fun x hx => ?_, (fun x hx => by cases hx)⟩
      cases hx
      unfold RunFiles.recoveredExecution
      dsimp only
      split_ifs
      · exact carries_none rfl
      · exact hb
  | die seat => cases h
  | interrupt seat =>
    obtain ⟨run, hr, -, rfl⟩ := interruptEffects_cases h
    simpa [Effect.Carries, ActiveRun.Carries] using hs seat run hr
  | shutdown seat =>
    obtain ⟨run, hr, -, rfl⟩ := shutdownEffects_cases h
    simpa [Effect.Carries, ActiveRun.Carries] using hs seat run hr
  | begin seat =>
    obtain ⟨run, hr, -, rfl⟩ := beginEffects_cases h
    simpa [Effect.Carries, ActiveRun.Carries] using (hs seat run hr).1
  | sandboxStarted seat _ | sessionStarted seat | usageCheckpoint seat _ _ =>
    obtain ⟨run, e, -, -, he, rfl⟩ := noteEffects_cases (fun _ => rfl) h
    simp [Effect.Carries]
  | finish seat execution cut =>
    obtain ⟨run, hr, hf, -, rfl⟩ := finishEffects_cases h
    intro e he
    unfold finishEffects at he
    rcases List.mem_append.mp he with he | he
    · split_ifs at he
      · rw [List.mem_singleton.mp he]
        trivial
      · cases he
    · simp only [List.mem_cons, List.not_mem_nil, or_false] at he
      rcases he with rfl | rfl | rfl
      · trivial
      · trivial
      · refine ⟨(hs seat run hr).1, fun x hx => ?_⟩
        cases hx
        exact hb run hr hf
  | reject seat =>
    obtain ⟨run, b, hr, -, rfl⟩ := rejectEffects_cases h
    simpa [Effect.Carries, ActiveRun.Carries] using (hs seat run hr).1
  | settle seat handoff =>
    obtain ⟨run, execution, hr, hf, rfl⟩ := settleEffects_cases h
    intro e he
    simp only [settleEffects, List.mem_cons, List.not_mem_nil, or_false] at he
    rcases he with rfl | rfl | rfl
    · trivial
    · exact run.carries_settle (hb run execution hr hf)
    · trivial
  | settleBlocked seat =>
    obtain ⟨run, hr, -, rfl⟩ := settleBlockedEffects_cases h
    simpa [Effect.Carries, ActiveRun.Carries] using (hs seat run hr).1

/-- **What seats remember keeps the property** when what comes with a step has it. -/
theorem carries_step {a : RunAct} (hb : a.Brings K s) (hs : s.Carries K)
    (h : s.step D a = some t) : t.Carries K := by
  refine RunState.step_allCuts h ?_ ?_ ?_
  · intro seat _
    have hset : (s.setSeat seat none).Carries K := carries_setSeat hs fun r hr => by cases hr
    exact hset
  · exact fun u id hu => carries_perform hu trivial
  · intro es he
    refine Cuts.AllCuts.of_preserved hs ?_
    intro u e hm hu
    exact carries_perform hu (effects_carries hb hs he e hm)

/-! ## The repository -/

variable {plan : Plan} {head : JsString} {w w' : WorkRun} {store : Store} {r : Record}
  {c : JsString}

theorem create_commits (r : Record) (n : ℕ) (store : Store) :
    (advance n (createAttemptWorktree r) store).1.repo.commits = store.repo.commits := by
  have hend := create_states r n store
  generalize advance n (createAttemptWorktree r) store = out at hend
  cases hend <;> rfl

/-- A capture makes the commit of the hand-off, which was not there. -/
theorem capturedAt_extends (hnew : store.repo.commits c = none)
    (v : Git.Worktree JsString RefName) (k : ℕ) :
    Extends store.repo (capturedAt store r c v k).repo := by
  have hupdate : ∀ name commit, store.repo.commits name = some commit →
      Function.update store.repo.commits c (some ⟨v.files, [r.baselineHead]⟩) name =
        some commit := by
    intro name commit hcommit
    have hne : name ≠ c := by
      rintro rfl
      rw [hnew] at hcommit
      cases hcommit
    rw [Function.update_of_ne hne]
    exact hcommit
  match k with
  | 0 | 1 => exact Extends.refl _
  | 2 | 3 | 4 | _ + 5 => exact hupdate

theorem finalize_extends (store : Store) (r : Record) (c : JsString) (n : ℕ) :
    Extends store.repo (advance n (finalizeWorktreeHandoff store r c) store).1.repo := by
  have hend := finalize_states store r c n
  generalize advance n (finalizeWorktreeHandoff store r c) store = out at hend
  cases hend with
  | unchecked => exact Extends.refl _
  | staged v hcap => exact Extends.refl _
  | cut v hcap hnew k => exact capturedAt_extends hnew v k
  | captured v hcap hnew => exact capturedAt_extends hnew v 5
  | unchanged v hcap => exact Extends.refl _

theorem release_commits (ids : List JsString) (n : ℕ) (store : Store) :
    (advance n (releaseRunWorktrees store ids) store).1.repo.commits = store.repo.commits := by
  refine advance_invariant (fun u : Store => u.repo.commits = store.repo.commits) ?_ n rfl
  intro f hf u v hu hv
  have hstep := mem_releaseRunWorktrees hf
  cases hstep with
  | fail => cases hv
  | remove id hid r hr =>
    unfold removeIfPresent at hv
    split_ifs at hv
    · obtain ⟨-, -, rfl⟩ := removeCleanWorktree_cases hv
      exact hu
    · cases hv
      exact hu
  | drop id hid r hr =>
    obtain ⟨-, -, ⟨rfl, -⟩ | ⟨-, rfl⟩⟩ := dropBranch_cases hv
    · exact hu
    · exact hu
  | write id hid r hr =>
    cases hv
    exact hu

theorem WorkRun.releaseSteps_commits (w : WorkRun) (seat n : ℕ) :
    (advance n (w.releaseSteps seat) w.store).1.repo.commits = w.store.repo.commits := by
  unfold WorkRun.releaseSteps
  split_ifs
  · exact release_commits _ n w.store
  · rw [advance_nil]

/-- What a step leaves of the commits and the captured hand-offs: all, and new ones. -/
structure Grows (w w' : WorkRun) : Prop where
  repo : Extends w.store.repo w'.store.repo
  captured : ∀ x ∈ w.captured, x ∈ w'.captured
  fresh : ∀ x ∈ w'.captured, x ∉ w.captured → ∀ c, x.handoffCommit = some c →
    w.store.repo.commits c = none

theorem Grows.same (hcommits : w'.store.repo.commits = w.store.repo.commits)
    (hcaptured : w'.captured = w.captured) : Grows w w' := by
  refine ⟨?_, ?_, ?_⟩
  · intro name commit hcommit
    rw [hcommits]
    exact hcommit
  · intro x hx
    rw [hcaptured]
    exact hx
  · intro x hx hnot
    rw [hcaptured] at hx
    exact absurd hx hnot

theorem startWith_same {seat made : ℕ} {from? existing : Option Record} {t : RunState}
    (h : w.startWith seat made from? existing t = some w') :
    w'.run = t ∧ w'.captured = w.captured ∧ w'.store.repo.commits = w.store.repo.commits := by
  cases WorkRun.startWith_cases h with
  | idle => exact ⟨rfl, rfl, rfl⟩
  | executed => exact ⟨rfl, rfl, rfl⟩
  | torn id start n => exact ⟨rfl, rfl, create_commits _ n w.store⟩
  | made id start n =>
    dsimp only
    split_ifs <;> exact ⟨rfl, rfl, create_commits _ n w.store⟩

theorem follow_same {a : RunAct} {made : ℕ} {t : RunState} (h : w.follow a made t = some w') :
    w'.run = t ∧ w'.captured = w.captured ∧ w'.store.repo.commits = w.store.repo.commits := by
  cases a with
  | launch seat cut | launchUndone seat cut | retry seat cut | retryUndone seat cut =>
    exact startWith_same h
  | resume seat continuing cut | resumeUndone seat continuing cut =>
    simp only [WorkRun.follow] at h
    split_ifs at h <;> exact startWith_same h
  | release seat released cut =>
    simp only [WorkRun.follow, Option.ite_none_right_eq_some] at h
    obtain ⟨-, h⟩ := h
    cases h
    exact ⟨rfl, rfl, w.releaseSteps_commits seat made⟩
  | abandon seat released cut =>
    simp only [WorkRun.follow] at h
    split_ifs at h <;> cases h
    · exact ⟨rfl, rfl, rfl⟩
    · exact ⟨rfl, rfl, w.releaseSteps_commits seat made⟩
  | _ =>
    cases h
    exact ⟨rfl, rfl, rfl⟩

theorem finalizeWith_captured (w : WorkRun) (seat : ℕ) (held : Held) (c : JsString) (cut : ℕ) :
    (w.finalizeWith seat held c cut).captured = w.captured ∨
      (w.finalizeWith seat held c cut).captured =
          w.captured ++ [(held.record.updated c).toWorktreeRecord] ∧
        w.store.repo.commits c = none := by
  have hrecords := finalize_records w.store held.record c cut
  unfold WorkRun.finalizeWith WorkRun.setHeld
  dsimp only
  rcases hrecords with ⟨hsame, -⟩ | ⟨-, hnew, -, -⟩
  · left
    simp [hsame]
  · split_ifs
    · exact Or.inr ⟨rfl, hnew⟩
    · left
      simp

/-- **Every step keeps the commits and the captured hand-offs.** -/
theorem grows_step {a : WorkAct} (h : w.step D a = some w') : Grows w w' := by
  cases a with
  | edit seat files =>
    obtain ⟨held, -, h⟩ := Option.bind_eq_some_iff.mp h
    obtain ⟨u, hu, rfl⟩ := Option.map_eq_some_iff.mp h
    obtain ⟨repo, hrepo, rfl⟩ := Store.onRepo_cases hu
    obtain ⟨tree, -, rfl⟩ := Git.Repository.edit_cases hrepo
    exact .same rfl rfl
  | tear id files =>
    obtain ⟨u, hu, rfl⟩ := Option.map_eq_some_iff.mp h
    obtain ⟨repo, hrepo, rfl⟩ := Store.onRepo_cases hu
    obtain ⟨tree, -, rfl⟩ := Git.Repository.tear_cases hrepo
    exact .same rfl rfl
  | releaseThrows seat made =>
    simp only [WorkRun.step, Option.ite_none_right_eq_some] at h
    obtain ⟨-, h⟩ := h
    cases h
    exact .same (w.releaseSteps_commits seat made) rfl
  | life a made =>
    simp only [WorkRun.step, Option.ite_none_right_eq_some] at h
    obtain ⟨-, h⟩ := h
    obtain ⟨t, -, h⟩ := Option.bind_eq_some_iff.mp h
    obtain ⟨-, hcaptured, hcommits⟩ := follow_same h
    exact .same hcommits hcaptured
  | finalize seat c cut =>
    obtain ⟨held, -, rfl⟩ := Option.map_eq_some_iff.mp h
    have hrepo : Extends w.store.repo (w.finalizeWith seat held c cut).store.repo :=
      finalize_extends w.store held.record c cut
    rcases finalizeWith_captured w seat held c cut with hsame | ⟨hgrown, hnew⟩
    · refine ⟨hrepo, ?_, ?_⟩
      · intro x hx
        rw [hsame]
        exact hx
      · intro x hx hnot
        rw [hsame] at hx
        exact absurd hx hnot
    · refine ⟨hrepo, ?_, ?_⟩
      · intro x hx
        rw [hgrown]
        exact List.mem_append_left _ hx
      · intro x hx hnot c' hc'
        rw [hgrown] at hx
        rcases List.mem_append.mp hx with hx | hx
        · exact absurd hx hnot
        · rw [List.mem_singleton.mp hx] at hc'
          cases hc'
          exact hnew

/-! ## The hand-offs of a run -/

/-- A hand-off with a commit is a captured one. -/
def KnownHandoff (captured : List WorktreeRecord) (h : WorktreeRecord) : Prop :=
  h.handoffCommit ≠ none → h ∈ captured

/-- The repository has the commits of the launch, the hand-offs came after them, and the hand-offs
that the seats remember or hold are captured ones. -/
structure WorkRun.Kept (commits : JsString → Option (Git.Commit JsString JsString))
    (w : WorkRun) : Prop where
  repo : ∀ name commit, commits name = some commit → w.store.repo.commits name = some commit
  fresh : ∀ x ∈ w.captured, ∀ c, x.handoffCommit = some c → commits c = none
  seats : w.run.Carries (KnownHandoff w.captured)
  held : ∀ seat h, w.held seat = some h → KnownHandoff w.captured h.record.toWorktreeRecord

variable {commits : JsString → Option (Git.Commit JsString JsString)} {t : RunState}

theorem kept_freshWork (plan : Plan) (head : JsString)
    (commits : JsString → Option (Git.Commit JsString JsString)) :
    (freshWork plan head commits).Kept commits where
  repo := fun name commit h => h
  fresh := by simp [freshWork]
  seats := by simp [freshWork, freshRun, RunState.Carries]
  held := by simp [freshWork]

theorem WorkRun.Linked.known (h : w.Linked plan head) {id : JsString}
    (hr : w.store.records id = some (.written r)) : KnownHandoff w.captured r.toWorktreeRecord :=
  fun hne => h.recorded id r hr hne

theorem carriedHandoff_known (h : w.Linked plan head) {attempts : List AttemptRecord}
    {record : Option Record} {r' : Record}
    (hrecord : ∀ r, record = some r → KnownHandoff w.captured r.toWorktreeRecord)
    (hc : carriedHandoff w.store attempts record = some (some r')) :
    KnownHandoff w.captured r'.toWorktreeRecord := by
  have hfrom : ∀ (r : Record) (start : JsString) (attempts : List AttemptRecord),
      carriedFrom w.store r start attempts = some (some r') →
        KnownHandoff w.captured r'.toWorktreeRecord := by
    intro r start attempts
    induction attempts with
    | nil =>
      intro hc
      cases hc
    | cons attempt attempts ih =>
      intro hc
      unfold carriedFrom at hc
      split at hc
      case h_1 => exact ih hc
      case h_2 id hid =>
        split_ifs at hc
        · exact ih hc
        · split at hc
          case h_1 => exact ih hc
          case h_2 => cases hc
          case h_3 prior hprior =>
            split_ifs at hc
            · cases hc
              exact h.known hprior
            · exact ih hc
  cases record with
  | none => cases hc
  | some r =>
    unfold carriedHandoff at hc
    dsimp only at hc
    split_ifs at hc
    · cases hc
      exact hrecord _ rfl
    · split at hc
      case h_1 => cases hc
      case h_2 start hstart => exact hfrom r start attempts hc

theorem recoveredHandoff_known (h : w.Linked plan head) {r' : Record}
    (hc : recoveredHandoff w.store w.run.files = some (some r')) :
    KnownHandoff w.captured r'.toWorktreeRecord := by
  unfold recoveredHandoff at hc
  split at hc
  case h_1 => cases hc
  case h_2 id hid =>
    split at hc
    case h_1 => cases hc
    case h_2 => cases hc
    case h_3 r hr =>
      obtain ⟨carried, hcarried, he⟩ := Option.map_eq_some_iff.mp hc
      cases he
      cases carried with
      | none => exact h.known hr
      | some r' =>
        refine carriedHandoff_known h (fun x hx => ?_) hcarried
        cases hx
        exact h.known hr

theorem brings_known (h : w.Linked plan head) (hk : w.Kept commits) {a : RunAct}
    (hp : w.permits a = true) : a.Brings (KnownHandoff w.captured) w.run := by
  cases a with
  | finish seat execution cut =>
    intro run hr hf
    simp only [WorkRun.permits, hr, Option.all_some] at hp
    unfold WorkRun.mayLeave at hp
    split at hp
    case h_1 => exact carries_none (of_decide_eq_true hp).1
    case h_2 => exact carries_none (of_decide_eq_true hp).1
    case h_3 hmode =>
      split at hp
      case h_2 => exact carries_none (of_decide_eq_true hp).1
      case h_1 handoff hfinal =>
        intro x hx
        rw [(of_decide_eq_true hp).1] at hx
        obtain ⟨r', rfl, rfl⟩ := Option.map_eq_some_iff.mp hx
        have hin : run.flight.inFlight = true := by
          rw [hf]
          rfl
        obtain ⟨held, latest, hheld, -, -, hagrees⟩ :=
          h.held seat run hr hin ((h.plans.seats seat run hr).2.1 ▸ hmode)
        rw [hheld] at hfinal
        cases hfinal' : held.finalization with
        | due => simp [hfinal'] at hfinal
        | threw => simp [hfinal'] at hfinal
        | returned handoff =>
          simp only [Option.map_some, hfinal', Option.some.injEq,
            Finalization.returned.injEq] at hfinal
          subst hfinal
          unfold Held.Agrees at hagrees
          rw [hfinal'] at hagrees
          exact h.known hagrees.1
  | settle seat handoff =>
    intro run execution hr hf
    have hmine := (hk.seats seat run hr).2 execution hf
    unfold carried
    split_ifs with hc
    · intro x hx
      have hin : w.inWorktree seat = true := by
        unfold WorkRun.inWorktree
        rw [hr]
        exact decide_eq_true hc.2
      have hnone : w.returnedHandoff seat = false := by
        unfold WorkRun.returnedHandoff
        rw [hr, Option.any_some, hf]
        simp only [Option.isNone_iff_eq_none.mp hc.1, Option.isSome_none]
      simp only [WorkRun.permits, hin, hnone, Bool.not_true, Bool.false_or,
        decide_eq_true_eq] at hp
      obtain ⟨found, hfound, he⟩ := Option.map_eq_some_iff.mp hp
      have hsome : found.map Record.toWorktreeRecord = some x := he.trans hx
      obtain ⟨r', rfl, rfl⟩ := Option.map_eq_some_iff.mp hsome
      refine carriedHandoff_known h (fun r hr' => ?_) hfound
      obtain ⟨held, hheld, rfl⟩ := Option.map_eq_some_iff.mp hr'
      exact hk.held seat held hheld
    · exact hmine
  | «open» seat handoff cut =>
    intro x hx
    simp only [WorkRun.permits, decide_eq_true_eq] at hp
    obtain ⟨found, hfound, he⟩ := Option.map_eq_some_iff.mp hp
    obtain ⟨r', rfl, rfl⟩ := Option.map_eq_some_iff.mp (he.trans hx)
    exact recoveredHandoff_known h hfound
  | _ => trivial

theorem follow_held {a : RunAct} {made n : ℕ} {held : Held} (h : w.follow a made t = some w')
    (hn : w'.held n = some held) : w.held n = some held ∨ w.retainedWorktree = some held.record ∨
      held.record.handoffCommit = none := by
  have hset : ∀ (v : WorkRun) (seat : ℕ) (new : Option Held), v.held = w.held →
      (v.setHeld seat new).held n = some held → w.held n = some held ∨ new = some held := by
    intro v seat new hv hset
    unfold WorkRun.setHeld at hset
    dsimp only at hset
    split_ifs at hset
    · exact Or.inr hset
    · rw [hv] at hset
      exact Or.inl hset
  have hstart : ∀ (seat : ℕ) (from? existing : Option Record),
      w.startWith seat made from? existing t = some w' →
        w.held n = some held ∨ existing = some held.record ∨
          held.record.handoffCommit = none := by
    intro seat from? existing hs
    cases WorkRun.startWith_cases hs with
    | idle => exact Or.inl hn
    | torn => exact Or.inl hn
    | executed =>
      rcases hset _ _ _ rfl hn with hold | hnew
      · exact Or.inl hold
      · obtain ⟨r, hr, rfl⟩ := Option.map_eq_some_iff.mp hnew
        exact Or.inr (Or.inl hr)
    | made id start k =>
      dsimp only at hn
      split_ifs at hn
      · rcases hset _ _ _ rfl hn with hold | hnew
        · exact Or.inl hold
        · cases hnew
          exact Or.inr (Or.inr rfl)
      · exact Or.inl hn
  have hplain : ∀ (seat : ℕ) (from? : Option Record),
      w.startWith seat made from? none t = some w' →
        w.held n = some held ∨ w.retainedWorktree = some held.record ∨
          held.record.handoffCommit = none := by
    intro seat from? hs
    rcases hstart seat from? none hs with hold | hnone | hnew
    · exact Or.inl hold
    · cases hnone
    · exact Or.inr (Or.inr hnew)
  cases a with
  | launch seat cut | launchUndone seat cut | retry seat cut | retryUndone seat cut =>
    exact hplain seat none h
  | resume seat continuing cut | resumeUndone seat continuing cut =>
    simp only [WorkRun.follow] at h
    split_ifs at h
    · exact hplain seat _ h
    · exact hstart seat none _ h
  | release seat released cut =>
    simp only [WorkRun.follow, Option.ite_none_right_eq_some] at h
    obtain ⟨-, h⟩ := h
    cases h
    exact Or.inl hn
  | abandon seat released cut =>
    simp only [WorkRun.follow] at h
    split_ifs at h <;> cases h <;> exact Or.inl hn
  | _ =>
    cases h
    exact Or.inl hn

theorem KnownHandoff.mono {captured captured' : List WorktreeRecord} {h : WorktreeRecord}
    (hk : KnownHandoff captured h) (hgrown : ∀ x ∈ captured, x ∈ captured') :
    KnownHandoff captured' h :=
  fun hne => hgrown h (hk hne)

theorem RunState.Carries.mono {K K' : WorktreeRecord → Prop} (h : s.Carries K)
    (hk : ∀ x, K x → K' x) : s.Carries K' := by
  intro n run hr
  exact ⟨fun e he x hx => hk x ((h n run hr).1 e he x hx),
    fun e he x hx => hk x ((h n run hr).2 e he x hx)⟩

/-- **Every step keeps what the seats know of the hand-offs.** -/
theorem kept_step {a : WorkAct} (h : w.Linked plan head) (hk : w.Kept commits)
    (hw : w.step D a = some w') : w'.Kept commits := by
  have hgrows := grows_step hw
  have hknown : ∀ x, KnownHandoff w.captured x → KnownHandoff w'.captured x :=
    fun x hx => hx.mono hgrows.captured
  have hfresh : ∀ x ∈ w'.captured, ∀ c, x.handoffCommit = some c → commits c = none := by
    intro x hx c hc
    by_cases hold : x ∈ w.captured
    · exact hk.fresh x hold c hc
    · have hnew := hgrows.fresh x hx hold c hc
      by_contra hne
      obtain ⟨commit, hcommit⟩ := Option.ne_none_iff_exists'.mp hne
      rw [hk.repo c commit hcommit] at hnew
      cases hnew
  have hsame : w'.run = w.run → (∀ n held, w'.held n = some held → ∃ held', w.held n = some held' ∧
      held'.record = held.record) → w'.Kept commits := by
    intro hrun hheld
    refine ⟨fun name commit hc => hgrows.repo name commit (hk.repo name commit hc), hfresh, ?_, ?_⟩
    · rw [hrun]
      exact hk.seats.mono hknown
    · intro n held hn
      obtain ⟨held', hn', he⟩ := hheld n held hn
      rw [← he]
      exact hknown _ (hk.held n held' hn')
  cases a with
  | edit seat files =>
    obtain ⟨held, -, hw⟩ := Option.bind_eq_some_iff.mp hw
    obtain ⟨u, -, rfl⟩ := Option.map_eq_some_iff.mp hw
    exact hsame rfl fun n held hn => ⟨held, hn, rfl⟩
  | tear id files =>
    obtain ⟨u, -, rfl⟩ := Option.map_eq_some_iff.mp hw
    exact hsame rfl fun n held hn => ⟨held, hn, rfl⟩
  | releaseThrows seat made =>
    simp only [WorkRun.step, Option.ite_none_right_eq_some] at hw
    obtain ⟨-, hw⟩ := hw
    cases hw
    exact hsame rfl fun n held hn => ⟨held, hn, rfl⟩
  | finalize seat c cut =>
    obtain ⟨held, hdue, rfl⟩ := Option.map_eq_some_iff.mp hw
    obtain ⟨-, -, -, -, hheld, -⟩ := WorkRun.heldDue_cases hdue
    refine hsame rfl fun n new hn => ?_
    change (if n = seat then some _ else w.held n) = some new at hn
    by_cases he : n = seat
    · rw [if_pos he] at hn
      cases hn
      subst he
      exact ⟨held, hheld, rfl⟩
    · rw [if_neg he] at hn
      exact ⟨new, hn, rfl⟩
  | life a made =>
    simp only [WorkRun.step, Option.ite_none_right_eq_some] at hw
    obtain ⟨hp, hw⟩ := hw
    obtain ⟨t, ht, hw⟩ := Option.bind_eq_some_iff.mp hw
    obtain ⟨hrun, hcaptured, -⟩ := follow_same hw
    refine ⟨fun name commit hc => hgrows.repo name commit (hk.repo name commit hc), hfresh, ?_, ?_⟩
    · rw [hrun]
      exact (carries_step (brings_known h hk hp) hk.seats ht).mono hknown
    · intro n held hn
      rcases follow_held hw hn with hold | hretained | hnone
      · exact hknown _ (hk.held n held hold)
      · obtain ⟨latest, id, -, -, hr, -⟩ := WorkRun.retainedWorktree_cases hretained
        exact hknown _ (h.known hr)
      · exact fun hne => absurd hnone hne

theorem kept_exec {as : List WorkAct} (h : exec (WorkRun.step D) (freshWork plan head commits) as =
    some w) : w.Linked plan head ∧ w.Kept commits := by
  refine exec_preserves (fun w => w.Linked plan head ∧ w.Kept commits) ?_ ?_ h
  · rintro v a v' ⟨hl, hk⟩ hv
    exact ⟨linked_step hl hv, kept_step hl hk hv⟩
  · exact ⟨linked_freshWork plan head commits, kept_freshWork plan head commits⟩

/-! ## Exports -/

theorem durableHandoff_captured (h : w.Linked plan head) {x : WorktreeRecord}
    (hx : x ∈ w.captured) : ∃ r, w.durableHandoff x = some r ∧
      w.store.records x.attemptId = some (.written r) ∧ r.toWorktreeRecord = x := by
  obtain ⟨r, hr, hsame, hne, -⟩ := h.captured x hx
  obtain ⟨c, hc⟩ := Option.ne_none_iff_exists'.mp hne
  obtain ⟨hid, hrun, -⟩ := h.sound.record _ r hr
  obtain ⟨href, -⟩ := h.sound.handoff _ r hr c hc
  refine ⟨r, ?_, hr, hsame⟩
  unfold WorkRun.durableHandoff
  rw [hr]
  dsimp only
  rw [if_pos]
  rw [h.root]
  exact ⟨hrun, hid, congrArg WorktreeRecord.handoffCommit hsame,
    congrArg WorktreeRecord.baselineHead hsame, href⟩

/-- The repository at the launch. -/
def launchRepo (commits : JsString → Option (Git.Commit JsString JsString)) : Repository :=
  ⟨commits, fun _ => none, fun _ => none⟩

theorem WorkRun.Kept.not_reaches (hk : w.Kept commits) (hp : Preflight plan head commits)
    (hcomplete : Complete (launchRepo commits)) {x : WorktreeRecord} (hx : x ∈ w.captured)
    (hc : x.handoffCommit = some c) : ¬ w.store.repo.Reaches head c := by
  have hextends : Extends (launchRepo commits) w.store.repo := hk.repo
  have hbase : ((launchRepo commits).commits head).isSome = true := by
    obtain ⟨commit, hcommit⟩ := hp.baseline
    exact Option.isSome_iff_exists.mpr ⟨commit, hcommit⟩
  exact hextends.not_reaches hcomplete hbase (hk.fresh x hx c hc)

/-- What the export of a seat's hand-off asks for: a status, the lease, a limit, and a patch within
it. -/
def Exports (P : ExportPlatform) (w : WorkRun) (seat : ℕ) (current still : Bool)
    (maxBytes : Option ℤ) (e : HandoffExport) : Prop :=
  ∃ run x c content, w.run.seats seat = some run ∧
    run.status ∈ Summaries.handoffExportStatuses ∧ w.handoffOf seat = some x ∧
    x.handoffCommit = some c ∧ w.run.canHold seat = true ∧
    durableStatusIs w.run.files run.status = true ∧ (current = true ∧ still = true) ∧
    limitOk maxBytes = true ∧ P.formatPatch w.store.repo w.head c = some content ∧
    content.length ≤ exportLimit maxBytes ∧ content ≠ [] ∧
    (handoffRef P x c content).check = true ∧ e = ⟨handoffRef P x c content, content⟩

theorem WorkRun.Kept.handoffOf (hk : w.Kept commits) {seat : ℕ} {x : WorktreeRecord}
    (hx : w.handoffOf seat = some x) (hc : x.handoffCommit = some c) : x ∈ w.captured := by
  unfold WorkRun.handoffOf at hx
  obtain ⟨execution, hresult, hhandoff⟩ := Option.bind_eq_some_iff.mp hx
  obtain ⟨run, hr, hresult⟩ := Option.bind_eq_some_iff.mp hresult
  refine (hk.seats seat run hr).1 execution hresult x hhandoff ?_
  rw [hc]
  exact Option.some_ne_none c

section Exported

variable {P : ExportPlatform} {e : HandoffExport} {seat : ℕ} {current still : Bool}
  {maxBytes : Option ℤ} {x : WorktreeRecord}

theorem WorkRun.Kept.export_iff (hk : w.Kept commits) (hl : w.Linked plan head)
    (hcount : P.Counts) (hp : Preflight plan head commits)
    (hcomplete : Complete (launchRepo commits)) (hx : x ∈ w.captured)
    (hc : x.handoffCommit = some c) (hr : w.store.records x.attemptId = some (.written r))
    (hsame : r.toWorktreeRecord = x) :
    exportWorktreeHandoff P w.store r ⟨w.run.files.plan.runId.val, current, still⟩ maxBytes =
        .ok e ↔
      (current = true ∧ still = true) ∧ limitOk maxBytes = true ∧
        ∃ content, P.formatPatch w.store.repo w.head c = some content ∧
          content.length ≤ exportLimit maxBytes ∧ content ≠ [] ∧
          (handoffRef P x c content).check = true ∧ e = ⟨handoffRef P x c content, content⟩ := by
  have hcommit : r.handoffCommit = some c := (congrArg WorktreeRecord.handoffCommit hsame).trans hc
  rw [export_ok_iff hl.sound hcount hr hcommit (hk.not_reaches hp hcomplete hx hc), hl.root,
    hl.baseline, hsame]
  simp only [true_and]

/-- A seat exports just when nothing but the identity could refuse it. -/
theorem WorkRun.Kept.exports_iff (hk : w.Kept commits) (hl : w.Linked plan head)
    (hcount : P.Counts) (hp : Preflight plan head commits)
    (hcomplete : Complete (launchRepo commits)) :
    w.exportHandoff P seat current still maxBytes = .ok e ↔
      Exports P w seat current still maxBytes e := by
  unfold WorkRun.exportHandoff Exports
  cases hr : w.run.seats seat with
  | none => simp [refused]
  | some run =>
    dsimp only
    by_cases hstatus : run.status ∈ Summaries.handoffExportStatuses
    case neg => simp [refused, hstatus]
    rw [if_neg (not_not.mpr hstatus)]
    cases hx : w.handoffOf seat with
    | none => simp [refused]
    | some x =>
      dsimp only
      cases hc : x.handoffCommit with
      | none => simp [refused, hc]
      | some c =>
        have hmem := hk.handoffOf hx hc
        obtain ⟨record, hrecord, hwritten, hsame⟩ := durableHandoff_captured hl hmem
        rw [if_neg (Option.some_ne_none c), hrecord]
        dsimp only
        by_cases hhold : w.run.canHold seat = true
        case neg => simp [hhold]
        by_cases hdurable : durableStatusIs w.run.files run.status = true
        case neg => simp [hhold, hdurable]
        rw [if_neg (by simp [hhold]), if_neg (by simp [hdurable]),
          hk.export_iff hl hcount hp hcomplete hmem hc hwritten hsame]
        constructor
        · rintro ⟨hlease, hlimit, content, hpatch⟩
          exact ⟨run, x, c, content, rfl, hstatus, rfl, hc, hhold, hdurable, hlease, hlimit, hpatch⟩
        · rintro ⟨run', x', c', content, hrun, -, hx', hc', -, -, hlease, hlimit, hpatch⟩
          cases hrun
          cases hx'
          cases hc.symm.trans hc'
          exact ⟨hlease, hlimit, content, hpatch⟩

end Exported

/-- **No check of its identity refuses the export of a hand-off**: in every run, a hand-off that a
seat remembers is exported exactly when its status, the lease, the limit and the patch admit it. -/
theorem export_admitted (P : ExportPlatform) (hcount : P.Counts) (D : Planner) (plan : Plan)
    (head : JsString) (commits : JsString → Option (Git.Commit JsString JsString))
    (hp : Preflight plan head commits) (hcomplete : Complete (launchRepo commits))
    (as : List WorkAct) (w : WorkRun)
    (h : exec (WorkRun.step D) (freshWork plan head commits) as = some w) (seat : ℕ)
    (current still : Bool) (maxBytes : Option ℤ) (e : HandoffExport) :
    w.exportHandoff P seat current still maxBytes = .ok e ↔
      Exports P w seat current still maxBytes e := by
  obtain ⟨hl, hk⟩ := kept_exec h
  exact hk.exports_iff hl hcount hp hcomplete

/-! ## A run with an export -/

/-- A run in a worktree. -/
def worktreePlan : Plan := planOf .worktree none

/-- A baseline of one file tree. -/
def baselineName : JsString := List.replicate 40 97

/-- The repository of the baseline. -/
def oneCommit : JsString → Option (Git.Commit JsString JsString) :=
  fun name => if name = baselineName then some ⟨ofString "files", []⟩ else none

/-- The hand-off of the first attempt. -/
def firstHandoff : WorktreeRecord where
  runId := ofString "run_a1"
  attemptId := ofString "attempt_a1"
  baselineHead := baselineName
  handoffCommit := some (List.replicate 40 98)
  handoffRef := some (handoffRefName (ofString "run_a1") (ofString "attempt_a1"))

/-- A launch, and an attempt that edits its worktree. -/
def untilEdited : List WorkAct :=
  [.life (.launch 0 5) 20, .life (.begin 0) 0, .life (.sandboxStarted 0 none) 0,
    .life (.sessionStarted 0) 0, .edit 0 (ofString "edited")]

/-- The end of an attempt with a hand-off. -/
def handedOff : List WorkAct :=
  [.life (.finish 0 { failed .proved with handoff := some firstHandoff } 5) 0,
    .life (.settle 0 none) 0]

/-- Patches that hold the new files, of ASCII. -/
noncomputable def wholeFiles : ExportPlatform where
  revListCount := fun repo base tip => (repo.range base tip).ncard
  formatPatch := fun repo _ tip => (repo.treeOf tip).bind fun tree =>
    if tree.all (fun u => decide (u < 128)) then some (tree.map UInt16.toUInt8) else none
  sha256 := fun _ => List.replicate 64 97

theorem complete_oneCommit : Complete (launchRepo oneCommit) := by
  rintro child parent ⟨commit, hcommit, hmem⟩
  change oneCommit child = some commit at hcommit
  unfold oneCommit at hcommit
  split_ifs at hcommit
  cases hcommit
  cases hmem

theorem preflight_oneCommit : Preflight worktreePlan baselineName oneCommit :=
  ⟨⟨⟨ofString "files", []⟩, if_pos rfl⟩, (fun c hc => by cases hc)⟩

/-- The export of the first hand-off. -/
noncomputable def firstExport : HandoffExport :=
  ⟨handoffRef wholeFiles firstHandoff (List.replicate 40 98)
    ((ofString "edited").map UInt16.toUInt8), (ofString "edited").map UInt16.toUInt8⟩

/-- The whole run: an attempt edits its worktree and ends with a hand-off. -/
def untilHandedOff : List WorkAct :=
  untilEdited ++ .finalize 0 (List.replicate 40 98) 9 :: handedOff

theorem untilHandedOff_exports : ∃ w,
    exec (WorkRun.step sameDigest) (freshWork worktreePlan baselineName oneCommit)
      untilHandedOff = some w ∧ w.handoffOf 0 = some firstHandoff ∧
      Exports wholeFiles w 0 true true none firstExport := by
  have hrun : (exec (WorkRun.step sameDigest) (freshWork worktreePlan baselineName oneCommit)
      untilHandedOff).any (fun w => decide
        ((w.run.seats 0).any (fun run =>
            decide (run.status ∈ Summaries.handoffExportStatuses ∧
              durableStatusIs w.run.files run.status = true)) = true ∧
          w.handoffOf 0 = some firstHandoff ∧ w.run.canHold 0 = true ∧
          wholeFiles.formatPatch w.store.repo w.head (List.replicate 40 98) =
            some ((ofString "edited").map UInt16.toUInt8))) = true := by
    decide +kernel
  obtain ⟨w, hw, hchecks⟩ := (Option.any_eq_true _ _).mp hrun
  obtain ⟨hseat, hhandoff, hhold, hpatch⟩ := of_decide_eq_true hchecks
  obtain ⟨run, hr, hstatus⟩ := (Option.any_eq_true _ _).mp hseat
  obtain ⟨hstatus, hdurable⟩ := of_decide_eq_true hstatus
  exact ⟨w, hw, hhandoff, run, firstHandoff, _, _, hr, hstatus, hhandoff, rfl, hhold, hdurable,
    ⟨rfl, rfl⟩, by decide, hpatch, by decide, by decide, by decide +kernel, rfl⟩

/-- The first hand-off is exported. -/
theorem export_admitted_edited : ∃ w,
    exec (WorkRun.step sameDigest) (freshWork worktreePlan baselineName oneCommit)
      untilHandedOff = some w ∧ w.exportHandoff wholeFiles 0 true true none = .ok firstExport := by
  obtain ⟨w, hw, -, hexports⟩ := untilHandedOff_exports
  exact ⟨w, hw, (export_admitted wholeFiles (fun _ _ _ => rfl) sameDigest worktreePlan
    baselineName oneCommit preflight_oneCommit complete_oneCommit _ w hw 0 true true none _).mpr
      hexports⟩

/-! ## What is exported -/

/-- A finalization that writes its record has made the commit of the files of the worktree. -/
theorem finalize_commit {n : ℕ} (hchanged :
    (advance n (finalizeWorktreeHandoff store r c) store).1.records ≠ store.records) :
    ∃ v, store.repo.worktrees r.attemptId = some v ∧
      (advance n (finalizeWorktreeHandoff store r c) store).1.repo.commits c =
        some ⟨v.files, [r.baselineHead]⟩ := by
  have hmade : ∀ v k, 2 ≤ k →
      (capturedAt store r c v k).repo.commits c = some ⟨v.files, [r.baselineHead]⟩ := by
    intro v k hk
    match k with
    | 0 | 1 => omega
    | 2 | 3 | 4 | _ + 5 => exact Function.update_self _ _ _
  have hend := finalize_states store r c n
  generalize advance n (finalizeWorktreeHandoff store r c) store = out at hend hchanged
  cases hend with
  | unchecked => exact absurd rfl hchanged
  | staged v hcap => exact absurd rfl hchanged
  | unchanged v hcap => exact absurd rfl hchanged
  | cut v hcap hnew k hlow => exact ⟨v, hcap.worktree, hmade v k hlow⟩
  | captured v hcap => exact ⟨v, hcap.worktree, hmade v 5 (by omega)⟩

theorem grows_exec {as : List WorkAct} (h : exec (WorkRun.step D) w as = some w') :
    Extends w.store.repo w'.store.repo ∧ ∀ x ∈ w.captured, x ∈ w'.captured := by
  refine exec_preserves (fun v => Extends w.store.repo v.store.repo ∧
    ∀ x ∈ w.captured, x ∈ v.captured) ?_ ⟨Extends.refl _, fun x hx => hx⟩ h
  rintro v a v' ⟨hrepo, hcaptured⟩ hv
  have hgrows := grows_step hv
  exact ⟨hrepo.trans hgrows.repo, fun x hx => hgrows.captured x (hcaptured x hx)⟩

/-- **A captured hand-off is kept**: in every later state its record is there, its commit has the
baseline as its only parent, its ref pins it, and no other hand-off has the same commit. -/
theorem handoffs_kept (D : Planner) (plan : Plan) (head : JsString)
    (commits : JsString → Option (Git.Commit JsString JsString)) (before after : List WorkAct)
    (w u : WorkRun) (hbefore : exec (WorkRun.step D) (freshWork plan head commits) before = some w)
    (hafter : exec (WorkRun.step D) w after = some u) (x : WorktreeRecord)
    (hx : x ∈ w.captured) :
    x ∈ u.captured ∧ ∃ c tree, x.handoffCommit = some c ∧
      (w.store.repo.commits c = some ⟨tree, [head]⟩ ∧
        u.store.repo.commits c = some ⟨tree, [head]⟩) ∧
      u.store.repo.refs (.handoff x.attemptId) = some c ∧
      (∃ r, u.store.records x.attemptId = some (.written r) ∧ r.toWorktreeRecord = x) ∧
      ∀ y ∈ u.captured, y.handoffCommit = some c → y = x := by
  obtain ⟨hl, -⟩ := kept_exec hbefore
  have hreach : exec (WorkRun.step D) (freshWork plan head commits) (before ++ after) = some u := by
    rw [exec_append, hbefore, Option.bind_some]
    exact hafter
  obtain ⟨hlu, -⟩ := kept_exec hreach
  obtain ⟨hrepo, hkept⟩ := grows_exec hafter
  have hmem := hkept x hx
  obtain ⟨r, hr, rfl, hne, -⟩ := hlu.captured x hmem
  obtain ⟨c, hc⟩ := Option.ne_none_iff_exists'.mp hne
  obtain ⟨old, hold, hsame, -, -⟩ := hl.captured _ hx
  have hcommit : old.handoffCommit = some c :=
    (congrArg WorktreeRecord.handoffCommit hsame).trans hc
  obtain ⟨-, -, tree, hmade⟩ := hl.sound.handoff _ _ hold c hcommit
  obtain ⟨-, hpin, -⟩ := hlu.sound.handoff _ _ hr c hc
  refine ⟨hmem, c, tree, hc, ⟨hmade, hrepo c _ hmade⟩, hpin, ⟨r, hr, rfl⟩, ?_⟩
  intro y hy hyc
  obtain ⟨r', hr', rfl, -, -⟩ := hlu.captured y hy
  have hid := hlu.distinct _ _ _ _ c hr' hr hyc hc
  rw [hid, hr] at hr'
  cases hr'
  rfl

/-- The first hand-off after the attempt has ended. -/
theorem handoffs_kept_edited : ∃ u,
    exec (WorkRun.step sameDigest) (freshWork worktreePlan baselineName oneCommit)
      untilHandedOff = some u ∧
    u.store.repo.refs (.handoff (ofString "attempt_a1")) = some (List.replicate 40 98) := by
  obtain ⟨u, hu, -, -⟩ := untilHandedOff_exports
  have hreach := hu
  unfold untilHandedOff at hreach
  rw [List.append_cons, exec_append] at hreach
  obtain ⟨w, hw, hreach⟩ := Option.bind_eq_some_iff.mp hreach
  have hcaptured : (exec (WorkRun.step sameDigest)
      (freshWork worktreePlan baselineName oneCommit)
      (untilEdited ++ [.finalize 0 (List.replicate 40 98) 9])).all (fun w =>
        decide (firstHandoff ∈ w.captured)) = true := by
    decide +kernel
  rw [hw, Option.all_some] at hcaptured
  obtain ⟨-, c, tree, hc, -, hpin, -⟩ := handoffs_kept sameDigest worktreePlan baselineName
    oneCommit _ _ w u hw hreach firstHandoff (of_decide_eq_true hcaptured)
  cases hc
  exact ⟨u, hu, hpin⟩

/-- **What is exported is what the attempt had left**: when the finalization of a worktree has
captured a hand-off, then in every later state every export of it is a patch that makes the files of
the worktree from those of the baseline. -/
theorem export_patches (P : ExportPlatform) (hcount : P.Counts)
    (patched : JsString → List UInt8 → Option JsString) (hpatches : P.Patches patched)
    (D : Planner) (plan : Plan) (head : JsString)
    (commits : JsString → Option (Git.Commit JsString JsString))
    (hp : Preflight plan head commits) (hcomplete : Complete (launchRepo commits))
    (before after : List WorkAct) (w w' u : WorkRun) (seat : ℕ) (c : JsString) (cut : ℕ)
    (hbefore : exec (WorkRun.step D) (freshWork plan head commits) before = some w)
    (hfinalize : w.step D (.finalize seat c cut) = some w') (hcaptured : w'.captured ≠ w.captured)
    (hafter : exec (WorkRun.step D) w' after = some u) :
    ∃ held v baseline, w.heldDue seat = some held ∧
      w.store.repo.worktrees held.record.attemptId = some v ∧ commits head = some baseline ∧
      (held.record.updated c).toWorktreeRecord ∈ u.captured ∧
      ∀ reader current still maxBytes e,
        u.handoffOf reader = some (held.record.updated c).toWorktreeRecord →
          u.exportHandoff P reader current still maxBytes = .ok e →
            patched baseline.tree e.content = some v.files := by
  obtain ⟨hl, -⟩ := kept_exec hbefore
  have hreach : exec (WorkRun.step D) (freshWork plan head commits)
      (before ++ .finalize seat c cut :: after) = some u := by
    rw [exec_append, hbefore, Option.bind_some, exec_cons, hfinalize, Option.bind_some]
    exact hafter
  obtain ⟨hlu, hku⟩ := kept_exec hreach
  obtain ⟨held, hdue, rfl⟩ := Option.map_eq_some_iff.mp hfinalize
  obtain ⟨-, hdisk, -⟩ := hl.held_due hdue
  obtain ⟨-, -, hbase⟩ := hl.sound.record _ _ hdisk
  obtain ⟨hrepo, hkept⟩ := grows_exec hafter
  have hgrown : (w.finalizeWith seat held c cut).captured =
      w.captured ++ [(held.record.updated c).toWorktreeRecord] := by
    rcases finalizeWith_captured w seat held c cut with hsame | ⟨hgrown, -⟩
    · exact absurd hsame hcaptured
    · exact hgrown
  have hchanged : (advance cut (finalizeWorktreeHandoff w.store held.record c) w.store).1.records ≠
      w.store.records := by
    intro hsame
    refine hcaptured ?_
    unfold WorkRun.finalizeWith WorkRun.setHeld
    simp [hsame]
  obtain ⟨v, hv, hcommit⟩ := finalize_commit hchanged
  obtain ⟨baseline, hbaseline⟩ := hp.baseline
  have hmem : (held.record.updated c).toWorktreeRecord ∈ u.captured := by
    refine hkept _ ?_
    rw [hgrown]
    exact List.mem_append_right _ List.mem_cons_self
  refine ⟨held, v, baseline, hdue, hv, hbaseline, hmem, ?_⟩
  intro reader current still maxBytes e hreads hok
  obtain ⟨run, x, c', content, -, -, hx, hc', -, -, -, -, hpatch, -, hne, -, rfl⟩ :=
    (hku.exports_iff hlu hcount hp hcomplete).mp hok
  cases hreads.symm.trans hx
  cases hc'
  have hlater : u.store.repo.commits c = some ⟨v.files, [head]⟩ := by
    rw [← hbase]
    exact hrepo c _ hcommit
  have htree : u.store.repo.treeOf head = some baseline.tree := by
    unfold Git.Repository.treeOf
    rw [hku.repo head baseline hbaseline, Option.map_some]
  rw [hlu.baseline] at hpatch
  exact patched_export hpatches hlater (hku.not_reaches hp hcomplete hmem rfl) htree hpatch hne

/-- The files of a patch. -/
def filesOfPatch (_ : JsString) (content : List UInt8) : Option JsString :=
  some (content.map UInt8.toUInt16)

theorem patches_wholeFiles : wholeFiles.Patches filesOfPatch := by
  intro repo base tip tree baseTree content _ htip _ hpatch _
  obtain ⟨found, hfound, hpatch⟩ := Option.bind_eq_some_iff.mp hpatch
  unfold Git.Repository.treeOf at hfound
  rw [htip, Option.map_some, Option.some.injEq] at hfound
  subst hfound
  rw [Option.ite_none_right_eq_some] at hpatch
  obtain ⟨hascii, hcontent⟩ := hpatch
  cases hcontent
  unfold filesOfPatch
  rw [List.map_map, Option.some.injEq]
  refine (List.map_congr_left fun u hu => ?_).trans (List.map_id _)
  have hlow : u < 128 := of_decide_eq_true (List.all_eq_true.mp hascii u hu)
  rw [UInt16.lt_iff_toNat_lt] at hlow
  change u.toNat < 128 at hlow
  apply UInt16.toNat.inj
  simp only [Function.comp_apply, UInt8.toNat_toUInt16, UInt16.toNat_toUInt8, id_eq]
  omega

/-- The patch of the first hand-off makes the files as the attempt had left them. -/
theorem export_patches_edited : ∃ w u v,
    exec (WorkRun.step sameDigest) (freshWork worktreePlan baselineName oneCommit) untilEdited =
      some w ∧ w.store.repo.worktrees (ofString "attempt_a1") = some v ∧
    exec (WorkRun.step sameDigest) (freshWork worktreePlan baselineName oneCommit)
      untilHandedOff = some u ∧
    u.exportHandoff wholeFiles 0 true true none = .ok firstExport ∧
    filesOfPatch (ofString "files") firstExport.content = some v.files := by
  obtain ⟨u, hu, hhandoff, hexports⟩ := untilHandedOff_exports
  obtain ⟨hl, hk⟩ := kept_exec hu
  have hexported := (hk.exports_iff hl (fun _ _ _ => rfl) preflight_oneCommit
    complete_oneCommit).mpr hexports
  have hreach := hu
  unfold untilHandedOff at hreach
  rw [exec_append] at hreach
  obtain ⟨w, hw, hreach⟩ := Option.bind_eq_some_iff.mp hreach
  rw [exec_cons] at hreach
  obtain ⟨w', hw', hreach⟩ := Option.bind_eq_some_iff.mp hreach
  have hfinalize : (exec (WorkRun.step sameDigest)
      (freshWork worktreePlan baselineName oneCommit) untilEdited).all (fun w =>
        (w.step sameDigest (.finalize 0 (List.replicate 40 98) 9)).all fun w' =>
          decide (w'.captured ≠ w.captured ∧ (w.heldDue 0).all (fun held =>
            decide (held.record.attemptId = ofString "attempt_a1" ∧
              (held.record.updated (List.replicate 40 98)).toWorktreeRecord =
                firstHandoff)) = true)) = true := by
    decide +kernel
  rw [hw, Option.all_some, hw', Option.all_some] at hfinalize
  obtain ⟨hcaptured, hrecord⟩ := of_decide_eq_true hfinalize
  obtain ⟨held, v, baseline, hdue, hv, hbaseline, -, hpatch⟩ := export_patches wholeFiles
    (fun _ _ _ => rfl) filesOfPatch patches_wholeFiles sameDigest worktreePlan baselineName
    oneCommit preflight_oneCommit complete_oneCommit _ _ w w' u 0 _ 9 hw hw' hcaptured hreach
  rw [hdue, Option.all_some] at hrecord
  obtain ⟨hid, hsame⟩ := of_decide_eq_true hrecord
  rw [hid] at hv
  cases hbaseline
  exact ⟨w, u, v, hw, hv, hu, hexported,
    hpatch 0 true true none _ (hhandoff.trans (congrArg some hsame.symm)) hexported⟩

end RunLife

end PiSubagent
