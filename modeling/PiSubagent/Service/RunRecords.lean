import PiSubagent.Service.RunFrames
import PiSubagent.Service.RunWorktrees
import PiSubagent.Workspace.Handoffs

/-!
# The records of a run's worktrees

* `WorkRun.Linked`: the attempt records name worktrees whose records are there, what the seats hold
  of them is what the records say, and the hand-offs captured so far are those of the records.
* **`linked_step`**: every step keeps it.
-/

namespace PiSubagent

open JsonText

namespace RunLife

open Scripts Worktree
open RunState (setSeat perform kill)

variable {D : Planner} {plan : Plan} {head : JsString} {w w' : WorkRun} {t : RunState}

/-- An attempt of a worktree run names a worktree whose record is written. -/
def RecordedAttempt (mode : WorkspaceMode) (s : Store) (a : AttemptRecord) : Prop :=
  match a.worktreeAttemptId with
  | some id => mode = .worktree ∧ ∃ r, s.records id = some (.written r)
  | none => mode = .readOnly

/-- What a seat holds of a worktree is what its record says. -/
def Held.Agrees (h : Held) (s : Store) : Prop :=
  match h.finalization with
  | .due => s.records h.record.attemptId = some (.written h.record)
  | .threw => s.records h.record.attemptId = some (.written h.record) ∨
    ∃ c, s.records h.record.attemptId = some (.written (h.record.updated c))
  | .returned none => s.records h.record.attemptId = some (.written h.record)
  | .returned (some r) =>
    s.records h.record.attemptId = some (.written r) ∧ ∃ c, r = h.record.updated c

/-- The records of a run agree with its attempts, its seats and its history. -/
structure WorkRun.Linked (plan : Plan) (head : JsString) (w : WorkRun) : Prop where
  disciplined : w.run.Disciplined
  plans : w.run.Plans plan
  lineage : Lineage w.run
  root : w.run.files.plan = plan
  baseline : w.head = head
  sound : Worktree.Sound plan.runId.val head w.store
  reserved : ∀ id, w.store.records id ≠ none ↔ id ∈ w.run.files.worktrees
  attempts : ∀ a ∈ w.run.files.attempts, RecordedAttempt plan.mode w.store a
  held : ∀ n run, w.run.seats n = some run → run.flight.inFlight = true →
    plan.mode = .worktree → ∃ h latest, w.held n = some h ∧ w.run.files.latest = some latest ∧
      latest.worktreeAttemptId = some h.record.attemptId ∧ h.Agrees w.store
  captured : ∀ x ∈ w.captured, ∃ r, w.store.records x.attemptId = some (.written r) ∧
    r.toWorktreeRecord = x ∧ r.handoffCommit ≠ none ∧
      ∃ a ∈ w.run.files.attempts, a.worktreeAttemptId = some x.attemptId
  recorded : ∀ id r, w.store.records id = some (.written r) → r.handoffCommit ≠ none →
    r.toWorktreeRecord ∈ w.captured
  distinct : ∀ id id' r r' c, w.store.records id = some (.written r) →
    w.store.records id' = some (.written r') → r.handoffCommit = some c →
      r'.handoffCommit = some c → id = id'

theorem linked_freshWork (plan : Plan) (head : JsString)
    (commits : JsString → Option (Git.Commit JsString JsString)) :
    (freshWork plan head commits).Linked plan head where
  disciplined := disciplined_freshRun plan
  plans := plans_freshRun plan
  lineage := lineage_freshRun plan
  root := rfl
  baseline := rfl
  sound := ⟨by simp [freshWork], by simp [freshWork]⟩
  reserved := by simp [freshWork, freshRun]
  attempts := by simp [freshWork, freshRun]
  held := by simp [freshWork, freshRun]
  captured := by simp [freshWork]
  recorded := by simp [freshWork]
  distinct := by simp [freshWork]

/-! ## The run -/

/-- What a step of the run keeps whatever the worktrees are. -/
theorem WorkRun.Linked.run_step (h : w.Linked plan head) {a : RunAct}
    (hp : w.permits a = true) (ht : w.run.step D a = some t) :
    t.Disciplined ∧ t.Plans plan ∧ Lineage t := by
  refine ⟨disciplined_step h.disciplined ht, plans_step h.plans ht,
    lineage_step h.lineage h.disciplined ?_ ht⟩
  intro hl
  have hall : ∀ seat cut, w.permits (.launch seat cut) = true →
      ∀ a ∈ w.run.files.attempts, a.kind = .initial := by
    intro seat cut hp a ha
    simp only [WorkRun.permits, Bool.and_eq_true, List.all_eq_true, decide_eq_true_eq] at hp
    exact hp.2 a ha
  cases a with
  | launch seat cut => exact hall seat cut hp
  | launchUndone seat cut => exact hall seat cut hp
  | _ => cases hl

/-- A step after which the worktrees and their records are as before. -/
theorem WorkRun.Linked.frame (h : w.Linked plan head) {a : RunAct} (ha : a.isStart = false)
    (hp : w.permits a = true) (ht : w.run.step D a = some t) :
    { w with run := t }.Linked plan head := by
  obtain ⟨hd, hpl, hl⟩ := h.run_step hp ht
  have hf := step_frame ha ht
  have hlatest : t.files.latest = w.run.files.latest := by
    unfold RunFiles.latest
    rw [hf.attempts]
  refine ⟨hd, hpl, hl, hf.plan.trans h.root, h.baseline, h.sound, ?_, ?_, ?_, ?_, h.recorded,
    h.distinct⟩
  · intro id
    show _ ↔ id ∈ t.files.worktrees
    rw [hf.worktrees]
    exact h.reserved id
  · intro a' ha'
    refine h.attempts a' ?_
    rw [← hf.attempts]
    exact ha'
  · intro n run' hn hin hmode
    obtain ⟨run, hr, hfl, -⟩ := hf.flights n run' hn hin
    obtain ⟨held, latest, hheld, hlat, hrest⟩ := h.held n run hr hfl hmode
    exact ⟨held, latest, hheld, hlatest.trans hlat, hrest⟩
  · intro x hx
    obtain ⟨r, hr, hxr, hc, a', ha', hid⟩ := h.captured x hx
    refine ⟨r, hr, hxr, hc, a', ?_, hid⟩
    show a' ∈ t.files.attempts
    rw [hf.attempts]
    exact ha'

/-! ## Releases -/

theorem releasedFrom_written {s u : Store} (h : ReleasedFrom s u) {id : JsString} {r' : Record}
    (hr : u.records id = some (.written r')) : ∃ r, s.records id = some (.written r) ∧
      r'.toWorktreeRecord = r.toWorktreeRecord ∧ r'.startCommit = r.startCommit := by
  rcases h id with hsame | ⟨r, hs, hu⟩
  · exact ⟨r', hsame.symm.trans hr, rfl, rfl⟩
  · rw [hu] at hr
    cases hr
    exact ⟨r, hs, rfl, rfl⟩

theorem releasedFrom_writes {s u : Store} (h : ReleasedFrom s u) {id : JsString} {r : Record}
    (hr : s.records id = some (.written r)) : ∃ r', u.records id = some (.written r') ∧
      r'.toWorktreeRecord = r.toWorktreeRecord ∧ r'.startCommit = r.startCommit := by
  rcases h id with hsame | ⟨r', hs, hu⟩
  · exact ⟨r, hsame.trans hr, rfl, rfl⟩
  · rw [hs] at hr
    cases hr
    exact ⟨_, hu, rfl, rfl⟩

/-- Worktrees are released while nothing is in flight. -/
theorem WorkRun.Linked.releases (h : w.Linked plan head)
    (hidle : ∀ n run, w.run.seats n = some run → run.flight.inFlight = false) {u : Store}
    (hu : Released plan.runId.val head w.store u) : { w with store := u }.Linked plan head := by
  refine ⟨h.disciplined, h.plans, h.lineage, h.root, h.baseline, hu.sound, ?_, ?_, ?_, ?_, ?_, ?_⟩
  · intro id
    rw [← h.reserved id]
    show u.records id ≠ none ↔ _
    rcases hu.records id with hsame | ⟨r, hs, hu⟩
    · rw [hsame]
    · simp [hs, hu]
  · intro a ha
    have hrec := h.attempts a ha
    unfold RecordedAttempt at hrec ⊢
    split at hrec
    case h_1 id hid =>
      obtain ⟨r', hr', -⟩ := releasedFrom_writes hu.records hrec.2.choose_spec
      exact ⟨hrec.1, r', hr'⟩
    case h_2 => exact hrec
  · intro n run hn hin
    rw [hidle n run hn] at hin
    cases hin
  · intro x hx
    obtain ⟨r, hr, hxr, hc, ha⟩ := h.captured x hx
    obtain ⟨r', hr', hsame, -⟩ := releasedFrom_writes hu.records hr
    have hc' : r'.handoffCommit = r.handoffCommit := congrArg WorktreeRecord.handoffCommit hsame
    exact ⟨r', hr', hsame.trans hxr, hc' ▸ hc, ha⟩
  · intro id r' hr' hc'
    obtain ⟨r, hr, hsame, -⟩ := releasedFrom_written hu.records hr'
    have hc : r'.handoffCommit = r.handoffCommit := congrArg WorktreeRecord.handoffCommit hsame
    rw [hsame]
    exact h.recorded id r hr (hc ▸ hc')
  · intro id id' r1 r2 c h1 h2 hc1 hc2
    obtain ⟨r, hr, hsame, -⟩ := releasedFrom_written hu.records h1
    obtain ⟨r', hr', hsame', -⟩ := releasedFrom_written hu.records h2
    have e1 : r1.handoffCommit = r.handoffCommit := congrArg WorktreeRecord.handoffCommit hsame
    have e2 : r2.handoffCommit = r'.handoffCommit := congrArg WorktreeRecord.handoffCommit hsame'
    exact h.distinct id id' r r' c hr hr' (e1 ▸ hc1) (e2 ▸ hc2)

/-- A run whose lease the seat can have, and that it may release, has nothing in flight. -/
theorem idle_of_release {s : RunState} (hs : s.Disciplined) {seat : ℕ} {released : Bool}
    {es : List Effect} (h : releaseEffects s seat released = some es) :
    ∀ n run, s.seats n = some run → run.flight.inFlight = false := by
  obtain ⟨run, hr, ⟨h1, h2, -⟩, hhold, -⟩ := releaseEffects_cases h
  intro n run' hn
  by_contra hf
  rw [Bool.not_eq_false] at hf
  have hlease := hs.busy n run' hn hf
  have hseat : n = seat := by
    have hor := of_decide_eq_true hhold
    rw [hlease] at hor
    rcases hor with hor | hor
    · cases hor
    · exact Option.some.inj hor
  subst hseat
  rw [hr] at hn
  cases hn
  rw [(hs.rests n run hr).not_inFlight h1 h2] at hf
  cases hf

theorem WorkRun.Linked.releaseSteps (h : w.Linked plan head) (seat n : ℕ) :
    Released plan.runId.val head w.store (advance n (w.releaseSteps seat) w.store).1 := by
  unfold WorkRun.releaseSteps
  split_ifs
  · exact sound_release h.sound _ n
  · rw [advance_nil]
    exact ⟨h.sound, ReleasedFrom.refl _⟩

/-! ## Attempts -/

theorem WorkRun.heldDue_cases {seat : ℕ} {held : Held} (h : w.heldDue seat = some held) :
    ∃ run, w.run.seats seat = some run ∧ run.flight = .running true ∧ run.plan.mode = .worktree ∧
      w.held seat = some held ∧ held.finalization = .due := by
  unfold WorkRun.heldDue at h
  split at h
  case h_2 => cases h
  case h_1 run held' hr hh =>
    split at h
    case h_2 => cases h
    case h_1 hf =>
      split_ifs at h with hc
      cases h
      exact ⟨run, hr, hf, hc.1, hh, hc.2⟩

theorem WorkRun.Linked.held_due (h : w.Linked plan head) {seat : ℕ} {held : Held}
    (hd : w.heldDue seat = some held) :
    plan.mode = .worktree ∧ w.store.records held.record.attemptId = some (.written held.record) ∧
      (∃ latest, w.run.files.latest = some latest ∧
        latest.worktreeAttemptId = some held.record.attemptId) ∧
      ∀ n run, w.run.seats n = some run → run.flight.inFlight = true → n = seat := by
  obtain ⟨run, hr, hf, hm, hh, hdue⟩ := WorkRun.heldDue_cases hd
  have hin : run.flight.inFlight = true := by
    rw [hf]
    rfl
  have hmode : plan.mode = .worktree := (h.plans.seats seat run hr).2.1 ▸ hm
  obtain ⟨held', latest, hh', hlat, hid, hagrees⟩ := h.held seat run hr hin hmode
  rw [hh] at hh'
  cases hh'
  unfold Held.Agrees at hagrees
  rw [hdue] at hagrees
  refine ⟨hmode, hagrees, ⟨latest, hlat, hid⟩, ?_⟩
  intro n run' hn hf'
  have h1 := h.disciplined.busy n run' hn hf'
  rw [h.disciplined.busy seat run hr hin] at h1
  exact (Option.some.inj h1).symm

theorem WorkRun.Linked.edits (h : w.Linked plan head)
    (worktrees : JsString → Option (Git.Worktree JsString RefName)) :
    { w with store := { w.store with
      repo := { w.store.repo with worktrees := worktrees } } }.Linked plan head :=
  ⟨h.disciplined, h.plans, h.lineage, h.root, h.baseline, h.sound.worktrees worktrees, h.reserved,
    h.attempts, h.held, h.captured, h.recorded, h.distinct⟩

/-- **A finalization, left anywhere.** -/
theorem WorkRun.Linked.finalizes (h : w.Linked plan head) {seat cut : ℕ} {held : Held}
    {c : JsString} (hd : w.heldDue seat = some held) :
    (w.finalizeWith seat held c cut).Linked plan head := by
  obtain ⟨hmode, hdisk, ⟨latest, hlat, hid⟩, honly⟩ := h.held_due hd
  obtain ⟨-, hrun, hbase⟩ := h.sound.record _ _ hdisk
  have hsound := sound_finalize (c := c) h.sound hrun hbase cut
  have hrecords := finalize_records w.store held.record c cut
  unfold WorkRun.finalizeWith
  generalize advance cut (finalizeWorktreeHandoff w.store held.record c) w.store = out at hsound hrecords
  rcases hrecords with ⟨hsame, hnone⟩ | ⟨huncaptured, hnew, hrec, hfin⟩
  · have hnot : ¬ out.1.records held.record.attemptId ≠ w.store.records held.record.attemptId := by
      rw [hsame]
      simp
    simp only [hnot, if_false, List.append_nil]
    refine ⟨h.disciplined, h.plans, h.lineage, h.root, h.baseline, hsound, ?_, ?_, ?_, ?_, ?_, ?_⟩
    · intro id
      show out.1.records id ≠ none ↔ _
      rw [hsame]
      exact h.reserved id
    · intro a ha
      have hrec := h.attempts a ha
      unfold RecordedAttempt at hrec ⊢
      show match a.worktreeAttemptId with
        | some id => plan.mode = .worktree ∧ ∃ r, out.1.records id = some (.written r)
        | none => plan.mode = .readOnly
      rw [hsame]
      exact hrec
    · intro n run hn hf hm
      obtain rfl := honly n run hn hf
      refine ⟨_, latest, if_pos rfl, hlat, hid, ?_⟩
      unfold Held.Agrees
      cases hfin : out.2 with
      | true =>
        simp only [if_true, hnone hfin]
        show out.1.records _ = _
        rw [hsame]
        exact hdisk
      | false =>
        left
        show out.1.records _ = _
        rw [hsame]
        exact hdisk
    · intro x hx
      obtain ⟨r, hr, hrest⟩ := h.captured x hx
      refine ⟨r, ?_, hrest⟩
      show out.1.records _ = _
      rw [hsame]
      exact hr
    · intro id r hr
      refine h.recorded id r ?_
      rw [← hsame]
      exact hr
    · intro id id' r r' c' hr hr'
      refine h.distinct id id' r r' c' ?_ ?_
      · rw [← hsame]
        exact hr
      · rw [← hsame]
        exact hr'
  · have hself : out.1.records held.record.attemptId = some (.written (held.record.updated c)) := by
      rw [hrec, Function.update_self]
    have hother : ∀ id, id ≠ held.record.attemptId → out.1.records id = w.store.records id := by
      intro id hne
      rw [hrec, Function.update_of_ne hne]
    have hchanged : out.1.records held.record.attemptId ≠
        w.store.records held.record.attemptId := by
      rw [hself, hdisk]
      intro heq
      have hc : some c = held.record.handoffCommit :=
        congrArg (fun r => r.toWorktreeRecord.handoffCommit)
          (RecordFile.written.inj (Option.some.inj heq))
      rw [huncaptured] at hc
      cases hc
    have hpast : ∀ id r, w.store.records id = some (.written r) → r.handoffCommit ≠ none →
        id ≠ held.record.attemptId := by
      rintro id r hr hc rfl
      rw [hdisk] at hr
      cases hr
      exact hc huncaptured
    have hwritten : ∀ id r, out.1.records id = some (.written r) →
        (id = held.record.attemptId ∧ r = held.record.updated c) ∨
          (id ≠ held.record.attemptId ∧ w.store.records id = some (.written r)) := by
      intro id r hr
      by_cases he : id = held.record.attemptId
      · subst he
        rw [hself] at hr
        cases hr
        exact Or.inl ⟨rfl, rfl⟩
      · rw [hother id he] at hr
        exact Or.inr ⟨he, hr⟩
    have hfresh : ∀ id r, w.store.records id = some (.written r) → r.handoffCommit ≠ some c := by
      intro id r hr hc
      obtain ⟨-, -, tree, hcommit⟩ := h.sound.handoff id r hr c hc
      rw [hnew] at hcommit
      cases hcommit
    simp only [hchanged, ne_eq, not_false_eq_true, if_true, hfin]
    refine ⟨h.disciplined, h.plans, h.lineage, h.root, h.baseline, hsound, ?_, ?_, ?_, ?_, ?_, ?_⟩
    · intro id
      show out.1.records id ≠ none ↔ id ∈ w.run.files.worktrees
      rw [← h.reserved id]
      by_cases he : id = held.record.attemptId
      · subst he
        simp [hself, hdisk]
      · rw [hother id he]
    · intro a ha
      have hra := h.attempts a ha
      unfold RecordedAttempt at hra ⊢
      show match a.worktreeAttemptId with
        | some id => plan.mode = .worktree ∧ ∃ r, out.1.records id = some (.written r)
        | none => plan.mode = .readOnly
      cases hwid : a.worktreeAttemptId with
      | none =>
        rw [hwid] at hra
        exact hra
      | some id =>
        rw [hwid] at hra
        obtain ⟨hm, r, hr⟩ := hra
        refine ⟨hm, ?_⟩
        by_cases he : id = held.record.attemptId
        · subst he
          exact ⟨_, hself⟩
        · exact ⟨r, (hother id he).trans hr⟩
    · intro n run hn hf hm
      obtain rfl := honly n run hn hf
      refine ⟨_, latest, if_pos rfl, hlat, hid, ?_⟩
      unfold Held.Agrees
      cases hout : out.2 with
      | true => exact ⟨hself, c, rfl⟩
      | false => exact Or.inr ⟨c, hself⟩
    · intro x hx
      rcases List.mem_append.mp hx with hx | hx
      · obtain ⟨r, hr, hxr, hc, ha⟩ := h.captured x hx
        exact ⟨r, (hother _ (hpast _ r hr hc)).trans hr, hxr, hc, ha⟩
      · rw [List.mem_singleton.mp hx]
        exact ⟨_, hself, rfl, by simp [Record.updated], latest, List.mem_of_getLast? hlat, hid⟩
    · intro id r hr hc
      rcases hwritten id r hr with ⟨rfl, rfl⟩ | ⟨-, hold⟩
      · exact List.mem_append_right _ List.mem_cons_self
      · exact List.mem_append_left _ (h.recorded id r hold hc)
    · intro id id' r r' c' hr hr' hc hc'
      rcases hwritten id r hr with ⟨rfl, rfl⟩ | ⟨-, hold⟩
      · rcases hwritten id' r' hr' with ⟨rfl, rfl⟩ | ⟨-, hold'⟩
        · rfl
        · cases hc
          exact absurd hc' (hfresh id' r' hold')
      · rcases hwritten id' r' hr' with ⟨rfl, rfl⟩ | ⟨-, hold'⟩
        · cases hc'
          exact absurd hc (hfresh id r hold)
        · exact h.distinct id id' r r' c' hold hold' hc hc'

/-! ## Starts -/

theorem StartCall.Input.sameRun {s : RunState} {seat : ℕ} {call : StartCall} {i : StartInput}
    (hs : s.Plans plan) (hroot : s.files.plan = plan) (hi : call.Input D s seat i) :
    SameRun i.plan.toRunPlan plan.toRunPlan := by
  have htrans : ∀ {p q r : RunPlan}, SameRun p q → SameRun q r → SameRun p r :=
    fun h1 h2 => ⟨h1.1.trans h2.1, h1.2.1.trans h2.2.1, h1.2.2.trans h2.2.2⟩
  cases hi with
  | launch hseat hl => exact hroot ▸ SameRun.refl _
  | retry run latest r p hseat hlat hres hst hh hid hl hp =>
    exact htrans (retryPlan_sameRun hp) (hs.seats seat run hseat)
  | resume continuing run latest r p hseat hlat hres hperm hid hl hp =>
    exact htrans (resumePlan_sameRun hp) (hs.seats seat run hseat)

/-- What the steps of a start on the worktrees come to. -/
inductive StartedWith (w : WorkRun) (seat : ℕ) (from? existing : Option Record) (t : RunState) :
    WorkRun → Prop
  | idle (hsame : t.files.worktrees.length = w.run.files.worktrees.length)
      (hexec : t.executed.length = w.run.executed.length) :
      StartedWith w seat from? existing t { w with run := t }
  | executed (hsame : t.files.worktrees.length = w.run.files.worktrees.length)
      (hexec : t.executed.length ≠ w.run.executed.length) :
      StartedWith w seat from? existing t
        ({ w with run := t }.setHeld seat (existing.map fun r => ⟨r, .due⟩))
  | torn (id : JsString) (startCommit : Option JsString) (n : ℕ)
      (hlen : t.files.worktrees.length ≠ w.run.files.worktrees.length)
      (hid : t.files.worktrees.getLast? = some id)
      (hreserved : (advance n (createAttemptWorktree (w.newRecord id startCommit)) w.store).1.records
        id ≠ none)
      (hexec : t.executed.length = w.run.executed.length)
      (hatt : t.files.attempts.length = w.run.files.attempts.length) :
      StartedWith w seat from? existing t { w with
        run := t
        store := (advance n (createAttemptWorktree (w.newRecord id startCommit)) w.store).1 }
  | made (id : JsString) (startCommit : Option JsString) (n : ℕ)
      (hlen : t.files.worktrees.length ≠ w.run.files.worktrees.length)
      (hid : t.files.worktrees.getLast? = some id)
      (hstart : startCommit = match from? with
        | some r => r.handoffCommit
        | none => w.run.files.plan.startAt)
      (hmade : (advance n (createAttemptWorktree (w.newRecord id startCommit)) w.store).2 = true) :
      StartedWith w seat from? existing t
        (let next : WorkRun := { w with
          run := t
          store := (advance n (createAttemptWorktree (w.newRecord id startCommit)) w.store).1 }
        if t.executed.length ≠ w.run.executed.length then
          next.setHeld seat (some ⟨w.newRecord id startCommit, .due⟩)
        else next)

theorem WorkRun.startWith_cases {seat made : ℕ} {from? existing : Option Record}
    (h : w.startWith seat made from? existing t = some w') :
    StartedWith w seat from? existing t w' := by
  unfold WorkRun.startWith at h
  dsimp only at h
  by_cases hlen : t.files.worktrees.length = w.run.files.worktrees.length
  · rw [if_pos hlen] at h
    obtain rfl := Option.some.inj h
    split_ifs with hx
    · exact .executed hlen (of_decide_eq_true hx)
    · exact .idle hlen (by simpa using hx)
  · rw [if_neg hlen] at h
    split at h
    case h_1 => cases h
    case h_2 id hid =>
      rw [Option.ite_none_right_eq_some] at h
      obtain ⟨⟨-, -, hres, hmade | ⟨hx, hatt⟩⟩, h⟩ := h
      · obtain rfl := Option.some.inj h
        simp only [decide_eq_true_eq]
        exact .made id _ made hlen hid rfl hmade
      · obtain rfl := Option.some.inj h
        rw [if_neg (by simpa using hx)]
        exact .torn id _ made hlen hid hres (by simpa using hx) hatt

theorem WorkRun.Linked.starts_of (h : w.Linked plan head) {seat cut : ℕ} {call : StartCall}
    {undo : Bool} {i : StartInput} {u : Store} {held : ℕ → Option Held}
    (hp : w.permits (call.act seat cut undo) = true)
    (ht : w.run.step D (call.act seat cut undo) = some t) (hi : call.Input D w.run seat i)
    (ho : StartOutcome w.run t seat i) (hsound : Worktree.Sound plan.runId.val head u)
    (hreserved : ∀ id, u.records id ≠ none ↔ id ∈ t.files.worktrees)
    (hold : ∀ id, w.store.records id ≠ none → u.records id = w.store.records id)
    (hnew : ∀ id r, u.records id = some (.written r) →
      w.store.records id = some (.written r) ∨ r.handoffCommit = none)
    (hchecked : ∀ id, CheckedOut w.run t i (some id) →
      t.files.attempts.length ≠ w.run.files.attempts.length → ∃ r, u.records id = some (.written r))
    (hheld : ∀ id, CheckedOut w.run t i (some id) → t.executed ≠ w.run.executed →
      ∃ r, held seat = some ⟨r, .due⟩ ∧ r.attemptId = id ∧ u.records id = some (.written r)) :
    { w with run := t, store := u, held := held }.Linked plan head := by
  obtain ⟨hd, hpl, hl⟩ := h.run_step hp ht
  have hsame := hi.sameRun h.plans h.root
  have hwritten : ∀ id r, w.store.records id = some (.written r) →
      u.records id = some (.written r) := by
    intro id r hr
    rw [hold id (by rw [hr]; simp)]
    exact hr
  have hlaunch : call = .launch → ∀ a ∈ w.run.files.attempts, a.kind = .initial := by
    rintro rfl a ha
    have hall : ∀ a : RunAct, w.permits a = true → a.launches = true →
        ∀ a ∈ w.run.files.attempts, a.kind = .initial := by
      intro a hp hl a' ha'
      cases a <;> cases hl
      all_goals
        simp only [WorkRun.permits, Bool.and_eq_true, List.all_eq_true, decide_eq_true_eq] at hp
        exact hp.2 a' ha'
    exact hall _ hp (by cases undo <;> rfl) a ha
  obtain ⟨-, -, hexec⟩ := lineage_start h.lineage hi hlaunch ho
  refine ⟨hd, hpl, hl, ho.plan.trans h.root, h.baseline, hsound, hreserved, ?_, ?_, ?_, ?_, ?_⟩
  · -- The attempts that were there, and a new one.
    intro a ha
    have hthere : a ∈ w.run.files.attempts → RecordedAttempt plan.mode u a := by
      intro hmem
      have hrec := h.attempts a hmem
      unfold RecordedAttempt at hrec ⊢
      split at hrec
      case h_1 id hid =>
        obtain ⟨hm, r, hr⟩ := hrec
        exact ⟨hm, r, hwritten id r hr⟩
      case h_2 => exact hrec
    rcases ho.attempts with heq | ⟨id, hc, -, -, hgrown⟩
    · refine hthere ?_
      rw [← heq]
      exact ha
    · change a ∈ t.files.attempts at ha
      rw [hgrown] at ha
      rcases List.mem_append.mp ha with ha | ha
      · exact hthere ha
      · rw [List.mem_singleton] at ha
        subst ha
        unfold RecordedAttempt
        cases id with
        | none =>
          cases hc with
          | readOnly hm => exact hsame.2.1 ▸ hm
        | some id =>
          refine ⟨?_, hchecked id hc (by rw [hgrown]; simp)⟩
          cases hc with
          | retained _ hm => exact hsame.2.1 ▸ hm
          | created hm => exact hsame.2.1 ▸ hm
  · intro n run hn hf hmode
    rcases ho.executed with ⟨-, hseats⟩ | ⟨hx, hseats, -⟩
    · rw [show t.seats n = w.run.seats n from congrFun hseats n] at hn
      rw [h.disciplined.idle hi.lease hn] at hf
      cases hf
    · have hset := congrFun hseats n
      simp only [setSeat] at hset
      split_ifs at hset with hn'
      · subst hn'
        obtain ⟨latest, hlat, -, hc⟩ := hexec (by rw [hx]; simp)
        cases hwid : latest.worktreeAttemptId with
        | none =>
          rw [hwid] at hc
          cases hc with
          | readOnly hm =>
            rw [hsame.2.1, hmode] at hm
            cases hm
        | some id =>
          rw [hwid] at hc
          obtain ⟨r, hh, hid, hr⟩ := hheld id hc (by rw [hx]; simp)
          subst hid
          exact ⟨_, latest, hh, hlat, hwid, hr⟩
      · rw [show t.seats n = w.run.seats n from hset] at hn
        rw [h.disciplined.idle hi.lease hn] at hf
        cases hf
  · intro x hx
    obtain ⟨r, hr, hxr, hc, a, ha, hid⟩ := h.captured x hx
    refine ⟨r, hwritten _ r hr, hxr, hc, a, ?_, hid⟩
    rcases ho.attempts with heq | ⟨id, -, -, -, hgrown⟩
    · exact heq ▸ ha
    · show a ∈ t.files.attempts
      rw [hgrown]
      exact List.mem_append_left _ ha
  · intro id r hr hc
    rcases hnew id r hr with hr | hnone
    · exact h.recorded id r hr hc
    · exact absurd hnone hc
  · intro id id' r r' c hr hr' hc hc'
    have hpast : ∀ id r, u.records id = some (.written r) → r.handoffCommit = some c →
        w.store.records id = some (.written r) := by
      intro id r hr hc
      rcases hnew id r hr with hr | hnone
      · exact hr
      · rw [hnone] at hc
        cases hc
    exact h.distinct id id' r r' c (hpast id r hr hc) (hpast id' r' hr' hc') hc hc'

/-- **A start, left anywhere.** -/
theorem WorkRun.Linked.starts (h : w.Linked plan head) {seat cut made : ℕ} {call : StartCall}
    {undo : Bool} {from? existing : Option Record}
    (hp : w.permits (call.act seat cut undo) = true)
    (ht : w.run.step D (call.act seat cut undo) = some t)
    (hw : w.startWith seat made from? existing t = some w')
    (hexisting : ∀ i id, call.Input D w.run seat i → i.plan.mode = .worktree →
      i.existingWorktree = some id →
        ∃ r, existing = some r ∧ w.store.records id = some (.written r)) :
    w'.Linked plan head := by
  obtain ⟨i, hi, ho, -⟩ := start_spec ht
  have hlength : t.files.worktrees.length = w.run.files.worktrees.length →
      t.files.worktrees = w.run.files.worktrees := by
    intro hlen
    rcases ho.worktrees with heq | ⟨-, -, -, hgrown⟩
    · exact heq
    · rw [hgrown] at hlen
      simp at hlen
  have hgrown : ∀ id, t.files.worktrees.length ≠ w.run.files.worktrees.length →
      t.files.worktrees.getLast? = some id → id = i.plan.attemptId ∧
        t.files.worktrees = w.run.files.worktrees ++ [id] := by
    intro id hlen hid
    rcases ho.worktrees with heq | ⟨-, -, -, hgrown⟩
    · exact absurd (congrArg List.length heq) hlen
    · rw [hgrown, List.getLast?_concat] at hid
      cases hid
      exact ⟨rfl, hgrown⟩
  -- The retained worktree is the only one, when none is made.
  have hretained : t.files.worktrees.length = w.run.files.worktrees.length → ∀ id,
      CheckedOut w.run t i (some id) →
        ∃ r, existing = some r ∧ w.store.records id = some (.written r) := by
    intro hlen id hc
    cases hc with
    | retained _ hm he => exact hexisting i id hi hm he
    | created hm he hn hg =>
      rw [hg] at hlen
      simp at hlen
  have hcreated : ∀ id, t.files.worktrees.length ≠ w.run.files.worktrees.length →
      CheckedOut w.run t i (some id) → id = i.plan.attemptId := by
    intro id hlen hc
    cases hc with
    | retained _ hm he hsame => exact absurd (congrArg List.length hsame) hlen
    | created => rfl
  cases WorkRun.startWith_cases hw with
  | idle hlen hexec =>
    refine h.starts_of hp ht hi ho h.sound ?_ (fun _ _ => rfl) (fun _ _ => Or.inl) ?_ ?_
    · rw [hlength hlen]
      exact h.reserved
    · intro id hc _
      obtain ⟨r, -, hr⟩ := hretained hlen id hc
      exact ⟨r, hr⟩
    · intro id hc hx
      rcases ho.executed with ⟨heq, -⟩ | ⟨hgrow, -⟩
      · exact absurd heq hx
      · rw [hgrow] at hexec
        simp at hexec
  | executed hlen hexec =>
    refine h.starts_of hp ht hi ho h.sound ?_ (fun _ _ => rfl) (fun _ _ => Or.inl) ?_ ?_
    · rw [hlength hlen]
      exact h.reserved
    · intro id hc _
      obtain ⟨r, -, hr⟩ := hretained hlen id hc
      exact ⟨r, hr⟩
    · intro id hc _
      obtain ⟨r, he, hr⟩ := hretained hlen id hc
      refine ⟨r, ?_, (h.sound.record id r hr).1, hr⟩
      simp [he]
  | torn id startCommit n hlen hid hreserved hexec hatt =>
    obtain ⟨rfl, hgrow⟩ := hgrown id hlen hid
    have hsound := sound_create (r := w.newRecord i.plan.attemptId startCommit) h.sound
      (by rw [WorkRun.newRecord, h.root]) h.baseline rfl n
    have hrecords := create_records (w.newRecord i.plan.attemptId startCommit) n w.store
    generalize advance n (createAttemptWorktree (w.newRecord i.plan.attemptId startCommit))
      w.store = out at hsound hrecords hreserved
    obtain ⟨hnone, file, hfile, hend⟩ : w.store.records i.plan.attemptId = none ∧ ∃ file,
        out.1.records = Function.update w.store.records i.plan.attemptId (some file) ∧
          (out.2 = true ∧ file = .written (w.newRecord i.plan.attemptId startCommit) ∨
            out.2 = false ∧ file = .reserved) := by
      rcases hrecords with ⟨hsame, -⟩ | hrest
      · rw [hsame] at hreserved
        have hmem := (h.reserved _).mp hreserved
        rcases ho.worktrees with heq | ⟨-, -, hn, -⟩
        · exact absurd (congrArg List.length heq) hlen
        · exact absurd hmem hn
      · exact hrest
    refine h.starts_of hp ht hi ho hsound ?_ ?_ ?_ ?_ ?_
    · intro id
      rw [hfile, hgrow, List.mem_append, List.mem_singleton, ← h.reserved id]
      by_cases he : id = i.plan.attemptId
      · subst he
        simp
      · rw [Function.update_of_ne he]
        simp [he]
    · intro id hne
      rw [hfile, Function.update_of_ne]
      rintro rfl
      exact hne hnone
    · intro id r hr
      by_cases he : id = i.plan.attemptId
      · subst he
        rw [hfile, Function.update_self] at hr
        rcases hend with ⟨-, rfl⟩ | ⟨-, rfl⟩
        · cases hr
          exact Or.inr rfl
        · cases hr
      · rw [hfile, Function.update_of_ne he] at hr
        exact Or.inl hr
    · exact fun id _ hne => absurd hatt hne
    · intro id _ hx
      rcases ho.executed with ⟨heq, -⟩ | ⟨hg, -⟩
      · exact absurd heq hx
      · rw [hg] at hexec
        simp at hexec
  | made id startCommit n hlen hid hstart hmade =>
    obtain ⟨rfl, hgrow⟩ := hgrown id hlen hid
    have hsound := sound_create (r := w.newRecord i.plan.attemptId startCommit) h.sound
      (by rw [WorkRun.newRecord, h.root]) h.baseline rfl n
    have hrecords := create_records (w.newRecord i.plan.attemptId startCommit) n w.store
    generalize advance n (createAttemptWorktree (w.newRecord i.plan.attemptId startCommit))
      w.store = out at hsound hrecords hmade
    obtain ⟨hnone, hfile⟩ : w.store.records i.plan.attemptId = none ∧
        out.1.records = Function.update w.store.records i.plan.attemptId
          (some (.written (w.newRecord i.plan.attemptId startCommit))) := by
      rcases hrecords with ⟨-, hfalse⟩ | ⟨hn, file, hf, ⟨-, rfl⟩ | ⟨hfalse, -⟩⟩
      · rw [hmade] at hfalse
        cases hfalse
      · exact ⟨hn, hf⟩
      · rw [hmade] at hfalse
        cases hfalse
    have hself : out.1.records i.plan.attemptId =
        some (.written (w.newRecord i.plan.attemptId startCommit)) := by
      rw [hfile, Function.update_self]
    have hlinked : ∀ held : ℕ → Option Held,
        (t.executed ≠ w.run.executed →
          held seat = some ⟨w.newRecord i.plan.attemptId startCommit, .due⟩) →
        { w with run := t, store := out.1, held := held }.Linked plan head := by
      intro held hheld
      refine h.starts_of hp ht hi ho hsound ?_ ?_ ?_ ?_ ?_
      · intro id
        rw [hfile, hgrow, List.mem_append, List.mem_singleton, ← h.reserved id]
        by_cases he : id = i.plan.attemptId
        · subst he
          simp
        · rw [Function.update_of_ne he]
          simp [he]
      · intro id hne
        rw [hfile, Function.update_of_ne]
        rintro rfl
        exact hne hnone
      · intro id r hr
        by_cases he : id = i.plan.attemptId
        · subst he
          rw [hself] at hr
          cases hr
          exact Or.inr rfl
        · rw [hfile, Function.update_of_ne he] at hr
          exact Or.inl hr
      · intro id hc _
        obtain rfl := hcreated id hlen hc
        exact ⟨_, hself⟩
      · intro id hc hx
        obtain rfl := hcreated id hlen hc
        exact ⟨_, hheld hx, rfl, hself⟩
    dsimp only
    split_ifs with hx
    · exact hlinked _ fun _ => if_pos rfl
    · refine hlinked w.held fun hne => ?_
      rcases ho.executed with ⟨heq, -⟩ | ⟨hg, -⟩
      · exact absurd heq hne
      · exfalso
        rw [hg] at hx
        simp at hx

/-! ## Steps -/

theorem WorkRun.retainedWorktree_cases {r : Record} (h : w.retainedWorktree = some r) :
    ∃ latest id, w.run.files.latest = some latest ∧ latest.worktreeAttemptId = some id ∧
      w.store.records id = some (.written r) ∧ r.attemptId = id ∧ r.releasedAt = false ∧
        (observeWorktree w.store r = .clean ∨ observeWorktree w.store r = .dirty) := by
  unfold WorkRun.retainedWorktree at h
  split at h
  case h_1 => cases h
  case h_2 id hid =>
    split at h
    case h_2 => cases h
    case h_1 r' hr =>
      split_ifs at h with hc
      cases h
      obtain ⟨latest, hlat, hwid⟩ := Option.bind_eq_some_iff.mp hid
      exact ⟨latest, id, hlat, hwid, hr, hc.2.1, hc.2.2.1, hc.2.2.2⟩

/-- A step that is not a start, a release or an abandonment leaves the worktrees. -/
theorem WorkRun.follow_other {a : RunAct} {made : ℕ} (ha : a.isStart = false)
    (hr : ∀ seat released cut, a ≠ .release seat released cut)
    (hb : ∀ seat released cut, a ≠ .abandon seat released cut) :
    w.follow a made t = some { w with run := t } := by
  cases a with
  | launch _ _ | launchUndone _ _ | retry _ _ | retryUndone _ _ | resume _ _ _
  | resumeUndone _ _ _ => cases ha
  | release seat released cut => exact absurd rfl (hr seat released cut)
  | abandon seat released cut => exact absurd rfl (hb seat released cut)
  | _ => rfl

theorem WorkRun.follow_start {seat cut made : ℕ} {call : StartCall} {undo : Bool}
    (h : w.follow (call.act seat cut undo) made t = some w') :
    w.startWith seat made
      (match call with
        | .resume true => w.continueFrom seat
        | _ => none)
      (match call with
        | .resume false => w.retainedWorktree
        | _ => none) t = some w' := by
  cases call with
  | launch => cases undo <;> exact h
  | retry => cases undo <;> exact h
  | resume continuing => cases undo <;> cases continuing <;> exact h

/-- **Every step keeps the records and the attempts together.** -/
theorem linked_step {a : WorkAct} (h : w.Linked plan head) (hw : w.step D a = some w') :
    w'.Linked plan head := by
  cases a with
  | edit seat files =>
    obtain ⟨held, -, hw⟩ := Option.bind_eq_some_iff.mp hw
    obtain ⟨u, hu, rfl⟩ := Option.map_eq_some_iff.mp hw
    obtain ⟨repo, hrepo, rfl⟩ := Store.onRepo_cases hu
    obtain ⟨tree, -, rfl⟩ := Git.Repository.edit_cases hrepo
    exact h.edits _
  | tear id files =>
    obtain ⟨u, hu, rfl⟩ := Option.map_eq_some_iff.mp hw
    obtain ⟨repo, hrepo, rfl⟩ := Store.onRepo_cases hu
    obtain ⟨tree, -, rfl⟩ := Git.Repository.tear_cases hrepo
    exact h.edits _
  | finalize seat c cut =>
    obtain ⟨held, hheld, rfl⟩ := Option.map_eq_some_iff.mp hw
    exact h.finalizes hheld
  | releaseThrows seat made =>
    simp only [WorkRun.step, Option.ite_none_right_eq_some] at hw
    obtain ⟨hsome, hw⟩ := hw
    obtain rfl := Option.some.inj hw
    obtain ⟨es, hes⟩ := Option.isSome_iff_exists.mp hsome
    exact h.releases (idle_of_release h.disciplined hes) (h.releaseSteps seat made)
  | life a made =>
    simp only [WorkRun.step, Option.ite_none_right_eq_some] at hw
    obtain ⟨hp, hw⟩ := hw
    obtain ⟨t, ht, hw⟩ := Option.bind_eq_some_iff.mp hw
    by_cases hstart : a.isStart = true
    · obtain ⟨call, cut, undo, hact⟩ := RunAct.isStart_cases hstart
      rw [hact] at hp ht hw
      refine h.starts hp ht (WorkRun.follow_start hw) ?_
      -- The worktree of a plain resume is the retained one.
      intro i id hi hmode hex
      cases hi with
      | launch => cases hex
      | retry => cases hex
      | resume continuing run latest r p hseat hlat hres hperm hid hl hplan =>
        cases continuing with
        | true => cases hex
        | false =>
          have hin : w.inWorktree a.seat = true := by
            unfold WorkRun.inWorktree
            rw [hseat]
            have hm := (resumePlan_sameRun hplan).2.1
            exact decide_eq_true (hm.symm.trans hmode)
          have hsome : w.retainedWorktree.isSome = true := by
            cases undo <;> simpa [StartCall.act, WorkRun.permits, hin] using hp
          obtain ⟨r', hr'⟩ := Option.isSome_iff_exists.mp hsome
          obtain ⟨latest', id', hlat', hwid, hrec, -⟩ := WorkRun.retainedWorktree_cases hr'
          rw [hlat] at hlat'
          cases hlat'
          simp only [Bool.false_eq_true, if_false] at hex
          rw [hwid] at hex
          cases hex
          exact ⟨r', hr', hrec⟩
    · have hns : a.isStart = false := Bool.eq_false_iff.mpr hstart
      have hframe := h.frame hns hp ht
      have hflights := (step_frame hns ht).flights
      by_cases hrel : ∃ seat released cut, a = .release seat released cut
      · obtain ⟨seat, released, cut, rfl⟩ := hrel
        simp only [WorkRun.follow, Option.ite_none_right_eq_some] at hw
        obtain ⟨-, hw⟩ := hw
        obtain rfl := Option.some.inj hw
        obtain ⟨es, hes, -⟩ := Option.map_eq_some_iff.mp ht
        refine hframe.releases ?_ (h.releaseSteps seat made)
        intro n run hn
        by_contra hf
        obtain ⟨run', hr', hf', -⟩ := hflights n run hn (by simpa using hf)
        rw [idle_of_release h.disciplined hes n run' hr'] at hf'
        cases hf'
      · by_cases hab : ∃ seat released cut, a = .abandon seat released cut
        · obtain ⟨seat, released, cut, rfl⟩ := hab
          obtain ⟨es, hes, -⟩ := Option.map_eq_some_iff.mp ht
          obtain ⟨-, -, -, -, -, -, hlease, -⟩ := abandonEffects_cases hes
          have hidle : ∀ n run, t.seats n = some run → run.flight.inFlight = false := by
            intro n run hn
            by_contra hf
            obtain ⟨run', hr', hf', -⟩ := hflights n run hn (by simpa using hf)
            rw [h.disciplined.idle hlease hr'] at hf'
            cases hf'
          simp only [WorkRun.follow] at hw
          split_ifs at hw
          · obtain rfl := Option.some.inj hw
            exact hframe
          · obtain rfl := Option.some.inj hw
            exact hframe.releases hidle (h.releaseSteps seat made)
        · push Not at hrel hab
          rw [WorkRun.follow_other hns hrel hab] at hw
          obtain rfl := Option.some.inj hw
          exact hframe

end RunLife

end PiSubagent
