import PiSubagent.Service.RunSteps

/-!
# A start that fails

* `StartCall`, `StartCall.act`: launch, retry and resume, cut short before the executor has the
  attempt.
* `RunState.started`: where a call ends that nothing cuts short.
* `FailureAtomic`: the run is as it was before the call that failed, and the same call starts the
  attempt as if there had been no other.
* **`failureAtomic_iff`**: it is so exactly when no write of the failed call stays.
-/

namespace PiSubagent

open JsonText

namespace RunLife

open Cuts
open RunState (setSeat perform kill)

/-! ## Calls -/

/-- The calls that start an attempt. -/
inductive StartCall where
  | launch
  | retry
  | resume (continuing : Bool)
deriving DecidableEq, Repr

/-- All effects of a call; `none` when it is refused. -/
def StartCall.effects (D : Planner) (s : RunState) (seat : ℕ) :
    StartCall → Option (List Effect)
  | .launch => launchEffects s seat
  | .retry => retryEffects D s seat
  | .resume continuing => resumeEffects D s seat continuing

/-- The step of a call that is cut short, and whether its snapshot is removed then. -/
def StartCall.act (seat cut : ℕ) : StartCall → (undo : Bool) → RunAct
  | .launch, false => .launch seat cut
  | .launch, true => .launchUndone seat cut
  | .retry, false => .retry seat cut
  | .retry, true => .retryUndone seat cut
  | .resume continuing, false => .resume seat continuing cut
  | .resume continuing, true => .resumeUndone seat continuing cut

/-- Where a call ends that nothing cuts short; `none` when its attempt does not reach the
executor. -/
def RunState.started (D : Planner) (s : RunState) (seat : ℕ) (call : StartCall) :
    Option RunState :=
  match call.effects D s seat with
  | some es => if es.any Effect.isExecute then some (es.foldl (perform seat) s) else none
  | none => none

/-- The run is as it was before a call that failed, and the same call starts the attempt as if there
had been no other. -/
structure FailureAtomic (D : Planner) (s t : RunState) (seat : ℕ) (call : StartCall) :
    Prop where
  memory : t.seats = s.seats
  lease : t.lease = s.lease
  files : t.files = s.files
  repeated : t.started D seat call = s.started D seat call

/-- A write of a failed call that leaves nothing: a run record that was there before, and a snapshot
that the call removes. -/
def Effect.Undone (s : RunState) (undo : Bool) : Effect → Prop
  | .createRunRecord => s.files.recorded = true
  | .reserveSnapshot _ => undo = true
  | _ => False

/-! ## What effects leave in the files -/

/-- The event an effect appends. -/
def Effect.event? : Effect → Option RunEvent
  | .append e => some e
  | _ => none

/-- The attempt record an effect creates. -/
def Effect.record? : Effect → Option AttemptRecord
  | .createAttempt record => some record
  | _ => none

/-- The worktree an effect reserves. -/
def Effect.worktree? : Effect → Option JsString
  | .reserveWorktree id => some id
  | _ => none

/-- The snapshot an effect reserves. -/
def Effect.snapshot? : Effect → Option JsString
  | .reserveSnapshot id => some id
  | _ => none

/-- The effect creates the run record. -/
def Effect.isRunRecord : Effect → Bool
  | .createRunRecord => true
  | _ => false

/-- The effect is one of a start before the executor has the attempt. -/
def Effect.isStarting : Effect → Bool
  | .append _ | .createRunRecord | .reserveWorktree _ | .reserveSnapshot _ | .createAttempt _ =>
    true
  | _ => false

/-- The files after the effects of a start. -/
def RunFiles.written (f : RunFiles) (es : List Effect) : RunFiles :=
  { f with
    recorded := f.recorded || es.any Effect.isRunRecord
    events := f.events ++ es.filterMap Effect.event?
    attempts := f.attempts ++ es.filterMap Effect.record?
    worktrees := f.worktrees ++ es.filterMap Effect.worktree?
    snapshots := f.snapshots ++ es.filterMap Effect.snapshot? }

/-- The files after a start that was cut short, and whose snapshot was perhaps removed. -/
def RunFiles.left (f : RunFiles) (es : List Effect) (undo : Bool) : RunFiles :=
  { f.written es with
    snapshots := if undo then f.snapshots else f.snapshots ++ es.filterMap Effect.snapshot? }

/-- **What the effects of a start write.** -/
theorem foldl_starting {seat : ℕ} {es : List Effect} (s : RunState)
    (h : ∀ e ∈ es, e.isStarting = true) :
    es.foldl (perform seat) s = { s with files := s.files.written es } := by
  induction es generalizing s with
  | nil => simp [RunFiles.written]
  | cons e es ih =>
    rw [List.foldl_cons, ih _ fun e' he' => h e' (List.mem_cons_of_mem e he')]
    have he := h e List.mem_cons_self
    cases e with
    | append _ | createRunRecord | reserveWorktree _ | reserveSnapshot _ | createAttempt _ =>
      simp [perform, RunFiles.perform, RunFiles.written, Effect.event?, Effect.record?,
        Effect.worktree?, Effect.snapshot?, Effect.isRunRecord, List.filterMap_cons]
    | _ => cases he

/-! ## The effects of a start -/

section Start

variable {f g : RunFiles} {i : StartInput}

/-- The status a start asks for is the durable one. -/
def StartInput.admits (i : StartInput) (f : RunFiles) : Bool :=
  !i.expectedPriorStatus.any fun status => !durableStatusIs f status

/-- The effects of a start before its checkout. -/
def StartInput.opening (i : StartInput) : List Effect :=
  (if i.continuing then [.append .resumeAtHandoff] else []) ++
    (if i.kind = .initial then [.createRunRecord] else [])

theorem StartInput.mem_opening {e : Effect} (h : e ∈ i.opening) :
    e = .append .resumeAtHandoff ∨ e = .createRunRecord ∧ i.kind = .initial := by
  unfold StartInput.opening at h
  rcases List.mem_append.mp h with h | h
  · split_ifs at h
    · exact Or.inl (List.mem_singleton.mp h)
    · cases h
  · split_ifs at h with hk
    · exact Or.inr ⟨List.mem_singleton.mp h, hk⟩
    · cases h

theorem checkoutEffects_cases {checkout : List Effect} {id : Option JsString}
    (h : checkoutEffects f i = some (checkout, id)) :
    checkout = [] ∨
      (checkout = [.reserveWorktree i.plan.attemptId] ∧ i.plan.attemptId ∉ f.worktrees) ∨
        (checkout = [.reserveSnapshot i.plan.attemptId] ∧ i.plan.attemptId ∉ f.snapshots) := by
  unfold checkoutEffects at h
  split at h
  case h_1 | h_4 =>
    cases h
    exact Or.inl rfl
  case h_2 =>
    split_ifs at h with hm
    cases h
    exact Or.inr (Or.inl ⟨rfl, hm⟩)
  case h_3 =>
    split_ifs at h with hm
    cases h
    exact Or.inr (Or.inr ⟨rfl, hm⟩)

theorem attemptEffects_cases {id : Option JsString} {record : List Effect}
    (h : attemptEffects f i id = some record) :
    record = [] ∨ f.attempts.find? (·.attemptId = i.plan.attemptId) = none ∧
      (i.kind = .initial → f.latest = none) ∧
        record = [.createAttempt
          ⟨i.plan.attemptId, i.ordinal, i.kind, i.parentAttemptId, id, i.plan⟩] := by
  unfold attemptEffects at h
  split at h
  case h_1 =>
    split_ifs at h
    exact Or.inl (Option.some.inj h).symm
  case h_2 hfind =>
    dsimp only at h
    split_ifs at h with hc
    refine Or.inr ⟨hfind, ?_, (Option.some.inj h).symm⟩
    intro hk
    cases hl : f.latest with
    | none => rfl
    | some latest => simp [hl, hk] at hc

theorem startEffects_shape (f : RunFiles) (i : StartInput) : startEffects f i = [] ∨
    i.admits f = true ∧
      ((checkoutEffects f i = none ∧ startEffects f i = i.opening) ∨
        ∃ checkout id, checkoutEffects f i = some (checkout, id) ∧
          ((attemptEffects f i id = none ∧ startEffects f i = i.opening ++ checkout) ∨
            ∃ record, attemptEffects f i id = some record ∧
              startEffects f i =
                i.opening ++ (checkout ++ (record ++ [.execute (.start i.plan)])))) := by
  unfold startEffects
  by_cases hst : (i.expectedPriorStatus.any fun status => !durableStatusIs f status) = true
  · rw [if_pos hst]
    exact Or.inl rfl
  · rw [if_neg hst]
    refine Or.inr ⟨by simpa [StartInput.admits] using hst, ?_⟩
    cases hc : checkoutEffects f i with
    | none => exact Or.inl ⟨rfl, List.append_nil _⟩
    | some c =>
      obtain ⟨checkout, id⟩ := c
      refine Or.inr ⟨checkout, id, rfl, ?_⟩
      dsimp only
      cases ha : attemptEffects f i id with
      | none =>
        refine Or.inl ⟨rfl, ?_⟩
        rw [List.append_nil]
        rfl
      | some record => exact Or.inr ⟨record, rfl, rfl⟩

/-- The effects of a start that has no attempt record do not reach the executor. -/
theorem not_execute_opening {checkout : List Effect} {id : Option JsString}
    (hc : checkoutEffects f i = some (checkout, id)) {e : Effect} (he : e ∈ i.opening ++ checkout) :
    e.isExecute = false ∧ e.record? = none := by
  rcases List.mem_append.mp he with he | he
  · rcases StartInput.mem_opening he with rfl | ⟨rfl, -⟩ <;> exact ⟨rfl, rfl⟩
  · rcases checkoutEffects_cases hc with rfl | ⟨rfl, -⟩ | ⟨rfl, -⟩
    · cases he
    · rw [List.mem_singleton.mp he]
      exact ⟨rfl, rfl⟩
    · rw [List.mem_singleton.mp he]
      exact ⟨rfl, rfl⟩

/-- A start that reaches the executor, or records its attempt, has a checkout and goes all the
way. -/
theorem startEffects_executes {e : Effect} (he : e ∈ startEffects f i)
    (hx : e.isExecute = true ∨ e.record? ≠ none) :
    i.admits f = true ∧ ∃ checkout id record, checkoutEffects f i = some (checkout, id) ∧
      attemptEffects f i id = some record ∧
        startEffects f i = i.opening ++ (checkout ++ (record ++ [.execute (.start i.plan)])) := by
  rcases startEffects_shape f i with h | ⟨hst, ⟨-, h⟩ | ⟨checkout, id, hc, ⟨-, h⟩ | ⟨record, ha, h⟩⟩⟩
  · rw [h] at he
    cases he
  · rw [h] at he
    rcases StartInput.mem_opening he with rfl | ⟨rfl, -⟩ <;> simp [Effect.isExecute, Effect.record?] at hx
  · rw [h] at he
    obtain ⟨h1, h2⟩ := not_execute_opening hc he
    rcases hx with hx | hx
    · rw [h1] at hx
      cases hx
    · exact absurd h2 hx
  · exact ⟨hst, checkout, id, record, hc, ha, h⟩

theorem mem_checkout {e : Effect} (h : e ∈ startEffects f i)
    (he : e.worktree? ≠ none ∨ e.snapshot? ≠ none) :
    ∃ checkout id, checkoutEffects f i = some (checkout, id) ∧ e ∈ checkout := by
  have hopen : e ∉ i.opening := by
    intro hm
    rcases StartInput.mem_opening hm with rfl | ⟨rfl, -⟩ <;> simp [Effect.worktree?, Effect.snapshot?] at he
  rcases startEffects_shape f i with hs | ⟨-, ⟨-, hs⟩ | ⟨checkout, id, hc, hs⟩⟩
  · rw [hs] at h
    cases h
  · rw [hs] at h
    exact absurd h hopen
  · refine ⟨checkout, id, hc, ?_⟩
    rcases hs with ⟨-, hs⟩ | ⟨record, ha, hs⟩
    · rw [hs] at h
      exact (List.mem_append.mp h).resolve_left hopen
    · rw [hs] at h
      rcases List.mem_append.mp ((List.mem_append.mp h).resolve_left hopen) with hm | hm
      · exact hm
      · rcases attemptEffects_cases ha with rfl | ⟨-, -, rfl⟩
        · rw [List.nil_append] at hm
          rw [List.mem_singleton.mp hm] at he
          simp [Effect.worktree?, Effect.snapshot?] at he
        · rcases List.mem_pair.mp hm with rfl | rfl <;>
            simp [Effect.worktree?, Effect.snapshot?] at he

theorem reserveSnapshot_cases {id : JsString} (h : Effect.reserveSnapshot id ∈ startEffects f i) :
    id ∉ f.snapshots := by
  obtain ⟨checkout, wid, hc, hm⟩ := mem_checkout h (Or.inr (by simp [Effect.snapshot?]))
  unfold checkoutEffects at hc
  split at hc
  case h_1 | h_4 =>
    cases hc
    cases hm
  case h_2 =>
    split_ifs at hc
    cases hc
    cases List.mem_singleton.mp hm
  case h_3 =>
    split_ifs at hc with hn
    cases hc
    cases List.mem_singleton.mp hm
    exact hn

end Start

theorem StartCall.effects_start {D : Planner} {s : RunState} {seat : ℕ} {call : StartCall}
    {es : List Effect} (h : call.effects D s seat = some es) :
    ∃ i, es = startEffects s.files i := by
  cases call with
  | launch =>
    obtain ⟨-, -, rfl⟩ := launchEffects_cases h
    exact ⟨_, rfl⟩
  | retry =>
    obtain ⟨-, -, i, -, -, -, -, rfl⟩ := inputEffects_cases h
    exact ⟨i, rfl⟩
  | resume continuing =>
    obtain ⟨-, -, i, -, -, -, -, rfl⟩ := inputEffects_cases h
    exact ⟨i, rfl⟩

/-! ## What a failed call leaves -/

/-- The attempt an effect hands to the executor. -/
def Effect.executed? : Effect → Option JsString
  | .execute run => some run.plan.attemptId
  | _ => none

theorem foldl_executed {seat : ℕ} (es : List Effect) (s : RunState) :
    (es.foldl (perform seat) s).executed = s.executed ++ es.filterMap Effect.executed? := by
  induction es generalizing s with
  | nil => simp
  | cons e es ih =>
    rw [List.foldl_cons, ih, List.filterMap_cons]
    cases e with
    | execute run => simp [perform, Effect.executed?]
    | settleLease =>
      simp only [perform, Effect.executed?]
      split_ifs <;> rfl
    | _ => rfl

theorem foldl_removeSnapshot {seat : ℕ} (ids : List JsString) (s : RunState) :
    (ids.map Effect.removeSnapshot).foldl (perform seat) s =
      { s with files := { s.files with
          snapshots := s.files.snapshots.filter fun id => decide (id ∉ ids) } } := by
  induction ids generalizing s with
  | nil => simp
  | cons id ids ih =>
    rw [List.map_cons, List.foldl_cons, ih]
    simp only [perform, RunFiles.perform, List.filter_filter]
    congr 3
    funext x
    simp [List.mem_cons, Bool.and_comm]

variable {D : Planner} {s t : RunState} {seat cut : ℕ} {undo : Bool} {call : StartCall}

/-- The writes of a call that is cut short. -/
def StartCall.written (D : Planner) (s : RunState) (seat cut : ℕ) (call : StartCall) :
    List Effect :=
  ((call.effects D s seat).getD []).take cut

theorem step_act (h : s.step D (call.act seat cut undo) = some t) :
    ∃ es, call.effects D s seat = some es ∧
      t = (if undo then abandonedCheckout es cut else []).foldl (perform seat)
        ((es.take cut).foldl (perform seat) s) := by
  have hrun : ∀ o : Option (List Effect), s.run seat cut o = some t →
      ∃ es, o = some es ∧ t = (es.take cut).foldl (perform seat) s := by
    intro o ho
    obtain ⟨es, he, rfl⟩ := Option.map_eq_some_iff.mp ho
    exact ⟨es, he, cutShort_eq_foldl cut es s⟩
  have hundone : ∀ o : Option (List Effect), s.undone seat cut o = some t →
      ∃ es, o = some es ∧ t = (abandonedCheckout es cut).foldl (perform seat)
        ((es.take cut).foldl (perform seat) s) := by
    intro o ho
    obtain ⟨es, he, rfl⟩ := Option.map_eq_some_iff.mp ho
    rw [cutShort_eq_foldl]
    exact ⟨es, he, rfl⟩
  cases undo with
  | false => cases call <;> exact hrun _ h
  | true => cases call <;> exact hundone _ h

/-- **What a failed call leaves**: its writes, without the snapshot where that is removed. -/
theorem failed_eq (h : s.step D (call.act seat cut undo) = some t)
    (hx : t.executed = s.executed) :
    (∀ e ∈ call.written D s seat cut, e.isStarting = true) ∧
      t = { s with files := s.files.left (call.written D s seat cut) undo } := by
  obtain ⟨es, he, rfl⟩ := step_act h
  obtain ⟨i, hi⟩ := StartCall.effects_start he
  have hw : call.written D s seat cut = es.take cut := by
    unfold StartCall.written
    rw [he]
    rfl
  rw [hw]
  have hmem : ∀ e ∈ es.take cut, e ∈ startEffects s.files i := by
    intro e hm
    rw [← hi]
    exact List.mem_of_mem_take hm
  have hno : ∀ e ∈ es.take cut, e.isExecute = false := by
    rw [foldl_executed, foldl_executed, List.append_assoc, List.append_right_eq_self,
      List.append_eq_nil_iff] at hx
    intro e hm
    cases e with
    | execute run => exact absurd (List.filterMap_eq_nil_iff.mp hx.1 _ hm) (by simp [Effect.executed?])
    | _ => rfl
  have hstart : ∀ e ∈ es.take cut, e.isStarting = true := by
    intro e hm
    have ho := startEffects_ofStart _ _ e (hmem e hm)
    have hn := hno e hm
    cases e <;> first | rfl | exact ho.elim | cases hn
  refine ⟨hstart, ?_⟩
  rw [foldl_starting s hstart]
  cases undo with
  | false => rfl
  | true =>
    have hids : abandonedCheckout es cut =
        ((es.take cut).filterMap Effect.snapshot?).map Effect.removeSnapshot := by
      unfold abandonedCheckout
      rw [if_neg (by simpa using hno), List.map_filterMap]
      congr 1
      funext e
      cases e <;> rfl
    have hfresh : ∀ id ∈ (es.take cut).filterMap Effect.snapshot?, id ∉ s.files.snapshots := by
      intro id hid
      obtain ⟨e, hm, he⟩ := List.mem_filterMap.mp hid
      cases e with
      | reserveSnapshot id' =>
        cases he
        exact reserveSnapshot_cases (hmem _ hm)
      | _ => cases he
    have hkept : (s.files.snapshots.filter fun id =>
        decide (id ∉ (es.take cut).filterMap Effect.snapshot?)) = s.files.snapshots := by
      refine List.filter_eq_self.mpr fun id hid => ?_
      rw [decide_eq_true_eq]
      exact fun hm => hfresh id hm hid
    have hdropped : (((es.take cut).filterMap Effect.snapshot?).filter fun id =>
        decide (id ∉ (es.take cut).filterMap Effect.snapshot?)) = [] := by
      refine List.filter_eq_nil_iff.mpr fun id hid => ?_
      rw [decide_eq_true_eq, not_not]
      exact hid
    have hsnapshots : ((s.files.written (es.take cut)).snapshots.filter fun id =>
        decide (id ∉ (es.take cut).filterMap Effect.snapshot?)) = s.files.snapshots := by
      show (s.files.snapshots ++ (es.take cut).filterMap Effect.snapshot?).filter _ = _
      rw [List.filter_append, hkept, hdropped, List.append_nil]
    rw [if_pos rfl, hids, foldl_removeSnapshot]
    dsimp only
    rw [hsnapshots]
    rfl

/-- **A call that failed leaves the run as it was, and the same call starts the attempt as if there
had been no other, exactly when no write of it stays**: a run record that was there before and a
snapshot that is removed leave nothing, and every other write stays. -/
theorem failureAtomic_iff (h : s.step D (call.act seat cut undo) = some t)
    (hx : t.executed = s.executed) :
    FailureAtomic D s t seat call ↔ ∀ e ∈ call.written D s seat cut, e.Undone s undo := by
  obtain ⟨hstart, ht⟩ := failed_eq h hx
  generalize call.written D s seat cut = w at hstart ht ⊢
  have hfiles : t.files = s.files ↔ ∀ e ∈ w, e.Undone s undo := by
    rw [ht]
    constructor
    · intro hsame e he
      have hnone : ∀ {α : Type} {f : Effect → Option α} {l k : List α},
          l ++ w.filterMap f = k → k = l → f e = none := by
        intro α f l k hlk hkl
        rw [hkl, List.append_right_eq_self] at hlk
        exact List.filterMap_eq_nil_iff.mp hlk e he
      have hevent := hnone (congrArg RunFiles.events hsame) rfl
      have hrecord := hnone (congrArg RunFiles.attempts hsame) rfl
      have hworktree := hnone (congrArg RunFiles.worktrees hsame) rfl
      have hrecorded := congrArg RunFiles.recorded hsame
      have hsnapshots := congrArg RunFiles.snapshots hsame
      cases e with
      | append e => cases hevent
      | createAttempt record => cases hrecord
      | reserveWorktree id => cases hworktree
      | createRunRecord =>
        have hany : w.any Effect.isRunRecord = true := List.any_eq_true.mpr ⟨_, he, rfl⟩
        change (s.files.recorded || w.any Effect.isRunRecord) = s.files.recorded at hrecorded
        rw [hany, Bool.or_true] at hrecorded
        exact hrecorded.symm
      | reserveSnapshot id =>
        by_contra hundo
        change (if undo = true then s.files.snapshots
          else s.files.snapshots ++ w.filterMap Effect.snapshot?) = s.files.snapshots at hsnapshots
        rw [if_neg (show ¬undo = true from hundo)] at hsnapshots
        cases hnone hsnapshots rfl
      | _ => cases hstart _ he
    · intro hall
      have hnone : ∀ {α : Type} {f : Effect → Option α}, f .createRunRecord = none →
          (∀ id, undo = true → f (.reserveSnapshot id) = none) → w.filterMap f = [] := by
        intro α f hrun hsnap
        refine List.filterMap_eq_nil_iff.mpr fun e he => ?_
        have hu := hall e he
        cases e with
        | createRunRecord => exact hrun
        | reserveSnapshot id => exact hsnap id hu
        | _ => exact hu.elim
      have hrecorded : (s.files.recorded || w.any Effect.isRunRecord) = s.files.recorded := by
        cases hany : w.any Effect.isRunRecord with
        | false => exact Bool.or_false _
        | true =>
          obtain ⟨e, he, hrun⟩ := List.any_eq_true.mp hany
          cases e with
          | createRunRecord =>
            rw [show s.files.recorded = true from hall _ he]
            rfl
          | _ => cases hrun
      have hsnapshots : (if undo = true then s.files.snapshots
          else s.files.snapshots ++ w.filterMap Effect.snapshot?) = s.files.snapshots := by
        split_ifs with hundo
        · rfl
        · rw [hnone rfl fun _ hu => absurd hu hundo, List.append_nil]
      simp only [RunFiles.left, RunFiles.written, hrecorded, hsnapshots, List.append_nil,
        hnone (f := Effect.event?) rfl fun _ _ => rfl,
        hnone (f := Effect.record?) rfl fun _ _ => rfl,
        hnone (f := Effect.worktree?) rfl fun _ _ => rfl]
  rw [← hfiles]
  refine ⟨fun ha => ha.files, fun hf => ?_⟩
  have hts : t = s := by
    rw [ht] at hf ⊢
    rw [show s.files.left w undo = s.files from hf]
  rw [hts]
  exact ⟨rfl, rfl, rfl, rfl⟩

/-- A launch on the live checkout that fails once its run record is there leaves the run record. -/
theorem failureAtomic_iff_launch : ∃ t,
    (freshRun livePlan).step sameDigest (StartCall.launch.act 0 1 true) = some t ∧
      (FailureAtomic sameDigest (freshRun livePlan) t 0 .launch ↔
        ∀ e ∈ StartCall.launch.written sameDigest (freshRun livePlan) 0 1,
          e.Undone (freshRun livePlan) true) := by
  have hstep : ((freshRun livePlan).step sameDigest (StartCall.launch.act 0 1 true)).any
      (fun t => decide (t.executed = [])) = true := by decide +kernel
  obtain ⟨t, ht, hx⟩ := (Option.any_eq_true _ _).mp hstep
  exact ⟨t, ht, failureAtomic_iff ht (of_decide_eq_true hx)⟩

/-- A retry that fails once its attempt record is there is refused from then on. -/
theorem retry_refused_after_failure : ¬∀ (D : Planner) (plan : Plan) (as : List RunAct)
    (s t : RunState) (seat cut : ℕ) (undo : Bool) (call : StartCall),
    Runs.exec (RunState.step D) (freshRun plan) as = some s →
      s.step D (call.act seat cut undo) = some t → t.executed = s.executed →
        FailureAtomic D s t seat call := by
  intro hall
  have hrun : (Runs.exec (RunState.step sameDigest) (freshRun livePlan)
      (untilFailed .notNeeded)).any (fun s => (s.started sameDigest 0 .retry).isSome &&
        (s.step sameDigest (StartCall.retry.act 0 1 true)).any fun t =>
          decide (t.executed = s.executed) && !(t.started sameDigest 0 .retry).isSome) = true := by
    decide +kernel
  obtain ⟨s, hs, h1⟩ := (Option.any_eq_true _ _).mp hrun
  obtain ⟨hstarted, hstep⟩ := Bool.and_eq_true_iff.mp h1
  obtain ⟨t, ht, h2⟩ := (Option.any_eq_true _ _).mp hstep
  obtain ⟨hx, hrefused⟩ := Bool.and_eq_true_iff.mp h2
  rw [(hall sameDigest livePlan _ s t 0 1 true .retry hs ht (of_decide_eq_true hx)).repeated,
    hstarted] at hrefused
  cases hrefused

end RunLife

end PiSubagent
