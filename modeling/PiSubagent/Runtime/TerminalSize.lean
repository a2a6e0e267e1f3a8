import PiSubagent.Persistence.Snapshot
import PiSubagent.Runtime.TerminalEvents

/-!
# The size of a terminal event

The output of an attempt is bounded in the bytes of its raw text, the event and the snapshot in the
bytes of their JSON text.

* `AttemptExecutionResult.data`: what a terminal event and a snapshot hold.
* `RecordFits`: the event is appended and the snapshot written, in a journal with room.
* `RecordLight`: the raw bytes of the output, what they grow by in quotes, and the text of the
  structured value fit in what the rest leaves.
* **`recordFits_iff`**: a record fits exactly when it is light.
* **`terminalFits_iff`**: the terminal events of an attempt fit, and one that completes is recorded
  as completed, exactly when their records are light.
* **`terminal_tooLarge`**: 32 KiB of quotation marks are not.
-/

namespace PiSubagent

open JsonText Utf8 Prog

section

variable [SchemaText]

/-- The event identifier and time an append draws. -/
structure EventDraw where
  eventId : JsString
  timestamp : JsString
  valid : (fits 1 128 eventId && SchemaText.dateTime timestamp) = true

variable (worktree : WorktreeRecord → JsData)

/-- What a terminal event and a snapshot hold, given the JSON form of worktree records. -/
def AttemptExecutionResult.data (x : AttemptExecutionResult) : JsData where
  json := record [("result", some x.result.toJson), ("output", some (.str x.output)),
    ("sessionFile", x.sessionFile.map .str),
    ("handoff", x.handoff.map fun w => (worktree w).json), ("error", x.error.map .str)]
  proper := by
    refine record_proper (by simp) ?_
    simp only [List.mem_cons, List.not_mem_nil, or_false, forall_eq_or_imp, forall_eq,
      Option.mem_def, Option.map_eq_some_iff, Option.some.injEq, forall_exists_index, and_imp]
    refine ⟨?_, ?_, ?_, ?_, ?_⟩
    · rintro _ rfl
      exact x.result.toJson_proper
    · rintro _ rfl
      exact trivial
    · rintro _ s _ rfl
      exact trivial
    · rintro _ w _ rfl
      exact (worktree w).proper
    · rintro _ s _ rfl
      exact trivial

/-- The record without its output and its structured value. -/
def AttemptExecutionResult.bare (x : AttemptExecutionResult) : AttemptExecutionResult :=
  { x with output := [], result := { x.result with structuredOutput := none } }

/-- The call that appends a terminal event. -/
def terminalCall (type : String) (draw : EventDraw) (x : AttemptExecutionResult) : AppendCall :=
  ⟨ofString type, some (x.data worktree), draw.eventId, draw.timestamp⟩

/-- The event of a record. -/
def terminalEvent (j : RunJournal) (type : String) (draw : EventDraw) (x : AttemptExecutionResult) :
    JournalEvent :=
  j.event (terminalCall worktree type draw x) (x.data worktree).json

/-- The snapshot after the event of a record. -/
def terminalSnapshot (j : RunJournal) (x : AttemptExecutionResult) : RunSnapshot :=
  ⟨j.runId, j.sequence + 1, (x.data worktree).json⟩

/-- In a journal with room for an event of the largest size the event is appended, and the snapshot
after it is written. -/
def RecordFits (j : RunJournal) (type : String) (draw : EventDraw) (x : AttemptExecutionResult) :
    Prop :=
  ∀ file : Option Bytes, (file.getD []).length + maxEventBytes ≤ maxJournalBytes →
    (j.append (terminalCall worktree type draw x) .none file).1 =
        .ok (terminalEvent worktree j type draw x) ∧
      ({ j with sequence := j.sequence + 1 } : RunJournal).writeSnapshot
        (some (x.data worktree)) .none = .ok (terminalSnapshot worktree j x)

/-- The bytes of the structured value in an event, with its key. -/
def structuredSize (x : AttemptExecutionResult) : ℕ :=
  match x.result.structuredOutput with
  | none => 0
  | some v => textSize v.json + 20

/-- The bytes of the structured value in a snapshot, with its key and line. -/
def structuredPrettySize (x : AttemptExecutionResult) : ℕ :=
  match x.result.structuredOutput with
  | none => 0
  | some v => prettySize 3 v.json + 28

/-- **The output with its growth and the structured value fit in what the rest leaves.** -/
structure RecordLight (j : RunJournal) (type : String) (draw : EventDraw)
    (x : AttemptExecutionResult) : Prop where
  event : byteLength x.output + growth x.output + structuredSize x +
    (textSize (terminalEvent worktree j type draw x.bare).toJson + 1) ≤ maxEventBytes
  snapshot : byteLength x.output + growth x.output + structuredPrettySize x +
    (prettySize 0 (terminalSnapshot worktree j x.bare).toJson + 1) ≤ maxSnapshotBytes

/-! ## What the output and the structured value add -/

omit [SchemaText] in
theorem textSize_data (x : AttemptExecutionResult) :
    textSize (x.data worktree).json = byteLength x.output + growth x.output + structuredSize x +
      textSize (x.bare.data worktree).json := by
  have hkey : textSize (.str (ofString "structuredOutput")) = 18 := by decide +kernel
  have hempty : textSize (.str []) = 2 := by decide
  have hresult : textSize x.result.toJson = structuredSize x + textSize x.bare.result.toJson := by
    unfold structuredSize RunResult.toJson AttemptExecutionResult.bare
    rw [textSize_record, textSize_record]
    simp only [List.map_cons, List.map_nil, List.sum_cons, List.sum_nil]
    cases x.result.structuredOutput with
    | none => simp only [Option.map_none, Nat.zero_add]
    | some v =>
      simp only [Option.map_some, Option.map_none, fieldSize, hkey]
      omega
  unfold AttemptExecutionResult.data
  rw [textSize_record, textSize_record]
  simp only [List.map_cons, List.map_nil, List.sum_cons, List.sum_nil, fieldSize, hresult,
    textSize_str x.output]
  simp only [AttemptExecutionResult.bare, hempty, byteLength]
  omega

omit [SchemaText] in
theorem prettySize_data (x : AttemptExecutionResult) :
    prettySize 1 (x.data worktree).json = byteLength x.output + growth x.output +
      structuredPrettySize x + prettySize 1 (x.bare.data worktree).json := by
  have hkey : textSize (.str (ofString "structuredOutput")) = 18 := by decide +kernel
  have hempty : textSize (.str []) = 2 := by decide
  have hresult : prettySize 2 x.result.toJson =
      structuredPrettySize x + prettySize 2 x.bare.result.toJson := by
    unfold structuredPrettySize RunResult.toJson AttemptExecutionResult.bare
    rw [prettySize_record, prettySize_record]
    simp only [List.map_cons, List.map_nil, List.sum_cons, List.sum_nil]
    cases x.result.structuredOutput with
    | none => simp only [Option.map_none, Nat.zero_add]
    | some v =>
      simp only [Option.map_some, Option.map_none, fieldPrettySize, hkey, Nat.reduceAdd,
        Nat.reduceMul]
      omega
  unfold AttemptExecutionResult.data
  rw [prettySize_record, prettySize_record]
  simp only [List.map_cons, List.map_nil, List.sum_cons, List.sum_nil, fieldPrettySize,
    Nat.reduceAdd, Nat.reduceMul, hresult, prettySize_str, textSize_str x.output]
  simp only [AttemptExecutionResult.bare, hempty, byteLength]
  omega

theorem textSize_event (j : RunJournal) (type : String) (draw : EventDraw)
    (x : AttemptExecutionResult) :
    textSize (terminalEvent worktree j type draw x).toJson =
      byteLength x.output + growth x.output + structuredSize x +
        textSize (terminalEvent worktree j type draw x.bare).toJson := by
  have hdata := textSize_data worktree x
  unfold terminalEvent RunJournal.event terminalCall JournalEvent.toJson text natural
  rw [textSize_record, textSize_record]
  simp only [List.map_cons, List.map_nil, List.sum_cons, List.sum_nil, fieldSize, hdata]
  omega

omit [SchemaText] in
theorem prettySize_snapshot (j : RunJournal) (x : AttemptExecutionResult) :
    prettySize 0 (terminalSnapshot worktree j x).toJson =
      byteLength x.output + growth x.output + structuredPrettySize x +
        prettySize 0 (terminalSnapshot worktree j x.bare).toJson := by
  have hdata := prettySize_data worktree x
  unfold terminalSnapshot RunSnapshot.toJson text natural
  rw [prettySize_record, prettySize_record]
  simp only [List.map_cons, List.map_nil, List.sum_cons, List.sum_nil, fieldPrettySize,
    Nat.zero_add, hdata]
  omega

/-! ## When a record fits -/

/-- The journal of an attempt, after so many events. -/
def attemptJournal (plan : AttemptPlan) (sequence : ℕ) : RunJournal := ⟨plan.runId.val, sequence⟩

variable (plan : AttemptPlan) (sequence : ℕ)

theorem terminalCall_valid {type : String} (ht : fits 1 128 (ofString type) = true)
    (draw : EventDraw) (x : AttemptExecutionResult) :
    (terminalCall worktree type draw x).Valid (attemptJournal plan sequence) := by
  refine ⟨?_, rfl⟩
  have hdraw := draw.valid
  rw [Bool.and_eq_true] at hdraw
  have hrun : isRunId plan.runId.val = true := plan.runId.valid
  unfold RunJournal.event JournalEvent.check attemptJournal terminalCall
  simp only [hdraw.1, hdraw.2, hrun, ht, Bool.and_true, decide_eq_true_eq]
  omega

/-- **A record fits exactly when it is light.** -/
theorem recordFits_iff (type : String) (ht : fits 1 128 (ofString type) = true)
    (draw : EventDraw) (x : AttemptExecutionResult) :
    RecordFits worktree (attemptJournal plan sequence) type draw x ↔
      RecordLight worktree (attemptJournal plan sequence) type draw x := by
  have hevent (file : Option Bytes) (hroom : (file.getD []).length + maxEventBytes ≤ maxJournalBytes) :
      ((attemptJournal plan sequence).append (terminalCall worktree type draw x) .none file).1 =
          .ok (terminalEvent worktree (attemptJournal plan sequence) type draw x) ↔
        textSize (terminalEvent worktree (attemptJournal plan sequence) type draw x).toJson + 1 ≤
          maxEventBytes :=
    RunJournal.append_ok_iff _ (terminalCall_valid worktree plan sequence ht draw x) rfl hroom
  have hsnapshot :
      ({ attemptJournal plan sequence with sequence := sequence + 1 } : RunJournal).writeSnapshot
          (some (x.data worktree)) .none =
            .ok (terminalSnapshot worktree (attemptJournal plan sequence) x) ↔
        prettySize 0 (terminalSnapshot worktree (attemptJournal plan sequence) x).toJson + 1 ≤
          maxSnapshotBytes :=
    RunJournal.writeSnapshot_ok_iff _ plan.runId.valid _
  have hroom : ((none : Option Bytes).getD []).length + maxEventBytes ≤ maxJournalBytes := by
    decide
  rw [textSize_event, Nat.add_assoc] at hevent
  rw [prettySize_snapshot, Nat.add_assoc] at hsnapshot
  constructor
  · intro h
    exact ⟨(hevent none hroom).mp (h none hroom).1, hsnapshot.mp (h none hroom).2⟩
  · intro h file hfile
    exact ⟨(hevent file hfile).mpr h.event, hsnapshot.mpr h.snapshot⟩

/-- **An output of a sixth of what is left always fits**, where there is no structured value. -/
theorem recordLight_of_bytes {j : RunJournal} {type : String} {draw : EventDraw}
    {x : AttemptExecutionResult} (hx : x.result.structuredOutput = none)
    (he : 6 * byteLength x.output +
      (textSize (terminalEvent worktree j type draw x.bare).toJson + 1) ≤ maxEventBytes)
    (hs : 6 * byteLength x.output +
      (prettySize 0 (terminalSnapshot worktree j x.bare).toJson + 1) ≤ maxSnapshotBytes) :
    RecordLight worktree j type draw x := by
  have hgrowth := growth_le x.output
  rw [← byteLength] at hgrowth
  refine ⟨?_, ?_⟩
  · rw [structuredSize, hx]
    dsimp only
    omega
  · rw [structuredPrettySize, hx]
    dsimp only
    omega

/-! ## The records of an attempt -/

variable (o : AttemptOutcomes)

/-- The attempt gets to its `attempt-completed` event, with this record. -/
def Completed (x : AttemptExecutionResult) : Prop :=
  o.completes plan = true ∧ ∃ t, exec (attemptWork plan o) (.start plan o) = (.ok (), t) ∧
    x = completedExecution plan o t

/-- The attempt throws and gets to its `attempt-failed` event, with this record. -/
def Failed (x : AttemptExecutionResult) : Prop :=
  o.starts = true ∧ ∃ e s t, exec (attemptBody plan o) (.start plan o) = (.error e, s) ∧
    exec (do keepSession plan o; cleanupSandbox o; cleanupSnapshot o) s = (.ok (), t) ∧
    isRunResult (thrownResult plan o e t) = true ∧
    x = ⟨thrownResult plan o e t, t.output, t.sessionFile, t.handoff, t.structuredOutput,
      some (thrownFailure o e t).message⟩

/-- **The terminal events of the attempt fit**, and where nothing but a size stops their writes, one
that completes is recorded as completed and as nothing else. -/
structure TerminalFits (draw : EventDraw) : Prop where
  completed : ∀ x, Completed plan o x →
    RecordFits worktree (attemptJournal plan sequence) "attempt-completed" draw x
  failed : ∀ x, Failed plan o x →
    RecordFits worktree (attemptJournal plan sequence) "attempt-failed" draw x
  recorded : ∀ x, Completed plan o x →
    (RecordFits worktree (attemptJournal plan sequence) "attempt-completed" draw x →
      o.appendCompleted = .done ∧ o.snapshotCompleted = .done) →
    (exec (runNativeAttempt plan o) (.start plan o)).2.events =
        [(ofString "attempt-completed", x)] ∧
      (exec (runNativeAttempt plan o) (.start plan o)).2.snapshots = [x]

omit [SchemaText] in
/-- An attempt whose completed record is written is recorded as completed. -/
theorem completed_recorded {x : AttemptExecutionResult} (hx : Completed plan o x)
    (hdone : o.appendCompleted = .done ∧ o.snapshotCompleted = .done) :
    (exec (runNativeAttempt plan o) (.start plan o)).2.events =
        [(ofString "attempt-completed", x)] ∧
      (exec (runNativeAttempt plan o) (.start plan o)).2.snapshots = [x] := by
  obtain ⟨hcompletes, t, ht, rfl⟩ := hx
  have hparts := hcompletes
  rw [AttemptOutcomes.completes, Bool.and_eq_true, ht] at hparts
  obtain ⟨hstarts, hvalid⟩ := hparts
  obtain ⟨-, hevents, hsnapshots⟩ := (attemptWork_spec plan o).ok ⟨rfl, rfl⟩ ht
  have hcomplete : exec (completeAttempt plan o) t =
      (.ok (completedExecution plan o t), afterCompleted plan o t) := by
    rcases exec_completeAttempt plan o t with ⟨hv, -⟩ | ⟨-, hc⟩
    · exact absurd (hv.symm.trans hvalid) Bool.false_ne_true
    · rwa [if_pos hdone] at hc
  have hafter : (afterCompleted plan o t).events =
        [(ofString "attempt-completed", completedExecution plan o t)] ∧
      (afterCompleted plan o t).snapshots = [completedExecution plan o t] := by
    rw [afterCompleted, if_pos (by rw [hdone.1]; rfl)]
    rw [if_pos ⟨hdone.1, by rw [hdone.2]; rfl⟩, hevents, hsnapshots]
    exact ⟨rfl, rfl⟩
  rw [AttemptOutcomes.starts, Bool.and_eq_true, Bool.and_eq_true] at hstarts
  obtain ⟨⟨hvalidation, hcurrent⟩, hstarting⟩ := hstarts
  have hok {r : Outcome Unit} (h : r.isOk = true) : r = .ok () := by
    cases r with
    | error e => cases h
    | ok u => rfl
  unfold runNativeAttempt
  rw [exec_bind, exec_liftExcept, hok hvalidation]
  dsimp only
  rw [exec_bind, exec_liftExcept, hok hcurrent]
  dsimp only
  rw [exec_bind, exec_liftExcept, hok hstarting]
  dsimp only
  rw [exec_bind, exec_tryCatch, attemptBody_eq, exec_bind, ht]
  dsimp only
  rw [hcomplete]
  dsimp only
  rw [exec_bind, exec_liftExcept]
  cases o.finish with
  | error e => exact hafter
  | ok _ => exact hafter

/-- **The terminal events of an attempt fit exactly when their records are light.** -/
theorem terminalFits_iff (draw : EventDraw) :
    TerminalFits worktree plan sequence o draw ↔
      (∀ x, Completed plan o x →
        RecordLight worktree (attemptJournal plan sequence) "attempt-completed" draw x) ∧
      ∀ x, Failed plan o x →
        RecordLight worktree (attemptJournal plan sequence) "attempt-failed" draw x := by
  have hcompleted := recordFits_iff worktree plan sequence "attempt-completed"
    (fits_printable (by decide) 1 128) draw
  have hfailed := recordFits_iff worktree plan sequence "attempt-failed"
    (fits_printable (by decide) 1 128) draw
  constructor
  · intro h
    exact ⟨fun x hx => (hcompleted x).mp (h.completed x hx),
      fun x hx => (hfailed x).mp (h.failed x hx)⟩
  · rintro ⟨hc, hf⟩
    refine ⟨fun x hx => (hcompleted x).mpr (hc x hx), fun x hx => (hfailed x).mpr (hf x hx), ?_⟩
    intro x hx hwrites
    exact completed_recorded plan o hx (hwrites ((hcompleted x).mpr (hc x hx)))

/-! ## An output of quotation marks -/

omit [SchemaText] in
theorem closeSandbox_output (sandbox : AttemptSandbox) :
    Keeps AttemptState.output (closeSandbox o sandbox) := by
  refine Keeps.bind Keeps.get fun s => ?_
  split_ifs
  · exact Keeps.pure ()
  · exact Keeps.bind (Keeps.zoom _ fun _ _ => rfl) fun _ => Keeps.modify fun _ => rfl

omit [SchemaText] in
theorem settleWorkspace_output : Keeps AttemptState.output (settleWorkspace plan o) := by
  refine Keeps.bind (Keeps.when _ (Keeps.modify fun _ => rfl)) fun _ => ?_
  refine Keeps.bind (Keeps.when _ (Keeps.throw _)) fun _ => ?_
  refine Keeps.when _ ?_
  refine Keeps.bind (Keeps.when _ (Keeps.throw _)) fun _ => ?_
  exact Keeps.bind (Keeps.liftExcept _) fun _ => Keeps.modify fun _ => rfl

omit [SchemaText] in
/-- **The output in a completed record is the final text within the two bounds.** -/
theorem Completed.output {x : AttemptExecutionResult} (hx : Completed plan o x) :
    x.output = o.inlineOutput plan := by
  have hwork : Triple (fun _ => True) (attemptWork plan o)
      (fun _ s => s.output = o.inlineOutput plan) (fun _ _ => True) := by
    unfold attemptWork
    iterate 4 refine Triple.bind_any fun _ => ?_
    refine Triple.bind (M := fun _ s => s.output = o.inlineOutput plan)
      ((runSession_ends plan o _).weaken (fun _ h => h) (fun _ _ h => h.2) fun _ _ h => h) fun _ => ?_
    refine Triple.bind (M := fun _ s => s.output = o.inlineOutput plan)
      (((closeSandbox_output o _).triple _).weaken (fun _ h => h) (fun _ _ h => h)
        fun _ _ _ => trivial) fun _ => ?_
    refine Triple.bind (M := fun _ s => s.output = o.inlineOutput plan)
      (Triple.modify fun _ h => h) fun _ => ?_
    exact ((settleWorkspace_output plan o).triple _).weaken (fun _ h => h) (fun _ _ h => h)
      fun _ _ _ => trivial
  obtain ⟨-, t, ht, rfl⟩ := hx
  exact hwork.ok trivial ht

omit [SchemaText] in
theorem charsOf_replicate {u : UInt16} (h : (isHigh u || isLow u) = false) (n : ℕ) :
    charsOf (List.replicate n u) = List.replicate n (Char.ofNat u.toNat) := by
  have hchar : unitChar u = Char.ofNat u.toNat := by
    rw [unitChar, h]
    rfl
  induction n with
  | zero => rfl
  | succ n ih =>
    cases n with
    | zero => exact congrArg (fun c => [c]) hchar
    | succ n =>
      rw [Bool.or_eq_false_iff] at h
      rw [List.replicate_succ, List.replicate_succ, charsOf, if_neg (by simp [h.1]), hchar,
        ← List.replicate_succ, ih, ← List.replicate_succ]

omit [SchemaText] in
theorem boundAttemptOutput_of_le {s : JsString} {limit : ℕ} (h : byteLength s ≤ limit) :
    boundAttemptOutput s limit = (s, false) := if_pos h

/-- So many quotation marks. -/
def quotationMarks (n : ℕ) : JsString := List.replicate n 34

omit [SchemaText] in
theorem byteLength_quotationMarks (n : ℕ) : byteLength (quotationMarks n) = n := by
  rw [byteLength, quotationMarks, charsOf_replicate (by decide), length_encode_asciis,
    List.length_replicate]
  intro c hc
  rw [(List.mem_replicate.mp hc).2]
  decide

omit [SchemaText] in
theorem growth_quotationMarks (n : ℕ) : growth (quotationMarks n) = n := by
  rw [quotationMarks, growth_replicate (by decide)]
  exact Nat.mul_one n

/-- An attempt that answers with 32 KiB of quotation marks. -/
def quotingAttempt : AttemptOutcomes :=
  { unsavedAttempt with
    rawOutput := quotationMarks maxInlineOutputBytes, snapshotCompleted := .done }

end

section

local instance terminalSchemaText : SchemaText := plainSchemaText

/-- An event identifier and a time. -/
def firstDraw : EventDraw := ⟨ofString "e1", ofString "2026-01-01T00:00:00.000Z", by decide +kernel⟩

/-- Its output is within both bounds, and its event is not within the limit of the journal. -/
theorem terminal_tooLarge :
    quotingAttempt.completes readOnlyPlan = true ∧
      quotingAttempt.inlineOutput readOnlyPlan = quotationMarks maxInlineOutputBytes ∧
      ¬ ∀ worktree plan sequence o draw, TerminalFits worktree plan sequence o draw := by
  have hcompletes : quotingAttempt.completes readOnlyPlan = true := by decide +kernel
  have houtput : quotingAttempt.inlineOutput readOnlyPlan = quotationMarks maxInlineOutputBytes := by
    have hraw : quotingAttempt.rawOutput = quotationMarks maxInlineOutputBytes := rfl
    have hartifact : byteLength (quotationMarks maxInlineOutputBytes) ≤ readOnlyPlan.outputBytes := by
      rw [byteLength_quotationMarks]
      decide
    rw [AttemptOutcomes.inlineOutput, hraw, boundAttemptOutput_of_le hartifact,
      boundAttemptOutput_of_le (byteLength_quotationMarks _).le]
  refine ⟨hcompletes, houtput, fun h => ?_⟩
  have hfits := h (fun _ => ⟨.null, trivial⟩) readOnlyPlan 3 quotingAttempt firstDraw
  have hwork := hcompletes
  rw [AttemptOutcomes.completes, Bool.and_eq_true] at hwork
  rcases ht : exec (attemptWork readOnlyPlan quotingAttempt)
    (.start readOnlyPlan quotingAttempt) with ⟨e | u, t⟩
  · rw [ht] at hwork
    exact Bool.false_ne_true hwork.2
  · have hx : Completed readOnlyPlan quotingAttempt
        (completedExecution readOnlyPlan quotingAttempt t) := ⟨hcompletes, t, ht, rfl⟩
    have hlight := (recordFits_iff _ _ _ "attempt-completed" (by decide) _ _).mp
      (hfits.completed _ hx)
    have hevent := hlight.event
    rw [hx.output, houtput, byteLength_quotationMarks, growth_quotationMarks] at hevent
    have hlimit : maxInlineOutputBytes + maxInlineOutputBytes = maxEventBytes := by decide
    omega

end

end PiSubagent
