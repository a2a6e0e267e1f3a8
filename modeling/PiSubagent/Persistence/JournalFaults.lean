import PiSubagent.Lib.Runs
import PiSubagent.Persistence.JournalFile

/-!
# Appends that fail

A journal that stays open while its appends fail at any point, and is opened again now and then.

* `Session`: the open journal, the file, the events acknowledged so far, and whether a failed
  append has left bytes of its line in the file.
* `Session.Readable`: the events can be read back, by this journal and by the next one to open.
* `Session.Whole`: no append puts a whole line on top of what a failed one has left.
* **`session_readable_iff`**: the file stays readable exactly as long as no append does.
-/

namespace PiSubagent

open JsonText Utf8 Lines Runs

section

variable [SchemaText]

/-- An open journal and its file, the events acknowledged and the events tried so far, and whether
bytes of a failed append stand in the file. -/
structure Session where
  journal : RunJournal
  file : Option Bytes
  acked : List JournalEvent
  tried : List JournalEvent
  torn : Bool

/-- What can happen to a session. -/
inductive JournalAct where
  | append (c : AppendCall) (fault : AppendFault)
  | reopen

/-- The session of a run whose journal has just been opened for the first time. -/
def Session.start (runId : RunId) : Session := ⟨⟨runId.val, 0⟩, none, [], [], false⟩

/-- The session after an append. -/
def Session.append (s : Session) (c : AppendCall) (fault : AppendFault) : Session :=
  match s.journal.append c fault s.file with
  | (.ok e, j, file) => ⟨j, file, s.acked ++ [e], s.tried ++ [e], s.torn⟩
  | (.error _, j, file) =>
    ⟨j, file, s.acked, s.tried ++ ((s.journal.admits c s.file).map Prod.fst).toList,
      s.torn || decide (s.journal.written c fault s.file ≠ [])⟩

/-- The session after the journal has been opened again; a refused open changes nothing. -/
def Session.reopen (s : Session) : Session :=
  match openJournal s.journal.runId s.journal.runId true s.file with
  | (.ok j, file) => { s with journal := j, file := file, torn := false }
  | (.error _, _) => s

/-- One step of a session. -/
def Session.step (s : Session) : JournalAct → Session
  | .append c fault => s.append c fault
  | .reopen => s.reopen

/-- The events are read back, now and by the next journal that is opened: numbered from 1 without a
gap, the acknowledged ones in their order, the others from appends that were tried. -/
def Session.Readable (s : Session) : Prop :=
  ∃ es, s.journal.readEvents s.file = .ok es ∧
    (∃ j file, openJournal s.journal.runId s.journal.runId true s.file = (.ok j, file) ∧
      j.readEvents file = .ok es) ∧
    es.map JournalEvent.sequence = List.range' 1 es.length ∧ s.acked.Sublist es ∧
    ∀ e ∈ es, e ∈ s.acked ∨ e ∈ s.tried

/-- An append puts no whole line on top of what a failed one has left. -/
def Session.Whole (s : Session) : JournalAct → Prop
  | .append c fault => s.torn = true →
      ∀ e line, s.journal.admits c s.file = some (e, line) → fault.reaches line ≠ line
  | .reopen => True

/-! ## Sessions with a readable file -/

/-- The file of a session: complete lines that hold the events, and what stands open after them.
Where a failed append has left something it is either a whole line that the journal has not counted
or the beginning of one. -/
structure Session.Good (s : Session) (es : List JournalEvent) (left : Bytes)
    (ls : List (List Char)) : Prop where
  runId : isRunId s.journal.runId = true
  holds : Holds s.journal.runId es left (s.file.getD []) ls
  size : (s.file.getD []).length ≤ maxJournalBytes
  acked : s.acked.Sublist es
  tried : ∀ e ∈ es, e ∈ s.acked ∨ e ∈ s.tried
  whole : s.torn = false → left = [] ∧ s.journal.sequence = es.length
  torn : s.torn = true → left = [] ∧ s.journal.sequence + 1 = es.length ∨ ∃ q, left = 123 :: q

/-- The file of a session is readable. -/
def Session.Sound (s : Session) : Prop := ∃ es left ls, s.Good es left ls

theorem Session.good_start (runId : RunId) : (Session.start runId).Good [] [] [] where
  runId := runId.valid
  holds := ⟨by simp, .nil 0, List.not_mem_nil, rfl⟩
  size := Nat.zero_le _
  acked := List.Sublist.slnil
  tried := by simp
  whole := fun _ => ⟨rfl, rfl⟩
  torn := fun h => absurd h Bool.false_ne_true

variable {s : Session} {es : List JournalEvent} {left : Bytes} {ls : List (List Char)}

theorem Session.Good.readable (h : s.Good es left ls) : s.Readable := by
  obtain ⟨file, ho, hh, hsize⟩ := openJournal_holds h.holds h.runId h.size
  exact ⟨es, readEvents_holds h.holds h.size s.journal.sequence,
    ⟨_, file, ho, readEvents_holds hh hsize es.length⟩, h.holds.records.sequences, h.acked, h.tried⟩

/-- The file of a session is corrupt. -/
def Session.Bad (s : Session) : Prop :=
  ∃ bytes, s.file = some bytes ∧ Corrupt s.journal.runId bytes

theorem Session.Bad.not_readable (h : s.Bad) : ¬ s.Readable := by
  obtain ⟨bytes, hf, hc⟩ := h
  rintro ⟨es, hr, -⟩
  obtain ⟨err, he⟩ := readEvents_corrupt hc s.journal.sequence
  rw [hf, he] at hr
  cases hr

/-! ## Steps -/

/-- **Opening again keeps a file readable.** -/
theorem Session.Good.step_reopen (h : s.Good es left ls) : s.reopen.Good es [] ls := by
  obtain ⟨file, ho, hh, hsize⟩ := openJournal_holds h.holds h.runId h.size
  simp only [Session.reopen, ho]
  exact ⟨h.runId, hh, hsize, h.acked, h.tried, fun _ => ⟨rfl, rfl⟩,
    fun ht => absurd ht Bool.false_ne_true⟩

omit [SchemaText] in
theorem encode_line_eq_cons (e : JournalEvent) : ∃ t, encode e.line = 123 :: t := by
  obtain ⟨t, ht⟩ := e.line_eq_cons
  refine ⟨encode t, ?_⟩
  rw [ht, encode_cons]
  rfl

/-- **A whole line on a file nothing is left in keeps it readable.** -/
theorem Session.Good.append_whole (h : s.Good es left ls) (ht : s.torn = false) {e : JournalEvent}
    (hd : e.data.Proper) (hc : e.check = true) (hid : e.runId = s.journal.runId)
    (hs : e.sequence = s.journal.sequence + 1) :
    Holds s.journal.runId (es ++ [e]) [] (s.file.getD [] ++ (encode e.line ++ [10]))
      (ls ++ [e.line]) := by
  obtain ⟨rfl, hn⟩ := h.whole ht
  exact h.holds.append_line hd hc hid (by rw [hs, hn])

/-- **A whole line on top of what a failed append has left corrupts the file.** -/
theorem Session.Good.append_torn (h : s.Good es left ls) (ht : s.torn = true) {e : JournalEvent}
    (hd : e.data.Proper) (hs : e.sequence = s.journal.sequence + 1) :
    Corrupt s.journal.runId (s.file.getD [] ++ (encode e.line ++ [10])) := by
  refine h.holds.corrupt (newline_notMem_encode_line e) ?_
  rintro e' ⟨-, v, hv, -, he', -, hs'⟩
  rcases h.torn ht with ⟨rfl, hn⟩ | ⟨q, rfl⟩
  · -- the line repeats the number of a line the journal has not counted
    rw [List.nil_append, decode_encode, JournalEvent.parse_line hd] at hv
    obtain rfl := Option.some.inj hv
    rw [journalEvent?_toJson] at he'
    split_ifs at he' with hc
    obtain rfl := Option.some.inj he'
    omega
  · -- the line is glued to the beginning of another
    obtain ⟨t, hline⟩ := encode_line_eq_cons e
    have hglued : decode (123 :: q ++ encode e.line) = '{' :: (decode q ++ e.line) := by
      have h1 : decode (123 :: q ++ encode e.line) = '{' :: decode (q ++ encode e.line) :=
        decode_append_ascii [] (q ++ encode e.line) 123 (by decide)
      have h2 : decode (q ++ 123 :: t) = decode q ++ '{' :: decode t :=
        decode_append_ascii q t 123 (by decide)
      have h3 : '{' :: decode t = e.line := by
        rw [← decode_encode e.line, hline]
        exact (decode_append_ascii [] t 123 (by decide)).symm
      rw [h1, hline, h2, h3]
    rw [hglued, JournalEvent.parse_glued_line (decode q) hd] at hv
    cases hv

theorem Session.Good.append_part (h : s.Good es left ls) {e : JournalEvent} {k : ℕ}
    (hk : (encode e.line).take k ≠ []) :
    Holds s.journal.runId es (left ++ (encode e.line).take k)
        (s.file.getD [] ++ (encode e.line).take k) ls ∧
      ∃ q, left ++ (encode e.line).take k = 123 :: q := by
  obtain ⟨t, hline⟩ := encode_line_eq_cons e
  refine ⟨h.holds.append_rest fun hm => newline_notMem_encode_line e (List.mem_of_mem_take hm), ?_⟩
  have hstart : ∃ q, (encode e.line).take k = 123 :: q := by
    rw [hline] at hk ⊢
    cases k with
    | zero => exact absurd rfl hk
    | succ k => exact ⟨t.take k, rfl⟩
  obtain ⟨q, hq⟩ := hstart
  rw [hq]
  cases ht : s.torn with
  | false =>
    obtain ⟨rfl, -⟩ := h.whole ht
    exact ⟨q, rfl⟩
  | true =>
    rcases h.torn ht with ⟨rfl, -⟩ | ⟨p, rfl⟩
    · exact ⟨q, rfl⟩
    · exact ⟨p ++ 123 :: q, rfl⟩

/-- **An append that puts no line on top of what is left keeps the file readable.** -/
theorem Session.Good.step_append (h : s.Good es left ls) {c : AppendCall} {fault : AppendFault}
    (hw : s.Whole (.append c fault)) : (s.append c fault).Sound := by
  rcases s.journal.append_cases c fault s.file with
    ⟨err, ha, hwr⟩ | ⟨e, line, hadm, hwr, ha⟩ | ⟨e, line, hadm, hwr, hfault, ha⟩
  · -- nothing reaches the file
    refine ⟨es, left, ls, ?_⟩
    simp only [Session.append, ha, hwr, ne_eq, not_true_eq_false, decide_false, Bool.or_false]
    exact ⟨h.runId, h.holds, h.size, h.acked,
      fun x hx => (h.tried x hx).imp_right (List.mem_append_left _), h.whole, h.torn⟩
  · -- some bytes reach the file, and the append fails
    obtain ⟨hd, hc, hid, hs, rfl, hsize⟩ := RunJournal.admits_event hadm
    have hacked : ∀ x ∈ es, x ∈ s.acked ∨ x ∈ s.tried ++ [e] := fun x hx =>
      (h.tried x hx).imp_right (List.mem_append_left _)
    rcases fault.reaches_cases (newline_notMem_encode_line e) with hr | ⟨-, k, hr⟩
    · -- the whole line
      have ht : s.torn = false := by
        by_contra hne
        exact hw ((Bool.not_eq_false _).mp hne) e _ hadm hr
      obtain ⟨rfl, hn⟩ := h.whole ht
      refine ⟨es ++ [e], [], ls ++ [e.line], ?_⟩
      simp only [Session.append, ha, hwr, hadm, hr, Option.map_some, Option.toList_some]
      refine ⟨h.runId, h.append_whole ht hd hc hid hs, hsize, h.acked.trans (List.sublist_append_left _ _), ?_,
        by simp, fun _ => Or.inl ⟨rfl, by rw [List.length_append, hn]; rfl⟩⟩
      intro x hx
      rcases List.mem_append.mp hx with hx | hx
      · exact hacked x hx
      · exact Or.inr (List.mem_append_right _ hx)
    · by_cases hnil : (encode e.line).take k = []
      · refine ⟨es, left, ls, ?_⟩
        simp only [Session.append, ha, hwr, hadm, hr, hnil, Option.map_some, Option.toList_some,
          List.append_nil, ne_eq, not_true_eq_false, decide_false, Bool.or_false]
        exact ⟨h.runId, h.holds, h.size, h.acked, hacked, h.whole, h.torn⟩
      · obtain ⟨hh, hq⟩ := h.append_part hnil
        refine ⟨es, left ++ (encode e.line).take k, ls, ?_⟩
        simp only [Session.append, ha, hwr, hadm, hr, Option.map_some, Option.toList_some, ne_eq,
          hnil, not_false_eq_true, decide_true, Bool.or_true]
        refine ⟨h.runId, hh, le_trans ?_ hsize, h.acked, hacked,
          fun hf => Bool.noConfusion hf, fun _ => Or.inr hq⟩
        simp only [Option.getD_some, List.length_append, List.length_take]
        omega
  · -- the append succeeds
    obtain ⟨hd, hc, hid, hs, rfl, hsize⟩ := RunJournal.admits_event hadm
    have ht : s.torn = false := by
      by_contra hne
      exact hw ((Bool.not_eq_false _).mp hne) e _ hadm hfault
    obtain ⟨rfl, hn⟩ := h.whole ht
    refine ⟨es ++ [e], [], ls ++ [e.line], ?_⟩
    simp only [Session.append, ha]
    refine ⟨h.runId, h.append_whole ht hd hc hid hs, hsize, h.acked.append_right [e], ?_,
      fun _ => ⟨rfl, by rw [List.length_append, hs, hn]; rfl⟩, fun hf => absurd (ht.symm.trans hf) Bool.false_ne_true⟩
    intro x hx
    rcases List.mem_append.mp hx with hx | hx
    · exact (h.tried x hx).imp (List.mem_append_left _) (List.mem_append_left _)
    · exact Or.inl (List.mem_append_right _ hx)

/-- The file after an append is the file before it with the written bytes at its end. -/
theorem Session.append_file (s : Session) (c : AppendCall) (fault : AppendFault) :
    (s.append c fault).file.getD [] = s.file.getD [] ++ s.journal.written c fault s.file ∧
      (s.append c fault).journal.runId = s.journal.runId ∧
      (s.file ≠ none ∨ s.journal.written c fault s.file ≠ [] → (s.append c fault).file ≠ none) := by
  rcases s.journal.append_cases c fault s.file with
    ⟨err, ha, hwr⟩ | ⟨e, line, -, hwr, ha⟩ | ⟨e, line, -, hwr, -, ha⟩
  · simp [Session.append, ha, hwr]
  · simp [Session.append, ha, hwr]
  · simp [Session.append, ha, hwr]

/-- **An append that puts a line on top of what is left corrupts the file.** -/
theorem Session.Good.break_append (h : s.Good es left ls) {c : AppendCall} {fault : AppendFault}
    (hw : ¬ s.Whole (.append c fault)) : (s.append c fault).Bad := by
  simp only [Session.Whole, not_forall, not_not] at hw
  obtain ⟨ht, e, line, hadm, hr⟩ := hw
  obtain ⟨hd, -, -, hs, rfl, -⟩ := RunJournal.admits_event hadm
  have hwr : s.journal.written c fault s.file = encode e.line ++ [10] := by
    simp only [RunJournal.written, hadm, hr]
  obtain ⟨h1, h2, h3⟩ := s.append_file c fault
  rw [hwr] at h1 h3
  obtain ⟨bytes, hb⟩ := Option.ne_none_iff_exists'.mp (h3 (Or.inr (by simp)))
  refine ⟨bytes, hb, ?_⟩
  rw [hb, Option.getD_some] at h1
  rw [h1, h2]
  exact h.append_torn ht hd hs

/-- **A corrupt file stays corrupt.** -/
theorem Session.Bad.step (h : s.Bad) (a : JournalAct) : (s.step a).Bad := by
  obtain ⟨bytes, hf, hc⟩ := h
  cases a with
  | append c fault =>
    obtain ⟨h1, h2, h3⟩ := s.append_file c fault
    obtain ⟨bytes', hb⟩ := Option.ne_none_iff_exists'.mp (h3 (Or.inl (by rw [hf]; simp)))
    refine ⟨bytes', hb, ?_⟩
    rw [hb, hf, Option.getD_some, Option.getD_some] at h1
    change Corrupt (s.append c fault).journal.runId bytes'
    rw [h1, h2]
    exact hc.append _
  | reopen =>
    obtain ⟨err, ho⟩ := openJournal_corrupt hc s.journal.runId true
    have hs : s.step .reopen = s := by
      simp only [Session.step, Session.reopen, hf, ho]
    rw [hs]
    exact ⟨bytes, hf, hc⟩

/-- **The file stays readable exactly as long as no append puts a whole line on top of what a
failed one has left.** -/
theorem session_readable_iff (runId : RunId) (acts : List JournalAct) :
    (acts.foldl Session.step (.start runId)).Readable ↔
      Meets (fun s a => some (s.step a)) Session.Whole (.start runId) acts := by
  have hend := exec_dichotomy Session.Whole Session.Sound Session.Bad (fun s a t hg hw h => ?_)
    (fun s a t hg hw h => ?_) (fun s a t hb h => ?_) ⟨[], [], [], Session.good_start runId⟩
    (exec_total Session.step (.start runId) acts)
  · rcases hend with ⟨hm, es, left, ls, hg⟩ | ⟨hm, hb⟩
    · exact ⟨fun _ => hm, fun _ => hg.readable⟩
    · exact ⟨fun hr => absurd hr hb.not_readable, fun hc => absurd hc hm⟩
  · obtain ⟨es, left, ls, hg⟩ := hg
    obtain rfl := Option.some.inj h
    cases a with
    | append c fault => exact hg.step_append hw
    | reopen => exact ⟨es, [], ls, hg.step_reopen⟩
  · obtain ⟨es, left, ls, hg⟩ := hg
    obtain rfl := Option.some.inj h
    cases a with
    | append c fault => exact hg.break_append hw
    | reopen => exact absurd trivial hw
  · obtain rfl := Option.some.inj h
    exact hb.step a

end

/-! ## A torn line and a line that was not acknowledged -/

/-- A run identifier. -/
def exampleRunId : RunId := ⟨ofString "run_a1", isRunId_a1⟩

/-- An append without data of its own. -/
def exampleCall : AppendCall where
  type := ofString "observed"
  data := some ⟨.obj [], by simp [Json.Proper, MembersProper]⟩
  eventId := ofString "e1"
  timestamp := ofString "2026-01-01T00:00:00Z"

section

local instance faultsSchemaText : SchemaText := plainSchemaText

/-- One byte of a line reaches the file; the next append is acknowledged. -/
def tornThenAppend : List JournalAct := [.append exampleCall (.write 1), .append exampleCall .none]

/-- A line reaches the file but `sync` fails; the next append is acknowledged. -/
def unsyncedThenAppend : List JournalAct := [.append exampleCall .sync, .append exampleCall .none]

/-- After either, the acknowledged event cannot be read. -/
theorem append_after_failure_unreadable :
    (¬ (tornThenAppend.foldl Session.step (.start exampleRunId)).Readable ∧
        (tornThenAppend.foldl Session.step (.start exampleRunId)).acked.length = 1) ∧
      ¬ (unsyncedThenAppend.foldl Session.step (.start exampleRunId)).Readable ∧
        (unsyncedThenAppend.foldl Session.step (.start exampleRunId)).acked.length = 1 := by
  have hread : ∀ s : Session, (s.journal.readEvents s.file).toBool = false → ¬ s.Readable := by
    rintro s hs ⟨es, he, -⟩
    rw [he] at hs
    cases hs
  refine ⟨⟨hread _ ?_, ?_⟩, hread _ ?_, ?_⟩ <;> decide +kernel

end

end PiSubagent
