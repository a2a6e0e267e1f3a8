import PiSubagent.Persistence.JournalFaults
import PiSubagent.Service.Listing

/-!
# Reading the log of a run that goes on

A reader follows the cursors of `readLogs` while events are appended, appends fail at any point, and
the journal is opened again.

* `Session.logs`: what the journal gives to `readLogs`.
* `Session.events_step`: whatever happens to a journal, what can be read of it only gets longer.
* `LogReader`: a journal and the reader of its pages.
* **`logs_followed`**: the events a reader gets are numbered without a gap, and with the last page
  it has all of them.
-/

namespace PiSubagent

open JsonText Utf8 Lines Runs

section

variable [SchemaText]

/-! ## What is read of a journal -/

section Read

variable {runId : JsString} {es es' : List JournalEvent} {ls ms : List (List Char)} {count : ℕ}

theorem Records.grows (h : Records runId count ls es) (h' : Records runId count (ls ++ ms) es') :
    es <+: es' := by
  induction h generalizing es' with
  | nil => exact List.nil_prefix
  | cons he _ ih =>
    cases h' with
    | cons he' hr' =>
      obtain ⟨-, v, hv, -, hj, -⟩ := he
      obtain ⟨-, v', hv', -, hj', -⟩ := he'
      cases hv.symm.trans hv'
      cases hj.symm.trans hj'
      exact List.cons_prefix_cons.mpr ⟨rfl, ih hr'⟩

theorem readEvents_records {j : RunJournal} {bytes : Bytes}
    (h : j.readEvents (some bytes) = .ok es) :
    bytes.length ≤ maxJournalBytes ∧ Records j.runId 0 (complete '\n' (decode bytes)) es := by
  unfold RunJournal.readEvents at h
  dsimp only at h
  split_ifs at h with hsize
  obtain ⟨es', hr, rfl⟩ := parseLines_eq_ok.mp h
  exact ⟨Nat.not_lt.mp hsize, hr⟩

theorem readEvents_few {j : RunJournal} {file : Option Bytes} (h : j.readEvents file = .ok es) :
    es.length < 2 ^ 32 := by
  cases file with
  | none =>
    cases h
    simp
  | some bytes =>
    obtain ⟨hsize, hr⟩ := readEvents_records h
    have hlines := length_complete_le (d := '\n') (decode bytes)
    have hchars := decode_length_le bytes
    have hmax : maxJournalBytes < 2 ^ 32 := by decide
    rw [← hr.length_eq]
    omega

theorem readEvents_sequences {j : RunJournal} {file : Option Bytes}
    (h : j.readEvents file = .ok es) :
    es.map JournalEvent.sequence = List.range' 1 es.length := by
  cases file with
  | none =>
    cases h
    rfl
  | some bytes => exact (readEvents_records h).2.sequences

theorem readEvents_append {j j' : RunJournal} {bytes more : Bytes} (hid : j'.runId = j.runId)
    (h : j.readEvents (some bytes) = .ok es)
    (h' : j'.readEvents (some (bytes ++ more)) = .ok es') : es <+: es' := by
  obtain ⟨-, hr⟩ := readEvents_records h
  obtain ⟨-, hr'⟩ := readEvents_records h'
  obtain ⟨bls, tail, hb, ht, rfl⟩ := exists_join (d := (10 : UInt8)) bytes
  rw [complete_decode_join hb, complete_of_notMem (newline_not_mem_decode ht),
    List.append_nil] at hr
  rw [List.append_assoc, complete_decode_join hb, hid] at hr'
  exact hr.grows hr'

end Read

/-! ## A journal only gets longer -/

variable {s : Session} {es es' : List JournalEvent}

/-- A session that was reached: its file is readable, or corrupt for good. -/
def Session.Reached (s : Session) : Prop := s.Sound ∨ s.Bad

theorem Session.reached_start (runId : RunId) : (Session.start runId).Reached :=
  Or.inl ⟨[], [], [], Session.good_start runId⟩

theorem Session.Reached.step (h : s.Reached) (a : JournalAct) : (s.step a).Reached := by
  rcases h with ⟨es, left, ls, hg⟩ | hb
  · cases a with
    | append c fault =>
      by_cases hw : s.Whole (.append c fault)
      · exact Or.inl (hg.step_append hw)
      · exact Or.inr (hg.break_append hw)
    | reopen => exact Or.inl ⟨es, [], ls, hg.step_reopen⟩
  · exact Or.inr (hb.step a)

theorem Session.Bad.not_read (h : s.Bad) : s.journal.readEvents s.file ≠ .ok es := by
  obtain ⟨bytes, hf, hc⟩ := h
  obtain ⟨err, he⟩ := readEvents_corrupt hc s.journal.sequence
  rw [hf]
  intro hr
  cases he.symm.trans hr

/-- **What can be read of a journal only gets longer.** -/
theorem Session.events_step (h : s.Reached) (a : JournalAct)
    (hr : s.journal.readEvents s.file = .ok es)
    (hr' : (s.step a).journal.readEvents (s.step a).file = .ok es') : es <+: es' := by
  cases a with
  | append c fault =>
    obtain ⟨hfile, hid, hsome⟩ := s.append_file c fault
    cases hf : s.file with
    | none =>
      rw [hf] at hr
      cases hr
      exact List.nil_prefix
    | some bytes =>
      obtain ⟨bytes', hb⟩ := Option.ne_none_iff_exists'.mp (hsome (Or.inl (by rw [hf]; simp)))
      rw [hb, hf, Option.getD_some, Option.getD_some] at hfile
      change (s.append c fault).journal.readEvents (s.append c fault).file = .ok es' at hr'
      rw [hb, hfile] at hr'
      rw [hf] at hr
      exact readEvents_append hid hr hr'
  | reopen =>
    rcases h with ⟨known, left, ls, hg⟩ | hb
    · have hbefore := readEvents_holds hg.holds hg.size s.journal.sequence
      have hgood := hg.step_reopen
      have hafter := readEvents_holds hgood.holds hgood.size s.reopen.journal.sequence
      cases hbefore.symm.trans hr
      cases hafter.symm.trans hr'
      exact List.prefix_refl _
    · exact absurd hr hb.not_read

open Summaries

/-! ## A reader of the log -/

/-- What reading the journal gives to `readLogs`. -/
def Session.logs (s : Session) : Except JsString RunRead :=
  match h : s.journal.readEvents s.file with
  | .error e => .error (ofString e.message)
  | .ok events => .ok ⟨[], events, false, false, readEvents_few h⟩

theorem Session.logs_eq_ok {read : RunRead} (h : s.logs = .ok read) :
    s.journal.readEvents s.file = .ok read.events := by
  unfold Session.logs at h
  split at h
  case h_1 => cases h
  case h_2 events he =>
    cases h
    exact he

/-- Where a reader is: before its first page, which may be a tail, at a cursor, or at the end. -/
inductive Reading where
  | first (tail : Option ℚ)
  | next (cursor : JsString)
  | ended
deriving DecidableEq

/-- A journal, a reader of its pages, the offset of its first page, and the events it has got. -/
structure LogReader where
  session : Session
  reading : Reading
  start : ℕ
  collected : List JournalEvent

/-- What happens to the journal, and the reading of a page. -/
inductive LogAct where
  | journal (a : JournalAct)
  | page (limit : Option ℚ)

/-- A reader of a new journal. -/
def LogReader.fresh (runId : RunId) (tail : Option ℚ) : LogReader :=
  ⟨.start runId, .first tail, 0, []⟩

/-- The options of the next page. -/
def Reading.options (limit : Option ℚ) : Reading → Option LogOptions
  | .first tail => some ⟨none, limit, tail⟩
  | .next cursor => some ⟨some cursor, limit, none⟩
  | .ended => none

/-- The offset of a page that is read with so many events in the journal. -/
def Reading.offset (total start : ℕ) : Reading → ℕ
  | .first tail => (tail.map fun n => total - n.num.toNat).getD 0
  | _ => start

namespace LogReader

/-- The reader with its next page. -/
def got (r : LogReader) (page : Page JsString JournalEvent) : LogReader where
  session := r.session
  reading := (page.next.map Reading.next).getD .ended
  start := r.reading.offset page.total r.start
  collected := r.collected ++ page.items

/-- One step; a page that is refused is none. -/
def step (r : LogReader) : LogAct → Option LogReader
  | .journal a => some { r with session := r.session.step a }
  | .page limit => (r.reading.options limit).bind fun options =>
      (readLogs r.session.logs options).toOption.map r.got

/-- The reader has the first of the events that are known, from the offset of its first page on. -/
structure Tracks (r : LogReader) (known : List JournalEvent) : Prop where
  reached : r.session.Reached
  numbered : known.map JournalEvent.sequence = List.range' 1 known.length
  grows : ∀ es, r.session.journal.readEvents r.session.file = .ok es → known <+: es
  collected : r.collected <+: known.drop r.start
  few : known.length < 2 ^ 32
  reading : match r.reading with
    | .first _ => r.collected = []
    | .next cursor => cursor = cursorText (r.start + r.collected.length) ∧
        r.start + r.collected.length < known.length
    | .ended => r.collected = known.drop r.start

theorem tracks_fresh (runId : RunId) (tail : Option ℚ) : (fresh runId tail).Tracks [] where
  reached := Session.reached_start runId
  numbered := rfl
  grows := fun _ _ => List.nil_prefix
  collected := List.nil_prefix
  few := by simp
  reading := rfl

variable {r : LogReader} {known : List JournalEvent}

/-- Nothing that happens to the journal changes what the reader has. -/
theorem Tracks.journal (h : r.Tracks known) (a : JournalAct) :
    ({ r with session := r.session.step a } : LogReader).Tracks known where
  reached := h.reached.step a
  numbered := h.numbered
  grows := by
    intro es hes
    rcases h.reached with ⟨before, left, ls, hg⟩ | hb
    · have hread := readEvents_holds hg.holds hg.size r.session.journal.sequence
      exact (h.grows before hread).trans (Session.events_step h.reached a hread hes)
    · exact absurd hes (hb.step a).not_read
  collected := h.collected
  few := h.few
  reading := h.reading

omit [SchemaText] in
theorem readLogs_cases {x : Except JsString RunRead} {options : LogOptions}
    {page : Page JsString JournalEvent} (h : readLogs x options = .ok page) :
    ∃ read, x = .ok read ∧ readLogs (.ok read) options = .ok page := by
  cases x with
  | ok read => exact ⟨read, rfl, h⟩
  | error e =>
    unfold readLogs at h
    simp only [Preflight.bind_eq_ok, mapError_eq_ok] at h
    obtain ⟨-, -, -, -, read, hread, -⟩ := h
    cases hread

theorem Tracks.offset (h : r.Tracks known) {limit : Option ℚ} {options : LogOptions}
    {es : List JournalEvent} {offset : ℕ} (ho : r.reading.options limit = some options)
    (hgrows : known <+: es) (hoffset : logOffset es options = .ok offset) :
    offset = r.reading.offset es.length r.start + r.collected.length ∧
      r.collected <+: es.drop (r.reading.offset es.length r.start) ∧ offset ≤ es.length := by
  have hreading := h.reading
  cases hr : r.reading with
  | ended =>
    rw [hr] at ho
    cases ho
  | first tail =>
    rw [hr] at ho hreading
    cases ho
    dsimp only at hreading
    rw [hreading]
    refine ⟨?_, List.nil_prefix, ?_⟩
    · cases tail with
      | none =>
        cases hoffset
        rfl
      | some n =>
        unfold logOffset at hoffset
        dsimp only at hoffset
        split_ifs at hoffset
        cases hoffset
        rfl
    · cases tail with
      | none =>
        cases hoffset
        exact Nat.zero_le _
      | some n =>
        unfold logOffset at hoffset
        dsimp only at hoffset
        split_ifs at hoffset
        cases hoffset
        exact Nat.sub_le _ _
  | next cursor =>
    rw [hr] at ho hreading
    cases ho
    obtain ⟨rfl, hlt⟩ := hreading
    have hfew := h.few
    have hmax : 2 ^ 32 ≤ maxSafeInteger := by decide
    have hle := hgrows.length_le
    unfold logOffset at hoffset
    dsimp only at hoffset
    rw [requestedOffset_cursorText (by omega)] at hoffset
    cases hoffset
    exact ⟨rfl, h.collected.trans (hgrows.drop r.start), by omega⟩

/-- **The reader has what the journal had at its page.** -/
theorem Tracks.page (h : r.Tracks known) {limit : Option ℚ} {options : LogOptions}
    {page : Page JsString JournalEvent} (ho : r.reading.options limit = some options)
    (hp : readLogs r.session.logs options = .ok page) :
    ∃ es, r.session.journal.readEvents r.session.file = .ok es ∧ (r.got page).Tracks es := by
  obtain ⟨read, hread, hp⟩ := readLogs_cases hp
  have hes := Session.logs_eq_ok hread
  have hgrows := h.grows _ hes
  obtain ⟨-, -, offset, hoffset, rfl⟩ := readLogs_ok_iff.mp hp
  obtain ⟨rfl, hprefix, hle⟩ := h.offset ho hgrows hoffset
  obtain ⟨hcollected, hlast, hnext⟩ := Page.slice_continues cursorText
    (options.limit.getD (options.tail.getD 100)).num.toNat hprefix hle
  refine ⟨read.events, hes, h.reached, readEvents_sequences hes, ?_, hcollected, read.few, ?_⟩
  · intro es' hes'
    cases hes.symm.trans hes'
    exact List.prefix_refl _
  · unfold got
    dsimp only
    cases hn : (Page.slice cursorText read.events
        (r.reading.offset read.events.length r.start + r.collected.length)
        (options.limit.getD (options.tail.getD 100)).num.toNat).next with
    | none => exact hlast hn
    | some k => exact hnext k hn

theorem step_page {limit : Option ℚ} {r' : LogReader} (h : r.step (.page limit) = some r') :
    ∃ options page, r.reading.options limit = some options ∧
      readLogs r.session.logs options = .ok page ∧ r' = r.got page := by
  obtain ⟨options, ho, h⟩ := Option.bind_eq_some_iff.mp h
  obtain ⟨page, hp, rfl⟩ := Option.map_eq_some_iff.mp h
  cases hx : readLogs r.session.logs options with
  | error e =>
    rw [hx] at hp
    cases hp
  | ok p =>
    rw [hx] at hp
    cases hp
    exact ⟨options, page, ho, hx, rfl⟩

/-- **Every step keeps track.** -/
theorem tracks_step {a : LogAct} {r' : LogReader} (h : ∃ known, r.Tracks known)
    (hr : r.step a = some r') : ∃ known, r'.Tracks known := by
  obtain ⟨known, h⟩ := h
  cases a with
  | journal a =>
    cases hr
    exact ⟨known, h.journal a⟩
  | page limit =>
    obtain ⟨options, page, ho, hp, rfl⟩ := step_page hr
    obtain ⟨es, -, htracks⟩ := h.page ho hp
    exact ⟨es, htracks⟩

theorem start_step {tail : Option ℚ} {a : LogAct} {r' : LogReader}
    (h : (tail = none → r.start = 0) ∧ ∀ t, r.reading = .first t → t = tail)
    (hr : r.step a = some r') :
    (tail = none → r'.start = 0) ∧ ∀ t, r'.reading = .first t → t = tail := by
  cases a with
  | journal a =>
    cases hr
    exact h
  | page limit =>
    obtain ⟨options, page, -, -, rfl⟩ := step_page hr
    constructor
    · intro htail
      change r.reading.offset page.total r.start = 0
      cases hreading : r.reading with
      | first t =>
        rw [h.2 t hreading, htail]
        rfl
      | next cursor => exact h.1 htail
      | ended => exact h.1 htail
    · intro t ht
      change (page.next.map Reading.next).getD .ended = .first t at ht
      cases hn : page.next <;> rw [hn] at ht <;> cases ht

end LogReader

/-- **A reader misses nothing and gets nothing twice**: whatever is appended and fails between its
pages, the events it has are numbered without a gap and are the first ones of what can be read from
its first page on, and with its last page it has all that the journal then held. -/
theorem logs_followed (runId : RunId) (tail : Option ℚ) (acts : List LogAct) (r : LogReader)
    (h : exec LogReader.step (.fresh runId tail) acts = some r) :
    (tail = none → r.start = 0) ∧
      r.collected.map JournalEvent.sequence = List.range' (r.start + 1) r.collected.length ∧
      (∀ es, r.session.journal.readEvents r.session.file = .ok es →
        r.collected <+: es.drop r.start) ∧
      ∀ limit r', r.step (.page limit) = some r' → r'.reading = .ended →
        ∃ es, r.session.journal.readEvents r.session.file = .ok es ∧
          r.session.acked.Sublist es ∧ r'.collected = es.drop r'.start := by
  obtain ⟨known, htracks⟩ := exec_preserves (fun r : LogReader => ∃ known, r.Tracks known)
    (fun _ _ _ hr hstep => LogReader.tracks_step hr hstep) ⟨[], LogReader.tracks_fresh runId tail⟩ h
  obtain ⟨hstart, -⟩ := exec_preserves
    (fun r : LogReader => (tail = none → r.start = 0) ∧ ∀ t, r.reading = .first t → t = tail)
    (fun _ _ _ hr hstep => LogReader.start_step hr hstep)
    ⟨fun _ => rfl, fun t ht => (Reading.first.inj ht).symm⟩ h
  refine ⟨hstart, ?_, ?_, ?_⟩
  · have hlength := htracks.collected.length_le
    rw [List.length_drop] at hlength
    have hnumbers := congrArg (List.map JournalEvent.sequence)
      (List.prefix_iff_eq_take.mp htracks.collected)
    rw [List.map_take, List.map_drop, htracks.numbered, List.drop_range',
      List.take_range'_of_length_ge hlength, Nat.mul_one, Nat.add_comm] at hnumbers
    exact hnumbers
  · exact fun es hes => htracks.collected.trans ((htracks.grows es hes).drop r.start)
  · intro limit r' hr hended
    obtain ⟨options, page, ho, hp, rfl⟩ := LogReader.step_page hr
    obtain ⟨es, hes, hgot⟩ := htracks.page ho hp
    have hall := hgot.reading
    rw [hended] at hall
    refine ⟨es, hes, ?_, hall⟩
    rcases htracks.reached with ⟨es', left, ls, hg⟩ | hb
    · cases (readEvents_holds hg.holds hg.size r.session.journal.sequence).symm.trans hes
      exact hg.acked
    · exact absurd hes hb.not_read

end

section Faults

local instance logsSchemaText : SchemaText := plainSchemaText

/-- A page of one event, an append that fails, and the journal opened again. -/
def pagesBetweenFaults : List LogAct :=
  [.journal (.append exampleCall .none), .journal (.append exampleCall .none), .page (some 1),
    .journal (.append exampleCall (.write 1)), .journal .reopen,
    .journal (.append exampleCall .none)]

/-- It has the three events that were acknowledged. -/
theorem logs_followed_betweenFaults : ∃ r r', exec LogReader.step (.fresh exampleRunId none)
      pagesBetweenFaults = some r ∧ r.collected.length = 1 ∧ r.step (.page none) = some r' ∧
      r.session.acked.length = 3 ∧ r.session.acked.Sublist r'.collected := by
  have hrun : (exec LogReader.step (.fresh exampleRunId none)
      pagesBetweenFaults).any (fun r =>
      decide (r.collected.length = 1 ∧ r.session.acked.length = 3) &&
        (r.step (.page none)).any fun r' =>
          decide (r'.reading = .ended ∧ r'.start = 0)) = true := by
    decide +kernel
  obtain ⟨r, hr, hchecks⟩ := (Option.any_eq_true _ _).mp hrun
  rw [Bool.and_eq_true] at hchecks
  obtain ⟨hlengths, hpage⟩ := hchecks
  obtain ⟨hcollected, hacked⟩ := of_decide_eq_true hlengths
  obtain ⟨r', hr', hend⟩ := (Option.any_eq_true _ _).mp hpage
  obtain ⟨hended, hzero⟩ := of_decide_eq_true hend
  obtain ⟨-, -, -, hlast⟩ := logs_followed exampleRunId none pagesBetweenFaults r hr
  obtain ⟨es, -, hsublist, hall⟩ := hlast none r' hr' hended
  rw [hzero, List.drop_zero] at hall
  refine ⟨r, r', hr, hcollected, hr', hacked, ?_⟩
  rw [hall]
  exact hsublist

end Faults

end PiSubagent
