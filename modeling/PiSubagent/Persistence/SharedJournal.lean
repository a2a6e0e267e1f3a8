import PiSubagent.Persistence.JournalFile

/-!
# One journal file, opened several times

Every `RunJournal` keeps a sequence counter of its own. Here several of them stand on one file, and
the steps of their opens and appends come in any order.

* `SharedJournal`, `SharedJournal.act`: the file, the opened journals, and what their steps do.
* `SharedJournal.Fresh`: no line has been appended since the journal that acts read the file.
* `SharedJournal.Intact`: the file is accepted, and holds every acknowledged event exactly once.
* **`SharedJournal.Sound.act`**: steps of fresh journals keep the file intact.
-/

namespace PiSubagent

open JsonText Utf8 Lines

variable [SchemaText]

/-- A journal that has been opened, or is being opened: the number of lines that had been appended
when it read the file, the cut its open still owes, and the event it has written but not yet
acknowledged. -/
structure Opener where
  journal : RunJournal
  seen : ℕ
  cut : Option ℕ
  wrote : Option JournalEvent

/-- A journal file, the number of lines appended to it, the events acknowledged, and the journals
opened on it. -/
structure SharedJournal where
  runId : JsString
  file : Option Bytes
  lines : ℕ
  acked : List JournalEvent
  openers : ℕ → Option Opener

/-- A step of the journal with the given number. -/
inductive SharedAct where
  | read (i : ℕ)
  | repair (i : ℕ)
  | write (i : ℕ) (c : AppendCall)
  | ack (i : ℕ)

namespace SharedJournal

/-- The journal that `open` makes of the file it has just read. -/
def opener (s : SharedJournal) : Option Opener :=
  match s.file with
  | none => some ⟨⟨s.runId, 0⟩, s.lines, none, none⟩
  | some bytes =>
    if maxJournalBytes < bytes.length then none
    else
      match parseJournal (decode bytes) s.runId with
      | .error _ => none
      | .ok events => some ⟨⟨s.runId, events.length⟩, s.lines, tornTailCut (decode bytes), none⟩

/-- One step. -/
def act (s : SharedJournal) : SharedAct → SharedJournal
  | .read i => { s with openers := Function.update s.openers i s.opener }
  | .repair i =>
    match s.openers i with
    | none => s
    | some o =>
      match o.cut with
      | none => s
      | some n =>
        { s with
          file := s.file.map (truncate n)
          openers := Function.update s.openers i (some { o with cut := none }) }
  | .write i c =>
    match s.openers i with
    | some ⟨j, _, none, none⟩ =>
      match j.serialize c with
      | .error _ => s
      | .ok (event, line) =>
        { s with
          file := some (s.file.getD [] ++ line)
          lines := s.lines + 1
          openers := Function.update s.openers i (some ⟨j, s.lines + 1, none, some event⟩) }
    -- the open has not returned, or the last append of this journal has not
    | _ => s
  | .ack i =>
    match s.openers i with
    | none => s
    | some o =>
      match o.wrote with
      | none => s
      | some event =>
        { s with
          acked := s.acked ++ [event]
          openers := Function.update s.openers i
            (some { o with journal := { o.journal with sequence := event.sequence }, wrote := none }) }

/-- When the step cuts the file or puts a line in it, no line has been appended since its journal
read the file. -/
def Fresh (s : SharedJournal) : SharedAct → Prop
  | .repair i => ∀ o ∈ s.openers i, ∀ n ∈ o.cut, o.seen = s.lines
  | .write i _ => ∀ o ∈ s.openers i, o.seen = s.lines
  | _ => True

instance (s : SharedJournal) : (a : SharedAct) → Decidable (s.Fresh a)
  | .read _ => .isTrue trivial
  | .repair i => inferInstanceAs (Decidable (∀ o ∈ s.openers i, ∀ n ∈ o.cut, o.seen = s.lines))
  | .write i _ => inferInstanceAs (Decidable (∀ o ∈ s.openers i, o.seen = s.lines))
  | .ack _ => .isTrue trivial

/-- The file is accepted, its events are numbered from 1 without gap or repeat, and every
acknowledged event is in it exactly once. -/
def Intact (s : SharedJournal) : Prop :=
  ∃ es, parseJournal (decode (s.file.getD [])) s.runId = .ok es ∧
    es.map JournalEvent.sequence = List.range' 1 es.length ∧
    (s.acked.map JournalEvent.sequence).Nodup ∧ ∀ e ∈ s.acked, ∃! k : ℕ, es[k]? = some e

/-- An opened journal on a file that holds events: it has counted the lines it has seen; the cut it
owes is to the size of the file's lines, unless another journal has appended one; and what it has
written is in the file. -/
structure Opener.Sound (base : ℕ) (s : SharedJournal) (es : List JournalEvent) (left : Bytes)
    (ls : List (List Char)) (o : Opener) : Prop where
  runId : o.journal.runId = s.runId
  seen : o.seen ≤ s.lines
  sequence : o.journal.sequence + (if o.wrote.isSome then 1 else 0) = base + o.seen
  cut : ∀ n, o.cut = some n → o.seen = s.lines → n = (encode (join '\n' ls)).length
  noCut : o.cut = none → left = []
  wrote : ∀ e, o.wrote = some e → e ∈ es ∧ e.sequence = o.journal.sequence + 1 ∧
    e.sequence ∉ s.acked.map JournalEvent.sequence

/-- What the steps of fresh journals keep: the file holds events, one for each line appended after
the `base` it held at first, the acknowledged ones among them. -/
structure Sound (base : ℕ) (s : SharedJournal) (es : List JournalEvent) (left : Bytes)
    (ls : List (List Char)) : Prop where
  holds : Holds s.runId es left (s.file.getD []) ls
  count : es.length = base + s.lines
  openers : ∀ i o, s.openers i = some o → Opener.Sound base s es left ls o
  apart : ∀ i j o p e f, i ≠ j → s.openers i = some o → s.openers j = some p →
    o.wrote = some e → p.wrote = some f → e.sequence ≠ f.sequence
  acked : ∀ e ∈ s.acked, e ∈ es
  ackedOnce : (s.acked.map JournalEvent.sequence).Nodup

/-- An event stands at one place only in a list of records. -/
theorem records_existsUnique {runId : JsString} {count : ℕ} {ls : List (List Char)}
    {es : List JournalEvent} (h : Records runId count ls es) {e : JournalEvent} (he : e ∈ es) :
    ∃! k : ℕ, es[k]? = some e := by
  obtain ⟨k, hk⟩ := List.mem_iff_getElem?.mp he
  refine ⟨k, hk, ?_⟩
  have hat : ∀ j : ℕ, es[j]? = some e → e.sequence = count + 1 + j := by
    intro j hj
    have hlt : j < es.length := (List.getElem?_eq_some_iff.mp hj).1
    have h1 : (es.map JournalEvent.sequence)[j]? = some e.sequence := by
      rw [List.getElem?_map, hj]
      rfl
    rw [h.sequences, List.getElem?_range' hlt] at h1
    have h2 := Option.some.inj h1
    omega
  intro j hj
  have := hat j hj
  have := hat k hk
  omega

variable {base : ℕ} {s : SharedJournal} {es : List JournalEvent} {left : Bytes}
  {ls : List (List Char)}

/-- **A sound file is intact.** -/
theorem Sound.intact (h : Sound base s es left ls) : s.Intact :=
  ⟨es, h.holds.parseJournal, h.holds.records.sequences, h.ackedOnce,
    fun e he => records_existsUnique h.holds.records (h.acked e he)⟩

omit [SchemaText] in
theorem update_eq_some {i j : ℕ} {x : Option Opener} {p : Opener}
    (h : Function.update s.openers i x j = some p) :
    j = i ∧ x = some p ∨ j ≠ i ∧ s.openers j = some p := by
  by_cases hj : j = i
  · subst hj
    rw [Function.update_self] at h
    exact Or.inl ⟨rfl, h⟩
  · rw [Function.update_of_ne hj] at h
    exact Or.inr ⟨hj, h⟩

theorem Sound.opener_eq_some (h : Sound base s es left ls) {o : Opener} (ho : s.opener = some o) :
    o = ⟨⟨s.runId, es.length⟩, s.lines,
      if left = [] then none else some (encode (join '\n' ls)).length, none⟩ := by
  have hh := h.holds
  unfold opener at ho
  split at ho
  · rename_i hf
    rw [hf, Option.getD_none] at hh
    obtain ⟨rfl, rfl, rfl⟩ := Holds.of_nil hh
    rw [← Option.some.inj ho]
    rfl
  · rename_i bytes hf
    rw [hf, Option.getD_some] at hh
    split_ifs at ho
    rw [hh.parseJournal, hh.tornTailCut] at ho
    exact (Option.some.inj ho).symm

/-- **Reading the file makes a fresh journal.** -/
theorem Sound.read (h : Sound base s es left ls) (i : ℕ) :
    Sound base (s.act (.read i)) es left ls := by
  refine ⟨h.holds, h.count, ?_, ?_, h.acked, h.ackedOnce⟩
  · intro j p hp
    rcases update_eq_some hp with ⟨rfl, hx⟩ | ⟨-, hx⟩
    · rw [h.opener_eq_some hx]
      refine ⟨rfl, le_rfl, h.count, ?_, ?_, nofun⟩
      · intro n hn _
        split_ifs at hn
        exact (Option.some.inj hn).symm
      · intro hn
        by_contra hl
        rw [if_neg hl] at hn
        cases hn
    · have ho := h.openers j p hx
      exact ⟨ho.runId, ho.seen, ho.sequence, ho.cut, ho.noCut, ho.wrote⟩
  · intro j k p q e f hjk hp hq he hf
    rcases update_eq_some hp with ⟨rfl, hx⟩ | ⟨-, hx⟩
    · rw [h.opener_eq_some hx] at he
      cases he
    · rcases update_eq_some hq with ⟨rfl, hy⟩ | ⟨-, hy⟩
      · rw [h.opener_eq_some hy] at hf
        cases hf
      · exact h.apart j k p q e f hjk hx hy he hf

/-- **A cut that a fresh journal owes takes the open rest, and no line.** -/
theorem Sound.repair (h : Sound base s es left ls) {i : ℕ} (hf : s.Fresh (.repair i)) :
    ∃ left', Sound base (s.act (.repair i)) es left' ls := by
  cases hi : s.openers i with
  | none => exact ⟨left, by simpa only [act, hi] using h⟩
  | some o =>
    cases hc : o.cut with
    | none => exact ⟨left, by simpa only [act, hi, hc] using h⟩
    | some n =>
      have hn : n = (encode (join '\n' ls)).length :=
        (h.openers i o hi).cut n hc (hf o hi n hc)
      have hfile : (s.file.map (truncate n)).getD [] = encode (join '\n' ls) := by
        have hh := h.holds.eq
        cases hs : s.file with
        | none =>
          rw [hs, Option.getD_none] at hh
          exact (List.append_eq_nil_iff.mp hh.symm).1.symm
        | some bytes =>
          rw [hs, Option.getD_some] at hh
          rw [Option.map_some, Option.getD_some, hh, hn, truncate_append]
      refine ⟨[], ?_⟩
      simp only [act, hi, hc]
      refine ⟨⟨h.holds.lines, h.holds.records, List.not_mem_nil, ?_⟩, h.count, ?_, ?_, h.acked,
        h.ackedOnce⟩
      · rw [hfile, List.append_nil]
      · intro j p hp
        rcases update_eq_some hp with ⟨rfl, hx⟩ | ⟨-, hx⟩
        · have ho := h.openers j o hi
          obtain rfl := Option.some.inj hx
          exact ⟨ho.runId, ho.seen, ho.sequence, nofun, fun _ => rfl, ho.wrote⟩
        · have ho := h.openers j p hx
          exact ⟨ho.runId, ho.seen, ho.sequence, ho.cut, fun _ => rfl, ho.wrote⟩
      · intro j k p q e f hjk hp hq he hf
        have hsame : ∀ {j : ℕ} {p : Opener} {e : JournalEvent},
            Function.update s.openers i (some { o with cut := none }) j = some p →
              p.wrote = some e → ∃ p', s.openers j = some p' ∧ p'.wrote = some e := by
          intro j p e hp he
          rcases update_eq_some hp with ⟨rfl, hx⟩ | ⟨-, hx⟩
          · exact ⟨o, hi, by rw [← he, ← Option.some.inj hx]⟩
          · exact ⟨p, hx, he⟩
        obtain ⟨p', hp', he'⟩ := hsame hp he
        obtain ⟨q', hq', hf'⟩ := hsame hq hf
        exact h.apart j k p' q' e f hjk hp' hq' he' hf'

/-- The events of a sound file have the numbers up to their count. -/
theorem Sound.sequence_le (h : Sound base s es left ls) {e : JournalEvent} (he : e ∈ es) :
    e.sequence ≤ es.length := by
  have hm : e.sequence ∈ es.map JournalEvent.sequence := List.mem_map_of_mem he
  rw [h.holds.records.sequences, List.mem_range'_1] at hm
  omega

/-- A write does nothing, or it comes from a journal whose open has returned and that waits for no
append. -/
theorem act_write_cases (s : SharedJournal) (i : ℕ) (c : AppendCall) :
    s.act (.write i c) = s ∨ ∃ j n e line, s.openers i = some ⟨j, n, none, none⟩ ∧
      j.serialize c = .ok (e, line) := by
  simp only [act]
  split
  · rename_i j n hi
    cases hs : j.serialize c with
    | error err => exact Or.inl rfl
    | ok r => exact Or.inr ⟨j, n, r.1, r.2, hi, hs⟩
  · exact Or.inl rfl

/-- **The line of a fresh journal is the next record.** -/
theorem Sound.write (h : Sound base s es left ls) {i : ℕ} {c : AppendCall}
    (hf : s.Fresh (.write i c)) : ∃ es' left' ls', Sound base (s.act (.write i c)) es' left' ls' := by
  rcases s.act_write_cases i c with he | ⟨jo, n, e, line, hi, hs⟩
  · exact ⟨es, left, ls, by rwa [he]⟩
  · have ho := h.openers i _ hi
    obtain rfl : left = [] := ho.noCut rfl
    obtain ⟨hd, hc, hid, hseq, rfl⟩ := RunJournal.serialize_event hs
    have hnext : e.sequence = es.length + 1 := by
      have h1 : jo.sequence + 0 = base + n := ho.sequence
      have h2 : n = s.lines := hf _ hi
      rw [hseq, h.count]
      omega
    refine ⟨es ++ [e], [], ls ++ [e.line], ?_⟩
    simp only [act, hi, hs]
    refine ⟨h.holds.append_line hd hc (hid.trans ho.runId) hnext, ?_, ?_, ?_,
      fun x hx => List.mem_append_left _ (h.acked x hx), h.ackedOnce⟩
    · rw [List.length_append, h.count]
      rfl
    · intro j p hp
      rcases update_eq_some hp with ⟨rfl, hx⟩ | ⟨-, hx⟩
      · obtain rfl := Option.some.inj hx
        refine ⟨ho.runId, le_rfl, ?_, nofun, fun _ => rfl, ?_⟩
        · have hcount := h.count
          simp only [Option.isSome_some, if_true]
          omega
        · intro x hx
          obtain rfl := Option.some.inj hx
          refine ⟨List.mem_append_right _ List.mem_cons_self, hseq, ?_⟩
          intro hm
          obtain ⟨y, hy, hye⟩ := List.mem_map.mp hm
          have := h.sequence_le (h.acked y hy)
          omega
      · have hp' := h.openers j p hx
        refine ⟨hp'.runId, Nat.le_succ_of_le hp'.seen, hp'.sequence, ?_, fun _ => rfl, ?_⟩
        · intro n _ hseen
          have := hp'.seen
          exact absurd hseen (by simp only; omega)
        · intro x hx'
          obtain ⟨h1, h2⟩ := hp'.wrote x hx'
          exact ⟨List.mem_append_left _ h1, h2⟩
    · have hold : ∀ {j : ℕ} {p : Opener} {x : JournalEvent}, s.openers j = some p →
          p.wrote = some x → x.sequence ≠ e.sequence := by
        intro j p x hp hx
        have := h.sequence_le ((h.openers j p hp).wrote x hx).1
        omega
      intro j k p q x y hjk hp hq hx hy
      rcases update_eq_some hp with ⟨rfl, hx'⟩ | ⟨-, hx'⟩ <;>
        rcases update_eq_some hq with ⟨rfl, hy'⟩ | ⟨-, hy'⟩
      · exact absurd rfl hjk
      · obtain rfl := Option.some.inj hx'
        obtain rfl := Option.some.inj hx
        exact (hold hy' hy).symm
      · obtain rfl := Option.some.inj hy'
        obtain rfl := Option.some.inj hy
        exact hold hx' hx
      · exact h.apart j k p q x y hjk hx' hy' hx hy

/-- **Acknowledging an event that has been written.** -/
theorem Sound.ack (h : Sound base s es left ls) (i : ℕ) : Sound base (s.act (.ack i)) es left ls := by
  cases hi : s.openers i with
  | none => simpa only [act, hi] using h
  | some o =>
    cases hw : o.wrote with
    | none => simpa only [act, hi, hw] using h
    | some e =>
      have ho := h.openers i o hi
      obtain ⟨he, hseq, hnew⟩ := ho.wrote e hw
      simp only [act, hi, hw]
      refine ⟨h.holds, h.count, ?_, ?_, ?_, ?_⟩
      · intro j p hp
        rcases update_eq_some hp with ⟨rfl, hx⟩ | ⟨hj, hx⟩
        · obtain rfl := Option.some.inj hx
          refine ⟨ho.runId, ho.seen, ?_, ho.cut, ho.noCut, nofun⟩
          have hq := ho.sequence
          rw [hw] at hq
          simp only [Option.isSome_none, Bool.false_eq_true, if_false, Nat.add_zero]
          rw [hseq, ← hq]
          rfl
        · have hp' := h.openers j p hx
          refine ⟨hp'.runId, hp'.seen, hp'.sequence, hp'.cut, hp'.noCut, ?_⟩
          intro x hxw
          obtain ⟨h1, hq, h2⟩ := hp'.wrote x hxw
          refine ⟨h1, hq, ?_⟩
          rw [List.map_append, List.mem_append]
          rintro (hm | hm)
          · exact h2 hm
          · exact h.apart j i p o x e hj hx hi hxw hw (List.mem_singleton.mp hm)
      · intro j k p q x y hjk hp hq hx hy
        rcases update_eq_some hp with ⟨rfl, hx'⟩ | ⟨-, hx'⟩
        · obtain rfl := Option.some.inj hx'
          cases hx
        · rcases update_eq_some hq with ⟨rfl, hy'⟩ | ⟨-, hy'⟩
          · obtain rfl := Option.some.inj hy'
            cases hy
          · exact h.apart j k p q x y hjk hx' hy' hx hy
      · intro x hx
        rcases List.mem_append.mp hx with hx | hx
        · exact h.acked x hx
        · exact List.mem_singleton.mp hx ▸ he
      · rw [List.map_append, List.nodup_append]
        refine ⟨h.ackedOnce, by simp, ?_⟩
        intro a ha b hb hab
        obtain rfl := List.mem_singleton.mp hb
        exact hnew (hab ▸ ha)

/-- **Steps of fresh journals keep the file intact.** -/
theorem Sound.act (h : Sound base s es left ls) {a : SharedAct} (hf : s.Fresh a) :
    ∃ es' left' ls', Sound base (s.act a) es' left' ls' := by
  cases a with
  | read i => exact ⟨es, left, ls, h.read i⟩
  | repair i =>
    obtain ⟨left', h'⟩ := h.repair hf
    exact ⟨es, left', ls, h'⟩
  | write i c => exact h.write hf
  | ack i => exact ⟨es, left, ls, h.ack i⟩

end SharedJournal

end PiSubagent
