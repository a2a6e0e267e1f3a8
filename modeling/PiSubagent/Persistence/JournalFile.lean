import PiSubagent.Persistence.Journal

/-!
# What a journal file holds

* `Records`: lines that hold the events of a run, one each, in sequence.
* `Holds`: a file with the complete lines of a list of events and an open rest.
* `Corrupt`: a file with a complete line that is not the record it should be.
* **`openJournal_holds`**, `readEvents_holds`: a file that holds events is opened with exactly these,
  and the open rest is cut off.
* **`openJournal_corrupt`**: a corrupt file is refused and left as it is, and stays corrupt whatever
  is appended to it.
-/

namespace PiSubagent

open JsonText Utf8 Lines

variable [SchemaText]

/-! ## Lines and events -/

/-- The lines are the records of the run from number `count + 1` on, and hold the events. -/
inductive Records (runId : JsString) : ℕ → List (List Char) → List JournalEvent → Prop where
  | nil (count : ℕ) : Records runId count [] []
  | cons {count : ℕ} {line : List Char} {e : JournalEvent} {ls : List (List Char)}
      {es : List JournalEvent} : IsRecord runId count line e → Records runId (count + 1) ls es →
        Records runId count (line :: ls) (e :: es)

variable {runId : JsString}

theorem parseLines_eq_ok {index : ℕ} {acc : List JournalEvent} {ls : List (List Char)}
    {res : List JournalEvent} :
    parseLines runId index acc ls = .ok res ↔ ∃ es, Records runId acc.length ls es ∧ res = acc ++ es := by
  induction ls generalizing index acc with
  | nil =>
    constructor
    · intro h
      exact ⟨[], .nil _, by rw [List.append_nil, ← Except.ok.inj h]⟩
    · rintro ⟨es, hr, rfl⟩
      cases hr
      rw [parseLines, List.append_nil]
  | cons line ls ih =>
    rw [parseLines]
    constructor
    · intro h
      split at h
      · cases h
      · rename_i e he
        obtain ⟨es, hr, rfl⟩ := ih.mp h
        rw [List.length_append, List.length_singleton] at hr
        exact ⟨e :: es, .cons (parseLine_eq_ok.mp he) hr, by rw [List.append_assoc]; rfl⟩
    · rintro ⟨_, hr, rfl⟩
      cases hr with
      | @cons _ _ e _ es he hr =>
        simp only [parseLine_eq_ok.mpr he]
        refine ih.mpr ⟨es, ?_, by rw [List.append_assoc]; rfl⟩
        rwa [List.length_append, List.length_singleton]

theorem Records.length_eq {count : ℕ} {ls : List (List Char)} {es : List JournalEvent}
    (h : Records runId count ls es) : ls.length = es.length := by
  induction h with
  | nil => rfl
  | cons _ _ ih => rw [List.length_cons, List.length_cons, ih]

/-- **The sequence numbers go up by one.** -/
theorem Records.sequences {count : ℕ} {ls : List (List Char)} {es : List JournalEvent}
    (h : Records runId count ls es) :
    es.map JournalEvent.sequence = List.range' (count + 1) es.length := by
  induction h with
  | nil => rfl
  | cons he _ ih =>
    obtain ⟨-, v, -, -, -, -, hs⟩ := he
    rw [List.map_cons, List.length_cons, List.range'_succ, ih, hs]

theorem Records.append {count : ℕ} {ls ms : List (List Char)} {es fs : List JournalEvent}
    (h : Records runId count ls es) (h' : Records runId (count + es.length) ms fs) :
    Records runId count (ls ++ ms) (es ++ fs) := by
  induction h with
  | nil => simpa using h'
  | cons he _ ih =>
    refine .cons he (ih ?_)
    rw [List.length_cons] at h'
    rwa [Nat.add_assoc, Nat.add_comm 1]

theorem Records.concat {ls : List (List Char)} {es : List JournalEvent} {line : List Char}
    {e : JournalEvent} (h : Records runId 0 ls es) (he : IsRecord runId es.length line e) :
    Records runId 0 (ls ++ [line]) (es ++ [e]) :=
  h.append (.cons (by rwa [Nat.zero_add]) (.nil _))

theorem Records.get {count : ℕ} {ls : List (List Char)} {es : List JournalEvent}
    (h : Records runId count ls es) {i : ℕ} {line : List Char} (hi : ls[i]? = some line) :
    ∃ e, IsRecord runId (count + i) line e := by
  induction h generalizing i with
  | nil => simp at hi
  | cons he _ ih =>
    cases i with
    | zero =>
      obtain rfl := Option.some.inj hi
      exact ⟨_, he⟩
    | succ i =>
      obtain ⟨e, hr⟩ := ih hi
      exact ⟨e, by rwa [Nat.add_assoc, Nat.add_comm 1] at hr⟩

/-! ## Bytes and lines -/

omit [SchemaText] in
theorem decode_join (bls : List Bytes) (tail : Bytes) :
    decode (join 10 bls ++ tail) = join '\n' (bls.map decode) ++ decode tail := by
  induction bls with
  | nil => rfl
  | cons b bls ih =>
    rw [join_cons, List.append_assoc, List.cons_append, decode_append_ascii _ _ _ (by decide), ih,
      List.map_cons, join_cons, List.append_assoc]
    rfl

omit [SchemaText] in
/-- **The lines of the text are the lines of the bytes.** -/
theorem complete_decode_join {bls : List Bytes} (h : ∀ b ∈ bls, (10 : UInt8) ∉ b) (tail : Bytes) :
    complete '\n' (decode (join 10 bls ++ tail)) =
      bls.map decode ++ complete '\n' (decode tail) := by
  rw [decode_join, complete_join]
  intro l hl
  obtain ⟨b, hb, rfl⟩ := List.mem_map.mp hl
  exact newline_not_mem_decode (h b hb)

omit [SchemaText] in
theorem encode_join (ls : List (List Char)) : encode (join '\n' ls) = join 10 (ls.map encode) := by
  induction ls with
  | nil => rfl
  | cons l ls ih =>
    rw [join_cons, ← List.singleton_append, encode_append, encode_append, ih, encode_newline,
      List.map_cons, join_cons]
    rfl

/-- The file holds the events, in complete lines, and then an open rest. -/
structure Holds (runId : JsString) (es : List JournalEvent) (left : Bytes) (bytes : Bytes)
    (ls : List (List Char)) : Prop where
  lines : ∀ l ∈ ls, '\n' ∉ l
  records : Records runId 0 ls es
  rest : (10 : UInt8) ∉ left
  eq : bytes = encode (join '\n' ls) ++ left

theorem Holds.parseJournal {es : List JournalEvent} {left bytes : Bytes} {ls : List (List Char)}
    (h : Holds runId es left bytes ls) : parseJournal (decode bytes) runId = .ok es := by
  rw [h.eq, PiSubagent.parseJournal, decode_encode_append,
    complete_join_rest h.lines (newline_not_mem_decode h.rest)]
  exact parseLines_eq_ok.mpr ⟨es, h.records, rfl⟩

omit [SchemaText] in
theorem truncate_append (xs ys : Bytes) : truncate xs.length (xs ++ ys) = xs := by
  rw [truncate, List.take_left,
    Nat.sub_eq_zero_of_le (by rw [List.length_append]; exact Nat.le_add_right _ _),
    List.replicate_zero, List.append_nil]

/-- **A cut is asked for exactly when something stands open**, and to the size of the lines. -/
theorem Holds.tornTailCut {es : List JournalEvent} {left bytes : Bytes} {ls : List (List Char)}
    (h : Holds runId es left bytes ls) :
    tornTailCut (decode bytes) =
      if left = [] then none else some (encode (join '\n' ls)).length := by
  have hleft : '\n' ∉ decode left := newline_not_mem_decode h.rest
  rw [h.eq, PiSubagent.tornTailCut, decode_encode_append]
  by_cases hl : left = []
  · rw [if_pos hl, hl, decode_nil, List.append_nil, if_pos]
    by_cases hj : join '\n' ls = []
    · exact Or.inl hj
    · exact Or.inr (getLast?_join hj)
  · have hne := decode_ne_nil hl
    rw [if_neg hl, if_neg, upToLast_join ls hleft]
    rintro (he | he)
    · exact hne (List.append_eq_nil_iff.mp he).2
    · rw [List.getLast?_append_of_ne_nil _ hne] at he
      exact hleft (List.mem_of_getLast? he)

/-- **The torn tail is cut off**, and nothing else. -/
theorem Holds.repairTornTail {es : List JournalEvent} {left bytes : Bytes} {ls : List (List Char)}
    (h : Holds runId es left bytes ls) :
    repairTornTail bytes (decode bytes) = encode (join '\n' ls) := by
  rw [PiSubagent.repairTornTail, h.tornTailCut]
  by_cases hl : left = []
  · rw [if_pos hl, h.eq, hl, List.append_nil]
  · rw [if_neg hl, h.eq]
    exact truncate_append _ _

theorem Holds.of_nil {es : List JournalEvent} {left : Bytes} {ls : List (List Char)}
    (h : Holds runId es left [] ls) : es = [] ∧ left = [] ∧ ls = [] := by
  obtain ⟨he, hl⟩ := List.append_eq_nil_iff.mp h.eq.symm
  rw [encode_join] at he
  have hls : ls = [] := by
    cases ls with
    | nil => rfl
    | cons l ls =>
      rw [List.map_cons, join_cons] at he
      exact absurd (List.append_eq_nil_iff.mp he).2 (List.cons_ne_nil _ _)
  refine ⟨?_, hl, hls⟩
  have hlen := h.records.length_eq
  rw [hls] at hlen
  exact List.length_eq_zero_iff.mp hlen.symm

/-- **A file that holds events is read as these.** -/
theorem readEvents_holds {file : Option Bytes} {es : List JournalEvent} {left : Bytes}
    {ls : List (List Char)} (h : Holds runId es left (file.getD []) ls)
    (hsize : (file.getD []).length ≤ maxJournalBytes) (n : ℕ) :
    (⟨runId, n⟩ : RunJournal).readEvents file = .ok es := by
  cases file with
  | none =>
    rw [(Holds.of_nil h).1]
    rfl
  | some bytes =>
    rw [Option.getD_some] at h hsize
    rw [RunJournal.readEvents, if_neg (Nat.not_lt.mpr hsize)]
    exact h.parseJournal

/-- **A file that holds events is opened with these**, and its open rest is cut off. -/
theorem openJournal_holds {file : Option Bytes} {es : List JournalEvent} {left : Bytes}
    {ls : List (List Char)} (h : Holds runId es left (file.getD []) ls)
    (hid : isRunId runId = true) (hsize : (file.getD []).length ≤ maxJournalBytes) :
    ∃ file', openJournal runId runId true file = (.ok ⟨runId, es.length⟩, file') ∧
      Holds runId es [] (file'.getD []) ls ∧ (file'.getD []).length ≤ maxJournalBytes := by
  cases file with
  | none =>
    obtain ⟨rfl, rfl, rfl⟩ := Holds.of_nil h
    refine ⟨none, ?_, h, hsize⟩
    simp [openJournal, hid]
  | some bytes =>
    rw [Option.getD_some] at h hsize
    refine ⟨some (encode (join '\n' ls)), ?_,
      ⟨h.lines, h.records, List.not_mem_nil, (List.append_nil _).symm⟩, ?_⟩
    · simp only [openJournal, hid, Bool.not_true, Bool.false_eq_true, if_false, ne_eq,
        not_true_eq_false, if_neg (Nat.not_lt.mpr hsize), h.parseJournal, h.repairTornTail]
    · have hlen := congrArg List.length h.eq
      rw [List.length_append] at hlen
      rw [Option.getD_some]
      omega

/-! ## Corrupt files -/

/-- A complete line of the file is not the record its place asks for. -/
def Corrupt (runId : JsString) (bytes : Bytes) : Prop :=
  ∃ (bls : List Bytes) (tail : Bytes), (∀ b ∈ bls, (10 : UInt8) ∉ b) ∧ bytes = join 10 bls ++ tail ∧
    ∃ i b, bls[i]? = some b ∧ ∀ e, ¬ IsRecord runId i (decode b) e

/-- **A corrupt file stays corrupt**, whatever is appended to it. -/
theorem Corrupt.append {bytes : Bytes} (h : Corrupt runId bytes) (more : Bytes) :
    Corrupt runId (bytes ++ more) := by
  obtain ⟨bls, tail, hb, rfl, hbad⟩ := h
  exact ⟨bls, tail ++ more, hb, List.append_assoc _ _ _, hbad⟩

theorem Corrupt.parseJournal {bytes : Bytes} (h : Corrupt runId bytes) :
    ∃ err, parseJournal (decode bytes) runId = .error err := by
  obtain ⟨bls, tail, hb, rfl, i, b, hi, hbad⟩ := h
  cases hp : PiSubagent.parseJournal (decode (join 10 bls ++ tail)) runId with
  | error err => exact ⟨err, rfl⟩
  | ok es =>
    rw [PiSubagent.parseJournal, complete_decode_join hb] at hp
    obtain ⟨es', hr, -⟩ := parseLines_eq_ok.mp hp
    have hlt : i < bls.length := (List.getElem?_eq_some_iff.mp hi).1
    have hline : (bls.map decode ++ complete '\n' (decode tail))[i]? = some (decode b) := by
      rw [List.getElem?_append_left (by rwa [List.length_map]), List.getElem?_map, hi]
      rfl
    obtain ⟨e, he⟩ := hr.get hline
    rw [List.length_nil, Nat.zero_add] at he
    exact absurd he (hbad e)

/-- **A corrupt file is refused and left as it is.** -/
theorem openJournal_corrupt {bytes : Bytes} (h : Corrupt runId bytes) (lease : JsString)
    (current : Bool) :
    ∃ err, openJournal runId lease current (some bytes) = (.error err, some bytes) := by
  obtain ⟨err, herr⟩ := h.parseJournal
  unfold openJournal
  split_ifs
  · exact ⟨_, rfl⟩
  · exact ⟨_, rfl⟩
  · exact ⟨_, rfl⟩
  · simp only [herr]
    split_ifs
    · exact ⟨_, rfl⟩
    · exact ⟨_, rfl⟩

theorem readEvents_corrupt {bytes : Bytes} (h : Corrupt runId bytes) (n : ℕ) :
    ∃ err, (⟨runId, n⟩ : RunJournal).readEvents (some bytes) = .error err := by
  obtain ⟨err, herr⟩ := h.parseJournal
  unfold RunJournal.readEvents
  simp only [herr]
  split_ifs
  · exact ⟨_, rfl⟩
  · exact ⟨_, rfl⟩

/-! ## What an append does to the file -/

/-- The event and line of an append that gets past every check before the write. -/
def RunJournal.admits (j : RunJournal) (c : AppendCall) (file : Option Bytes) :
    Option (JournalEvent × Bytes) :=
  match j.serialize c with
  | .error _ => none
  | .ok (event, line) =>
    if maxJournalBytes < (file.getD []).length + line.length ∧ file ≠ none then none
    else some (event, line)

/-- The bytes of a line that reach the file. -/
def AppendFault.reaches (fault : AppendFault) (line : Bytes) : Bytes :=
  match fault with
  | .none | .sync | .close => line
  | .write k => line.take k
  | .lease | .stat | .openFile => []

/-- The bytes an append puts at the end of the file. -/
def RunJournal.written (j : RunJournal) (c : AppendCall) (fault : AppendFault)
    (file : Option Bytes) : Bytes :=
  match j.admits c file with
  | none => []
  | some (_, line) => fault.reaches line

theorem RunJournal.serialize_eq_ok {j : RunJournal} {c : AppendCall} {e : JournalEvent}
    {line : Bytes} (h : j.serialize c = .ok (e, line)) :
    ∃ data, c.data = some data ∧ e = j.event c data.json ∧ e.check = true ∧
      line = encode e.line ++ [10] ∧ line.length ≤ maxEventBytes := by
  unfold serialize at h
  split_ifs at h with hc
  split at h
  · cases h
  · rename_i data hd
    dsimp only at h
    split at h
    · cases h
    · split_ifs at h with hl
      obtain ⟨rfl, rfl⟩ := Prod.mk.inj (Except.ok.inj h)
      have hcheck : (j.event c .null).check = true := by simpa using hc
      refine ⟨data, hd, rfl, hcheck, ?_, Nat.not_lt.mp hl⟩
      rw [encode_append, encode_newline]

/-- What a serialized append brings: an event the schema accepts, and its line. -/
theorem RunJournal.serialize_event {j : RunJournal} {c : AppendCall} {e : JournalEvent}
    {line : Bytes} (h : j.serialize c = .ok (e, line)) :
    e.data.Proper ∧ e.check = true ∧ e.runId = j.runId ∧ e.sequence = j.sequence + 1 ∧
      line = encode e.line ++ [10] := by
  obtain ⟨data, -, rfl, hc, hl, -⟩ := serialize_eq_ok h
  exact ⟨data.proper, hc, rfl, rfl, hl⟩

/-- **What an admitted line is.** -/
theorem RunJournal.admits_eq_some {j : RunJournal} {c : AppendCall} {file : Option Bytes}
    {e : JournalEvent} {line : Bytes} (h : j.admits c file = some (e, line)) :
    j.serialize c = .ok (e, line) ∧ (file.getD []).length + line.length ≤ maxJournalBytes := by
  unfold admits at h
  split at h
  · cases h
  · rename_i e' line' hs
    split_ifs at h with hl
    obtain ⟨rfl, rfl⟩ := Prod.mk.inj (Option.some.inj h)
    refine ⟨hs, ?_⟩
    by_cases hf : file = none
    · obtain ⟨-, -, -, -, -, hlen⟩ := serialize_eq_ok hs
      rw [hf]
      exact le_trans (by simpa using hlen) (by decide)
    · exact Nat.not_lt.mp fun hlt => hl ⟨hlt, hf⟩

theorem RunJournal.admits_event {j : RunJournal} {file : Option Bytes} {c : AppendCall}
    {e : JournalEvent} {line : Bytes} (ha : j.admits c file = some (e, line)) :
    e.data.Proper ∧ e.check = true ∧ e.runId = j.runId ∧ e.sequence = j.sequence + 1 ∧
      line = encode e.line ++ [10] ∧ (file.getD [] ++ line).length ≤ maxJournalBytes := by
  obtain ⟨hs, hsize⟩ := admits_eq_some ha
  obtain ⟨hd, hc, hid, hq, hl⟩ := serialize_event hs
  exact ⟨hd, hc, hid, hq, hl, by rwa [List.length_append]⟩

/-- **Everything an append can do**: nothing, fail after some bytes, or succeed. -/
theorem RunJournal.append_cases (j : RunJournal) (c : AppendCall) (fault : AppendFault)
    (file : Option Bytes) :
    (∃ err, j.append c fault file = (.error err, j, file) ∧ j.written c fault file = []) ∨
      (∃ e line, j.admits c file = some (e, line) ∧ j.written c fault file = fault.reaches line ∧
        j.append c fault file = (.error .io, j, some (file.getD [] ++ fault.reaches line))) ∨
      (∃ e line, j.admits c file = some (e, line) ∧ j.written c fault file = line ∧
        fault.reaches line = line ∧
        j.append c fault file =
          (.ok e, { j with sequence := e.sequence }, some (file.getD [] ++ line))) := by
  unfold append
  by_cases hlease : fault = .lease
  · rw [if_pos hlease]
    refine Or.inl ⟨_, rfl, ?_⟩
    rw [hlease, written]
    split <;> rfl
  rw [if_neg hlease]
  cases hs : j.serialize c with
  | error err =>
    exact Or.inl ⟨err, rfl, by simp only [written, admits, hs]⟩
  | ok p =>
    obtain ⟨e, line⟩ := p
    dsimp only
    by_cases hstat : fault = .stat
    · rw [if_pos hstat]
      refine Or.inl ⟨_, rfl, ?_⟩
      rw [hstat, written]
      split <;> rfl
    rw [if_neg hstat]
    by_cases hsize : maxJournalBytes < (file.getD []).length + line.length ∧ file ≠ none
    · rw [if_pos hsize]
      refine Or.inl ⟨_, rfl, ?_⟩
      simp only [written, admits, hs, if_pos hsize]
    rw [if_neg hsize]
    have hadm : j.admits c file = some (e, line) := by simp only [admits, hs, if_neg hsize]
    have hwr : j.written c fault file = fault.reaches line := by simp only [written, hadm]
    cases fault with
    | none => exact Or.inr (Or.inr ⟨e, line, hadm, hwr, rfl, rfl⟩)
    | openFile => exact Or.inl ⟨_, rfl, hwr⟩
    | write k => exact Or.inr (Or.inl ⟨e, line, hadm, hwr, rfl⟩)
    | sync => exact Or.inr (Or.inl ⟨e, line, hadm, hwr, rfl⟩)
    | close => exact Or.inr (Or.inl ⟨e, line, hadm, hwr, rfl⟩)
    | lease => exact absurd rfl hlease
    | stat => exact absurd rfl hstat

omit [SchemaText] in
/-- The bytes that reach the file are the whole line or a part of it without the newline. -/
theorem AppendFault.reaches_cases (fault : AppendFault) {body : Bytes} (h : (10 : UInt8) ∉ body) :
    fault.reaches (body ++ [10]) = body ++ [10] ∨
      ((10 : UInt8) ∉ fault.reaches (body ++ [10]) ∧ ∃ k, fault.reaches (body ++ [10]) = body.take k) := by
  have hpart : ∀ k, body.length < k ∨ (body ++ [10]).take k = body.take k := by
    intro k
    rcases Nat.lt_or_ge body.length k with hk | hk
    · exact Or.inl hk
    · exact Or.inr (by rw [List.take_append_of_le_length hk])
  cases fault with
  | none => exact Or.inl rfl
  | sync => exact Or.inl rfl
  | close => exact Or.inl rfl
  | write k =>
    rcases hpart k with hk | hk
    · exact Or.inl (List.take_of_length_le (by rw [List.length_append]; exact hk))
    · refine Or.inr ⟨?_, k, hk⟩
      intro hm
      rw [reaches, hk] at hm
      exact h (List.mem_of_mem_take hm)
  | lease => exact Or.inr ⟨List.not_mem_nil, 0, rfl⟩
  | stat => exact Or.inr ⟨List.not_mem_nil, 0, rfl⟩
  | openFile => exact Or.inr ⟨List.not_mem_nil, 0, rfl⟩

omit [SchemaText] in
theorem newline_notMem_encode_line (e : JournalEvent) : (10 : UInt8) ∉ encode e.line :=
  newline_not_mem_encode e.newline_notMem_line

/-- **A whole line on a file without an open rest is one more record.** -/
theorem Holds.append_line {runId : JsString} {es : List JournalEvent} {bytes : Bytes}
    {ls : List (List Char)} (h : Holds runId es [] bytes ls) {e : JournalEvent}
    (hd : e.data.Proper) (hc : e.check = true) (hid : e.runId = runId)
    (hs : e.sequence = es.length + 1) :
    Holds runId (es ++ [e]) [] (bytes ++ (encode e.line ++ [10])) (ls ++ [e.line]) where
  lines := by
    intro l hl
    rcases List.mem_append.mp hl with hl | hl
    · exact h.lines l hl
    · rw [List.mem_singleton.mp hl]
      exact e.newline_notMem_line
  records := h.records.concat (hid ▸ JournalEvent.isRecord hd hc hs)
  rest := List.not_mem_nil
  eq := by
    rw [h.eq, List.append_nil, List.append_nil, join_concat, encode_append, encode_append,
      encode_newline, List.append_assoc]

/-- Bytes without a newline only lengthen the open rest. -/
theorem Holds.append_rest {runId : JsString} {es : List JournalEvent} {left bytes : Bytes}
    {ls : List (List Char)} (h : Holds runId es left bytes ls) {more : Bytes}
    (hm : (10 : UInt8) ∉ more) : Holds runId es (left ++ more) (bytes ++ more) ls where
  lines := h.lines
  records := h.records
  rest := by
    rw [List.mem_append]
    exact fun hc => hc.elim h.rest hm
  eq := by rw [h.eq, List.append_assoc]

/-- **A complete line that is not the next record corrupts the file.** -/
theorem Holds.corrupt {runId : JsString} {es : List JournalEvent} {left bytes : Bytes}
    {ls : List (List Char)} (h : Holds runId es left bytes ls) {body : Bytes}
    (hb : (10 : UInt8) ∉ body) (hbad : ∀ e, ¬ IsRecord runId es.length (decode (left ++ body)) e) :
    Corrupt runId (bytes ++ (body ++ [10])) := by
  refine ⟨ls.map encode ++ [left ++ body], [], ?_, ?_, ls.length, left ++ body, ?_, ?_⟩
  · intro b hmem
    rcases List.mem_append.mp hmem with hmem | hmem
    · obtain ⟨l, hl, rfl⟩ := List.mem_map.mp hmem
      exact newline_not_mem_encode (h.lines l hl)
    · rw [List.mem_singleton.mp hmem, List.mem_append]
      exact fun hc => hc.elim h.rest hb
  · rw [h.eq, encode_join, join_concat, List.append_nil]
    simp only [List.append_assoc]
  · rw [List.getElem?_append_right (by rw [List.length_map]), List.length_map, Nat.sub_self]
    rfl
  · rwa [h.records.length_eq]

end PiSubagent
