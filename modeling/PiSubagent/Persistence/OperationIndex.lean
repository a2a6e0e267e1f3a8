import PiSubagent.Contracts
import PiSubagent.Lib.Calls
import PiSubagent.Lib.JsonSize

/-!
# The operation index

`OperationIndex.claim` and `OperationIndex.find`, step by step. A claim writes its record to a
temporary file of its own and publishes it by `link`, which fails where a record exists; nobody
replaces a record. The file of a pair is named by the digest of the owner id, a NUL and the
operation id.

* `recordKey`, `pairText`: the name of a pair's file, and the text it is the digest of.
* `corruption`: what reading the record of a pair reports.
* `program`: the moves of every call.
* `IndexKept`: one claim of a pair is created, and every call of the pair answers with its record.
* `separated`: a call begins only for a pair whose text is that of no other pair in use, and the record
  that a claim writes can be read.
* **`operationIndex_kept`**: `IndexKept`, and records that stay, in every run whose calls begin so.
* **`operationIndex_confused`**: two pairs that differ in where the separator falls share a file.

Files that are no records are left out.
-/

namespace PiSubagent.OperationIndex

open JsonText (JsString charsOf Json prettySize)
open Calls (Call World Program Outline)

/-- `MAX_RECORD_BYTES`. -/
def maxRecordBytes : ℕ := 16 * 1024

/-- `OperationRecord`. -/
structure OperationRecord where
  ownerId : JsString
  operationId : JsString
  requestSha256 : JsString
  runId : JsString
  createdAt : JsString
deriving DecidableEq, Repr

/-- An owner id and an operation id. -/
structure Pair where
  ownerId : JsString
  operationId : JsString
deriving DecidableEq, Repr

def OperationRecord.pair (r : OperationRecord) : Pair := ⟨r.ownerId, r.operationId⟩

/-- The text that names a pair: lone surrogates are `U+FFFD` in it. -/
def pairText (p : Pair) : List Char := charsOf p.ownerId ++ '\u0000' :: charsOf p.operationId

/-- `recordKey`: the digest of the owner id, a NUL and the operation id. -/
def recordKey {δ : Type} (sha256 : List UInt8 → δ) (p : Pair) : δ :=
  sha256 (Utf8.encode (charsOf p.ownerId) ++ [0] ++ Utf8.encode (charsOf p.operationId))

/-- The JSON form of a record. -/
def OperationRecord.toJson (r : OperationRecord) : Json :=
  record [
    ("schema", some (text "pi-subagent-operation")),
    ("contractRevision", some (natural contractRevision)),
    ("ownerId", some (.str r.ownerId)),
    ("operationId", some (.str r.operationId)),
    ("requestSha256", some (.str r.requestSha256)),
    ("runId", some (.str r.runId)),
    ("createdAt", some (.str r.createdAt))]

/-- The bytes of the file of a record. -/
def OperationRecord.size (r : OperationRecord) : ℕ := prettySize 0 r.toJson + 1

section

variable [SchemaText]

/-- `IdentitySchema`. -/
def isIdentity (s : JsString) : Bool := fits 1 256 s

/-- `OperationRecordSchema`. -/
def OperationRecord.valid (r : OperationRecord) : Bool :=
  isIdentity r.ownerId && isIdentity r.operationId && isHex 64 64 r.requestSha256 &&
    isRunId r.runId && SchemaText.dateTime r.createdAt

/-- The `PersistenceCorruptionError` with which `readRecord`, or the check of the pair after it,
refuses the record of a pair. -/
def corruption (p : Pair) (r : OperationRecord) : Option String :=
  if maxRecordBytes < r.size then some "operation record exceeds size limit"
  else if r.valid = false then some "invalid operation record schema"
  else if r.pair ≠ p then some "operation record key mismatch"
  else none

theorem corruption_eq_none {p : Pair} {r : OperationRecord} :
    corruption p r = none ↔ r.size ≤ maxRecordBytes ∧ r.valid = true ∧ r.pair = p := by
  unfold corruption
  split_ifs with hsize hvalid hpair
  · exact iff_of_false nofun fun h => absurd h.1 (not_le.mpr hsize)
  · exact iff_of_false nofun fun h => Bool.noConfusion (hvalid.symm.trans h.2.1)
  · exact iff_of_false nofun fun h => hpair h.2.2
  · exact iff_of_true rfl ⟨not_lt.mp hsize, by simpa using hvalid, not_not.mp hpair⟩

/-- The input of `claim`. -/
structure ClaimInput where
  ownerId : JsString
  operationId : JsString
  requestSha256 : JsString
  runId : JsString
deriving DecidableEq, Repr

def ClaimInput.pair (i : ClaimInput) : Pair := ⟨i.ownerId, i.operationId⟩

/-- The record a claim writes. -/
def ClaimInput.record (i : ClaimInput) (now : JsString) : OperationRecord :=
  ⟨i.ownerId, i.operationId, i.requestSha256, i.runId, now⟩

/-- The record has the digest and the run of the claim. -/
def ClaimInput.matches (i : ClaimInput) (r : OperationRecord) : Bool :=
  r.requestSha256 = i.requestSha256 ∧ r.runId = i.runId

/-- How far `claim` is, and how it ends. -/
inductive ClaimPhase where
  | validate
  /-- The record is in a temporary file; `link` is next. -/
  | link (r : OperationRecord)
  /-- The record is published; the directory is synced next. -/
  | sync (r : OperationRecord)
  /-- The temporary file is unlinked next. -/
  | unlink (r : OperationRecord) (created : Bool)
  | read
  /-- `{ record, created: true }`. -/
  | created (r : OperationRecord)
  /-- `{ record: existing, created: false }`. -/
  | adopted (r : OperationRecord)
  /-- `OperationConflictError`. -/
  | conflict (existing : OperationRecord)
  /-- `PersistenceCorruptionError`. -/
  | corrupt (message : String)
  /-- The record is gone. -/
  | missing
  | invalid
deriving DecidableEq, Repr

/-- How far `find` is, and how it ends. -/
inductive FindPhase where
  | validate
  | read
  | found (r : OperationRecord)
  | absent
  /-- `PersistenceCorruptionError`. -/
  | corrupt (message : String)
  | invalid
deriving DecidableEq, Repr

/-- The calls of the index. -/
inductive Phase where
  | claim (i : ClaimInput) (p : ClaimPhase)
  | find (pair : Pair) (p : FindPhase)
deriving DecidableEq, Repr

/-- The pair a call is about. -/
def Phase.pair : Phase → Pair
  | .claim i _ => i.pair
  | .find p _ => p

/-- The records by their names, and what `new Date().toISOString()` gives. -/
structure Index (δ : Type) where
  records : δ → Option OperationRecord
  now : JsString

variable {δ : Type} [DecidableEq δ] (sha256 : List UInt8 → δ)

/-- `claim`. -/
def moveClaim (i : ClaimInput) : ClaimPhase → Index δ → Option (Index δ × ClaimPhase)
  | .validate, s =>
    some (s, if (i.record s.now).valid then .link (i.record s.now) else .invalid)
  | .link r, s =>
    match s.records (recordKey sha256 i.pair) with
    | none =>
      some ({ s with records := Function.update s.records (recordKey sha256 i.pair) (some r) },
        .sync r)
    | some _ => some (s, .unlink r false)
  | .sync r, s => some (s, .unlink r true)
  | .unlink r created, s => some (s, if created then .created r else .read)
  | .read, s =>
    some (s, match s.records (recordKey sha256 i.pair) with
      | none => .missing
      | some r =>
        match corruption i.pair r with
        | some message => .corrupt message
        | none => if i.matches r then .adopted r else .conflict r)
  | _, _ => none

/-- `find`. -/
def moveFind (p : Pair) : FindPhase → Index δ → Option (Index δ × FindPhase)
  | .validate, s =>
    some (s, if isIdentity p.ownerId && isIdentity p.operationId then .read else .invalid)
  | .read, s =>
    some (s, match s.records (recordKey sha256 p) with
      | none => .absent
      | some r =>
        match corruption p r with
        | some message => .corrupt message
        | none => .found r)
  | _, _ => none

/-- A move of any call. -/
def movePhase : Phase → Index δ → Option (Index δ × Phase)
  | .claim i p, s => (moveClaim sha256 i p s).map fun r => (r.1, .claim i r.2)
  | .find p q, s => (moveFind sha256 p q s).map fun r => (r.1, .find p r.2)

/-- Where a call begins. -/
def Phase.entry : Phase → Bool
  | .claim _ .validate => true
  | .find _ .validate => true
  | _ => false

/-- The calls of any processes on an index. -/
def program : Program (Index δ) Phase Unit JsString where
  entry _ _ k := k.entry
  move _ _ _ _ := movePhase sha256
  free _ _ s := s
  outside now s := some { s with now := now }

/-- One step on an index. -/
abbrev step := World.step (program sha256)

/-- One action on an index. -/
abbrev Act := Calls.Act Phase Unit JsString

/-! ## Names -/

omit [SchemaText] [DecidableEq δ] in
theorem recordKey_eq (p : Pair) : recordKey sha256 p = sha256 (Utf8.encode (pairText p)) := by
  have hz : Utf8.encode ['\u0000'] = [0] := by decide
  have ht : pairText p = charsOf p.ownerId ++ ['\u0000'] ++ charsOf p.operationId := by
    simp [pairText]
  rw [ht, Utf8.encode_append, Utf8.encode_append, hz]
  rfl

omit [SchemaText] [DecidableEq δ] in
/-- **Two pairs share a name when they share the text.** -/
theorem recordKey_inj (hs : Function.Injective sha256) {p q : Pair} :
    recordKey sha256 p = recordKey sha256 q ↔ pairText p = pairText q := by
  rw [recordKey_eq, recordKey_eq]
  constructor
  · intro h
    exact Utf8.encode_injective (hs h)
  · intro h
    rw [h]

omit [SchemaText] in
/-- Where the owner ids have no NUL, the text tells the characters of both ids. -/
theorem pairText_inj {p q : Pair} (hp : '\u0000' ∉ charsOf p.ownerId)
    (hq : '\u0000' ∉ charsOf q.ownerId) (h : pairText p = pairText q) :
    charsOf p.ownerId = charsOf q.ownerId ∧ charsOf p.operationId = charsOf q.operationId := by
  have hsplit : ∀ (xs ys us vs : List Char), '\u0000' ∉ xs → '\u0000' ∉ us →
      xs ++ '\u0000' :: ys = us ++ '\u0000' :: vs → xs = us ∧ ys = vs := by
    intro xs
    induction xs with
    | nil =>
      intro ys us vs _ hu he
      cases us with
      | nil => exact ⟨rfl, (List.cons.inj he).2⟩
      | cons u us => exact absurd ((List.cons.inj he).1 ▸ List.mem_cons_self) hu
    | cons x xs ih =>
      intro ys us vs hx hu he
      cases us with
      | nil => exact absurd ((List.cons.inj he).1 ▸ List.mem_cons_self) hx
      | cons u us =>
        obtain ⟨rfl, ht⟩ := List.cons.inj he
        have hx' := fun hm => hx (List.mem_cons_of_mem x hm)
        have hu' := fun hm => hu (List.mem_cons_of_mem x hm)
        obtain ⟨rfl, rfl⟩ := ih ys us vs hx' hu' ht
        exact ⟨rfl, rfl⟩
  exact hsplit _ _ _ _ hp hq h

/-! ## What every call relies on -/

/-- A call begins only for a pair whose text is that of no other pair: of no other call's, and of no
record's, and whose record, if there is one, can be read; and a claim writes only what can be read. -/
def separated (w : World (Index δ) Phase) : Act → Bool
  | .begin _ k =>
    ((List.range w.next).all fun d =>
      match w.calls d with
      | some b => decide (pairText b.state.pair = pairText k.pair → b.state.pair = k.pair)
      | none => true) &&
    match w.shared.records (recordKey sha256 k.pair) with
    | some r => decide (corruption k.pair r = none)
    | none => true
  | .move c _ =>
    match w.calls c with
    | some ⟨_, .claim i .validate⟩ =>
      let r := i.record w.shared.now
      !r.valid || decide (r.size ≤ maxRecordBytes)
    | _ => true
  | _ => true

/-- The record a claim has published. -/
def Phase.published : Phase → Option OperationRecord
  | .claim _ (.sync r) | .claim _ (.unlink r true) | .claim _ (.created r) => some r
  | _ => none

/-- The record a claim has written to its temporary file. -/
def Phase.written : Phase → Option (ClaimInput × OperationRecord)
  | .claim i (.link r) | .claim i (.sync r) | .claim i (.unlink r _) | .claim i (.created r) =>
    some (i, r)
  | _ => none

/-- A claim has seen that there is a record. -/
def Phase.seen : Phase → Bool
  | .claim _ (.unlink _ false) | .claim _ .read => true
  | _ => false

/-- How a call has ended, given the record of its pair. -/
def Answered (s : Index δ) : Phase → Prop
  | .claim i (.adopted r) =>
    s.records (recordKey sha256 i.pair) = some r ∧ r.pair = i.pair ∧ i.matches r = true
  | .claim i (.conflict r) =>
    s.records (recordKey sha256 i.pair) = some r ∧ r.pair = i.pair ∧ i.matches r = false
  | .find p (.found r) => s.records (recordKey sha256 p) = some r ∧ r.pair = p
  | .claim _ (.corrupt _) | .claim _ .missing | .find _ (.corrupt _) => False
  | _ => True

/-- What a call relies on. -/
structure Relies (k : Phase) (s : Index δ) : Prop where
  own : ∀ r, s.records (recordKey sha256 k.pair) = some r → corruption k.pair r = none
  published : ∀ r, k.published = some r → s.records (recordKey sha256 k.pair) = some r
  written : ∀ i r, k.written = some (i, r) →
    (∃ now, r = i.record now) ∧ corruption i.pair r = none
  seen : k.seen = true → (s.records (recordKey sha256 k.pair)).isSome = true
  answered : Answered sha256 s k

/-- Two calls with one text are about one pair, and at most one of them has published. -/
structure Apart (k l : Phase) : Prop where
  pair : pairText k.pair = pairText l.pair → k.pair = l.pair
  published : k.pair = l.pair → k.published = none ∨ l.published = none

omit [SchemaText] in
theorem Apart.symm {k l : Phase} (h : Apart k l) : Apart l k :=
  ⟨fun he => (h.pair he.symm).symm, fun he => (h.published he.symm).symm⟩

/-- The assertions on an index. -/
def indexOutline : Outline (Index δ) Phase where
  all _ _ := True
  each _ _ a s := Relies sha256 a.state s
  pair _ _ a _ b _ := Apart a.state b.state

/-! ## Moves -/

variable {sha256} {s t : Index δ} {k k' : Phase}

/-- **What a move changes**: nothing, or it publishes the record of its claim where there is none. -/
theorem movePhase_cases (h : movePhase sha256 k s = some (t, k')) :
    k'.pair = k.pair ∧
      ((t = s ∧ (k'.published = none ∨ k'.published = k.published)) ∨
        ∃ i r, k = .claim i (.link r) ∧ k' = .claim i (.sync r) ∧
          s.records (recordKey sha256 i.pair) = none ∧
          t = { s with
            records := Function.update s.records (recordKey sha256 i.pair) (some r) }) := by
  cases k with
  | claim i p =>
    obtain ⟨⟨u, q⟩, hm, hr⟩ := Option.map_eq_some_iff.mp h
    cases hr
    refine ⟨rfl, ?_⟩
    cases p with
    | validate =>
      cases hm
      refine Or.inl ⟨rfl, Or.inl ?_⟩
      show Phase.published (.claim i (if _ then _ else _)) = none
      split <;> rfl
    | link r =>
      simp only [moveClaim] at hm
      split at hm
      · next hn =>
        cases hm
        exact Or.inr ⟨i, r, rfl, rfl, hn, rfl⟩
      · cases hm
        exact Or.inl ⟨rfl, Or.inl rfl⟩
    | sync r =>
      cases hm
      exact Or.inl ⟨rfl, Or.inr rfl⟩
    | unlink r created =>
      cases created with
      | true =>
        cases hm
        exact Or.inl ⟨rfl, Or.inr rfl⟩
      | false =>
        cases hm
        exact Or.inl ⟨rfl, Or.inl rfl⟩
    | read =>
      cases hm
      refine Or.inl ⟨rfl, Or.inl ?_⟩
      dsimp only
      split
      · rfl
      · split
        · rfl
        · split_ifs <;> rfl
    | _ => cases hm
  | find p q =>
    obtain ⟨⟨u, q'⟩, hm, hr⟩ := Option.map_eq_some_iff.mp h
    cases hr
    refine ⟨rfl, Or.inl ⟨?_, Or.inl rfl⟩⟩
    cases q <;> cases hm <;> rfl

theorem movePhase_keeps (h : movePhase sha256 k s = some (t, k')) {d : δ} {r : OperationRecord}
    (hr : s.records d = some r) : t.records d = some r := by
  rcases (movePhase_cases h).2 with ⟨rfl, -⟩ | ⟨i, r', -, -, hn, rfl⟩
  · exact hr
  · have hne : d ≠ recordKey sha256 i.pair := by
      rintro rfl
      rw [hn] at hr
      cases hr
    exact (Function.update_of_ne hne _ _).trans hr

theorem Relies.move (hk : Relies sha256 k s)
    (hread : ∀ i, k = .claim i .validate → (i.record s.now).valid = true →
      (i.record s.now).size ≤ maxRecordBytes)
    (h : movePhase sha256 k s = some (t, k')) : Relies sha256 k' t := by
  cases k with
  | claim i p =>
    obtain ⟨⟨u, q⟩, hm, hr⟩ := Option.map_eq_some_iff.mp h
    cases hr
    cases p with
    | validate =>
      cases hm
      split
      next hvalid =>
        refine ⟨hk.own, fun r hr => (by cases hr), ?_, fun hs => (by cases hs), trivial⟩
        intro j r hw
        cases hw
        exact ⟨⟨s.now, rfl⟩, corruption_eq_none.mpr ⟨hread i rfl hvalid, hvalid, rfl⟩⟩
      · exact ⟨hk.own, fun r hr => (by cases hr), fun j r hw => (by cases hw),
          fun hs => (by cases hs), trivial⟩
    | link r =>
      simp only [moveClaim] at hm
      split at hm
      · cases hm
        have hself : Function.update s.records (recordKey sha256 i.pair) (some r)
            (recordKey sha256 i.pair) = some r := Function.update_self _ _ _
        refine ⟨?_, ?_, hk.written, fun hs => (by cases hs), trivial⟩
        · intro r' hr'
          cases hself.symm.trans hr'
          exact (hk.written i r rfl).2
        · intro r' hr'
          cases hr'
          exact hself
      · next r' hs =>
        cases hm
        refine ⟨hk.own, fun r hr => (by cases hr), hk.written, ?_, trivial⟩
        intro _
        exact Option.isSome_iff_exists.mpr ⟨r', hs⟩
    | sync r =>
      cases hm
      exact ⟨hk.own, hk.published, hk.written, fun hs => (by cases hs), trivial⟩
    | unlink r created =>
      cases created with
      | true =>
        cases hm
        exact ⟨hk.own, hk.published, hk.written, fun hs => (by cases hs), trivial⟩
      | false =>
        cases hm
        exact ⟨hk.own, fun r hr => (by cases hr), fun j r hw => (by cases hw), hk.seen, trivial⟩
    | read =>
      cases hm
      obtain ⟨r, hr⟩ := Option.isSome_iff_exists.mp (hk.seen rfl)
      have hown : corruption i.pair r = none := hk.own r hr
      obtain ⟨-, -, hp⟩ := corruption_eq_none.mp hown
      have hr' : s.records (recordKey sha256 i.pair) = some r := hr
      rw [hr']
      by_cases hmt : i.matches r = true
      · simp only [hown, hmt, if_true]
        exact ⟨hk.own, fun r hr => (by cases hr), fun j r hw => (by cases hw),
          fun hs => (by cases hs), hr, hp, hmt⟩
      · simp only [hown, hmt]
        exact ⟨hk.own, fun r hr => (by cases hr), fun j r hw => (by cases hw),
          fun hs => (by cases hs), hr, hp, Bool.eq_false_iff.mpr hmt⟩
    | _ => cases hm
  | find p q =>
    obtain ⟨⟨u, q'⟩, hm, hr⟩ := Option.map_eq_some_iff.mp h
    cases hr
    have hrest : ∀ q', Answered sha256 s (.find p q') → Relies sha256 (.find p q') s :=
      fun q' ha => ⟨hk.own, fun r hr => (by cases hr), fun j r hw => (by cases hw),
        fun hs => (by cases hs), ha⟩
    cases q with
    | validate =>
      cases hm
      refine hrest _ ?_
      split <;> trivial
    | read =>
      cases hm
      refine hrest _ ?_
      split
      · trivial
      · next r hr =>
        have hown : corruption p r = none := hk.own r hr
        rw [hown]
        exact ⟨hr, (corruption_eq_none.mp hown).2.2⟩
    | _ => cases hm

/-- What another call relies on after the move: a record of its own name is published by a call of
its own pair. -/
theorem Relies.other (hs : Function.Injective sha256) {l : Phase} (hl : Relies sha256 l s)
    (ha : Apart k l) (hw : ∀ i r, k.written = some (i, r) → corruption i.pair r = none)
    (h : movePhase sha256 k s = some (t, k')) : Relies sha256 l t := by
  have hkeep : ∀ d r, s.records d = some r → t.records d = some r :=
    fun d r hr => movePhase_keeps h hr
  refine ⟨?_, fun r hr => hkeep _ _ (hl.published r hr), hl.written, ?_, ?_⟩
  · intro r hr
    rcases (movePhase_cases h).2 with ⟨rfl, -⟩ | ⟨i, r', rfl, -, hn, rfl⟩
    · exact hl.own r hr
    · by_cases he : recordKey sha256 l.pair = recordKey sha256 i.pair
      · -- the published record is of the pair whose text this is
        have hp : i.pair = l.pair := ha.pair ((recordKey_inj sha256 hs).mp he).symm
        have hrr : Function.update s.records (recordKey sha256 i.pair) (some r')
            (recordKey sha256 l.pair) = some r := hr
        rw [he, Function.update_self] at hrr
        cases hrr
        rw [← hp]
        exact hw i r rfl
      · exact hl.own r ((Function.update_of_ne he _ _).symm.trans hr)
  · intro hsn
    obtain ⟨r, hr⟩ := Option.isSome_iff_exists.mp (hl.seen hsn)
    exact Option.isSome_iff_exists.mpr ⟨r, hkeep _ _ hr⟩
  · have := hl.answered
    unfold Answered at this ⊢
    split
    · exact ⟨hkeep _ _ this.1, this.2⟩
    · exact ⟨hkeep _ _ this.1, this.2⟩
    · exact ⟨hkeep _ _ this.1, this.2⟩
    · exact this
    · exact this
    · exact this
    · trivial

theorem Apart.move {l : Phase} (hl : Relies sha256 l s) (ha : Apart k l)
    (h : movePhase sha256 k s = some (t, k')) : Apart k' l := by
  obtain ⟨hp, hc⟩ := movePhase_cases h
  refine ⟨?_, ?_⟩
  · rw [hp]
    exact ha.pair
  · intro he
    rw [hp] at he
    rcases hc with ⟨-, hn | hn⟩ | ⟨i, r, rfl, -, hn, -⟩
    · exact Or.inl hn
    · rw [hn]
      exact ha.published he
    · right
      cases hlp : l.published with
      | none => rfl
      | some r' =>
        have := hl.published r' hlp
        rw [← he] at this
        cases hn.symm.trans this

omit [DecidableEq δ] in
theorem separated_begin {w : World (Index δ) Phase} {p : ℕ}
    (h : separated sha256 w (.begin p k) = true) :
    (∀ d b, d < w.next → w.calls d = some b → pairText b.state.pair = pairText k.pair →
      b.state.pair = k.pair) ∧
      ∀ r, w.shared.records (recordKey sha256 k.pair) = some r → corruption k.pair r = none := by
  obtain ⟨h1, h2⟩ := Bool.and_eq_true_iff.mp h
  refine ⟨?_, ?_⟩
  · intro d b hd hb
    have := List.all_eq_true.mp h1 d (List.mem_range.mpr hd)
    rw [hb] at this
    exact of_decide_eq_true this
  · intro r hr
    rw [hr] at h2
    exact of_decide_eq_true h2

omit [DecidableEq δ] in
theorem separated_move {w : World (Index δ) Phase} {c : ℕ} {u : Unit} {a : Call Phase}
    (h : separated sha256 w (.move c u) = true) (hc : w.calls c = some a) {i : ClaimInput}
    (hi : a.state = .claim i .validate) (hvalid : (i.record w.shared.now).valid = true) :
    (i.record w.shared.now).size ≤ maxRecordBytes := by
  obtain ⟨p, k⟩ := a
  subst hi
  simp only [separated, hc, hvalid, Bool.not_true, Bool.false_or, decide_eq_true_eq] at h
  exact h

theorem indexOutline_sound (hs : Function.Injective sha256) :
    (indexOutline sha256).Sound (program sha256) fun w a => separated sha256 w a = true where
  begun := fun w p k hw hok he _ => by
    obtain ⟨hcalls, hrec⟩ := separated_begin hok
    have hpub : k.published = none ∧ k.written = none ∧ k.seen = false ∧
        Answered sha256 w.shared k := by
      have he' : k.entry = true := he
      unfold Phase.entry at he'
      split at he'
      · exact ⟨rfl, rfl, rfl, trivial⟩
      · exact ⟨rfl, rfl, rfl, trivial⟩
      · cases he'
    obtain ⟨hp, hwr, hsn, han⟩ := hpub
    refine ⟨⟨hrec, ?_, ?_, ?_, han⟩, ?_⟩
    · intro r hr
      cases hp.symm.trans hr
    · intro i r hr
      cases hwr.symm.trans hr
    · intro hsn'
      cases hsn.symm.trans hsn'
    · intro d b hb
      have hd : d < w.next := by
        by_contra hge
        have := hw.unused d (Nat.le_of_not_lt hge)
        rw [hb] at this
        cases this
      have ha : Apart k b.state :=
        ⟨fun ht => (hcalls d b hd hb ht.symm).symm, fun _ => Or.inl hp⟩
      exact ⟨ha, ha.symm⟩
  move := fun w c a i s k hw hok hc _ hm => by
    have hr := hw.each c a hc
    refine ⟨trivial, Relies.move hr (fun _ hi => separated_move hok hc hi) hm, ?_, ?_⟩
    · intro d b hd hb
      have hrb := hw.each d b hb
      have ha := hw.pair c a d b hd.symm hc hb
      have ha' : Apart k b.state := Apart.move hrb ha hm
      exact ⟨Relies.other hs hrb ha (fun j r hj => (hr.written j r hj).2) hm, ha', ha'.symm⟩
    · intro d b e f _ _ hne hb hf
      exact hw.pair d b e f hne hb hf
  die := fun w p hw _ => ⟨trivial, hw.each, hw.pair⟩
  outside := fun w n s hw _ h => by
    cases h
    refine ⟨trivial, ?_, hw.pair⟩
    intro c a hc
    obtain ⟨h1, h2, h3, h4, h5⟩ := hw.each c a hc
    refine ⟨h1, h2, h3, h4, ?_⟩
    unfold Answered at h5 ⊢
    exact h5

/-! ## Runs -/

/-- How the calls of an index stand. -/
structure IndexKept (sha256 : List UInt8 → δ) (w : World (Index δ) Phase) : Prop where
  /-- Of the claims of a pair at most one is reported created. -/
  once : ∀ c d p q i j r r', w.calls c = some ⟨p, .claim i (.created r)⟩ →
    w.calls d = some ⟨q, .claim j (.created r')⟩ → i.pair = j.pair → c = d
  /-- A created record is that of the claim, and is the record of the pair. -/
  created : ∀ c p i r, w.calls c = some ⟨p, .claim i (.created r)⟩ →
    w.shared.records (recordKey sha256 i.pair) = some r ∧ ∃ now, r = i.record now
  /-- Every other answer is that of the record of the pair. -/
  answered : ∀ c a, w.calls c = some a → Answered sha256 w.shared a.state
  /-- The record of a call's pair can be read and is the pair's own. -/
  own : ∀ c a r, w.calls c = some a →
    w.shared.records (recordKey sha256 a.state.pair) = some r → corruption a.state.pair r = none

omit [DecidableEq δ] in
theorem IndexKept.of_holds {w : World (Index δ) Phase} (hw : (indexOutline sha256).Holds w) :
    IndexKept sha256 w := by
  refine ⟨?_, ?_, fun c a hc => (hw.each c a hc).answered, fun c a r hc => (hw.each c a hc).own r⟩
  · intro c d p q i j r r' hc hd he
    by_contra hne
    rcases (hw.pair c _ d _ hne hc hd).published he with hn | hn <;> cases hn
  · intro c p i r hc
    have hr := hw.each c _ hc
    exact ⟨hr.published r rfl, (hr.written i r rfl).1⟩

theorem records_exec {w v : World (Index δ) Phase} {as : List Act}
    (h : Runs.exec (step sha256) w as = some v) {d : δ} {r : OperationRecord}
    (hr : w.shared.records d = some r) : v.shared.records d = some r := by
  refine Runs.exec_preserves (fun u => u.shared.records d = some r) ?_ hr h
  intro u a u' hu hstep
  cases a with
  | begin p k =>
    obtain ⟨-, -, rfl⟩ := World.step_begin hstep
    exact hu
  | move c i =>
    obtain ⟨a, t, k, -, -, hm, rfl⟩ := World.step_move hstep
    exact movePhase_keeps hm hu
  | die p =>
    cases hstep
    exact hu
  | outside n =>
    obtain ⟨t, ht, rfl⟩ := World.step_outside hstep
    cases ht
    exact hu

/-- The record of a name appears only by a claim whose pair has the name. -/
theorem records_appear {w v : World (Index δ) Phase} {a : Act} {d : δ}
    (h : step sha256 w a = some v) (hd : v.shared.records d ≠ w.shared.records d) :
    ∃ c p i r, w.calls c = some ⟨p, .claim i (.link r)⟩ ∧ d = recordKey sha256 i.pair ∧
      v.shared.records d = some r := by
  cases a with
  | begin p k =>
    obtain ⟨-, -, rfl⟩ := World.step_begin h
    exact absurd rfl hd
  | move c j =>
    obtain ⟨⟨p, st⟩, t, k, hc, -, hm, rfl⟩ := World.step_move h
    rcases (movePhase_cases hm).2 with ⟨rfl, -⟩ | ⟨i, r, hst, -, -, rfl⟩
    · exact absurd rfl hd
    · cases hst
      by_cases he : d = recordKey sha256 i.pair
      · subst he
        exact ⟨c, p, i, r, hc, rfl, Function.update_self _ _ _⟩
      · exact absurd (Function.update_of_ne he _ _) hd
  | die p =>
    cases h
    exact absurd rfl hd
  | outside n =>
    obtain ⟨t, ht, rfl⟩ := World.step_outside h
    cases ht
    exact absurd rfl hd

/-- **The operation index**: where calls begin only for pairs with a text of their own, and claims write
what can be read, one claim of a pair is created, its record stays, every call of the pair answers with it, and a record of a pair
appears only by a claim of that pair. -/
theorem operationIndex_kept (sha256 : List UInt8 → δ) (hs : Function.Injective sha256)
    (dead : ℕ → Bool) (s : Index δ) (as : List Act) (w : World (Index δ) Phase)
    (hm : Runs.Meets (step sha256) (fun w a => separated sha256 w a = true)
      (World.fresh dead s) as)
    (h : Runs.exec (step sha256) (World.fresh dead s) as = some w) :
    IndexKept sha256 w ∧
      (∀ bs v d r, Runs.exec (step sha256) w bs = some v → w.shared.records d = some r →
        v.shared.records d = some r) ∧
      ∀ a v c b, step sha256 w a = some v → w.calls c = some b →
        v.shared.records (recordKey sha256 b.state.pair) ≠
          w.shared.records (recordKey sha256 b.state.pair) →
        ∃ d q i r, w.calls d = some ⟨q, .claim i (.link r)⟩ ∧ i.pair = b.state.pair := by
  have hw : (indexOutline sha256).Holds w :=
    (indexOutline_sound hs).holds_exec (Outline.holds_fresh trivial) hm h
  refine ⟨IndexKept.of_holds hw, fun bs v d r hv hr => records_exec hv hr, ?_⟩
  intro a v c b hv hb hne
  obtain ⟨d, q, i, r, hd, hk, -⟩ := records_appear hv hne
  refine ⟨d, q, i, r, hd, ?_⟩
  have ht := (recordKey_inj sha256 hs).mp hk
  by_cases hcd : c = d
  · subst hcd
    cases hb.symm.trans hd
    rfl
  · exact ((hw.pair c b d _ hcd hb hd).pair ht).symm

end

section Claims

local instance indexSchemaText : SchemaText := plainSchemaText

/-- When everything happens. -/
def claimedAt : JsString := JsonText.ofString "2026-01-01T00:00:00.000Z"

/-- An index without records. -/
def emptyIndex : Index (List UInt8) := ⟨fun _ => none, claimedAt⟩

/-- A claim of the pair for the digest of 64 letters and the run `run_1`. -/
def claimOf (owner operation : JsString) (letter : UInt16) : Phase :=
  .claim ⟨owner, operation, List.replicate 64 letter, [114, 117, 110, 95, 49]⟩ .validate

/-- Three processes claim one pair, two of them for one request. -/
def claimedThrice : List Act :=
  [.begin 1 (claimOf [111] [112] 97), .begin 2 (claimOf [111] [112] 97),
    .begin 3 (claimOf [111] [112] 98), .move 0 (), .move 1 (), .move 2 (), .move 1 (), .move 0 (),
    .move 2 (), .move 1 (), .move 1 (), .move 0 (), .move 0 (), .move 2 (), .move 2 ()]

theorem operationIndex_kept_claimedThrice : ∃ w,
    Runs.exec (step id) (World.fresh (fun _ => false) emptyIndex) claimedThrice = some w ∧
      IndexKept id w ∧ ∃ i j k r, w.calls 0 = some ⟨1, .claim i (.adopted r)⟩ ∧
        w.calls 1 = some ⟨2, .claim j (.created r)⟩ ∧
        w.calls 2 = some ⟨3, .claim k (.conflict r)⟩ := by
  have hm : Runs.Meets (step id) (fun w a => separated id w a = true)
      (World.fresh (fun _ => false) emptyIndex) claimedThrice := by
    decide +kernel
  have hs : ((Runs.exec (step id) (World.fresh (fun _ => false) emptyIndex) claimedThrice).any
      fun w => decide (
        w.calls 0 = some ⟨1, .claim ⟨[111], [112], List.replicate 64 97, [114, 117, 110, 95, 49]⟩
          (.adopted ⟨[111], [112], List.replicate 64 97, [114, 117, 110, 95, 49], claimedAt⟩)⟩ ∧
        w.calls 1 = some ⟨2, .claim ⟨[111], [112], List.replicate 64 97, [114, 117, 110, 95, 49]⟩
          (.created ⟨[111], [112], List.replicate 64 97, [114, 117, 110, 95, 49], claimedAt⟩)⟩ ∧
        w.calls 2 = some ⟨3, .claim ⟨[111], [112], List.replicate 64 98, [114, 117, 110, 95, 49]⟩
          (.conflict ⟨[111], [112], List.replicate 64 97, [114, 117, 110, 95, 49], claimedAt⟩)⟩)) =
      true := by
    decide +kernel
  obtain ⟨w, hw, hc⟩ := (Option.any_eq_true _ _).mp hs
  obtain ⟨h0, h1, h2⟩ := of_decide_eq_true hc
  exact ⟨w, hw, (operationIndex_kept id Function.injective_id _ _ _ _ hm hw).1, _, _, _, _, h0, h1,
    h2⟩

/-- The pair of `a␀b` and `c` is claimed, then the pair of `a` and `b␀c`. -/
def claimedAcross : List Act :=
  [.begin 1 (claimOf [97, 0, 98] [99] 97), .move 0 (), .move 0 (), .move 0 (), .move 0 (),
    .begin 2 (claimOf [97] [98, 0, 99] 97), .move 1 (), .move 1 (), .move 1 (), .move 1 ()]

/-- **The claim of one pair makes the claim of another end in corruption.** -/
theorem operationIndex_confused : Function.Injective (id : List UInt8 → List UInt8) ∧ ∃ w,
    Runs.exec (step id) (World.fresh (fun _ => false) emptyIndex) claimedAcross = some w ∧
      (∃ i, w.calls 1 = some ⟨2, .claim i (.corrupt "operation record key mismatch")⟩) ∧ ¬ IndexKept id w := by
  have hs : ((Runs.exec (step id) (World.fresh (fun _ => false) emptyIndex) claimedAcross).any
      fun w => decide (w.calls 1 = some ⟨2, .claim
        ⟨[97], [98, 0, 99], List.replicate 64 97, [114, 117, 110, 95, 49]⟩
        (.corrupt "operation record key mismatch")⟩)) = true := by
    decide +kernel
  obtain ⟨w, hw, hc⟩ := (Option.any_eq_true _ _).mp hs
  have hc' := of_decide_eq_true hc
  exact ⟨Function.injective_id, w, hw, ⟨_, hc'⟩, fun h => h.answered 1 _ hc'⟩

end Claims

end PiSubagent.OperationIndex
