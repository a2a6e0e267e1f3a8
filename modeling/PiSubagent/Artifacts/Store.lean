import PiSubagent.Contracts
import PiSubagent.Lib.OrderedMap
import PiSubagent.Lib.Runs
import Mathlib.Algebra.BigOperators.Group.List.Basic

/-!
# The artifact store of a run

`ArtifactStore.put` and `export` under a current lease, call by call. Puts run one after the other
(`mutationTail`); a process may die between any two calls, and the next attempt opens the store again
with the same limits.

* `Directory`: the files of the store.
* `exportArtifact`: an export, whose two reads may lie apart.
* `PutPhase`, `movePut`: how far a put is, and its next call.
* `Store.step`: a put is called, makes its next call, or fails or dies with its process.
* `Directory.Sound`: every file is named after its content, and the files are within the limit.
* `Knows`: what a put knows at its control points; **`Store.good_step`**.
* **`Store.Good.export_returned`**: an export answers with what was put.
* **`Store.not_refused`**: as many puts as the limit is computed for are never refused for the total.
-/

namespace PiSubagent.Artifacts

open JsonText OrderedMap Runs

variable {δ : Type} [DecidableEq δ]

/-! ## Files -/

/-- The files of a store: `<digest>.blob`, and temporary files by the draw of their name. -/
structure Directory (δ : Type) where
  blobs : List (δ × List UInt8)
  temporaries : List (ℕ × List UInt8)
  nextUuid : ℕ

/-- The store before its first put. -/
def Directory.empty : Directory δ := ⟨[], [], 0⟩

/-- The sizes of some files. -/
def bytesOf (blobs : List (δ × List UInt8)) : ℕ := (blobs.map fun b => b.2.length).sum

/-- `ArtifactRef`, its identity being that of its digest. -/
structure Ref (δ : Type) where
  sha256 : δ
  bytes : ℕ
  mediaType : JsString
deriving DecidableEq

/-- What the schema of a reference asks beside the form of the digest. -/
def Ref.check (ref : Ref δ) : Bool := isMediaType ref.mediaType && hasUnits 0 256 ref.mediaType

/-- The limits that `open` accepts, and the digest of a content. -/
structure Limits (δ : Type) where
  maxArtifactBytes : ℕ
  maxTotalBytes : ℕ
  ordered : maxArtifactBytes ≤ maxTotalBytes
  sha256 : List UInt8 → δ
  injective : Function.Injective sha256

/-- What the store throws. -/
inductive Refusal where
  /-- "artifact exceeds byte limit" -/
  | artifactLimit
  /-- "invalid artifact metadata", "invalid artifact reference" -/
  | metadata
  /-- "artifact digest collision" -/
  | collision
  /-- "existing artifact digest mismatch", "artifact digest mismatch" -/
  | mismatch
  /-- "artifact store exceeds total limit" -/
  | storeTotal
  /-- "artifact store total limit exceeded" -/
  | total
  /-- "artifact export exceeds byte limit" -/
  | exportLimit
  /-- "artifact size mismatch" -/
  | size
  /-- `lstat` or `readFile` of a file that is not there. -/
  | missing
deriving DecidableEq, Repr

/-- The refusals for the total of the store. -/
def Refusal.isTotal : Refusal → Bool
  | .storeTotal | .total => true
  | _ => false

/-! ## Export -/

/-- `export`; the file is looked up in `d` and read in `d'`. -/
def exportArtifact (L : Limits δ) (d d' : Directory δ) (ref : Ref δ) (maxBytes : ℕ) :
    Except Refusal (Ref δ × List UInt8) :=
  if ref.check = false then .error .metadata
  else if maxSafeInteger < maxBytes ∨ maxBytes < ref.bytes then .error .exportLimit
  else
    match get ref.sha256 d.blobs with
    | none => .error .missing
    | some found =>
      if found.length ≠ ref.bytes then .error .size
      else
        match get ref.sha256 d'.blobs with
        | none => .error .missing
        | some content =>
          if L.sha256 content ≠ ref.sha256 then .error .mismatch else .ok (ref, content)

/-! ## Puts -/

/-- How far a put is. -/
inductive PutPhase (δ : Type) where
  /-- The lease, the size and the reference are checked next. -/
  | check
  /-- `stat` of the target. -/
  | stat (ref : Ref δ)
  /-- There is a file of this size; it is read next. -/
  | verify (ref : Ref δ) (size : ℕ)
  /-- `readdir` of the store. -/
  | list (ref : Ref δ)
  /-- `lstat` of the files listed. -/
  | sum (ref : Ref δ) (todo : List δ) (total : ℕ)
  /-- The temporary file is opened next. -/
  | create (ref : Ref δ)
  | write (ref : Ref δ) (temporary : ℕ)
  /-- The file is written and closed; the lease is checked and it is renamed. -/
  | rename (ref : Ref δ) (temporary : ℕ)
  | sync (ref : Ref δ)
  | returned (ref : Ref δ)
  | refused (e : Refusal)
deriving DecidableEq

/-- A put of a content. -/
structure Put (δ : Type) where
  content : List UInt8
  mediaType : JsString
  phase : PutPhase δ

/-- What a move is given: the listing of a directory, where it reads one. -/
inductive Input (δ : Type) where
  | none
  | names (names : List δ)

/-- The next call of a put. -/
def movePut (L : Limits δ) (content : List UInt8) (mediaType : JsString) (i : Input δ) :
    PutPhase δ → Directory δ → Option (Directory δ × PutPhase δ)
  | .check, d =>
    let ref : Ref δ := ⟨L.sha256 content, content.length, mediaType⟩
    if L.maxArtifactBytes < content.length then some (d, .refused .artifactLimit)
    else if ref.check = false then some (d, .refused .metadata)
    else some (d, .stat ref)
  | .stat ref, d =>
    match get ref.sha256 d.blobs with
    | some existing => some (d, .verify ref existing.length)
    | none => some (d, .list ref)
  | .verify ref size, d =>
    if size ≠ content.length then some (d, .refused .collision)
    else
      match get ref.sha256 d.blobs with
      | none => some (d, .list ref)
      | some existing =>
        if L.sha256 existing ≠ ref.sha256 then some (d, .refused .mismatch)
        else some (d, .returned ref)
  | .list ref, d =>
    match i with
    | .names names => if names.Perm (keys d.blobs) then some (d, .sum ref names 0) else none
    | .none => none
  | .sum ref (name :: todo) total, d =>
    match get name d.blobs with
    | none => some (d, .refused .missing)
    | some file =>
      if L.maxTotalBytes < total + file.length then some (d, .refused .storeTotal)
      else some (d, .sum ref todo (total + file.length))
  | .sum ref [] total, d =>
    if L.maxTotalBytes < total + content.length then some (d, .refused .total)
    else some (d, .create ref)
  | .create ref, d =>
    some ({ d with temporaries := (d.nextUuid, []) :: d.temporaries, nextUuid := d.nextUuid + 1 },
      .write ref d.nextUuid)
  | .write ref temporary, d =>
    some ({ d with temporaries := set temporary content d.temporaries }, .rename ref temporary)
  | .rename ref temporary, d =>
    match get temporary d.temporaries with
    | none => some (d, .refused .missing)
    | some file =>
      some ({ d with
        blobs := set ref.sha256 file d.blobs
        temporaries := d.temporaries.filter fun e => e.1 ≠ temporary }, .sync ref)
  | .sync ref, d => some (d, .returned ref)
  | .returned _, _ => none
  | .refused _, _ => none

/-- The store, the put under way, how many puts have been called, and what they returned and threw. -/
structure Store (δ : Type) where
  directory : Directory δ
  active : Option (Put δ)
  begun : ℕ
  returned : List (Ref δ × List UInt8)
  refusals : List Refusal

/-- The store of a run that has put nothing. -/
def Store.fresh : Store δ := ⟨.empty, none, 0, [], []⟩

/-- One step of a store. -/
inductive Act (δ : Type) where
  | put (content : List UInt8) (mediaType : JsString)
  | move (i : Input δ)
  /-- A call fails or the process dies; a file that is being written is left with so many bytes. -/
  | die (written : ℕ)

/-- A put has made its next call. -/
def Store.next (s : Store δ) (put : Put δ) (d : Directory δ) : PutPhase δ → Store δ
  | .returned ref =>
    { s with directory := d, active := none, returned := s.returned ++ [(ref, put.content)] }
  | .refused e => { s with directory := d, active := none, refusals := s.refusals ++ [e] }
  | phase => { s with directory := d, active := some { put with phase := phase } }

/-- The files when a put ends so. -/
def Put.leave (put : Put δ) (written : ℕ) (d : Directory δ) : Directory δ :=
  match put.phase with
  | .write _ temporary =>
    { d with temporaries := set temporary (put.content.take written) d.temporaries }
  | _ => d

/-- One step; a put that is called while another is under way waits for it. -/
def Store.step (L : Limits δ) (s : Store δ) : Act δ → Option (Store δ)
  | .put content mediaType =>
    match s.active with
    | none => some { s with active := some ⟨content, mediaType, .check⟩, begun := s.begun + 1 }
    | some _ => none
  | .move i =>
    match s.active with
    | none => none
    | some put =>
      (movePut L put.content put.mediaType i put.phase s.directory).map fun r =>
        s.next put r.1 r.2
  | .die written =>
    match s.active with
    | none => some s
    | some put => some { s with directory := put.leave written s.directory, active := none }

/-! ## What holds of the files -/

variable {L : Limits δ} {d d' : Directory δ} {s t : Store δ} {content : List UInt8}
  {mediaType : JsString} {i : Input δ}

/-- Every file is named after its content, no two have a name, and all are within the limit. -/
structure Directory.Sound (L : Limits δ) (d : Directory δ) : Prop where
  named : ∀ b ∈ d.blobs, b.1 = L.sha256 b.2
  nodup : (keys d.blobs).Nodup
  bounded : bytesOf d.blobs ≤ L.maxTotalBytes

theorem Directory.Sound.content_eq (h : d.Sound L) {file : List UInt8}
    (hf : get (L.sha256 content) d.blobs = some file) : file = content :=
  L.injective (h.named _ (mem_of_get hf)).symm

/-- The reference of a content. -/
def refOf (L : Limits δ) (content : List UInt8) (mediaType : JsString) : Ref δ :=
  ⟨L.sha256 content, content.length, mediaType⟩

/-- A put whose content is not stored yet. -/
structure New (L : Limits δ) (d : Directory δ) (content : List UInt8) (mediaType : JsString)
    (ref : Ref δ) : Prop where
  ref_eq : ref = refOf L content mediaType
  check : ref.check = true
  size : content.length ≤ L.maxArtifactBytes
  absent : get ref.sha256 d.blobs = none

/-- The sizes of the files of some names. -/
def sizesOf (d : Directory δ) (names : List δ) : ℕ :=
  (names.map fun name => ((get name d.blobs).getD []).length).sum

/-- What a put knows at its control points. -/
def Knows (L : Limits δ) (d : Directory δ) (content : List UInt8) (mediaType : JsString) :
    PutPhase δ → Prop
  | .check => True
  | .stat ref =>
    ref = refOf L content mediaType ∧ ref.check = true ∧ content.length ≤ L.maxArtifactBytes
  | .verify ref size =>
    ref = refOf L content mediaType ∧ ref.check = true ∧
      get ref.sha256 d.blobs = some content ∧ size = content.length
  | .list ref => New L d content mediaType ref
  | .sum ref todo total =>
    New L d content mediaType ref ∧ total + sizesOf d todo = bytesOf d.blobs
  | .create ref =>
    New L d content mediaType ref ∧ bytesOf d.blobs + content.length ≤ L.maxTotalBytes
  | .write ref _ =>
    New L d content mediaType ref ∧ bytesOf d.blobs + content.length ≤ L.maxTotalBytes
  | .rename ref temporary =>
    New L d content mediaType ref ∧ bytesOf d.blobs + content.length ≤ L.maxTotalBytes ∧
      get temporary d.temporaries = some content
  | .sync ref | .returned ref =>
    ref = refOf L content mediaType ∧ ref.check = true ∧ get ref.sha256 d.blobs = some content
  | .refused _ => True

omit [DecidableEq δ] in
theorem bytesOf_append (a b : List (δ × List UInt8)) : bytesOf (a ++ b) = bytesOf a + bytesOf b := by
  rw [bytesOf, List.map_append, List.sum_append]
  rfl

theorem bytesOf_set {k : δ} {blobs : List (δ × List UInt8)} (h : get k blobs = none) :
    bytesOf (set k content blobs) = bytesOf blobs + content.length := by
  rw [set_of_notMem k content, bytesOf_append]
  · rfl
  · intro hm
    obtain ⟨v, hv⟩ := (mem_keys_iff_get k blobs).mp hm
    rw [h] at hv
    cases hv

theorem sizesOf_keys (h : (keys d.blobs).Nodup) {names : List δ} (hn : names.Perm (keys d.blobs)) :
    sizesOf d names = bytesOf d.blobs := by
  unfold sizesOf bytesOf
  rw [(hn.map _).sum_eq, keys, List.map_map]
  refine congrArg List.sum (List.map_congr_left fun b hb => ?_)
  rw [Function.comp_apply, get_of_mem h hb]
  rfl

/-- What a move does to the files: nothing, or a file with a new name is added. -/
theorem movePut_blobs {p q : PutPhase δ} (hk : Knows L d content mediaType p)
    (h : movePut L content mediaType i p d = some (d', q)) :
    d'.blobs = d.blobs ∨
      ∃ ref temporary, p = .rename ref temporary ∧ q = .sync ref ∧ New L d content mediaType ref ∧
        bytesOf d.blobs + content.length ≤ L.maxTotalBytes ∧
        d'.blobs = set ref.sha256 content d.blobs := by
  cases p with
  | rename ref temporary =>
    obtain ⟨hnew, hbound, htemp⟩ := hk
    simp only [movePut, htemp, Option.some.injEq, Prod.mk.injEq] at h
    obtain ⟨rfl, rfl⟩ := h
    exact .inr ⟨ref, temporary, rfl, rfl, hnew, hbound, rfl⟩
  | check =>
    left
    simp only [movePut] at h
    split_ifs at h <;>
    · cases h
      rfl
  | verify ref size =>
    left
    simp only [movePut] at h
    split at h
    · cases h
      rfl
    · split at h
      · cases h
        rfl
      · split_ifs at h <;>
        · cases h
          rfl
  | stat ref =>
    left
    simp only [movePut] at h
    split at h <;>
    · cases h
      rfl
  | list ref =>
    left
    cases i with
    | none => cases h
    | names names =>
      simp only [movePut] at h
      split_ifs at h
      cases h
      rfl
  | sum ref todo total =>
    left
    cases todo with
    | nil =>
      simp only [movePut] at h
      split_ifs at h <;>
      · cases h
        rfl
    | cons name todo =>
      simp only [movePut] at h
      split at h
      · cases h
        rfl
      · split_ifs at h <;>
        · cases h
          rfl
  | create ref | write ref temporary | sync ref =>
    left
    cases h
    rfl
  | returned ref | refused e => cases h

theorem Directory.Sound.move {p q : PutPhase δ} (hd : d.Sound L)
    (hk : Knows L d content mediaType p)
    (h : movePut L content mediaType i p d = some (d', q)) : d'.Sound L := by
  rcases movePut_blobs hk h with hb | ⟨ref, temporary, -, -, hnew, hbound, hb⟩
  · refine ⟨?_, ?_, ?_⟩ <;> rw [hb]
    · exact hd.named
    · exact hd.nodup
    · exact hd.bounded
  · refine ⟨?_, ?_, ?_⟩ <;> rw [hb]
    · intro b hm
      rcases eq_or_mem_of_mem_set hm with rfl | hm
      · exact congrArg Ref.sha256 hnew.ref_eq
      · exact hd.named b hm
    · exact nodup_keys_set _ _ hd.nodup
    · rw [bytesOf_set hnew.absent]
      exact hbound

theorem get_move {p q : PutPhase δ} (hk : Knows L d content mediaType p)
    (h : movePut L content mediaType i p d = some (d', q)) {k : δ} {file : List UInt8}
    (hf : get k d.blobs = some file) : get k d'.blobs = some file := by
  rcases movePut_blobs hk h with hb | ⟨ref, temporary, -, -, hnew, -, hb⟩
  · rw [hb]
    exact hf
  · rw [hb, get_set, if_neg]
    · exact hf
    · rintro rfl
      rw [hnew.absent] at hf
      cases hf

/-- **What a put knows it knows after its next call.** -/
theorem Knows.move {p q : PutPhase δ} (hd : d.Sound L) (hk : Knows L d content mediaType p)
    (h : movePut L content mediaType i p d = some (d', q)) : Knows L d' content mediaType q := by
  cases p with
  | check =>
    simp only [movePut] at h
    split_ifs at h with hsize hcheck <;> cases h
    · trivial
    · trivial
    · exact ⟨rfl, by simpa using hcheck, Nat.le_of_not_lt hsize⟩
  | stat ref =>
    obtain ⟨href, hcheck, hsize⟩ := hk
    simp only [movePut] at h
    split at h
    · rename_i existing hf
      cases h
      have heq : existing = content := by
        rw [href] at hf
        exact hd.content_eq hf
      rw [heq] at hf ⊢
      exact ⟨href, hcheck, hf, rfl⟩
    · rename_i hf
      cases h
      exact ⟨href, hcheck, hsize, hf⟩
  | verify ref size =>
    obtain ⟨href, hcheck, hf, rfl⟩ := hk
    simp only [movePut, ne_eq, not_true_eq_false, if_false, hf] at h
    split_ifs at h <;> cases h
    · exact ⟨href, hcheck, hf⟩
    · trivial
  | list ref =>
    cases i with
    | none => cases h
    | names names =>
      simp only [movePut] at h
      split_ifs at h with hp
      cases h
      exact ⟨hk, by rw [Nat.zero_add, sizesOf_keys hd.nodup hp]⟩
  | sum ref todo total =>
    obtain ⟨hnew, hsum⟩ := hk
    cases todo with
    | nil =>
      simp only [movePut] at h
      split_ifs at h with hover <;> cases h
      · trivial
      · have htotal : total = bytesOf d.blobs := hsum
        exact ⟨hnew, htotal ▸ Nat.le_of_not_lt hover⟩
    | cons name todo =>
      simp only [movePut] at h
      split at h
      · cases h
        trivial
      · rename_i file hf
        split_ifs at h <;> cases h
        · trivial
        · refine ⟨hnew, ?_⟩
          rw [sizesOf, List.map_cons, List.sum_cons, hf] at hsum
          rw [Nat.add_assoc]
          exact hsum
  | create ref =>
    cases h
    exact ⟨⟨hk.1.ref_eq, hk.1.check, hk.1.size, hk.1.absent⟩, hk.2⟩
  | write ref temporary =>
    cases h
    refine ⟨⟨hk.1.ref_eq, hk.1.check, hk.1.size, hk.1.absent⟩, hk.2, ?_⟩
    rw [get_set, if_pos rfl]
  | rename ref temporary =>
    obtain ⟨hnew, hbound, htemp⟩ := hk
    simp only [movePut, htemp, Option.some.injEq, Prod.mk.injEq] at h
    obtain ⟨rfl, rfl⟩ := h
    refine ⟨hnew.ref_eq, hnew.check, ?_⟩
    rw [get_set, if_pos rfl]
  | sync ref =>
    cases h
    exact hk
  | returned ref | refused e => cases h

/-! ## Runs of a store -/

/-- What holds of a store and of what its puts have returned. -/
structure Store.Good (L : Limits δ) (s : Store δ) : Prop where
  sound : s.directory.Sound L
  knows : ∀ put ∈ s.active, Knows L s.directory put.content put.mediaType put.phase
  returned : ∀ r ∈ s.returned, r.1 = refOf L r.2 r.1.mediaType ∧ r.1.check = true ∧
    get r.1.sha256 s.directory.blobs = some r.2

theorem Store.good_fresh (L : Limits δ) : Store.fresh.Good L where
  sound := ⟨fun _ h => absurd h List.not_mem_nil, List.nodup_nil, Nat.zero_le _⟩
  knows := fun _ h => by cases h
  returned := fun _ h => absurd h List.not_mem_nil

omit [DecidableEq δ] in
@[simp] theorem Put.leave_blobs (put : Put δ) (written : ℕ) (d : Directory δ) :
    (put.leave written d).blobs = d.blobs := by
  unfold Put.leave
  split <;> rfl

omit [DecidableEq δ] in
@[simp] theorem Store.next_directory (put : Put δ) (q : PutPhase δ) :
    (s.next put d q).directory = d := by
  cases q <;> rfl

theorem Store.step_cases {a : Act δ} (h : s.step L a = some t) :
    (t.directory.blobs = s.directory.blobs ∧ t.returned = s.returned ∧ t.refusals = s.refusals ∧
      (t.active = none ∧ t.begun = s.begun ∨ s.active = none ∧ t.begun = s.begun + 1 ∧
        ∃ content mediaType, t.active = some ⟨content, mediaType, .check⟩)) ∨
    ∃ i put d' q, s.active = some put ∧
      movePut L put.content put.mediaType i put.phase s.directory = some (d', q) ∧
      t = s.next put d' q := by
  cases a with
  | put content mediaType =>
    simp only [Store.step] at h
    split at h
    · rename_i hnone
      cases h
      exact .inl ⟨rfl, rfl, rfl, .inr ⟨hnone, rfl, content, mediaType, rfl⟩⟩
    · cases h
  | move i =>
    simp only [Store.step] at h
    split at h
    · cases h
    · rename_i put hput
      obtain ⟨⟨d', q⟩, hm, rfl⟩ := Option.map_eq_some_iff.mp h
      exact .inr ⟨i, put, d', q, hput, hm, rfl⟩
  | die written =>
    simp only [Store.step] at h
    split at h
    · rename_i hnone
      cases h
      exact .inl ⟨rfl, rfl, rfl, .inl ⟨hnone, rfl⟩⟩
    · rename_i put hput
      cases h
      exact .inl ⟨put.leave_blobs written s.directory, rfl, rfl, .inl ⟨rfl, rfl⟩⟩

theorem Store.get_step {a : Act δ} (hs : s.Good L) (h : s.step L a = some t) {k : δ}
    {file : List UInt8} (hf : get k s.directory.blobs = some file) :
    get k t.directory.blobs = some file := by
  rcases Store.step_cases h with ⟨hb, -⟩ | ⟨i, put, d', q, hput, hm, rfl⟩
  · rw [hb]
    exact hf
  · rw [Store.next_directory]
    exact get_move (hs.knows put hput) hm hf

omit [DecidableEq δ] in
theorem Store.mem_returned_next {put : Put δ} {q : PutPhase δ} {r : Ref δ × List UInt8}
    (h : r ∈ (s.next put d q).returned) : r ∈ s.returned ∨ q = .returned r.1 ∧ r.2 = put.content := by
  cases q with
  | returned ref =>
    rcases List.mem_append.mp h with h | h
    · exact .inl h
    · rw [List.mem_singleton.mp h]
      exact .inr ⟨rfl, rfl⟩
  | _ => exact .inl h

omit [DecidableEq δ] in
theorem Store.mem_active_next {put put' : Put δ} {q : PutPhase δ}
    (h : put' ∈ (s.next put d q).active) : put' = { put with phase := q } := by
  cases q with
  | returned ref | refused e => cases h
  | _ =>
    cases h
    rfl

/-- **Every step keeps the files sound and what the puts have returned.** -/
theorem Store.good_step {a : Act δ} (hs : s.Good L) (h : s.step L a = some t) : t.Good L := by
  have hget : ∀ {k : δ} {file : List UInt8}, get k s.directory.blobs = some file →
      get k t.directory.blobs = some file := Store.get_step hs h
  rcases Store.step_cases h with ⟨hb, hr, -, hact⟩ | ⟨i, put, d', q, hput, hm, rfl⟩
  · refine ⟨⟨?_, ?_, ?_⟩, ?_, ?_⟩
    · rw [hb]
      exact hs.sound.named
    · rw [hb]
      exact hs.sound.nodup
    · rw [hb]
      exact hs.sound.bounded
    · rcases hact with ⟨hnone, -⟩ | ⟨-, -, content, mediaType, hsome⟩
      · rw [hnone]
        exact fun _ h => by cases h
      · rw [hsome]
        rintro _ ⟨⟩
        trivial
    · intro r hmem
      rw [hr] at hmem
      obtain ⟨h1, h2, h3⟩ := hs.returned r hmem
      exact ⟨h1, h2, hget h3⟩
  · have hk := hs.knows put hput
    have hk' := hk.move hs.sound hm
    refine ⟨?_, ?_, ?_⟩
    · rw [Store.next_directory]
      exact hs.sound.move hk hm
    · intro put' hput'
      rw [Store.next_directory, Store.mem_active_next hput']
      exact hk'
    · intro r hmem
      rcases Store.mem_returned_next hmem with hmem | ⟨rfl, hc⟩
      · obtain ⟨h1, h2, h3⟩ := hs.returned r hmem
        exact ⟨h1, h2, hget h3⟩
      · obtain ⟨h1, h2, h3⟩ := hk'
        rw [Store.next_directory, hc]
        exact ⟨by rw [h1]; rfl, h2, h3⟩

theorem Store.good_exec {acts : List (Act δ)} (hs : s.Good L)
    (h : exec (Store.step L) s acts = some t) : t.Good L :=
  exec_preserves (Store.Good L) (fun _ _ _ hu => Store.good_step hu) hs h

/-- **No run removes or changes a file.** -/
theorem Store.get_exec {acts : List (Act δ)} (hs : s.Good L)
    (h : exec (Store.step L) s acts = some t) {k : δ} {file : List UInt8}
    (hf : get k s.directory.blobs = some file) : get k t.directory.blobs = some file :=
  (exec_preserves (fun u : Store δ => u.Good L ∧ get k u.directory.blobs = some file)
    (fun _ _ _ hu hstep => ⟨Store.good_step hu.1 hstep, Store.get_step hu.1 hstep hu.2⟩)
    ⟨hs, hf⟩ h).2

/-- **An export of what a put has returned answers with the content of the put.** -/
theorem Store.Good.export_returned {u : Store δ} {acts acts' : List (Act δ)} (hs : s.Good L)
    {ref : Ref δ} (hr : (ref, content) ∈ s.returned) (ht : exec (Store.step L) s acts = some t)
    (hu : exec (Store.step L) t acts' = some u) {maxBytes : ℕ} (hmax : maxBytes ≤ maxSafeInteger)
    (hsize : ref.bytes ≤ maxBytes) :
    exportArtifact L t.directory u.directory ref maxBytes = .ok (ref, content) := by
  obtain ⟨href, hcheck, hget⟩ := hs.returned _ hr
  have hgt := Store.get_exec hs ht hget
  have hgu := Store.get_exec (Store.good_exec hs ht) hu hgt
  have hbytes : content.length = ref.bytes := (congrArg Ref.bytes href).symm
  have hdigest : L.sha256 content = ref.sha256 := (congrArg Ref.sha256 href).symm
  unfold exportArtifact
  rw [if_neg (by simp [hcheck]), if_neg (by omega), hgt]
  simp only [hbytes, ne_eq, not_true_eq_false, if_false, hgu, hdigest]

omit [DecidableEq δ] in
theorem Directory.Sound.contents_nodup (h : d.Sound L) : (d.blobs.map Prod.snd).Nodup := by
  have hkeys : keys d.blobs = (d.blobs.map Prod.snd).map L.sha256 := by
    rw [keys, List.map_map]
    exact List.map_congr_left h.named
  have hnodup := h.nodup
  rw [hkeys] at hnodup
  exact hnodup.of_map _

/-! ## The limit -/

/-- What a put may still add. -/
def PutPhase.pending (L : Limits δ) : PutPhase δ → ℕ
  | .sync _ | .returned _ | .refused _ => 0
  | _ => L.maxArtifactBytes

/-- What the put under way may still add. -/
def Store.pending (L : Limits δ) (s : Store δ) : ℕ :=
  match s.active with
  | none => 0
  | some put => put.phase.pending L

/-- Every put has added no more than one artifact may have. -/
def Store.Counted (L : Limits δ) (s : Store δ) : Prop :=
  bytesOf s.directory.blobs + s.pending L ≤ L.maxArtifactBytes * s.begun

omit [DecidableEq δ] in
theorem Store.counted_fresh (L : Limits δ) : Store.fresh.Counted L := Nat.zero_le _

omit [DecidableEq δ] in
theorem PutPhase.pending_le (q : PutPhase δ) : q.pending L ≤ L.maxArtifactBytes := by
  cases q <;> simp [PutPhase.pending]

theorem pending_move {p q : PutPhase δ} (h : movePut L content mediaType i p d = some (d', q)) :
    q.pending L ≤ p.pending L := by
  cases p with
  | sync ref =>
    cases h
    exact Nat.le_refl _
  | returned ref | refused e => cases h
  | _ => exact q.pending_le

omit [DecidableEq δ] in
@[simp] theorem Store.pending_next (put : Put δ) (q : PutPhase δ) :
    (s.next put d q).pending L = q.pending L := by
  cases q <;> rfl

omit [DecidableEq δ] in
@[simp] theorem Store.begun_next (put : Put δ) (q : PutPhase δ) :
    (s.next put d q).begun = s.begun := by
  cases q <;> rfl

/-- **Every step keeps the count.** -/
theorem Store.counted_step {a : Act δ} (hs : s.Good L) (hc : s.Counted L)
    (h : s.step L a = some t) : t.Counted L := by
  unfold Store.Counted at hc ⊢
  rcases Store.step_cases h with ⟨hb, -, -, ⟨hnone, hbegun⟩ | ⟨hnone, hbegun, c, m, hsome⟩⟩ |
    ⟨i, put, d', q, hput, hm, rfl⟩
  · have hpending : t.pending L = 0 := by simp [Store.pending, hnone]
    rw [hb, hpending, hbegun]
    omega
  · have hpending : t.pending L = L.maxArtifactBytes := by
      simp [Store.pending, PutPhase.pending, hsome]
    rw [hb, hpending, hbegun, Nat.mul_succ]
    omega
  · have hpending : s.pending L = put.phase.pending L := by
      simp [Store.pending, Option.mem_def.mp hput]
    rw [hpending] at hc
    rw [Store.next_directory, Store.pending_next, Store.begun_next]
    have hle := pending_move hm
    rcases movePut_blobs (hs.knows put hput) hm with hb | ⟨ref, temporary, hp, hq, hnew, -, hb⟩
    · rw [hb]
      omega
    · have hsize := hnew.size
      rw [hp] at hc
      rw [hb, hq, bytesOf_set hnew.absent]
      simp only [PutPhase.pending] at hc ⊢
      omega

/-- A put is refused for the total only where the limit is too small for what is stored and what it
may add. -/
theorem move_not_total {p : PutPhase δ} {e : Refusal} (hk : Knows L d content mediaType p)
    (hroom : bytesOf d.blobs + p.pending L ≤ L.maxTotalBytes)
    (h : movePut L content mediaType i p d = some (d', .refused e)) : e.isTotal = false := by
  cases p with
  | check =>
    simp only [movePut] at h
    split_ifs at h <;> cases h <;> rfl
  | stat ref =>
    simp only [movePut] at h
    split at h <;> cases h
  | verify ref size =>
    simp only [movePut] at h
    split at h
    · cases h
      rfl
    · split at h
      · cases h
      · split_ifs at h <;> cases h
        rfl
  | list ref =>
    cases i with
    | none => cases h
    | names names =>
      simp only [movePut] at h
      split_ifs at h
      cases h
  | sum ref todo total =>
    obtain ⟨hnew, hsum⟩ := hk
    have hsize := hnew.size
    simp only [PutPhase.pending] at hroom
    cases todo with
    | nil =>
      have htotal : total = bytesOf d.blobs := hsum
      simp only [movePut] at h
      rw [if_neg (by omega)] at h
      cases h
    | cons name todo =>
      simp only [movePut] at h
      split at h
      · cases h
        rfl
      · rename_i file hf
        rw [sizesOf, List.map_cons, List.sum_cons, hf, Option.getD_some] at hsum
        rw [if_neg (by omega)] at h
        cases h
  | create ref | write ref temporary | sync ref => cases h
  | rename ref temporary =>
    simp only [movePut] at h
    split at h <;> cases h
    rfl
  | returned ref | refused e => cases h

/-- **As many puts as the limit is computed for are never refused for the total.** -/
theorem Store.not_refused {a : Act δ} (hs : s.Good L) (hc : s.Counted L)
    (hbound : L.maxArtifactBytes * s.begun ≤ L.maxTotalBytes) (h : s.step L a = some t)
    {e : Refusal} (he : e ∈ t.refusals) : e ∈ s.refusals ∨ e.isTotal = false := by
  rcases Store.step_cases h with ⟨-, -, hr, -⟩ | ⟨i, put, d', q, hput, hm, rfl⟩
  · rw [hr] at he
    exact .inl he
  · cases q with
    | refused e' =>
      rcases List.mem_append.mp he with he | he
      · exact .inl he
      · rw [List.mem_singleton.mp he]
        refine .inr (move_not_total (hs.knows put hput) ?_ hm)
        have hpending : s.pending L = put.phase.pending L := by
          simp [Store.pending, Option.mem_def.mp hput]
        rw [← hpending]
        exact hc.trans hbound
    | _ => exact .inl he

end PiSubagent.Artifacts
