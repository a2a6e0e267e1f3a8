import PiSubagent.Lib.PosixPath
import PiSubagent.Preflight.Canonical

/-!
# Digests of files that change meanwhile

The preflight loaders read files while other processes may write them.

* `Files`, `Schedule`: what the calls of `node:fs` answer at one moment, and at every moment.
* `Load`: a loader; every call it makes is a moment of its own.
* `digestFileResource`, `digestTreeResource`: as the code computes them.
* `listing`, **`listing_files`**: the digest of a tree names the files in it.

The moments at which a loader reads a file are kept with what it returns; the code does not keep them.
-/

namespace PiSubagent

open JsonText

namespace Preflight.Resources

open Canonical (Value)

/-! ## Calls -/

/-- Why a call of `node:fs` throws. -/
inductive SystemError where
  | enoent
  | other
deriving DecidableEq, Repr

/-- What a path leads to. -/
inductive FileKind where
  | file | directory | symbolicLink | other
deriving DecidableEq, Repr

/-- What `lstat` answers. -/
structure Metadata where
  kind : FileKind
  size : ℕ
  executable : Bool
deriving DecidableEq, Repr

/-- What the calls of `node:fs` answer at one moment. -/
structure Files where
  realpath : JsString → Except SystemError JsString
  lstat : JsString → Except SystemError Metadata
  readdir : JsString → Except SystemError (List JsString)
  readFile : JsString → Except SystemError (List UInt8)

/-- The files at every moment; other processes change them as they like. -/
abbrev Schedule := ℕ → Files

/-- What a loader throws. -/
inductive LoadError where
  | system (e : SystemError)
  | limits (message : JsString)
  | resourceDigest (message : JsString)
  | contextFile (message : JsString)
  | skill (message : JsString)
  | agent (message : JsString)
  /-- A tree deeper than the walk goes here. -/
  | endless
deriving DecidableEq, Repr

/-- A loader, from the moment of its next call. -/
abbrev Load (α : Type) := StateT ℕ (Except LoadError) α

/-- A call. -/
def call {α : Type} (w : Schedule) (f : Files → Except SystemError α) : Load α := fun t =>
  match f (w t) with
  | .ok a => .ok (a, t + 1)
  | .error e => .error (.system e)

/-- The moment of the next call. -/
def moment : Load ℕ := fun t => .ok (t, t)

/-- `if (c) throw e`. -/
def throwIf (c : Prop) [Decidable c] (e : LoadError) : Load Unit := fun t =>
  if c then .error e else .ok ((), t)

/-- A value, or what is thrown for it. -/
def lift {α : Type} (x : Except LoadError α) : Load α := fun t => x.map fun a => (a, t)

section Load

variable {α β : Type} {w : Schedule} {t u : ℕ} {a : α} {b : β}

theorem bind_ok {x : Load α} {f : α → Load β} :
    (x >>= f) t = .ok (b, u) ↔ ∃ a s, x t = .ok (a, s) ∧ f a s = .ok (b, u) := by
  change (x t >>= fun p => f p.1 p.2) = .ok (b, u) ↔ _
  rw [Preflight.bind_eq_ok, Prod.exists]

theorem call_ok {f : Files → Except SystemError α} :
    call w f t = .ok (a, u) ↔ f (w t) = .ok a ∧ u = t + 1 := by
  rw [call]
  cases f (w t) with
  | error e => exact iff_of_false nofun nofun
  | ok b =>
    change Except.ok (b, t + 1) = _ ↔ Except.ok b = _ ∧ _
    rw [Except.ok.injEq, Except.ok.injEq, Prod.mk.injEq, eq_comm (a := t + 1)]

theorem moment_ok {m : ℕ} : moment t = .ok (m, u) ↔ m = t ∧ u = t := by
  rw [moment, Except.ok.injEq, Prod.mk.injEq, eq_comm (a := t) (b := m), eq_comm (a := t) (b := u)]

theorem throwIf_ok {c : Prop} [Decidable c] {e : LoadError} {x : Unit} :
    throwIf c e t = .ok (x, u) ↔ ¬ c ∧ u = t := by
  rw [throwIf]
  split
  · next h => exact iff_of_false nofun fun hn => hn.1 h
  · next h =>
    rw [Except.ok.injEq, Prod.mk.injEq, eq_comm (a := t)]
    exact ⟨fun he => ⟨h, he.2⟩, fun he => ⟨rfl, he.2⟩⟩

theorem lift_ok {x : Except LoadError α} : lift x t = .ok (a, u) ↔ x = .ok a ∧ u = t := by
  cases x with
  | error e => exact iff_of_false nofun nofun
  | ok b =>
    change Except.ok (b, t) = _ ↔ _
    rw [Except.ok.injEq, Except.ok.injEq, Prod.mk.injEq, eq_comm (a := t)]

theorem pure_ok {a' : α} : (pure a : Load α) t = .ok (a', u) ↔ a' = a ∧ u = t := by
  change Except.ok (a, t) = _ ↔ _
  rw [Except.ok.injEq, Prod.mk.injEq, eq_comm (a := a), eq_comm (a := t)]

end Load

/-! ## Digests -/

/-- SHA-256 as hexadecimal text, taken to be injective. -/
structure Sha256 where
  digest : List UInt8 → JsString
  injective : Function.Injective digest

/-- `ResourceDigestLimits`. -/
structure ResourceDigestLimits where
  maxFiles : ℕ
  maxBytes : ℕ

/-- `DEFAULT_LIMITS`. -/
def defaultLimits : ResourceDigestLimits := ⟨10000, 64 * 1024 * 1024⟩

/-- `validateLimits`. -/
def validateLimits (limits : ResourceDigestLimits) : Load Unit := do
  throwIf (limits.maxFiles < 1 ∨ maxSafeInteger < limits.maxFiles)
    (.limits (ofString "maxFiles must be a positive safe integer"))
  throwIf (limits.maxBytes < 1 ∨ maxSafeInteger < limits.maxBytes)
    (.limits (ofString "maxBytes must be a positive safe integer"))

/-- A file that was read: its path in the tree that is digested, its path, and when it was read. -/
structure Reading where
  name : JsString
  path : JsString
  at_ : ℕ
deriving DecidableEq, Repr

/-- `ResourceDigest`, with the files it was computed from. -/
structure DatedDigest extends ResourceDigest where
  files : ℕ
  bytes : ℕ
  readings : List Reading

/-- `new ResourceDigestError(message)`. -/
def resourceDigestError (message : String) : LoadError := .resourceDigest (ofString message)

/-- `digestFileResource`. -/
def digestFileResource (S : Sha256) (w : Schedule) (filePath : JsString)
    (limits : ResourceDigestLimits) : Load DatedDigest := do
  validateLimits limits
  let canonicalPath ← call w (·.realpath filePath)
  let metadata ← call w (·.lstat canonicalPath)
  throwIf (metadata.kind ≠ .file) (resourceDigestError "resource is not a file")
  throwIf (limits.maxBytes < metadata.size) (resourceDigestError "resource exceeds byte limit")
  let at_ ← moment
  let content ← call w (·.readFile canonicalPath)
  return ⟨⟨canonicalPath, S.digest content⟩, 1, content.length, [⟨[], canonicalPath, at_⟩]⟩

/-- `TreeEntry`; only files have a digest. -/
structure TreeEntry where
  path : JsString
  executable : Bool
  bytes : ℕ
  sha256 : Option JsString
deriving DecidableEq, Repr

/-- The type of an entry. -/
def TreeEntry.type (e : TreeEntry) : JsString :=
  ofString (if e.sha256.isSome then "file" else "directory")

/-- A number of bytes as a value. -/
def byteCount (n : ℕ) : Canonical.Number :=
  match Double.round false n with
  | some x => .finite x
  | none => .infinity false

/-- The members of an entry. -/
def TreeEntry.members (e : TreeEntry) : List (JsString × Value) :=
  [(ofString "path", .str e.path), (ofString "type", .str e.type),
    (ofString "executable", .bool e.executable), (ofString "bytes", .num (byteCount e.bytes))] ++
    e.sha256.toList.map fun d => (ofString "sha256", .str d)

/-- An entry as the value that is digested. -/
def TreeEntry.value (e : TreeEntry) : Value := .obj e.members

/-- The entries of a tree as the value that is digested. -/
def listing (entries : List TreeEntry) : Value := .arr (entries.map TreeEntry.value)

/-- What `walk` of `digestTreeResource` has gathered. -/
structure Walked where
  entries : List TreeEntry
  files : ℕ
  bytes : ℕ
  readings : List Reading

/-- The loop of `walk` over the names of a directory; `recurse` walks a directory in it. A name of a
directory has no slash in it, so that joining it only puts one. -/
def walkNames (S : Sha256) (w : Schedule) (limits : ResourceDigestLimits)
    (recurse : JsString → JsString → Walked → Load Walked)
    (directory relativeDirectory : JsString) : List JsString → Walked → Load Walked
  | [], acc => pure acc
  | name :: names, acc => do
    let absolutePath := PosixPath.join directory name
    let relativePath := if relativeDirectory = [] then name else relativeDirectory ++ 47 :: name
    let metadata ← call w (·.lstat absolutePath)
    match metadata.kind with
    | .symbolicLink =>
      lift (.error (.resourceDigest (ofString "resource symlink denied: " ++ relativePath)))
    | .directory => do
      let acc ← recurse absolutePath relativePath
        { acc with entries := acc.entries ++ [⟨relativePath, false, 0, none⟩] }
      walkNames S w limits recurse directory relativeDirectory names acc
    | .other =>
      lift (.error (.resourceDigest (ofString "unsupported resource entry: " ++ relativePath)))
    | .file => do
      throwIf (limits.maxFiles < acc.files + 1) (resourceDigestError "resource exceeds file limit")
      let at_ ← moment
      let content ← call w (·.readFile absolutePath)
      throwIf (limits.maxBytes < acc.bytes + content.length)
        (resourceDigestError "resource exceeds byte limit")
      walkNames S w limits recurse directory relativeDirectory names
        { entries := acc.entries ++
            [⟨relativePath, metadata.executable, content.length, some (S.digest content)⟩]
          files := acc.files + 1
          bytes := acc.bytes + content.length
          readings := acc.readings ++ [⟨relativePath, absolutePath, at_⟩] }

/-- `walk`, through directories at most so deep. -/
def walk (S : Sha256) (w : Schedule) (limits : ResourceDigestLimits) :
    ℕ → JsString → JsString → Walked → Load Walked
  | 0, _, _, _ => lift (.error .endless)
  | depth + 1, directory, relativeDirectory, acc => do
    let names ← call w (·.readdir directory)
    walkNames S w limits (walk S w limits depth) directory relativeDirectory (sortBy id names) acc

/-- `digestTreeResource`. -/
def digestTreeResource (S : Sha256) (w : Schedule) (depth : ℕ) (treePath : JsString)
    (limits : ResourceDigestLimits) : Load (DatedDigest × List TreeEntry) := do
  validateLimits limits
  let canonicalPath ← call w (·.realpath treePath)
  let rootMetadata ← call w (·.lstat canonicalPath)
  throwIf (rootMetadata.kind ≠ .directory) (resourceDigestError "resource is not a directory")
  let acc ← walk S w limits depth canonicalPath [] ⟨[], 0, 0, []⟩
  match Canonical.canonicalSha256 S.digest (listing acc.entries) with
  | .ok sha256 =>
    return (⟨⟨canonicalPath, sha256⟩, acc.files, acc.bytes, acc.readings⟩, acc.entries)
  | .error message => lift (.error (resourceDigestError message))

/-! ## What the digest of a tree names -/

/-- A tree has a file of this path and digest. -/
def HasFile (entries : List TreeEntry) (path digest : JsString) : Prop :=
  ∃ e ∈ entries, e.path = path ∧ e.sha256 = some digest

theorem members_nodup (e : TreeEntry) : (OrderedMap.keys e.members).Nodup := by
  obtain ⟨path, executable, bytes, sha256⟩ := e
  cases sha256 with
  | none => exact (by decide : ([ofString "path", ofString "type", ofString "executable",
      ofString "bytes"] : List JsString).Nodup)
  | some d => exact (by decide : ([ofString "path", ofString "type", ofString "executable",
      ofString "bytes", ofString "sha256"] : List JsString).Nodup)

theorem listing_proper (entries : List TreeEntry) : (listing entries).Proper := by
  change Canonical.ElemsProper (entries.map TreeEntry.value)
  rw [Canonical.elemsProper_iff]
  intro x hx
  obtain ⟨e, -, rfl⟩ := List.mem_map.mp hx
  refine ⟨members_nodup e, ?_⟩
  obtain ⟨path, executable, bytes, sha256⟩ := e
  cases sha256 with
  | none => exact ⟨trivial, trivial, trivial, trivial, trivial⟩
  | some d => exact ⟨trivial, trivial, trivial, trivial, trivial, trivial⟩

theorem listing_plain {entries : List TreeEntry} (h : (listing entries).Finite) :
    (listing entries).Plain := by
  change Canonical.EachElem _ _ (entries.map TreeEntry.value) at h ⊢
  rw [Canonical.eachElem_iff] at h ⊢
  intro x hx
  have hfin := h x hx
  obtain ⟨e, -, rfl⟩ := List.mem_map.mp hx
  obtain ⟨-, -, -, ⟨-, hn⟩, -⟩ := hfin
  obtain ⟨path, executable, bytes, sha256⟩ := e
  cases sha256 with
  | none => exact ⟨⟨by decide, trivial⟩, ⟨by decide, trivial⟩, ⟨by decide, trivial⟩,
      ⟨by decide, hn⟩, trivial⟩
  | some d => exact ⟨⟨by decide, trivial⟩, ⟨by decide, trivial⟩, ⟨by decide, trivial⟩,
      ⟨by decide, hn⟩, ⟨by decide, trivial⟩, trivial⟩

theorem path_mem (e : TreeEntry) : (ofString "path", Value.str e.path) ∈ e.members :=
  List.mem_append_left _ List.mem_cons_self

theorem executable_mem (e : TreeEntry) :
    (ofString "executable", Value.bool e.executable) ∈ e.members :=
  List.mem_append_left _ (List.mem_cons_of_mem _ (List.mem_cons_of_mem _ List.mem_cons_self))

theorem sha256_mem {e : TreeEntry} {v : Value} :
    (ofString "sha256", v) ∈ e.members ↔ ∃ d, e.sha256 = some d ∧ v = .str d := by
  rw [TreeEntry.members, List.mem_append]
  constructor
  · rintro (h | h)
    · have hk := List.mem_map_of_mem (f := Prod.fst) h
      exact absurd hk (by decide : ofString "sha256" ∉ ([ofString "path", ofString "type",
        ofString "executable", ofString "bytes"] : List JsString))
    · obtain ⟨d, hd, he⟩ := List.mem_map.mp h
      exact ⟨d, Option.mem_toList.mp hd, (congrArg Prod.snd he).symm⟩
  · rintro ⟨d, hd, rfl⟩
    exact .inr (List.mem_map.mpr ⟨d, Option.mem_toList.mpr hd, rfl⟩)

theorem same_str {a b : JsString} (h : Canonical.Same (.str a) (.str b)) : a = b := by
  cases h
  rfl

theorem same_bool {a b : Bool} (h : Canonical.Same (.bool a) (.bool b)) : a = b := by
  cases h
  rfl

theorem entries_of_same {L M : List TreeEntry} (h : Canonical.Same (listing L) (listing M)) :
    List.Forall₂ (fun e m => Canonical.Same e.value m.value) L M := by
  cases h with
  | arr hlength h =>
    rw [List.length_map, List.length_map] at hlength
    refine List.forall₂_iff_get.mpr ⟨hlength, fun i hi hm => ?_⟩
    refine h i _ _ ?_ ?_
    · rw [List.getElem?_map, List.getElem?_eq_getElem hi]
      rfl
    · rw [List.getElem?_map, List.getElem?_eq_getElem hm]
      rfl

theorem sha256_of_same {e m : TreeEntry} (h : Canonical.Same e.value m.value) {digest : JsString}
    (hd : e.sha256 = some digest) : m.sha256 = some digest := by
  cases h with
  | obj hkeys hvals =>
    have hkey := (hkeys (ofString "sha256")).mp
      (List.mem_map_of_mem (f := Prod.fst) (sha256_mem.mpr ⟨digest, hd, rfl⟩))
    obtain ⟨⟨_, v⟩, hv, rfl⟩ := List.mem_map.mp hkey
    obtain ⟨d, hmd, rfl⟩ := sha256_mem.mp hv
    have hsha := hvals _ _ _ (sha256_mem.mpr ⟨digest, hd, rfl⟩) hv
    rw [same_str hsha]
    exact hmd

/-- **The value of an entry** names its path, its executable bit and its digest. -/
theorem TreeEntry.of_same {e m : TreeEntry} (h : Canonical.Same e.value m.value) :
    e.path = m.path ∧ e.executable = m.executable ∧ e.sha256 = m.sha256 := by
  refine ⟨?_, ?_, ?_⟩
  · cases h with
    | obj hkeys hvals => exact same_str (hvals _ _ _ (path_mem e) (path_mem m))
  · cases h with
    | obj hkeys hvals => exact same_bool (hvals _ _ _ (executable_mem e) (executable_mem m))
  · refine Option.ext fun digest => ⟨sha256_of_same h, sha256_of_same h.symm⟩

theorem hasFile_of_same {L M : List TreeEntry} (h : Canonical.Same (listing L) (listing M))
    {path digest : JsString} (hf : HasFile L path digest) : HasFile M path digest := by
  obtain ⟨e, he, rfl, hd⟩ := hf
  have hall := entries_of_same h
  clear h
  induction hall with
  | nil => exact absurd he List.not_mem_nil
  | cons hsame _ ih =>
    rename_i e' m L M _
    rcases List.mem_cons.mp he with rfl | he
    · obtain ⟨hpath, -, hsha⟩ := TreeEntry.of_same hsame
      exact ⟨m, List.mem_cons_self, hpath.symm, hsha ▸ hd⟩
    · obtain ⟨m', hm', h⟩ := ih he
      exact ⟨m', List.mem_cons_of_mem _ hm', h⟩

theorem same_of_digest (S : Sha256) {L M : List TreeEntry} {sha256 : JsString}
    (hL : Canonical.canonicalSha256 S.digest (listing L) = .ok sha256)
    (hM : Canonical.canonicalSha256 S.digest (listing M) = .ok sha256) :
    Canonical.Same (listing L) (listing M) := by
  rw [Canonical.canonicalSha256] at hL hM
  cases htL : Canonical.canonicalJson (listing L) with
  | error e =>
    rw [htL] at hL
    cases hL
  | ok t =>
    cases htM : Canonical.canonicalJson (listing M) with
    | error e =>
      rw [htM] at hM
      cases hM
    | ok u =>
      rw [htL] at hL
      rw [htM] at hM
      have hbytes := S.injective (Except.ok.inj (hL.trans hM.symm))
      have htext : t = u := Utf8.encode_injective hbytes
      have hpL := listing_plain ((Canonical.canonicalJson_ok_iff (listing_proper L)).mp htL).1
      have hpM := listing_plain ((Canonical.canonicalJson_ok_iff (listing_proper M)).mp htM).1
      refine (Canonical.canonicalJson_eq_iff (listing_proper L) (listing_proper M) hpL hpM).mp ?_
      rw [htL, htM, htext]

/-- **The digest of a tree names its files.** -/
theorem listing_files (S : Sha256) {L M : List TreeEntry} {sha256 : JsString}
    (hL : Canonical.canonicalSha256 S.digest (listing L) = .ok sha256)
    (hM : Canonical.canonicalSha256 S.digest (listing M) = .ok sha256) {path digest : JsString}
    (hf : HasFile L path digest) : HasFile M path digest :=
  hasFile_of_same (same_of_digest S hL hM) hf

/-! ## What a walk has read -/

/-- A file that was read is one of the tree, under the digest of what was read. -/
def Read (S : Sha256) (w : Schedule) (r : Reading) (path digest : JsString) : Prop :=
  r.name = path ∧ ∃ bytes, (w r.at_).readFile r.path = .ok bytes ∧ digest = S.digest bytes

/-- The files among the entries are those that were read. -/
def Faithful (S : Sha256) (w : Schedule) (acc : Walked) : Prop :=
  ∀ path digest, HasFile acc.entries path digest ↔ ∃ r ∈ acc.readings, Read S w r path digest

variable {S : Sha256} {w : Schedule} {limits : ResourceDigestLimits}

theorem hasFile_append {entries : List TreeEntry} {e : TreeEntry} {path digest : JsString} :
    HasFile (entries ++ [e]) path digest ↔
      HasFile entries path digest ∨ e.path = path ∧ e.sha256 = some digest := by
  simp only [HasFile, List.mem_append, List.mem_singleton, or_and_right, exists_or, exists_eq_left]

theorem Faithful.directory {acc : Walked} (h : Faithful S w acc) (path : JsString) :
    Faithful S w { acc with entries := acc.entries ++ [⟨path, false, 0, none⟩] } := by
  intro p d
  change HasFile (acc.entries ++ [_]) p d ↔ _
  rw [hasFile_append, h p d]
  exact or_iff_left fun hc => nomatch hc.2

theorem Faithful.file {acc : Walked} (h : Faithful S w acc) {name path : JsString} {t : ℕ}
    {content : List UInt8} (hread : (w t).readFile path = .ok content) (executable : Bool)
    (files bytes : ℕ) :
    Faithful S w ⟨acc.entries ++ [⟨name, executable, content.length, some (S.digest content)⟩], files,
      bytes, acc.readings ++ [⟨name, path, t⟩]⟩ := by
  intro p d
  rw [hasFile_append, h p d]
  simp only [List.mem_append, List.mem_singleton, or_and_right, exists_or, exists_eq_left]
  refine or_congr_right ⟨?_, ?_⟩
  · rintro ⟨rfl, hd⟩
    exact ⟨rfl, content, hread, (Option.some.inj hd).symm⟩
  · rintro ⟨hn, bytes', hb, rfl⟩
    rw [hread] at hb
    exact ⟨hn, by rw [Except.ok.inj hb]⟩

/-- **The loop over the names of a directory.** -/
theorem walkNames_faithful {recurse : JsString → JsString → Walked → Load Walked}
    (hrec : ∀ d r acc t acc' u, Faithful S w acc → recurse d r acc t = .ok (acc', u) →
      Faithful S w acc')
    (directory relativeDirectory : JsString) (names : List JsString) {acc acc' : Walked} {t u : ℕ}
    (h : Faithful S w acc)
    (hw : walkNames S w limits recurse directory relativeDirectory names acc t = .ok (acc', u)) :
    Faithful S w acc' := by
  induction names generalizing acc t with
  | nil =>
    obtain ⟨rfl, -⟩ := pure_ok.mp hw
    exact h
  | cons name names ih =>
    obtain ⟨metadata, s, -, hw⟩ := bind_ok.mp hw
    cases hk : metadata.kind with
    | symbolicLink =>
      simp only [hk] at hw
      exact nomatch (lift_ok.mp hw).1
    | directory =>
      simp only [hk] at hw
      obtain ⟨acc₁, s₁, hr, hw⟩ := bind_ok.mp hw
      exact ih (hrec _ _ _ _ _ _ (h.directory _) hr) hw
    | other =>
      simp only [hk] at hw
      exact nomatch (lift_ok.mp hw).1
    | file =>
      simp only [hk] at hw
      obtain ⟨-, s₁, -, hw⟩ := bind_ok.mp hw
      obtain ⟨at_, s₂, hm, hw⟩ := bind_ok.mp hw
      obtain ⟨content, s₃, hc, hw⟩ := bind_ok.mp hw
      obtain ⟨-, s₄, -, hw⟩ := bind_ok.mp hw
      obtain ⟨hat, hs⟩ := moment_ok.mp hm
      have hread := (call_ok.mp hc).1
      rw [hs, ← hat] at hread
      exact ih (h.file hread _ _ _) hw

/-- **The walk.** -/
theorem walk_faithful (depth : ℕ) (directory relativeDirectory : JsString) {acc acc' : Walked}
    {t u : ℕ} (h : Faithful S w acc)
    (hw : walk S w limits depth directory relativeDirectory acc t = .ok (acc', u)) :
    Faithful S w acc' := by
  induction depth generalizing directory relativeDirectory acc acc' t u with
  | zero => exact nomatch (lift_ok.mp hw).1
  | succ depth ih =>
    obtain ⟨names, s, -, hw⟩ := bind_ok.mp hw
    exact walkNames_faithful (fun d r acc t acc' u h hr => ih d r h hr) _ _ _ h hw

/-- **A tree digest** is that of a tree whose files are those that were read. -/
theorem digestTreeResource_ok {depth : ℕ} {treePath : JsString} {d : DatedDigest}
    {entries : List TreeEntry} {t u : ℕ}
    (h : digestTreeResource S w depth treePath limits t = .ok ((d, entries), u)) :
    Canonical.canonicalSha256 S.digest (listing entries) = .ok d.sha256 ∧
      ∀ path digest, HasFile entries path digest ↔ ∃ r ∈ d.readings, Read S w r path digest := by
  obtain ⟨-, t₁, -, h⟩ := bind_ok.mp h
  obtain ⟨canonicalPath, t₂, -, h⟩ := bind_ok.mp h
  obtain ⟨metadata, t₃, -, h⟩ := bind_ok.mp h
  obtain ⟨-, t₄, -, h⟩ := bind_ok.mp h
  obtain ⟨acc, t₅, hw, h⟩ := bind_ok.mp h
  have hstart : Faithful S w ⟨[], 0, 0, []⟩ := by
    intro p d
    exact iff_of_false (fun ⟨e, he, _⟩ => nomatch he) fun ⟨r, hr, _⟩ => nomatch hr
  have hacc := walk_faithful depth canonicalPath [] hstart hw
  cases hsha : Canonical.canonicalSha256 S.digest (listing acc.entries) with
  | error e =>
    simp only [hsha] at h
    exact nomatch (lift_ok.mp h).1
  | ok sha256 =>
    simp only [hsha] at h
    obtain ⟨he, -⟩ := pure_ok.mp h
    cases he
    exact ⟨hsha, hacc⟩

/-- **A file digest** is that of what was read. -/
theorem digestFileResource_ok {filePath : JsString} {d : DatedDigest} {t u : ℕ}
    (h : digestFileResource S w filePath limits t = .ok (d, u)) :
    ∃ at_ bytes, (w at_).readFile d.canonicalPath = .ok bytes ∧ d.sha256 = S.digest bytes ∧
      d.readings = [⟨[], d.canonicalPath, at_⟩] := by
  obtain ⟨-, t₁, -, h⟩ := bind_ok.mp h
  obtain ⟨canonicalPath, t₂, -, h⟩ := bind_ok.mp h
  obtain ⟨metadata, t₃, -, h⟩ := bind_ok.mp h
  obtain ⟨-, t₄, -, h⟩ := bind_ok.mp h
  obtain ⟨-, t₅, -, h⟩ := bind_ok.mp h
  obtain ⟨at_, t₆, hm, h⟩ := bind_ok.mp h
  obtain ⟨content, t₇, hc, h⟩ := bind_ok.mp h
  obtain ⟨rfl, -⟩ := pure_ok.mp h
  obtain ⟨rfl, rfl⟩ := moment_ok.mp hm
  exact ⟨_, content, (call_ok.mp hc).1, rfl, rfl⟩

end Preflight.Resources

end PiSubagent
