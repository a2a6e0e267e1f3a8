import PiSubagent.Lib.PosixPath
import PiSubagent.Preflight.Compile
import Mathlib.Data.List.DropRight

/-!
# Dependency directories

Which `node_modules` directories of a workspace an attempt binds onto the guest's root disk. The tree
is what the calls of the host answer; it does not change meanwhile.

* `Host`: the answers of the file system and of Git.
* `expandPattern`: the member directories of a workspace pattern; **`mem_expandPattern`**.
* `planDependencyDirectories`: the plan, and the mountpoints it creates.
* `Bindable`, **`plan_bound`**: what is bound, and everything else is skipped with a reason.
* **`dependencyBinds`**: the binds are apart when no bound member is a dependency of another.
-/

namespace PiSubagent.Dependencies

open JsonText PosixPath
open Preflight (sortBy mem_sortBy)

/-! ## The host -/

/-- What `lstat` shows. -/
inductive Kind where
  | file (size : ℕ)
  | directory
  | symlink
  | other
deriving DecidableEq, Repr

/-- The answers of the host; a call that throws answers nothing. -/
structure Host where
  lstat : JsString → Option Kind
  readdir : JsString → Option (List JsString)
  names : ∀ directory entries, readdir directory = some entries →
    ∀ name ∈ entries, name ≠ [] ∧ 47 ∉ name
  /-- The text of a file. -/
  readFile : JsString → Option (List Char)
  /-- The exit code of `git check-ignore -q --` in the workspace. -/
  checkIgnore : JsString → Option ℕ
  /-- The directory can be made. -/
  mkdir : JsString → Bool

/-- `DependencySkipReason`. -/
inductive SkipReason where
  | notIgnored
  | ignoreCheckFailed
  | symlink
  | notADirectory
  | absentInReadOnlyWorkspace
  | unsupportedPattern
  | limit
deriving DecidableEq, Repr

/-- `DependencyDirectoryPlan`, and the directories that planning has made. -/
structure Plan where
  bound : List JsString
  skipped : List (JsString × SkipReason)
  created : List JsString
deriving DecidableEq, Repr

def maxDependencyDirectories : ℕ := 64

def maxPackageJsonBytes : ℕ := 1024 * 1024

/-- `node_modules`. -/
def nodeModules : JsString := ofString "node_modules"

/-- `package.json`. -/
def packageJson : JsString := ofString "package.json"

/-! ## Workspace patterns -/

/-- A member of an object; the last of those with its name. -/
def field (members : List (JsString × Json)) (name : String) : Option Json :=
  (members.reverse.find? fun m => m.1 = ofString name).map Prod.snd

/-- `readRootManifest`. -/
def readRootManifest (H : Host) (workspace : JsString) : Option (List (JsString × Json)) :=
  let file := joinAll [workspace, packageJson]
  match H.lstat file with
  | some (.file size) =>
    if maxPackageJsonBytes < size then none
    else
      match (H.readFile file).bind parse with
      | some (.obj members) => some members
      | _ => none
  | _ => none

/-- `workspacePatterns`. -/
def workspacePatterns (manifest : List (JsString × Json)) : List JsString :=
  let list : List Json :=
    match field manifest "workspaces" with
    | some (.arr items) => items
    | some (.obj members) =>
      match field members "packages" with
      | some (.arr items) => items
      | _ => []
    | _ => []
  list.filterMap fun item =>
    match item with
    | .str s => some s
    | _ => none

/-- The code points of a string; half a pair is one of its own. -/
def codePoints : JsString → List ℕ
  | [] => []
  | [u] => [u.toNat]
  | u :: v :: us =>
    if isHigh u && isLow v then
      (0x10000 + (u.toNat - 0xD800) * 0x400 + (v.toNat - 0xDC00)) :: codePoints us
    else u.toNat :: codePoints (v :: us)

/-- What may be left after `[^/]*`. -/
def afterStar : List ℕ → List (List ℕ)
  | [] => [[]]
  | c :: cs => (c :: cs) :: if c = 47 then [] else afterStar cs

/-- A text of literal code points and `*` matches another. -/
def glob : List ℕ → List ℕ → Bool
  | [], cs => cs.isEmpty
  | p :: ps, cs =>
    if p = 42 then (afterStar cs).any (glob ps)
    else
      match cs with
      | [] => false
      | c :: cs => c = p && glob ps cs

/-- `segmentPattern`, tested on a name. -/
def segmentMatches (segment name : JsString) : Bool := glob (codePoints segment) (codePoints name)

/-- `realDirectory`. -/
def realDirectory (H : Host) (target : JsString) : Bool := H.lstat target = some .directory

/-- One segment of a pattern, below a directory. -/
def expandBase (H : Host) (workspace segment base : JsString) : List JsString :=
  if 42 ∉ segment then
    let candidate := joinAll [base, segment]
    if realDirectory H (joinAll [workspace, candidate]) then [candidate] else []
  else
    match H.readdir (joinAll [workspace, base]) with
    | none => []
    | some entries =>
      (sortBy id entries).filterMap fun entry =>
        if !segmentMatches segment entry || entry.head? = some 46 then none
        else
          let candidate := joinAll [base, entry]
          if realDirectory H (joinAll [workspace, candidate]) then some candidate else none

/-- The normal form of a pattern, when it is supported. -/
def supportedPattern (pattern : JsString) : Option JsString :=
  let normalized := normalize (pattern.rdropWhile fun u => u = 47)
  if normalized = [] ∨ normalized = dot ∨ normalized.head? = some 47 ∨
      normalized.head? = some 33 ∨ dotDot ∈ segments normalized ∨ [42, 42] ∈ segments normalized then
    none
  else some normalized

/-- `expandPattern`. -/
def expandPattern (H : Host) (workspace pattern : JsString) : Option (List JsString) :=
  (supportedPattern pattern).map fun normalized =>
    (segments normalized).foldl (fun current segment => current.flatMap (expandBase H workspace segment))
      [[]]

/-! ## Planning -/

/-- A directory is a member when it has a `package.json`; the set keeps the order of insertion. -/
def addMember (H : Host) (workspace : JsString) (members : List JsString) (member : JsString) :
    List JsString :=
  match H.lstat (joinAll [workspace, member, packageJson]) with
  | some (.file _) => if member ∈ members then members else members ++ [member]
  | _ => members

/-- The members of a pattern join the others. -/
def addPattern (H : Host) (workspace : JsString) (s : List JsString × List (JsString × SkipReason))
    (pattern : JsString) : List JsString × List (JsString × SkipReason) :=
  match expandPattern H workspace pattern with
  | none => (s.1, s.2 ++ [(pattern, .unsupportedPattern)])
  | some expanded => (expanded.foldl (addMember H workspace) s.1, s.2)

/-- `isIgnored`. -/
def isIgnored (H : Host) (relativePath : JsString) : Option Bool :=
  match H.checkIgnore (relativePath ++ [47]) with
  | some 0 => some true
  | some 1 => some false
  | _ => none

/-- The dependency directory of a member. -/
def dependencyPath (member : JsString) : JsString := joinAll [member, nodeModules]

/-- A directory is skipped. -/
def Plan.skip (plan : Plan) (path : JsString) (reason : SkipReason) : Plan :=
  { plan with skipped := plan.skipped ++ [(path, reason)] }

/-- One member; `mkdir` may throw, and what is planned until then is not returned. -/
def planMember (H : Host) (workspace : JsString) (createMountpoints : Bool) (plan : Plan)
    (member : JsString) : Except Plan Plan :=
  let relativePath := dependencyPath member
  if maxDependencyDirectories ≤ plan.bound.length then .ok (plan.skip relativePath .limit)
  else
    let hostPath := joinAll [workspace, relativePath]
    match H.lstat hostPath with
    | some .symlink => .ok (plan.skip relativePath .symlink)
    | some (.file _) | some .other => .ok (plan.skip relativePath .notADirectory)
    | found =>
      match isIgnored H relativePath with
      | none => .ok (plan.skip relativePath .ignoreCheckFailed)
      | some false => .ok (plan.skip relativePath .notIgnored)
      | some true =>
        if found.isSome then .ok { plan with bound := plan.bound ++ [relativePath] }
        else if !createMountpoints then
          .ok (plan.skip relativePath .absentInReadOnlyWorkspace)
        else if !H.mkdir hostPath then .error plan
        else
          .ok { plan with
            bound := plan.bound ++ [relativePath]
            created := plan.created ++ [relativePath] }

/-- The members of all patterns, and the patterns that are not supported. -/
def members (H : Host) (workspace : JsString) (patterns : List JsString) :
    List JsString × List (JsString × SkipReason) :=
  patterns.foldl (addPattern H workspace) ([[]], [])

/-- `planDependencyDirectories`. -/
def planDependencyDirectories (H : Host) (workspace : JsString) (createMountpoints : Bool) :
    Except Plan Plan :=
  match readRootManifest H workspace with
  | none => .ok ⟨[], [], []⟩
  | some manifest =>
    let found := members H workspace (workspacePatterns manifest)
    (sortBy id found.1).foldlM (planMember H workspace createMountpoints) ⟨[], found.2, []⟩

/-! ## Members -/

variable {H : Host} {workspace : JsString} {createMountpoints : Bool}

/-- The text of a directory below the workspace. -/
def text (names : List JsString) : JsString := [47].intercalate names

/-- A name below a directory fits a segment of a pattern. -/
def Fits (H : Host) (workspace : JsString) (base : List JsString) (segment name : JsString) : Prop :=
  if 42 ∈ segment then
    (∃ entries, H.readdir (joinAll [workspace, text base]) = some entries ∧ name ∈ entries) ∧
      segmentMatches segment name = true ∧ name.head? ≠ some 46
  else name = segment

/-- The names below a directory fit the segments, and all are directories. -/
def Matched (H : Host) (workspace : JsString) :
    List JsString → List JsString → List JsString → Prop
  | _, [], [] => True
  | base, segment :: segments, name :: names =>
    Fits H workspace base segment name ∧
      H.lstat (joinAll [workspace, text (base ++ [name])]) = some .directory ∧
        Matched H workspace (base ++ [name]) segments names
  | _, _, _ => False

theorem clean_entry {directory : JsString} {entries : List JsString}
    (hread : H.readdir directory = some entries) {name : JsString} (hmem : name ∈ entries)
    (hdot : name.head? ≠ some 46) : Clean [name] := by
  obtain ⟨hne, hslash⟩ := H.names _ _ hread _ hmem
  intro s hs
  rw [List.mem_singleton.mp hs]
  exact ⟨hne, fun hc => hdot (by rw [hc]; rfl), fun hc => hdot (by rw [hc]; rfl), hslash⟩

theorem Fits.clean {base : List JsString} {segment name : JsString} (hseg : Clean [segment])
    (h : Fits H workspace base segment name) : Clean [name] := by
  unfold Fits at h
  split_ifs at h with hstar
  · obtain ⟨⟨entries, hread, hmem⟩, -, hdot⟩ := h
    exact clean_entry hread hmem hdot
  · rw [h]
    exact hseg

theorem clean_concat {base : List JsString} {name : JsString} (hb : Clean base)
    (hn : Clean [name]) : Clean (base ++ [name]) := by
  intro s hs
  rcases List.mem_append.mp hs with hs | hs
  · exact hb s hs
  · exact hn s hs

theorem mem_expandBase {base : List JsString} {segment member : JsString} (hb : Clean base)
    (hseg : Clean [segment]) : member ∈ expandBase H workspace segment (text base) ↔
      ∃ name, Fits H workspace base segment name ∧ member = text (base ++ [name]) ∧
        H.lstat (joinAll [workspace, text (base ++ [name])]) = some .directory := by
  have hjoin : ∀ name, Clean [name] → joinAll [text base, name] = text (base ++ [name]) :=
    fun name hn => joinAll_concat (clean_concat hb hn)
  by_cases hstar : 42 ∈ segment
  · have hfits : ∀ name, Fits H workspace base segment name ↔
        (∃ entries, H.readdir (joinAll [workspace, text base]) = some entries ∧ name ∈ entries) ∧
          segmentMatches segment name = true ∧ name.head? ≠ some 46 :=
      fun name => by rw [Fits, if_pos hstar]
    simp only [hfits, expandBase, if_neg (not_not.mpr hstar), realDirectory, decide_eq_true_eq]
    cases hread : H.readdir (joinAll [workspace, text base]) with
    | none => simp
    | some entries =>
      simp only [List.mem_filterMap, mem_sortBy, Option.some.injEq, exists_eq_left', Bool.or_eq_true,
        Bool.not_eq_true', decide_eq_true_eq]
      constructor
      · rintro ⟨entry, hmem, h⟩
        split_ifs at h with hskip hdir
        obtain ⟨hmatch, hdot⟩ := not_or.mp hskip
        have hname := hjoin entry (clean_entry hread hmem hdot)
        rw [hname] at h hdir
        exact ⟨entry, ⟨hmem, eq_true_of_ne_false hmatch, hdot⟩, (Option.some.inj h).symm, hdir⟩
      · rintro ⟨name, ⟨hmem, hmatch, hdot⟩, rfl, hdir⟩
        refine ⟨name, hmem, ?_⟩
        have hname := hjoin name (clean_entry hread hmem hdot)
        rw [if_neg (not_or.mpr ⟨by simp [hmatch], hdot⟩), hname, if_pos hdir]
  · have hfits : ∀ name, Fits H workspace base segment name ↔ name = segment :=
      fun name => by rw [Fits, if_neg hstar]
    simp only [hfits, expandBase, if_pos hstar, realDirectory, decide_eq_true_eq, hjoin segment hseg,
      exists_eq_left]
    by_cases hdir : H.lstat (joinAll [workspace, text (base ++ [segment])]) = some .directory
    · rw [if_pos hdir, List.mem_singleton]
      exact (and_iff_left hdir).symm
    · rw [if_neg hdir]
      exact ⟨fun h => absurd h List.not_mem_nil, fun h => absurd h.2 hdir⟩

theorem text_inj {a b : List JsString} (ha : Clean a) (hb : Clean b) (h : text a = text b) :
    a = b := by
  have hwalk := walk_intercalate [] ha
  rw [show [47].intercalate a = text b from h, text, walk_intercalate [] hb] at hwalk
  exact hwalk.symm

/-- **The directories that segments lead to** are those whose names fit them, one after the other. -/
theorem mem_foldl_expandBase {segments : List JsString} (hs : Clean segments)
    {current : List JsString} {member : JsString}
    (hcurrent : ∀ directory ∈ current, ∃ base, Clean base ∧ directory = text base) :
    member ∈ segments.foldl (fun current segment => current.flatMap (expandBase H workspace segment))
        current ↔
      ∃ base names, Clean base ∧ text base ∈ current ∧ Matched H workspace base segments names ∧
        member = text (base ++ names) := by
  induction segments generalizing current with
  | nil =>
    rw [List.foldl_nil]
    constructor
    · intro h
      obtain ⟨base, hb, rfl⟩ := hcurrent member h
      exact ⟨base, [], hb, h, trivial, by rw [List.append_nil]⟩
    · rintro ⟨base, names, -, h, hm, rfl⟩
      cases names with
      | nil =>
        rw [List.append_nil]
        exact h
      | cons name names => cases hm
  | cons segment segments ih =>
    have hseg : Clean [segment] := fun s h => hs s (List.mem_cons.mpr (.inl (List.mem_singleton.mp h)))
    rw [List.foldl_cons, ih fun s h => hs s (List.mem_cons_of_mem _ h)]
    · constructor
      · rintro ⟨base', names, hb', hmem, hm, rfl⟩
        obtain ⟨directory, hdirectory, hmem⟩ := List.mem_flatMap.mp hmem
        obtain ⟨base, hb, rfl⟩ := hcurrent directory hdirectory
        obtain ⟨name, hfits, htext, hdir⟩ := (mem_expandBase hb hseg).mp hmem
        obtain rfl := text_inj hb' (clean_concat hb (hfits.clean hseg)) htext
        refine ⟨base, name :: names, hb, hdirectory, ⟨hfits, hdir, hm⟩, ?_⟩
        rw [List.append_assoc]
        rfl
      · rintro ⟨base, names, hb, hmem, hm, rfl⟩
        cases names with
        | nil => cases hm
        | cons name names =>
          obtain ⟨hfits, hdir, hm⟩ := hm
          refine ⟨base ++ [name], names, clean_concat hb (hfits.clean hseg), ?_, hm, ?_⟩
          · exact List.mem_flatMap.mpr ⟨text base, hmem,
              (mem_expandBase hb hseg).mpr ⟨name, hfits, rfl, hdir⟩⟩
          · rw [List.append_assoc]
            rfl
    · intro directory h
      obtain ⟨base, hbase, h⟩ := List.mem_flatMap.mp h
      obtain ⟨names, hb, rfl⟩ := hcurrent base hbase
      obtain ⟨name, hfits, rfl, -⟩ := (mem_expandBase hb hseg).mp h
      exact ⟨names ++ [name], clean_concat hb (hfits.clean hseg), rfl⟩

theorem Matched.clean {base segments names : List JsString} (hs : Clean segments)
    (h : Matched H workspace base segments names) : Clean names := by
  induction segments generalizing base names with
  | nil =>
    cases names with
    | nil => exact clean_nil
    | cons name names => cases h
  | cons segment segments ih =>
    cases names with
    | nil => cases h
    | cons name names =>
      obtain ⟨hfits, -, hm⟩ := h
      have hseg : Clean [segment] :=
        fun s hs' => hs s (List.mem_cons.mpr (.inl (List.mem_singleton.mp hs')))
      have hname := hfits.clean hseg name (List.mem_singleton_self name)
      exact List.forall_mem_cons.mpr ⟨hname, ih (fun s hs' => hs s (List.mem_cons_of_mem _ hs')) hm⟩

theorem Matched.directory {base segments names : List JsString}
    (h : Matched H workspace base segments names) {n : ℕ} (hn : n < names.length) :
    H.lstat (joinAll [workspace, text (base ++ names.take (n + 1))]) = some .directory := by
  induction segments generalizing base names n with
  | nil =>
    cases names with
    | nil => exact absurd hn (Nat.not_lt_zero n)
    | cons name names => cases h
  | cons segment segments ih =>
    cases names with
    | nil => cases h
    | cons name names =>
      obtain ⟨-, hdir, hm⟩ := h
      cases n with
      | zero => exact hdir
      | succ n =>
        have htail := ih hm (Nat.lt_of_succ_lt_succ hn)
        rw [List.append_assoc] at htail
        exact htail

theorem clean_supported {pattern normalized : JsString}
    (h : supportedPattern pattern = some normalized) : Clean (segments normalized) := by
  unfold supportedPattern at h
  simp only [Option.ite_none_left_eq_some, Option.some.injEq, not_or] at h
  obtain ⟨⟨-, hdot, habs, -, hdots, -⟩, rfl⟩ := h
  refine clean_segments_normalize ?_ hdot ?_ hdots
  · intro hlast
    have hne : pattern.rdropWhile (fun u => u = 47) ≠ [] := fun hc => by
      rw [hc] at hlast
      cases hlast
    have hnot := List.rdropWhile_last_not (fun u : UInt16 => decide (u = 47)) pattern hne
    rw [List.getLast?_eq_getLast_of_ne_nil hne, Option.some.injEq] at hlast
    exact hnot (decide_eq_true hlast)
  · rw [isAbsolute, beq_eq_false_iff_ne]
    exact habs

/-- **The directories of a supported pattern** are those whose names fit it. -/
theorem mem_expandPattern {pattern normalized : JsString}
    (h : supportedPattern pattern = some normalized) :
    ∃ expanded, expandPattern H workspace pattern = some expanded ∧
      ∀ member, member ∈ expanded ↔
        ∃ names, Matched H workspace [] (segments normalized) names ∧ member = text names := by
  refine ⟨_, by rw [expandPattern, h]; rfl, fun member => ?_⟩
  rw [mem_foldl_expandBase (clean_supported h) fun directory hd => ⟨[], clean_nil, by
    rw [List.mem_singleton.mp hd]; rfl⟩]
  constructor
  · rintro ⟨base, names, hb, hmem, hm, rfl⟩
    obtain rfl := text_inj hb clean_nil (List.mem_singleton.mp hmem)
    exact ⟨names, hm, rfl⟩
  · rintro ⟨names, hm, rfl⟩
    exact ⟨[], names, clean_nil, List.mem_singleton_self _, hm, rfl⟩

/-- The workspace itself, and the packages that a pattern matches. -/
def Member (H : Host) (workspace : JsString) (patterns : List JsString) (names : List JsString) :
    Prop :=
  names = [] ∨
    (∃ pattern ∈ patterns, ∃ normalized, supportedPattern pattern = some normalized ∧
      Matched H workspace [] (segments normalized) names) ∧
    ∃ size, H.lstat (joinAll [workspace, text names, packageJson]) = some (.file size)

theorem Member.clean {patterns names : List JsString} (h : Member H workspace patterns names) :
    Clean names := by
  rcases h with rfl | ⟨⟨pattern, -, normalized, hs, hm⟩, -⟩
  · exact clean_nil
  · exact hm.clean (clean_supported hs)

theorem mem_addMember {found : List JsString} {directory member : JsString} :
    member ∈ addMember H workspace found directory ↔ member ∈ found ∨ member = directory ∧
      ∃ size, H.lstat (joinAll [workspace, directory, packageJson]) = some (.file size) := by
  unfold addMember
  cases hl : H.lstat (joinAll [workspace, directory, packageJson]) with
  | none => simp
  | some kind =>
    cases kind with
    | file size =>
      by_cases hm : directory ∈ found
      · simp only [if_pos hm]
        refine ⟨.inl, ?_⟩
        rintro (h | ⟨rfl, -⟩)
        · exact h
        · exact hm
      · simp [hm]
    | directory | symlink | other => simp

theorem nodup_addMember {found : List JsString} (h : found.Nodup) (directory : JsString) :
    (addMember H workspace found directory).Nodup := by
  unfold addMember
  split
  · split_ifs with hm
    · exact h
    · exact List.nodup_append.mpr ⟨h, List.nodup_singleton _, fun a ha b hb hab =>
        hm (by rw [← List.mem_singleton.mp hb, ← hab]; exact ha)⟩
  · exact h

theorem mem_foldl_addMember {directories found : List JsString} {member : JsString} :
    member ∈ directories.foldl (addMember H workspace) found ↔ member ∈ found ∨
      member ∈ directories ∧
        ∃ size, H.lstat (joinAll [workspace, member, packageJson]) = some (.file size) := by
  induction directories generalizing found with
  | nil => simp
  | cons directory directories ih =>
    rw [List.foldl_cons, ih, mem_addMember, List.mem_cons]
    constructor
    · rintro ((h | ⟨rfl, h⟩) | ⟨h, hp⟩)
      · exact .inl h
      · exact .inr ⟨.inl rfl, h⟩
      · exact .inr ⟨.inr h, hp⟩
    · rintro (h | ⟨rfl | h, hp⟩)
      · exact .inl (.inl h)
      · exact .inl (.inr ⟨rfl, hp⟩)
      · exact .inr ⟨h, hp⟩

theorem nodup_foldl_addMember {directories found : List JsString} (h : found.Nodup) :
    (directories.foldl (addMember H workspace) found).Nodup := by
  induction directories generalizing found with
  | nil => exact h
  | cons directory directories ih => exact ih (nodup_addMember h directory)

theorem foldl_addPattern (patterns : List JsString) (s : List JsString × List (JsString × SkipReason)) :
    (∀ member, member ∈ (patterns.foldl (addPattern H workspace) s).1 ↔ member ∈ s.1 ∨
      ∃ names, (∃ pattern ∈ patterns, ∃ normalized, supportedPattern pattern = some normalized ∧
        Matched H workspace [] (segments normalized) names) ∧
        (∃ size, H.lstat (joinAll [workspace, text names, packageJson]) = some (.file size)) ∧
        member = text names) ∧
      (s.1.Nodup → (patterns.foldl (addPattern H workspace) s).1.Nodup) ∧
      (patterns.foldl (addPattern H workspace) s).2 = s.2 ++
        (patterns.filter fun pattern => (supportedPattern pattern).isNone).map fun pattern =>
          (pattern, .unsupportedPattern) := by
  induction patterns generalizing s with
  | nil => simp
  | cons pattern patterns ih =>
    obtain ⟨hmem, hnodup, hskip⟩ := ih (addPattern H workspace s pattern)
    rw [List.foldl_cons]
    cases hs : supportedPattern pattern with
    | none =>
      have hadd : addPattern H workspace s pattern = (s.1, s.2 ++ [(pattern, .unsupportedPattern)]) := by
        simp [addPattern, expandPattern, hs]
      rw [hadd] at hmem hnodup hskip ⊢
      refine ⟨fun member => ?_, hnodup, ?_⟩
      · simp only [hmem, List.exists_mem_cons_iff, hs, reduceCtorEq, false_and, exists_false,
          false_or]
      · rw [hskip, List.filter_cons_of_pos (by simp [hs]), List.map_cons, List.append_assoc]
        rfl
    | some normalized =>
      obtain ⟨expanded, hexpand, hexpanded⟩ := @mem_expandPattern H workspace _ _ hs
      have hadd : addPattern H workspace s pattern =
          (expanded.foldl (addMember H workspace) s.1, s.2) := by
        simp [addPattern, hexpand]
      rw [hadd] at hmem hnodup hskip ⊢
      refine ⟨fun member => ?_, fun h => hnodup (nodup_foldl_addMember h), ?_⟩
      · rw [hmem, mem_foldl_addMember, hexpanded]
        constructor
        · rintro ((h | ⟨⟨names, hm, rfl⟩, hp⟩) | ⟨names, ⟨other, hother, hrest⟩, hp, rfl⟩)
          · exact .inl h
          · exact .inr ⟨names, ⟨pattern, List.mem_cons_self, normalized, hs, hm⟩, hp, rfl⟩
          · exact .inr ⟨names, ⟨other, List.mem_cons_of_mem _ hother, hrest⟩, hp, rfl⟩
        · rintro (h | ⟨names, ⟨other, hother, normalized', hs', hm⟩, hp, rfl⟩)
          · exact .inl (.inl h)
          · rcases List.mem_cons.mp hother with rfl | hother
            · rw [hs] at hs'
              cases hs'
              exact .inl (.inr ⟨⟨names, hm, rfl⟩, hp⟩)
            · exact .inr ⟨names, ⟨other, hother, normalized', hs', hm⟩, hp, rfl⟩
      · rw [hskip, List.filter_cons_of_neg (by simp [hs])]

/-- **The members** are the workspace and the packages that the patterns match. -/
theorem mem_members {patterns : List JsString} {member : JsString} :
    member ∈ (members H workspace patterns).1 ↔
      ∃ names, Member H workspace patterns names ∧ member = text names := by
  unfold members
  rw [(foldl_addPattern patterns _).1 member]
  constructor
  · rintro (h | ⟨names, hm, hp, rfl⟩)
    · exact ⟨[], .inl rfl, List.mem_singleton.mp h⟩
    · exact ⟨names, .inr ⟨hm, hp⟩, rfl⟩
  · rintro ⟨names, rfl | ⟨hm, hp⟩, rfl⟩
    · exact .inl (List.mem_singleton_self _)
    · exact .inr ⟨names, hm, hp, rfl⟩

theorem nodup_members (patterns : List JsString) : (members H workspace patterns).1.Nodup :=
  (foldl_addPattern patterns _).2.1 (List.nodup_singleton _)

/-! ## One member -/

theorem clean_nodeModules : Clean [nodeModules] := by
  intro s hs
  rw [List.mem_singleton.mp hs]
  decide

theorem dependencyPath_text {names : List JsString} (h : Clean names) :
    dependencyPath (text names) = text (names ++ [nodeModules]) :=
  joinAll_concat (clean_concat h clean_nodeModules)

/-- The dependency directory of a member can be bound: it is a directory, or absent where it may be
made, and Git ignores it. -/
def Bindable (H : Host) (workspace : JsString) (createMountpoints : Bool) (member : JsString) :
    Bool :=
  (match H.lstat (joinAll [workspace, dependencyPath member]) with
    | some .directory => true
    | none => createMountpoints
    | _ => false) && decide (isIgnored H (dependencyPath member) = some true)

/-- It is there, or can be made. -/
def Makeable (H : Host) (workspace : JsString) (member : JsString) : Bool :=
  (H.lstat (joinAll [workspace, dependencyPath member])).isSome ||
    H.mkdir (joinAll [workspace, dependencyPath member])

/-- What planning does with a member. -/
inductive Planned (H : Host) (workspace : JsString) (createMountpoints : Bool) (plan : Plan)
    (member : JsString) : Except Plan Plan → Prop
  | skipped (reason : SkipReason) (hnot : maxDependencyDirectories ≤ plan.bound.length ∨
      Bindable H workspace createMountpoints member = false) :
    Planned H workspace createMountpoints plan member
      (.ok (plan.skip (dependencyPath member) reason))
  | existing (hroom : plan.bound.length < maxDependencyDirectories)
      (hbindable : Bindable H workspace createMountpoints member = true)
      (hdir : H.lstat (joinAll [workspace, dependencyPath member]) = some .directory) :
    Planned H workspace createMountpoints plan member
      (.ok { plan with bound := plan.bound ++ [dependencyPath member] })
  | made (hroom : plan.bound.length < maxDependencyDirectories)
      (hbindable : Bindable H workspace createMountpoints member = true)
      (habsent : H.lstat (joinAll [workspace, dependencyPath member]) = none)
      (hcreate : createMountpoints = true)
      (hmade : H.mkdir (joinAll [workspace, dependencyPath member]) = true) :
    Planned H workspace createMountpoints plan member
      (.ok { plan with
        bound := plan.bound ++ [dependencyPath member]
        created := plan.created ++ [dependencyPath member] })
  | threw (hroom : plan.bound.length < maxDependencyDirectories)
      (hbindable : Bindable H workspace createMountpoints member = true)
      (habsent : H.lstat (joinAll [workspace, dependencyPath member]) = none)
      (hmade : H.mkdir (joinAll [workspace, dependencyPath member]) = false) :
    Planned H workspace createMountpoints plan member (.error plan)

/-- **One member** is bound, its mountpoint made or not, or it is skipped with a reason. -/
theorem planned (plan : Plan) (member : JsString) : Planned H workspace createMountpoints plan member
    (planMember H workspace createMountpoints plan member) := by
  unfold planMember
  by_cases hroom : maxDependencyDirectories ≤ plan.bound.length
  · simp only [if_pos hroom]
    exact .skipped .limit (.inl hroom)
  · simp only [if_neg hroom]
    have hroom' := Nat.lt_of_not_le hroom
    have hbind : ∀ found ignored, H.lstat (joinAll [workspace, dependencyPath member]) = found →
        isIgnored H (dependencyPath member) = ignored →
          Bindable H workspace createMountpoints member =
            ((match found with
              | some .directory => true
              | none => createMountpoints
              | _ => false) && decide (ignored = some true)) := by
      rintro _ _ rfl rfl
      rfl
    cases hl : H.lstat (joinAll [workspace, dependencyPath member]) with
    | none =>
      cases hi : isIgnored H (dependencyPath member) with
      | none => exact .skipped _ (.inr (by simp [hbind _ _ hl hi]))
      | some ignored =>
        cases ignored with
        | false => exact .skipped _ (.inr (by simp [hbind _ _ hl hi]))
        | true =>
          cases hc : createMountpoints with
          | false => exact .skipped _ (.inr (by simp [hc ▸ hbind _ _ hl hi]))
          | true =>
            have hb : Bindable H workspace true member = true := by simp [hc ▸ hbind _ _ hl hi]
            cases hm : H.mkdir (joinAll [workspace, dependencyPath member]) with
            | false => exact .threw hroom' hb hl hm
            | true => exact .made hroom' hb hl rfl hm
    | some kind =>
      cases kind with
      | directory =>
        cases hi : isIgnored H (dependencyPath member) with
        | none => exact .skipped _ (.inr (by simp [hbind _ _ hl hi]))
        | some ignored =>
          cases ignored with
          | false => exact .skipped _ (.inr (by simp [hbind _ _ hl hi]))
          | true => exact .existing hroom' (by simp [hbind _ _ hl hi]) hl
      | file size | symlink | other => exact .skipped _ (.inr (by simp [hbind _ _ hl rfl]))

/-! ## All members -/

/-- What is planned when planning returns or throws. -/
def outcome : Except Plan Plan → Plan
  | .ok plan => plan
  | .error plan => plan

/-- The members whose dependency directories are bound, after so many others. -/
def toBind (H : Host) (workspace : JsString) (createMountpoints : Bool) (found : List JsString)
    (before : ℕ) : List JsString :=
  (found.filter (Bindable H workspace createMountpoints)).take (maxDependencyDirectories - before)

theorem toBind_skip {member : JsString} (found : List JsString) {before : ℕ}
    (h : maxDependencyDirectories ≤ before ∨ Bindable H workspace createMountpoints member = false) :
    toBind H workspace createMountpoints (member :: found) before =
      toBind H workspace createMountpoints found before := by
  unfold toBind
  rcases h with hfull | hnot
  · rw [Nat.sub_eq_zero_of_le hfull, List.take_zero, List.take_zero]
  · rw [List.filter_cons_of_neg (by simp [hnot])]

theorem toBind_bind {member : JsString} (found : List JsString) {before : ℕ}
    (hroom : before < maxDependencyDirectories)
    (h : Bindable H workspace createMountpoints member = true) :
    toBind H workspace createMountpoints (member :: found) before =
      member :: toBind H workspace createMountpoints found (before + 1) := by
  unfold toBind
  rw [List.filter_cons_of_pos h, show maxDependencyDirectories - before =
    (maxDependencyDirectories - (before + 1)) + 1 by omega, List.take_succ_cons]

/-- **What is bound.** Planning returns when all mountpoints can be made, and has bound the first
members that can be. -/
theorem foldlM_bound (found : List JsString) (plan : Plan) :
    match found.foldlM (planMember H workspace createMountpoints) plan with
    | .ok r => r.bound = plan.bound ++
        (toBind H workspace createMountpoints found plan.bound.length).map dependencyPath ∧
        ∀ member ∈ toBind H workspace createMountpoints found plan.bound.length,
          Makeable H workspace member = true
    | .error _ => ∃ member ∈ toBind H workspace createMountpoints found plan.bound.length,
        Makeable H workspace member = false := by
  induction found generalizing plan with
  | nil =>
    have hnil : toBind H workspace createMountpoints [] plan.bound.length = [] := by simp [toBind]
    simp only [List.foldlM_nil, hnil]
    exact ⟨(List.append_nil _).symm, fun _ h => absurd h List.not_mem_nil⟩
  | cons member found ih =>
    have hstep := @planned H workspace createMountpoints plan member
    rw [List.foldlM_cons]
    -- A member that is bound comes first of those that are.
    have hbound : ∀ next : Plan, plan.bound.length < maxDependencyDirectories →
        Bindable H workspace createMountpoints member = true → Makeable H workspace member = true →
          next.bound = plan.bound ++ [dependencyPath member] →
            match found.foldlM (planMember H workspace createMountpoints) next with
            | .ok r => r.bound = plan.bound ++ (toBind H workspace createMountpoints
                (member :: found) plan.bound.length).map dependencyPath ∧
                ∀ m ∈ toBind H workspace createMountpoints (member :: found) plan.bound.length,
                  Makeable H workspace m = true
            | .error _ => ∃ m ∈ toBind H workspace createMountpoints (member :: found)
                plan.bound.length, Makeable H workspace m = false := by
      intro next hroom hbindable hmake hnext
      have hrest := ih next
      rw [hnext, List.length_append, List.length_singleton] at hrest
      rw [toBind_bind found hroom hbindable]
      revert hrest
      cases found.foldlM (planMember H workspace createMountpoints) next with
      | ok r =>
        rintro ⟨hb, hall⟩
        refine ⟨?_, List.forall_mem_cons.mpr ⟨hmake, hall⟩⟩
        rw [hb, List.append_assoc]
        rfl
      | error r =>
        rintro ⟨m, hm, hnot⟩
        exact ⟨m, List.mem_cons_of_mem _ hm, hnot⟩
    generalize planMember H workspace createMountpoints plan member = o at hstep
    cases hstep with
    | skipped reason hnot =>
      have hrest := ih (plan.skip (dependencyPath member) reason)
      rw [toBind_skip found hnot]
      exact hrest
    | existing hroom hbindable hdir =>
      exact hbound _ hroom hbindable (by simp [Makeable, hdir]) rfl
    | made hroom hbindable habsent hcreate hmade =>
      exact hbound _ hroom hbindable (by simp [Makeable, hmade]) rfl
    | threw hroom hbindable habsent hmade =>
      refine ⟨member, ?_, by simp [Makeable, habsent, hmade]⟩
      rw [toBind_bind found hroom hbindable]
      exact List.mem_cons_self

/-- What every member keeps, planning keeps, whether it returns or throws. -/
theorem foldlM_keeps (P : Plan → Prop) {found : List JsString}
    (hstep : ∀ plan member o, Planned H workspace createMountpoints plan member o → P plan →
      P (outcome o)) {plan : Plan} (hp : P plan) :
    P (outcome (found.foldlM (planMember H workspace createMountpoints) plan)) := by
  induction found generalizing plan with
  | nil => exact hp
  | cons member found ih =>
    have hnext := hstep plan member _ (planned plan member) hp
    rw [List.foldlM_cons]
    revert hnext
    cases planMember H workspace createMountpoints plan member with
    | ok next => exact ih
    | error stopped => exact fun h => h

/-- A path is bound, or skipped with a reason. -/
def Plan.Accounts (plan : Plan) (path : JsString) : Prop :=
  path ∈ plan.bound ∨ ∃ reason, (path, reason) ∈ plan.skipped

theorem Planned.accounts {plan : Plan} {member path : JsString} {o : Except Plan Plan}
    (h : Planned H workspace createMountpoints plan member o) (hp : plan.Accounts path) :
    (outcome o).Accounts path := by
  cases h with
  | skipped reason hnot =>
    exact hp.imp (fun h => h) fun ⟨reason, h⟩ => ⟨reason, List.mem_append_left _ h⟩
  | existing | made => exact hp.imp (fun h => List.mem_append_left _ h) fun h => h
  | threw => exact hp

/-- **Every member is accounted for**, when planning returns. -/
theorem foldlM_accounts {found : List JsString} {plan r : Plan}
    (h : found.foldlM (planMember H workspace createMountpoints) plan = .ok r) :
    ∀ member ∈ found, r.Accounts (dependencyPath member) := by
  induction found generalizing plan with
  | nil => exact fun _ hm => absurd hm List.not_mem_nil
  | cons member found ih =>
    have hstep := @planned H workspace createMountpoints plan member
    rw [List.foldlM_cons] at h
    generalize planMember H workspace createMountpoints plan member = o at hstep h
    have hkeeps : ∀ next : Plan,
        found.foldlM (planMember H workspace createMountpoints) next = .ok r →
          next.Accounts (dependencyPath member) → r.Accounts (dependencyPath member) := by
      intro next hr hn
      have hkept := @foldlM_keeps H workspace createMountpoints
        (fun p => p.Accounts (dependencyPath member)) found (fun _ _ _ => Planned.accounts) next hn
      rw [hr] at hkept
      exact hkept
    have hown : ∀ next, o = .ok next → next.Accounts (dependencyPath member) := by
      rintro next rfl
      cases hstep with
      | skipped reason hnot =>
        exact .inr ⟨reason, List.mem_append_right _ (List.mem_singleton_self _)⟩
      | existing | made => exact .inl (List.mem_append_right _ (List.mem_singleton_self _))
    cases o with
    | error stopped => cases h
    | ok next => exact List.forall_mem_cons.mpr ⟨hkeeps next h (hown next rfl), ih h⟩

/-- What is made is to be bound, and only where mountpoints may be created; what is bound is there or
is made, and ignored. -/
structure Plan.Made (H : Host) (workspace : JsString) (createMountpoints : Bool) (plan : Plan) :
    Prop where
  created : ∀ path ∈ plan.created, createMountpoints = true ∧ path ∈ plan.bound
  there : ∀ path ∈ plan.bound,
    H.lstat (joinAll [workspace, path]) = some .directory ∨ path ∈ plan.created
  ignored : ∀ path ∈ plan.bound, H.checkIgnore (path ++ [47]) = some 0

theorem ignored_of_bindable {member : JsString}
    (h : Bindable H workspace createMountpoints member = true) :
    H.checkIgnore (dependencyPath member ++ [47]) = some 0 := by
  have hignored : isIgnored H (dependencyPath member) = some true :=
    of_decide_eq_true (Bool.and_eq_true_iff.mp h).2
  unfold isIgnored at hignored
  split at hignored
  · assumption
  · cases hignored
  · cases hignored

theorem Planned.keepsMade {plan : Plan} {member : JsString} {o : Except Plan Plan}
    (h : Planned H workspace createMountpoints plan member o)
    (hp : plan.Made H workspace createMountpoints) :
    (outcome o).Made H workspace createMountpoints := by
  cases h with
  | skipped reason hnot => exact ⟨hp.created, hp.there, hp.ignored⟩
  | existing hroom hbindable hdir =>
    refine ⟨?_, ?_, ?_⟩
    · exact fun path hm => ⟨(hp.created path hm).1, List.mem_append_left _ (hp.created path hm).2⟩
    · intro path hm
      rcases List.mem_append.mp hm with hm | hm
      · exact hp.there path hm
      · rw [List.mem_singleton.mp hm]
        exact .inl hdir
    · intro path hm
      rcases List.mem_append.mp hm with hm | hm
      · exact hp.ignored path hm
      · rw [List.mem_singleton.mp hm]
        exact ignored_of_bindable hbindable
  | made hroom hbindable habsent hcreate hmade =>
    refine ⟨?_, ?_, ?_⟩
    · intro path hm
      rcases List.mem_append.mp hm with hm | hm
      · exact ⟨hcreate, List.mem_append_left _ (hp.created path hm).2⟩
      · exact ⟨hcreate, List.mem_append_right _ hm⟩
    · intro path hm
      rcases List.mem_append.mp hm with hm | hm
      · exact (hp.there path hm).imp (fun h => h) fun h => List.mem_append_left _ h
      · exact .inr (List.mem_append_right _ hm)
    · intro path hm
      rcases List.mem_append.mp hm with hm | hm
      · exact hp.ignored path hm
      · rw [List.mem_singleton.mp hm]
        exact ignored_of_bindable hbindable
  | threw => exact hp

/-! ## The plan -/

/-- The members whose dependency directories are bound. -/
def boundMembers (H : Host) (workspace : JsString) (createMountpoints : Bool)
    (patterns : List JsString) : List JsString :=
  toBind H workspace createMountpoints (sortBy id (members H workspace patterns).1) 0

/-- **The plan of a workspace.** -/
theorem plan_bound {manifest : List (JsString × Json)}
    (hm : readRootManifest H workspace = some manifest) :
    match planDependencyDirectories H workspace createMountpoints with
    | .ok r => r.bound =
        (boundMembers H workspace createMountpoints (workspacePatterns manifest)).map dependencyPath ∧
        ∀ member ∈ boundMembers H workspace createMountpoints (workspacePatterns manifest),
          Makeable H workspace member = true
    | .error _ => ∃ member ∈ boundMembers H workspace createMountpoints (workspacePatterns manifest),
        Makeable H workspace member = false := by
  unfold planDependencyDirectories
  rw [hm]
  exact foldlM_bound _ _

theorem mem_boundMembers {patterns : List JsString} {member : JsString}
    (h : member ∈ boundMembers H workspace createMountpoints patterns) :
    ∃ names, Member H workspace patterns names ∧ member = text names := by
  have hmem := List.mem_of_mem_filter (List.mem_of_mem_take h)
  rw [mem_sortBy] at hmem
  exact mem_members.mp hmem

theorem nodup_boundMembers (patterns : List JsString) :
    (boundMembers H workspace createMountpoints patterns).Nodup := by
  have hsorted : (sortBy id (members H workspace patterns).1).Nodup :=
    (List.perm_insertionSort _ _).nodup_iff.mpr (nodup_members patterns)
  exact (hsorted.filter _).sublist (List.take_sublist _ _)

/-- A path lies in another. -/
def Inside (path other : JsString) : Prop := (other ++ [47]) <+: path

/-- A dependency directory lies in another when its member is the other, or lies in it. -/
theorem inside_dependencyPath {names : List JsString} (h : Clean names) {other : JsString}
    (hother : other ≠ []) :
    Inside (dependencyPath (text names)) other ↔ text names = other ∨ Inside (text names) other := by
  have hslash : (47 : UInt16) ∉ nodeModules := (clean_nodeModules _ (List.mem_singleton_self _)).2.2.2
  unfold Inside
  rw [dependencyPath_text h]
  by_cases hnil : names = []
  · rw [hnil, show text ([] ++ [nodeModules]) = nodeModules by simp [text, List.intercalate]]
    constructor
    · intro hp
      exact absurd (hp.subset (List.mem_append_right _ (List.mem_singleton_self _))) hslash
    · rintro (heq | hp)
      · exact absurd heq.symm hother
      · exact absurd (List.append_eq_nil_iff.mp (List.prefix_nil.mp hp)).1 hother
  · rw [show text (names ++ [nodeModules]) = text names ++ 47 :: nodeModules from
      intercalate_concat hnil nodeModules]
    constructor
    · rintro ⟨rest, hrest⟩
      rcases List.append_eq_append_iff.mp hrest with ⟨more, hmore, -⟩ | ⟨more, hmore, htail⟩
      · exact .inr ⟨more, hmore.symm⟩
      · cases more with
        | nil =>
          rw [List.append_nil] at hmore
          exact .inr ⟨[], by rw [List.append_nil, hmore]⟩
        | cons slash more =>
          obtain ⟨rfl, hname⟩ := List.cons.inj htail
          rcases List.eq_nil_or_concat more with rfl | ⟨init, last, rfl⟩
          · exact .inl (List.append_cancel_right hmore).symm
          · -- the slash at the end of the other would be one of the name
            have hlast := congrArg List.getLast? hmore
            rw [List.getLast?_concat, List.concat_eq_append, ← List.cons_append, ← List.append_assoc,
              List.getLast?_concat, Option.some.injEq] at hlast
            refine absurd ?_ hslash
            rw [hname, List.concat_eq_append, ← hlast]
            exact List.mem_append_left _ (List.mem_append_right _ (List.mem_singleton_self _))
    · rintro (rfl | hp)
      · exact ⟨nodeModules, by rw [List.append_assoc]; rfl⟩
      · exact hp.trans (List.prefix_append _ _)

/-! ## The order of directory entries and patterns -/

/-- A host that lists the same entries in any order, and whose manifest names the same patterns in
any order. -/
structure Reordered (H H' : Host) (workspace : JsString) : Prop where
  lstat : H'.lstat = H.lstat
  checkIgnore : H'.checkIgnore = H.checkIgnore
  mkdir : H'.mkdir = H.mkdir
  readdir : ∀ directory, Option.Rel List.Perm (H.readdir directory) (H'.readdir directory)
  manifest : Option.Rel (fun m m' => (workspacePatterns m).Perm (workspacePatterns m'))
    (readRootManifest H workspace) (readRootManifest H' workspace)

variable {H' : Host}

theorem Reordered.fits (h : Reordered H H' workspace) (base : List JsString)
    (segment name : JsString) :
    Fits H' workspace base segment name ↔ Fits H workspace base segment name := by
  unfold Fits
  split_ifs with hstar
  · have hread := h.readdir (joinAll [workspace, text base])
    revert hread
    cases H.readdir (joinAll [workspace, text base]) <;>
      cases H'.readdir (joinAll [workspace, text base]) <;> intro hread
    · exact Iff.rfl
    · cases hread
    · cases hread
    · cases hread with
      | some hperm =>
        simp only [Option.some.injEq, exists_eq_left', hperm.mem_iff]
  · exact Iff.rfl

theorem Reordered.matched (h : Reordered H H' workspace) (base segments names : List JsString) :
    Matched H' workspace base segments names ↔ Matched H workspace base segments names := by
  induction segments generalizing base names with
  | nil => cases names <;> exact Iff.rfl
  | cons segment segments ih =>
    cases names with
    | nil => exact Iff.rfl
    | cons name names => simp only [Matched, h.fits, h.lstat, ih]

/-- **The members do not depend on the order** of entries and patterns. -/
theorem Reordered.member (h : Reordered H H' workspace) {patterns patterns' : List JsString}
    (hp : patterns.Perm patterns') (names : List JsString) :
    Member H' workspace patterns' names ↔ Member H workspace patterns names := by
  simp only [Member, h.matched, h.lstat, hp.mem_iff]

theorem Reordered.bindable (h : Reordered H H' workspace) (member : JsString) :
    Bindable H' workspace createMountpoints member = Bindable H workspace createMountpoints member := by
  unfold Bindable isIgnored
  rw [h.lstat, h.checkIgnore]

theorem Reordered.makeable (h : Reordered H H' workspace) (member : JsString) :
    Makeable H' workspace member = Makeable H workspace member := by
  simp only [Makeable, h.lstat, h.mkdir]

theorem sortBy_perm {l m : List JsString} (h : l.Perm m) : sortBy id l = sortBy id m := by
  refine List.Perm.eq_of_pairwise ?_ (Preflight.sortBy_pairwise id l) (Preflight.sortBy_pairwise id m)
    (((List.perm_insertionSort _ l).trans h).trans (List.perm_insertionSort _ m).symm)
  exact fun a b _ _ hab hba => List.le_antisymm hab hba

theorem Reordered.boundMembers (h : Reordered H H' workspace) {patterns patterns' : List JsString}
    (hp : patterns.Perm patterns') :
    boundMembers H' workspace createMountpoints patterns' =
      boundMembers H workspace createMountpoints patterns := by
  have hmembers : (members H' workspace patterns').1.Perm (members H workspace patterns).1 := by
    refine (List.perm_ext_iff_of_nodup (nodup_members _) (nodup_members _)).mpr fun member => ?_
    simp only [mem_members, h.member hp]
  have hbindable : Bindable H' workspace createMountpoints = Bindable H workspace createMountpoints :=
    funext h.bindable
  simp only [Dependencies.boundMembers, toBind, sortBy_perm hmembers, hbindable]

/-! ## What is claimed of the binds -/

/-- The binds of a workspace, when planning returns, and the mountpoints that it makes. -/
structure Binds (H : Host) (workspace : JsString) (createMountpoints : Bool) : Prop where
  /-- A bound path is a `node_modules` in the workspace, all directories on the way are real, it is
  there or is made, and Git ignores it. -/
  real : ∀ r, planDependencyDirectories H workspace createMountpoints = .ok r → ∀ path ∈ r.bound,
    ∃ names, Clean names ∧ path = text (names ++ [nodeModules]) ∧
      (∀ n < names.length,
        H.lstat (joinAll [workspace, text (names.take (n + 1))]) = some .directory) ∧
      (H.lstat (joinAll [workspace, path]) = some .directory ∨ path ∈ r.created) ∧
      H.checkIgnore (path ++ [47]) = some 0
  nodup : ∀ r, planDependencyDirectories H workspace createMountpoints = .ok r → r.bound.Nodup
  apart : ∀ r, planDependencyDirectories H workspace createMountpoints = .ok r →
    ∀ path ∈ r.bound, ∀ other ∈ r.bound, ¬Inside path other
  limit : ∀ r, planDependencyDirectories H workspace createMountpoints = .ok r →
    r.bound.length ≤ maxDependencyDirectories
  order : ∀ H', Reordered H H' workspace →
    ∀ r, planDependencyDirectories H workspace createMountpoints = .ok r →
      ∃ r', planDependencyDirectories H' workspace createMountpoints = .ok r' ∧ r'.bound = r.bound
  created : ∀ path ∈ (outcome (planDependencyDirectories H workspace createMountpoints)).created,
    createMountpoints = true ∧
      path ∈ (outcome (planDependencyDirectories H workspace createMountpoints)).bound
  accounted : ∀ r manifest, planDependencyDirectories H workspace createMountpoints = .ok r →
    readRootManifest H workspace = some manifest →
      ∀ names, Member H workspace (workspacePatterns manifest) names →
        text (names ++ [nodeModules]) ∈ r.bound ∨
          ∃ reason, (text (names ++ [nodeModules]), reason) ∈ r.skipped

/-- Of the members whose directories are bound, none is the dependency directory of another or lies
in it, unless planning throws at a mountpoint. -/
def MembersApart (H : Host) (workspace : JsString) (createMountpoints : Bool) : Prop :=
  ∀ manifest, readRootManifest H workspace = some manifest →
    (∀ member ∈ boundMembers H workspace createMountpoints (workspacePatterns manifest),
      Makeable H workspace member = true) →
    ∀ member ∈ boundMembers H workspace createMountpoints (workspacePatterns manifest),
      ∀ other ∈ boundMembers H workspace createMountpoints (workspacePatterns manifest),
        member ≠ dependencyPath other ∧ ¬Inside member (dependencyPath other)

theorem plan_ok {r : Plan} (h : planDependencyDirectories H workspace createMountpoints = .ok r) :
    (readRootManifest H workspace = none ∧ r = ⟨[], [], []⟩) ∨
      ∃ manifest, readRootManifest H workspace = some manifest ∧ r.bound =
        (boundMembers H workspace createMountpoints (workspacePatterns manifest)).map dependencyPath ∧
        ∀ member ∈ boundMembers H workspace createMountpoints (workspacePatterns manifest),
          Makeable H workspace member = true := by
  cases hm : readRootManifest H workspace with
  | none =>
    unfold planDependencyDirectories at h
    rw [hm] at h
    exact .inl ⟨rfl, (Except.ok.inj h).symm⟩
  | some manifest =>
    have hspec := @plan_bound H workspace createMountpoints manifest hm
    rw [h] at hspec
    exact .inr ⟨manifest, rfl, hspec⟩

theorem made_plan : (outcome (planDependencyDirectories H workspace createMountpoints)).Made H workspace
    createMountpoints := by
  have hempty : ∀ skipped, Plan.Made H workspace createMountpoints ⟨[], skipped, []⟩ := fun _ =>
    ⟨fun _ h => absurd h List.not_mem_nil, fun _ h => absurd h List.not_mem_nil,
      fun _ h => absurd h List.not_mem_nil⟩
  unfold planDependencyDirectories
  cases readRootManifest H workspace with
  | none => exact hempty []
  | some manifest => exact foldlM_keeps _ (fun _ _ _ => Planned.keepsMade) (hempty _)

/-- **What holds of the binds of every workspace.** -/
theorem bound_real {r : Plan} (h : planDependencyDirectories H workspace createMountpoints = .ok r)
    {path : JsString} (hp : path ∈ r.bound) :
    ∃ names, Clean names ∧ path = text (names ++ [nodeModules]) ∧
      (∀ n < names.length,
        H.lstat (joinAll [workspace, text (names.take (n + 1))]) = some .directory) ∧
      (H.lstat (joinAll [workspace, path]) = some .directory ∨ path ∈ r.created) ∧
      H.checkIgnore (path ++ [47]) = some 0 := by
  have hmade := @made_plan H workspace createMountpoints
  rw [h] at hmade
  rcases plan_ok h with ⟨-, rfl⟩ | ⟨manifest, -, hbound, -⟩
  · exact absurd hp List.not_mem_nil
  · have hp' := hp
    rw [hbound] at hp'
    obtain ⟨member, hmem, rfl⟩ := List.mem_map.mp hp'
    obtain ⟨names, hmember, rfl⟩ := mem_boundMembers hmem
    refine ⟨names, hmember.clean, dependencyPath_text hmember.clean, ?_, hmade.there _ hp,
      hmade.ignored _ hp⟩
    intro n hn
    rcases hmember with rfl | ⟨⟨pattern, -, normalized, -, hm⟩, -⟩
    · exact absurd hn (Nat.not_lt_zero n)
    · exact hm.directory hn

theorem bound_nodup {r : Plan}
    (h : planDependencyDirectories H workspace createMountpoints = .ok r) : r.bound.Nodup := by
  rcases plan_ok h with ⟨-, rfl⟩ | ⟨manifest, -, hbound, -⟩
  · exact List.nodup_nil
  · rw [hbound]
    refine (nodup_boundMembers _).map_on fun a ha b hb hab => ?_
    obtain ⟨names, hn, rfl⟩ := mem_boundMembers ha
    obtain ⟨others, ho, rfl⟩ := mem_boundMembers hb
    rw [dependencyPath_text hn.clean, dependencyPath_text ho.clean] at hab
    have hsame := text_inj (clean_concat hn.clean clean_nodeModules)
      (clean_concat ho.clean clean_nodeModules) hab
    rw [List.append_cancel_right hsame]

theorem bound_limit {r : Plan}
    (h : planDependencyDirectories H workspace createMountpoints = .ok r) :
    r.bound.length ≤ maxDependencyDirectories := by
  rcases plan_ok h with ⟨-, rfl⟩ | ⟨manifest, -, hbound, -⟩
  · exact Nat.zero_le _
  · rw [hbound, List.length_map]
    exact List.length_take_le _ _

/-- **The binds do not depend on the order** of directory entries and patterns. -/
theorem Reordered.bound (h : Reordered H H' workspace) {r : Plan}
    (hr : planDependencyDirectories H workspace createMountpoints = .ok r) :
    ∃ r', planDependencyDirectories H' workspace createMountpoints = .ok r' ∧
      r'.bound = r.bound := by
  have hmanifest := h.manifest
  rcases plan_ok hr with ⟨hnone, rfl⟩ | ⟨manifest, hsome, hbound, hmake⟩
  · rw [hnone] at hmanifest
    have hnone' : readRootManifest H' workspace = none := by
      cases hm : readRootManifest H' workspace with
      | none => rfl
      | some manifest =>
        rw [hm] at hmanifest
        cases hmanifest
    exact ⟨⟨[], [], []⟩, by rw [planDependencyDirectories, hnone'], rfl⟩
  · rw [hsome] at hmanifest
    cases hm : readRootManifest H' workspace with
    | none =>
      rw [hm] at hmanifest
      cases hmanifest
    | some manifest' =>
      rw [hm] at hmanifest
      cases hmanifest with
      | some hperm =>
        have hspec := @plan_bound H' workspace createMountpoints manifest' hm
        rw [h.boundMembers hperm] at hspec
        cases hplan : planDependencyDirectories H' workspace createMountpoints with
        | ok r' =>
          rw [hplan] at hspec
          exact ⟨r', rfl, hspec.1.trans hbound.symm⟩
        | error stopped =>
          rw [hplan] at hspec
          obtain ⟨member, hmem, hnot⟩ := hspec
          rw [h.makeable, hmake member hmem] at hnot
          cases hnot

/-- **Every member is bound, or skipped with a reason.** -/
theorem member_accounted {r : Plan} {manifest : List (JsString × Json)}
    (h : planDependencyDirectories H workspace createMountpoints = .ok r)
    (hm : readRootManifest H workspace = some manifest) {names : List JsString}
    (hn : Member H workspace (workspacePatterns manifest) names) :
    r.Accounts (text (names ++ [nodeModules])) := by
  unfold planDependencyDirectories at h
  rw [hm] at h
  have hmem : text names ∈ sortBy id (members H workspace (workspacePatterns manifest)).1 :=
    (mem_sortBy _ _ _).mpr (mem_members.mpr ⟨names, hn, rfl⟩)
  rw [← dependencyPath_text hn.clean]
  exact foldlM_accounts h _ hmem

theorem nodeModules_ne_nil (names : List JsString) (h : Clean names) :
    dependencyPath (text names) ≠ [] := by
  rw [dependencyPath_text h]
  intro hnil
  have hc := (intercalate_eq_nil (clean_concat h clean_nodeModules)).mp hnil
  exact absurd hc (by simp)

/-- **Dependency binds.** Of every workspace everything that is claimed of the binds holds exactly
when, of the members whose directories are bound, none is the dependency directory of another or lies
in it. -/
theorem dependencyBinds (H : Host) (workspace : JsString) (createMountpoints : Bool) :
    Binds H workspace createMountpoints ↔ MembersApart H workspace createMountpoints := by
  have hinside : ∀ {manifest}, ∀ member ∈ boundMembers H workspace createMountpoints manifest,
      ∀ other ∈ boundMembers H workspace createMountpoints manifest,
        Inside (dependencyPath member) (dependencyPath other) ↔
          member = dependencyPath other ∨ Inside member (dependencyPath other) := by
    intro manifest member hm other ho
    obtain ⟨names, hn, rfl⟩ := mem_boundMembers hm
    obtain ⟨others, ho', rfl⟩ := mem_boundMembers ho
    exact inside_dependencyPath hn.clean (nodeModules_ne_nil others ho'.clean)
  constructor
  · intro h manifest hm hmake member hmem other hother
    have hspec := @plan_bound H workspace createMountpoints manifest hm
    cases hplan : planDependencyDirectories H workspace createMountpoints with
    | error stopped =>
      rw [hplan] at hspec
      obtain ⟨m, hm', hnot⟩ := hspec
      rw [hmake m hm'] at hnot
      cases hnot
    | ok r =>
      rw [hplan] at hspec
      have hapart := h.apart r hplan (dependencyPath member)
        (by rw [hspec.1]; exact List.mem_map_of_mem hmem) (dependencyPath other)
        (by rw [hspec.1]; exact List.mem_map_of_mem hother)
      rw [hinside member hmem other hother] at hapart
      exact not_or.mp hapart
  · intro h
    refine ⟨fun r hr path hp => bound_real hr hp, fun r => bound_nodup, ?_, fun r => bound_limit,
      fun H' hH r => hH.bound, made_plan.created, fun r manifest hr hm names => member_accounted hr hm⟩
    intro r hr path hp other ho
    rcases plan_ok hr with ⟨-, rfl⟩ | ⟨manifest, hm, hbound, hmake⟩
    · exact absurd hp List.not_mem_nil
    · rw [hbound] at hp ho
      obtain ⟨member, hmem, rfl⟩ := List.mem_map.mp hp
      obtain ⟨other', hother, rfl⟩ := List.mem_map.mp ho
      rw [hinside member hmem other' hother]
      exact not_or.mpr (h manifest hm hmake member hmem other' hother)

/-- An entry of a tree. -/
def treeKind (path : JsString) : Option Kind :=
  if path = ofString "/w/package.json" then some (.file 22)
  else if path = ofString "/w/node_modules" then some .directory
  else if path = ofString "/w/node_modules/a" then some .directory
  else if path = ofString "/w/node_modules/a/package.json" then some (.file 2)
  else if path = ofString "/w/node_modules/a/node_modules" then some .directory
  else none

/-- The names in a directory of the tree. -/
def treeNames (path : JsString) : Option (List JsString) :=
  if path = ofString "/w" then some [nodeModules, packageJson]
  else if path = ofString "/w/node_modules" then some [ofString "a"]
  else if path = ofString "/w/node_modules/a" then some [nodeModules, packageJson]
  else if path = ofString "/w/node_modules/a/node_modules" then some []
  else none

/-- A workspace with one installed package, which has dependencies of its own. -/
def installed : Host where
  lstat := treeKind
  readdir := treeNames
  names := by
    intro directory entries h
    unfold treeNames at h
    split_ifs at h <;> cases h <;> decide
  readFile := fun _ => some "\x7b\"workspaces\":[\"*/*\"]\x7d".toList
  checkIgnore := fun _ => some 0
  mkdir := fun _ => true

/-- A workspace whose pattern matches its installed packages: the dependencies of one are bound in
the root's `node_modules`. -/
theorem bound_inside : ¬Binds installed (ofString "/w") false := by
  intro h
  have hrun : (match planDependencyDirectories installed (ofString "/w") false with
      | .ok r => decide (r.bound = [nodeModules, ofString "node_modules/a/node_modules"])
      | .error _ => false) = true := by
    decide +kernel
  revert hrun
  cases hplan : planDependencyDirectories installed (ofString "/w") false with
  | error stopped => exact fun hc => by cases hc
  | ok r =>
    intro hbound
    have hapart := h.apart r hplan (ofString "node_modules/a/node_modules")
      (by rw [of_decide_eq_true hbound]; decide) nodeModules
      (by rw [of_decide_eq_true hbound]; decide)
    exact hapart ⟨ofString "a/node_modules", by decide⟩

end PiSubagent.Dependencies
