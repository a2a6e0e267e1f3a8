import PiSubagent.Lib.PosixPath
import Mathlib.Data.List.Sort

/-!
# Host and guest paths of the tools

The map from the paths a model names to paths of the guest, where the checkout is mounted at
`/workspace`.

* `toGuestPath`: as the code computes it, on texts.
* `Spelling`, `RelativePath`: the paths the map is for.
* `Clear`: when a host spelling of a path means what its relative spelling means.
* `Escapes`: the paths whose guest path is taken for a host path when it is mapped again.
* **`guestPath_spellings`**, **`guestPath_ambiguous`**: the spellings that are mapped alike, and
  those that are not.
-/

namespace PiSubagent

open JsonText

namespace GuestPaths

open PosixPath

/-! ## The map -/

/-- `WorkspacePathMap`; the roots are absolute paths. -/
structure WorkspacePathMap where
  hostWorkspace : JsString
  hostAliases : List JsString
  absolute : ∀ root ∈ hostWorkspace :: hostAliases, isAbsolute root = true

/-- `stripAtPrefix`. -/
def stripAtPrefix (s : JsString) : JsString := if s.head? = some 64 then s.tail else s

/-- The name of the mount. -/
def mountName : JsString := ofString "workspace"

/-- `GUEST_WORKSPACE`. -/
def guestWorkspace : JsString := ofString "/workspace"

/-- A text names the guest workspace or begins with it. -/
def isGuestText (s : JsString) : Bool :=
  s = guestWorkspace || (guestWorkspace ++ [47]).isPrefixOf s

/-- `isInsideHostPath`. -/
def isInsideHostPath (root value : JsString) : Bool :=
  let relativePath := relative root value
  relativePath = [] || (relativePath ≠ dotDot && !(dotDot ++ [47]).isPrefixOf relativePath &&
    !isAbsolute relativePath)

/-- `hostPathToGuest`. -/
def hostPathToGuest (hostWorkspace hostPath : JsString) : JsString :=
  let relativePath := relative hostWorkspace hostPath
  if !isInsideHostPath hostWorkspace hostPath then hostPath
  else if relativePath = [] then guestWorkspace
  else join guestWorkspace relativePath

/-- The roots, each once, the longest text first. -/
def WorkspacePathMap.roots (m : WorkspacePathMap) : List JsString :=
  (m.hostWorkspace :: m.hostAliases).eraseDups.insertionSort
    fun left right => right.length ≤ left.length

/-- `toGuestPath`. -/
def toGuestPath (m : WorkspacePathMap) (inputPath : JsString) : JsString :=
  let trimmed := stripAtPrefix (trim inputPath)
  if trimmed = [] then guestWorkspace
  else if isAbsolute trimmed then
    if isGuestText trimmed then resolve [47] trimmed
    else
      match m.roots.find? fun root => isInsideHostPath root trimmed with
      | some root => hostPathToGuest root trimmed
      | none => resolve [47] trimmed
  else resolve guestWorkspace trimmed

/-! ## Paths -/

/-- No white space at the ends. -/
def Tight (seg : JsString) : Prop :=
  (∀ u, seg.head? = some u → isSpaceUnit u = false) ∧
    ∀ u, seg.getLast? = some u → isSpaceUnit u = false

instance (seg : JsString) : Decidable (Tight seg) :=
  decidable_of_iff ((seg.head?.all fun u => !isSpaceUnit u) = true ∧
      (seg.getLast?.all fun u => !isSpaceUnit u) = true) <| by
    simp only [Tight, Option.all_eq_true, Bool.not_eq_true']

/-- A path whose segments have no white space at their ends. -/
structure Spelling where
  text : JsString
  tight : ∀ seg ∈ segments text, Tight seg

/-- A relative path that stays below where it starts and does not begin with `@`. -/
structure RelativePath extends Spelling where
  relative : isAbsolute text = false
  stays : Stays 0 (segments text) = true
  noAt : text.head? ≠ some 64

/-- A path below a root. -/
def below (root : JsString) (p : RelativePath) : JsString := root ++ 47 :: p.text

/-- A path below a root means the path below the mount: the root is the mount itself, or its text is
not that of a guest path and the first root that holds the path is the same directory. -/
def Clear (m : WorkspacePathMap) (root : JsString) (p : RelativePath) : Prop :=
  if isGuestText root then walk [] root = [mountName]
  else ∀ r, m.roots.find? (fun r => isInsideHostPath r (below root p)) = some r →
    walk [] r = walk [] root

/-- The directory that a path leads to as a path of the guest. -/
def guestDir (s : JsString) : List JsString :=
  walk (if isAbsolute s then [] else [mountName]) s

/-- A guest spelling leads out of the mount to a place that some root holds on the host. -/
def Escapes (m : WorkspacePathMap) (x : Spelling) : Prop :=
  let s := stripAtPrefix x.text
  (isAbsolute s = false ∨ isGuestText s = true) ∧ (guestDir s).head? ≠ some mountName ∧
    ∃ root ∈ m.roots, isInsideHostPath root (absolute (guestDir s)) = true

/-! ## Texts -/

theorem clean_mount : Clean [mountName] := by
  intro seg hseg
  rw [List.mem_singleton.mp hseg]
  decide

theorem walk_guestWorkspace : walk [] guestWorkspace = [mountName] := walk_absolute clean_mount

/-- A root holds a path exactly when its directory is on the way to that of the path. -/
theorem isInsideHostPath_iff {root value : JsString} :
    isInsideHostPath root value = true ↔ walk [] root <+: walk [] value := by
  constructor
  · intro h
    by_contra hn
    obtain ⟨rest, hway⟩ := way_of_not_prefix hn
    have hrel : relative root value = dotDot ∨
        ∃ s, relative root value = dotDot ++ 47 :: s := by
      rw [relative, hway]
      cases rest with
      | nil => exact .inl rfl
      | cons name rest => exact .inr ⟨[47].intercalate (name :: rest), rfl⟩
    unfold isInsideHostPath at h
    rcases hrel with hrel | ⟨s, hrel⟩
    · rw [hrel] at h
      cases h
    · rw [hrel] at h
      cases h
  · rintro ⟨names, hnames⟩
    have hclean : Clean names := by
      intro seg hseg
      exact clean_nil.walk value seg (hnames ▸ List.mem_append_right _ hseg)
    unfold isInsideHostPath
    rw [relative_within hnames.symm]
    by_cases hnil : names = []
    · rw [hnil]
      rfl
    · have hsegs := segments_intercalate hclean hnil
      have hdots : [47].intercalate names ≠ dotDot := by
        intro he
        rw [he] at hsegs
        exact (hclean dotDot (hsegs ▸ List.mem_cons_self)).2.2.1 rfl
      have hup : (dotDot ++ [47]).isPrefixOf ([47].intercalate names) = false := by
        refine Bool.eq_false_iff.mpr fun hp => ?_
        obtain ⟨s, hs⟩ := List.isPrefixOf_iff_prefix.mp hp
        rw [← hs, List.append_assoc, List.singleton_append, segments_append] at hsegs
        exact (hclean dotDot (hsegs ▸ List.mem_cons_self)).2.2.1 rfl
      have habs : isAbsolute ([47].intercalate names) = false := by
        refine Bool.eq_false_iff.mpr fun hp => ?_
        obtain ⟨s, hs⟩ : ∃ s, [47].intercalate names = 47 :: s := by
          have hhead := beq_iff_eq.mp hp
          exact List.head?_eq_some_iff.mp hhead
        rw [hs, segments_slash] at hsegs
        exact (hclean [] (hsegs ▸ List.mem_cons_self)).1 rfl
      rw [Bool.or_eq_true, Bool.and_eq_true, Bool.and_eq_true, hup, habs, decide_eq_true hdots]
      exact .inr ⟨⟨rfl, rfl⟩, rfl⟩

/-- A text is a guest path exactly when its first name is that of the mount. -/
theorem isGuestText_iff {s : JsString} :
    isGuestText s = true ↔ [[], mountName] <+: segments s := by
  rw [isGuestText, Bool.or_eq_true, decide_eq_true_eq, List.isPrefixOf_iff_prefix]
  constructor
  · rintro (rfl | ⟨rest, rfl⟩)
    · exact List.prefix_refl _
    · rw [List.append_assoc, List.singleton_append, segments_append]
      exact List.prefix_append _ _
  · rintro ⟨rest, hrest⟩
    have hs : [47].intercalate (segments s) = s := List.intercalate_splitOn 47
    rw [← hrest] at hs
    cases rest with
    | nil => exact .inl hs.symm
    | cons name rest =>
      refine .inr ⟨[47].intercalate (name :: rest), ?_⟩
      rw [← hs]
      rfl

theorem isGuestText_absolute {dir : List JsString} (h : Clean dir) :
    isGuestText (absolute dir) = true ↔ dir.head? = some mountName := by
  rw [isGuestText_iff, absolute, segments_slash]
  cases dir with
  | nil => decide
  | cons name dir =>
    rw [segments_intercalate h (List.cons_ne_nil _ _), List.head?_cons, Option.some.injEq,
      List.cons_prefix_cons, List.cons_prefix_cons]
    exact ⟨fun hp => hp.2.1.symm, fun he => ⟨rfl, he.symm, List.nil_prefix⟩⟩

/-- Whether a path below a root is a guest text is decided by the root. -/
theorem isGuestText_below {root : JsString} (hroot : isAbsolute root = true) (p : RelativePath) :
    isGuestText (below root p) = isGuestText root := by
  obtain ⟨s, rfl⟩ : ∃ s, root = 47 :: s := List.head?_eq_some_iff.mp (beq_iff_eq.mp hroot)
  rw [Bool.eq_iff_iff, isGuestText_iff, isGuestText_iff, below, segments_append, segments_slash]
  obtain ⟨first, rest, hs⟩ := List.exists_cons_of_ne_nil (List.splitOn_ne_nil 47 s)
  have hs' : segments s = first :: rest := hs
  rw [hs', List.cons_append, List.cons_append, List.cons_prefix_cons, List.cons_prefix_cons,
    List.cons_prefix_cons, List.cons_prefix_cons]
  simp only [List.nil_prefix, and_true]

theorem trim_eq {s : JsString} (h : Tight s) : trim s = s := by
  have hhead {l : JsString} (hl : ∀ u, l.head? = some u → isSpaceUnit u = false) :
      l.dropWhile isSpaceUnit = l := by
    cases l with
    | nil => rfl
    | cons u l => rw [List.dropWhile_cons, hl u rfl, if_neg Bool.false_ne_true]
  rw [trim, trimBy, hhead h.1, hhead fun u hu => h.2 u (by rwa [List.head?_reverse] at hu),
    List.reverse_reverse]

/-! ## Directories -/

/-- The directory of the guest that a trimmed path is mapped to. -/
def target (m : WorkspacePathMap) (s : JsString) : List JsString :=
  if isAbsolute s = false ∨ isGuestText s = true then guestDir s
  else
    match m.roots.find? fun root => isInsideHostPath root s with
    | some root => mountName :: (walk [] s).drop (walk [] root).length
    | none => walk [] s

variable {m : WorkspacePathMap}

theorem resolve_slash (s : JsString) (h : isAbsolute s = true) : resolve [47] s = absolute (walk [] s) := by
  rw [resolve, h, if_pos rfl]

theorem resolve_guestWorkspace {s : JsString} (h : isAbsolute s = false) :
    resolve guestWorkspace s = absolute (guestDir s) := by
  rw [resolve, guestDir, h, if_neg Bool.false_ne_true, if_neg Bool.false_ne_true,
    walk_guestWorkspace]

/-- A host path that a root holds is mapped to the names after the root. -/
theorem hostPathToGuest_eq {root s : JsString} (h : isInsideHostPath root s = true) :
    hostPathToGuest root s =
      absolute (mountName :: (walk [] s).drop (walk [] root).length) := by
  obtain ⟨names, hnames⟩ := isInsideHostPath_iff.mp h
  have hclean : Clean names := fun seg hseg =>
    clean_nil.walk s seg (hnames ▸ List.mem_append_right _ hseg)
  rw [hostPathToGuest, h, relative_within hnames.symm, ← hnames, List.drop_left]
  by_cases hnil : names = []
  · rw [hnil]
    rfl
  · have hne : [47].intercalate names ≠ [] := fun he => hnil ((intercalate_eq_nil hclean).mp he)
    rw [if_neg (by decide), if_neg hne, join, walk_append, walk_guestWorkspace,
      walk_intercalate _ hclean]
    rfl

/-- **The map on directories.** -/
theorem toGuestPath_eq {s : JsString} (h : trim s = s) :
    toGuestPath m s = absolute (target m (stripAtPrefix s)) := by
  rw [toGuestPath, h, target]
  generalize stripAtPrefix s = t
  by_cases hnil : t = []
  · rw [hnil]
    rfl
  · rw [if_neg hnil]
    cases habs : isAbsolute t with
    | false =>
      rw [if_neg Bool.false_ne_true, if_pos (.inl rfl)]
      exact resolve_guestWorkspace habs
    | true =>
      rw [if_pos rfl]
      cases hguest : isGuestText t with
      | true =>
        rw [if_pos rfl, if_pos (.inr rfl), guestDir, habs, if_pos rfl]
        exact resolve_slash t habs
      | false =>
        rw [if_neg Bool.false_ne_true, if_neg (by decide)]
        cases hfind : m.roots.find? fun root => isInsideHostPath root t with
        | none => exact resolve_slash t habs
        | some root =>
          have hholds := List.find?_some hfind
          exact hostPathToGuest_eq hholds

theorem clean_guestDir (s : JsString) : Clean (guestDir s) := by
  unfold guestDir
  split
  · exact clean_nil.walk s
  · exact clean_mount.walk s

theorem clean_target (s : JsString) : Clean (target m s) := by
  unfold target
  split
  · exact clean_guestDir s
  · split
    · exact List.forall_mem_cons.mpr ⟨clean_mount _ List.mem_cons_self, fun seg hseg =>
        clean_nil.walk s seg (List.mem_of_mem_drop hseg)⟩
    · exact clean_nil.walk s

/-- The names a path is mapped to are its own, or that of the mount. -/
theorem mem_target {s seg : JsString} (h : seg ∈ target m s) :
    seg = mountName ∨ seg ∈ segments s := by
  have hwalk (hw : seg ∈ walk [] s) : seg ∈ segments s :=
    (mem_walk hw).resolve_left List.not_mem_nil
  unfold target at h
  split at h
  · unfold guestDir at h
    split at h
    · exact .inr (hwalk h)
    · exact (mem_walk h).imp_left List.mem_singleton.mp
  · split at h
    · exact (List.mem_cons.mp h).imp_right fun h => hwalk (List.mem_of_mem_drop h)
    · exact .inr (hwalk h)

/-! ## Spellings of one path -/

theorem tight_below (root : JsString) (hroot : isAbsolute root = true) (p : RelativePath) :
    Tight (below root p) := by
  obtain ⟨s, rfl⟩ : ∃ s, root = 47 :: s := List.head?_eq_some_iff.mp (beq_iff_eq.mp hroot)
  refine ⟨fun u hu => ?_, ?_⟩
  · rw [← Option.some.inj hu]
    rfl
  · intro u hu
    by_cases hp : p.text = []
    · rw [below, hp, List.getLast?_concat] at hu
      rw [← Option.some.inj hu]
      rfl
    · rw [below, List.getLast?_append_of_ne_nil _ (List.cons_ne_nil _ _),
        List.getLast?_cons_of_ne_nil hp] at hu
      exact getLast_of_segments (fun u => isSpaceUnit u = false) rfl
        (fun seg hseg => (p.tight seg hseg).2) u hu

theorem Spelling.tight_text (x : Spelling) : Tight x.text :=
  ⟨head_of_segments (fun u => isSpaceUnit u = false) rfl fun seg hseg => (x.tight seg hseg).1,
    getLast_of_segments (fun u => isSpaceUnit u = false) rfl fun seg hseg => (x.tight seg hseg).2⟩

theorem stripAtPrefix_below (root : JsString) (hroot : isAbsolute root = true) (p : RelativePath) :
    stripAtPrefix (below root p) = below root p := by
  obtain ⟨s, rfl⟩ : ∃ s, root = 47 :: s := List.head?_eq_some_iff.mp (beq_iff_eq.mp hroot)
  rfl

theorem target_relative (p : RelativePath) : target m p.text = mountName :: walk [] p.text := by
  rw [target, if_pos (.inl p.relative), guestDir, p.relative, if_neg Bool.false_ne_true,
    walk_stays p.stays]
  rfl

theorem walk_below (root : JsString) (p : RelativePath) :
    walk [] (below root p) = walk [] root ++ walk [] p.text := by
  rw [below, walk_append, walk_stays p.stays]

theorem mem_roots {root : JsString} :
    root ∈ m.roots ↔ root ∈ m.hostWorkspace :: m.hostAliases := by
  rw [WorkspacePathMap.roots, List.mem_insertionSort, List.mem_eraseDups]

theorem isAbsolute_below {root : JsString} (hroot : isAbsolute root = true) (p : RelativePath) :
    isAbsolute (below root p) = true := by
  obtain ⟨s, rfl⟩ : ∃ s, root = 47 :: s := List.head?_eq_some_iff.mp (beq_iff_eq.mp hroot)
  rfl

/-- A host spelling is mapped like the relative one exactly when nothing comes in between. -/
theorem target_below_iff {root : JsString} (hmem : root ∈ m.roots) (p : RelativePath) :
    target m (below root p) = mountName :: walk [] p.text ↔ Clear m root p := by
  have hroot : isAbsolute root = true := m.absolute root (mem_roots.mp hmem)
  have habs := isAbsolute_below hroot p
  rw [target, Clear, isGuestText_below hroot]
  cases hguest : isGuestText root with
  | true =>
    rw [if_pos (.inr rfl), if_pos rfl, guestDir, habs, if_pos rfl, walk_below]
    change walk [] root ++ walk [] p.text = [mountName] ++ walk [] p.text ↔ _
    exact List.append_left_inj _
  | false =>
    rw [if_neg (by rw [habs]; decide), if_neg Bool.false_ne_true]
    have hholds : isInsideHostPath root (below root p) = true :=
      isInsideHostPath_iff.mpr ⟨_, (walk_below root p).symm⟩
    have hsome : (m.roots.find? fun r => isInsideHostPath r (below root p)).isSome = true :=
      List.find?_isSome.mpr ⟨root, hmem, hholds⟩
    obtain ⟨r, hr⟩ := Option.isSome_iff_exists.mp hsome
    have hholdsR := List.find?_some hr
    have hprefix : walk [] r <+: walk [] root ++ walk [] p.text :=
      walk_below root p ▸ isInsideHostPath_iff.mp hholdsR
    rw [hr, walk_below]
    dsimp only
    rw [List.cons_inj_right]
    constructor
    · intro h r' hr'
      obtain rfl := Option.some.inj hr'
      have hlength := congrArg List.length h
      have hle := hprefix.length_le
      rw [List.length_drop, List.length_append] at hlength
      rw [List.length_append] at hle
      refine List.IsPrefix.eq_of_length ?_ (by omega)
      exact List.prefix_of_prefix_length_le hprefix (List.prefix_append _ _) (by omega)
    · intro h
      rw [h r rfl, List.drop_left]

/-! ## Mapping twice -/

/-- The names of a path have no white space at their ends, but for a name after `@`. -/
theorem tight_strip (x : Spelling) : ∀ seg ∈ segments (stripAtPrefix x.text),
    ∀ u, seg.getLast? = some u → isSpaceUnit u = false := by
  intro seg hseg u hu
  have htight := x.tight
  unfold stripAtPrefix at hseg
  split at hseg
  · rename_i hat
    obtain ⟨s, hs⟩ := List.head?_eq_some_iff.mp hat
    rw [hs, List.tail_cons] at hseg
    obtain ⟨first, rest, hsegs, hcons⟩ := segments_cons (u := 64) (by decide) s
    rw [hs, hcons] at htight
    rw [hsegs] at hseg
    rcases List.mem_cons.mp hseg with rfl | hseg
    · refine (htight _ List.mem_cons_self).2 u ?_
      rw [List.getLast?_cons_of_ne_nil (fun he => nomatch he ▸ hu)]
      exact hu
    · exact (htight _ (List.mem_cons_of_mem _ hseg)).2 u hu
  · exact (htight _ hseg).2 u hu

theorem tight_absolute {dir : List JsString}
    (h : ∀ seg ∈ dir, ∀ u, seg.getLast? = some u → isSpaceUnit u = false) (hclean : Clean dir) :
    Tight (absolute dir) := by
  refine ⟨fun u hu => ?_, getLast_of_segments (fun u => isSpaceUnit u = false) rfl fun seg hseg => ?_⟩
  · rw [← Option.some.inj hu]
    rfl
  · rw [absolute, segments_slash] at hseg
    rcases List.mem_cons.mp hseg with rfl | hseg
    · exact fun u hu => nomatch hu
    · by_cases hdir : dir = []
      · rw [hdir] at hseg
        rw [List.mem_singleton.mp hseg]
        exact fun u hu => nomatch hu
      · rw [segments_intercalate hclean hdir] at hseg
        exact h seg hseg

/-- The map leaves a directory of the guest alone: it is below the mount, or no root holds it. -/
theorem target_absolute {dir : List JsString} (hclean : Clean dir) :
    target m (absolute dir) = dir ↔ dir.head? = some mountName ∨
      ∀ root ∈ m.roots, isInsideHostPath root (absolute dir) = false := by
  rw [target]
  by_cases hhead : dir.head? = some mountName
  · rw [if_pos (.inr ((isGuestText_absolute hclean).mpr hhead)), guestDir,
      isAbsolute_absolute, if_pos rfl, walk_absolute hclean]
    exact iff_of_true rfl (.inl hhead)
  · rw [if_neg]
    · cases hfind : m.roots.find? fun root => isInsideHostPath root (absolute dir) with
      | none =>
        dsimp only
        rw [walk_absolute hclean]
        refine iff_of_true rfl (.inr fun root hroot => ?_)
        exact Bool.eq_false_iff.mpr (List.find?_eq_none.mp hfind root hroot)
      | some root =>
        refine iff_of_false (fun h => hhead ?_) (not_or.mpr ⟨hhead, fun h => ?_⟩)
        · rw [← h]
          rfl
        · have hholds := List.find?_some hfind
          exact nomatch (h root (List.mem_of_find?_eq_some hfind)).symm.trans hholds
    · rw [isAbsolute_absolute]
      refine not_or.mpr ⟨Bool.true_eq_false_eq_False, fun h => hhead ?_⟩
      exact (isGuestText_absolute hclean).mp h

/-- **A path is mapped again to the same** exactly when it does not lead out of the mount into a
root. -/
theorem target_twice_iff (x : Spelling) :
    target m (absolute (target m (stripAtPrefix x.text))) = target m (stripAtPrefix x.text) ↔
      ¬ Escapes m x := by
  rw [target_absolute (clean_target _), Escapes]
  generalize stripAtPrefix x.text = s
  by_cases hs : isAbsolute s = false ∨ isGuestText s = true
  · have htarget : target m s = guestDir s := if_pos hs
    rw [htarget, and_iff_right hs, not_and_or, not_not]
    refine or_congr_right ?_
    simp only [not_exists, not_and, Bool.not_eq_true]
  · refine iff_of_true ?_ fun h => hs h.1
    rw [target, if_neg hs]
    cases hfind : m.roots.find? fun root => isInsideHostPath root s with
    | some root => exact .inl rfl
    | none =>
      refine .inr fun root hroot => Bool.eq_false_iff.mpr fun hholds => ?_
      rw [isInsideHostPath_iff, walk_absolute (clean_nil.walk s), ← isInsideHostPath_iff] at hholds
      exact List.find?_eq_none.mp hfind root hroot hholds

/-- **The spellings of a path.** A relative path and its spelling below `/workspace` are mapped to the
same path below the mount, and a spelling below a root exactly when it is clear; a mapped path is
mapped to itself exactly when it was not one that leads out of the mount into a root. -/
theorem guestPath_spellings (m : WorkspacePathMap) :
    (∀ p : RelativePath, ∃ names, Clean names ∧
      toGuestPath m p.text = absolute (mountName :: names) ∧
      toGuestPath m (below guestWorkspace p) = absolute (mountName :: names) ∧
      ∀ root ∈ m.hostWorkspace :: m.hostAliases,
        toGuestPath m (below root p) = absolute (mountName :: names) ↔ Clear m root p) ∧
    ∀ x : Spelling, toGuestPath m (toGuestPath m x.text) = toGuestPath m x.text ↔ ¬ Escapes m x := by
  refine ⟨fun p => ⟨walk [] p.text, clean_nil.walk _, ?_, ?_, fun root hroot => ?_⟩, fun x => ?_⟩
  · rw [toGuestPath_eq (trim_eq p.tight_text), stripAtPrefix, if_neg p.noAt, target_relative]
  · have hguest : isGuestText (below guestWorkspace p) = true :=
      (isGuestText_below rfl p).trans (by decide)
    rw [toGuestPath_eq (trim_eq (tight_below _ rfl p)), stripAtPrefix_below _ rfl, target,
      if_pos (.inr hguest), guestDir, isAbsolute_below rfl, if_pos rfl, walk_below,
      walk_guestWorkspace]
    rfl
  · have habs := m.absolute root hroot
    have hclean : Clean (mountName :: walk [] p.text) := target_relative (m := m) p ▸ clean_target _
    rw [toGuestPath_eq (trim_eq (tight_below root habs p)), stripAtPrefix_below root habs,
      absolute_inj (clean_target _) hclean]
    exact target_below_iff (mem_roots.mpr hroot) p
  · have htight : Tight (absolute (target m (stripAtPrefix x.text))) := by
      refine tight_absolute (fun seg hseg => ?_) (clean_target _)
      rcases mem_target hseg with rfl | hseg
      · intro u hu
        have hlast : mountName.getLast? = some 101 := by decide
        obtain rfl : 101 = u := Option.some.inj (hlast.symm.trans hu)
        decide
      · exact tight_strip x seg hseg
    rw [toGuestPath_eq (trim_eq x.tight_text), toGuestPath_eq (trim_eq htight)]
    change absolute (target m (absolute (target m (stripAtPrefix x.text)))) = _ ↔ _
    rw [absolute_inj (clean_target _) (clean_target _)]
    exact target_twice_iff x

/-- A host whose checkout is below `/workspace`. -/
def mountedHost : WorkspacePathMap where
  hostWorkspace := ofString "/workspace/repo"
  hostAliases := []
  absolute := by decide

/-- A host with a checkout at `/repo`. -/
def plainHost : WorkspacePathMap where
  hostWorkspace := ofString "/repo"
  hostAliases := []
  absolute := by decide

/-- A file of the checkout. -/
def readme : RelativePath where
  text := ofString "readme"
  tight := by decide +kernel
  relative := by decide
  stays := by decide +kernel
  noAt := by decide

/-- A path out of the mount to what is the checkout on the host. -/
def upAndBack : Spelling where
  text := ofString "../repo/readme"
  tight := by decide +kernel

/-- **Some spellings are ambiguous**: a host path below `/workspace` is taken for a guest path, and a
guest path outside the mount for a host path when it is mapped again. -/
theorem guestPath_ambiguous :
    (¬ ∀ (m : WorkspacePathMap) (p : RelativePath),
      toGuestPath m (below m.hostWorkspace p) = toGuestPath m p.text) ∧
    ¬ ∀ (m : WorkspacePathMap) (x : Spelling),
      toGuestPath m (toGuestPath m x.text) = toGuestPath m x.text := by
  constructor
  · intro h
    have hsame := h mountedHost readme
    revert hsame
    decide +kernel
  · intro h
    have hsame := h plainHost upAndBack
    revert hsame
    decide +kernel

end GuestPaths

end PiSubagent
