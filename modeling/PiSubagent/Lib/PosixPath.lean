import PiSubagent.Lib.Json
import Mathlib.Data.List.Infix

/-!
# POSIX path texts

The functions of Node's `path.posix` on texts, and what they do on the directories that texts name.

* `segments`, `walk`, `absolute`: the parts of a text, the directory they lead to, and its text.
* `resolve`, `relative`, `join`: as Node computes them, the first path being absolute.
* `Clean`: the names a directory is made of; **`walk_absolute`**: the text of a directory leads to it.
* **`relative_within`**: the relative text of a path below a directory.
* `Stays`, `walk_stays`: a path that never goes above where it starts.
* `normalize`, `joinAll`: texts in normal form; **`normalize_intercalate`**.
-/

namespace PosixPath

open JsonText

/-- The segment `.`. -/
def dot : JsString := [46]

/-- The segment `..`. -/
def dotDot : JsString := [46, 46]

/-- The parts of a path between its slashes. -/
def segments (s : JsString) : List JsString := s.splitOn 47

/-- `path.isAbsolute`. -/
def isAbsolute (s : JsString) : Bool := s.head? == some 47

/-- One segment: an empty one and `.` stay, `..` goes up, but not above the root. -/
def push (dir : List JsString) (seg : JsString) : List JsString :=
  if seg = [] ∨ seg = dot then dir else if seg = dotDot then dir.dropLast else dir ++ [seg]

/-- The directory a path leads to from another. -/
def walk (dir : List JsString) (s : JsString) : List JsString := (segments s).foldl push dir

/-- The text of a directory, from the root. -/
def absolute (dir : List JsString) : JsString := 47 :: [47].intercalate dir

/-- `path.resolve`, of an absolute path and another. -/
def resolve (base s : JsString) : JsString :=
  absolute (walk (if isAbsolute s then [] else walk [] base) s)

/-- The way from one directory to another. -/
def way : List JsString → List JsString → List JsString
  | a :: f, b :: t => if a = b then way f t else (a :: f).map (fun _ => dotDot) ++ b :: t
  | f, t => f.map (fun _ => dotDot) ++ t

/-- `path.relative`, of absolute paths. -/
def relative (start s : JsString) : JsString := [47].intercalate (way (walk [] start) (walk [] s))

/-- `path.join`, of an absolute path and another. -/
def join (base s : JsString) : JsString := absolute (walk [] (base ++ 47 :: s))

/-! ## Directories -/

/-- A directory is made of names. -/
def Clean (dir : List JsString) : Prop :=
  ∀ seg ∈ dir, seg ≠ [] ∧ seg ≠ dot ∧ seg ≠ dotDot ∧ 47 ∉ seg

theorem slash_notMem_segments (s : JsString) : ∀ seg ∈ segments s, 47 ∉ seg := by
  induction s with
  | nil => simp [segments]
  | cons u s ih =>
    rw [segments, List.splitOn_cons_eq_if_modifyHead]
    split
    · exact List.forall_mem_cons.mpr ⟨List.not_mem_nil, ih⟩
    · rename_i hu
      obtain ⟨first, rest, hs⟩ := List.exists_cons_of_ne_nil (List.splitOn_ne_nil 47 s)
      have hs' : segments s = first :: rest := hs
      rw [hs'] at ih
      obtain ⟨hfirst, hrest⟩ := List.forall_mem_cons.mp ih
      rw [hs, List.modifyHead_cons]
      refine List.forall_mem_cons.mpr ⟨?_, hrest⟩
      rw [List.mem_cons, not_or]
      exact ⟨fun h => hu (by rw [← h]; rfl), hfirst⟩

theorem segments_append (a b : JsString) : segments (a ++ 47 :: b) = segments a ++ segments b :=
  List.splitOn_append_cons_self a b

theorem walk_append (dir : List JsString) (a b : JsString) :
    walk dir (a ++ 47 :: b) = walk (walk dir a) b := by
  rw [walk, segments_append, List.foldl_append]
  rfl

@[simp] theorem walk_nil (dir : List JsString) : walk dir [] = dir := rfl

theorem Clean.push {dir : List JsString} (h : Clean dir) {seg : JsString} (hseg : 47 ∉ seg) :
    Clean (push dir seg) := by
  unfold PosixPath.push
  split
  · exact h
  · rename_i hne
    rw [not_or] at hne
    split
    · exact fun s hs => h s (List.mem_of_mem_dropLast hs)
    · rename_i hdots
      intro s hs
      rcases List.mem_append.mp hs with hs | hs
      · exact h s hs
      · rw [List.mem_singleton.mp hs]
        exact ⟨hne.1, hne.2, hdots, hseg⟩

theorem Clean.foldl {dir segs : List JsString} (h : Clean dir) (hsegs : ∀ seg ∈ segs, 47 ∉ seg) :
    Clean (segs.foldl PosixPath.push dir) := by
  induction segs generalizing dir with
  | nil => exact h
  | cons seg segs ih =>
    obtain ⟨hseg, hsegs⟩ := List.forall_mem_cons.mp hsegs
    exact ih (h.push hseg) hsegs

theorem clean_nil : Clean [] := fun _ h => absurd h List.not_mem_nil

/-- **A path leads to a directory.** -/
theorem Clean.walk {dir : List JsString} (h : Clean dir) (s : JsString) :
    Clean (PosixPath.walk dir s) :=
  h.foldl (slash_notMem_segments s)

theorem foldl_push_clean {dir names : List JsString} (h : Clean names) :
    names.foldl push dir = dir ++ names := by
  induction names generalizing dir with
  | nil => exact (List.append_nil dir).symm
  | cons name names ih =>
    obtain ⟨⟨hne, hdot, hdots, -⟩, hnames⟩ := List.forall_mem_cons.mp h
    have hpush : push dir name = dir ++ [name] := by
      rw [push, if_neg (not_or.mpr ⟨hne, hdot⟩), if_neg hdots]
    rw [List.foldl_cons, hpush, ih hnames, List.append_assoc]
    rfl

/-- Names with slashes between them are walked one after the other. -/
theorem walk_intercalate (dir : List JsString) {names : List JsString} (h : Clean names) :
    walk dir ([47].intercalate names) = dir ++ names := by
  by_cases hnil : names = []
  · rw [hnil, List.append_nil]
    rfl
  · rw [walk, segments, List.splitOn_intercalate 47 (fun l hl => (h l hl).2.2.2) hnil]
    exact foldl_push_clean h

/-- **The text of a directory leads to it.** -/
theorem walk_absolute {dir : List JsString} (h : Clean dir) : walk [] (absolute dir) = dir := by
  have happend := walk_append [] [] ([47].intercalate dir)
  rw [List.nil_append, walk_nil, walk_intercalate [] h, List.nil_append] at happend
  exact happend

theorem isAbsolute_absolute (dir : List JsString) : isAbsolute (absolute dir) = true := rfl

theorem absolute_inj {a b : List JsString} (ha : Clean a) (hb : Clean b) :
    absolute a = absolute b ↔ a = b := by
  refine ⟨fun h => ?_, congrArg absolute⟩
  rw [← walk_absolute ha, h, walk_absolute hb]

/-- The names of a directory come from the path, or were there before. -/
theorem mem_walk {dir : List JsString} {s seg : JsString} (h : seg ∈ walk dir s) :
    seg ∈ dir ∨ seg ∈ segments s := by
  unfold walk at h
  revert h
  generalize segments s = segs
  induction segs generalizing dir with
  | nil => exact .inl
  | cons first segs ih =>
    intro h
    rcases ih h with h | h
    · unfold push at h
      split at h
      · exact .inl h
      · split at h
        · exact .inl (List.mem_of_mem_dropLast h)
        · rcases List.mem_append.mp h with h | h
          · exact .inl h
          · rw [List.mem_singleton.mp h]
            exact .inr List.mem_cons_self
    · exact .inr (List.mem_cons_of_mem _ h)

theorem segments_slash (s : JsString) : segments (47 :: s) = [] :: segments s :=
  segments_append [] s

theorem segments_cons {u : UInt16} (hu : u ≠ 47) (s : JsString) :
    ∃ first rest, segments s = first :: rest ∧ segments (u :: s) = (u :: first) :: rest := by
  obtain ⟨first, rest, hs⟩ := List.exists_cons_of_ne_nil (List.splitOn_ne_nil 47 s)
  refine ⟨first, rest, hs, ?_⟩
  rw [segments, List.splitOn_cons_eq_if_modifyHead, if_neg (by simpa using hu), hs,
    List.modifyHead_cons]

theorem segments_intercalate {names : List JsString} (h : Clean names) (hne : names ≠ []) :
    segments ([47].intercalate names) = names :=
  List.splitOn_intercalate 47 (fun l hl => (h l hl).2.2.2) hne

/-- The last unit of a path is the last of its last segment, or a slash. -/
theorem getLast_of_segments (P : UInt16 → Prop) (hslash : P 47) {s : JsString}
    (h : ∀ seg ∈ segments s, ∀ u, seg.getLast? = some u → P u) :
    ∀ u, s.getLast? = some u → P u := by
  induction s with
  | nil => exact fun u hu => nomatch hu
  | cons v s ih =>
    intro u hu
    by_cases hv : v = 47
    · rw [hv, segments_slash] at h
      by_cases hs : s = []
      · rw [hs, List.getLast?_singleton] at hu
        rw [← Option.some.inj hu, hv]
        exact hslash
      · rw [List.getLast?_cons_of_ne_nil hs] at hu
        exact ih (List.forall_mem_cons.mp h).2 u hu
    · obtain ⟨first, rest, hs, hcons⟩ := segments_cons hv s
      rw [hcons] at h
      obtain ⟨hfirst, hrest⟩ := List.forall_mem_cons.mp h
      by_cases hnil : s = []
      · subst hnil
        obtain rfl : first = [] := (List.cons.inj hs).1.symm
        exact hfirst u hu
      · rw [List.getLast?_cons_of_ne_nil hnil] at hu
        refine ih ?_ u hu
        rw [hs]
        refine List.forall_mem_cons.mpr ⟨fun w hw => hfirst w ?_, hrest⟩
        rw [List.getLast?_cons_of_ne_nil (fun he => nomatch he ▸ hw)]
        exact hw

/-- The first unit of a path is the first of its first segment, or a slash. -/
theorem head_of_segments (P : UInt16 → Prop) (hslash : P 47) {s : JsString}
    (h : ∀ seg ∈ segments s, ∀ u, seg.head? = some u → P u) : ∀ u, s.head? = some u → P u := by
  intro u hu
  cases s with
  | nil => exact nomatch hu
  | cons v s =>
    obtain rfl := Option.some.inj hu
    by_cases hv : v = 47
    · rw [hv]
      exact hslash
    · obtain ⟨first, rest, -, hcons⟩ := segments_cons hv s
      rw [hcons] at h
      exact (List.forall_mem_cons.mp h).1 v rfl

/-! ## Relative paths -/

theorem way_append (dir names : List JsString) : way dir (dir ++ names) = names := by
  induction dir with
  | nil => cases names <;> rfl
  | cons a dir ih =>
    rw [List.cons_append, way, if_pos rfl]
    exact ih

theorem way_of_not_prefix {start dir : List JsString} (h : ¬ start <+: dir) :
    ∃ rest, way start dir = dotDot :: rest := by
  induction start generalizing dir with
  | nil => exact absurd (List.nil_prefix) h
  | cons a start ih =>
    cases dir with
    | nil => exact ⟨_, rfl⟩
    | cons b dir =>
      rw [way]
      split
      · rename_i hab
        exact ih fun hp => h (hab ▸ (List.cons_prefix_cons.mpr ⟨rfl, hp⟩))
      · exact ⟨_, rfl⟩

/-- **The relative text** of a path below a directory is that of the names after it. -/
theorem relative_within {start s : JsString} {names : List JsString}
    (h : walk [] s = walk [] start ++ names) : relative start s = [47].intercalate names := by
  rw [relative, h, way_append]

theorem intercalate_eq_nil {names : List JsString} (h : Clean names) :
    [47].intercalate names = [] ↔ names = [] := by
  refine ⟨fun hn => ?_, fun hn => by rw [hn]; rfl⟩
  have hwalk := walk_intercalate [] h
  rw [hn, List.nil_append] at hwalk
  exact hwalk.symm

/-! ## Paths that stay below where they start -/

/-- At no point the path is above where it started, `depth` names further down. -/
def Stays : ℕ → List JsString → Bool
  | _, [] => true
  | depth, seg :: segs =>
    if seg = [] ∨ seg = dot then Stays depth segs
    else if seg = dotDot then decide (0 < depth) && Stays (depth - 1) segs
    else Stays (depth + 1) segs

/-- **A path that stays below** leads to the same names from everywhere. -/
theorem foldl_stays {dir done segs : List JsString} (h : Stays done.length segs = true) :
    segs.foldl push (dir ++ done) = dir ++ segs.foldl push done := by
  induction segs generalizing done with
  | nil => rfl
  | cons seg segs ih =>
    rw [List.foldl_cons, List.foldl_cons]
    rw [Stays] at h
    unfold push
    split
    · rename_i hseg
      rw [if_pos hseg] at h
      exact ih h
    · rename_i hseg
      rw [if_neg hseg] at h
      split
      · rename_i hdots
        rw [if_pos hdots, Bool.and_eq_true, decide_eq_true_eq] at h
        have hne : done ≠ [] := List.ne_nil_of_length_pos h.1
        rw [List.dropLast_append_of_ne_nil hne]
        exact ih (by rw [List.length_dropLast]; exact h.2)
      · rename_i hdots
        rw [if_neg hdots] at h
        rw [List.append_assoc]
        exact ih (by rw [List.length_append]; exact h)

theorem walk_stays {s : JsString} (h : Stays 0 (segments s) = true) (dir : List JsString) :
    walk dir s = dir ++ walk [] s := by
  have hfold : (segments s).foldl push (dir ++ []) = dir ++ (segments s).foldl push [] :=
    foldl_stays h
  rw [List.append_nil] at hfold
  exact hfold

/-! ## Relative texts -/

/-- One segment of a relative path: `..` goes up, and stays where there is no name to leave. -/
def climb (dir : List JsString) (seg : JsString) : List JsString :=
  if seg = [] ∨ seg = dot then dir
  else if seg = dotDot ∧ dir ≠ [] ∧ dir.getLast? ≠ some dotDot then dir.dropLast
  else dir ++ [seg]

/-- `path.normalize`. -/
def normalize (s : JsString) : JsString :=
  let names := (segments s).foldl (if isAbsolute s then push else climb) []
  let trailing : JsString := if s.getLast? = some 47 then [47] else []
  if isAbsolute s then
    if names = [] then [47] else absolute names ++ trailing
  else if names = [] then dot ++ trailing
  else [47].intercalate names ++ trailing

/-- `path.join`. -/
def joinAll (parts : List JsString) : JsString :=
  normalize ([47].intercalate (parts.filter fun part => part ≠ []))

theorem intercalate_concat {names : List JsString} (h : names ≠ []) (seg : JsString) :
    [47].intercalate (names ++ [seg]) = [47].intercalate names ++ 47 :: seg := by
  induction names with
  | nil => exact absurd rfl h
  | cons name names ih =>
    cases names with
    | nil => simp [List.intercalate]
    | cons next names =>
      have htail := ih (List.cons_ne_nil _ _)
      simp only [List.cons_append, List.intercalate, List.intersperse_cons_cons, List.flatten_cons,
        List.append_assoc] at htail ⊢
      rw [htail]

/-- A name that a relative path leads to was there before, or is a segment of the path. -/
theorem mem_foldl_climb {dir segs : List JsString} {seg : JsString}
    (h : seg ∈ segs.foldl climb dir) : seg ∈ dir ∨ seg ∈ segs ∧ seg ≠ [] ∧ seg ≠ dot := by
  induction segs generalizing dir with
  | nil => exact .inl h
  | cons first segs ih =>
    rcases ih h with h | ⟨h, hne⟩
    · unfold climb at h
      split_ifs at h with hskip
      · exact .inl h
      · exact .inl (List.mem_of_mem_dropLast h)
      · rcases List.mem_append.mp h with h | h
        · exact .inl h
        · rw [List.mem_singleton.mp h]
          exact .inr ⟨List.mem_cons_self, not_or.mp hskip⟩
    · exact .inr ⟨List.mem_cons_of_mem _ h, hne⟩

theorem foldl_climb_clean {dir names : List JsString} (h : Clean names) :
    names.foldl climb dir = dir ++ names := by
  induction names generalizing dir with
  | nil => exact (List.append_nil dir).symm
  | cons name names ih =>
    obtain ⟨⟨hne, hdot, hdots, -⟩, hnames⟩ := List.forall_mem_cons.mp h
    have hclimb : climb dir name = dir ++ [name] := by
      rw [climb, if_neg (not_or.mpr ⟨hne, hdot⟩), if_neg fun hc => hdots hc.1]
    rw [List.foldl_cons, hclimb, ih hnames, List.append_assoc]
    rfl

theorem isAbsolute_intercalate {names : List JsString}
    (h : ∀ name ∈ names, name ≠ [] ∧ 47 ∉ name) : isAbsolute ([47].intercalate names) = false := by
  cases names with
  | nil => rfl
  | cons name names =>
    obtain ⟨hne, hslash⟩ := h name List.mem_cons_self
    obtain ⟨u, us, rfl⟩ := List.exists_cons_of_ne_nil hne
    have hhead : ([47].intercalate ((u :: us) :: names)).head? = some u := by
      cases names <;> rfl
    rw [isAbsolute, hhead, beq_eq_false_iff_ne, ne_eq, Option.some.injEq]
    exact fun hu => hslash (hu ▸ List.mem_cons_self)

theorem getLast_intercalate {names : List JsString}
    (h : ∀ name ∈ names, name ≠ [] ∧ 47 ∉ name) : ([47].intercalate names).getLast? ≠ some 47 := by
  rcases List.eq_nil_or_concat names with rfl | ⟨init, last, rfl⟩
  · exact fun hc => nomatch hc
  · rw [List.concat_eq_append] at h ⊢
    obtain ⟨hne, hslash⟩ := h last (List.mem_append_right _ (List.mem_singleton_self last))
    intro hlast
    have hsuffix : ([47].intercalate (init ++ [last])).getLast? = last.getLast? := by
      by_cases hinit : init = []
      · rw [hinit]
        simp [List.intercalate]
      · rw [intercalate_concat hinit, List.getLast?_append_of_ne_nil _ (List.cons_ne_nil _ _),
          List.getLast?_cons_of_ne_nil hne]
    rw [hsuffix] at hlast
    exact hslash (List.mem_of_getLast? hlast)

/-- **The text of names is in normal form.** -/
theorem normalize_intercalate {names : List JsString} (h : Clean names) (hne : names ≠ []) :
    normalize ([47].intercalate names) = [47].intercalate names := by
  have hplain : ∀ name ∈ names, name ≠ [] ∧ 47 ∉ name := fun n hn => ⟨(h n hn).1, (h n hn).2.2.2⟩
  have hfold : ([47].intercalate names |> segments).foldl climb [] = names := by
    rw [segments_intercalate h hne, foldl_climb_clean h, List.nil_append]
  unfold normalize
  simp only [isAbsolute_intercalate hplain, Bool.false_eq_true, if_false, hfold, if_neg hne,
    if_neg (getLast_intercalate hplain), List.append_nil]

theorem joinAll_concat {names : List JsString} {seg : JsString} (h : Clean (names ++ [seg])) :
    joinAll [[47].intercalate names, seg] = [47].intercalate (names ++ [seg]) := by
  have hseg : seg ≠ [] := (h seg (List.mem_append_right _ (List.mem_singleton_self seg))).1
  have hnames : Clean names := fun n hn => h n (List.mem_append_left _ hn)
  rw [← normalize_intercalate h (by simp), joinAll]
  congr 1
  by_cases hnil : names = []
  · rw [hnil]
    simp [List.intercalate, hseg]
  · have hbase : [47].intercalate names ≠ [] := fun hc => hnil ((intercalate_eq_nil hnames).mp hc)
    rw [intercalate_concat hnil, List.filter_cons_of_pos (by simpa using hbase),
      List.filter_cons_of_pos (by simpa using hseg), List.filter_nil]
    simp [List.intercalate]

/-- **A normal form that stays where it starts is a text of names.** -/
theorem clean_segments_normalize {s : JsString} (hlast : s.getLast? ≠ some 47)
    (hdot : normalize s ≠ dot) (habs : isAbsolute (normalize s) = false)
    (hdots : dotDot ∉ segments (normalize s)) : Clean (segments (normalize s)) := by
  by_cases hs : isAbsolute s = true
  · have hslash : isAbsolute (normalize s) = true := by
      unfold normalize
      simp only [hs, if_true]
      split <;> rfl
    rw [hslash] at habs
    cases habs
  · have hplain : ∀ name ∈ (segments s).foldl climb [], (name ≠ [] ∧ 47 ∉ name) ∧ name ≠ dot := by
      intro name hn
      rcases mem_foldl_climb hn with hn | ⟨hn, hne, hnd⟩
      · cases hn
      · exact ⟨⟨hne, slash_notMem_segments s name hn⟩, hnd⟩
    have hnorm : normalize s = if (segments s).foldl climb [] = [] then dot
        else [47].intercalate ((segments s).foldl climb []) := by
      unfold normalize
      simp only [hs, Bool.false_eq_true, if_false, if_neg hlast, List.append_nil]
    by_cases hnil : (segments s).foldl climb [] = []
    · rw [hnorm, if_pos hnil] at hdot
      exact absurd rfl hdot
    · rw [hnorm, if_neg hnil] at hdots ⊢
      have hsplit : segments ([47].intercalate ((segments s).foldl climb [])) =
          (segments s).foldl climb [] :=
        List.splitOn_intercalate 47 (fun l hl => (hplain l hl).1.2) hnil
      rw [hsplit] at hdots ⊢
      intro name hn
      obtain ⟨⟨h1, h2⟩, h3⟩ := hplain name hn
      exact ⟨h1, h3, fun hc => hdots (hc ▸ hn), h2⟩

end PosixPath
