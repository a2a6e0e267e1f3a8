import PiSubagent.Lib.NamedTrees
import PiSubagent.Preflight.Resources

/-!
# What the digest of a tree says

A directory tree that does not change while it is read, with `readdir` in any order.

* `DirTree`, `Shows`, `Laid`: a tree, and the calls of `node:fs` that show it.
* `treeEntry`: the entry of what stands at a path.
* **`walk_shows`**: the walk gathers the entries of the tree, depth first in the order of names.
* `items_of_same`: the digested value names the path, the kind, the executable bit and the content
  of every entry.
* **`treeDigest_iff`**: two trees have one digest exactly when they have the same at the same paths,
  and a tree with a symbolic link or a special file in it has none.
-/

namespace PiSubagent

open JsonText

namespace Preflight.Resources

open Canonical (Value)
open NamedTree (inOrder entry)

/-! ## Trees -/

/-- Code units in the order of `sort`. -/
local instance codeUnitOrder : LinearOrder UInt16 where
  le_refl a := UInt16.le_refl a
  le_trans _ _ _ h h' := UInt16.le_trans h h'
  le_antisymm _ _ h h' := UInt16.le_antisymm h h'
  le_total a b := UInt16.le_total a b
  lt_iff_le_not_ge a b := by
    rw [UInt16.le_iff_toNat_le, UInt16.le_iff_toNat_le, UInt16.lt_iff_toNat_lt]
    omega
  toDecidableLE := inferInstance

/-- An entry that is no directory. -/
inductive Leaf where
  | file (executable : Bool) (content : List UInt8)
  | symbolicLink
  | other
deriving DecidableEq, Repr

/-- A tree of files and directories. -/
abbrev DirTree := NamedTree JsString Leaf

/-- An entry of a tree: its path and what it is; a directory is no leaf. -/
abbrev Item := List JsString × Option Leaf

/-- The calls of `node:fs` show the tree at a path; `readdir` has the names in any order. -/
inductive Shows (F : Files) : JsString → DirTree → Prop
  | file {path : JsString} {size : ℕ} {executable : Bool} {content : List UInt8}
      (hl : F.lstat path = .ok ⟨.file, size, executable⟩) (hr : F.readFile path = .ok content) :
      Shows F path (.leaf (.file executable content))
  | symbolicLink {path : JsString} {size : ℕ} {executable : Bool}
      (hl : F.lstat path = .ok ⟨.symbolicLink, size, executable⟩) :
      Shows F path (.leaf .symbolicLink)
  | other {path : JsString} {size : ℕ} {executable : Bool}
      (hl : F.lstat path = .ok ⟨.other, size, executable⟩) : Shows F path (.leaf .other)
  | directory {path : JsString} {size : ℕ} {executable : Bool} {names : List JsString}
      {cs : List (JsString × DirTree)} (hl : F.lstat path = .ok ⟨.directory, size, executable⟩)
      (hr : F.readdir path = .ok names) (hn : names.Perm (cs.map Prod.fst))
      (hc : ∀ x ∈ cs, Shows F (PosixPath.join path x.1) x.2) : Shows F path (.branch cs)

/-- A tree stands where a path leads. -/
structure Laid (F : Files) (treePath : JsString) (T : DirTree) : Prop where
  root : ∃ root, F.realpath treePath = .ok root ∧ Shows F root T
  directory : T.content = none
  distinct : T.Distinct
  names : ∀ path b, T.Has path b → PosixPath.Clean path

/-- A file or a directory. -/
def Regular (b : Option Leaf) : Prop := ∀ l, b = some l → ∃ executable content,
  l = .file executable content

/-- A file counts as one. -/
def itemFiles (x : Item) : ℕ :=
  match x.2 with
  | some (.file _ _) => 1
  | _ => 0

/-- The bytes of a file. -/
def itemBytes (x : Item) : ℕ :=
  match x.2 with
  | some (.file _ content) => content.length
  | _ => 0

/-- The number of files. -/
def fileCount (l : List Item) : ℕ := (l.map itemFiles).sum

/-- The bytes of all files. -/
def byteTotal (l : List Item) : ℕ := (l.map itemBytes).sum

/-- The limits are ones the code admits, and the tree is within them. -/
structure Within (limits : ResourceDigestLimits) (T : DirTree) : Prop where
  maxFiles : 1 ≤ limits.maxFiles ∧ limits.maxFiles ≤ maxSafeInteger
  maxBytes : 1 ≤ limits.maxBytes ∧ limits.maxBytes ≤ maxSafeInteger
  files : fileCount T.listing ≤ limits.maxFiles
  bytes : byteTotal T.listing ≤ limits.maxBytes

/-! ## The paths of entries -/

/-- The text of a path below a directory that stands at a path of the tree. -/
def relativeText (relativeDirectory : JsString) (path : List JsString) : JsString :=
  List.intercalate [47] (if relativeDirectory = [] then path else relativeDirectory :: path)

/-- The entry of what stands at a path. -/
def treeEntry (S : Sha256) (relativeDirectory : JsString) (x : Item) : TreeEntry :=
  match x.2 with
  | some (.file executable content) =>
    ⟨relativeText relativeDirectory x.1, executable, content.length, some (S.digest content)⟩
  | _ => ⟨relativeText relativeDirectory x.1, false, 0, none⟩

theorem relativeText_child (rel n : JsString) :
    relativeText rel [n] = if rel = [] then n else rel ++ 47 :: n := by
  unfold relativeText
  split_ifs
  · rw [List.intercalate_singleton]
  · rw [List.intercalate_cons_cons, List.intercalate_singleton, List.append_assoc]
    rfl

/-- The path below a child is the path below its parent with the child's name in front. -/
theorem relativeText_below {rel n : JsString} (hn : n ≠ []) (path : List JsString) :
    relativeText (relativeText rel [n]) path = relativeText rel (n :: path) := by
  have hchild := relativeText_child rel n
  by_cases hrel : rel = []
  · rw [if_pos hrel] at hchild
    rw [hchild, relativeText, if_neg hn, relativeText, if_pos hrel]
  · have hne : rel ++ 47 :: n ≠ [] := by simp
    rw [if_neg hrel] at hchild
    rw [hchild, relativeText, if_neg hne, relativeText, if_neg hrel]
    cases path with
    | nil =>
      rw [List.intercalate_singleton, List.intercalate_cons_cons, List.intercalate_singleton,
        List.append_assoc]
      rfl
    | cons m path =>
      rw [List.intercalate_cons_cons, List.intercalate_cons_cons, List.intercalate_cons_cons]
      simp only [List.append_assoc, List.cons_append, List.nil_append]

theorem relativeText_injective {p q : List JsString} (hp : p ≠ []) (hq : q ≠ [])
    (hpn : PosixPath.Clean p) (hqn : PosixPath.Clean q)
    (h : relativeText [] p = relativeText [] q) : p = q := by
  rw [relativeText, if_pos rfl, relativeText, if_pos rfl] at h
  have hsplit := congrArg PosixPath.segments h
  rwa [PosixPath.segments_intercalate hpn hp, PosixPath.segments_intercalate hqn hq] at hsplit

/-! ## Counts -/

theorem fileCount_append (l m : List Item) : fileCount (l ++ m) = fileCount l + fileCount m := by
  rw [fileCount, List.map_append, List.sum_append]
  rfl

theorem byteTotal_append (l m : List Item) : byteTotal (l ++ m) = byteTotal l + byteTotal m := by
  rw [byteTotal, List.map_append, List.sum_append]
  rfl

theorem fileCount_below (n : JsString) (l : List Item) :
    fileCount (l.map fun x => (n :: x.1, x.2)) = fileCount l := by
  rw [fileCount, List.map_map]
  rfl

theorem byteTotal_below (n : JsString) (l : List Item) :
    byteTotal (l.map fun x => (n :: x.1, x.2)) = byteTotal l := by
  rw [byteTotal, List.map_map]
  rfl

/-! ## The walk -/

variable (S : Sha256)

/-- What has been gathered and some entries more. -/
structure Adds (rel : JsString) (l : List Item) (acc acc' : Walked) : Prop where
  entries : acc'.entries = acc.entries ++ l.map (treeEntry S rel)
  files : acc'.files = acc.files + fileCount l
  bytes : acc'.bytes = acc.bytes + byteTotal l

/-- The entries still fit. -/
structure Fits (limits : ResourceDigestLimits) (l : List Item) (acc : Walked) : Prop where
  files : acc.files + fileCount l ≤ limits.maxFiles
  bytes : acc.bytes + byteTotal l ≤ limits.maxBytes

variable {S} {limits : ResourceDigestLimits} {F : Files}

theorem Adds.append {rel : JsString} {l m : List Item} {acc acc' acc'' : Walked}
    (h : Adds S rel l acc acc') (h' : Adds S rel m acc' acc'') : Adds S rel (l ++ m) acc acc'' := by
  refine ⟨?_, ?_, ?_⟩
  · rw [h'.entries, h.entries, List.map_append, List.append_assoc]
  · rw [h'.files, h.files, fileCount_append, Nat.add_assoc]
  · rw [h'.bytes, h.bytes, byteTotal_append, Nat.add_assoc]

theorem Adds.below {rel n : JsString} (hn : n ≠ []) {l : List Item} {acc acc' : Walked}
    (h : Adds S (relativeText rel [n]) l acc acc') :
    Adds S rel (l.map fun x => (n :: x.1, x.2)) acc acc' := by
  refine ⟨?_, ?_, ?_⟩
  · rw [h.entries, List.map_map]
    congr 1
    refine List.map_congr_left fun x _ => ?_
    simp only [treeEntry, Function.comp_apply, relativeText_below hn]
  · rw [h.files, fileCount_below]
  · rw [h.bytes, byteTotal_below]

theorem Fits.left {l m : List Item} {acc : Walked} (h : Fits limits (l ++ m) acc) :
    Fits limits l acc := by
  have hf := h.files
  have hb := h.bytes
  rw [fileCount_append] at hf
  rw [byteTotal_append] at hb
  exact ⟨by omega, by omega⟩

theorem Fits.right {rel : JsString} {l m : List Item} {acc acc' : Walked}
    (h : Fits limits (l ++ m) acc) (ha : Adds S rel l acc acc') : Fits limits m acc' := by
  have hf := h.files
  have hb := h.bytes
  rw [fileCount_append] at hf
  rw [byteTotal_append] at hb
  exact ⟨by rw [ha.files]; omega, by rw [ha.bytes]; omega⟩

/-- Every item is a file or a directory, and its path is one of names. -/
def Sound (l : List Item) : Prop := ∀ x ∈ l, Regular x.2 ∧ PosixPath.Clean x.1

theorem Sound.left {l m : List Item} (h : Sound (l ++ m)) : Sound l :=
  fun x hx => h x (List.mem_append_left _ hx)

theorem Sound.right {l m : List Item} (h : Sound (l ++ m)) : Sound m :=
  fun x hx => h x (List.mem_append_right _ hx)

theorem Sound.of_below {n : JsString} {l : List Item}
    (h : Sound (l.map fun x => (n :: x.1, x.2))) : Sound l := by
  intro x hx
  obtain ⟨hr, hn⟩ := h _ (List.mem_map_of_mem hx)
  exact ⟨hr, fun m hm => hn m (List.mem_cons_of_mem _ hm)⟩

/-- **The loop over the names of a directory**, given that the directories in it are walked. -/
theorem walkNames_shows {recurse : JsString → JsString → Walked → Load Walked}
    {directory rel : JsString} {ps : List (JsString × DirTree)}
    (hs : ∀ x ∈ ps, Shows F (PosixPath.join directory x.1) x.2)
    (hrec : ∀ x ∈ ps, x.2.content = none → ∀ acc t, Fits limits x.2.listing acc →
      Sound x.2.listing → ∃ acc' u, recurse (PosixPath.join directory x.1)
        (relativeText rel [x.1]) acc t = .ok (acc', u) ∧
          Adds S (relativeText rel [x.1]) x.2.listing acc acc')
    {acc : Walked} {t : ℕ} (hfits : Fits limits (ps.flatMap entry) acc)
    (hsound : Sound (ps.flatMap entry)) :
    ∃ acc' u, walkNames S (fun _ => F) limits recurse directory rel (ps.map Prod.fst) acc t =
      .ok (acc', u) ∧ Adds S rel (ps.flatMap entry) acc acc' := by
  induction ps generalizing acc t with
  | nil => exact ⟨acc, t, rfl, by simp [Adds.mk, fileCount, byteTotal]⟩
  | cons x ps ih =>
    obtain ⟨n, c⟩ := x
    rw [List.flatMap_cons] at hfits hsound
    rw [List.flatMap_cons]
    have hshow := hs _ List.mem_cons_self
    have hself := hsound _ (List.mem_append_left _ List.mem_cons_self)
    have hn : n ≠ [] := (hself.2 n List.mem_cons_self).1
    have htail {acc₁ : Walked} {t₁ : ℕ} (hadds : Adds S rel (entry (n, c)) acc acc₁) :=
      @ih (fun y hy => hs y (List.mem_cons_of_mem _ hy))
        (fun y hy => hrec y (List.mem_cons_of_mem _ hy)) acc₁ t₁ (hfits.right hadds) hsound.right
    rw [List.map_cons]
    cases hshow with
    | file hl hr =>
      rename_i size executable content
      have hentry : entry (n, (.leaf (.file executable content) : DirTree)) =
          [([n], some (.file executable content))] := by
        rw [entry]
        simp [NamedTree.listing, NamedTree.content]
      rw [hentry] at hfits hsound htail ⊢
      have hfile := hfits.left.files
      have hbyte := hfits.left.bytes
      simp only [fileCount, byteTotal, itemFiles, itemBytes, List.map_cons, List.map_nil,
        List.sum_cons, List.sum_nil] at hfile hbyte
      obtain ⟨acc', u, hrest, hadds⟩ := @htail
        { entries := acc.entries ++ [⟨relativeText rel [n], executable, content.length,
            some (S.digest content)⟩]
          files := acc.files + 1
          bytes := acc.bytes + content.length
          readings := acc.readings ++
            [⟨relativeText rel [n], PosixPath.join directory n, t + 1⟩] } (t + 2)
        ⟨rfl, rfl, rfl⟩
      refine ⟨acc', u, ?_, Adds.append ⟨rfl, rfl, rfl⟩ hadds⟩
      refine bind_ok.mpr ⟨_, _, call_ok.mpr ⟨hl, rfl⟩, ?_⟩
      refine bind_ok.mpr ⟨(), _, throwIf_ok.mpr ⟨by omega, rfl⟩, ?_⟩
      refine bind_ok.mpr ⟨_, _, moment_ok.mpr ⟨rfl, rfl⟩, ?_⟩
      refine bind_ok.mpr ⟨_, _, call_ok.mpr ⟨hr, rfl⟩, ?_⟩
      refine bind_ok.mpr ⟨(), _, throwIf_ok.mpr ⟨by omega, rfl⟩, ?_⟩
      rw [relativeText_child] at hrest
      exact hrest
    | symbolicLink hl =>
      obtain ⟨_, _, he⟩ := hself.1 .symbolicLink rfl
      cases he
    | other hl =>
      obtain ⟨_, _, he⟩ := hself.1 .other rfl
      cases he
    | directory hl hr hperm hc =>
      rename_i size executable names cs
      have hentry : entry (n, (.branch cs : DirTree)) =
          [([n], none)] ++ (NamedTree.listing (.branch cs)).map fun y => (n :: y.1, y.2) := rfl
      have hadds₀ : Adds S rel [([n], none)] acc
          { acc with entries := acc.entries ++ [⟨relativeText rel [n], false, 0, none⟩] } :=
        ⟨rfl, rfl, rfl⟩
      have hfits' := hfits.left
      have hsound' := hsound.left
      rw [hentry] at hfits' hsound'
      have hbelow := hfits'.right hadds₀
      obtain ⟨acc₁, u₁, hwalk, hadds₁⟩ := hrec _ List.mem_cons_self rfl
        { acc with entries := acc.entries ++ [⟨relativeText rel [n], false, 0, none⟩] } (t + 1)
        ⟨by have := hbelow.files; rwa [fileCount_below] at this,
          by have := hbelow.bytes; rwa [byteTotal_below] at this⟩
        (Sound.of_below hsound'.right)
      have hadds₂ : Adds S rel (entry (n, (.branch cs : DirTree))) acc acc₁ := by
        rw [hentry]
        exact hadds₀.append (hadds₁.below hn)
      obtain ⟨acc', u, hrest, hadds⟩ := @htail acc₁ u₁ hadds₂
      refine ⟨acc', u, ?_, hadds₂.append hadds⟩
      refine bind_ok.mpr ⟨_, _, call_ok.mpr ⟨hl, rfl⟩, ?_⟩
      rw [relativeText_child] at hwalk
      exact bind_ok.mpr ⟨acc₁, u₁, hwalk, hrest⟩

theorem sortBy_names {names : List JsString} {cs : List (JsString × DirTree)}
    (hperm : names.Perm (cs.map Prod.fst)) (hn : (cs.map Prod.fst).Nodup) :
    sortBy id names = (inOrder cs).map Prod.fst := by
  have hleft : (sortBy id names).Perm names := List.perm_insertionSort _ names
  have hright : ((inOrder cs).map Prod.fst).Perm (cs.map Prod.fst) :=
    (List.perm_insertionSort _ cs).map _
  have hnodup : (sortBy id names).Nodup := (hleft.trans hperm).nodup_iff.mpr hn
  have hsorted : (sortBy id names).Pairwise fun a b => a < b := by
    refine ((sortBy_pairwise id names).and hnodup).imp ?_
    rintro a b ⟨hle, hne⟩
    rcases lt_trichotomy a b with hlt | heq | hgt
    · exact hlt
    · exact absurd heq hne
    · exact absurd hgt hle
  have horder : ((inOrder cs).map Prod.fst).Pairwise fun a b => a < b :=
    List.pairwise_map.mpr (NamedTree.inOrder_pairwise hn)
  refine List.Perm.eq_of_pairwise ?_ hsorted horder ((hleft.trans hperm).trans hright.symm)
  intro a b _ _ hab hba
  exact absurd (hab.trans hba) (lt_irrefl _)

/-- **The walk gathers the entries of the tree.** -/
theorem walk_shows {depth : ℕ} {directory rel : JsString} {T : DirTree}
    (hshow : Shows F directory T) (hdir : T.content = none) (hd : T.Distinct)
    (hle : T.depth ≤ depth) {acc : Walked} {t : ℕ} (hfits : Fits limits T.listing acc)
    (hsound : Sound T.listing) :
    ∃ acc' u, walk S (fun _ => F) limits depth directory rel acc t = .ok (acc', u) ∧
      Adds S rel T.listing acc acc' := by
  induction depth generalizing directory rel T acc t with
  | zero =>
    cases T with
    | leaf b => cases hdir
    | branch cs => exact absurd hle (by simp [NamedTree.depth])
  | succ depth ih =>
    cases hshow with
    | file => cases hdir
    | symbolicLink => cases hdir
    | other => cases hdir
    | directory hl hr hperm hc =>
      rename_i cs
      cases hd with | branch _ hn hdc =>
      rw [NamedTree.listing_branch] at hfits hsound ⊢
      have hmem : ∀ x ∈ inOrder cs, x ∈ cs := fun x hx => NamedTree.mem_inOrder.mp hx
      obtain ⟨acc', u, hwalk, hadds⟩ := @walkNames_shows S limits F
        (walk S (fun _ => F) limits depth) directory rel (inOrder cs)
        (fun x hx => hc x (hmem x hx))
        (fun x hx hdir acc t hfits hsound =>
          ih (hc x (hmem x hx)) hdir (hdc x (hmem x hx))
            (by
              have hmax := NamedTree.depth_le_depths (hmem x hx)
              rw [NamedTree.depth] at hle
              omega) hfits hsound) acc (t + 1) hfits hsound
      refine ⟨acc', u, ?_, hadds⟩
      refine bind_ok.mpr ⟨_, _, call_ok.mpr ⟨hr, rfl⟩, ?_⟩
      rw [sortBy_names hperm hn]
      exact hwalk

/-! ## Trees that are refused -/

/-- A loop that goes through has met no symbolic link and no special file. -/
theorem walkNames_regular {recurse : JsString → JsString → Walked → Load Walked}
    {directory rel : JsString} {ps : List (JsString × DirTree)}
    (hs : ∀ x ∈ ps, Shows F (PosixPath.join directory x.1) x.2)
    (hrec : ∀ x ∈ ps, ∀ r acc t acc' u,
      recurse (PosixPath.join directory x.1) r acc t = .ok (acc', u) → x.2.content = none →
        ∀ path b, x.2.Has path b → Regular b)
    {acc acc' : Walked} {t u : ℕ}
    (h : walkNames S (fun _ => F) limits recurse directory rel (ps.map Prod.fst) acc t =
      .ok (acc', u)) :
    ∀ x ∈ ps, Regular x.2.content ∧ ∀ path b, x.2.Has path b → Regular b := by
  induction ps generalizing acc t with
  | nil => exact fun x hx => absurd hx List.not_mem_nil
  | cons x ps ih =>
    obtain ⟨n, c⟩ := x
    rw [List.map_cons] at h
    obtain ⟨metadata, s, hmeta, h⟩ := bind_ok.mp h
    obtain ⟨hlstat, -⟩ := call_ok.mp hmeta
    have hnone {b : Leaf} (path : List JsString) (b' : Option Leaf)
        (hp : (NamedTree.leaf b : DirTree).Has path b') : Regular b' := nomatch hp
    have hrest {acc₁ : Walked} {t₁ : ℕ} := @ih (fun y hy => hs y (List.mem_cons_of_mem _ hy))
      (fun y hy => hrec y (List.mem_cons_of_mem _ hy)) acc₁ t₁
    have hself := hs _ List.mem_cons_self
    cases hself with
    | file hl hr =>
      rw [hl] at hlstat
      cases hlstat
      obtain ⟨-, s₁, -, h⟩ := bind_ok.mp h
      obtain ⟨at_, s₂, -, h⟩ := bind_ok.mp h
      obtain ⟨content, s₃, -, h⟩ := bind_ok.mp h
      obtain ⟨-, s₄, -, h⟩ := bind_ok.mp h
      intro x hx
      rcases List.mem_cons.mp hx with rfl | hx
      · refine ⟨?_, hnone⟩
        intro l he
        cases he
        exact ⟨_, _, rfl⟩
      · exact hrest h x hx
    | symbolicLink hl =>
      rw [hl] at hlstat
      cases hlstat
      exact nomatch (lift_ok.mp h).1
    | other hl =>
      rw [hl] at hlstat
      cases hlstat
      exact nomatch (lift_ok.mp h).1
    | directory hl hr hperm hc =>
      rename_i cs
      rw [hl] at hlstat
      cases hlstat
      obtain ⟨acc₁, s₁, hwalk, h⟩ := bind_ok.mp h
      intro x hx
      rcases List.mem_cons.mp hx with rfl | hx
      · refine ⟨?_, hrec _ List.mem_cons_self _ _ _ _ _ hwalk rfl⟩
        intro l he
        cases he
      · exact hrest h x hx

/-- A walk that goes through has met no symbolic link and no special file. -/
theorem walk_regular {depth : ℕ} {directory rel : JsString} {T : DirTree}
    (hshow : Shows F directory T) (hdir : T.content = none) (hd : T.Distinct)
    {acc acc' : Walked} {t u : ℕ}
    (h : walk S (fun _ => F) limits depth directory rel acc t = .ok (acc', u)) :
    ∀ path b, T.Has path b → Regular b := by
  induction depth generalizing directory rel T acc t acc' u with
  | zero => exact nomatch (lift_ok.mp h).1
  | succ depth ih =>
    cases hshow with
    | file => cases hdir
    | symbolicLink => cases hdir
    | other => cases hdir
    | directory hl hr hperm hc =>
      rename_i cs
      cases hd with | branch _ hn hdc =>
      obtain ⟨names', s, hread, h⟩ := bind_ok.mp h
      obtain ⟨hnames, -⟩ := call_ok.mp hread
      rw [hr] at hnames
      cases hnames
      rw [sortBy_names hperm hn] at h
      have hmem : ∀ x, x ∈ inOrder cs ↔ x ∈ cs := fun x => NamedTree.mem_inOrder
      have hall := walkNames_regular (fun x hx => hc x ((hmem x).mp hx))
        (fun x hx r acc t acc' u hw hdir =>
          ih (hc x ((hmem x).mp hx)) hdir (hdc x ((hmem x).mp hx)) hw) h
      intro path b hp
      cases hp with
      | child hx => exact (hall _ ((hmem _).mpr hx)).1
      | inside hx hb => exact (hall _ ((hmem _).mpr hx)).2 _ _ hb

/-! ## The digest -/

theorem byteCount_finite {n : ℕ} (h : n ≤ maxSafeInteger) : (byteCount n).IsFinite := by
  have hsmall : (n : ℚ) < 2 ^ 1023 := by
    calc (n : ℚ) ≤ (maxSafeInteger : ℕ) := by exact_mod_cast h
      _ < 2 ^ 53 := by norm_num [maxSafeInteger]
      _ ≤ 2 ^ 1023 := pow_le_pow_right₀ (by norm_num) (by norm_num)
  obtain ⟨x, hx⟩ := Option.isSome_iff_exists.mp (Double.round_isSome false hsmall)
  refine ⟨x, ?_⟩
  rw [byteCount, hx]

theorem canonicalSha256_listing (S : Sha256) {entries : List TreeEntry}
    (h : ∀ e ∈ entries, e.bytes ≤ maxSafeInteger) :
    ∃ sha256, Canonical.canonicalSha256 S.digest (listing entries) = .ok sha256 := by
  have hfinite : (listing entries).Finite := by
    change Canonical.EachElem _ _ (entries.map TreeEntry.value)
    rw [Canonical.eachElem_iff]
    intro x hx
    obtain ⟨e, he, rfl⟩ := List.mem_map.mp hx
    have hbytes := byteCount_finite (h e he)
    obtain ⟨path, executable, bytes, sha256⟩ := e
    cases sha256 with
    | none => exact ⟨⟨trivial, trivial⟩, ⟨trivial, trivial⟩, ⟨trivial, trivial⟩,
        ⟨trivial, hbytes⟩, trivial⟩
    | some d => exact ⟨⟨trivial, trivial⟩, ⟨trivial, trivial⟩, ⟨trivial, trivial⟩,
        ⟨trivial, hbytes⟩, ⟨trivial, trivial⟩, trivial⟩
  rw [Canonical.canonicalSha256,
    (Canonical.canonicalJson_ok_iff (listing_proper entries)).mpr ⟨hfinite, rfl⟩]
  exact ⟨_, rfl⟩

theorem treeEntry_bytes (S : Sha256) (rel : JsString) (x : Item) :
    (treeEntry S rel x).bytes = itemBytes x := by
  obtain ⟨path, b⟩ := x
  cases b with
  | none => rfl
  | some b => cases b <;> rfl

theorem itemBytes_le {l : List Item} {x : Item} (h : x ∈ l) : itemBytes x ≤ byteTotal l :=
  List.single_le_sum (fun _ _ => Nat.zero_le _) _ (List.mem_map_of_mem h)

theorem Laid.sound {treePath : JsString} {T : DirTree} (h : Laid F treePath T)
    (hr : ∀ path b, T.Has path b → Regular b) : Sound T.listing := by
  rintro ⟨path, b⟩ hx
  have hhas := (NamedTree.mem_listing T path b).mp hx
  exact ⟨hr path b hhas, h.names path b hhas⟩

/-- **The digest of a tree** is that of its entries. -/
theorem digestTreeResource_laid (S : Sha256) {treePath : JsString} {T : DirTree}
    (h : Laid F treePath T) (hw : Within limits T) (hr : ∀ path b, T.Has path b → Regular b)
    {depth : ℕ} (hle : T.depth ≤ depth) (t : ℕ) :
    ∃ d u, digestTreeResource S (fun _ => F) depth treePath limits t =
        .ok ((d, T.listing.map (treeEntry S [])), u) ∧
      Canonical.canonicalSha256 S.digest (listing (T.listing.map (treeEntry S []))) =
        .ok d.sha256 := by
  obtain ⟨root, hroot, hshow⟩ := h.root
  have hfits : Fits limits T.listing ⟨[], 0, 0, []⟩ := by
    refine ⟨?_, ?_⟩
    · rw [Nat.zero_add]
      exact hw.files
    · rw [Nat.zero_add]
      exact hw.bytes
  obtain ⟨acc, u, hwalk, hadds⟩ := @walk_shows S limits F depth root [] T hshow h.directory
    h.distinct hle ⟨[], 0, 0, []⟩ (t + 2) hfits (h.sound hr)
  have hentries : acc.entries = T.listing.map (treeEntry S []) := by
    rw [hadds.entries, List.nil_append]
  have hbytes : ∀ e ∈ T.listing.map (treeEntry S []), e.bytes ≤ maxSafeInteger := by
    intro e he
    obtain ⟨x, hx, rfl⟩ := List.mem_map.mp he
    rw [treeEntry_bytes]
    exact (itemBytes_le hx).trans (hw.bytes.trans hw.maxBytes.2)
  obtain ⟨sha256, hsha⟩ := canonicalSha256_listing S hbytes
  refine ⟨⟨⟨root, sha256⟩, acc.files, acc.bytes, acc.readings⟩, u, ?_, hsha⟩
  have hlstat : ∃ size executable, F.lstat root = .ok ⟨.directory, size, executable⟩ := by
    cases hshow with
    | file => cases h.directory
    | symbolicLink => cases h.directory
    | other => cases h.directory
    | directory hl => exact ⟨_, _, hl⟩
  obtain ⟨size, executable, hlstat⟩ := hlstat
  have hlimits : validateLimits limits t = .ok ((), t) := by
    refine bind_ok.mpr ⟨(), t, throwIf_ok.mpr ⟨?_, rfl⟩, throwIf_ok.mpr ⟨?_, rfl⟩⟩
    · have := hw.maxFiles
      omega
    · have := hw.maxBytes
      omega
  refine bind_ok.mpr ⟨(), t, hlimits, ?_⟩
  refine bind_ok.mpr ⟨root, t + 1, call_ok.mpr ⟨hroot, rfl⟩, ?_⟩
  refine bind_ok.mpr ⟨_, t + 2, call_ok.mpr ⟨hlstat, rfl⟩, ?_⟩
  refine bind_ok.mpr ⟨(), t + 2, throwIf_ok.mpr ⟨by simp, rfl⟩, ?_⟩
  refine bind_ok.mpr ⟨acc, u, hwalk, ?_⟩
  rw [← hentries] at hsha ⊢
  simp only [hsha]
  rfl

/-! ## What the digest names -/

theorem item_of_same (S : Sha256) {x y : Item} (hx : Regular x.2 ∧ PosixPath.Clean x.1)
    (hy : Regular y.2 ∧ PosixPath.Clean y.1) (hxne : x.1 ≠ []) (hyne : y.1 ≠ [])
    (h : Canonical.Same (treeEntry S [] x).value (treeEntry S [] y).value) : x = y := by
  obtain ⟨hpath, hexecutable, hsha⟩ := TreeEntry.of_same h
  have htext : ∀ z : Item, (treeEntry S [] z).path = relativeText [] z.1 := by
    rintro ⟨path, b⟩
    cases b with
    | none => rfl
    | some b => cases b <;> rfl
  rw [htext, htext] at hpath
  have hsame := relativeText_injective hxne hyne hx.2 hy.2 hpath
  obtain ⟨path, b⟩ := x
  obtain ⟨path', b'⟩ := y
  obtain rfl : path = path' := hsame
  congr 1
  cases b with
  | none =>
    cases b' with
    | none => rfl
    | some l' =>
      obtain ⟨executable', content', rfl⟩ := hy.1 l' rfl
      exact nomatch hsha
  | some l =>
    obtain ⟨executable, content, rfl⟩ := hx.1 l rfl
    cases b' with
    | none => exact nomatch hsha
    | some l' =>
      obtain ⟨executable', content', rfl⟩ := hy.1 l' rfl
      obtain rfl : executable = executable' := hexecutable
      rw [S.injective (Option.some.inj hsha)]

/-- **The digested value names every entry.** -/
theorem items_of_same (S : Sha256) {l m : List Item} (hl : Sound l) (hm : Sound m)
    (hlne : ∀ x ∈ l, x.1 ≠ []) (hmne : ∀ x ∈ m, x.1 ≠ [])
    (h : Canonical.Same (listing (l.map (treeEntry S []))) (listing (m.map (treeEntry S [])))) :
    l = m := by
  have hall := entries_of_same h
  rw [List.forall₂_map_left_iff, List.forall₂_map_right_iff] at hall
  clear h
  induction hall with
  | nil => rfl
  | @cons x y l m hsame _ ih =>
    rw [item_of_same S (hl x List.mem_cons_self) (hm y List.mem_cons_self)
        (hlne x List.mem_cons_self) (hmne y List.mem_cons_self) hsame,
      ih (fun z hz => hl z (List.mem_cons_of_mem _ hz))
        (fun z hz => hm z (List.mem_cons_of_mem _ hz))
        (fun z hz => hlne z (List.mem_cons_of_mem _ hz))
        (fun z hz => hmne z (List.mem_cons_of_mem _ hz))]

/-! ## Walks that end -/

/-- A loader that is not stopped for the depth of a tree. -/
def Ends {α : Type} (x : Load α) (t : ℕ) : Prop := x t ≠ .error .endless

theorem Ends.bind {α β : Type} {x : Load α} {f : α → Load β} {t : ℕ} (hx : Ends x t)
    (hf : ∀ a s, x t = .ok (a, s) → Ends (f a) s) : Ends (x >>= f) t := by
  change (x t >>= fun p => f p.1 p.2) ≠ _
  cases h : x t with
  | error e =>
    intro he
    obtain rfl : e = .endless := Except.error.inj he
    exact hx h
  | ok p => exact hf p.1 p.2 h

theorem ends_call {α : Type} {w : Schedule} {f : Files → Except SystemError α} {t : ℕ} :
    Ends (call w f) t := by
  unfold Ends call
  cases f (w t) with
  | error e => simp
  | ok a => simp

theorem ends_throwIf {c : Prop} [Decidable c] {e : LoadError} {t : ℕ} (he : e ≠ .endless) :
    Ends (throwIf c e) t := by
  unfold Ends throwIf
  split_ifs
  · simpa using he
  · simp

theorem ends_lift {α : Type} {x : Except LoadError α} {t : ℕ} (hx : x ≠ .error .endless) :
    Ends (lift x) t := by
  cases x with
  | error e =>
    intro he
    obtain rfl : e = .endless := Except.error.inj he
    exact hx rfl
  | ok a => exact nofun

/-- **The loop over the names of a directory** ends where the walks of its directories do. -/
theorem walkNames_ends {recurse : JsString → JsString → Walked → Load Walked}
    {directory rel : JsString} {ps : List (JsString × DirTree)}
    (hs : ∀ x ∈ ps, Shows F (PosixPath.join directory x.1) x.2)
    (hrec : ∀ x ∈ ps, x.2.content = none → ∀ r acc t,
      Ends (recurse (PosixPath.join directory x.1) r acc) t) (acc : Walked) (t : ℕ) :
    Ends (walkNames S (fun _ => F) limits recurse directory rel (ps.map Prod.fst) acc) t := by
  induction ps generalizing acc t with
  | nil => exact nofun
  | cons x ps ih =>
    obtain ⟨n, c⟩ := x
    have hrest := ih (fun y hy => hs y (List.mem_cons_of_mem _ hy))
      (fun y hy => hrec y (List.mem_cons_of_mem _ hy))
    have hself := hs _ List.mem_cons_self
    refine Ends.bind ends_call fun metadata s hmeta => ?_
    obtain ⟨hlstat, -⟩ := call_ok.mp hmeta
    cases hself with
    | file hl hr =>
      rw [hl] at hlstat
      cases hlstat
      refine Ends.bind (ends_throwIf nofun) fun _ _ _ => ?_
      refine Ends.bind nofun fun _ _ _ => ?_
      refine Ends.bind ends_call fun _ _ _ => ?_
      exact Ends.bind (ends_throwIf nofun) fun _ s _ => hrest _ s
    | symbolicLink hl =>
      rw [hl] at hlstat
      cases hlstat
      exact ends_lift nofun
    | other hl =>
      rw [hl] at hlstat
      cases hlstat
      exact ends_lift nofun
    | directory hl hr hperm hc =>
      rw [hl] at hlstat
      cases hlstat
      exact Ends.bind (hrec _ List.mem_cons_self rfl _ _ _) fun acc₁ s _ => hrest acc₁ s

/-- **The walk ends** where it may go as deep as the tree is. -/
theorem walk_ends {depth : ℕ} {directory rel : JsString} {T : DirTree}
    (hshow : Shows F directory T) (hdir : T.content = none) (hd : T.Distinct)
    (hle : T.depth ≤ depth) (acc : Walked) (t : ℕ) :
    Ends (walk S (fun _ => F) limits depth directory rel acc) t := by
  induction depth generalizing directory rel T acc t with
  | zero =>
    cases T with
    | leaf b => cases hdir
    | branch cs => exact absurd hle (by simp [NamedTree.depth])
  | succ depth ih =>
    cases hshow with
    | file => cases hdir
    | symbolicLink => cases hdir
    | other => cases hdir
    | directory hl hr hperm hc =>
      rename_i cs
      cases hd with | branch _ hn hdc =>
      have hmem : ∀ x ∈ inOrder cs, x ∈ cs := fun x hx => NamedTree.mem_inOrder.mp hx
      refine Ends.bind ends_call fun names' s hread => ?_
      obtain ⟨hnames, -⟩ := call_ok.mp hread
      rw [hr] at hnames
      cases hnames
      rw [sortBy_names hperm hn]
      refine walkNames_ends (fun x hx => hc x (hmem x hx)) (fun x hx hdir r acc t => ?_) acc s
      refine ih (hc x (hmem x hx)) hdir (hdc x (hmem x hx)) ?_ acc t
      have hmax := NamedTree.depth_le_depths (hmem x hx)
      rw [NamedTree.depth] at hle
      omega

/-! ## What the digest says -/

/-- The digest of a tree is computed. -/
def Digests (S : Sha256) (F : Files) (depth : ℕ) (treePath : JsString)
    (limits : ResourceDigestLimits) (t : ℕ) (d : DatedDigest) : Prop :=
  ∃ entries u, digestTreeResource S (fun _ => F) depth treePath limits t = .ok ((d, entries), u)

/-- The digest of a tree is refused. -/
def Rejects (S : Sha256) (F : Files) (depth : ℕ) (treePath : JsString)
    (limits : ResourceDigestLimits) (t : ℕ) : Prop :=
  ∃ e, e ≠ .endless ∧ digestTreeResource S (fun _ => F) depth treePath limits t = .error e

/-- A tree with something else than files and directories in it is refused. -/
theorem laid_rejects (S : Sha256) {treePath : JsString} {T : DirTree} (h : Laid F treePath T)
    {path : List JsString} {b : Option Leaf} (hb : T.Has path b) (hr : ¬ Regular b)
    (limits : ResourceDigestLimits) {depth : ℕ} (hle : T.depth ≤ depth) (t : ℕ) :
    Rejects S F depth treePath limits t := by
  obtain ⟨root, hroot, hshow⟩ := h.root
  have hends : Ends (digestTreeResource S (fun _ => F) depth treePath limits) t := by
    refine Ends.bind ?_ fun _ _ _ => ?_
    · exact Ends.bind (ends_throwIf nofun) fun _ _ _ => ends_throwIf nofun
    refine Ends.bind ends_call fun root' s hcall => ?_
    obtain rfl : root = root' := Except.ok.inj (hroot.symm.trans (call_ok.mp hcall).1)
    refine Ends.bind ends_call fun _ _ _ => ?_
    refine Ends.bind (ends_throwIf nofun) fun _ s _ => ?_
    refine Ends.bind (walk_ends hshow h.directory h.distinct hle _ s) fun acc s _ => ?_
    cases Canonical.canonicalSha256 S.digest (listing acc.entries) with
    | ok sha256 => exact nofun
    | error e => exact ends_lift nofun
  cases hd : digestTreeResource S (fun _ => F) depth treePath limits t with
  | error e => exact ⟨e, fun he => hends (he ▸ hd), hd⟩
  | ok r =>
    obtain ⟨-, t₁, -, hd⟩ := bind_ok.mp hd
    obtain ⟨root', t₂, hcall, hd⟩ := bind_ok.mp hd
    obtain rfl : root = root' := Except.ok.inj (hroot.symm.trans (call_ok.mp hcall).1)
    obtain ⟨metadata, t₃, -, hd⟩ := bind_ok.mp hd
    obtain ⟨-, t₄, -, hd⟩ := bind_ok.mp hd
    obtain ⟨acc, t₅, hwalk, hd⟩ := bind_ok.mp hd
    exact absurd (walk_regular hshow h.directory h.distinct hwalk path b hb) hr

/-- **Tree digest.** Of two trees of files and directories within the limits the digests are
computed, and they are equal exactly when the trees have the same at the same paths: directories,
and files with the same executable bit and content; a tree that has something else at any depth is
refused. -/
theorem treeDigest_iff (S : Sha256) {F₁ F₂ : Files} {path₁ path₂ : JsString} {T₁ T₂ : DirTree}
    (h₁ : Laid F₁ path₁ T₁) (h₂ : Laid F₂ path₂ T₂) :
    (∀ limits₁ limits₂, Within limits₁ T₁ → Within limits₂ T₂ →
      (∀ path b, T₁.Has path b → Regular b) → (∀ path b, T₂.Has path b → Regular b) →
      ∀ depth₁ depth₂ t₁ t₂, T₁.depth ≤ depth₁ → T₂.depth ≤ depth₂ →
        ∃ d₁ d₂, Digests S F₁ depth₁ path₁ limits₁ t₁ d₁ ∧
          Digests S F₂ depth₂ path₂ limits₂ t₂ d₂ ∧
          (d₁.sha256 = d₂.sha256 ↔ ∀ path b, T₁.Has path b ↔ T₂.Has path b)) ∧
    ∀ path b, T₁.Has path b → ¬ Regular b → ∀ limits depth t, T₁.depth ≤ depth →
      Rejects S F₁ depth path₁ limits t := by
  refine ⟨?_, fun path b hb hr limits depth t hle => laid_rejects S h₁ hb hr limits hle t⟩
  intro limits₁ limits₂ hw₁ hw₂ hr₁ hr₂ depth₁ depth₂ t₁ t₂ hle₁ hle₂
  obtain ⟨d₁, u₁, hd₁, hsha₁⟩ := digestTreeResource_laid S h₁ hw₁ hr₁ hle₁ t₁
  obtain ⟨d₂, u₂, hd₂, hsha₂⟩ := digestTreeResource_laid S h₂ hw₂ hr₂ hle₂ t₂
  refine ⟨d₁, d₂, ⟨_, u₁, hd₁⟩, ⟨_, u₂, hd₂⟩, ?_⟩
  rw [← NamedTree.listing_eq_iff h₁.distinct h₂.distinct]
  constructor
  · intro heq
    rw [← heq] at hsha₂
    exact items_of_same S (h₁.sound hr₁) (h₂.sound hr₂)
      (fun x hx => NamedTree.has_ne_nil ((NamedTree.mem_listing _ _ _).mp hx))
      (fun x hx => NamedTree.has_ne_nil ((NamedTree.mem_listing _ _ _).mp hx))
      (same_of_digest S hsha₁ hsha₂)
  · intro heq
    rw [heq] at hsha₁
    exact Except.ok.inj (hsha₁.symm.trans hsha₂)

/-- Bytes as code units, as a digest. -/
def plainSha256 : Sha256 where
  digest bytes := bytes.map fun b => b.toUInt16
  injective := List.map_injective_iff.mpr fun a b h => by
    have := congrArg UInt16.toNat h
    exact UInt8.toNat_inj.mp (by simpa using this)

/-- A directory at `/s` with a script and an empty directory in it. -/
def skillTree : DirTree :=
  .branch [(ofString "run", .leaf (.file true [104, 105])), (ofString "assets", .branch [])]

/-- The calls that show it, with the names in some order. -/
def skillFiles (names : List JsString) : Files where
  realpath p := .ok p
  lstat p :=
    if p = ofString "/s/run" then .ok ⟨.file, 2, true⟩
    else if p = ofString "/s/link" then .ok ⟨.symbolicLink, 3, true⟩
    else .ok ⟨.directory, 4096, true⟩
  readdir p := .ok (if p = ofString "/s" then names else [])
  readFile _ := .ok [104, 105]

theorem skillTree_laid {names : List JsString}
    (h : names.Perm [ofString "run", ofString "assets"]) :
    Laid (skillFiles names) (ofString "/s") skillTree where
  root := by
    refine ⟨ofString "/s", rfl, .directory rfl rfl h ?_⟩
    intro x hx
    rcases List.mem_pair.mp hx with rfl | rfl
    · exact .file rfl rfl
    · exact .directory rfl rfl (List.Perm.refl []) fun y hy => absurd hy List.not_mem_nil
  directory := rfl
  distinct := by
    refine .branch _ (by decide) fun x hx => ?_
    rcases List.mem_pair.mp hx with rfl | rfl
    · exact .leaf _
    · exact .branch _ List.nodup_nil fun y hy => absurd hy List.not_mem_nil
  names path b hb := by
    cases hb with
    | child hx =>
      rcases List.mem_pair.mp hx with he | he
      · cases he
        exact List.forall_mem_singleton.mpr (by decide)
      · cases he
        exact List.forall_mem_singleton.mpr (by decide)
    | inside hx hc =>
      rcases List.mem_pair.mp hx with he | he
      · cases he
        exact nomatch hc
      · cases he
        cases hc with
        | child hy => exact absurd hy List.not_mem_nil
        | inside hy _ => exact absurd hy List.not_mem_nil

/-- A directory at `/s` with a symbolic link in it. -/
def linkTree : DirTree := .branch [(ofString "link", .leaf .symbolicLink)]

theorem linkTree_laid : Laid (skillFiles [ofString "link"]) (ofString "/s") linkTree where
  root := by
    refine ⟨ofString "/s", rfl, .directory rfl rfl (List.Perm.refl _) ?_⟩
    exact List.forall_mem_singleton.mpr (.symbolicLink rfl)
  directory := rfl
  distinct := .branch _ (by decide) (List.forall_mem_singleton.mpr (.leaf _))
  names path b hb := by
    cases hb with
    | child hx =>
      cases List.mem_singleton.mp hx
      exact List.forall_mem_singleton.mpr (by decide)
    | inside hx hc =>
      cases List.mem_singleton.mp hx
      exact nomatch hc

/-- One directory, listed in two orders, has one digest; a directory with a link in it has none. -/
theorem treeDigest_orders :
    (∃ d₁ d₂, Digests plainSha256 (skillFiles [ofString "run", ofString "assets"]) 2
        (ofString "/s") ⟨10, 1000⟩ 0 d₁ ∧
      Digests plainSha256 (skillFiles [ofString "assets", ofString "run"]) 2 (ofString "/s")
        ⟨10, 1000⟩ 0 d₂ ∧ d₁.sha256 = d₂.sha256) ∧
    Rejects plainSha256 (skillFiles [ofString "link"]) 1 (ofString "/s") ⟨10, 1000⟩ 0 := by
  have hfirst := skillTree_laid (List.Perm.refl [ofString "run", ofString "assets"])
  have hsecond := skillTree_laid (List.Perm.swap (ofString "run") (ofString "assets") [])
  have hregular : ∀ path b, skillTree.Has path b → Regular b := by
    intro path b hb
    cases hb with
    | child hx =>
      rcases List.mem_pair.mp hx with he | he
      · cases he
        exact fun l hl => ⟨true, [104, 105], (Option.some.inj hl).symm⟩
      · cases he
        exact fun l hl => nomatch hl
    | inside hx hc =>
      rcases List.mem_pair.mp hx with he | he
      · cases he
        exact nomatch hc
      · cases he
        cases hc with
        | child hy => exact absurd hy List.not_mem_nil
        | inside hy _ => exact absurd hy List.not_mem_nil
  have hlisting : skillTree.listing =
      [([ofString "assets"], none), ([ofString "run"], some (.file true [104, 105]))] := by
    rfl
  have hwithin : Within ⟨10, 1000⟩ skillTree := by
    refine ⟨by decide, by decide, ?_, ?_⟩
    · rw [hlisting]
      decide
    · rw [hlisting]
      decide
  constructor
  · obtain ⟨d₁, d₂, hd₁, hd₂, hiff⟩ := (treeDigest_iff plainSha256 hfirst hsecond).1 ⟨10, 1000⟩
      ⟨10, 1000⟩ hwithin hwithin hregular hregular 2 2 0 0 (by decide) (by decide)
    exact ⟨d₁, d₂, hd₁, hd₂, hiff.mpr fun _ _ => Iff.rfl⟩
  · refine (treeDigest_iff plainSha256 linkTree_laid linkTree_laid).2 [ofString "link"]
      (some .symbolicLink) (.child List.mem_cons_self) ?_ ⟨10, 1000⟩ 1 0 (by decide)
    intro hr
    obtain ⟨_, _, he⟩ := hr .symbolicLink rfl
    cases he

end Preflight.Resources

end PiSubagent
