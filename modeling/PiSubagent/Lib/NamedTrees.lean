import Mathlib.Data.List.Lex
import Mathlib.Data.List.Sort
import Mathlib.Tactic.Common

/-!
# Trees with named children

* `NamedTree κ β`: a leaf, or children with names.
* `NamedTree.Has`: what stands at a path; a path is a list of names.
* `NamedTree.listing`: the tree depth first, the children in the order of their names.
* **`NamedTree.listing_eq_iff`**: where no two children of one parent have one name, the listing
  depends on what stands at which path alone, and determines it.
-/

/-- A leaf, or children with names. -/
inductive NamedTree (κ β : Type) where
  | leaf (b : β)
  | branch (children : List (κ × NamedTree κ β))

namespace NamedTree

variable {κ β : Type}

theorem sizeOf_child {x : κ × NamedTree κ β} {cs : List (κ × NamedTree κ β)} (h : x ∈ cs) :
    sizeOf x.2 < 1 + sizeOf cs := by
  have hmem := List.sizeOf_lt_of_mem h
  obtain ⟨n, c⟩ := x
  simp only [Prod.mk.sizeOf_spec] at *
  omega

/-- What holds of every leaf, and of a tree when it holds of its children. -/
@[elab_as_elim, induction_eliminator]
theorem induction {motive : NamedTree κ β → Prop} (leaf : ∀ b, motive (.leaf b))
    (branch : ∀ cs, (∀ x ∈ cs, motive x.2) → motive (.branch cs)) (t : NamedTree κ β) : motive t :=
  match t with
  | .leaf b => leaf b
  | .branch cs => branch cs fun x hx =>
      have := sizeOf_child hx
      induction leaf branch x.2
termination_by sizeOf t

/-- A leaf's content; a tree with children has none. -/
def content : NamedTree κ β → Option β
  | .leaf b => some b
  | .branch _ => none

/-- What stands at a path below the root. -/
inductive Has : NamedTree κ β → List κ → Option β → Prop
  | child {cs : List (κ × NamedTree κ β)} {n : κ} {c : NamedTree κ β} (h : (n, c) ∈ cs) :
      Has (.branch cs) [n] c.content
  | inside {cs : List (κ × NamedTree κ β)} {n : κ} {c : NamedTree κ β} {path : List κ}
      {b : Option β} (h : (n, c) ∈ cs) (hc : Has c path b) : Has (.branch cs) (n :: path) b

theorem has_ne_nil {t : NamedTree κ β} {path : List κ} {b : Option β} (h : t.Has path b) :
    path ≠ [] := by
  cases h <;> exact List.cons_ne_nil _ _

/-- No two children of one parent have one name. -/
inductive Distinct : NamedTree κ β → Prop
  | leaf (b : β) : Distinct (.leaf b)
  | branch (cs : List (κ × NamedTree κ β)) (hn : (cs.map Prod.fst).Nodup)
      (hc : ∀ x ∈ cs, Distinct x.2) : Distinct (.branch cs)

mutual

/-- The number of names on a longest path. -/
def depth : NamedTree κ β → ℕ
  | .leaf _ => 0
  | .branch cs => depths cs + 1

/-- The depth of the deepest child. -/
def depths : List (κ × NamedTree κ β) → ℕ
  | [] => 0
  | (_, c) :: cs => max c.depth (depths cs)

end

theorem depth_le_depths {x : κ × NamedTree κ β} {cs : List (κ × NamedTree κ β)} (h : x ∈ cs) :
    x.2.depth ≤ depths cs := by
  induction cs with
  | nil => exact absurd h List.not_mem_nil
  | cons y cs ih =>
    obtain ⟨n, c⟩ := y
    rw [depths]
    rcases List.mem_cons.mp h with rfl | h
    · exact le_max_left _ _
    · exact (ih h).trans (le_max_right _ _)

variable [LinearOrder κ]

mutual

/-- The tree depth first, the children in the order of their names. -/
def listing : NamedTree κ β → List (List κ × Option β)
  | .leaf _ => []
  | .branch cs =>
    ((blocks cs).insertionSort fun a b => a.1 ≤ b.1).flatMap fun block =>
      ([block.1], block.2.1) :: block.2.2.map fun x => (block.1 :: x.1, x.2)

/-- The children with their listings. -/
def blocks : List (κ × NamedTree κ β) → List (κ × Option β × List (List κ × Option β))
  | [] => []
  | (n, c) :: cs => (n, c.content, c.listing) :: blocks cs

end

theorem blocks_eq (cs : List (κ × NamedTree κ β)) :
    blocks cs = cs.map fun x => (x.1, x.2.content, x.2.listing) := by
  induction cs with
  | nil => rfl
  | cons x cs ih =>
    obtain ⟨n, c⟩ := x
    rw [blocks, ih, List.map_cons]

/-- The children in the order of their names. -/
def inOrder (cs : List (κ × NamedTree κ β)) : List (κ × NamedTree κ β) :=
  cs.insertionSort fun a b => a.1 ≤ b.1

/-- A child and what is below it. -/
def entry (x : κ × NamedTree κ β) : List (List κ × Option β) :=
  ([x.1], x.2.content) :: x.2.listing.map fun y => (x.1 :: y.1, y.2)

theorem listing_branch (cs : List (κ × NamedTree κ β)) :
    listing (.branch cs) = (inOrder cs).flatMap entry := by
  rw [listing, blocks_eq, inOrder,
    ← List.map_insertionSort (r := fun a b : κ × NamedTree κ β => a.1 ≤ b.1)
      (s := fun a b : κ × Option β × List (List κ × Option β) => a.1 ≤ b.1)
      (fun x => (x.1, x.2.content, x.2.listing)) cs fun _ _ _ _ => Iff.rfl, List.flatMap_map]
  rfl

theorem mem_inOrder {x : κ × NamedTree κ β} {cs : List (κ × NamedTree κ β)} :
    x ∈ inOrder cs ↔ x ∈ cs := List.mem_insertionSort _

theorem mem_entry {x : κ × NamedTree κ β} {path : List κ} {b : Option β} :
    (path, b) ∈ entry x ↔
      (path = [x.1] ∧ b = x.2.content) ∨ ∃ rest, path = x.1 :: rest ∧ (rest, b) ∈ x.2.listing := by
  rw [entry, List.mem_cons, Prod.mk.injEq, List.mem_map]
  constructor
  · rintro (h | ⟨⟨rest, b'⟩, hy, he⟩)
    · exact Or.inl h
    · obtain ⟨rfl, rfl⟩ := Prod.mk.injEq _ _ _ _ ▸ he
      exact Or.inr ⟨rest, rfl, hy⟩
  · rintro (h | ⟨rest, rfl, hy⟩)
    · exact Or.inl h
    · exact Or.inr ⟨(rest, b), hy, rfl⟩

/-- **The listing names what the tree has.** -/
theorem mem_listing (t : NamedTree κ β) (path : List κ) (b : Option β) :
    (path, b) ∈ t.listing ↔ t.Has path b := by
  induction t generalizing path b with
  | leaf b' =>
    refine iff_of_false ?_ (by rintro ⟨⟩)
    rw [listing]
    exact List.not_mem_nil
  | branch cs ih =>
    rw [listing_branch, List.mem_flatMap]
    constructor
    · rintro ⟨⟨n, c⟩, hx, hp⟩
      have hmem := mem_inOrder.mp hx
      rcases mem_entry.mp hp with ⟨rfl, rfl⟩ | ⟨rest, rfl, hr⟩
      · exact .child hmem
      · exact .inside hmem ((ih _ hmem rest b).mp hr)
    · rintro (⟨h⟩ | ⟨h, hc⟩)
      · exact ⟨_, mem_inOrder.mpr h, mem_entry.mpr (Or.inl ⟨rfl, rfl⟩)⟩
      · exact ⟨_, mem_inOrder.mpr h, mem_entry.mpr (Or.inr ⟨_, rfl, (ih _ h _ _).mpr hc⟩)⟩

/-! ## The order of the listing -/

theorem inOrder_pairwise {cs : List (κ × NamedTree κ β)} (hn : (cs.map Prod.fst).Nodup) :
    (inOrder cs).Pairwise fun a b => a.1 < b.1 := by
  have hle : (inOrder cs).Pairwise fun a b => a.1 ≤ b.1 :=
    List.pairwise_insertionSort (fun a b : κ × NamedTree κ β => a.1 ≤ b.1) cs
  have hne : (inOrder cs).Pairwise fun a b => a.1 ≠ b.1 := by
    have hperm : ((inOrder cs).map Prod.fst).Perm (cs.map Prod.fst) :=
      (List.perm_insertionSort _ cs).map _
    exact List.pairwise_map.mp (hperm.nodup_iff.mpr hn)
  exact (hle.and hne).imp fun h => lt_of_le_of_ne h.1 h.2

/-- A parent comes before its children, and children come in the order of their names. -/
theorem listing_pairwise {t : NamedTree κ β} (h : t.Distinct) :
    t.listing.Pairwise fun a b => a.1 < b.1 := by
  induction t with
  | leaf b =>
    rw [listing]
    exact List.Pairwise.nil
  | branch cs ih =>
    cases h with | branch _ hn hc =>
    rw [listing_branch, List.pairwise_flatMap]
    constructor
    · intro x hx
      have hmem := mem_inOrder.mp hx
      rw [entry, List.pairwise_cons]
      constructor
      · intro y hy
        obtain ⟨⟨path, b⟩, hz, rfl⟩ := List.mem_map.mp hy
        have hpath : path ≠ [] := has_ne_nil ((mem_listing _ _ _).mp hz)
        obtain ⟨n, rest, rfl⟩ := List.exists_cons_of_ne_nil hpath
        exact List.cons_lt_cons_iff.mpr (Or.inr ⟨rfl, List.nil_lt_cons n rest⟩)
      · rw [List.pairwise_map]
        refine (ih x hmem (hc x hmem)).imp fun hlt => ?_
        exact List.cons_lt_cons_iff.mpr (Or.inr ⟨rfl, hlt⟩)
    · refine (inOrder_pairwise hn).imp fun hlt => ?_
      rintro ⟨p, b⟩ hp ⟨q, b'⟩ hq
      have hhead : ∀ {x : κ × NamedTree κ β} {path : List κ} {b : Option β},
          (path, b) ∈ entry x → ∃ rest, path = x.1 :: rest := by
        intro x path b hm
        rcases mem_entry.mp hm with ⟨rfl, -⟩ | ⟨rest, rfl, -⟩
        · exact ⟨[], rfl⟩
        · exact ⟨rest, rfl⟩
      obtain ⟨r, rfl⟩ := hhead hp
      obtain ⟨r', rfl⟩ := hhead hq
      exact List.cons_lt_cons_iff.mpr (Or.inl hlt)

/-- **Two listings are equal exactly when the trees have the same at the same paths.** -/
theorem listing_eq_iff {t u : NamedTree κ β} (ht : t.Distinct) (hu : u.Distinct) :
    t.listing = u.listing ↔ ∀ path b, t.Has path b ↔ u.Has path b := by
  constructor
  · intro h path b
    rw [← mem_listing, ← mem_listing, h]
  · intro h
    have hmem : ∀ x, x ∈ t.listing ↔ x ∈ u.listing := by
      rintro ⟨path, b⟩
      rw [mem_listing, mem_listing]
      exact h path b
    have hpt := listing_pairwise ht
    have hpu := listing_pairwise hu
    have hnodup : ∀ {l : List (List κ × Option β)}, (l.Pairwise fun a b => a.1 < b.1) → l.Nodup :=
      fun hl => hl.imp fun hlt he => by
        rw [he] at hlt
        exact absurd hlt (lt_irrefl _)
    have hperm : t.listing.Perm u.listing :=
      (List.perm_ext_iff_of_nodup (hnodup hpt) (hnodup hpu)).mpr hmem
    refine List.Perm.eq_of_pairwise ?_ hpt hpu hperm
    intro a b _ _ hab hba
    exact absurd (hab.trans hba) (lt_irrefl _)

end NamedTree
