import PiSubagent.Lib.Git
import Mathlib.Data.Set.Card
import Mathlib.Logic.Relation

/-!
# The history of a Git repository

* `IsParent`, `Reaches`: the parents of a commit, and its ancestors.
* `range`: the commits of `base..tip`.
* `Complete`: every parent is there.
* **`Extends.reaches_iff`**: new commits do not change what a commit reaches.
* **`range_child`**: the range from a commit to a later child of it is the child alone.
-/

namespace Git

namespace Repository

variable {ι τ ρ π : Type} {r r' : Repository ι τ ρ π} {a b c : ι}

/-- A commit has another one as a parent. -/
def IsParent (r : Repository ι τ ρ π) (child parent : ι) : Prop :=
  ∃ commit, r.commits child = some commit ∧ parent ∈ commit.parents

/-- A commit, its parents, and so on. -/
def Reaches (r : Repository ι τ ρ π) : ι → ι → Prop := Relation.ReflTransGen r.IsParent

/-- The commits of `base..tip`: those that the tip reaches and the base does not. -/
def range (r : Repository ι τ ρ π) (base tip : ι) : Set ι :=
  {c | r.Reaches tip c ∧ ¬ r.Reaches base c}

/-- Every parent of a commit is there. -/
def Complete (r : Repository ι τ ρ π) : Prop :=
  ∀ child parent, r.IsParent child parent → (r.commits parent).isSome = true

theorem reaches_refl (a : ι) : r.Reaches a a := Relation.ReflTransGen.refl

theorem Complete.isSome (h : r.Complete) (ha : (r.commits a).isSome = true)
    (hreach : r.Reaches a c) : (r.commits c).isSome = true := by
  induction hreach with
  | refl => exact ha
  | tail _ hparent _ => exact h _ _ hparent

theorem Extends.isParent (h : Extends r r') (hparent : r.IsParent a b) : r'.IsParent a b := by
  obtain ⟨commit, hcommit, hmem⟩ := hparent
  exact ⟨commit, h a commit hcommit, hmem⟩

theorem Extends.isParent_of (h : Extends r r') (ha : (r.commits a).isSome = true)
    (hparent : r'.IsParent a b) : r.IsParent a b := by
  obtain ⟨commit, hcommit, hmem⟩ := hparent
  obtain ⟨old, hold⟩ := Option.isSome_iff_exists.mp ha
  have hsame : commit = old := Option.some.inj (hcommit.symm.trans (h a old hold))
  subst hsame
  exact ⟨commit, hold, hmem⟩

/-- **New commits do not change what a commit reaches.** -/
theorem Extends.reaches_iff (h : Extends r r') (hcomplete : r.Complete)
    (ha : (r.commits a).isSome = true) : r'.Reaches a c ↔ r.Reaches a c := by
  constructor
  · intro hreach
    induction hreach with
    | refl => exact reaches_refl a
    | tail _ hparent ih => exact ih.tail (h.isParent_of (hcomplete.isSome ha ih) hparent)
  · intro hreach
    induction hreach with
    | refl => exact reaches_refl a
    | tail _ hparent ih => exact ih.tail (h.isParent hparent)

/-- What a commit with one parent reaches: itself, and what its parent reaches. -/
theorem reaches_child {tree : τ} (hc : r.commits c = some ⟨tree, [b]⟩) :
    r.Reaches c a ↔ a = c ∨ r.Reaches b a := by
  constructor
  · intro hreach
    rcases Relation.ReflTransGen.cases_head hreach with rfl | ⟨p, ⟨commit, hcommit, hmem⟩, hrest⟩
    · exact Or.inl rfl
    · rw [hc] at hcommit
      cases hcommit
      rw [List.mem_singleton] at hmem
      subst hmem
      exact Or.inr hrest
  · rintro (rfl | hreach)
    · exact reaches_refl a
    · exact Relation.ReflTransGen.head ⟨_, hc, List.mem_singleton.mpr rfl⟩ hreach

/-- **The range from a commit to a later child of it is the child alone.** -/
theorem range_child {tree : τ} (hc : r.commits c = some ⟨tree, [b]⟩) (hnot : ¬ r.Reaches b c) :
    r.range b c = {c} := by
  ext a
  show (r.Reaches c a ∧ ¬ r.Reaches b a) ↔ a ∈ ({c} : Set ι)
  rw [reaches_child hc, Set.mem_singleton_iff]
  constructor
  · rintro ⟨rfl | hreach, hb⟩
    · rfl
    · exact absurd hreach hb
  · rintro rfl
    exact ⟨Or.inl rfl, hnot⟩

/-- A commit that was made later is not reached from one that was there. -/
theorem Extends.not_reaches (h : Extends r r') (hcomplete : r.Complete)
    (ha : (r.commits a).isSome = true) (hc : r.commits c = none) : ¬ r'.Reaches a c := by
  intro hreach
  have hthere := hcomplete.isSome ha ((h.reaches_iff hcomplete ha).mp hreach)
  rw [hc] at hthere
  cases hthere

end Repository

end Git
