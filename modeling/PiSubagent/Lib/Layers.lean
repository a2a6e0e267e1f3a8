import Mathlib.Data.List.Induction
import Mathlib.Data.List.Nodup
import PiSubagent.Lib.OrderedMap

/-!
# Maps laid one over another

Elements are set under their keys one after another, in the order of their ranks.

* `setAll`: what is set later replaces what was set before.
* `Wins`: no element of the same key has a higher rank.
* **`get_setAll_iff`**: a key has the element that wins.
-/

namespace OrderedMap

variable {κ α : Type*} {key : α → κ} {rank : α → ℕ} {l : List α} {a b : α} {k : κ}

/-- No element of the same key has a higher rank. -/
def Wins (key : α → κ) (rank : α → ℕ) (l : List α) (a : α) : Prop :=
  a ∈ l ∧ ∀ b ∈ l, key b = key a → rank b ≤ rank a

theorem Wins.congr {l' : List α} (hmem : ∀ b, b ∈ l ↔ b ∈ l') :
    Wins key rank l a ↔ Wins key rank l' a := by
  unfold Wins
  rw [hmem]
  exact and_congr_right fun _ => forall_congr' fun b => by rw [hmem]

theorem wins_concat_of_ne (hne : key a ≠ key b) :
    Wins key rank (l ++ [b]) a ↔ Wins key rank l a := by
  have hab : a ≠ b := fun h => hne (congrArg key h)
  refine ⟨fun h => ⟨?_, fun c hc => h.2 c (List.mem_append_left _ hc)⟩,
    fun h => ⟨List.mem_append_left _ h.1, fun c hc hk => ?_⟩⟩
  · exact (List.mem_append.mp h.1).resolve_right fun h => hab (List.mem_singleton.mp h)
  · obtain hc | hc := List.mem_append.mp hc
    · exact h.2 c hc hk
    · rw [List.mem_singleton.mp hc] at hk
      exact absurd hk.symm hne

variable [DecidableEq κ]

/-- Elements set under their keys one after another. -/
def setAll (key : α → κ) (l : List α) (m : List (κ × α)) : List (κ × α) :=
  l.foldl (fun m a => set (key a) a m) m

theorem setAll_cons (m : List (κ × α)) :
    setAll key (a :: l) m = setAll key l (set (key a) a m) := rfl

theorem setAll_append (l' : List α) (m : List (κ × α)) :
    setAll key (l ++ l') m = setAll key l' (setAll key l m) := List.foldl_append

/-- **What a key has**: of elements in the order of their ranks, no two of which have the same key
and rank, the one that wins. -/
theorem get_setAll_iff (hsorted : l.Pairwise fun a b => rank a ≤ rank b)
    (hnodup : (l.map fun a => (key a, rank a)).Nodup) :
    get k (setAll key l []) = some a ↔ key a = k ∧ Wins key rank l a := by
  induction l using List.reverseRecOn with
  | nil => simp [setAll, get, Wins]
  | append_singleton l b ih =>
    rw [List.map_append, List.nodup_append'] at hnodup
    obtain ⟨hnodup, -, hfresh⟩ := hnodup
    rw [List.pairwise_append] at hsorted
    obtain ⟨hsorted, -, hlast⟩ := hsorted
    rw [setAll_append, setAll_cons, setAll, List.foldl_nil, get_set]
    split_ifs with hk
    · constructor
      · rintro ⟨⟩
        refine ⟨hk.symm, List.mem_append_right _ List.mem_cons_self, fun c hc _ => ?_⟩
        obtain hc | hc := List.mem_append.mp hc
        · exact hlast c hc _ List.mem_cons_self
        · exact (congrArg rank (List.mem_singleton.mp hc)).le
      · rintro ⟨hka, hmem, hmax⟩
        obtain hl | hb := List.mem_append.mp hmem
        · -- an element before the last of the same key would have its rank as well
          have hle := hlast a hl b List.mem_cons_self
          have hge := hmax b (List.mem_append_right _ List.mem_cons_self) (hk.symm.trans hka.symm)
          have hsame : (key a, rank a) = (key b, rank b) :=
            Prod.ext (hka.trans hk) (le_antisymm hle hge)
          exact absurd (List.mem_singleton.mpr hsame) fun hin =>
            hfresh (List.mem_map.mpr ⟨a, hl, rfl⟩) hin
        · rw [List.mem_singleton.mp hb]
    · rw [ih hsorted hnodup]
      refine and_congr_right fun hka => ?_
      rw [wins_concat_of_ne (hka.trans_ne hk)]

section

variable {β : Type*} (f : α → β)

theorem map_set (k : κ) (a : α) (m : List (κ × α)) :
    (set k a m).map (Prod.map id f) = set k (f a) (m.map (Prod.map id f)) := by
  induction m with
  | nil => rfl
  | cons e m ih =>
    rw [set, List.map_cons, set, Prod.map_fst, id]
    split_ifs with he
    · rfl
    · rw [List.map_cons, ih]

theorem get_map (k : κ) (m : List (κ × α)) :
    get k (m.map (Prod.map id f)) = (get k m).map f := by
  induction m with
  | nil => rfl
  | cons e m ih =>
    rw [List.map_cons, get, get, Prod.map_fst, id, ih]
    split_ifs <;> rfl

end

end OrderedMap
