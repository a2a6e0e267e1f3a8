import Mathlib.Data.List.Basic
import Mathlib.Order.Basic
import Mathlib.Order.MinMax
import Mathlib.Tactic.Common

/-!
# Maps in the order of insertion

A map is the list of its keys and values; a key that is set again keeps its place.

* `get`, `set`, `erase`, `keys`.
* `least`: every key with the least of its values (**`least_lt`**).
* `addLeast`: the same, one value at a time (`mem_keys_addAll`).
-/

namespace OrderedMap

variable {κ ν : Type*} [DecidableEq κ]

/-- The value of a key. -/
def get (k : κ) : List (κ × ν) → Option ν
  | [] => none
  | e :: m => if e.1 = k then some e.2 else get k m

/-- A key has another value, or is added at the end. -/
def set (k : κ) (v : ν) : List (κ × ν) → List (κ × ν)
  | [] => [(k, v)]
  | e :: m => if e.1 = k then (k, v) :: m else e :: set k v m

/-- The keys in their order. -/
def keys (m : List (κ × ν)) : List κ := m.map Prod.fst

@[simp] theorem get_set (k l : κ) (v : ν) (m : List (κ × ν)) :
    get l (set k v m) = if l = k then some v else get l m := by
  induction m with
  | nil =>
    by_cases h : l = k
    · simp [set, get, h]
    · simp [set, get, h, Ne.symm h]
  | cons e m ih =>
    by_cases he : e.1 = k
    · by_cases h : l = k
      · simp [set, get, he, h]
      · simp [set, get, he, h, Ne.symm h]
    · by_cases h : l = k
      · subst h
        simp [set, get, he, ih]
      · simp [set, get, he, h, ih]

@[simp] theorem mem_keys_set (k l : κ) (v : ν) (m : List (κ × ν)) :
    l ∈ keys (set k v m) ↔ l = k ∨ l ∈ keys m := by
  induction m with
  | nil => simp [set, keys]
  | cons e m ih =>
    by_cases he : e.1 = k
    · simp [set, keys, he]
    · simp only [keys, set, he, if_false, List.map_cons, List.mem_cons] at ih ⊢
      rw [ih]
      tauto

theorem set_of_notMem (k : κ) (v : ν) {m : List (κ × ν)} (h : k ∉ keys m) :
    set k v m = m ++ [(k, v)] := by
  induction m with
  | nil => rfl
  | cons e m ih =>
    have hne : e.1 ≠ k := fun he => h (he ▸ List.mem_cons_self)
    rw [set, if_neg hne, ih fun hm => h (List.mem_cons_of_mem _ hm), List.cons_append]

theorem eq_or_mem_of_mem_set {k : κ} {v : ν} {e : κ × ν} {m : List (κ × ν)} (h : e ∈ set k v m) :
    e = (k, v) ∨ e ∈ m := by
  induction m with
  | nil => exact .inl (List.mem_singleton.mp h)
  | cons f m ih =>
    rw [set] at h
    split at h
    · exact (List.mem_cons.mp h).imp_right (List.mem_cons_of_mem f)
    · rcases List.mem_cons.mp h with h | h
      · exact .inr (h ▸ List.mem_cons_self)
      · exact (ih h).imp_right (List.mem_cons_of_mem f)

theorem nodup_keys_set (k : κ) (v : ν) {m : List (κ × ν)} (h : (keys m).Nodup) :
    (keys (set k v m)).Nodup := by
  induction m with
  | nil => simp [set, keys]
  | cons e m ih =>
    obtain ⟨hnot, hm⟩ := List.nodup_cons.mp h
    by_cases he : e.1 = k
    · simpa [set, keys, he] using h
    · have hset : keys (set k v (e :: m)) = e.1 :: keys (set k v m) := by
        simp [set, keys, he]
      rw [hset]
      refine List.nodup_cons.mpr ⟨?_, ih hm⟩
      rw [mem_keys_set]
      rintro (hk | hmem)
      · exact he hk
      · exact hnot hmem

theorem mem_keys_iff_get (k : κ) (m : List (κ × ν)) : k ∈ keys m ↔ ∃ v, get k m = some v := by
  induction m with
  | nil => simp [keys, get]
  | cons e m ih =>
    by_cases he : e.1 = k
    · simp [keys, get, he]
    · simp only [keys, get, he, if_false, List.map_cons, List.mem_cons] at ih ⊢
      rw [← ih]
      exact ⟨fun h => h.resolve_left (Ne.symm he), Or.inr⟩

/-- An element of a map whose keys are different is what its key has. -/
theorem get_of_mem {m : List (κ × ν)} (h : (keys m).Nodup) {k : κ} {v : ν} (hm : (k, v) ∈ m) :
    get k m = some v := by
  induction m with
  | nil => cases hm
  | cons e m ih =>
    obtain ⟨hnot, hnodup⟩ := List.nodup_cons.mp h
    rcases List.mem_cons.mp hm with rfl | hm
    · simp [get]
    · have hne : e.1 ≠ k := by
        rintro rfl
        exact hnot (List.mem_map.mpr ⟨_, hm, rfl⟩)
      simp [get, hne, ih hnodup hm]

theorem mem_of_get {m : List (κ × ν)} {k : κ} {v : ν} (h : get k m = some v) : (k, v) ∈ m := by
  induction m with
  | nil => cases h
  | cons e m ih =>
    by_cases he : e.1 = k
    · simp only [get, he, if_true, Option.some.injEq] at h
      exact List.mem_cons.mpr (Or.inl (Prod.ext he.symm h.symm))
    · simp only [get, he, if_false] at h
      exact List.mem_cons_of_mem _ (ih h)

theorem perm_filter_ne {m : List (κ × ν)} (h : (keys m).Nodup) {k : κ} {v : ν} (hm : (k, v) ∈ m) :
    m.Perm (m.filter (fun e => e.1 ≠ k) ++ [(k, v)]) := by
  induction m with
  | nil => cases hm
  | cons e m ih =>
    obtain ⟨hnot, hnodup⟩ := List.nodup_cons.mp h
    by_cases he : e.1 = k
    · subst he
      have hrest : (e :: m).filter (fun f => f.1 ≠ e.1) = m := by
        rw [List.filter_cons_of_neg (by simp)]
        apply List.filter_eq_self.mpr
        intro f hf
        rw [decide_eq_true_eq]
        intro hfe
        exact hnot (hfe ▸ List.mem_map.mpr ⟨f, hf, rfl⟩)
      have hev : (e.1, v) = e := by
        apply ((List.mem_cons.mp hm).resolve_right _)
        exact fun hm => hnot (List.mem_map.mpr ⟨_, hm, rfl⟩)
      rw [hrest, hev]
      exact (List.perm_append_singleton e m).symm
    · have hm' : (k, v) ∈ m := by
        apply (List.mem_cons.mp hm).resolve_left
        rintro rfl
        exact he rfl
      rw [List.filter_cons_of_pos (by simpa using he)]
      exact (ih hnodup hm').cons e

theorem mem_keys_filter {m : List (κ × ν)} (h : (keys m).Nodup) (k : κ) (p : ν → Bool) :
    k ∈ keys (m.filter fun e => p e.2) ↔ ∃ v, get k m = some v ∧ p v = true := by
  constructor
  · intro hk
    obtain ⟨e, he, rfl⟩ := List.mem_map.mp hk
    obtain ⟨hmem, hp⟩ := List.mem_filter.mp he
    exact ⟨e.2, get_of_mem h hmem, hp⟩
  · rintro ⟨v, hget, hp⟩
    exact List.mem_map.mpr ⟨(k, v), List.mem_filter.mpr ⟨mem_of_get hget, hp⟩, rfl⟩

/-- The map without a key. -/
def erase (k : κ) (m : List (κ × ν)) : List (κ × ν) := m.filter fun e => e.1 ≠ k

@[simp] theorem get_erase (k l : κ) (m : List (κ × ν)) :
    get l (erase k m) = if l = k then none else get l m := by
  induction m with
  | nil => simp [erase, get]
  | cons e m ih =>
    unfold erase at ih ⊢
    by_cases he : e.1 = k
    · rw [List.filter_cons_of_neg (by simp [he]), ih]
      by_cases h : l = k
      · simp [h]
      · simp [get, he, h, Ne.symm h]
    · rw [List.filter_cons_of_pos (by simp [he])]
      by_cases h : e.1 = l
      · have hl : l ≠ k := h ▸ he
        simp [get, h, hl]
      · rw [get, if_neg h, ih, get, if_neg h]

theorem nodup_keys_erase (k : κ) {m : List (κ × ν)} (h : (keys m).Nodup) :
    (keys (erase k m)).Nodup := h.sublist (List.filter_sublist.map _)

theorem mem_keys_setAll (k : κ) (v : ν) (ks : List κ) (m : List (κ × ν)) :
    k ∈ keys (ks.foldl (fun m l => set l v m) m) ↔ k ∈ ks ∨ k ∈ keys m := by
  induction ks generalizing m with
  | nil => simp
  | cons l ks ih =>
    rw [List.foldl_cons, ih, mem_keys_set, List.mem_cons]
    tauto

/-! ## Least values -/

variable [LinearOrder ν]

/-- Every key has the least of its values. -/
def least (m : List (κ × ν)) (found : List (κ × ν)) : List (κ × ν) :=
  found.foldl (fun m e => set e.1 (min ((get e.1 m).getD e.2) e.2) m) m

theorem nodup_least {m : List (κ × ν)} (h : (keys m).Nodup) (found : List (κ × ν)) :
    (keys (least m found)).Nodup := by
  induction found generalizing m with
  | nil => exact h
  | cons e found ih => exact ih (nodup_keys_set _ _ h)

/-- **A key has a value below a bound exactly when one of its values is.** -/
theorem least_lt (m found : List (κ × ν)) (k : κ) (n : ν) :
    (∃ v, get k (least m found) = some v ∧ v < n) ↔
      (∃ v, get k m = some v ∧ v < n) ∨ ∃ e ∈ found, e.1 = k ∧ e.2 < n := by
  induction found generalizing m with
  | nil => simp [least]
  | cons e found ih =>
    have hleast : least m (e :: found) =
        least (set e.1 (min ((get e.1 m).getD e.2) e.2) m) found := rfl
    rw [hleast, ih]
    simp only [get_set, List.mem_cons, exists_eq_or_imp]
    by_cases hk : k = e.1
    · subst hk
      cases hg : get e.1 m with
      | none => simp
      | some v => simp [or_assoc]
    · simp [hk, Ne.symm hk]

/-- A value joins the values of its key. -/
def addLeast (k : κ) (v : ν) (m : List (κ × ν)) : List (κ × ν) :=
  match get k m with
  | none => set k v m
  | some current => if v < current then set k v m else m

/-- Values join the values of their keys one by one. -/
def addAll (m found : List (κ × ν)) : List (κ × ν) :=
  found.foldl (fun m e => addLeast e.1 e.2 m) m

theorem mem_keys_addLeast (k l : κ) (v : ν) (m : List (κ × ν)) :
    l ∈ keys (addLeast k v m) ↔ l = k ∨ l ∈ keys m := by
  unfold addLeast
  cases hg : get k m with
  | none => exact mem_keys_set k l v m
  | some current =>
    dsimp only
    split
    · exact mem_keys_set k l v m
    · have hk : k ∈ keys m := (mem_keys_iff_get k m).mpr ⟨current, hg⟩
      exact ⟨Or.inr, fun h => h.elim (fun he => he ▸ hk) id⟩

theorem mem_keys_addAll (m found : List (κ × ν)) (k : κ) :
    k ∈ keys (addAll m found) ↔ k ∈ keys m ∨ k ∈ keys found := by
  induction found generalizing m with
  | nil => simp [addAll, keys]
  | cons e found ih =>
    have hadd : addAll m (e :: found) = addAll (addLeast e.1 e.2 m) found := rfl
    rw [hadd, ih, mem_keys_addLeast]
    simp only [keys, List.map_cons, List.mem_cons]
    tauto

end OrderedMap
