import Mathlib.Data.List.Basic
import Mathlib.Tactic.Common

/-!
# Pages of a list

* `Page.slice`: the page of a list at an offset, with the cursor of the next one.
* `Follows`: the pages of a reader who follows the cursors, each read on its own.
* **`Follows.exists_of_slices`**: the pages tile the list from where the first one begins, whatever
  their limits are, and their number is finite.
-/

/-- A page, and the cursor of the next one. -/
structure Page (κ α : Type) where
  items : List α
  next : Option κ
  total : ℕ
deriving DecidableEq, Repr

section

variable {κ α β ε : Type}

/-- The page of a list at an offset; there is a next one where the list goes on behind it. -/
def Page.slice (key : ℕ → κ) (l : List α) (offset limit : ℕ) : Page κ α :=
  let items := (l.drop offset).take limit
  let next := offset + items.length
  ⟨items, if next < l.length then some (key next) else none, l.length⟩

/-- The page behind what a reader has got of a list goes on with it, to the end of the list if it is
the last one. -/
theorem Page.slice_continues (key : ℕ → κ) {l got : List α} {start : ℕ} (limit : ℕ)
    (h : got <+: l.drop start) (hle : start + got.length ≤ l.length) :
    got ++ (Page.slice key l (start + got.length) limit).items <+: l.drop start ∧
      ((Page.slice key l (start + got.length) limit).next = none →
        got ++ (Page.slice key l (start + got.length) limit).items = l.drop start) ∧
      ∀ k, (Page.slice key l (start + got.length) limit).next = some k →
        k = key (start + (got ++ (Page.slice key l (start + got.length) limit).items).length) ∧
          start + (got ++ (Page.slice key l (start + got.length) limit).items).length <
            l.length := by
  obtain ⟨rest, hrest⟩ := h
  have hdrop : l.drop (start + got.length) = rest := by
    rw [← List.drop_drop, ← hrest, List.drop_left]
  have hlength : start + got.length + rest.length = l.length := by
    rw [← hdrop, List.length_drop]
    omega
  unfold Page.slice
  dsimp only
  rw [hdrop, ← hrest]
  refine ⟨(List.prefix_append_right_inj got).mpr <| List.take_prefix limit rest, ?_, ?_⟩
  · intro hn
    rw [ite_eq_right_iff] at hn
    have hend : ¬ start + got.length + (rest.take limit).length < l.length := fun hlt =>
      absurd (hn hlt) (Option.some_ne_none _)
    rw [List.length_take] at hend
    rw [List.take_of_length_le (by omega)]
  · intro k hk
    rw [Option.ite_none_right_eq_some] at hk
    obtain ⟨hlt, hk⟩ := hk
    rw [List.length_append, ← Nat.add_assoc]
    exact ⟨(Option.some.inj hk).symm, hlt⟩

/-- The pages of a reader who follows the cursors; `read i` answers the page that is read as the
`i`-th. -/
inductive Follows (read : ℕ → Option κ → Except ε (Page κ α)) :
    ℕ → Option κ → List (Page κ α) → Prop
  | last {i : ℕ} {cursor : Option κ} {p : Page κ α} (h : read i cursor = .ok p)
      (hn : p.next = none) : Follows read i cursor [p]
  | more {i : ℕ} {cursor : Option κ} {p : Page κ α} {k : κ} {ps : List (Page κ α)}
      (h : read i cursor = .ok p) (hn : p.next = some k) (hr : Follows read (i + 1) (some k) ps) :
      Follows read i cursor (p :: ps)

namespace Follows

variable {read : ℕ → Option κ → Except ε (Page κ α)} {i : ℕ} {cursor : Option κ}

theorem unique {ps qs : List (Page κ α)} (h : Follows read i cursor ps)
    (h' : Follows read i cursor qs) : ps = qs := by
  induction h generalizing qs with
  | last hp hn =>
    cases h' with
    | last hq _ => rw [Except.ok.inj (hp.symm.trans hq)]
    | more hq hn' _ =>
      rw [← Except.ok.inj (hp.symm.trans hq), hn] at hn'
      cases hn'
  | more hp hn _ ih =>
    cases h' with
    | last hq hn' =>
      rw [← Except.ok.inj (hp.symm.trans hq), hn] at hn'
      cases hn'
    | more hq hn' hr =>
      have hpage := Except.ok.inj (hp.symm.trans hq)
      rw [← hpage, hn] at hn'
      cases hn'
      rw [hpage, ih hr]

theorem iff_eq {ps : List (Page κ α)} (h : Follows read i cursor ps) (qs : List (Page κ α)) :
    Follows read i cursor qs ↔ qs = ps :=
  ⟨fun hq => hq.unique h, fun hq => hq ▸ h⟩

/-- **The pages tile the list.** Of lists that agree in what `view` shows of them, a reader who
follows the cursors gets each item from the offset on once, in order, and the total on every
page. -/
theorem exists_of_slices {key : ℕ → κ} (l : ℕ → List α) (limit : ℕ → ℕ) {view : α → β}
    {base : List β} (hpos : ∀ i, 0 < limit i) (hview : ∀ i, (l i).map view = base)
    (hread : ∀ i offset, offset < base.length →
      read (i + 1) (some (key offset)) = .ok (.slice key (l (i + 1)) offset (limit (i + 1))))
    {offset : ℕ} (hfirst : read i cursor = .ok (.slice key (l i) offset (limit i))) :
    ∃ ps, Follows read i cursor ps ∧ (ps.flatMap Page.items).map view = base.drop offset ∧
      ∀ p ∈ ps, p.total = base.length := by
  have hlength : ∀ j, (l j).length = base.length := fun j => by rw [← hview j, List.length_map]
  -- the part of the list that is still to come gets shorter with every page
  induction hn : base.length - offset using Nat.strongRecOn generalizing i cursor offset with
  | ind n ih =>
    have hitems : (((l i).drop offset).take (limit i)).map view =
        (base.drop offset).take (limit i) := by
      rw [List.map_take, List.map_drop, hview]
    by_cases hmore : offset + (((l i).drop offset).take (limit i)).length < (l i).length
    · have hlen : (((l i).drop offset).take (limit i)).length = limit i := by
        rw [List.length_take, List.length_drop] at hmore ⊢
        omega
      rw [hlen, hlength] at hmore
      have hpos' := hpos i
      obtain ⟨ps, hps, hflat, htotal⟩ := ih (base.length - (offset + limit i)) (by omega)
        (hread i (offset + limit i) hmore) rfl
      refine ⟨_ :: ps, .more hfirst ?_ hps, ?_, ?_⟩
      · rw [Page.slice, hlen, if_pos (by rw [hlength]; exact hmore)]
      · rw [List.flatMap_cons, List.map_append, hflat, Page.slice, hitems, ← List.drop_drop,
          List.take_append_drop]
      · exact List.forall_mem_cons.mpr ⟨hlength i, htotal⟩
    · refine ⟨[_], .last hfirst ?_, ?_, ?_⟩
      · rw [Page.slice, if_neg hmore]
      · have hall : (base.drop offset).take (limit i) = base.drop offset := by
          refine List.take_of_length_le ?_
          rw [hlength, List.length_take, List.length_drop, hlength] at hmore
          rw [List.length_drop]
          omega
        rw [List.flatMap_singleton, Page.slice, hitems, hall]
      · exact List.forall_mem_singleton.mpr (hlength i)

end Follows

end
