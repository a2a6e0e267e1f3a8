import Mathlib.Algebra.BigOperators.Group.List.Basic
import Mathlib.Algebra.GroupWithZero.Nat
import Mathlib.Algebra.Order.BigOperators.Group.List
import Mathlib.Data.List.Infix
import Mathlib.Tactic.Common

/-!
# The longest beginning of a list within a bound

A loop over a list of items with weights that stops before the first item that would lift the sum
of the weights above a limit.

* `fitting`: the items it takes.
* **`prefix_fitting_iff`**: a beginning of the list is within the limit exactly when it is a
  beginning of what the loop takes.
* **`fitting_fitting`**: two limits one after the other are the smaller of the two.
-/

namespace Fitting

variable {α : Type*} (weight : α → ℕ)

/-- The sum of the weights of some items. -/
def total (l : List α) : ℕ := (l.map weight).sum

@[simp] theorem total_nil : total weight [] = 0 := rfl

@[simp] theorem total_cons (a : α) (l : List α) :
    total weight (a :: l) = weight a + total weight l := List.sum_cons

theorem total_append (l m : List α) : total weight (l ++ m) = total weight l + total weight m := by
  rw [total, List.map_append, List.sum_append]
  rfl

theorem total_mono {l m : List α} (h : l <+: m) : total weight l ≤ total weight m := by
  obtain ⟨t, rfl⟩ := h
  rw [total_append]
  exact Nat.le_add_right _ _

/-- The items taken after items whose weights sum up to `used`. -/
def fittingFrom (limit : ℕ) : ℕ → List α → List α
  | _, [] => []
  | used, a :: l =>
    if limit < used + weight a then [] else a :: fittingFrom limit (used + weight a) l

/-- The items taken. -/
def fitting (limit : ℕ) (l : List α) : List α := fittingFrom weight limit 0 l

variable {weight} {limit used : ℕ}

theorem fittingFrom_prefix (used : ℕ) (l : List α) : fittingFrom weight limit used l <+: l := by
  induction l generalizing used with
  | nil => exact List.prefix_rfl
  | cons a l ih =>
    rw [fittingFrom]
    split_ifs
    · exact List.nil_prefix
    · exact (List.prefix_cons_inj a).mpr (ih _)

theorem total_fittingFrom_le (h : used ≤ limit) (l : List α) :
    used + total weight (fittingFrom weight limit used l) ≤ limit := by
  induction l generalizing used with
  | nil => exact h
  | cons a l ih =>
    rw [fittingFrom]
    split_ifs with hlt
    · exact h
    · have := ih (not_lt.mp hlt)
      rw [total_cons]
      omega

/-- The loop takes at least every beginning that is within the limit. -/
theorem prefix_fittingFrom {l m : List α} (hp : m <+: l) (hm : used + total weight m ≤ limit) :
    m <+: fittingFrom weight limit used l := by
  induction l generalizing used m with
  | nil => exact hp
  | cons a l ih =>
    cases m with
    | nil => exact List.nil_prefix
    | cons b m =>
      obtain ⟨rfl, htail⟩ := List.cons_prefix_cons.mp hp
      rw [total_cons] at hm
      rw [fittingFrom, if_neg (by omega)]
      exact (List.prefix_cons_inj b).mpr (ih htail (by omega))

/-! ## The loop from its start -/

theorem fitting_initial (limit : ℕ) (l : List α) : fitting weight limit l <+: l :=
  fittingFrom_prefix 0 l

theorem total_fitting_le (limit : ℕ) (l : List α) : total weight (fitting weight limit l) ≤ limit := by
  have h : 0 + total weight (fittingFrom weight limit 0 l) ≤ limit :=
    total_fittingFrom_le (Nat.zero_le limit) l
  rwa [zero_add] at h

/-- **A beginning of the list is within the limit exactly when the loop takes all of it.** -/
theorem prefix_fitting_iff {l m : List α} (hp : m <+: l) :
    m <+: fitting weight limit l ↔ total weight m ≤ limit := by
  constructor
  · intro h
    exact (total_mono weight h).trans (total_fitting_le limit l)
  · intro h
    exact prefix_fittingFrom hp (by rwa [zero_add])

theorem fitting_eq_self_iff {l : List α} : fitting weight limit l = l ↔ total weight l ≤ limit := by
  rw [← prefix_fitting_iff List.prefix_rfl]
  constructor
  · intro h
    rw [h]
  · intro h
    exact (fitting_initial limit l).eq_of_length_le h.length_le

/-- **Two limits one after the other are the smaller of the two.** -/
theorem fitting_fitting (m n : ℕ) (l : List α) :
    fitting weight n (fitting weight m l) = fitting weight (min m n) l := by
  have hm : fitting weight m l <+: l := fitting_initial m l
  have hn : fitting weight n (fitting weight m l) <+: fitting weight m l := fitting_initial n _
  have h : fitting weight (min m n) l <+: l := fitting_initial _ l
  have hle : total weight (fitting weight (min m n) l) ≤ min m n := total_fitting_le _ l
  have hfirst : fitting weight n (fitting weight m l) <+: fitting weight (min m n) l := by
    rw [prefix_fitting_iff (hn.trans hm)]
    refine le_min ?_ (total_fitting_le n _)
    exact (total_mono weight hn).trans (total_fitting_le m l)
  have hsecond : fitting weight (min m n) l <+: fitting weight n (fitting weight m l) := by
    have hin : fitting weight (min m n) l <+: fitting weight m l :=
      (prefix_fitting_iff h).mpr (hle.trans (min_le_left m n))
    exact (prefix_fitting_iff hin).mpr (hle.trans (min_le_right m n))
  exact hfirst.eq_of_length_le hsecond.length_le

end Fitting
