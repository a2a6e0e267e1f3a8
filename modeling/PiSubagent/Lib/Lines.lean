import Mathlib.Data.List.Basic

/-!
# Terminated lines

* `complete`: the lines of a text that their terminator ends; what stands after the last one is
  dropped.
* `upToLast`: the text up to and with its last terminator.
* **`exists_join`**: every text is terminated lines and an open rest, and **`complete_join`**,
  `upToLast_join` read the two off.
-/

namespace Lines

variable {α : Type*} {d : α}

/-- Lines, each with its terminator. -/
def join (d : α) (ls : List (List α)) : List α := ls.flatMap fun l => l ++ [d]

@[simp] theorem join_nil : join d [] = [] := rfl

theorem join_cons (l : List α) (ls : List (List α)) : join d (l :: ls) = l ++ d :: join d ls := by
  rw [join, List.flatMap_cons, List.append_assoc, List.singleton_append, join]

theorem join_append (ls ms : List (List α)) : join d (ls ++ ms) = join d ls ++ join d ms :=
  List.flatMap_append

theorem join_concat (ls : List (List α)) (l : List α) : join d (ls ++ [l]) = join d ls ++ l ++ [d] := by
  rw [join_append, join_cons, join_nil, List.append_assoc]

theorem join_eq_nil_or_concat (ls : List (List α)) :
    join d ls = [] ∨ ∃ xs, join d ls = xs ++ [d] := by
  rcases List.eq_nil_or_concat ls with rfl | ⟨ls, l, rfl⟩
  · exact Or.inl rfl
  · exact Or.inr ⟨join d ls ++ l, by rw [List.concat_eq_append, join_concat]⟩

theorem getLast?_join {ls : List (List α)} (h : join d ls ≠ []) : (join d ls).getLast? = some d := by
  rcases join_eq_nil_or_concat (d := d) ls with h' | ⟨xs, h'⟩
  · exact absurd h' h
  · rw [h', List.getLast?_concat]

theorem length_le_join (ls : List (List α)) : ls.length ≤ (join d ls).length := by
  induction ls with
  | nil => exact Nat.zero_le _
  | cons l ls ih =>
    rw [join_cons, List.length_append, List.length_cons, List.length_cons]
    omega

variable [DecidableEq α]

/-- The lines that `d` ends. -/
def complete (d : α) (xs : List α) : List (List α) := (xs.splitOn d).dropLast

/-- The text up to and with the last `d`. -/
def upToLast (d : α) (xs : List α) : List α := (xs.reverse.dropWhile fun x => x ≠ d).reverse

theorem complete_append_cons {l : List α} (h : d ∉ l) (xs : List α) :
    complete d (l ++ d :: xs) = l :: complete d xs := by
  rw [complete, List.splitOn_append_cons_self, List.splitOn_eq_singleton h, List.singleton_append,
    List.dropLast_cons_of_ne_nil (List.splitOn_ne_nil _ _), complete]

theorem complete_of_notMem {t : List α} (h : d ∉ t) : complete d t = [] := by
  rw [complete, List.splitOn_eq_singleton h, List.dropLast_singleton]

/-- **The lines of a text are read off it**, whatever stands open at its end. -/
theorem complete_join {ls : List (List α)} (h : ∀ l ∈ ls, d ∉ l) (xs : List α) :
    complete d (join d ls ++ xs) = ls ++ complete d xs := by
  induction ls with
  | nil => rfl
  | cons l ls ih =>
    rw [join_cons, List.append_assoc, List.cons_append, complete_append_cons (h l List.mem_cons_self),
      ih fun m hm => h m (List.mem_cons_of_mem _ hm), List.cons_append]

theorem complete_join_rest {ls : List (List α)} (h : ∀ l ∈ ls, d ∉ l) {t : List α} (ht : d ∉ t) :
    complete d (join d ls ++ t) = ls := by
  rw [complete_join h, complete_of_notMem ht, List.append_nil]

/-- **Every text is terminated lines and an open rest.** -/
theorem exists_join (xs : List α) :
    ∃ ls t, (∀ l ∈ ls, d ∉ l) ∧ d ∉ t ∧ xs = join d ls ++ t := by
  induction xs with
  | nil => exact ⟨[], [], by simp, by simp, rfl⟩
  | cons x xs ih =>
    obtain ⟨ls, t, hls, ht, rfl⟩ := ih
    by_cases hx : x = d
    · exact ⟨[] :: ls, t, by simpa using hls, ht, by rw [join_cons, hx]; rfl⟩
    · cases ls with
      | nil => exact ⟨[], x :: t, by simp, by simpa [Ne.symm hx] using ht, rfl⟩
      | cons l ls =>
        refine ⟨(x :: l) :: ls, t, ?_, ht, by rw [join_cons, join_cons]; rfl⟩
        intro m hm
        rcases List.mem_cons.mp hm with rfl | hm
        · simpa [Ne.symm hx] using hls l List.mem_cons_self
        · exact hls m (List.mem_cons_of_mem _ hm)

theorem length_complete_le (xs : List α) : (complete d xs).length ≤ xs.length := by
  obtain ⟨ls, t, hls, ht, rfl⟩ := exists_join (d := d) xs
  rw [complete_join_rest hls ht, List.length_append]
  exact Nat.le_trans (length_le_join ls) (Nat.le_add_right _ _)

theorem upToLast_join (ls : List (List α)) {t : List α} (ht : d ∉ t) :
    upToLast d (join d ls ++ t) = join d ls := by
  have hpos : ∀ x ∈ t.reverse, decide (x ≠ d) = true := by
    intro x hx
    simpa using fun e : x = d => ht (e ▸ List.mem_reverse.mp hx)
  rw [upToLast, List.reverse_append, List.dropWhile_append_of_pos hpos]
  rcases join_eq_nil_or_concat (d := d) ls with h | ⟨xs, h⟩
  · rw [h]; rfl
  · rw [h, List.reverse_append, List.reverse_singleton, List.singleton_append,
      List.dropWhile_cons_of_neg (by simp), List.reverse_cons, List.reverse_reverse]

end Lines
