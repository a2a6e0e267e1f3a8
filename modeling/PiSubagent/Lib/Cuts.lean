import Mathlib.Data.List.Basic

/-!
# Effects that are cut short

An operation performs a list of effects; a fault or a crash may cut it short after any of them.

* `cutShort`: the state after the first `n` effects.
* `AllCuts`: a property of every state on the way.
* **`AllCuts.cutShort`**: what holds of every state on the way holds wherever the list is cut.
-/

namespace Cuts

variable {σ ε : Type*} (perform : σ → ε → σ)

/-- The state after the first effects. -/
def cutShort : ℕ → List ε → σ → σ
  | 0, _, s => s
  | _ + 1, [], s => s
  | n + 1, e :: es, s => cutShort n es (perform s e)

/-- A property of the state before, between and after the effects. -/
def AllCuts (P : σ → Prop) : List ε → σ → Prop
  | [], s => P s
  | e :: es, s => P s ∧ AllCuts P es (perform s e)

variable {perform} {P Q : σ → Prop}

@[simp] theorem cutShort_zero (es : List ε) (s : σ) : cutShort perform 0 es s = s := by
  cases es <;> rfl

@[simp] theorem cutShort_nil (n : ℕ) (s : σ) : cutShort perform n [] s = s := by
  cases n <;> rfl

theorem cutShort_eq_foldl (n : ℕ) (es : List ε) (s : σ) :
    cutShort perform n es s = (es.take n).foldl perform s := by
  induction n generalizing es s with
  | zero =>
    rw [cutShort_zero]
    rfl
  | succ n ih =>
    cases es with
    | nil => rfl
    | cons e es => exact ih es (perform s e)

@[simp] theorem allCuts_nil (s : σ) : AllCuts perform P [] s ↔ P s := Iff.rfl

@[simp] theorem allCuts_cons (e : ε) (es : List ε) (s : σ) :
    AllCuts perform P (e :: es) s ↔ P s ∧ AllCuts perform P es (perform s e) := Iff.rfl

theorem AllCuts.start {es : List ε} {s : σ} (h : AllCuts perform P es s) : P s := by
  cases es with
  | nil => exact h
  | cons e es => exact h.1

/-- **What holds on the way holds wherever the list is cut.** -/
theorem AllCuts.cutShort {es : List ε} {s : σ} (h : AllCuts perform P es s) (n : ℕ) :
    P (cutShort perform n es s) := by
  induction n generalizing es s with
  | zero =>
    rw [cutShort_zero]
    exact h.start
  | succ n ih =>
    cases es with
    | nil => exact h
    | cons e es => exact ih h.2

theorem AllCuts.foldl {es : List ε} {s : σ} (h : AllCuts perform P es s) :
    P (es.foldl perform s) := by
  have hend := h.cutShort es.length
  rw [cutShort_eq_foldl, List.take_length] at hend
  exact hend

theorem AllCuts.mono {es : List ε} {s : σ} (h : AllCuts perform P es s) (hPQ : ∀ s, P s → Q s) :
    AllCuts perform Q es s := by
  induction es generalizing s with
  | nil => exact hPQ s h
  | cons e es ih => exact ⟨hPQ s h.1, ih h.2⟩

theorem AllCuts.of_preserved {es : List ε} {s : σ} (hs : P s)
    (hstep : ∀ s, ∀ e ∈ es, P s → P (perform s e)) : AllCuts perform P es s := by
  induction es generalizing s with
  | nil => exact hs
  | cons e es ih =>
    refine ⟨hs, ih (hstep s e List.mem_cons_self hs) ?_⟩
    intro s' e' he' hs'
    exact hstep s' e' (List.mem_cons_of_mem e he') hs'

theorem allCuts_append (es fs : List ε) (s : σ) :
    AllCuts perform P (es ++ fs) s ↔
      AllCuts perform P es s ∧ AllCuts perform P fs (es.foldl perform s) := by
  induction es generalizing s with
  | nil =>
    constructor
    · intro h
      exact ⟨h.start, h⟩
    · exact fun h => h.2
  | cons e es ih =>
    rw [List.cons_append, allCuts_cons, allCuts_cons, List.foldl_cons, ih, and_assoc]

end Cuts
