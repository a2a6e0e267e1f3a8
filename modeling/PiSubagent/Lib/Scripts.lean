import Mathlib.Data.List.Basic

/-!
# Scripts whose steps may fail

A script is a list of steps, each of which fails or leads to a next state. It is left where a step
fails, and a crash may stop it after any number of steps.

* `advance`: the state a script leaves, and whether it came to its end.
* **`advance_invariant`**: what the steps preserve, a script preserves wherever it is left.
* `advance_cons_cases`, `advance_append_cases`: where a script is left.
* **`advance_finished`**: a script that came to its end took every step.
-/

namespace Scripts

variable {σ : Type*}

/-- The state after at most `n` steps, and whether the script came to its end. -/
def advance : ℕ → List (σ → Option σ) → σ → σ × Bool
  | _, [], s => (s, true)
  | 0, _ :: _, s => (s, false)
  | n + 1, f :: fs, s =>
    match f s with
    | some t => advance n fs t
    | none => (s, false)

@[simp] theorem advance_nil (n : ℕ) (s : σ) : advance n [] s = (s, true) := by
  cases n <;> rfl

@[simp] theorem advance_zero (f : σ → Option σ) (fs : List (σ → Option σ)) (s : σ) :
    advance 0 (f :: fs) s = (s, false) := rfl

theorem advance_some {n : ℕ} {f : σ → Option σ} {fs : List (σ → Option σ)} {s t : σ}
    (h : f s = some t) : advance (n + 1) (f :: fs) s = advance n fs t := by
  show (match f s with
    | some t => advance n fs t
    | none => (s, false)) = _
  rw [h]

theorem advance_none {n : ℕ} {f : σ → Option σ} {fs : List (σ → Option σ)} {s : σ}
    (h : f s = none) : advance (n + 1) (f :: fs) s = (s, false) := by
  show (match f s with
    | some t => advance n fs t
    | none => (s, false)) = _
  rw [h]

/-- **What the steps preserve, a script preserves wherever it is left.** -/
theorem advance_invariant (P : σ → Prop) {fs : List (σ → Option σ)}
    (hstep : ∀ f ∈ fs, ∀ s t, P s → f s = some t → P t) (n : ℕ) {s : σ} (hs : P s) :
    P (advance n fs s).1 := by
  induction fs generalizing n s with
  | nil =>
    rw [advance_nil]
    exact hs
  | cons f fs ih =>
    cases n with
    | zero => exact hs
    | succ n =>
      cases hf : f s with
      | none =>
        rw [advance_none hf]
        exact hs
      | some t =>
        rw [advance_some hf]
        refine ih ?_ n (hstep f List.mem_cons_self s t hs hf)
        exact fun g hg => hstep g (List.mem_cons_of_mem f hg)

/-- A script is left before its first step, or where the rest of it is left. -/
theorem advance_cons_cases {n : ℕ} {f : σ → Option σ} {fs : List (σ → Option σ)} {s : σ}
    {P : σ × Bool → Prop} (hs : P (s, false)) (hfs : ∀ m t, f s = some t → P (advance m fs t)) :
    P (advance n (f :: fs) s) := by
  cases n with
  | zero => exact hs
  | succ n =>
    cases hf : f s with
    | none =>
      rw [advance_none hf]
      exact hs
    | some t =>
      rw [advance_some hf]
      exact hfs n t hf

/-- A script in two parts is left in its first, or where its second is left. -/
theorem advance_append_cases {n : ℕ} (fs gs : List (σ → Option σ)) (s : σ) :
    (advance n fs s).2 = false ∧ advance n (fs ++ gs) s = advance n fs s ∨
      (advance n fs s).2 = true ∧ ∃ m, advance n (fs ++ gs) s = advance m gs (advance n fs s).1 := by
  induction fs generalizing n s with
  | nil =>
    rw [advance_nil]
    exact Or.inr ⟨rfl, n, rfl⟩
  | cons f fs ih =>
    cases n with
    | zero => exact Or.inl ⟨rfl, rfl⟩
    | succ n =>
      rw [List.cons_append]
      cases hf : f s with
      | none =>
        rw [advance_none hf, advance_none hf]
        exact Or.inl ⟨rfl, rfl⟩
      | some t =>
        rw [advance_some hf, advance_some hf]
        exact ih t

theorem advance_finished_cons {n : ℕ} {f : σ → Option σ} {fs : List (σ → Option σ)} {s t : σ}
    (h : advance n (f :: fs) s = (t, true)) :
    ∃ m u, f s = some u ∧ advance m fs u = (t, true) := by
  cases n with
  | zero => cases h
  | succ n =>
    cases hf : f s with
    | none =>
      rw [advance_none hf] at h
      cases h
    | some u =>
      rw [advance_some hf] at h
      exact ⟨n, u, rfl, h⟩

/-- **A script that came to its end took every step.** -/
theorem advance_finished {n : ℕ} {fs : List (σ → Option σ)} {s t : σ}
    (h : advance n fs s = (t, true)) :
    fs.foldlM (fun s f => f s) s = some t := by
  induction fs generalizing n s with
  | nil =>
    rw [advance_nil] at h
    cases h
    rfl
  | cons f fs ih =>
    obtain ⟨m, u, hu, hr⟩ := advance_finished_cons h
    rw [List.foldlM_cons, hu]
    exact ih hr

theorem advance_complete {n : ℕ} {fs : List (σ → Option σ)} {s t : σ}
    (h : fs.foldlM (fun s f => f s) s = some t) (hn : fs.length ≤ n) :
    advance n fs s = (t, true) := by
  induction fs generalizing n s with
  | nil =>
    cases h
    exact advance_nil n _
  | cons f fs ih =>
    rw [List.foldlM_cons] at h
    obtain ⟨u, hu, hr⟩ := Option.bind_eq_some_iff.mp h
    cases n with
    | zero => simp at hn
    | succ n =>
      rw [advance_some hu]
      exact ih hr (by simpa using hn)

end Scripts
