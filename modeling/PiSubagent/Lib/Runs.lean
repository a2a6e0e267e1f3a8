import Mathlib.Data.List.Basic

/-!
# Runs of a system

A system is a function `step : σ → α → Option σ`: an action that cannot be taken has no next state.

* `exec`: the state after a list of actions.
* `Meets`: every action of the list is taken in a state where it meets a condition.
* **`exec_invariant`**: what every step that meets the condition preserves, a run that meets it
  preserves.
* **`exec_dichotomy`**: when steps that meet the condition preserve `Good`, the others lead from
  `Good` to `Bad`, and nothing leads out of `Bad`, then the condition decides where a run ends.
* `watch`: the system with a history of its actions, which every run has (**`exec_watch`**).
-/

namespace Runs

variable {σ α : Type*} (step : σ → α → Option σ)

/-- The state after a list of actions. -/
def exec : σ → List α → Option σ
  | s, [] => some s
  | s, a :: as => (step s a).bind fun t => exec t as

/-- Every action of the list is taken in a state where it meets the condition. -/
def Meets (ok : σ → α → Prop) : σ → List α → Prop
  | _, [] => True
  | s, a :: as => ok s a ∧ ∀ t, step s a = some t → Meets ok t as

variable {step}

@[simp] theorem exec_nil (s : σ) : exec step s [] = some s := rfl

theorem exec_cons (s : σ) (a : α) (as : List α) :
    exec step s (a :: as) = (step s a).bind fun t => exec step t as := rfl

theorem exec_cons_eq_some {s u : σ} {a : α} {as : List α} :
    exec step s (a :: as) = some u ↔ ∃ t, step s a = some t ∧ exec step t as = some u := by
  rw [exec_cons, Option.bind_eq_some_iff]

theorem exec_append (s : σ) (as bs : List α) :
    exec step s (as ++ bs) = (exec step s as).bind fun t => exec step t bs := by
  induction as generalizing s with
  | nil => rfl
  | cons a as ih =>
    rw [List.cons_append, exec_cons, exec_cons]
    cases step s a with
    | none => rfl
    | some t => exact ih t

theorem exec_concat_eq_some {s u : σ} {a : α} {as : List α} :
    exec step s (as ++ [a]) = some u ↔ ∃ t, exec step s as = some t ∧ step t a = some u := by
  rw [exec_append, Option.bind_eq_some_iff]
  simp only [exec_cons_eq_some, exec_nil, Option.some.injEq, exists_eq_right]

variable {ok : σ → α → Prop}

@[simp] theorem meets_nil (s : σ) : Meets step ok s [] := trivial

theorem meets_cons {s t : σ} {a : α} (h : step s a = some t) (as : List α) :
    Meets step ok s (a :: as) ↔ ok s a ∧ Meets step ok t as := by
  constructor
  · rintro ⟨h1, h2⟩
    exact ⟨h1, h2 t h⟩
  · rintro ⟨h1, h2⟩
    refine ⟨h1, ?_⟩
    intro t' ht
    rw [h] at ht
    exact Option.some.inj ht ▸ h2

theorem meets_concat {s t : σ} {as : List α} {a : α} (h : exec step s as = some t) :
    Meets step ok s (as ++ [a]) ↔ Meets step ok s as ∧ ok t a := by
  induction as generalizing s with
  | nil =>
    cases h
    simp [Meets]
  | cons b as ih =>
    obtain ⟨u, hu, hr⟩ := exec_cons_eq_some.mp h
    rw [List.cons_append, meets_cons hu, meets_cons hu, ih hr, and_assoc]

theorem Meets.mono {ok' : σ → α → Prop} (h : ∀ s a, ok s a → ok' s a) {s : σ} {as : List α}
    (hm : Meets step ok s as) : Meets step ok' s as := by
  induction as generalizing s with
  | nil => trivial
  | cons a as ih => exact ⟨h s a hm.1, fun t ht => ih (hm.2 t ht)⟩

theorem Meets.drop {s t : σ} {as bs : List α} (hm : Meets step ok s (as ++ bs))
    (h : exec step s as = some t) : Meets step ok t bs := by
  induction as generalizing s with
  | nil =>
    cases h
    exact hm
  | cons a as ih =>
    obtain ⟨u, hu, hr⟩ := exec_cons_eq_some.mp h
    exact ih (hm.2 u hu) hr

theorem meets_true (s : σ) (as : List α) : Meets step (fun _ _ => True) s as := by
  induction as generalizing s with
  | nil => trivial
  | cons a as ih => exact ⟨trivial, fun t _ => ih t⟩

instance Meets.decidable [∀ s a, Decidable (ok s a)] :
    (s : σ) → (as : List α) → Decidable (Meets step ok s as)
  | _, [] => .isTrue trivial
  | s, a :: as =>
    match h : step s a with
    | none => decidable_of_iff (ok s a) ⟨fun ho => ⟨ho, fun t ht => by rw [h] at ht; cases ht⟩, And.left⟩
    | some t =>
      have := Meets.decidable t as
      decidable_of_iff (ok s a ∧ Meets step ok t as) (meets_cons h as).symm

/-- **What every step that meets the condition preserves, a run that meets it preserves.** -/
theorem exec_invariant (P : σ → Prop)
    (hstep : ∀ s a t, P s → ok s a → step s a = some t → P t) {s t : σ} {as : List α} (hs : P s)
    (hm : Meets step ok s as) (h : exec step s as = some t) : P t := by
  induction as generalizing s with
  | nil => exact Option.some.inj h ▸ hs
  | cons a as ih =>
    obtain ⟨u, hu, hr⟩ := exec_cons_eq_some.mp h
    exact ih (hstep s a u hs hm.1 hu) (hm.2 u hu) hr

theorem exec_preserves (P : σ → Prop) (hstep : ∀ s a t, P s → step s a = some t → P t) {s t : σ}
    {as : List α} (hs : P s) (h : exec step s as = some t) : P t :=
  exec_invariant P (fun s a t hp _ => hstep s a t hp) hs (meets_true s as) h

/-- **The condition decides where a run ends.** -/
theorem exec_dichotomy (ok : σ → α → Prop) (Good Bad : σ → Prop)
    (hgood : ∀ s a t, Good s → ok s a → step s a = some t → Good t)
    (hbreak : ∀ s a t, Good s → ¬ ok s a → step s a = some t → Bad t)
    (hbad : ∀ s a t, Bad s → step s a = some t → Bad t) {s t : σ} {as : List α} (hs : Good s)
    (h : exec step s as = some t) : Meets step ok s as ∧ Good t ∨ ¬ Meets step ok s as ∧ Bad t := by
  induction as generalizing s with
  | nil => exact Or.inl ⟨trivial, Option.some.inj h ▸ hs⟩
  | cons a as ih =>
    obtain ⟨u, hu, hr⟩ := exec_cons_eq_some.mp h
    rw [meets_cons hu]
    by_cases ha : ok s a
    · rcases ih (hgood s a u hs ha hu) hr with ⟨hm, hg⟩ | ⟨hm, hb⟩
      · exact Or.inl ⟨⟨ha, hm⟩, hg⟩
      · exact Or.inr ⟨fun hc => hm hc.2, hb⟩
    · exact Or.inr ⟨fun hc => ha hc.1, exec_preserves Bad hbad (hbreak s a u hs ha hu) hr⟩

/-! ## Histories -/

variable {η : Type*}

variable (step) in
/-- The system with a history that every action extends. -/
def watch (extend : σ → η → α → η) (w : σ × η) (a : α) : Option (σ × η) :=
  (step w.1 a).map fun t => (t, extend w.1 w.2 a)

theorem watch_eq_some {extend : σ → η → α → η} {w v : σ × η} {a : α} :
    watch step extend w a = some v ↔ step w.1 a = some v.1 ∧ v.2 = extend w.1 w.2 a := by
  rw [watch, Option.map_eq_some_iff]
  constructor
  · rintro ⟨t, ht, rfl⟩
    exact ⟨ht, rfl⟩
  · rintro ⟨ht, hv⟩
    exact ⟨v.1, ht, Prod.ext rfl hv.symm⟩

/-- **Every run has a history.** -/
theorem exec_watch (extend : σ → η → α → η) (x : η) {s t : σ} {as : List α}
    (h : exec step s as = some t) : ∃ y, exec (watch step extend) (s, x) as = some (t, y) := by
  induction as generalizing s x with
  | nil =>
    cases h
    exact ⟨x, rfl⟩
  | cons a as ih =>
    obtain ⟨u, hu, hr⟩ := exec_cons_eq_some.mp h
    obtain ⟨y, hy⟩ := ih (extend s x a) hr
    exact ⟨y, exec_cons_eq_some.mpr ⟨(u, extend s x a), watch_eq_some.mpr ⟨hu, rfl⟩, hy⟩⟩

/-! ## Systems whose actions can always be taken -/

theorem exec_total (f : σ → α → σ) (s : σ) (as : List α) :
    exec (fun s a => some (f s a)) s as = some (as.foldl f s) := by
  induction as generalizing s with
  | nil => rfl
  | cons a as ih => exact ih (f s a)

end Runs
