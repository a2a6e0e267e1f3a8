import PiSubagent.Lib.Runs
import Mathlib.Logic.Function.Basic

/-!
# Concurrent calls of processes over a shared state

Processes make calls, and every call moves through its own control points. Each move reads and
changes the shared state at once; the moves of different calls come in any order. A process may die
at any moment, and then none of its calls moves again.

* `Program`: where a call may begin, its moves, what the death of a process does to the shared
  state, and what happens from outside.
* `World.step`: one step of the system.
* `Outline`: an assertion on the shared state, one for every call, and one for every two calls.
* **`Outline.holds_exec`**: an outline whose assertions every step keeps, those of the other calls
  included, holds in every state of a run.
-/

namespace Calls

/-- A call: the process that made it, and its control point. -/
structure Call (κ : Type*) where
  process : ℕ
  state : κ
deriving DecidableEq, Repr

/-- The shared state, the calls made so far, and the processes that have died. -/
structure World (σ κ : Type*) where
  shared : σ
  calls : ℕ → Option (Call κ)
  next : ℕ
  dead : ℕ → Bool

/-- Where a process may begin a call, how calls move, what the death of a process does, and what
happens from outside. -/
structure Program (σ κ β ι : Type*) where
  entry : World σ κ → ℕ → κ → Bool
  move : (ℕ → Bool) → ℕ → ℕ → β → κ → σ → Option (σ × κ)
  free : (ℕ → Option (Call κ)) → ℕ → σ → σ
  outside : ι → σ → Option σ

/-- One step of the system. -/
inductive Act (κ β ι : Type*) where
  | begin (process : ℕ) (state : κ)
  | move (call : ℕ) (input : β)
  | die (process : ℕ)
  | outside (event : ι)
deriving DecidableEq, Repr

variable {σ κ β ι : Type*}

/-- Before any call, with the processes that have died by then. -/
def World.fresh (dead : ℕ → Bool) (s : σ) : World σ κ := ⟨s, fun _ => none, 0, dead⟩

/-- A call is at another control point. -/
def World.setCall (w : World σ κ) (c : ℕ) (a : Call κ) : World σ κ :=
  { w with calls := Function.update w.calls c (some a) }

/-- One step; `none` when it cannot be taken. -/
def World.step (P : Program σ κ β ι) (w : World σ κ) : Act κ β ι → Option (World σ κ)
  | .begin p k =>
    if w.dead p = false ∧ P.entry w p k = true then
      some { w.setCall w.next ⟨p, k⟩ with next := w.next + 1 }
    else none
  | .move c i =>
    match w.calls c with
    | none => none
    | some a =>
      if w.dead a.process then none
      else
        (P.move w.dead a.process c i a.state w.shared).map fun r =>
          { w.setCall c ⟨a.process, r.2⟩ with shared := r.1 }
  | .die p =>
    some { w with dead := Function.update w.dead p true, shared := P.free w.calls p w.shared }
  | .outside e => (P.outside e w.shared).map fun s => { w with shared := s }

namespace World

variable {P : Program σ κ β ι} {w v : World σ κ}

@[simp] theorem setCall_self (c : ℕ) (a : Call κ) : (w.setCall c a).calls c = some a :=
  Function.update_self c _ w.calls

theorem setCall_ne {c d : ℕ} (h : d ≠ c) (a : Call κ) : (w.setCall c a).calls d = w.calls d :=
  Function.update_of_ne h _ w.calls

theorem step_begin {p : ℕ} {k : κ} (h : w.step P (.begin p k) = some v) :
    w.dead p = false ∧ P.entry w p k = true ∧
      v = { w.setCall w.next ⟨p, k⟩ with next := w.next + 1 } := by
  simp only [step] at h
  split at h
  · next hc => exact ⟨hc.1, hc.2, (Option.some.inj h).symm⟩
  · cases h

theorem step_move {c : ℕ} {i : β} (h : w.step P (.move c i) = some v) :
    ∃ a s k, w.calls c = some a ∧ w.dead a.process = false ∧
      P.move w.dead a.process c i a.state w.shared = some (s, k) ∧
      v = { w.setCall c ⟨a.process, k⟩ with shared := s } := by
  simp only [step] at h
  cases hc : w.calls c with
  | none =>
    rw [hc] at h
    cases h
  | some a =>
    rw [hc] at h
    cases hd : w.dead a.process with
    | true => simp [hd] at h
    | false =>
      simp only [hd] at h
      obtain ⟨⟨s, k⟩, hm, hv⟩ := Option.map_eq_some_iff.mp h
      exact ⟨a, s, k, rfl, hd, hm, hv.symm⟩

theorem step_outside {e : ι} (h : w.step P (.outside e) = some v) :
    ∃ s, P.outside e w.shared = some s ∧ v = { w with shared := s } := by
  obtain ⟨s, hs, hv⟩ := Option.map_eq_some_iff.mp h
  exact ⟨s, hs, hv.symm⟩

end World

/-! ## Outlines -/

/-- An assertion on the shared state, one for every call, and one for every two calls. Each may
read which processes have died. -/
structure Outline (σ κ : Type*) where
  all : (ℕ → Bool) → σ → Prop
  each : (ℕ → Bool) → ℕ → Call κ → σ → Prop
  pair : (ℕ → Bool) → ℕ → Call κ → ℕ → Call κ → σ → Prop

namespace Outline

variable (O : Outline σ κ) (P : Program σ κ β ι) (ok : World σ κ → Act κ β ι → Prop)

/-- The assertions hold. -/
structure Holds (w : World σ κ) : Prop where
  unused : ∀ c, w.next ≤ c → w.calls c = none
  all : O.all w.dead w.shared
  each : ∀ c a, w.calls c = some a → O.each w.dead c a w.shared
  pair : ∀ c a d b, c ≠ d → w.calls c = some a → w.calls d = some b → O.pair w.dead c a d b w.shared

/-- What a new call has to meet. -/
structure Begun (w : World σ κ) (p : ℕ) (k : κ) : Prop where
  each : O.each w.dead w.next ⟨p, k⟩ w.shared
  pair : ∀ d b, w.calls d = some b →
    O.pair w.dead w.next ⟨p, k⟩ d b w.shared ∧ O.pair w.dead d b w.next ⟨p, k⟩ w.shared

/-- What a move of the call `c` to the control point `k` has to keep. -/
structure Kept (w : World σ κ) (c : ℕ) (a : Call κ) (s : σ) : Prop where
  all : O.all w.dead s
  each : O.each w.dead c a s
  others : ∀ d b, d ≠ c → w.calls d = some b → O.each w.dead d b s ∧
    O.pair w.dead c a d b s ∧ O.pair w.dead d b c a s
  pair : ∀ d b e f, d ≠ c → e ≠ c → d ≠ e → w.calls d = some b → w.calls e = some f →
    O.pair w.dead d b e f s

/-- What a change of the shared state, or the death of a process, has to keep. -/
structure Stable (w : World σ κ) (dead : ℕ → Bool) (s : σ) : Prop where
  all : O.all dead s
  each : ∀ c a, w.calls c = some a → O.each dead c a s
  pair : ∀ c a d b, c ≠ d → w.calls c = some a → w.calls d = some b → O.pair dead c a d b s

/-- Every step keeps the assertions. -/
structure Sound : Prop where
  begun : ∀ w p k, O.Holds w → ok w (.begin p k) → P.entry w p k = true → w.dead p = false →
    O.Begun w p k
  move : ∀ w c a i s k, O.Holds w → ok w (.move c i) → w.calls c = some a →
    w.dead a.process = false → P.move w.dead a.process c i a.state w.shared = some (s, k) →
    O.Kept w c ⟨a.process, k⟩ s
  die : ∀ w p, O.Holds w → ok w (.die p) →
    O.Stable w (Function.update w.dead p true) (P.free w.calls p w.shared)
  outside : ∀ w e s, O.Holds w → ok w (.outside e) → P.outside e w.shared = some s →
    O.Stable w w.dead s

variable {O P ok}

theorem holds_fresh {dead : ℕ → Bool} {s : σ} (h : O.all dead s) :
    O.Holds (World.fresh dead s) where
  unused := fun _ _ => rfl
  all := h
  each := fun _ _ hc => by cases hc
  pair := fun _ _ _ _ _ hc _ => by cases hc

theorem Holds.begin {w : World σ κ} {p : ℕ} {k : κ} (h : O.Holds w) (hb : O.Begun w p k) :
    O.Holds { w.setCall w.next ⟨p, k⟩ with next := w.next + 1 } where
  unused := fun c hc => by
    have hlt : w.next < c := hc
    show (w.setCall w.next ⟨p, k⟩).calls c = none
    rw [World.setCall_ne (Nat.ne_of_gt hlt)]
    exact h.unused c (Nat.le_of_lt hlt)
  all := h.all
  each := fun c a hc => by
    by_cases e : c = w.next
    · subst e
      cases (World.setCall_self w.next ⟨p, k⟩).symm.trans hc
      exact hb.each
    · exact h.each c a ((World.setCall_ne e ⟨p, k⟩).symm.trans hc)
  pair := fun c a d b hne hc hd => by
    by_cases e : c = w.next
    · subst e
      cases (World.setCall_self w.next ⟨p, k⟩).symm.trans hc
      exact (hb.pair d b ((World.setCall_ne hne.symm ⟨p, k⟩).symm.trans hd)).1
    · have hc' := (World.setCall_ne e ⟨p, k⟩).symm.trans hc
      by_cases e' : d = w.next
      · subst e'
        cases (World.setCall_self w.next ⟨p, k⟩).symm.trans hd
        exact (hb.pair c a hc').2
      · exact h.pair c a d b hne hc' ((World.setCall_ne e' ⟨p, k⟩).symm.trans hd)

theorem Holds.move {w : World σ κ} {c : ℕ} {a a' : Call κ} {s : σ} (h : O.Holds w)
    (hc : w.calls c = some a) (hk : O.Kept w c a' s) :
    O.Holds { w.setCall c a' with shared := s } where
  unused := fun d hd => by
    have hne : d ≠ c := by
      rintro rfl
      have := h.unused d hd
      rw [hc] at this
      cases this
    exact (World.setCall_ne hne a').trans (h.unused d hd)
  all := hk.all
  each := fun d b hd => by
    by_cases e : d = c
    · subst e
      cases (World.setCall_self d a').symm.trans hd
      exact hk.each
    · exact (hk.others d b e ((World.setCall_ne e a').symm.trans hd)).1
  pair := fun d b e f hne hd he => by
    by_cases e1 : d = c
    · subst e1
      cases (World.setCall_self d a').symm.trans hd
      exact (hk.others e f hne.symm ((World.setCall_ne hne.symm a').symm.trans he)).2.1
    · have hd' := (World.setCall_ne e1 a').symm.trans hd
      by_cases e2 : e = c
      · subst e2
        cases (World.setCall_self e a').symm.trans he
        exact (hk.others d b e1 hd').2.2
      · exact hk.pair d b e f e1 e2 hne hd' ((World.setCall_ne e2 a').symm.trans he)

/-- **A step keeps the outline.** -/
theorem Sound.holds_step (hs : O.Sound P ok) (w : World σ κ) (a : Act κ β ι) (v : World σ κ)
    (h : O.Holds w) (ho : ok w a) (hv : w.step P a = some v) : O.Holds v := by
  cases a with
  | begin p k =>
    obtain ⟨hd, he, rfl⟩ := World.step_begin hv
    exact h.begin (hs.begun w p k h ho he hd)
  | move c i =>
    obtain ⟨a, s, k, hc, hd, hm, rfl⟩ := World.step_move hv
    exact h.move hc (hs.move w c a i s k h ho hc hd hm)
  | die p =>
    cases hv
    obtain ⟨ha, he, hp⟩ := hs.die w p h ho
    exact ⟨h.unused, ha, he, hp⟩
  | outside e =>
    obtain ⟨s, hm, rfl⟩ := World.step_outside hv
    obtain ⟨ha, he, hp⟩ := hs.outside w e s h ho hm
    exact ⟨h.unused, ha, he, hp⟩

/-- **An outline whose assertions every step keeps holds in every state of a run.** -/
theorem Sound.holds_exec (hs : O.Sound P ok) {w v : World σ κ} {as : List (Act κ β ι)}
    (h : O.Holds w) (hm : Runs.Meets (World.step P) ok w as)
    (hv : Runs.exec (World.step P) w as = some v) : O.Holds v :=
  Runs.exec_invariant O.Holds hs.holds_step h hm hv

/-! ## Outlines without an assertion on two calls -/

/-- An outline whose calls are told of each other by the shared state alone. -/
def separate (all : (ℕ → Bool) → σ → Prop) (each : (ℕ → Bool) → ℕ → Call κ → σ → Prop) :
    Outline σ κ :=
  ⟨all, each, fun _ _ _ _ _ _ => True⟩

variable {all : (ℕ → Bool) → σ → Prop} {each : (ℕ → Bool) → ℕ → Call κ → σ → Prop}

theorem Begun.separate {w : World σ κ} {p : ℕ} {k : κ}
    (h : each w.dead w.next ⟨p, k⟩ w.shared) : (separate all each).Begun w p k :=
  ⟨h, fun _ _ _ => ⟨trivial, trivial⟩⟩

theorem Kept.separate {w : World σ κ} {c : ℕ} {a : Call κ} {s : σ} (ha : all w.dead s)
    (hc : each w.dead c a s) (ho : ∀ d b, d ≠ c → w.calls d = some b → each w.dead d b s) :
    (separate all each).Kept w c a s :=
  ⟨ha, hc, fun d b hd hb => ⟨ho d b hd hb, trivial, trivial⟩, fun _ _ _ _ _ _ _ _ _ => trivial⟩

theorem Stable.separate {w : World σ κ} {dead : ℕ → Bool} {s : σ} (ha : all dead s)
    (he : ∀ c a, w.calls c = some a → each dead c a s) : (separate all each).Stable w dead s :=
  ⟨ha, he, fun _ _ _ _ _ _ _ => trivial⟩

end Outline

end Calls
