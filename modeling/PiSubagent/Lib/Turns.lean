import PiSubagent.Lib.Runs
import Mathlib.Data.List.Induction
import Mathlib.Data.Nat.Find
import Mathlib.Logic.Function.Basic

/-!
# Operations that take turns

A call takes the promise that is in the tail and puts its own there. Its operation begins when the
promise it took is resolved, and resolves its own when it ends, by a result or by an error.

* `Turns.State`, `Turns.step`: the chain of promises, over a state that the operations and others
  change.
* `Turns.Ordered`: an operation that has begun comes after operations that have ended.
* `Turns.exec_shared`: without others, the shared state is what the operations make of it.
* **`Turns.exec_serial`**: in every run the steps of the operations come one operation after the
  other, in the order of the calls.
* **`Turns.Ordered.next`**: while a call has not ended, one is at its turn.
-/

namespace Turns

/-- How far a call is. -/
inductive Stage where
  | waiting | running | ended
deriving DecidableEq, Repr

/-- The calls made so far; the promise of a call has its number. No promise in the tail, or before a
call, is one that is resolved. -/
structure State (σ : Type*) where
  shared : σ
  tail : Option ℕ
  made : ℕ
  previous : ℕ → Option ℕ
  stage : ℕ → Stage

/-- What the operations and others do to the shared state; `forgets` when an operation that ends
takes its own promise out of the tail. -/
structure Program (σ ι ε : Type*) where
  forgets : Bool
  work : ℕ → ι → σ → σ
  outside : ε → σ → σ

/-- One step of the system. -/
inductive Act (ι ε : Type*) where
  | call
  | enter (c : ℕ)
  | work (c : ℕ) (input : ι)
  | leave (c : ℕ)
  | outside (event : ε)
deriving DecidableEq, Repr

variable {σ ι ε : Type*}

/-- Before any call. -/
def State.start (s : σ) : State σ := ⟨s, none, 0, fun _ => none, fun _ => .waiting⟩

namespace State

variable (s : State σ)

/-- The promise is resolved. -/
def resolved : Option ℕ → Bool
  | none => true
  | some c => decide (s.stage c = .ended)

/-- A new call takes the promise in the tail and leaves its own there. -/
def call : State σ :=
  { s with
    tail := some s.made
    made := s.made + 1
    previous := Function.update s.previous s.made s.tail }

/-- A call goes on to a stage. -/
def setStage (c : ℕ) (stage : Stage) : State σ :=
  { s with stage := Function.update s.stage c stage }

end State

/-- One step; `none` when it cannot be taken. -/
def step (P : Program σ ι ε) (s : State σ) : Act ι ε → Option (State σ)
  | .call => some s.call
  | .enter c =>
    if c < s.made ∧ s.stage c = .waiting ∧ s.resolved (s.previous c) = true then
      some (s.setStage c .running)
    else none
  | .work c i =>
    if c < s.made ∧ s.stage c = .running then
      some { s with shared := P.work c i s.shared }
    else none
  | .leave c =>
    if c < s.made ∧ s.stage c = .running then
      some { s.setStage c .ended with
        tail := if P.forgets = true ∧ s.tail = some c then none else s.tail }
    else none
  | .outside e => some { s with shared := P.outside e s.shared }

/-- The step of an operation, with the number of its call. -/
def Act.work? : Act ι ε → Option (ℕ × ι)
  | .work c i => some (c, i)
  | _ => none

/-- The steps of the operations. -/
def works (as : List (Act ι ε)) : List (ℕ × ι) := as.filterMap Act.work?

/-- An operation that has begun comes after operations that have ended. -/
structure Ordered (s : State σ) : Prop where
  tail : ∀ n, s.tail = some n → n + 1 = s.made
  empty : s.tail = none → ∀ c < s.made, s.stage c = .ended
  previous : ∀ c < s.made, ∀ n, s.previous c = some n → n + 1 = c
  first : ∀ c < s.made, s.previous c = none → ∀ d < c, s.stage d = .ended
  begun : ∀ c < s.made, s.stage c ≠ .waiting → ∀ d < c, s.stage d = .ended
  fresh : ∀ c, s.made ≤ c → s.stage c = .waiting

variable {P : Program σ ι ε} {s t : State σ}

theorem ordered_start (x : σ) : Ordered (State.start x) where
  tail := fun _ h => by cases h
  empty := fun _ _ h => absurd h (Nat.not_lt_zero _)
  previous := fun _ h => absurd h (Nat.not_lt_zero _)
  first := fun _ h => absurd h (Nat.not_lt_zero _)
  begun := fun _ h => absurd h (Nat.not_lt_zero _)
  fresh := fun _ _ => rfl

/-- What is before a call whose promise before it is resolved has ended. -/
theorem Ordered.before (h : Ordered s) {c : ℕ} (hc : c < s.made)
    (hr : s.resolved (s.previous c) = true) : ∀ d < c, s.stage d = .ended := by
  intro d hd
  cases hp : s.previous c with
  | none => exact h.first c hc hp d hd
  | some n =>
    rw [hp] at hr
    have hn : s.stage n = .ended := of_decide_eq_true hr
    have hnc := h.previous c hc n hp
    rcases Nat.lt_or_ge d n with hdn | hdn
    · exact h.begun n (by omega) (by rw [hn]; simp) d hdn
    · have he : d = n := by omega
      rw [he, hn]

theorem Ordered.call (h : Ordered s) : Ordered s.call := by
  have hprevious : ∀ c < s.made + 1, s.call.previous c = s.tail ∧ c = s.made ∨
      s.call.previous c = s.previous c ∧ c < s.made := by
    intro c hc
    by_cases he : c = s.made
    · subst he
      exact Or.inl ⟨Function.update_self _ _ _, rfl⟩
    · exact Or.inr ⟨Function.update_of_ne he _ _, by omega⟩
  refine ⟨?_, ?_, ?_, ?_, ?_, ?_⟩
  · intro n hn
    rw [← Option.some.inj hn]
    rfl
  · intro hn
    cases hn
  · intro c hc n hn
    rcases hprevious c hc with ⟨hp, rfl⟩ | ⟨hp, hlt⟩
    · exact h.tail n (hp.symm.trans hn)
    · exact h.previous c hlt n (hp.symm.trans hn)
  · intro c hc hn
    rcases hprevious c hc with ⟨hp, rfl⟩ | ⟨hp, hlt⟩
    · exact h.empty (hp.symm.trans hn)
    · exact h.first c hlt (hp.symm.trans hn)
  · intro c hc hs
    rcases hprevious c hc with ⟨-, rfl⟩ | ⟨-, hlt⟩
    · exact absurd (h.fresh s.made (Nat.le_refl _)) hs
    · exact h.begun c hlt hs
  · exact fun c hc => h.fresh c (Nat.le_of_succ_le hc)

theorem Ordered.setStage (h : Ordered s) {c : ℕ} (hc : c < s.made) {stage : Stage}
    (hbefore : ∀ d < c, s.stage d = .ended) (hlive : s.stage c ≠ .ended) :
    Ordered (s.setStage c stage) := by
  have hkeep : ∀ d, s.stage d = .ended → (s.setStage c stage).stage d = .ended := by
    intro d hd
    have hne : d ≠ c := by
      rintro rfl
      exact hlive hd
    exact (Function.update_of_ne hne stage s.stage).trans hd
  refine ⟨h.tail, ?_, h.previous, ?_, ?_, ?_⟩
  · intro hn d hd
    exact hkeep d (h.empty hn d hd)
  · intro d hd hn e he
    exact hkeep e (h.first d hd hn e he)
  · intro d hd hs e he
    refine hkeep e ?_
    by_cases hdc : d = c
    · subst hdc
      exact hbefore e he
    · have hd' : (s.setStage c stage).stage d = s.stage d := Function.update_of_ne hdc _ _
      exact h.begun d hd (hd' ▸ hs) e he
  · intro d hd
    have hne : d ≠ c := by
      rintro rfl
      exact absurd hc (Nat.not_lt.mpr hd)
    exact (Function.update_of_ne hne stage s.stage).trans (h.fresh d hd)

theorem ordered_step (h : Ordered s) {a : Act ι ε} (ht : step P s a = some t) : Ordered t := by
  cases a with
  | call =>
    cases ht
    exact h.call
  | enter c =>
    obtain ⟨⟨hc, hw, hr⟩, he⟩ := Option.ite_none_right_eq_some.mp ht
    cases he
    exact h.setStage hc (h.before hc hr) (by rw [hw]; simp)
  | work c i =>
    obtain ⟨-, he⟩ := Option.ite_none_right_eq_some.mp ht
    cases he
    exact ⟨h.tail, h.empty, h.previous, h.first, h.begun, h.fresh⟩
  | leave c =>
    obtain ⟨⟨hc, hr⟩, he⟩ := Option.ite_none_right_eq_some.mp ht
    cases he
    have hrunning : s.stage c ≠ .waiting := by rw [hr]; simp
    have hend : Ordered (s.setStage c .ended) :=
      h.setStage hc (h.begun c hc hrunning) (by rw [hr]; simp)
    by_cases hf : P.forgets = true ∧ s.tail = some c
    · -- the call in the tail is the last one, so that every call has ended
      have hlast := h.tail c hf.2
      refine ⟨?_, ?_, hend.previous, hend.first, hend.begun, hend.fresh⟩
      · intro n hn
        rw [if_pos hf] at hn
        cases hn
      · intro _ d hd
        by_cases he : d = c
        · subst he
          exact Function.update_self _ _ _
        · have hd' : d < s.made := hd
          exact (Function.update_of_ne he _ _).trans (h.begun c hc hrunning d (by omega))
    · rw [if_neg hf]
      exact hend
  | outside e =>
    cases ht
    exact ⟨h.tail, h.empty, h.previous, h.first, h.begun, h.fresh⟩

theorem Ordered.running_unique (h : Ordered s) {c d : ℕ} (hc : c < s.made) (hd : d < s.made)
    (hrc : s.stage c = .running) (hrd : s.stage d = .running) : c = d := by
  by_contra hne
  rcases Nat.lt_or_gt_of_ne hne with hlt | hlt
  · have := h.begun d hd (by rw [hrd]; simp) c hlt
    rw [hrc] at this
    cases this
  · have := h.begun c hc (by rw [hrc]; simp) d hlt
    rw [hrd] at this
    cases this

/-- **While a call has not ended, one is at its turn**: it runs, or it may begin. -/
theorem Ordered.next (h : Ordered s) (hlive : ∃ c < s.made, s.stage c ≠ .ended) :
    ∃ c < s.made, (∀ d < c, s.stage d = .ended) ∧
      (s.stage c = .running ∨ (step P s (.enter c)).isSome) := by
  classical
  have hc := Nat.find_spec hlive
  have hmin : ∀ d < Nat.find hlive, s.stage d = .ended := by
    intro d hd
    by_contra hne
    exact Nat.find_min hlive hd ⟨Nat.lt_trans hd hc.1, hne⟩
  refine ⟨Nat.find hlive, hc.1, hmin, ?_⟩
  cases hs : s.stage (Nat.find hlive) with
  | ended => exact absurd hs hc.2
  | running => exact Or.inl rfl
  | waiting =>
    right
    have hr : s.resolved (s.previous (Nat.find hlive)) = true := by
      cases hp : s.previous (Nat.find hlive) with
      | none => rfl
      | some n =>
        have hn := h.previous _ hc.1 n hp
        exact decide_eq_true (hmin n (by omega))
    rw [step, if_pos ⟨hc.1, hs, hr⟩]
    rfl

/-! ## The order of the steps -/

theorem begun_step {a : Act ι ε} (ht : step P s a = some t) {c : ℕ}
    (hc : c < s.made ∧ s.stage c ≠ .waiting) : c < t.made ∧ t.stage c ≠ .waiting := by
  have hset : ∀ (d : ℕ) (stage : Stage), stage ≠ .waiting →
      Function.update s.stage d stage c ≠ .waiting := by
    intro d stage hne
    by_cases he : c = d
    · subst he
      rw [Function.update_self]
      exact hne
    · rw [Function.update_of_ne he]
      exact hc.2
  cases a with
  | call =>
    cases ht
    exact ⟨Nat.lt_succ_of_lt hc.1, hc.2⟩
  | enter d =>
    obtain ⟨-, he⟩ := Option.ite_none_right_eq_some.mp ht
    cases he
    exact ⟨hc.1, hset d .running (by simp)⟩
  | work d i =>
    obtain ⟨-, he⟩ := Option.ite_none_right_eq_some.mp ht
    cases he
    exact hc
  | leave d =>
    obtain ⟨-, he⟩ := Option.ite_none_right_eq_some.mp ht
    cases he
    exact ⟨hc.1, hset d .ended (by simp)⟩
  | outside e =>
    cases ht
    exact hc

theorem works_quiet (as : List (Act ι ε)) {a : Act ι ε} (h : a.work? = none) :
    works (as ++ [a]) = works as := by
  rw [works, List.filterMap_append, List.filterMap_cons_none h, List.filterMap_nil, List.append_nil]
  rfl

theorem works_work (as : List (Act ι ε)) (c : ℕ) (i : ι) :
    works (as ++ [.work c i]) = works as ++ [(c, i)] := List.filterMap_append

/-- What others do to the shared state. -/
def Act.isOutside : Act ι ε → Bool
  | .outside _ => true
  | _ => false

/-- Where nothing comes from outside, the operations alone make the shared state. -/
theorem exec_shared {as : List (Act ι ε)} (h : Runs.exec (step P) s as = some t)
    (hown : ∀ a ∈ as, a.isOutside = false) :
    t.shared = (works as).foldl (fun x w => P.work w.1 w.2 x) s.shared := by
  induction as generalizing s with
  | nil =>
    cases h
    rfl
  | cons a as ih =>
    obtain ⟨u, hu, hr⟩ := Runs.exec_cons_eq_some.mp h
    have hrest := ih hr fun b hb => hown b (List.mem_cons_of_mem a hb)
    cases a with
    | call =>
      cases hu
      exact hrest
    | enter c =>
      obtain ⟨-, he⟩ := Option.ite_none_right_eq_some.mp hu
      cases he
      exact hrest
    | work c i =>
      obtain ⟨-, he⟩ := Option.ite_none_right_eq_some.mp hu
      cases he
      exact hrest
    | leave c =>
      obtain ⟨-, he⟩ := Option.ite_none_right_eq_some.mp hu
      cases he
      exact hrest
    | outside e => cases hown _ List.mem_cons_self

/-- **The steps of the operations come one operation after the other, in the order of the
calls**, and only of calls that have begun. -/
theorem exec_serial {x : σ} {as : List (Act ι ε)}
    (h : Runs.exec (step P) (State.start x) as = some s) :
    Ordered s ∧ ((works as).map Prod.fst).Pairwise (· ≤ ·) ∧
      ∀ c ∈ (works as).map Prod.fst, c < s.made ∧ s.stage c ≠ .waiting := by
  induction as using List.reverseRecOn generalizing s with
  | nil =>
    cases h
    exact ⟨ordered_start x, List.Pairwise.nil, fun c hc => absurd hc List.not_mem_nil⟩
  | append_singleton as a ih =>
    obtain ⟨u, hu, ha⟩ := Runs.exec_concat_eq_some.mp h
    obtain ⟨hordered, hsorted, hbegun⟩ := ih hu
    have hlater : ∀ c ∈ (works as).map Prod.fst, c < s.made ∧ s.stage c ≠ .waiting :=
      fun c hc => begun_step ha (hbegun c hc)
    refine ⟨ordered_step hordered ha, ?_⟩
    cases a with
    | work c i =>
      obtain ⟨⟨hc, hr⟩, he⟩ := Option.ite_none_right_eq_some.mp ha
      cases he
      rw [works_work, List.map_append, List.map_singleton]
      constructor
      · rw [List.pairwise_append]
        refine ⟨hsorted, List.pairwise_singleton _ _, ?_⟩
        intro d hd e he
        rw [List.mem_singleton.mp he]
        -- a call after the running one has not begun
        by_contra hlt
        obtain ⟨hd', hb⟩ := hbegun d hd
        have hend := hordered.begun d hd' hb c (Nat.lt_of_not_le hlt)
        rw [hr] at hend
        cases hend
      · intro d hd
        rcases List.mem_append.mp hd with hd | hd
        · exact hlater d hd
        · rw [List.mem_singleton.mp hd]
          exact ⟨hc, by rw [hr]; simp⟩
    | call =>
      rw [works_quiet as rfl]
      exact ⟨hsorted, hlater⟩
    | enter c =>
      rw [works_quiet as rfl]
      exact ⟨hsorted, hlater⟩
    | leave c =>
      rw [works_quiet as rfl]
      exact ⟨hsorted, hlater⟩
    | outside e =>
      rw [works_quiet as rfl]
      exact ⟨hsorted, hlater⟩

end Turns
