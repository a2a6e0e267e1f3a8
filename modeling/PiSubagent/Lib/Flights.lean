import PiSubagent.Lib.Runs
import Mathlib.Data.List.Basic

/-!
# Operations that calls share

A call joins the operation whose promise a variable holds, and begins one when the variable is
empty. When an operation has ended its handler runs, before the callers hear of it.

* `Flights.Policy`, `Flights.State`, `Flights.step`: calls, ends of operations, handlers.
* `Flights.Single`: an operation begins when all before it have failed.
* **`Flights.single_exec`**: over every run.
* **`Flights.succeeded_exec`**: an operation that succeeded is the one of every later call.
* `Flights.Single.joins`: with a handler that forgets failures, no call gets an old failure.
-/

namespace Flights

open Runs

/-- What the handler of an operation does. -/
structure Policy where
  /-- It empties the variable when the operation failed. -/
  forgets : Bool
  /-- It keeps the result apart, where later calls find it. -/
  keeps : Bool
deriving DecidableEq, Repr

/-- How far an operation is. -/
inductive Phase where
  | running
  | settled (ok : Bool)
  | handled (ok : Bool)
deriving DecidableEq, Repr

/-- The operations begun so far, the variable, the result kept apart, and the operation that each
call got. -/
structure State where
  phases : List Phase
  promise : Option ℕ
  result : Option ℕ
  answers : List ℕ
deriving DecidableEq, Repr

/-- One step of the system. -/
inductive Act where
  | call
  | settle (i : ℕ) (ok : Bool)
  | handle (i : ℕ) (ok : Bool)
deriving DecidableEq, Repr

/-- Before any call. -/
def State.start : State := ⟨[], none, none, []⟩

namespace State

variable (s : State)

/-- A call. -/
def call : State :=
  match s.result.or s.promise with
  | some i => { s with answers := s.answers ++ [i] }
  | none =>
    { s with
      phases := s.phases ++ [.running]
      promise := some s.phases.length
      answers := s.answers ++ [s.phases.length] }

/-- The operation that a call gets. -/
def joined : ℕ := (s.result.or s.promise).getD s.phases.length

/-- An operation ends. -/
def settle (i : ℕ) (ok : Bool) : State := { s with phases := s.phases.set i (.settled ok) }

/-- The handler of an operation. -/
def handle (p : Policy) (i : ℕ) (ok : Bool) : State :=
  { s with
    phases := s.phases.set i (.handled ok)
    promise := if p.forgets = true ∧ ok = false then none else s.promise
    result := if p.keeps = true ∧ ok = true then some i else s.result }

end State

/-- One step; `none` when it cannot be taken. -/
def step (p : Policy) (s : State) : Act → Option State
  | .call => some s.call
  | .settle i ok => if s.phases[i]? = some .running then some (s.settle i ok) else none
  | .handle i ok => if s.phases[i]? = some (.settled ok) then some (s.handle p i ok) else none

/-- The operation has succeeded. -/
def Phase.succeeded : Phase → Bool
  | .settled ok => ok
  | .handled ok => ok
  | .running => false

/-- **An operation begins when all before it have failed.** -/
structure Single (p : Policy) (s : State) : Prop where
  failed : ∀ i, i + 1 < s.phases.length → s.phases[i]? = some (.handled false)
  promise : ∀ i, s.promise = some i → i + 1 = s.phases.length
  empty : s.promise = none → ∀ i < s.phases.length, s.phases[i]? = some (.handled false)
  once : p.forgets = false → s.phases.length ≤ 1 ∧ (s.promise = none → s.phases = [])
  retries : p.forgets = true → ∀ i, s.promise = some i → s.phases[i]? ≠ some (.handled false)
  result : ∀ i, s.result = some i → s.promise = some i ∧ s.phases[i]? = some (.handled true)
  answers : ∀ i ∈ s.answers, i < s.phases.length

variable {p : Policy} {s t : State} {i j : ℕ} {ok : Bool} {a : Act}

theorem single_start (p : Policy) : Single p .start where
  failed := fun _ h => absurd h (Nat.not_lt_zero _)
  promise := fun _ h => by cases h
  empty := fun _ _ h => absurd h (Nat.not_lt_zero _)
  once := fun _ => ⟨Nat.zero_le _, fun _ => rfl⟩
  retries := fun _ _ h => by cases h
  result := fun _ h => by cases h
  answers := fun _ h => by cases h

/-- An operation that has not failed, or whose handler has not run, is the last one and is in the
variable. -/
theorem Single.last (h : Single p s) {x : Phase} (hx : s.phases[i]? = some x)
    (hne : x ≠ .handled false) : i + 1 = s.phases.length ∧ s.promise = some i := by
  have hlt : i < s.phases.length := (List.getElem?_eq_some_iff.mp hx).1
  have hlast : i + 1 = s.phases.length := by
    by_contra hnot
    have hfailed := h.failed i (by omega)
    exact hne (Option.some.inj (hx.symm.trans hfailed))
  refine ⟨hlast, ?_⟩
  cases hp : s.promise with
  | none => exact absurd (Option.some.inj (hx.symm.trans (h.empty hp i hlt))) hne
  | some j =>
    have hj := h.promise j hp
    rw [show j = i by omega]

theorem call_answers (s : State) :
    ∃ i, s.call.answers = s.answers ++ [i] ∧
      ((s.result.or s.promise = some i ∧ s.call = { s with answers := s.answers ++ [i] }) ∨
        (s.result.or s.promise = none ∧ i = s.phases.length ∧
          s.call.phases = s.phases ++ [.running] ∧ s.call.promise = some i)) := by
  unfold State.call
  cases s.result.or s.promise with
  | some i => exact ⟨i, rfl, Or.inl ⟨rfl, rfl⟩⟩
  | none => exact ⟨_, rfl, Or.inr ⟨rfl, rfl, rfl, rfl⟩⟩

theorem Single.found (h : Single p s) (hi : s.result.or s.promise = some i) :
    s.promise = some i := by
  cases hr : s.result with
  | none =>
    rw [hr] at hi
    exact hi
  | some j =>
    rw [hr, Option.some_or] at hi
    exact hi ▸ (h.result j hr).1

theorem single_call (h : Single p s) : Single p s.call := by
  unfold State.call
  cases hfound : s.result.or s.promise with
  | some i =>
    have hi := h.promise i (h.found hfound)
    refine ⟨h.failed, h.promise, h.empty, h.once, h.retries, h.result, ?_⟩
    intro j hj
    rcases List.mem_append.mp hj with hj | hj
    · exact h.answers j hj
    · rw [List.mem_singleton.mp hj]
      change i < s.phases.length
      omega
  | none =>
    obtain ⟨hresult, hpromise⟩ := Option.or_eq_none_iff.mp hfound
    have hlen : (s.phases ++ [Phase.running]).length = s.phases.length + 1 := List.length_append
    constructor
    · intro i hi
      have hlt : i < s.phases.length := by
        change i + 1 < (s.phases ++ [Phase.running]).length at hi
        omega
      change (s.phases ++ [Phase.running])[i]? = _
      rw [List.getElem?_append_left hlt]
      exact h.empty hpromise i hlt
    · intro i hi
      cases hi
      exact hlen.symm
    · intro hnone
      cases hnone
    · intro hkeeps
      have hnil := (h.once hkeeps).2 hpromise
      refine ⟨?_, fun hnone => by cases hnone⟩
      change (s.phases ++ [Phase.running]).length ≤ 1
      rw [hnil]
      exact Nat.le_refl 1
    · intro _ i hi
      cases hi
      change (s.phases ++ [Phase.running])[s.phases.length]? ≠ _
      rw [List.getElem?_concat_length]
      decide
    · intro i hi
      rw [hresult] at hi
      cases hi
    · intro i hi
      change i < (s.phases ++ [Phase.running]).length
      rcases List.mem_append.mp hi with hi | hi
      · have hlt := h.answers i hi
        omega
      · have heq := List.mem_singleton.mp hi
        omega

/-- The phase of the last operation changes, and the variable may be emptied after a failure. -/
theorem single_set {x y : Phase} (h : Single p s) (hx : s.phases[i]? = some x)
    (hne : x ≠ .handled false) (hphases : t.phases = s.phases.set i y)
    (hpromise : t.promise = s.promise ∨ (t.promise = none ∧ p.forgets = true ∧ y = .handled false))
    (hretry : p.forgets = true → t.promise = s.promise → y ≠ .handled false)
    (hresult : ∀ j, t.result = some j → j = i ∧ t.promise = s.promise ∧ y = .handled true ∨
      s.result = some j ∧ j ≠ i)
    (hanswers : t.answers = s.answers) : Single p t := by
  obtain ⟨hlast, hheld⟩ := h.last hx hne
  have hlen : t.phases.length = s.phases.length := by rw [hphases, List.length_set]
  have hself : t.phases[i]? = some y := by
    rw [hphases, List.getElem?_set_self (by omega)]
  have hother : ∀ j, j ≠ i → t.phases[j]? = s.phases[j]? := by
    intro j hj
    rw [hphases, List.getElem?_set_ne (Ne.symm hj)]
  constructor
  · intro j hj
    rw [hlen] at hj
    rw [hother j (by omega)]
    exact h.failed j hj
  · intro j hj
    rw [hlen]
    rcases hpromise with he | ⟨he, -, -⟩
    · exact h.promise j (he ▸ hj)
    · rw [he] at hj
      cases hj
  · intro hnone j hj
    rcases hpromise with he | ⟨-, -, hy⟩
    · rw [he, hheld] at hnone
      cases hnone
    · rcases eq_or_ne j i with rfl | hji
      · rw [hself, hy]
      · rw [hother j hji]
        exact h.failed j (by omega)
  · intro hforgets
    refine ⟨hlen ▸ (h.once hforgets).1, ?_⟩
    intro hnone
    rcases hpromise with he | ⟨-, hf, -⟩
    · rw [he, hheld] at hnone
      cases hnone
    · rw [hforgets] at hf
      cases hf
  · intro hforgets j hj
    rcases hpromise with he | ⟨he, -, -⟩
    · have hji : j = i := Option.some.inj ((he ▸ hj).symm.trans hheld)
      rw [hji, hself]
      exact fun hy => hretry hforgets he (Option.some.inj hy)
    · rw [he] at hj
      cases hj
  · intro j hj
    rcases hresult j hj with ⟨rfl, he, rfl⟩ | ⟨hold, hji⟩
    · exact ⟨he.trans hheld, hself⟩
    · exact absurd (Option.some.inj ((h.result j hold).1.symm.trans hheld)) hji
  · rw [hanswers, hlen]
    exact h.answers

theorem Single.result_ne (h : Single p s) {x : Phase} (hx : s.phases[i]? = some x)
    (hne : x ≠ .handled true) (hj : s.result = some j) : j ≠ i := by
  rintro rfl
  exact hne (Option.some.inj (hx.symm.trans (h.result j hj).2))

theorem single_step (h : Single p s) (hstep : step p s a = some t) : Single p t := by
  cases a with
  | call =>
    cases hstep
    exact single_call h
  | settle i ok =>
    obtain ⟨hx, he⟩ := Option.ite_none_right_eq_some.mp hstep
    cases he
    exact single_set h hx (fun hc => by cases hc) rfl (Or.inl rfl) (fun _ _ hc => by cases hc)
      (fun j hj => Or.inr ⟨hj, h.result_ne hx (fun hc => by cases hc) hj⟩) rfl
  | handle i ok =>
    obtain ⟨hx, he⟩ := Option.ite_none_right_eq_some.mp hstep
    cases he
    have hold : ∀ j, s.result = some j → j ≠ i := fun j hj =>
      h.result_ne hx (fun hc => by cases hc) hj
    obtain ⟨-, hheld⟩ := h.last hx (fun hc => by cases hc)
    cases ok with
    | false =>
      refine single_set h hx (fun hc => by cases hc) rfl ?_ ?_ (fun j hj => Or.inr ?_) rfl
      · cases hf : p.forgets with
        | false => exact Or.inl (by simp [State.handle, hf])
        | true => exact Or.inr ⟨by simp [State.handle, hf], rfl, rfl⟩
      · intro hf he
        simp [State.handle, hf, hheld] at he
      · have hj' : s.result = some j := by simpa [State.handle] using hj
        exact ⟨hj', hold j hj'⟩
    | true =>
      have hpromise : (s.handle p i true).promise = s.promise := by simp [State.handle]
      refine single_set h hx (fun hc => by cases hc) rfl (Or.inl hpromise)
        (fun _ _ hc => by cases hc) ?_ rfl
      intro j hj
      cases hk : p.keeps with
      | false =>
        have hj' : s.result = some j := by simpa [State.handle, hk] using hj
        exact Or.inr ⟨hj', hold j hj'⟩
      | true =>
        have hj' : i = j := by simpa [State.handle, hk] using hj
        exact Or.inl ⟨hj'.symm, hpromise, rfl⟩

/-- **In every run an operation begins when all before it have failed.** -/
theorem single_exec {as : List Act} (h : exec (step p) .start as = some s) : Single p s :=
  exec_preserves (Single p) (fun _ _ _ => single_step) (single_start p) h

/-- With a handler that forgets failures, a call gets an operation that has not failed, or whose
callers have not heard of it. -/
theorem Single.joins (h : Single p s) (hforgets : p.forgets = true) :
    ∃ i, s.call.answers = s.answers ++ [i] ∧ s.call.phases[i]? ≠ some (.handled false) := by
  obtain ⟨i, hanswers, ⟨hfound, he⟩ | ⟨-, rfl, hphases, -⟩⟩ := call_answers s
  · refine ⟨i, hanswers, ?_⟩
    rw [he]
    exact h.retries hforgets i (h.found hfound)
  · refine ⟨_, hanswers, ?_⟩
    rw [hphases, List.getElem?_concat_length]
    decide

/-- The operation has succeeded. -/
def Succeeded (s : State) (i : ℕ) : Prop := (s.phases[i]?.map Phase.succeeded).getD false = true

theorem Succeeded.phase (h : Succeeded s i) :
    ∃ x, s.phases[i]? = some x ∧ x.succeeded = true ∧ x ≠ .handled false := by
  unfold Succeeded at h
  cases hx : s.phases[i]? with
  | none =>
    rw [hx] at h
    cases h
  | some x =>
    rw [hx] at h
    refine ⟨x, rfl, h, ?_⟩
    rintro rfl
    cases h

theorem Single.succeeded_unique (h : Single p s) (hi : Succeeded s i) (hj : Succeeded s j) :
    i = j := by
  obtain ⟨x, hx, -, hxne⟩ := hi.phase
  obtain ⟨y, hy, -, hyne⟩ := hj.phase
  have h1 := (h.last hx hxne).1
  have h2 := (h.last hy hyne).1
  omega

theorem succeeded_set {y : Phase} (hs : Succeeded s i) (hphases : t.phases = s.phases.set j y)
    (hy : i = j → y.succeeded = true) : Succeeded t i := by
  obtain ⟨x, hx, -, -⟩ := hs.phase
  have hlt : i < s.phases.length := (List.getElem?_eq_some_iff.mp hx).1
  unfold Succeeded
  rw [hphases]
  rcases eq_or_ne i j with rfl | hne
  · rw [List.getElem?_set_self hlt]
    exact hy rfl
  · rw [List.getElem?_set_ne hne.symm]
    exact hs

theorem Succeeded.of_set {y : Phase} (ht : Succeeded t i) (hphases : t.phases = s.phases.set j y)
    (hy : y.succeeded = false) : i ≠ j ∧ Succeeded s i := by
  obtain ⟨x, hx, hok, -⟩ := ht.phase
  have hne : i ≠ j := by
    rintro rfl
    have hlt : i < s.phases.length := by
      have hlt := (List.getElem?_eq_some_iff.mp hx).1
      rwa [hphases, List.length_set] at hlt
    rw [hphases, List.getElem?_set_self hlt] at hx
    cases hx
    rw [hok] at hy
    cases hy
  refine ⟨hne, ?_⟩
  unfold Succeeded at ht ⊢
  rwa [hphases, List.getElem?_set_ne hne.symm] at ht

theorem Succeeded.call (h : Succeeded s i) : Succeeded s.call i := by
  obtain ⟨j, -, ⟨-, he⟩ | ⟨-, -, hphases, -⟩⟩ := call_answers s
  · rw [he]
    exact h
  · obtain ⟨x, hx, -⟩ := h.phase
    unfold Succeeded at h ⊢
    rwa [hphases, List.getElem?_append_left (List.getElem?_eq_some_iff.mp hx).1]

/-- An operation that has not succeeded ends, or its handler runs. -/
theorem Succeeded.keep {x y : Phase} (h : Succeeded s i) (hphases : t.phases = s.phases.set j y)
    (hx : s.phases[j]? = some x) (hne : x.succeeded = false) : Succeeded t i := by
  refine succeeded_set h hphases ?_
  rintro rfl
  obtain ⟨z, hz, hok, -⟩ := h.phase
  cases hx.symm.trans hz
  cases hne.symm.trans hok

@[simp] theorem call_result (s : State) : s.call.result = s.result := by
  unfold State.call
  split <;> rfl

theorem Succeeded.of_call (h : Succeeded s.call i) : Succeeded s i := by
  obtain ⟨j, -, ⟨-, he⟩ | ⟨-, -, hphases, -⟩⟩ := call_answers s
  · rw [he] at h
    exact h
  · unfold Succeeded at h ⊢
    rw [hphases] at h
    rcases Nat.lt_or_ge i s.phases.length with hlt | hge
    · rwa [List.getElem?_append_left hlt] at h
    · rw [List.getElem?_append_right hge] at h
      cases hk : i - s.phases.length with
      | zero =>
        rw [hk] at h
        cases h
      | succ k =>
        rw [hk] at h
        cases h

/-- After a success a step begins no operation, and a call gets the one that succeeded. -/
theorem succeeded_step (h : Single p s) (hs : Succeeded s i) (hstep : step p s a = some t) :
    Succeeded t i ∧ t.phases.length = s.phases.length ∧
      ∃ n, t.answers = s.answers ++ List.replicate n i := by
  obtain ⟨x, hx, hok, hne⟩ := hs.phase
  obtain ⟨-, hheld⟩ := h.last hx hne
  cases a with
  | call =>
    cases hstep
    obtain ⟨j, hanswers, ⟨hfound, he⟩ | ⟨hnone, -⟩⟩ := call_answers s
    · cases (h.found hfound).symm.trans hheld
      rw [he]
      exact ⟨hs, rfl, 1, rfl⟩
    · rw [(Option.or_eq_none_iff.mp hnone).2] at hheld
      cases hheld
  | settle j ok =>
    obtain ⟨hj, he⟩ := Option.ite_none_right_eq_some.mp hstep
    cases he
    refine ⟨succeeded_set hs rfl ?_, List.length_set, 0, (List.append_nil _).symm⟩
    rintro rfl
    cases hx.symm.trans hj
    cases hok
  | handle j ok =>
    obtain ⟨hj, he⟩ := Option.ite_none_right_eq_some.mp hstep
    cases he
    refine ⟨succeeded_set hs rfl ?_, List.length_set, 0, (List.append_nil _).symm⟩
    rintro rfl
    cases hx.symm.trans hj
    exact hok

/-- **An operation that succeeded is the last one, and the one of every later call.** -/
theorem succeeded_exec (h : Single p s) (hs : Succeeded s i) {as : List Act}
    (hexec : exec (step p) s as = some t) :
    Succeeded t i ∧ t.phases.length = s.phases.length ∧
      ∃ n, t.answers = s.answers ++ List.replicate n i := by
  induction as generalizing s with
  | nil =>
    cases hexec
    exact ⟨hs, rfl, 0, (List.append_nil _).symm⟩
  | cons a as ih =>
    obtain ⟨u, hu, hrest⟩ := exec_cons_eq_some.mp hexec
    obtain ⟨hsu, hlen, n, hn⟩ := succeeded_step h hs hu
    obtain ⟨hst, hlen', m, hm⟩ := ih (single_step h hu) hsu hrest
    refine ⟨hst, hlen'.trans hlen, n + m, ?_⟩
    rw [hm, hn, List.append_assoc, List.replicate_append_replicate]

end Flights
