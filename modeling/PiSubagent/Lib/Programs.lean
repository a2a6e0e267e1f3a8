import Mathlib.Logic.Basic

/-!
# Programs that change a state and may throw

* `Prog σ ε α`: a program over a state `σ` that returns an `α` or throws an `ε`; what it did to the
  state before it threw stays.
* `Triple P m Q R`: from a state in `P`, `m` returns into `Q` or throws into `R`.
* The rules: `Triple.pure`, `Triple.throw`, `Triple.bind`, `Triple.tryCatch`, `Triple.modify`,
  `Triple.get`, `Triple.zoom`, and `Triple.weaken`.
* `Keeps f m`: whatever `m` does, the state shows the same through `f`; it has the same rules.
-/

/-- A program over a state that returns a value or throws. -/
abbrev Prog (σ ε α : Type) := ExceptT ε (StateM σ) α

namespace Prog

variable {σ τ ε α β : Type}

/-- How a program ends from a state, and the state it leaves. -/
def exec (m : Prog σ ε α) (s : σ) : Except ε α × σ := m.run.run s

@[simp] theorem exec_pure (a : α) (s : σ) : exec (pure a : Prog σ ε α) s = (.ok a, s) := rfl

@[simp] theorem exec_throw (e : ε) (s : σ) : exec (throw e : Prog σ ε α) s = (.error e, s) := rfl

@[simp] theorem exec_get (s : σ) : exec (get : Prog σ ε σ) s = (.ok s, s) := rfl

@[simp] theorem exec_set (s t : σ) : exec (set t : Prog σ ε PUnit) s = (.ok ⟨⟩, t) := rfl

@[simp] theorem exec_modify (f : σ → σ) (s : σ) :
    exec (modify f : Prog σ ε PUnit) s = (.ok ⟨⟩, f s) := rfl

@[simp] theorem exec_liftExcept (r : Except ε α) (s : σ) :
    exec (liftExcept r : Prog σ ε α) s = (r, s) := by
  cases r <;> rfl

theorem exec_bind (m : Prog σ ε α) (f : α → Prog σ ε β) (s : σ) :
    exec (m >>= f) s =
      match exec m s with
      | (.ok a, t) => exec (f a) t
      | (.error e, t) => (.error e, t) := by
  unfold exec
  rw [ExceptT.run_bind, StateT.run_bind]
  change (match m.run.run s with | (a, t) => _) = _
  rcases m.run.run s with ⟨a | a, t⟩ <;> rfl

theorem exec_tryCatch (m : Prog σ ε α) (h : ε → Prog σ ε α) (s : σ) :
    exec (tryCatch m h) s =
      match exec m s with
      | (.ok a, t) => (.ok a, t)
      | (.error e, t) => exec (h e) t := by
  unfold exec
  rw [ExceptT.run_tryCatch, StateT.run_bind]
  change (match m.run.run s with | (a, t) => _) = _
  rcases m.run.run s with ⟨a | a, t⟩ <;> rfl

/-- A program that is run if the condition holds. -/
def when (c : Bool) (m : Prog σ ε Unit) : Prog σ ε Unit := if c then m else pure ()

/-- A program over a part of the state. -/
def zoom (part : σ → τ) (put : τ → σ → σ) (m : Prog τ ε α) : Prog σ ε α := do
  let s ← get
  set (put (exec m (part s)).2 s)
  liftExcept (exec m (part s)).1

theorem exec_zoom (part : σ → τ) (put : τ → σ → σ) (m : Prog τ ε α) (s : σ) :
    exec (zoom part put m) s = ((exec m (part s)).1, put (exec m (part s)).2 s) := by
  simp only [zoom, exec_bind, exec_get, exec_set, exec_liftExcept]

/-! ## Triples -/

/-- From a state in `P`, the program returns into `Q` or throws into `R`. -/
def Triple (P : σ → Prop) (m : Prog σ ε α) (Q : α → σ → Prop) (R : ε → σ → Prop) : Prop :=
  ∀ s, P s → match exec m s with
    | (.ok a, t) => Q a t
    | (.error e, t) => R e t

variable {P P' : σ → Prop} {Q Q' : α → σ → Prop} {R R' : ε → σ → Prop} {m : Prog σ ε α}

theorem Triple.ok (h : Triple P m Q R) {s t : σ} {a : α} (hs : P s) (he : exec m s = (.ok a, t)) :
    Q a t := by
  have := h s hs
  rwa [he] at this

theorem Triple.error (h : Triple P m Q R) {s t : σ} {e : ε} (hs : P s)
    (he : exec m s = (.error e, t)) : R e t := by
  have := h s hs
  rwa [he] at this

theorem Triple.weaken (h : Triple P m Q R) (hp : ∀ s, P' s → P s) (hq : ∀ a s, Q a s → Q' a s)
    (hr : ∀ e s, R e s → R' e s) : Triple P' m Q' R' := by
  intro s hs
  have := h s (hp s hs)
  rcases he : exec m s with ⟨e | a, t⟩
  · exact hr e t (h.error (hp s hs) he)
  · exact hq a t (h.ok (hp s hs) he)

theorem Triple.pure {a : α} (h : ∀ s, P s → Q a s) : Triple P (Pure.pure a : Prog σ ε α) Q R := h

theorem Triple.throw {e : ε} (h : ∀ s, P s → R e s) : Triple P (throw e : Prog σ ε α) Q R := h

theorem Triple.modify {f : σ → σ} {Q : PUnit → σ → Prop} (h : ∀ s, P s → Q ⟨⟩ (f s)) :
    Triple P (modify f : Prog σ ε PUnit) Q R := h

theorem Triple.liftExcept {r : Except ε α} (hq : ∀ a s, r = .ok a → P s → Q a s)
    (hr : ∀ e s, r = .error e → P s → R e s) : Triple P (liftExcept r : Prog σ ε α) Q R := by
  intro s hs
  rw [exec_liftExcept]
  cases r with
  | error e => exact hr e s rfl hs
  | ok a => exact hq a s rfl hs

theorem Triple.bind {M : α → σ → Prop} {f : α → Prog σ ε β} {Q : β → σ → Prop}
    (hm : Triple P m M R) (hf : ∀ a, Triple (M a) (f a) Q R) : Triple P (m >>= f) Q R := by
  intro s hs
  rw [exec_bind]
  rcases he : exec m s with ⟨e | a, t⟩
  · exact hm.error hs he
  · exact hf a t (hm.ok hs he)

theorem Triple.get {f : σ → Prog σ ε α} (h : ∀ s₀, Triple (fun s => P s ∧ s = s₀) (f s₀) Q R) :
    Triple P (MonadState.get >>= f) Q R := by
  intro s hs
  rw [exec_bind]
  exact h s s ⟨hs, rfl⟩

theorem Triple.when {c : Bool} {m : Prog σ ε Unit} {Q : Unit → σ → Prop}
    (ht : c = true → Triple P m Q R) (hf : c = false → ∀ s, P s → Q () s) :
    Triple P (when c m) Q R := by
  cases c with
  | true => exact ht rfl
  | false => exact hf rfl

theorem Triple.tryCatch {E : ε → σ → Prop} {h : ε → Prog σ ε α} (hm : Triple P m Q E)
    (hh : ∀ e, Triple (E e) (h e) Q R) : Triple P (tryCatch m h) Q R := by
  intro s hs
  rw [exec_tryCatch]
  rcases he : exec m s with ⟨e | a, t⟩
  · exact hh e t (hm.error hs he)
  · exact hm.ok hs he

/-- What is known before, whatever the state. -/
theorem Triple.of_pre {p : Prop} (h : p → Triple P m Q R) : Triple (fun s => p ∧ P s) m Q R :=
  fun s hs => h hs.1 s hs.2

theorem Triple.zoom {part : σ → τ} {put : τ → σ → σ} {m : Prog τ ε α} {P' : τ → Prop}
    {Q' : α → τ → Prop} {R' : ε → τ → Prop} (h : Triple P' m Q' R') (hp : ∀ s, P s → P' (part s))
    (hq : ∀ a s t, P s → Q' a t → Q a (put t s)) (hr : ∀ e s t, P s → R' e t → R e (put t s)) :
    Triple P (zoom part put m) Q R := by
  intro s hs
  rw [exec_zoom]
  rcases he : exec m (part s) with ⟨e | a, t⟩
  · exact hr e s t hs (h.error (hp s hs) he)
  · exact hq a s t hs (h.ok (hp s hs) he)

/-! ## What a program keeps -/

/-- Whatever the program does, the state shows the same through `f`. -/
def Keeps {γ : Type} (f : σ → γ) (m : Prog σ ε α) : Prop := ∀ s, f (exec m s).2 = f s

namespace Keeps

variable {γ δ : Type} {f : σ → γ}

theorem pure (a : α) : Keeps f (Pure.pure a : Prog σ ε α) := fun _ => rfl

theorem throw (e : ε) : Keeps f (throw e : Prog σ ε α) := fun _ => rfl

theorem get : Keeps f (MonadState.get : Prog σ ε σ) := fun _ => rfl

theorem liftExcept (r : Except ε α) : Keeps f (liftExcept r : Prog σ ε α) := by
  intro s
  rw [exec_liftExcept]

theorem modify {g : σ → σ} (h : ∀ s, f (g s) = f s) : Keeps f (modify g : Prog σ ε PUnit) := h

theorem bind {k : α → Prog σ ε β} (hm : Keeps f m) (hk : ∀ a, Keeps f (k a)) :
    Keeps f (m >>= k) := by
  intro s
  rw [exec_bind]
  have h := hm s
  rcases he : exec m s with ⟨e | a, t⟩
  · rw [he] at h
    exact h
  · rw [he] at h
    exact (hk a t).trans h

theorem tryCatch {h : ε → Prog σ ε α} (hm : Keeps f m) (hh : ∀ e, Keeps f (h e)) :
    Keeps f (tryCatch m h) := by
  intro s
  rw [exec_tryCatch]
  have hs := hm s
  rcases he : exec m s with ⟨e | a, t⟩
  · rw [he] at hs
    exact (hh e t).trans hs
  · rw [he] at hs
    exact hs

theorem when {m : Prog σ ε Unit} (c : Bool) (hm : Keeps f m) : Keeps f (when c m) := by
  cases c with
  | true => exact hm
  | false => exact pure ()

theorem zoom {part : σ → τ} {put : τ → σ → σ} (m : Prog τ ε α) (h : ∀ t s, f (put t s) = f s) :
    Keeps f (zoom part put m) := by
  intro s
  rw [exec_zoom]
  exact h _ s

theorem comp (g : γ → δ) (h : Keeps f m) : Keeps (fun s => g (f s)) m := fun s => congrArg g (h s)

theorem triple (h : Keeps f m) (x : γ) :
    Triple (fun s => f s = x) m (fun _ s => f s = x) (fun _ s => f s = x) := by
  intro s hs
  have hf := h s
  rcases he : exec m s with ⟨e | a, t⟩
  all_goals
    rw [he] at hf
    exact hf.trans hs

end Keeps

theorem Triple.and (h : Triple P m Q R) (h' : Triple P' m Q' R') :
    Triple (fun s => P s ∧ P' s) m (fun a s => Q a s ∧ Q' a s) (fun e s => R e s ∧ R' e s) := by
  intro s hs
  rcases he : exec m s with ⟨e | a, t⟩
  · exact ⟨h.error hs.1 he, h'.error hs.2 he⟩
  · exact ⟨h.ok hs.1 he, h'.ok hs.2 he⟩

/-- Where nothing is known of the states before and of the throws, the first part is passed over. -/
theorem Triple.bind_any {f : α → Prog σ ε β} {Q : β → σ → Prop}
    (h : ∀ a, Triple (fun _ => True) (f a) Q fun _ _ => True) :
    Triple (fun _ => True) (m >>= f) Q fun _ _ => True := by
  refine Triple.bind (M := fun _ _ => True) (fun s _ => ?_) h
  rcases exec m s with ⟨e | a, t⟩ <;> trivial

end Prog
