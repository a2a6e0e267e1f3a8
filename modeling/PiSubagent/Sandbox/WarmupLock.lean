import PiSubagent.Sandbox.Checkpoints

/-!
# The warm-up lock

`tryLock` takes the lock of a key by `link`, and reclaims the lock of a dead owner by reading it,
unlinking it and linking again. Nothing ties the unlink to the file that was read.

* `OneHolder`: of a key's lock at most one live call is the holder, and the file at the lock's path
  is the holder's own.
* `reclaimsDead`: an unlink that reclaims a lock removes none of a live process.
* **`warmupLock_oneHolder`**: `OneHolder` in every run whose reclaims are such.
* **`warmupLock_twoHolders`**: two contenders that read the same stale lock both come to hold it,
  and the release of one removes the lock of the other.
-/

namespace PiSubagent.Checkpoints

open Calls (Call World Outline)

/-- The lock of a key: at most one live call has been given its release, and until the unlink of
that release the lock's path is the file this call has linked. -/
structure OneHolder (w : World Store Phase) : Prop where
  exclusive : ∀ c d a b key u v, w.calls c = some a → w.calls d = some b →
    w.dead a.process = false → w.dead b.process = false →
    a.state = .tryLock key (.held u) → b.state = .tryLock key (.held v) → c = d
  own : ∀ c a key u, w.calls c = some a → w.dead a.process = false →
    a.state = .tryLock key (.held u) ∨ a.state = .tryLock key (.releasing u) →
    w.shared.locks key = some ⟨u, some a.process⟩

/-- The lock file that is about to be reclaimed is gone, unreadable, or of a dead process. -/
def reclaimsDead (w : World Store Phase) : Act → Bool
  | .move c _ =>
    match w.calls c with
    | some ⟨_, .tryLock key (.reclaim _)⟩ => !ownerAlive w.dead (w.shared.lockOwner key)
    | _ => true
  | _ => true

/-- A call that has linked a lock finds its own file there. -/
def lockOutline : Outline Store Phase where
  all _ _ := True
  each dead _ a s := Drawn a s ∧ (dead a.process = false → ∀ key u,
    a.state.locked = some (key, u) → s.locks key = some ⟨u, some a.process⟩)
  pair _ _ a _ b _ := Apart a b

theorem locked_iff {k : Phase} {key u : ℕ} : k.locked = some (key, u) ↔
    k = .tryLock key (.held u) ∨ k = .tryLock key (.releasing u) := by
  constructor
  · intro h
    unfold Phase.locked at h
    split at h
    · cases h
      exact Or.inl rfl
    · cases h
      exact Or.inr rfl
    · cases h
  · rintro (rfl | rfl) <;> rfl

theorem lock_other {w : World Store Phase} (hw : lockOutline.Holds w) {c d : ℕ} {a b : Call Phase}
    {i : Input} {s : Store} {k : Phase} (hok : reclaimsDead w (.move c i) = true)
    (hc : w.calls c = some a) (hl : w.dead a.process = false)
    (hm : movePhase w.dead a.process i a.state w.shared = some (s, k)) (hd : d ≠ c)
    (hb : w.calls d = some b) (hlb : w.dead b.process = false) {key u : ℕ}
    (hk : b.state.locked = some (key, u)) : s.locks key = w.shared.locks key := by
  have hown := (hw.each d b hb).2 hlb key u hk
  rcases movePhase_locks hm with ⟨he, -⟩ | ⟨key', hn, -, he⟩ | ⟨key', round, hs, -, he⟩ |
    ⟨key', u', hs, -, he⟩
  · rw [he]
  · -- a lock is linked where there is none
    have hne : key ≠ key' := by
      rintro rfl
      rw [hn] at hown
      cases hown
    rw [he, Function.update_of_ne hne]
  · -- a lock is reclaimed of a dead process only
    have hne : key ≠ key' := by
      rintro rfl
      have hr : reclaimsDead w (.move c i) = !ownerAlive w.dead (w.shared.lockOwner key) := by
        obtain ⟨p, st⟩ := a
        cases hs
        simp only [reclaimsDead, hc]
      rw [hr, Store.lockOwner, hown] at hok
      simp [ownerAlive, hlb] at hok
    rw [he, Function.update_of_ne hne]
  · -- a release unlinks the file of its own call
    have hne : key ≠ key' := by
      rintro rfl
      have hown' := (hw.each c a hc).2 hl key u' hs
      have hu : u = u' :=
        congrArg LockFile.uuid (Option.some.inj (hown.symm.trans hown'))
      subst hu
      exact hw.pair d b c a hd hb hc u (Phase.uuid_of_locked hk) (Phase.uuid_of_locked hs)
    rw [he, Function.update_of_ne hne]

theorem lock_own {w : World Store Phase} (hw : lockOutline.Holds w) {c : ℕ} {a : Call Phase}
    {i : Input} {s : Store} {k : Phase} (hc : w.calls c = some a) (hl : w.dead a.process = false)
    (hm : movePhase w.dead a.process i a.state w.shared = some (s, k)) {key u : ℕ}
    (hk : k.locked = some (key, u)) : s.locks key = some ⟨u, some a.process⟩ := by
  rcases movePhase_locks hm with ⟨he, hn | hs⟩ | ⟨key', -, hs, he⟩ | ⟨key', round, -, hn, -⟩ |
    ⟨key', u', -, hn, -⟩
  · cases hn.symm.trans hk
  · rw [he]
    exact (hw.each c a hc).2 hl key u (hs.symm.trans hk)
  · cases hs.symm.trans hk
    rw [he, Function.update_self]
  · cases hn.symm.trans hk
  · cases hn.symm.trans hk

theorem lockOutline_sound :
    lockOutline.Sound program fun w a => reclaimsDead w a = true where
  begun := fun w p k hw _ he _ => by
    have hn : k.uuid = none := by
      have he' : k.entry = true := he
      unfold Phase.entry at he'
      split at he' <;> first | rfl | cases he'
    refine ⟨⟨?_, ?_⟩, ?_⟩
    · intro u hu
      cases hn.symm.trans hu
    · intro _ key u hk
      cases hn.symm.trans (Phase.uuid_of_locked hk)
    · intro d b hb
      refine ⟨?_, ?_⟩
      · intro u hu
        cases hn.symm.trans hu
      · intro u _ hu
        cases hn.symm.trans hu
  move := fun w c a i s k hw hok hc hl hm => by
    obtain ⟨p, st⟩ := a
    have hda := (hw.each c _ hc).1
    refine ⟨trivial, ⟨hda.move hm, ?_⟩, ?_, ?_⟩
    · intro _ key u hk
      exact lock_own hw hc hl hm hk
    · intro d b hd hb
      have hdb := (hw.each d b hb).1
      have hap : Apart ⟨p, k⟩ b := (hw.pair c _ d b hd.symm hc hb).move hm hdb
      refine ⟨⟨hdb.other hm, ?_⟩, hap, hap.symm⟩
      intro hlb key u hk
      rw [lock_other hw hok hc hl hm hd hb hlb hk]
      exact (hw.each d b hb).2 hlb key u hk
    · intro d b e f _ _ hne hb hf
      exact hw.pair d b e f hne hb hf
  die := fun w p hw _ => by
    refine ⟨trivial, ?_, ?_⟩
    · intro c a hc
      refine ⟨(hw.each c a hc).1, ?_⟩
      intro hl key u hk
      refine (hw.each c a hc).2 ?_ key u hk
      by_cases hp : a.process = p
      · rw [hp, Function.update_self] at hl
        cases hl
      · rwa [Function.update_of_ne hp] at hl
    · intro c a d b hne hc hb
      exact hw.pair c a d b hne hc hb
  outside := fun w n s hw _ hs => by
    cases hs
    exact ⟨trivial, hw.each, hw.pair⟩

/-- **Where every reclaimed lock is of a dead process, a lock has one holder, and its file is the
holder's own.** -/
theorem warmupLock_oneHolder (dead : ℕ → Bool) (s : Store) (as : List Act) (w : World Store Phase)
    (hm : Runs.Meets step (fun w a => reclaimsDead w a = true) (World.fresh dead s) as)
    (h : Runs.exec step (World.fresh dead s) as = some w) : OneHolder w := by
  have hw : lockOutline.Holds w :=
    lockOutline_sound.holds_exec (Outline.holds_fresh trivial) hm h
  have hown : ∀ c a key u, w.calls c = some a → w.dead a.process = false →
      a.state.locked = some (key, u) → w.shared.locks key = some ⟨u, some a.process⟩ :=
    fun c a key u hc hl hk => (hw.each c a hc).2 hl key u hk
  refine ⟨?_, fun c a key u hc hl hk => hown c a key u hc hl (locked_iff.mpr hk)⟩
  intro c d a b key u v hc hd hla hlb ha hb
  have hka := locked_iff.mpr (Or.inl ha)
  have hkb := locked_iff.mpr (Or.inl hb)
  have hu : u = v :=
    congrArg LockFile.uuid (Option.some.inj
      ((hown c a key u hc hla hka).symm.trans (hown d b key v hd hlb hkb)))
  subst hu
  by_contra hne
  exact hw.pair c a d b hne hc hd u (Phase.uuid_of_locked hka) (Phase.uuid_of_locked hkb)

/-- An empty root. -/
def emptyStore : Store := ⟨[], fun _ => none, fun _ => none, fun _ => none, fun _ => [], 0, 0⟩

/-- Process 1 takes the lock and dies; process 2 reads the lock, unlinks it and takes it. -/
def reclaimed : List Act :=
  [.begin 1 (.tryLock 0 (.link 0)), .move 0 .none, .die 1, .begin 2 (.tryLock 0 (.link 0)),
    .move 1 .none, .move 1 .none, .move 1 .none, .move 1 .none, .move 1 .none]

theorem warmupLock_oneHolder_reclaimed : ∃ w,
    Runs.exec step (World.fresh (fun _ => false) emptyStore) reclaimed = some w ∧ OneHolder w ∧
      w.calls 1 = some ⟨2, .tryLock 0 (.held 2)⟩ := by
  have hm : Runs.Meets step (fun w a => reclaimsDead w a = true)
      (World.fresh (fun _ => false) emptyStore) reclaimed := by
    decide +kernel
  have hs : ((Runs.exec step (World.fresh (fun _ => false) emptyStore) reclaimed).any fun w =>
      decide (w.calls 1 = some ⟨2, .tryLock 0 (.held 2)⟩)) = true := by
    decide +kernel
  obtain ⟨w, hw, hc⟩ := (Option.any_eq_true _ _).mp hs
  exact ⟨w, hw, warmupLock_oneHolder _ _ _ _ hm hw, of_decide_eq_true hc⟩

/-- Processes 2 and 3 read the lock of the dead process 1; 2 unlinks it and takes the lock, then 3
unlinks the lock of 2 and takes it, then 2 releases. -/
def reclaimedTwice : List Act :=
  [.begin 1 (.tryLock 0 (.link 0)), .move 0 .none, .die 1,
    .begin 2 (.tryLock 0 (.link 0)), .begin 3 (.tryLock 0 (.link 0)),
    .move 1 .none, .move 1 .none, .move 1 .none, .move 2 .none, .move 2 .none, .move 2 .none,
    .move 1 .none, .move 1 .none, .move 2 .none, .move 2 .none]

/-- **Two live processes hold one lock, and the release of one removes the lock of the other.** -/
theorem warmupLock_twoHolders :
    (∃ w, Runs.exec step (World.fresh (fun _ => false) emptyStore) reclaimedTwice = some w ∧
      w.dead 2 = false ∧ w.dead 3 = false ∧ w.calls 1 = some ⟨2, .tryLock 0 (.held 3)⟩ ∧
      w.calls 2 = some ⟨3, .tryLock 0 (.held 4)⟩ ∧ ¬ OneHolder w) ∧
    ∃ w, Runs.exec step (World.fresh (fun _ => false) emptyStore)
        (reclaimedTwice ++ [.move 1 .none, .move 1 .none]) = some w ∧
      w.dead 3 = false ∧ w.calls 2 = some ⟨3, .tryLock 0 (.held 4)⟩ ∧
      w.shared.locks 0 = none ∧ ¬ OneHolder w := by
  constructor
  · have hs : ((Runs.exec step (World.fresh (fun _ => false) emptyStore) reclaimedTwice).any
        fun w => decide (w.dead 2 = false ∧ w.dead 3 = false ∧
          w.calls 1 = some ⟨2, .tryLock 0 (.held 3)⟩ ∧
          w.calls 2 = some ⟨3, .tryLock 0 (.held 4)⟩)) = true := by
      decide +kernel
    obtain ⟨w, hw, hc⟩ := (Option.any_eq_true _ _).mp hs
    obtain ⟨h2, h3, hc1, hc2⟩ := of_decide_eq_true hc
    refine ⟨w, hw, h2, h3, hc1, hc2, ?_⟩
    intro ho
    cases ho.exclusive 1 2 _ _ 0 3 4 hc1 hc2 h2 h3 rfl rfl
  · have hs : ((Runs.exec step (World.fresh (fun _ => false) emptyStore)
        (reclaimedTwice ++ [.move 1 .none, .move 1 .none])).any
        fun w => decide (w.dead 3 = false ∧ w.calls 2 = some ⟨3, .tryLock 0 (.held 4)⟩ ∧
          w.shared.locks 0 = none)) = true := by
      decide +kernel
    obtain ⟨w, hw, hc⟩ := (Option.any_eq_true _ _).mp hs
    obtain ⟨h3, hc2, hn⟩ := of_decide_eq_true hc
    refine ⟨w, hw, h3, hc2, hn, ?_⟩
    intro ho
    have := ho.own 2 _ 0 4 hc2 h3 (Or.inl rfl)
    rw [hn] at this
    cases this

end PiSubagent.Checkpoints
