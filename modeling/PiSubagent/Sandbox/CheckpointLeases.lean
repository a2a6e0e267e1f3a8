import PiSubagent.Sandbox.Checkpoints

/-!
# Leased checkpoints

A lease is recorded before its sidecar is read; `evict` unlinks the sidecar of a candidate, looks at
the leases once more, and only then unlinks the checkpoint. So a lease that found the sidecar is
found by the second look, unless the sidecar is there again.

* `Leased`: the checkpoint of every lease that a live holder has not released exists.
* `unpublished`: no sidecar is published while an eviction is between its two unlinks.
* **`leased_checkpoint`**: `Leased` in every run in which no sidecar is published so.
* **`leased_checkpoint_unlinked`**: a checkpoint that is published between the two unlinks and
  leased at once is unlinked.
-/

namespace PiSubagent.Checkpoints

open Calls (Call World Outline)

/-- Every lease that has been returned to a process that is alive, and not been released, has its
checkpoint. -/
def Leased (w : World Store Phase) : Prop :=
  ∀ c a key u, w.calls c = some a → w.dead a.process = false → a.state = .lease key (.held u) →
    w.shared.hasCheckpoint key

/-! ## The two sides of the handshake -/

/-- The name a lease has not given its file yet. -/
def Phase.unrenamed : Phase → Option ℕ
  | .lease _ (.write u) | .lease _ (.rename u) => some u
  | _ => none

/-- The file of a lease that is recorded: its key and its name. -/
def Phase.renamed : Phase → Option (ℕ × ℕ)
  | .lease key (.sidecar u) | .lease key (.stat u) | .lease key (.touch u)
  | .lease key (.held u) => some (key, u)
  | _ => none

/-- The file of a lease that has found the sidecar. -/
def Phase.granted : Phase → Option (ℕ × ℕ)
  | .lease key (.stat u) | .lease key (.touch u) | .lease key (.held u) => some (key, u)
  | _ => none

/-- The key of a lease that has found the checkpoint. -/
def Phase.found : Phase → Option ℕ
  | .lease key (.touch _) | .lease key (.held _) => some key
  | _ => none

/-- The names of lease files that `leased` still has to look at. -/
def LeasedPhase.hand : LeasedPhase → List LeaseName
  | .readdir => []
  | .entries todo _ => todo
  | .probe n _ todo _ => n :: todo
  | .unlink n todo _ => n :: todo

/-- `leased` will return true for the lease of this name. -/
def LeasedPhase.Sees (n : LeaseName) : LeasedPhase → Prop
  | .readdir => True
  | .entries todo live => live = true ∨ n ∈ todo
  | .probe m _ todo live => live = true ∨ m = n ∨ n ∈ todo
  | .unlink _ todo live => live = true ∨ n ∈ todo

/-- `leased` will not unlink the lease of this name and process. -/
def LeasedPhase.Spares (n : LeaseName) (pid : ℕ) : LeasedPhase → Prop
  | .probe m owner _ _ => m = n → owner = some pid
  | .unlink m _ _ => m ≠ n
  | _ => True

/-- The names of lease files that a call still has to look at. -/
def Phase.hand : Phase → List LeaseName
  | .evict _ (.leased _ _ _ p) => p.hand
  | _ => []

/-- The key whose sidecar an eviction has unlinked and whose checkpoint it may unlink. -/
def Phase.window : Phase → Option ℕ
  | .evict _ (.leased c _ true _) => some c.key
  | .evict _ (.checkpoint c _) => some c.key
  | _ => none

/-- An eviction in its window will find the lease of this name. -/
def Phase.Sees (n : LeaseName) : Phase → Prop
  | .evict _ (.leased _ _ _ p) => p.Sees n
  | .evict _ (.checkpoint _ _) => False
  | _ => True

/-- An eviction will not unlink the lease of this key, name and process. -/
def Phase.Spares (key : ℕ) (n : LeaseName) (pid : ℕ) : Phase → Prop
  | .evict _ (.leased c _ _ p) => c.key = key → p.Spares n pid
  | _ => True

/-- No sidecar is published while an eviction of a live process is in its window for the key. -/
def unpublished (w : World Store Phase) : Act → Bool
  | .move c _ =>
    match w.calls c with
    | some ⟨_, .publish key .sidecar⟩ =>
      (List.range w.next).all fun d =>
        match w.calls d with
        | some b => w.dead b.process || decide (b.state.window ≠ some key)
        | none => true
    | _ => true
  | _ => true

/-- The files of `leases` have names of their own, drawn before. -/
structure Named (s : Store) : Prop where
  unique : ∀ key f g, f ∈ s.leases key → g ∈ s.leases key → f.name = g.name → f = g
  drawn : ∀ key f, f ∈ s.leases key → f.name.uuid < s.nextUuid

/-- What a call of a live process relies on: a recorded lease its file, one that has found it the
checkpoint, an eviction in its window that the sidecar is gone. -/
structure Guarded (dead : ℕ → Bool) (a : Call Phase) (s : Store) : Prop where
  drawn : Drawn a s
  absent : ∀ u, a.state.unrenamed = some u → ∀ key, ∀ f ∈ s.leases key, f.name ≠ ⟨u, true⟩
  file : dead a.process = false → ∀ key u, a.state.renamed = some (key, u) →
    ⟨⟨u, true⟩, some a.process⟩ ∈ s.leases key
  checkpoint : dead a.process = false → ∀ key, a.state.found = some key → s.hasCheckpoint key
  hand : ∀ n ∈ a.state.hand, n.uuid < s.nextUuid
  window : dead a.process = false → ∀ key, a.state.window = some key → s.sidecars key = none

/-- What holds between an eviction and a lease. -/
structure Handshake (dead : ℕ → Bool) (a b : Call Phase) : Prop where
  apart : Apart a b
  unnamed : ∀ u, b.state.unrenamed = some u → ⟨u, true⟩ ∉ a.state.hand
  spares : dead b.process = false → ∀ key u, b.state.renamed = some (key, u) →
    a.state.Spares key ⟨u, true⟩ b.process
  sees : dead a.process = false → dead b.process = false → ∀ key u,
    b.state.granted = some (key, u) → a.state.window = some key → a.state.Sees ⟨u, true⟩

/-- The handshake of every eviction with every lease. -/
def leaseOutline : Outline Store Phase where
  all _ s := Named s
  each dead _ a s := Guarded dead a s
  pair dead _ a _ b _ := Handshake dead a b

/-! ## Files -/

variable {s : Store} {key : ℕ}

theorem mem_putLease {k : ℕ} {f g : LeaseFile} :
    g ∈ (s.putLease key f).leases k ↔
      (k = key ∧ g = f) ∨ (g ∈ s.leases k ∧ (k = key → g.name.uuid ≠ f.name.uuid)) := by
  by_cases hk : k = key
  · subst hk
    simp only [Store.putLease, Function.update_self, List.mem_cons, List.mem_filter, ne_eq,
      decide_not, Bool.not_eq_true', decide_eq_false_iff_not, true_and, forall_const]
  · simp only [Store.putLease, Function.update_of_ne hk, hk, false_and, false_or,
      IsEmpty.forall_iff, and_true]

theorem mem_unlinkLease {k : ℕ} {n : LeaseName} {g : LeaseFile} :
    g ∈ (s.unlinkLease key n).leases k ↔ g ∈ s.leases k ∧ (k = key → g.name ≠ n) := by
  by_cases hk : k = key
  · subst hk
    simp only [Store.unlinkLease, Function.update_self, List.mem_filter, ne_eq, decide_not,
      Bool.not_eq_true', decide_eq_false_iff_not, forall_const]
  · simp only [Store.unlinkLease, Function.update_of_ne hk, hk, IsEmpty.forall_iff, and_true]

theorem Store.hasCheckpoint_put {k bytes : ℕ} (h : s.hasCheckpoint k) :
    (s.putCheckpoint key bytes).hasCheckpoint k := by
  obtain ⟨b, hb⟩ := h
  by_cases hk : k = key
  · subst hk
    exact ⟨bytes, List.mem_cons_self⟩
  · refine ⟨b, List.mem_cons_of_mem _ (List.mem_filter.mpr ⟨hb, ?_⟩)⟩
    simpa using hk

theorem Store.hasCheckpoint_unlink {k : ℕ} (h : s.hasCheckpoint k) (hk : k ≠ key) :
    (s.unlinkCheckpoint key).hasCheckpoint k := by
  obtain ⟨b, hb⟩ := h
  refine ⟨b, List.mem_filter.mpr ⟨hb, ?_⟩⟩
  simpa using hk

theorem leaseOwner_of_mem (hs : Named s) {n : LeaseName} {pid : Option ℕ}
    (h : ⟨n, pid⟩ ∈ s.leases key) : s.leaseOwner key n = pid := by
  unfold Store.leaseOwner
  cases hf : (s.leases key).find? fun f => f.name = n with
  | none =>
    have := List.find?_eq_none.mp hf _ h
    simp at this
  | some f =>
    have hn : f.name = n := by simpa using List.find?_some hf
    have he : f = ⟨n, pid⟩ := hs.unique key f _ (List.mem_of_find?_eq_some hf) h hn
    rw [he]
    rfl

theorem Named.putLease (h : Named s) {f : LeaseFile} (hf : f.name.uuid < s.nextUuid) :
    Named (s.putLease key f) where
  unique := by
    intro k g g' hg hg' he
    rcases mem_putLease.mp hg with ⟨hk, rfl⟩ | ⟨hm, hn⟩ <;>
      rcases mem_putLease.mp hg' with ⟨hk', rfl⟩ | ⟨hm', hn'⟩
    · rfl
    · exact absurd (congrArg LeaseName.uuid he.symm) (hn' hk)
    · exact absurd (congrArg LeaseName.uuid he) (hn hk')
    · exact h.unique k g g' hm hm' he
  drawn := by
    intro k g hg
    rcases mem_putLease.mp hg with ⟨-, rfl⟩ | ⟨hm, -⟩
    · exact hf
    · exact h.drawn k g hm

theorem Named.unlinkLease (h : Named s) (n : LeaseName) : Named (s.unlinkLease key n) where
  unique := fun k f g hf hg he =>
    h.unique k f g (mem_unlinkLease.mp hf).1 (mem_unlinkLease.mp hg).1 he
  drawn := fun k f hf => h.drawn k f (mem_unlinkLease.mp hf).1

/-! ## What a call that is no eviction or no lease has to do with the handshake -/

variable {dead : ℕ → Bool} {pid : ℕ} {i : Input} {t : Store} {a b : Call Phase}

/-- A call that is neither a lease nor an eviction. -/
def Phase.plain : Phase → Bool
  | .lease _ _ | .evict _ _ => false
  | _ => true

theorem Guarded.of_plain (hp : a.state.plain = true) (hd : Drawn a s) : Guarded dead a s := by
  obtain ⟨q, k⟩ := a
  cases k with
  | lease _ _ => cases hp
  | evict _ _ => cases hp
  | _ =>
    refine ⟨hd, ?_, ?_, ?_, ?_, ?_⟩
    · intro u hu
      cases hu
    · intro _ key u hu
      cases hu
    · intro _ key hk
      cases hk
    · intro n hn
      cases hn
    · intro _ key hk
      cases hk

theorem Handshake.of_no_eviction (ha : ∀ m p, a.state ≠ .evict m p) (h : Apart a b) :
    Handshake dead a b := by
  obtain ⟨q, k⟩ := a
  cases k with
  | evict m p => exact absurd rfl (ha m p)
  | _ =>
    refine ⟨h, ?_, ?_, ?_⟩
    · intro u _ hn
      cases hn
    · intro _ key u _
      trivial
    · intro _ _ key u _ hw
      cases hw

theorem Handshake.of_no_lease (hb : ∀ key p, b.state ≠ .lease key p) (h : Apart a b) :
    Handshake dead a b := by
  obtain ⟨q, k⟩ := b
  cases k with
  | lease key p => exact absurd rfl (hb key p)
  | _ =>
    refine ⟨h, ?_, ?_, ?_⟩
    · intro u hu
      cases hu
    · intro _ key u hu
      cases hu
    · intro _ _ key u hu
      cases hu

theorem Handshake.of_plain_left (ha : a.state.plain = true) (h : Apart a b) :
    Handshake dead a b := by
  refine Handshake.of_no_eviction ?_ h
  intro m p he
  rw [he] at ha
  cases ha

theorem Handshake.of_plain_right (hb : b.state.plain = true) (h : Apart a b) :
    Handshake dead a b := by
  refine Handshake.of_no_lease ?_ h
  intro key p he
  rw [he] at hb
  cases hb

/-- What a call relies on stays when its file, its checkpoint and its window stay. -/
theorem Guarded.frame (h : Guarded dead b s) (hu : s.nextUuid ≤ t.nextUuid)
    (ha : ∀ u, b.state.unrenamed = some u → ∀ key, ∀ f ∈ t.leases key, f ∉ s.leases key →
      f.name ≠ ⟨u, true⟩)
    (hf : dead b.process = false → ∀ key u, b.state.renamed = some (key, u) →
      ⟨⟨u, true⟩, some b.process⟩ ∈ s.leases key → ⟨⟨u, true⟩, some b.process⟩ ∈ t.leases key)
    (hc : dead b.process = false → ∀ key, b.state.found = some key → s.hasCheckpoint key →
      t.hasCheckpoint key)
    (hw : dead b.process = false → ∀ key, b.state.window = some key → s.sidecars key = none →
      t.sidecars key = none) : Guarded dead b t where
  drawn := fun u hb => lt_of_lt_of_le (h.drawn u hb) hu
  absent := fun u hb key f hf => by
    by_cases hs : f ∈ s.leases key
    · exact h.absent u hb key f hs
    · exact ha u hb key f hf hs
  file := fun hl key u hr => hf hl key u hr (h.file hl key u hr)
  checkpoint := fun hl key hk => hc hl key hk (h.checkpoint hl key hk)
  hand := fun n hn => lt_of_lt_of_le (h.hand n hn) hu
  window := fun hl key hk => hw hl key hk (h.window hl key hk)

/-! ## Locks, publications, failures and waits -/

/-- What a plain call changes: it removes no lease and no checkpoint, and adds a sidecar only where
it publishes one. -/
theorem movePhase_plain {k k' : Phase} (hk : k.plain = true)
    (h : movePhase dead pid i k s = some (t, k')) :
    k'.plain = true ∧ t.leases = s.leases ∧ (∀ key, s.hasCheckpoint key → t.hasCheckpoint key) ∧
      ∀ key, t.sidecars key = s.sidecars key ∨ k = .publish key .sidecar := by
  cases k with
  | lease _ _ => cases hk
  | evict _ _ => cases hk
  | tryLock key p =>
    obtain ⟨⟨u, q⟩, hm, hr⟩ := Option.map_eq_some_iff.mp h
    cases hr
    have hs : u.leases = s.leases ∧ u.checkpoints = s.checkpoints ∧ u.sidecars = s.sidecars := by
      cases p with
      | link round =>
        simp only [moveLock] at hm
        split at hm <;> cases hm <;> exact ⟨rfl, rfl, rfl⟩
      | probe round owner =>
        simp only [moveLock] at hm
        split at hm <;> cases hm <;> exact ⟨rfl, rfl, rfl⟩
      | refused => cases hm
      | released => cases hm
      | _ =>
        cases hm
        exact ⟨rfl, rfl, rfl⟩
    refine ⟨rfl, hs.1, ?_, fun key => Or.inl (congrFun hs.2.2 key)⟩
    intro key hc
    rw [Store.hasCheckpoint, hs.2.1]
    exact hc
  | publish key p =>
    obtain ⟨⟨u, q⟩, hm, hr⟩ := Option.map_eq_some_iff.mp h
    cases hr
    cases p with
    | rename bytes =>
      cases hm
      exact ⟨rfl, rfl, fun key hc => Store.hasCheckpoint_put hc, fun key => Or.inl rfl⟩
    | sidecar =>
      cases hm
      refine ⟨rfl, rfl, fun key hc => hc, ?_⟩
      intro key'
      by_cases he : key' = key
      · subst he
        exact Or.inr rfl
      · exact Or.inl (Function.update_of_ne he _ _)
    | stat =>
      cases hm
      exact ⟨rfl, rfl, fun key hc => hc, fun key => Or.inl rfl⟩
    | clear =>
      cases hm
      exact ⟨rfl, rfl, fun key hc => hc, fun key => Or.inl rfl⟩
    | done => cases hm
    | thrown => cases hm
  | recordFailure key recorded =>
    cases recorded with
    | false =>
      cases h
      exact ⟨rfl, rfl, fun key hc => hc, fun key => Or.inl rfl⟩
    | true => cases h
  | waitFor key startedAt timeoutMs failureRetryMs p =>
    obtain ⟨q, -, hr⟩ := Option.map_eq_some_iff.mp h
    cases hr
    exact ⟨rfl, rfl, fun key hc => hc, fun key => Or.inl rfl⟩

/-- A live eviction in its window for the key excludes that its sidecar is published. -/
theorem unpublished_window {w : World Store Phase} {c d : ℕ} (hw : leaseOutline.Holds w)
    (hok : unpublished w (.move c i) = true) (hc : w.calls c = some ⟨pid, .publish key .sidecar⟩)
    (hb : w.calls d = some b) (hl : w.dead b.process = false) : b.state.window ≠ some key := by
  have hd : d < w.next := by
    by_contra hlt
    have := hw.unused d (Nat.le_of_not_lt hlt)
    rw [hb] at this
    cases this
  simp only [unpublished, hc] at hok
  have := List.all_eq_true.mp hok d (List.mem_range.mpr hd)
  rw [hb] at this
  simpa [hl] using this

theorem kept_plain {w : World Store Phase} (hw : leaseOutline.Holds w) {c : ℕ} {k k' : Phase}
    (hok : unpublished w (.move c i) = true) (hc : w.calls c = some ⟨pid, k⟩)
    (hk : k.plain = true) (h : movePhase w.dead pid i k w.shared = some (t, k')) :
    leaseOutline.Kept w c ⟨pid, k'⟩ t := by
  obtain ⟨hk', hl, hcp, hsc⟩ := movePhase_plain hk h
  have hu := (movePhase_uuid h).1
  have hda := (hw.each c _ hc).drawn
  refine ⟨⟨?_, ?_⟩, Guarded.of_plain hk' (hda.move h), ?_, ?_⟩
  · rw [hl]
    exact hw.all.unique
  · intro key f hf
    rw [hl] at hf
    exact lt_of_lt_of_le (hw.all.drawn key f hf) hu
  · intro d b hd hb
    have hgb := hw.each d b hb
    have hap : Apart ⟨pid, k'⟩ b := (hw.pair c _ d b hd.symm hc hb).apart.move h hgb.drawn
    refine ⟨hgb.frame hu ?_ ?_ ?_ ?_, Handshake.of_plain_left hk' hap,
      Handshake.of_plain_right hk' hap.symm⟩
    · intro u _ key f hf hn
      rw [hl] at hf
      exact absurd hf hn
    · intro _ key u _ hf
      rw [hl]
      exact hf
    · exact fun _ key _ hcb => hcp key hcb
    · intro hlb key hwin hn
      rcases hsc key with he | rfl
      · exact he.trans hn
      · exact absurd hwin (unpublished_window hw hok hc hb hlb)
  · intro d b e f _ _ hne hb hf
    exact hw.pair d b e f hne hb hf

/-! ## Leases -/

theorem moveLease_frame {p q : LeasePhase} (h : moveLease pid key p s = some (t, q)) :
    t.checkpoints = s.checkpoints ∧ (∀ k, s.sidecars k = none → t.sidecars k = none) ∧
      ∀ k f, f ∈ s.leases k → f.name.uuid < s.nextUuid →
        Phase.uuid (.lease key p) ≠ some f.name.uuid → f ∈ t.leases k := by
  have hput : ∀ (v : Store) (g : LeaseFile), v.leases = s.leases → ∀ k f, f ∈ s.leases k →
      g.name.uuid ≠ f.name.uuid → f ∈ (v.putLease key g).leases k := by
    intro v g hv k f hf hne
    refine mem_putLease.mpr (Or.inr ⟨?_, fun _ => hne.symm⟩)
    rw [hv]
    exact hf
  cases p with
  | create =>
    cases h
    refine ⟨rfl, fun k hn => hn, ?_⟩
    intro k f hf hlt _
    exact hput _ _ rfl k f hf (Nat.ne_of_gt hlt)
  | write u =>
    cases h
    exact ⟨rfl, fun k hn => hn, fun k f hf _ hne => hput _ _ rfl k f hf (by simpa [Phase.uuid] using hne)⟩
  | rename u =>
    cases h
    exact ⟨rfl, fun k hn => hn, fun k f hf _ hne => hput _ _ rfl k f hf (by simpa [Phase.uuid] using hne)⟩
  | touch u =>
    cases h
    refine ⟨rfl, ?_, fun k f hf _ _ => hf⟩
    intro k hn
    by_cases hk : k = key
    · subst hk
      show Function.update s.sidecars k _ k = none
      rw [Function.update_self, hn]
      rfl
    · exact (Function.update_of_ne hk _ _).trans hn
  | unlink u returned =>
    cases h
    refine ⟨rfl, fun k hn => hn, ?_⟩
    intro k f hf _ hne
    refine mem_unlinkLease.mpr ⟨hf, fun _ he => hne ?_⟩
    rw [he]
    rfl
  | done returned => cases h
  | _ =>
    cases h
    exact ⟨rfl, fun k hn => hn, fun k f hf _ _ => hf⟩

/-- A file that a move of a lease adds has the name of the lease, the temporary one until the
rename. -/
theorem moveLease_added {p q : LeasePhase} (h : moveLease pid key p s = some (t, q)) {k : ℕ}
    {f : LeaseFile} (hf : f ∈ t.leases k) (hn : f ∉ s.leases k) :
    Phase.uuid (.lease key q) = some f.name.uuid ∧
      (Phase.unrenamed (.lease key q) ≠ none → f.name.json = false) := by
  cases p with
  | create =>
    cases h
    rcases mem_putLease.mp hf with ⟨-, rfl⟩ | ⟨hm, -⟩
    · exact ⟨rfl, fun _ => rfl⟩
    · exact absurd hm hn
  | write u =>
    cases h
    rcases mem_putLease.mp hf with ⟨-, rfl⟩ | ⟨hm, -⟩
    · exact ⟨rfl, fun _ => rfl⟩
    · exact absurd hm hn
  | rename u =>
    cases h
    rcases mem_putLease.mp hf with ⟨-, rfl⟩ | ⟨hm, -⟩
    · exact ⟨rfl, fun hq => absurd rfl hq⟩
    · exact absurd hm hn
  | unlink u returned =>
    cases h
    exact absurd (mem_unlinkLease.mp hf).1 hn
  | done returned => cases h
  | _ =>
    cases h
    exact absurd hf hn

theorem Named.move_lease {p q : LeasePhase} (hs : Named s) (hd : Drawn ⟨pid, .lease key p⟩ s)
    (h : moveLease pid key p s = some (t, q)) : Named t := by
  cases p with
  | create =>
    cases h
    have hd : Named s.drawUuid := ⟨hs.unique, fun k f hf => Nat.lt_succ_of_lt (hs.drawn k f hf)⟩
    exact hd.putLease (Nat.lt_succ_self _)
  | write u =>
    cases h
    exact hs.putLease (hd u rfl)
  | rename u =>
    cases h
    exact hs.putLease (hd u rfl)
  | unlink u returned =>
    cases h
    exact hs.unlinkLease _
  | touch u =>
    cases h
    exact ⟨hs.unique, hs.drawn⟩
  | done returned => cases h
  | _ =>
    cases h
    exact hs

theorem Phase.spares_of_not_mem {k : Phase} {n : LeaseName} (h : n ∉ k.hand) :
    k.Spares key n pid := by
  unfold Spares
  split
  · next m c e again p =>
    intro _
    cases p with
    | probe n' owner todo live =>
      rintro rfl
      exact absurd List.mem_cons_self h
    | unlink n' todo live =>
      rintro rfl
      exact absurd List.mem_cons_self h
    | _ => trivial
  · trivial

theorem Guarded.move_lease {p q : LeasePhase} (hs : Named s)
    (hg : Guarded dead ⟨pid, .lease key p⟩ s) (h : moveLease pid key p s = some (t, q)) : Guarded dead ⟨pid, .lease key q⟩ t := by
  have hdr : Drawn ⟨pid, .lease key q⟩ t := by
    have hm : movePhase dead pid .none (.lease key p) s = some (t, .lease key q) := by
      simp only [movePhase, h, Option.map_some]
    exact hg.drawn.move hm
  have hno : ∀ n ∈ Phase.hand (.lease key q), n.uuid < t.nextUuid := fun n hn => by cases hn
  have hnw : dead pid = false → ∀ k, Phase.window (.lease key q) = some k → t.sidecars k = none :=
    fun _ k hk => by cases hk
  refine ⟨hdr, ?_, ?_, ?_, hno, hnw⟩
  · intro u hu k f hf he
    by_cases hn : f ∈ s.leases k
    · -- no file has the name before the rename
      cases p with
      | create =>
        cases h
        cases hu
        have := hs.drawn k f hn
        rw [he] at this
        exact this.false
      | write v =>
        cases h
        cases hu
        exact hg.absent u rfl k f hn he
      | sidecar v =>
        cases h
        split at hu <;> cases hu
      | stat v =>
        cases h
        split at hu <;> cases hu
      | done returned => cases h
      | _ =>
        cases h
        cases hu
    · have hj := (moveLease_added h hf hn).2 (by rw [hu]; exact Option.some_ne_none u)
      rw [he] at hj
      cases hj
  · intro hl k u hu
    cases p with
    | rename v =>
      cases h
      cases hu
      exact mem_putLease.mpr (Or.inl ⟨rfl, rfl⟩)
    | sidecar v =>
      cases h
      split at hu
      · cases hu
        exact hg.file hl key u rfl
      · cases hu
    | stat v =>
      cases h
      split at hu
      · cases hu
        exact hg.file hl key u rfl
      · cases hu
    | touch v =>
      cases h
      cases hu
      exact hg.file hl key u rfl
    | done returned => cases h
    | _ =>
      cases h
      cases hu
  · intro hl k hk
    cases p with
    | stat v =>
      cases h
      split at hk
      · next hc =>
        cases hk
        exact hc
      · cases hk
    | touch v =>
      cases h
      cases hk
      exact hg.checkpoint hl key rfl
    | sidecar v =>
      cases h
      split at hk <;> cases hk
    | done returned => cases h
    | _ =>
      cases h
      cases hk

/-- What a move of a lease keeps of the handshake: its name is new when it is drawn, no eviction has
listed it when the file gets it, and no eviction is in its window when it finds the sidecar. -/
theorem Handshake.move_lease {p q : LeasePhase} (hb : Guarded dead b s)
    (hh : Handshake dead b ⟨pid, .lease key p⟩) (hap : Apart b ⟨pid, .lease key q⟩)
    (h : moveLease pid key p s = some (t, q)) : Handshake dead b ⟨pid, .lease key q⟩ := by
  refine ⟨hap, ?_, ?_, ?_⟩
  · intro u hu
    cases p with
    | create =>
      cases h
      cases hu
      intro hm
      exact (hb.hand _ hm).false
    | write v =>
      cases h
      cases hu
      exact hh.unnamed u rfl
    | sidecar v =>
      cases h
      split at hu <;> cases hu
    | stat v =>
      cases h
      split at hu <;> cases hu
    | done returned => cases h
    | _ =>
      cases h
      cases hu
  · intro hl k u hu
    cases p with
    | rename v =>
      cases h
      cases hu
      exact Phase.spares_of_not_mem (hh.unnamed u rfl)
    | sidecar v =>
      cases h
      split at hu
      · cases hu
        exact hh.spares hl key u rfl
      · cases hu
    | stat v =>
      cases h
      split at hu
      · cases hu
        exact hh.spares hl key u rfl
      · cases hu
    | touch v =>
      cases h
      cases hu
      exact hh.spares hl key u rfl
    | done returned => cases h
    | _ =>
      cases h
      cases hu
  · intro hlb hl k u hu hw
    cases p with
    | sidecar v =>
      cases h
      split at hu
      · next hs =>
        cases hu
        rw [hb.window hlb key hw] at hs
        cases hs
      · cases hu
    | stat v =>
      cases h
      split at hu
      · cases hu
        exact hh.sees hlb hl key u rfl hw
      · cases hu
    | touch v =>
      cases h
      cases hu
      exact hh.sees hlb hl key u rfl hw
    | done returned => cases h
    | _ =>
      cases h
      cases hu

theorem kept_lease {w : World Store Phase} (hw : leaseOutline.Holds w) {c : ℕ} {p q : LeasePhase}
    (hc : w.calls c = some ⟨pid, .lease key p⟩) (h : moveLease pid key p w.shared = some (t, q)) :
    leaseOutline.Kept w c ⟨pid, .lease key q⟩ t := by
  have hm : movePhase w.dead pid .none (.lease key p) w.shared = some (t, .lease key q) := by
    simp only [movePhase, h, Option.map_some]
  have hg := hw.each c _ hc
  obtain ⟨hcp, hsc, hlf⟩ := moveLease_frame h
  have hu := (movePhase_uuid hm).1
  refine ⟨hw.all.move_lease hg.drawn h, hg.move_lease hw.all h, ?_, ?_⟩
  · intro d b hd hb
    have hgb := hw.each d b hb
    have hap : Apart ⟨pid, .lease key q⟩ b := (hw.pair c _ d b hd.symm hc hb).apart.move hm hgb.drawn
    refine ⟨hgb.frame hu ?_ ?_ ?_ ?_, Handshake.of_no_eviction (fun m p he => by cases he) hap,
      (hw.pair d b c _ hd hb hc).move_lease hgb hap.symm h⟩
    · intro u hr k f hf hn he
      have hbu : b.state.uuid = some u := by
        unfold Phase.unrenamed at hr
        split at hr <;> cases hr <;> simp only [Phase.uuid, *]
      have hqu := (moveLease_added h hf hn).1
      rw [he] at hqu
      exact hap u hqu hbu
    · intro _ k u hr hf
      have hbu : b.state.uuid = some u := by
        unfold Phase.renamed at hr
        split at hr <;> cases hr <;> simp only [Phase.uuid, *]
      refine hlf k _ hf (hgb.drawn u hbu) ?_
      intro he
      exact (hw.pair c _ d b hd.symm hc hb).apart u he hbu
    · intro _ k _ hcb
      rw [Store.hasCheckpoint, hcp]
      exact hcb
    · exact fun _ k _ hn => hsc k hn
  · intro d b e f _ _ hne hb hf
    exact hw.pair d b e f hne hb hf

/-! ## Evictions -/

theorem moveLeased_hand {p q : LeasedPhase} (h : moveLeased dead key i p s = some (t, .inl q))
    {n : LeaseName} (hn : n ∈ q.hand) : n ∈ p.hand ∨ ∃ f ∈ s.leases key, f.name = n := by
  cases p with
  | readdir =>
    simp only [moveLeased] at h
    split at h
    · next names =>
      split at h
      · next hp =>
        cases h
        exact Or.inr (List.mem_map.mp (hp.mem_iff.mp hn))
      · cases h
    · cases h
  | entries todo live =>
    cases todo with
    | nil => cases h
    | cons m todo =>
      cases h
      exact Or.inl hn
  | probe m owner todo live =>
    simp only [moveLeased] at h
    split_ifs at h <;> cases h
    · exact Or.inl (List.mem_cons_of_mem m hn)
    · exact Or.inl hn
    · exact Or.inl (List.mem_cons_of_mem m hn)
  | unlink m todo live =>
    cases h
    exact Or.inl (List.mem_cons_of_mem m hn)

/-- `leased` spares the recorded lease of a live process, and does not lose sight of it. -/
theorem moveLeased_spares {p q : LeasedPhase} (hs : Named s) {n : LeaseName}
    (hf : ⟨n, some pid⟩ ∈ s.leases key) (hl : dead pid = false) (hp : p.Spares n pid)
    (h : moveLeased dead key i p s = some (t, .inl q)) :
    q.Spares n pid ∧ (p.Sees n → q.Sees n) := by
  cases p with
  | readdir =>
    simp only [moveLeased] at h
    split at h
    · next names =>
      split at h
      · next hperm =>
        cases h
        refine ⟨trivial, fun _ => Or.inr (hperm.mem_iff.mpr ?_)⟩
        exact List.mem_map.mpr ⟨_, hf, rfl⟩
      · cases h
    · cases h
  | entries todo live =>
    cases todo with
    | nil => cases h
    | cons m todo =>
      cases h
      refine ⟨?_, ?_⟩
      · rintro rfl
        exact leaseOwner_of_mem hs hf
      · rintro (hlive | hm)
        · exact Or.inl hlive
        · rcases List.mem_cons.mp hm with rfl | hm
          · exact Or.inr (Or.inl rfl)
          · exact Or.inr (Or.inr hm)
  | probe m owner todo live =>
    -- the owner of the lease is alive, so it is not the one that is unlinked or passed over
    have hdead : ownerAlive dead owner = false → m ≠ n := by
      rintro ho rfl
      rw [hp rfl] at ho
      simp [ownerAlive, hl] at ho
    simp only [moveLeased] at h
    split_ifs at h with ho hj
    · cases h
      exact ⟨trivial, fun _ => Or.inl rfl⟩
    · cases h
      have hne := hdead (by simpa using ho)
      refine ⟨hne, ?_⟩
      rintro (hlive | hm | hm)
      · exact Or.inl hlive
      · exact absurd hm hne
      · exact Or.inr hm
    · cases h
      have hne := hdead (by simpa using ho)
      refine ⟨trivial, ?_⟩
      rintro (hlive | hm | hm)
      · exact Or.inl hlive
      · exact absurd hm hne
      · exact Or.inr hm
  | unlink m todo live =>
    cases h
    exact ⟨trivial, fun hm => hm⟩

theorem moveLeased_return {p : LeasedPhase} {live : Bool}
    (h : moveLeased dead key i p s = some (t, .inr live)) {n : LeaseName} (hp : p.Sees n) :
    live = true := by
  cases p with
  | readdir =>
    simp only [moveLeased] at h
    split at h
    · split at h <;> cases h
    · cases h
  | entries todo l =>
    cases todo with
    | nil =>
      cases h
      rcases hp with hp | hp
      · exact hp
      · cases hp
    | cons m todo => cases h
  | probe m owner todo l =>
    simp only [moveLeased] at h
    split_ifs at h <;> cases h
  | unlink m todo l => cases h

/-- **The phases of `evict`**: outside `leased` and before its last unlink it knows nothing of
leases; it comes to the last unlink only from a second `leased` that found none. -/
theorem moveEvict_phases {maxBytes : ℕ} {p q : EvictPhase}
    (h : moveEvict dead maxBytes i p s = some (t, q)) :
    (∀ m, Phase.hand (.evict m q) = [] ∧ Phase.window (.evict m q) = none ∧
        ∀ k n r, Phase.Spares k n r (.evict m q)) ∨
      (∃ c e again lp lq, p = .leased c e again lp ∧ q = .leased c e again lq ∧
        moveLeased dead c.key i lp s = some (t, .inl lq)) ∨
      (∃ c e lp, p = .leased c e true lp ∧ q = .checkpoint c e ∧
        moveLeased dead c.key i lp s = some (t, .inr false)) ∨
      ∃ c e, q = .leased c e true .readdir ∧ t.sidecars c.key = none := by
  have hquiet : ∀ e : Eviction, ∀ m, Phase.hand (.evict m (.next e)) = [] ∧
      Phase.window (.evict m (.next e)) = none ∧ ∀ k n r, Phase.Spares k n r (.evict m (.next e)) :=
    fun e m => ⟨rfl, rfl, fun _ _ _ => trivial⟩
  cases p with
  | readdir =>
    simp only [moveEvict] at h
    split at h
    · split at h
      · cases h
        exact Or.inl fun m => ⟨rfl, rfl, fun _ _ _ => trivial⟩
      · cases h
    · cases h
  | size todo candidates total =>
    cases todo with
    | nil =>
      cases h
      exact Or.inl (hquiet _)
    | cons key todo =>
      simp only [moveEvict] at h
      split at h <;> cases h <;> exact Or.inl fun m => ⟨rfl, rfl, fun _ _ _ => trivial⟩
  | used key bytes todo candidates total =>
    cases h
    exact Or.inl fun m => ⟨rfl, rfl, fun _ _ _ => trivial⟩
  | next e =>
    simp only [moveEvict] at h
    split at h
    · cases h
      exact Or.inl fun m => ⟨rfl, rfl, fun _ _ _ => trivial⟩
    · split at h
      · cases h
        exact Or.inl fun m => ⟨rfl, rfl, fun _ _ _ => trivial⟩
      · cases h
        exact Or.inl fun m => ⟨rfl, rfl, fun _ _ _ _ => trivial⟩
  | leased c e again p =>
    obtain ⟨⟨v, r⟩, hm, hr⟩ := Option.map_eq_some_iff.mp h
    cases r with
    | inl lq =>
      cases hr
      exact Or.inr (Or.inl ⟨c, e, again, p, lq, rfl, rfl, hm⟩)
    | inr live =>
      cases live with
      | true =>
        cases hr
        exact Or.inl (hquiet e)
      | false =>
        cases again with
        | true =>
          cases hr
          exact Or.inr (Or.inr (Or.inl ⟨c, e, p, rfl, rfl, hm⟩))
        | false =>
          cases hr
          exact Or.inl fun m => ⟨rfl, rfl, fun _ _ _ => trivial⟩
  | locked c e =>
    cases h
    exact Or.inl fun m => ⟨rfl, rfl, fun _ _ _ => trivial⟩
  | probe c e owner =>
    simp only [moveEvict] at h
    cases h
    split
    · exact Or.inl (hquiet e)
    · exact Or.inl fun m => ⟨rfl, rfl, fun _ _ _ => trivial⟩
  | sidecar c e =>
    cases h
    exact Or.inr (Or.inr (Or.inr ⟨c, e, rfl, Function.update_self _ _ _⟩))
  | checkpoint c e =>
    cases h
    exact Or.inl (hquiet _)
  | done evicted evictedBytes => cases h

variable {maxBytes : ℕ}

theorem Guarded.move_evict {p q : EvictPhase} (hs : Named s)
    (hg : Guarded dead ⟨pid, .evict maxBytes p⟩ s) (hl : dead pid = false)
    (h : moveEvict dead maxBytes i p s = some (t, q)) : Guarded dead ⟨pid, .evict maxBytes q⟩ t := by
  have hm : movePhase dead pid i (.evict maxBytes p) s = some (t, .evict maxBytes q) := by
    simp only [movePhase, h, Option.map_some]
  have hu := (movePhase_uuid hm).1
  have hsc : ∀ k, s.sidecars k = none → t.sidecars k = none := by
    intro k hn
    rcases moveEvict_cases h with rfl | ⟨c, e, again, n, todo, live, -, rfl, -⟩ |
      ⟨c, e, -, rfl, -⟩ | ⟨c, e, e', -, rfl, -⟩
    · exact hn
    · exact hn
    · by_cases hk : k = c.key
      · subst hk
        exact Function.update_self _ _ _
      · exact (Function.update_of_ne hk _ _).trans hn
    · exact hn
  refine ⟨hg.drawn.move hm, fun u hr => (by cases hr), fun _ k u hr => (by cases hr),
    fun _ k hr => (by cases hr), ?_, ?_⟩
  · intro n hn
    rcases moveEvict_phases h with hq | ⟨c, e, again, lp, lq, rfl, rfl, hml⟩ |
      ⟨c, e, lp, rfl, rfl, hml⟩ | ⟨c, e, rfl, -⟩
    · have hn' : n ∈ Phase.hand (.evict maxBytes q) := hn
      rw [(hq maxBytes).1] at hn'
      cases hn'
    · rcases moveLeased_hand hml hn with hp | ⟨f, hf, rfl⟩
      · exact lt_of_lt_of_le (hg.hand n hp) hu
      · exact lt_of_lt_of_le (hs.drawn _ f hf) hu
    · cases hn
    · cases hn
  · intro _ k hk
    rcases moveEvict_phases h with hq | ⟨c, e, again, lp, lq, rfl, rfl, hml⟩ |
      ⟨c, e, lp, rfl, rfl, hml⟩ | ⟨c, e, rfl, hsn⟩
    · cases (hq maxBytes).2.1.symm.trans hk
    · cases again with
      | true => exact hsc k (hg.window hl k hk)
      | false => cases hk
    · exact hsc k (hg.window hl k hk)
    · cases hk
      exact hsn

/-- What a move of an eviction keeps of the handshake with a lease. -/
theorem Handshake.move_evict {p q : EvictPhase} (hs : Named s) (hb : Guarded dead b s)
    (hh : Handshake dead ⟨pid, .evict maxBytes p⟩ b) (hap : Apart ⟨pid, .evict maxBytes q⟩ b)
    (h : moveEvict dead maxBytes i p s = some (t, q)) :
    Handshake dead ⟨pid, .evict maxBytes q⟩ b := by
  rcases moveEvict_phases h with hq | ⟨c, e, again, lp, lq, rfl, rfl, hml⟩ |
    ⟨c, e, lp, rfl, rfl, hml⟩ | ⟨c, e, rfl, -⟩
  · refine ⟨hap, ?_, fun _ k u _ => (hq maxBytes).2.2 k _ _, ?_⟩
    · intro u _ hn
      have hn' : ⟨u, true⟩ ∈ Phase.hand (.evict maxBytes q) := hn
      rw [(hq maxBytes).1] at hn'
      cases hn'
    · intro _ _ k u _ hw
      cases (hq maxBytes).2.1.symm.trans hw
  · refine ⟨hap, ?_, ?_, ?_⟩
    · intro u hu hn
      rcases moveLeased_hand hml hn with hp | ⟨f, hf, he⟩
      · exact hh.unnamed u hu hp
      · exact hb.absent u hu _ f hf he
    · intro hl k u hu hk
      subst hk
      exact (moveLeased_spares hs (hb.file hl _ u hu) hl (hh.spares hl _ u hu rfl) hml).1
    · intro hla hl k u hu hw
      have hr : b.state.renamed = some (k, u) := by
        unfold Phase.granted at hu
        split at hu <;> cases hu <;> simp only [Phase.renamed, *]
      cases again with
      | true =>
        have hk : c.key = k := Option.some.inj hw
        subst hk
        have hsp := hh.spares hl _ u hr rfl
        exact (moveLeased_spares hs (hb.file hl _ u hr) hl hsp hml).2 (hh.sees hla hl _ u hu hw)
      | false => cases hw
  · refine ⟨hap, fun u _ hn => (by cases hn), fun _ k u _ => trivial, ?_⟩
    intro hla hl k u hu hw
    cases moveLeased_return hml (hh.sees hla hl k u hu hw)
  · exact ⟨hap, fun u _ hn => (by cases hn), fun _ k u _ _ => trivial, fun _ _ k u _ _ => trivial⟩

theorem kept_evict {w : World Store Phase} (hw : leaseOutline.Holds w) {c : ℕ}
    {p q : EvictPhase} (hc : w.calls c = some ⟨pid, .evict maxBytes p⟩) (hl : w.dead pid = false)
    (h : moveEvict w.dead maxBytes i p w.shared = some (t, q)) :
    leaseOutline.Kept w c ⟨pid, .evict maxBytes q⟩ t := by
  have hm : movePhase w.dead pid i (.evict maxBytes p) w.shared = some (t, .evict maxBytes q) := by
    simp only [movePhase, h, Option.map_some]
  have hg := hw.each c _ hc
  have hu := (movePhase_uuid hm).1
  have hsub : ∀ k f, f ∈ t.leases k → f ∈ w.shared.leases k := by
    intro k f hf
    rcases moveEvict_cases h with rfl | ⟨c, e, again, n, todo, live, -, rfl, -⟩ |
      ⟨c, e, -, rfl, -⟩ | ⟨c, e, e', -, rfl, -⟩
    · exact hf
    · exact (mem_unlinkLease.mp hf).1
    · exact hf
    · exact hf
  refine ⟨?_, hg.move_evict hw.all hl h, ?_, ?_⟩
  · refine ⟨fun k f g hf hg' => hw.all.unique k f g (hsub k f hf) (hsub k g hg'), ?_⟩
    exact fun k f hf => lt_of_lt_of_le (hw.all.drawn k f (hsub k f hf)) hu
  · intro d b hd hb
    have hgb := hw.each d b hb
    have hh := hw.pair c _ d b hd.symm hc hb
    have hap : Apart ⟨pid, .evict maxBytes q⟩ b := hh.apart.move hm hgb.drawn
    refine ⟨hgb.frame hu ?_ ?_ ?_ ?_, hh.move_evict hw.all hgb hap h,
      Handshake.of_no_lease (fun k p he => by cases he) hap.symm⟩
    · intro u _ k f hf hn
      exact absurd (hsub k f hf) hn
    · intro hlb k u hr hf
      rcases moveEvict_cases h with rfl | ⟨c, e, again, n, todo, live, rfl, rfl, -⟩ |
        ⟨c, e, -, rfl, -⟩ | ⟨c, e, e', -, rfl, -⟩
      · exact hf
      · refine mem_unlinkLease.mpr ⟨hf, fun hk => ?_⟩
        exact fun he => hh.spares hlb k u hr hk.symm he.symm
      · exact hf
      · exact hf
    · intro hlb k hk hcb
      rcases moveEvict_cases h with rfl | ⟨c, e, again, n, todo, live, -, rfl, -⟩ |
        ⟨c, e, -, rfl, -⟩ | ⟨c, e, e', rfl, rfl, -⟩
      · exact hcb
      · exact hcb
      · exact hcb
      · -- the second look would have found the lease
        refine Store.hasCheckpoint_unlink hcb ?_
        rintro rfl
        obtain ⟨u, hgr⟩ : ∃ u, b.state.granted = some (c.key, u) := by
          unfold Phase.found at hk
          split at hk <;> cases hk <;> simp only [Phase.granted, *] <;> exact ⟨_, rfl⟩
        exact hh.sees hl hlb c.key u hgr rfl
    · intro _ k _ hn
      rcases moveEvict_cases h with rfl | ⟨c, e, again, n, todo, live, -, rfl, -⟩ |
        ⟨c, e, -, rfl, -⟩ | ⟨c, e, e', -, rfl, -⟩
      · exact hn
      · exact hn
      · by_cases hk : k = c.key
        · subst hk
          exact Function.update_self _ _ _
        · exact (Function.update_of_ne hk _ _).trans hn
      · exact hn
  · intro d b e f _ _ hne hb hf
    exact hw.pair d b e f hne hb hf

/-! ## Runs -/

theorem Phase.plain_of_entry {k : Phase} (h : k.entry = true) :
    k.plain = true ∨ (∃ key, k = .lease key .create) ∨ ∃ m, k = .evict m .readdir := by
  unfold entry at h
  split at h
  · exact Or.inl rfl
  · next key => exact Or.inr (Or.inl ⟨key, rfl⟩)
  · exact Or.inl rfl
  · exact Or.inl rfl
  · exact Or.inl rfl
  · next m => exact Or.inr (Or.inr ⟨m, rfl⟩)
  · cases h

/-- A call that begins relies on nothing, and no other call on it. -/
theorem begun_entry (dead : ℕ → Bool) {k : Phase} (h : k.entry = true) (p : ℕ) (s : Store) :
    Guarded dead ⟨p, k⟩ s ∧ ∀ b : Call Phase, Handshake dead ⟨p, k⟩ b ∧ Handshake dead b ⟨p, k⟩ := by
  have hn : k.uuid = none := by
    unfold Phase.entry at h
    split at h <;> first | rfl | cases h
  have hd : Drawn ⟨p, k⟩ s := fun u hu => by cases hn.symm.trans hu
  have hap : ∀ b, Apart ⟨p, k⟩ b := fun b u hu => by cases hn.symm.trans hu
  rcases Phase.plain_of_entry h with hp | ⟨key, rfl⟩ | ⟨m, rfl⟩
  · exact ⟨Guarded.of_plain hp hd, fun b =>
      ⟨Handshake.of_plain_left hp (hap b), Handshake.of_plain_right hp (hap b).symm⟩⟩
  · refine ⟨⟨hd, fun u hu => (by cases hu), fun _ k u hu => (by cases hu),
      fun _ k hk => (by cases hk), fun n hn => (by cases hn), fun _ k hk => (by cases hk)⟩, ?_⟩
    intro b
    refine ⟨Handshake.of_no_eviction (fun m p he => by cases he) (hap b), ⟨(hap b).symm, ?_, ?_, ?_⟩⟩
    · intro u hu
      cases hu
    · intro _ k u hu
      cases hu
    · intro _ _ k u hu
      cases hu
  · refine ⟨⟨hd, fun u hu => (by cases hu), fun _ k u hu => (by cases hu),
      fun _ k hk => (by cases hk), fun n hn => (by cases hn), fun _ k hk => (by cases hk)⟩, ?_⟩
    intro b
    refine ⟨⟨hap b, ?_, fun _ k u _ => trivial, ?_⟩,
      Handshake.of_no_lease (fun key p he => by cases he) (hap b).symm⟩
    · intro u _ hn
      cases hn
    · intro _ _ k u _ hw
      cases hw

theorem alive_before {p q : ℕ} (h : Function.update dead p true q = false) : dead q = false := by
  by_cases hq : q = p
  · rw [hq, Function.update_self] at h
    cases h
  · rwa [Function.update_of_ne hq] at h

theorem leaseOutline_sound : leaseOutline.Sound program fun w a => unpublished w a = true where
  begun := fun w p k hw _ he _ => by
    obtain ⟨hg, hh⟩ := begun_entry w.dead he p w.shared
    exact ⟨hg, fun d b _ => hh b⟩
  move := fun w c a i s k hw hok hc hl hm => by
    obtain ⟨p, st⟩ := a
    by_cases hk : st.plain = true
    · exact kept_plain hw hok hc hk hm
    · cases st with
      | lease key q =>
        obtain ⟨⟨v, q'⟩, hml, hr⟩ := Option.map_eq_some_iff.mp hm
        cases hr
        exact kept_lease hw hc hml
      | evict m q =>
        obtain ⟨⟨v, q'⟩, hml, hr⟩ := Option.map_eq_some_iff.mp hm
        cases hr
        exact kept_evict hw hc hl hml
      | _ => exact absurd rfl hk
  die := fun w p hw _ => by
    refine ⟨hw.all, ?_, ?_⟩
    · intro c a hc
      have hg := hw.each c a hc
      exact ⟨hg.drawn, hg.absent, fun hl => hg.file (alive_before hl),
        fun hl => hg.checkpoint (alive_before hl), hg.hand, fun hl => hg.window (alive_before hl)⟩
    · intro c a d b hne hc hb
      have hh := hw.pair c a d b hne hc hb
      exact ⟨hh.apart, hh.unnamed, fun hl => hh.spares (alive_before hl),
        fun hla hlb => hh.sees (alive_before hla) (alive_before hlb)⟩
  outside := fun w n s hw _ hs => by
    cases hs
    exact ⟨⟨hw.all.unique, hw.all.drawn⟩, fun c a hc =>
      (hw.each c a hc).frame le_rfl (fun _ _ _ f hf hn => absurd hf hn) (fun _ _ _ _ hf => hf)
        (fun _ _ _ hf => hf) (fun _ _ _ hf => hf), hw.pair⟩

/-- **Where no sidecar is published between the two unlinks of an eviction, the checkpoint of a lease
exists until its live holder releases it.** -/
theorem leased_checkpoint (dead : ℕ → Bool) (s : Store) (hs : Named s) (as : List Act)
    (w : World Store Phase)
    (hm : Runs.Meets step (fun w a => unpublished w a = true) (World.fresh dead s) as)
    (h : Runs.exec step (World.fresh dead s) as = some w) : Leased w := by
  have hw : leaseOutline.Holds w :=
    leaseOutline_sound.holds_exec (Outline.holds_fresh hs) hm h
  intro c a key u hc hl ha
  refine (hw.each c a hc).checkpoint hl key ?_
  rw [ha]
  rfl

/-- A root with the checkpoint of key 0. -/
def warmStore : Store :=
  { checkpoints := [⟨0, 1⟩], sidecars := fun key => if key = 0 then some 0 else none,
    failures := fun _ => none, locks := fun _ => none, leases := fun _ => [], now := 0,
    nextUuid := 0 }

/-- Process 1 leases the checkpoint while process 2 has looked at the leases once; the second look
finds the lease. -/
def leasedInTime : List Act :=
  [.begin 2 (.evict 0 .readdir), .move 0 (.keys [0]), .move 0 .none, .move 0 .none, .move 0 .none,
    .move 0 .none, .move 0 (.names []), .move 0 .none, .move 0 .none, .move 0 .none,
    .begin 1 (.lease 0 .create), .move 1 .none, .move 1 .none, .move 1 .none, .move 1 .none,
    .move 1 .none, .move 1 .none,
    .move 0 .none, .move 0 (.names [⟨0, true⟩]), .move 0 .none, .move 0 .none, .move 0 .none,
    .move 0 .none]

theorem leased_checkpoint_inTime : ∃ w,
    Runs.exec step (World.fresh (fun _ => false) warmStore) leasedInTime = some w ∧ Leased w ∧
      w.calls 0 = some ⟨2, .evict 0 (.done 0 0)⟩ ∧ w.calls 1 = some ⟨1, .lease 0 (.held 0)⟩ := by
  have hn : Named warmStore := ⟨fun _ f g hf => (by cases hf), fun _ f hf => (by cases hf)⟩
  have hm : Runs.Meets step (fun w a => unpublished w a = true)
      (World.fresh (fun _ => false) warmStore) leasedInTime := by
    decide +kernel
  have hs : ((Runs.exec step (World.fresh (fun _ => false) warmStore) leasedInTime).any fun w =>
      decide (w.calls 0 = some ⟨2, .evict 0 (.done 0 0)⟩ ∧
        w.calls 1 = some ⟨1, .lease 0 (.held 0)⟩)) = true := by
    decide +kernel
  obtain ⟨w, hw, hc⟩ := (Option.any_eq_true _ _).mp hs
  obtain ⟨hc0, hc1⟩ := of_decide_eq_true hc
  exact ⟨w, hw, leased_checkpoint _ _ hn _ _ hm hw, hc0, hc1⟩

/-- Process 2 has unlinked the sidecar and found no lease again; process 3 publishes the checkpoint,
process 1 leases it, and then process 2 unlinks it. -/
def leasedTooLate : List Act :=
  [.begin 2 (.evict 0 .readdir), .move 0 (.keys [0]), .move 0 .none, .move 0 .none, .move 0 .none,
    .move 0 .none, .move 0 (.names []), .move 0 .none, .move 0 .none, .move 0 .none,
    .move 0 .none, .move 0 (.names []), .move 0 .none,
    .begin 3 (.publish 0 (.rename 1)), .move 1 .none, .move 1 .none, .move 1 .none,
    .begin 1 (.lease 0 .create), .move 2 .none, .move 2 .none, .move 2 .none, .move 2 .none,
    .move 2 .none, .move 2 .none,
    .move 0 .none]

/-- **A leased checkpoint is unlinked.** -/
theorem leased_checkpoint_unlinked : ∃ w,
    Runs.exec step (World.fresh (fun _ => false) warmStore) leasedTooLate = some w ∧
      w.dead 1 = false ∧ w.calls 2 = some ⟨1, .lease 0 (.held 0)⟩ ∧
      ¬ w.shared.hasCheckpoint 0 ∧ ¬ Leased w := by
  have hs : ((Runs.exec step (World.fresh (fun _ => false) warmStore) leasedTooLate).any fun w =>
      decide (w.dead 1 = false ∧ w.calls 2 = some ⟨1, .lease 0 (.held 0)⟩ ∧
        ¬ w.shared.hasCheckpoint 0)) = true := by
    decide +kernel
  obtain ⟨w, hw, hc⟩ := (Option.any_eq_true _ _).mp hs
  obtain ⟨hl, hc2, hn⟩ := of_decide_eq_true hc
  exact ⟨w, hw, hl, hc2, hn, fun h => hn (h 2 _ 0 0 hc2 hl rfl)⟩

end PiSubagent.Checkpoints
