import PiSubagent.Lib.Runs
import PiSubagent.Lib.Shedding
import PiSubagent.Sandbox.CheckpointLeases

/-!
# An eviction alone in its store

`WarmCheckpointStore.evict` while no other call steps: its moves, one after the other, from the
listing of the root to its return.

* `Solo.step`: one move; the checkpoints it has unlinked so far are kept beside it.
* `held`: a lease or a lock of a live process.
* `Evicted`: what an eviction has removed, left and reported.
* `Reaches`: what holds at each control point of an eviction alone.
* **`evict_lru`**: `Evicted`, for any store.
-/

namespace PiSubagent.Eviction

open Checkpoints Runs Shedding

/-- An eviction alone in its store, with the candidates whose checkpoints it has unlinked. -/
structure Solo where
  store : Store
  phase : EvictPhase
  removed : List Candidate

/-- The checkpoint that the next move unlinks. -/
def unlinks : EvictPhase → List Candidate
  | .checkpoint c _ => [c]
  | _ => []

/-- One move of `evict`; the input is a directory listing where the move reads one. -/
def Solo.step (dead : ℕ → Bool) (maxBytes : ℕ) (w : Solo) (i : Input) : Option Solo :=
  (moveEvict dead maxBytes i w.phase w.store).map fun r =>
    ⟨r.1, r.2, w.removed ++ unlinks w.phase⟩

/-- `evict` is called. -/
def Solo.start (s : Store) : Solo := ⟨s, .readdir, []⟩

/-- A lease of a live process. -/
def leasedBy (dead : ℕ → Bool) (s : Store) (key : ℕ) : Bool :=
  (s.leases key).any fun f => ownerAlive dead f.pid

/-- A lease or a lock of a live process. -/
def held (dead : ℕ → Bool) (s : Store) (key : ℕ) : Bool :=
  leasedBy dead s key || ownerAlive dead (s.lockOwner key)

/-- A checkpoint with the last change of its sidecar, which is its last use; `0` without one. -/
def candidate (s : Store) (c : Checkpoint) : Candidate :=
  ⟨c.key, c.bytes, (s.sidecars c.key).getD 0⟩

/-- The checkpoints of a store. -/
def candidates (s : Store) : List Candidate := s.checkpoints.map (candidate s)

/-- The files of one directory have names of their own. -/
structure Distinct (s : Store) : Prop where
  checkpoints : (s.checkpoints.map Checkpoint.key).Nodup
  leases : ∀ key f g, f ∈ s.leases key → g ∈ s.leases key → f.name = g.name → f = g

/-- What `evict` returned `evicted` and `evictedBytes` for: from the store `s` it has removed these
checkpoints, one after the other, and left the store `t`. -/
structure Evicted (dead : ℕ → Bool) (maxBytes : ℕ) (s t : Store) (removed : List Candidate)
    (evicted evictedBytes : ℕ) : Prop where
  files : removed.Nodup ∧ removed ⊆ candidates s
  remaining : t.checkpoints = s.checkpoints.filter fun c => decide (candidate s c ∉ removed)
  oldestFirst : removed.Pairwise fun c d => c.usedAt ≤ d.usedAt
  newerStay : ∀ c ∈ removed, ∀ d ∈ candidates s, d ∉ removed → held dead s d.key = false →
    c.usedAt ≤ d.usedAt
  spared : ∀ c ∈ removed, held dead s c.key = false
  needed : ∀ k < removed.length,
    (maxBytes : ℤ) < load Candidate.bytes (candidates s) - load Candidate.bytes (removed.take k)
  bound : load Checkpoint.bytes t.checkpoints ≤ maxBytes ∨
    ∀ c ∈ t.checkpoints, held dead t c.key = true
  held_eq : ∀ key, held dead t key = held dead s key
  sidecars : ∀ key, t.sidecars key = if key ∈ removed.map Candidate.key then none else s.sidecars key
  counted : evicted = removed.length ∧ (evictedBytes : ℤ) = load Candidate.bytes removed

variable {dead : ℕ → Bool} {maxBytes : ℕ} {s₀ s t : Store}

theorem held_eq_true {key : ℕ} : held dead s key = true ↔
    leasedBy dead s key = true ∨ ownerAlive dead (s.lockOwner key) = true :=
  Bool.or_eq_true_iff

theorem leasedBy_eq_true {key : ℕ} : leasedBy dead s key = true ↔
    ∃ f ∈ s.leases key, ownerAlive dead f.pid = true :=
  List.any_eq_true

/-! ## What an eviction has changed so far -/

/-- A store from which these checkpoints and these sidecars are gone, and perhaps some files of
leases whose process is gone. -/
structure Trimmed (dead : ℕ → Bool) (s₀ s : Store) (gone bare : List ℕ) : Prop where
  unique : ∀ key f g, f ∈ s.leases key → g ∈ s.leases key → f.name = g.name → f = g
  checkpoints : s.checkpoints = s₀.checkpoints.filter fun c => decide (c.key ∉ gone)
  sidecars : ∀ key, s.sidecars key = if key ∈ bare then none else s₀.sidecars key
  locks : s.locks = s₀.locks
  leases : ∀ key, leasedBy dead s key = leasedBy dead s₀ key

theorem Trimmed.held (h : Trimmed dead s₀ s gone bare) (key : ℕ) :
    held dead s key = held dead s₀ key := by
  rw [Eviction.held, Eviction.held, h.leases, Store.lockOwner, Store.lockOwner, h.locks]

theorem Trimmed.refl (h : Distinct s) : Trimmed dead s s [] [] where
  unique := h.leases
  checkpoints := (List.filter_eq_self.mpr fun _ _ => decide_eq_true List.not_mem_nil).symm
  sidecars _ := (if_neg List.not_mem_nil).symm
  locks := rfl
  leases _ := rfl

theorem Trimmed.unlinkLease (h : Trimmed dead s₀ s gone bare) {key : ℕ} {n : LeaseName}
    (hn : ∀ f ∈ s.leases key, f.name = n → ownerAlive dead f.pid = false) :
    Trimmed dead s₀ (s.unlinkLease key n) gone bare where
  unique := fun k f g hf hg => h.unique k f g (mem_unlinkLease.mp hf).1 (mem_unlinkLease.mp hg).1
  checkpoints := h.checkpoints
  sidecars := h.sidecars
  locks := h.locks
  leases := by
    intro k
    rw [← h.leases, Bool.eq_iff_iff, leasedBy_eq_true, leasedBy_eq_true]
    constructor
    · rintro ⟨f, hf, ha⟩
      exact ⟨f, (mem_unlinkLease.mp hf).1, ha⟩
    · rintro ⟨f, hf, ha⟩
      refine ⟨f, mem_unlinkLease.mpr ⟨hf, fun hk he => ?_⟩, ha⟩
      subst hk
      rw [hn f hf he] at ha
      cases ha

theorem Trimmed.setSidecar (h : Trimmed dead s₀ s gone bare) (key : ℕ) :
    Trimmed dead s₀ (s.setSidecar key none) gone (bare ++ [key]) where
  unique := h.unique
  checkpoints := h.checkpoints
  sidecars := by
    intro k
    change Function.update s.sidecars key none k = _
    by_cases hk : k = key
    · rw [hk, Function.update_self, if_pos (List.mem_append_right _ List.mem_cons_self)]
    · rw [Function.update_of_ne hk, h.sidecars]
      simp only [List.mem_append, List.mem_singleton, hk, or_false]
  locks := h.locks
  leases := h.leases

theorem Trimmed.unlinkCheckpoint (h : Trimmed dead s₀ s gone bare) (key : ℕ) :
    Trimmed dead s₀ (s.unlinkCheckpoint key) (gone ++ [key]) bare where
  unique := h.unique
  checkpoints := by
    change s.checkpoints.filter _ = _
    rw [h.checkpoints, List.filter_filter]
    refine List.filter_congr fun c _ => ?_
    simp only [List.mem_append, List.mem_singleton, not_or, Bool.decide_and]
    exact Bool.and_comm _ _
  sidecars := h.sidecars
  locks := h.locks
  leases := h.leases

theorem leaseOwner_unique {gone bare : List ℕ} (h : Trimmed dead s₀ s gone bare) {key : ℕ}
    {f : LeaseFile} (hf : f ∈ s.leases key) : s.leaseOwner key f.name = f.pid := by
  rw [Store.leaseOwner]
  cases hfind : (s.leases key).find? fun g => g.name = f.name with
  | none =>
    have hne := List.find?_eq_none.mp hfind f hf
    exact absurd (decide_eq_true rfl) hne
  | some g =>
    have hn : g.name = f.name := by simpa using List.find?_some hfind
    rw [h.unique key g f (List.mem_of_find?_eq_some hfind) hf hn]
    rfl

/-! ## What an eviction knows at its control points -/

/-- What `leased` will return, the names it still has to read being `todo`. -/
def Verdict (dead : ℕ → Bool) (s : Store) (key : ℕ) (todo : List LeaseName) (live : Prop) : Prop :=
  (live ∨ ∃ f ∈ s.leases key, f.name ∈ todo ∧ ownerAlive dead f.pid = true) ↔
    leasedBy dead s key = true

/-- What `leased` knows of a key. -/
def Asks (dead : ℕ → Bool) (s : Store) (key : ℕ) : LeasedPhase → Prop
  | .readdir => True
  | .entries todo live => Verdict dead s key todo (live = true)
  | .probe n owner todo live =>
    Verdict dead s key todo (live = true ∨ ownerAlive dead owner = true) ∧
      (ownerAlive dead owner = false → ∀ f ∈ s.leases key, f.name = n → ownerAlive dead f.pid = false)
  | .unlink n todo live =>
    Verdict dead s key todo (live = true) ∧
      ∀ f ∈ s.leases key, f.name = n → ownerAlive dead f.pid = false

/-- **A move of `leased`**: it keeps what is known of the key, or returns whether it is leased. -/
theorem Asks.move {gone bare : List ℕ} {key : ℕ} {i : Input} {p : LeasedPhase}
    {r : LeasedPhase ⊕ Bool} (hs : Trimmed dead s₀ s gone bare) (ha : Asks dead s key p)
    (h : moveLeased dead key i p s = some (t, r)) : Trimmed dead s₀ t gone bare ∧
      match r with
      | .inl q => Asks dead t key q
      | .inr live => live = leasedBy dead s₀ key := by
  cases p with
  | readdir =>
    simp only [moveLeased] at h
    split at h
    · next names =>
      obtain ⟨hp, ⟨⟩⟩ := Option.ite_none_right_eq_some.mp h
      refine ⟨hs, ?_⟩
      change Verdict dead s key names (false = true)
      rw [Verdict, leasedBy_eq_true]
      constructor
      · rintro (hf | ⟨f, hf, -, hl⟩)
        · cases hf
        · exact ⟨f, hf, hl⟩
      · rintro ⟨f, hf, hl⟩
        exact .inr ⟨f, hf, hp.mem_iff.mpr (List.mem_map_of_mem hf), hl⟩
    · cases h
  | entries todo live =>
    cases todo with
    | nil =>
      cases h
      refine ⟨hs, ?_⟩
      change live = leasedBy dead s₀ key
      rw [← hs.leases, Bool.eq_iff_iff]
      refine Iff.trans ?_ ha
      simp only [List.not_mem_nil, false_and, and_false, exists_false, or_false]
    | cons n todo =>
      cases h
      refine ⟨hs, ?_, ?_⟩
      · refine Iff.trans ?_ ha
        rw [or_assoc]
        refine or_congr_right ?_
        constructor
        · rintro (ho | ⟨f, hf, hm, hl⟩)
          · rw [Store.leaseOwner] at ho
            cases hfind : (s.leases key).find? fun f => f.name = n with
            | none =>
              rw [hfind] at ho
              cases ho
            | some f =>
              rw [hfind] at ho
              have hn : f.name = n := by simpa using List.find?_some hfind
              exact ⟨f, List.mem_of_find?_eq_some hfind, hn ▸ List.mem_cons_self, ho⟩
          · exact ⟨f, hf, List.mem_cons_of_mem _ hm, hl⟩
        · rintro ⟨f, hf, hm, hl⟩
          rcases List.mem_cons.mp hm with rfl | hm
          · exact .inl (leaseOwner_unique hs hf ▸ hl)
          · exact .inr ⟨f, hf, hm, hl⟩
      · intro ho f hf hn
        rw [← hn, leaseOwner_unique hs hf] at ho
        exact ho
  | probe n owner todo live =>
    simp only [moveLeased] at h
    cases ho : ownerAlive dead owner with
    | true =>
      rw [ho, if_pos rfl] at h
      cases h
      refine ⟨hs, Iff.trans ?_ ha.1⟩
      simp only [ho, or_true, true_or]
    | false =>
      rw [ho, if_neg Bool.false_ne_true] at h
      have hv : Verdict dead s key todo (live = true) := by
        refine Iff.trans ?_ ha.1
        simp only [ho, Bool.false_eq_true, or_false]
      split at h
      · cases h
        exact ⟨hs, hv, ha.2 ho⟩
      · cases h
        exact ⟨hs, hv⟩
  | unlink n todo live =>
    cases h
    have ht := hs.unlinkLease ha.2
    refine ⟨ht, ?_⟩
    change Verdict dead _ key todo (live = true)
    rw [Verdict, ht.leases, ← hs.leases]
    refine Iff.trans (or_congr_right ?_) ha.1
    constructor
    · rintro ⟨f, hf, hm, hl⟩
      exact ⟨f, (mem_unlinkLease.mp hf).1, hm, hl⟩
    · rintro ⟨f, hf, hm, hl⟩
      refine ⟨f, mem_unlinkLease.mpr ⟨hf, fun _ he => ?_⟩, hm, hl⟩
      rw [ha.2 f hf he] at hl
      cases hl

/-- The accounts of an eviction that began with the candidates `cs`. -/
structure Accounts (cs removed : List Candidate) (e : Eviction) : Prop where
  total : (e.total : ℤ) = load Candidate.bytes cs - load Candidate.bytes removed
  evicted : e.evicted = removed.length
  evictedBytes : (e.evictedBytes : ℤ) = load Candidate.bytes removed

/-- What the loop over `l` removes from a store of `total` bytes. -/
abbrev sheds (dead : ℕ → Bool) (maxBytes : ℕ) (s₀ : Store) (l : List Candidate) (total : ℤ) :
    List Candidate :=
  shed (fun c => held dead s₀ c.key) Candidate.bytes maxBytes l total

/-- The candidates, oldest first. -/
def Sorted (s₀ : Store) (cs : List Candidate) : Prop :=
  cs.Perm (candidates s₀) ∧ cs.Pairwise fun c d => c.usedAt ≤ d.usedAt

/-- What an eviction that looks at the candidates `l` of `cs` has removed, and will remove. -/
structure Going (dead : ℕ → Bool) (maxBytes : ℕ) (s₀ : Store) (removed : List Candidate)
    (e : Eviction) (l : List Candidate) (cs : List Candidate) : Prop where
  sorted : Sorted s₀ cs
  accounts : Accounts cs removed e
  plan : removed ++ sheds dead maxBytes s₀ l e.total =
    sheds dead maxBytes s₀ cs (load Candidate.bytes cs)

/-- **What holds at a control point** of an eviction alone in the store `s₀`. -/
def Reaches (dead : ℕ → Bool) (maxBytes : ℕ) (s₀ s : Store) (removed : List Candidate) :
    EvictPhase → Prop
  | .readdir => removed = [] ∧ s = s₀
  | .size todo found total =>
    removed = [] ∧ s = s₀ ∧ (total : ℤ) = load Candidate.bytes found ∧
      ∃ l, l.map Candidate.key = todo ∧ (found ++ l).Perm (candidates s₀)
  | .used key bytes todo found total =>
    removed = [] ∧ s = s₀ ∧ (total : ℤ) = load Candidate.bytes found + bytes ∧
      ∃ l, l.map Candidate.key = todo ∧
        (found ++ candidate s₀ ⟨key, bytes⟩ :: l).Perm (candidates s₀)
  | .next e =>
    Trimmed dead s₀ s (removed.map Candidate.key) (removed.map Candidate.key) ∧
      ∃ cs, Going dead maxBytes s₀ removed e e.rest cs
  | .leased c e again p =>
    Trimmed dead s₀ s (removed.map Candidate.key)
        (removed.map Candidate.key ++ if again then [c.key] else []) ∧
      (again = true → held dead s₀ c.key = false) ∧ Asks dead s c.key p ∧ maxBytes < e.total ∧
      ∃ cs, Going dead maxBytes s₀ removed e (c :: e.rest) cs
  | .locked c e =>
    Trimmed dead s₀ s (removed.map Candidate.key) (removed.map Candidate.key) ∧
      leasedBy dead s₀ c.key = false ∧ maxBytes < e.total ∧
      ∃ cs, Going dead maxBytes s₀ removed e (c :: e.rest) cs
  | .probe c e owner =>
    Trimmed dead s₀ s (removed.map Candidate.key) (removed.map Candidate.key) ∧
      leasedBy dead s₀ c.key = false ∧ owner = s₀.lockOwner c.key ∧ maxBytes < e.total ∧
      ∃ cs, Going dead maxBytes s₀ removed e (c :: e.rest) cs
  | .sidecar c e =>
    Trimmed dead s₀ s (removed.map Candidate.key) (removed.map Candidate.key) ∧
      held dead s₀ c.key = false ∧ maxBytes < e.total ∧
      ∃ cs, Going dead maxBytes s₀ removed e (c :: e.rest) cs
  | .checkpoint c e =>
    Trimmed dead s₀ s (removed.map Candidate.key) (removed.map Candidate.key ++ [c.key]) ∧
      held dead s₀ c.key = false ∧ maxBytes < e.total ∧
      ∃ cs, Going dead maxBytes s₀ removed e (c :: e.rest) cs
  | .done evicted evictedBytes =>
    Trimmed dead s₀ s (removed.map Candidate.key) (removed.map Candidate.key) ∧
      evicted = removed.length ∧ (evictedBytes : ℤ) = load Candidate.bytes removed ∧
      ∃ cs, Sorted s₀ cs ∧ removed = sheds dead maxBytes s₀ cs (load Candidate.bytes cs)

variable {removed cs : List Candidate} {e : Eviction} {c : Candidate}

theorem Going.skip (h : Going dead maxBytes s₀ removed e (c :: e.rest) cs)
    (hlt : maxBytes < e.total) (hc : held dead s₀ c.key = true) :
    Going dead maxBytes s₀ removed e e.rest cs := by
  refine ⟨h.sorted, h.accounts, ?_⟩
  rw [← h.plan, sheds, sheds, shed, if_neg (by omega), if_pos hc]

theorem Going.removed_next (h : Going dead maxBytes s₀ removed e (c :: e.rest) cs)
    (hlt : maxBytes < e.total) (hc : held dead s₀ c.key = false) :
    removed ++ c :: sheds dead maxBytes s₀ e.rest (e.total - c.bytes) =
      sheds dead maxBytes s₀ cs (load Candidate.bytes cs) := by
  rw [← h.plan, sheds, sheds, shed, if_neg (by omega), if_neg (by rw [hc]; exact Bool.false_ne_true)]

theorem Going.bytes_le (h : Going dead maxBytes s₀ removed e (c :: e.rest) cs)
    (hlt : maxBytes < e.total) (hc : held dead s₀ c.key = false) : c.bytes ≤ e.total := by
  have hnext := h.removed_next hlt hc
  have hsub : (sheds dead maxBytes s₀ cs (load Candidate.bytes cs)).Sublist cs :=
    shed_sublist _ _ _ cs _
  rw [← hnext] at hsub
  have hle := load_sublist Candidate.bytes hsub
  rw [load_append, load_cons] at hle
  have hrest := load_nonneg Candidate.bytes (sheds dead maxBytes s₀ e.rest (e.total - c.bytes))
  have htotal := h.accounts.total
  omega

theorem Going.unlink (h : Going dead maxBytes s₀ removed e (c :: e.rest) cs)
    (hlt : maxBytes < e.total) (hc : held dead s₀ c.key = false) :
    Going dead maxBytes s₀ (removed ++ [c])
      { e with
        total := e.total - c.bytes
        evicted := e.evicted + 1
        evictedBytes := e.evictedBytes + c.bytes } e.rest cs := by
  have hle := h.bytes_le hlt hc
  have hload : load Candidate.bytes (removed ++ [c]) = load Candidate.bytes removed + c.bytes := by
    rw [load_append, load_cons, load_nil, add_zero]
  obtain ⟨htotal, hcount, hbytes⟩ := h.accounts
  refine ⟨h.sorted, ⟨?_, ?_, ?_⟩, ?_⟩
  · rw [hload, Nat.cast_sub hle]
    omega
  · rw [List.length_append, hcount]
    rfl
  · rw [hload, Nat.cast_add, hbytes]
  · rw [List.append_assoc, List.singleton_append, Nat.cast_sub hle]
    exact h.removed_next hlt hc

/-! ## One move -/

theorem statCheckpoint_of_mem (hn : (s.checkpoints.map Checkpoint.key).Nodup) {c : Candidate}
    (hc : c ∈ candidates s) : s.statCheckpoint c.key = some c.bytes ∧ c = candidate s ⟨c.key, c.bytes⟩ := by
  obtain ⟨d, hd, rfl⟩ := List.mem_map.mp hc
  refine ⟨?_, rfl⟩
  change (s.checkpoints.find? fun x => x.key = d.key).map Checkpoint.bytes = some d.bytes
  cases hfind : s.checkpoints.find? fun x => x.key = d.key with
  | none =>
    have hne := List.find?_eq_none.mp hfind d hd
    exact absurd (decide_eq_true rfl) hne
  | some x =>
    have hx : x.key = d.key := by simpa using List.find?_some hfind
    rw [List.inj_on_of_nodup_map hn (List.mem_of_find?_eq_some hfind) hd hx]
    rfl

/-- **A move of an eviction alone.** -/
theorem Reaches.move (hs : Distinct s₀) {i : Input} {p q : EvictPhase}
    (hp : Reaches dead maxBytes s₀ s removed p)
    (h : moveEvict dead maxBytes i p s = some (t, q)) :
    Reaches dead maxBytes s₀ t (removed ++ unlinks p) q := by
  cases p with
  | readdir =>
    obtain ⟨rfl, rfl⟩ := hp
    simp only [moveEvict] at h
    split at h
    · next keys =>
      obtain ⟨hperm, ⟨⟩⟩ := Option.ite_none_right_eq_some.mp h
      let read (key : ℕ) : Candidate := candidate s ⟨key, (s.statCheckpoint key).getD 0⟩
      have hread : (s.checkpoints.map Checkpoint.key).map read = candidates s := by
        rw [List.map_map]
        refine List.map_congr_left fun c hc => ?_
        have hstat := (statCheckpoint_of_mem hs.checkpoints (List.mem_map_of_mem (f := candidate s) hc)).1
        change candidate s ⟨c.key, (s.statCheckpoint c.key).getD 0⟩ = _
        rw [show c.key = (candidate s c).key from rfl, hstat]
        rfl
      refine ⟨rfl, rfl, rfl, keys.map read, ?_, hread ▸ hperm.map read⟩
      rw [List.map_map]
      exact List.map_id keys
    · cases h
  | size todo found total =>
    obtain ⟨rfl, rfl, htotal, l, rfl, hperm⟩ := hp
    cases l with
    | nil =>
      cases h
      rw [List.append_nil] at hperm
      let cs := found.insertionSort fun a b => a.usedAt ≤ b.usedAt
      have hcs : cs.Perm found := List.perm_insertionSort _ found
      have hsorted : Sorted s cs := ⟨hcs.trans hperm, List.pairwise_insertionSort _ found⟩
      refine ⟨Trimmed.refl hs, cs, hsorted, ⟨?_, rfl, rfl⟩, ?_⟩
      · change (total : ℤ) = load Candidate.bytes cs - load Candidate.bytes []
        rw [load_nil, sub_zero, load_perm _ hcs]
        exact htotal
      · change [] ++ sheds dead maxBytes s cs total = _
        rw [List.nil_append, htotal, load_perm _ hcs]
    | cons c l =>
      have hc : c ∈ candidates s := hperm.subset (List.mem_append_right _ List.mem_cons_self)
      obtain ⟨hstat, he⟩ := statCheckpoint_of_mem hs.checkpoints hc
      rw [List.map_cons, moveEvict, hstat] at h
      cases h
      exact ⟨rfl, rfl, by rw [Nat.cast_add, htotal], l, rfl, he ▸ hperm⟩
  | used key bytes todo found total =>
    obtain ⟨rfl, rfl, htotal, l, rfl, hperm⟩ := hp
    cases h
    refine ⟨rfl, rfl, ?_, l, rfl, ?_⟩
    · rw [htotal, load_append, load_cons, load_nil, add_zero]
    · rw [List.append_assoc]
      exact hperm
  | next e =>
    obtain ⟨ht, cs, hg⟩ := hp
    change Reaches dead maxBytes s₀ t (removed ++ []) q
    rw [List.append_nil]
    cases hr : e.rest with
    | nil =>
      simp only [moveEvict, hr] at h
      cases h
      have hplan := hg.plan
      rw [hr, sheds, shed, List.append_nil] at hplan
      exact ⟨ht, hg.accounts.evicted, hg.accounts.evictedBytes, cs, hg.sorted, hplan⟩
    | cons c rest =>
      simp only [moveEvict, hr] at h
      split at h
      · next hle =>
        cases h
        have hplan := hg.plan
        rw [sheds, shed_of_le (by omega), List.append_nil] at hplan
        exact ⟨ht, hg.accounts.evicted, hg.accounts.evictedBytes, cs, hg.sorted, hplan⟩
      · next hlt =>
        cases h
        have hg' : Going dead maxBytes s₀ removed { e with rest := rest } (c :: rest) cs := by
          have hplan := hg.plan
          rw [hr] at hplan
          exact ⟨hg.sorted, ⟨hg.accounts.total, hg.accounts.evicted, hg.accounts.evictedBytes⟩, hplan⟩
        refine ⟨?_, (fun ha => by cases ha), trivial, not_le.mp hlt, cs, hg'⟩
        rw [if_neg Bool.false_ne_true, List.append_nil]
        exact ht
  | leased c e again p =>
    obtain ⟨ht, hfree, ha, hlt, cs, hg⟩ := hp
    change Reaches dead maxBytes s₀ t (removed ++ []) q
    rw [List.append_nil]
    obtain ⟨⟨u, r⟩, hm, hr⟩ := Option.map_eq_some_iff.mp h
    cases hr
    obtain ⟨hu, hr⟩ := ha.move ht hm
    cases r with
    | inl p' => exact ⟨hu, hfree, hr, hlt, cs, hg⟩
    | inr live =>
      cases live with
      | true =>
        cases again with
        | true =>
          have hno := hfree rfl
          rw [held, ← hr] at hno
          cases hno
        | false =>
          rw [if_neg Bool.false_ne_true, List.append_nil] at hu
          exact ⟨hu, cs, hg.skip hlt (held_eq_true.mpr (.inl hr.symm))⟩
      | false =>
        cases again with
        | true => exact ⟨hu, hfree rfl, hlt, cs, hg⟩
        | false =>
          rw [if_neg Bool.false_ne_true, List.append_nil] at hu
          exact ⟨hu, hr.symm, hlt, cs, hg⟩
  | locked c e =>
    obtain ⟨ht, hl, hlt, hg⟩ := hp
    cases h
    change Reaches dead maxBytes s₀ _ (removed ++ []) _
    rw [List.append_nil]
    exact ⟨ht, hl, by rw [Store.lockOwner, Store.lockOwner, ht.locks], hlt, hg⟩
  | probe c e owner =>
    obtain ⟨ht, hl, rfl, hlt, cs, hg⟩ := hp
    change Reaches dead maxBytes s₀ t (removed ++ []) q
    rw [List.append_nil]
    simp only [moveEvict] at h
    cases ho : ownerAlive dead (s₀.lockOwner c.key) with
    | true =>
      rw [ho, if_pos rfl] at h
      cases h
      exact ⟨ht, cs, hg.skip hlt (held_eq_true.mpr (.inr ho))⟩
    | false =>
      rw [ho, if_neg Bool.false_ne_true] at h
      cases h
      exact ⟨ht, by rw [held, hl, ho]; rfl, hlt, cs, hg⟩
  | sidecar c e =>
    obtain ⟨ht, hc, hlt, hg⟩ := hp
    cases h
    change Reaches dead maxBytes s₀ _ (removed ++ []) _
    rw [List.append_nil]
    exact ⟨ht.setSidecar c.key, fun _ => hc, trivial, hlt, hg⟩
  | checkpoint c e =>
    obtain ⟨ht, hc, hlt, cs, hg⟩ := hp
    cases h
    change Trimmed dead s₀ _ ((removed ++ [c]).map Candidate.key) ((removed ++ [c]).map Candidate.key) ∧ _
    rw [List.map_append, List.map_singleton]
    exact ⟨ht.unlinkCheckpoint c.key, cs, hg.unlink hlt hc⟩
  | done evicted evictedBytes => cases h

theorem reaches_run (hs : Distinct s₀) {is : List Input} {w : Solo}
    (h : exec (Solo.step dead maxBytes) (.start s₀) is = some w) :
    Reaches dead maxBytes s₀ w.store w.removed w.phase := by
  have hstart : Reaches dead maxBytes s₀ s₀ [] .readdir := ⟨rfl, rfl⟩
  refine exec_preserves (fun w : Solo => Reaches dead maxBytes s₀ w.store w.removed w.phase)
    (fun w i v hw hv => ?_) hstart h
  obtain ⟨r, hm, rfl⟩ := Option.map_eq_some_iff.mp hv
  exact hw.move hs hm

/-! ## An eviction returns -/

/-- From here an eviction alone returns. -/
def Returns (dead : ℕ → Bool) (maxBytes : ℕ) (s : Store) (p : EvictPhase) : Prop :=
  ∀ removed, ∃ is w n b, exec (Solo.step dead maxBytes) ⟨s, p, removed⟩ is = some w ∧
    w.phase = .done n b

theorem Returns.done (n b : ℕ) : Returns dead maxBytes s (.done n b) :=
  fun removed => ⟨[], ⟨s, .done n b, removed⟩, n, b, rfl, rfl⟩

theorem Returns.of_move {p q : EvictPhase} (i : Input) (h : moveEvict dead maxBytes i p s = some (t, q))
    (hr : Returns dead maxBytes t q) : Returns dead maxBytes s p := by
  intro removed
  obtain ⟨is, w, n, b, hexec, hw⟩ := hr (removed ++ unlinks p)
  refine ⟨i :: is, w, n, b, exec_cons_eq_some.mpr ⟨⟨t, q, removed ++ unlinks p⟩, ?_, hexec⟩, hw⟩
  rw [Solo.step, h]
  rfl

theorem Returns.leased (again : Bool) (hnext : ∀ t, Returns dead maxBytes t (.next e))
    (hfree : ∀ t, Returns dead maxBytes t (if again then .checkpoint c e else .locked c e))
    (todo : List LeaseName) (live : Bool) (s : Store) :
    Returns dead maxBytes s (.leased c e again (.entries todo live)) := by
  induction todo generalizing live s with
  | nil =>
    cases live with
    | true => exact .of_move .none rfl (hnext s)
    | false => exact .of_move .none rfl (hfree s)
  | cons n todo ih =>
    refine .of_move .none rfl ?_
    cases ho : ownerAlive dead (s.leaseOwner c.key n) with
    | true =>
      refine .of_move .none ?_ (ih true s)
      simp only [moveEvict, moveLeased, ho, if_pos, Option.map_some]
    | false =>
      cases hj : n.json with
      | true =>
        have hunlink : Returns dead maxBytes s (.leased c e again (.unlink n todo live)) :=
          .of_move .none rfl (ih live (s.unlinkLease c.key n))
        refine .of_move .none ?_ hunlink
        simp only [moveEvict, moveLeased, ho, hj, Bool.false_eq_true, if_false, if_true,
          Option.map_some]
      | false =>
        refine .of_move .none ?_ (ih live s)
        simp only [moveEvict, moveLeased, ho, hj, Bool.false_eq_true, if_false, Option.map_some]

theorem Returns.listed {again : Bool}
    (h : ∀ todo, Returns dead maxBytes s (.leased c e again (.entries todo false))) :
    Returns dead maxBytes s (.leased c e again .readdir) := by
  refine .of_move (.names ((s.leases c.key).map LeaseFile.name)) ?_
    (h ((s.leases c.key).map LeaseFile.name))
  simp only [moveEvict, moveLeased, List.Perm.refl, if_true, Option.map_some]

theorem Returns.next (rest : List Candidate) (total evicted evictedBytes : ℕ) (s : Store) :
    Returns dead maxBytes s (.next ⟨rest, total, evicted, evictedBytes⟩) := by
  induction rest generalizing total evicted evictedBytes s with
  | nil => exact .of_move .none rfl (.done evicted evictedBytes)
  | cons c rest ih =>
    have hnext (t : Store) : Returns dead maxBytes t (.next ⟨rest, total, evicted, evictedBytes⟩) :=
      ih total evicted evictedBytes t
    have hunlink (t : Store) :
        Returns dead maxBytes t (.checkpoint c ⟨rest, total, evicted, evictedBytes⟩) :=
      .of_move .none rfl (ih _ _ _ _)
    have hsidecar (t : Store) :
        Returns dead maxBytes t (.sidecar c ⟨rest, total, evicted, evictedBytes⟩) :=
      .of_move .none rfl (.listed fun todo => .leased true hnext hunlink todo false _)
    have hlocked (t : Store) :
        Returns dead maxBytes t (.locked c ⟨rest, total, evicted, evictedBytes⟩) := by
      refine .of_move .none rfl ?_
      cases ho : ownerAlive dead (t.lockOwner c.key) with
      | true =>
        refine .of_move .none ?_ (hnext t)
        simp only [moveEvict, ho, if_true]
      | false =>
        refine .of_move .none ?_ (hsidecar t)
        simp only [moveEvict, ho, Bool.false_eq_true, if_false]
    by_cases hle : total ≤ maxBytes
    · refine .of_move (t := s) .none ?_ (.done evicted evictedBytes)
      simp only [moveEvict, hle, if_true]
    · refine .of_move .none ?_ (.listed fun todo => .leased false hnext hlocked todo false s)
      simp only [moveEvict, hle, if_false]

theorem Returns.size (todo : List ℕ) (found : List Candidate) (total : ℕ) :
    Returns dead maxBytes s (.size todo found total) := by
  induction todo generalizing found total with
  | nil => exact .of_move .none rfl (.next _ _ _ _ s)
  | cons key todo ih =>
    cases hstat : s.statCheckpoint key with
    | none =>
      refine .of_move .none ?_ (ih found total)
      simp only [moveEvict, hstat]
    | some bytes =>
      have hused : Returns dead maxBytes s (.used key bytes todo found (total + bytes)) :=
        .of_move .none rfl (ih (found ++ [⟨key, bytes, (s.sidecars key).getD 0⟩]) (total + bytes))
      refine .of_move .none ?_ hused
      simp only [moveEvict, hstat]

/-- **An eviction alone returns.** -/
theorem Returns.readdir (dead : ℕ → Bool) (maxBytes : ℕ) (s : Store) :
    Returns dead maxBytes s .readdir := by
  refine .of_move (t := s) (.keys (s.checkpoints.map Checkpoint.key)) ?_
    (.size (s.checkpoints.map Checkpoint.key) [] 0)
  simp only [moveEvict, List.Perm.refl, if_true]

/-! ## What an eviction removes -/

theorem candidates_nodup (hn : (s.checkpoints.map Checkpoint.key).Nodup) : (candidates s).Nodup := by
  have hkeys : ((candidates s).map Candidate.key).Nodup := by
    rw [candidates, List.map_map]
    exact hn
  exact hkeys.of_map _

theorem key_mem_iff (hn : (s.checkpoints.map Checkpoint.key).Nodup) (hr : removed ⊆ candidates s)
    {c : Checkpoint} (hc : c ∈ s.checkpoints) :
    c.key ∈ removed.map Candidate.key ↔ candidate s c ∈ removed := by
  refine ⟨fun h => ?_, fun h => List.mem_map_of_mem (f := Candidate.key) h⟩
  obtain ⟨r, hm, hk⟩ := List.mem_map.mp h
  obtain ⟨d, hd, rfl⟩ := List.mem_map.mp (hr hm)
  rwa [← List.inj_on_of_nodup_map hn hd hc hk]

theorem load_remaining (hn : (s.checkpoints.map Checkpoint.key).Nodup) (hd : removed.Nodup)
    (hr : removed ⊆ candidates s) :
    load Checkpoint.bytes (s.checkpoints.filter fun c => decide (candidate s c ∉ removed)) =
      load Candidate.bytes (candidates s) - load Candidate.bytes removed := by
  have hsplit := load_perm Candidate.bytes
    (List.filter_append_perm (fun c => decide (c ∈ removed)) (candidates s))
  have hin : ((candidates s).filter fun c => decide (c ∈ removed)).Perm removed := by
    refine (List.perm_ext_iff_of_nodup ((candidates_nodup hn).filter _) hd).mpr fun c => ?_
    rw [List.mem_filter, decide_eq_true_iff]
    exact and_iff_right_of_imp fun hc => hr hc
  have hout : load Candidate.bytes ((candidates s).filter fun c => !decide (c ∈ removed)) =
      load Checkpoint.bytes (s.checkpoints.filter fun c => decide (candidate s c ∉ removed)) := by
    rw [candidates, List.filter_map, load, load, List.map_map]
    refine congrArg (fun l : List Checkpoint => (l.map fun c => (c.bytes : ℤ)).sum) ?_
    exact List.filter_congr fun c _ => (decide_not (p := candidate s c ∈ removed)).symm
  rw [load_append, load_perm _ hin, hout] at hsplit
  omega

/-- **What an eviction alone has done when it returns.** -/
theorem Reaches.evicted (hn : (s₀.checkpoints.map Checkpoint.key).Nodup) {n b : ℕ}
    (h : Reaches dead maxBytes s₀ t removed (.done n b)) :
    Evicted dead maxBytes s₀ t removed n b := by
  obtain ⟨ht, rfl, hb, cs, ⟨hperm, hsorted⟩, hr⟩ := h
  have hcn := candidates_nodup hn
  obtain ⟨k, hk, htake, hend, hmin⟩ := shed_spec (fun c : Candidate => held dead s₀ c.key)
    Candidate.bytes maxBytes cs (load Candidate.bytes cs)
  rw [← sheds, ← hr] at htake hend
  have hfree : (cs.filter fun c => !held dead s₀ c.key).Sublist cs := List.filter_sublist
  have hsub : removed.Sublist (cs.filter fun c => !held dead s₀ c.key) :=
    htake ▸ List.take_sublist _ _
  have hnodup : removed.Nodup := (hperm.nodup_iff.mpr hcn).sublist (hsub.trans hfree)
  have hmem : removed ⊆ candidates s₀ := fun c hc => hperm.subset ((hsub.trans hfree).subset hc)
  have hloads := load_remaining hn hnodup hmem
  have hkeys : t.checkpoints = s₀.checkpoints.filter fun c => decide (candidate s₀ c ∉ removed) := by
    rw [ht.checkpoints]
    refine List.filter_congr fun c hc => decide_eq_decide.mpr (not_congr ?_)
    exact key_mem_iff hn hmem hc
  have hlength : removed.length = k := by rw [htake, List.length_take, Nat.min_eq_left hk]
  refine ⟨⟨hnodup, hmem⟩, hkeys, hsorted.sublist (hsub.trans hfree), fun c hc d hd hdr hdf => ?_,
    fun c hc => ?_, fun j hj => ?_, ?_, ht.held, ht.sidecars, rfl, hb⟩
  · have hd' : d ∈ cs.filter fun c => !held dead s₀ c.key :=
      List.mem_filter.mpr ⟨hperm.mem_iff.mpr hd, by rw [hdf]; rfl⟩
    have hpair := hsorted.sublist hfree
    rw [← List.take_append_drop k (cs.filter fun c => !held dead s₀ c.key), ← htake] at hd' hpair
    rcases List.mem_append.mp hd' with hd' | hd'
    · exact absurd hd' hdr
    · exact (List.pairwise_append.mp hpair).2.2 c hc d hd'
  · have hc' := (List.mem_filter.mp (hsub.subset hc)).2
    rwa [Bool.not_eq_true'] at hc'
  · have hj' := hmin j (hlength ▸ hj)
    rw [htake, List.take_take, Nat.min_eq_left (hlength ▸ hj.le), ← load_perm _ hperm]
    exact hj'
  · rw [hkeys, hloads, ← load_perm _ hperm]
    refine hend.imp_right fun hall c hc => ?_
    obtain ⟨hc, hcr⟩ := List.mem_filter.mp hc
    rw [ht.held]
    by_contra hno
    refine of_decide_eq_true hcr (hall ▸ List.mem_filter.mpr ⟨?_, ?_⟩)
    · exact hperm.mem_iff.mpr (List.mem_map_of_mem hc)
    · rw [Bool.not_eq_true']
      exact Bool.eq_false_iff.mpr hno

/-- **Eviction.** For every store, however its files of leases and locks are owned, and every bound:
an eviction alone returns, and whenever it has returned it has removed the checkpoints that `Evicted`
names, in this order, and reports them. -/
theorem evict_lru (dead : ℕ → Bool) (maxBytes : ℕ) (s : Store) (hs : Distinct s) :
    (∃ is w n b, exec (Solo.step dead maxBytes) (.start s) is = some w ∧ w.phase = .done n b) ∧
    ∀ is w n b, exec (Solo.step dead maxBytes) (.start s) is = some w → w.phase = .done n b →
      Evicted dead maxBytes s w.store w.removed n b := by
  refine ⟨Returns.readdir dead maxBytes s [], fun is w n b h hw => ?_⟩
  have hr := reaches_run hs h
  rw [hw] at hr
  exact hr.evicted hs.checkpoints

/-- Three checkpoints: one leased by the live process 7, one leased by a process that is gone, and one
without a sidecar. -/
def crowded : Store where
  checkpoints := [⟨1, 100⟩, ⟨2, 100⟩, ⟨3, 100⟩]
  sidecars := fun key => if key = 1 then some 10 else if key = 2 then some 20 else none
  failures := fun _ => none
  locks := fun _ => none
  leases := fun key =>
    if key = 1 then [⟨⟨0, true⟩, some 7⟩] else if key = 2 then [⟨⟨1, true⟩, some 8⟩] else []
  now := 30
  nextUuid := 2

theorem crowded_distinct : Distinct crowded where
  checkpoints := by decide
  leases := by
    intro key f g hf hg _
    simp only [crowded] at hf hg
    split_ifs at hf hg
    · rw [List.mem_singleton.mp hf, List.mem_singleton.mp hg]
    · rw [List.mem_singleton.mp hf, List.mem_singleton.mp hg]
    · cases hf

/-- The one without a sidecar and the one whose lease is stale are removed, in this order. -/
theorem evict_lru_crowded : ∃ is w,
    exec (Solo.step (fun pid => pid != 7) 150) (.start crowded) is = some w ∧
      w.phase = .done 2 200 ∧ w.removed = [⟨3, 100, 0⟩, ⟨2, 100, 20⟩] ∧
      Evicted (fun pid => pid != 7) 150 crowded w.store w.removed 2 200 := by
  let is : List Input :=
    .keys [2, 1, 3] :: List.replicate 8 .none ++ .names [] :: List.replicate 4 .none ++
      .names [] :: List.replicate 3 .none ++ .names [⟨0, true⟩] :: List.replicate 4 .none ++
      .names [⟨1, true⟩] :: List.replicate 7 .none ++ .names [] :: List.replicate 3 .none
  have h : (exec (Solo.step (fun pid => pid != 7) 150) (.start crowded) is).any
      (fun w => decide (w.phase = .done 2 200 ∧ w.removed = [⟨3, 100, 0⟩, ⟨2, 100, 20⟩])) = true := by
    decide +kernel
  obtain ⟨w, hw, hd⟩ := (Option.any_eq_true _ _).mp h
  obtain ⟨hphase, hremoved⟩ := of_decide_eq_true hd
  exact ⟨is, w, hw, hphase, hremoved,
    (evict_lru _ 150 crowded crowded_distinct).2 is w 2 200 hw hphase⟩

end PiSubagent.Eviction
