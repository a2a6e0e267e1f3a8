import PiSubagent.Persistence.RunLease
import Mathlib.Data.List.Pairwise
import Mathlib.Tactic.SplitIfs

/-!
# Fencing by the lease of a run

* `LeaseState.Fenced`: at most one lease is current, the generations published while the record
  stays in place increase, and no write changes the files once a later lease has been acquired.
* `LeaseState.NoneChecked`: no lease is returned while a write is past its last `assertCurrent`.
* `LeaseState.Inv`: the invariant; `Inv.step` is its step lemma.
* **`Inv.fenced`**: the first two parts hold in every state of the invariant.
* **`leases_fence_writes`**: as long as `NoneChecked` holds at every step, the run is fenced.
* **`released_lease_writes_late`**: a run in which it does not.
-/

namespace PiSubagent

open Runs

namespace LeaseState

/-- What a lease promises. -/
structure Fenced (s : LeaseState) : Prop where
  /-- At most one lease at a time passes `assertCurrent`, whatever record its calls have read. -/
  exclusive : ∀ h h' seen seen', s.isCurrent h seen = true → s.isCurrent h' seen' = true → h = h'
  /-- While the record stays in place, every lease has a greater generation than those before it. -/
  increasing : s.published.Pairwise fun a b => a.generation < b.generation ∧ a.leaseId < b.leaseId
  /-- No write has changed the files once a later lease had been acquired. -/
  fenced : ∀ e ∈ s.effects, ∀ l ∈ e.acquired, l.leaseId ≤ e.lease.leaseId

/-- When a lease is returned, no write has passed its last `assertCurrent` and neither changed the
files nor ended: such a write is under an earlier lease. -/
def NoneChecked (s : LeaseState) : LeaseAct → Prop
  | .returnLease _ => ∀ w < s.nextWrite, (s.writes w).state ≠ .ready
  | _ => True

instance (s : LeaseState) : (a : LeaseAct) → Decidable (s.NoneChecked a) := fun a => by
  unfold NoneChecked
  split <;> infer_instance

/-! ## The invariant -/

/-- What holds whatever is released when. -/
structure Inv (s : LeaseState) : Prop where
  fresh : ∀ h, s.nextHandle ≤ h → (s.handles h).phase = .unused
  freshWrite : ∀ w, s.nextWrite ≤ w → (s.writes w).state = .done
  holder : ∀ h, (s.handles h).listening = true → s.port = some (.lease h)
  acquiring : ∀ h, (s.handles h).phase.acquiring = true → (s.handles h).listening = true
  numbered : ∀ l, l ∈ s.published ∨ l ∈ s.acquired → l.leaseId < s.nextLease
  newest : ∀ h r, (s.handles h).listening = true →
    (s.handles h).phase = .published r ∨ (s.handles h).phase = .held r →
    r.leaseId < s.nextLease ∧ ∀ l ∈ s.acquired, l.leaseId ≤ r.leaseId
  inPlace : ∀ l ∈ s.published, ∃ r, s.record = some r ∧ l.generation ≤ r.generation
  seen : ∀ h e, (s.handles h).phase = .read e → e = s.record ∨ s.record = none
  increasing : s.published.Pairwise fun a b => a.generation < b.generation ∧ a.leaseId < b.leaseId

/-- The writes that have passed their last check are under the latest lease. -/
def Checked (s : LeaseState) : Prop :=
  ∀ w, (s.writes w).state = .ready →
    ∃ r, (s.handles (s.writes w).handle).phase = .held r ∧ ∀ l ∈ s.acquired, l.leaseId ≤ r.leaseId

/-- No write has changed the files once a later lease had been acquired. -/
def NoLateEffect (s : LeaseState) : Prop :=
  ∀ e ∈ s.effects, ∀ l ∈ e.acquired, l.leaseId ≤ e.lease.leaseId

theorem Initial.inv {s : LeaseState} (h : s.Initial) : s.Inv where
  fresh := fun k _ => (h.handles k).1
  freshWrite := fun w _ => h.writes w
  holder := fun k hk => by
    rw [(h.handles k).2] at hk
    exact Bool.noConfusion hk
  acquiring := fun k hk => by
    rw [(h.handles k).1] at hk
    exact Bool.noConfusion hk
  numbered := fun l hl => by
    rw [h.published, h.acquired] at hl
    rcases hl with hl | hl <;> exact absurd hl List.not_mem_nil
  newest := fun k r hk _ => by
    rw [(h.handles k).2] at hk
    exact Bool.noConfusion hk
  inPlace := fun l hl => by
    rw [h.published] at hl
    exact absurd hl List.not_mem_nil
  seen := fun k e hk => by
    rw [(h.handles k).1] at hk
    exact Phase.noConfusion hk
  increasing := by
    rw [h.published]
    exact List.Pairwise.nil

theorem Initial.checked {s : LeaseState} (h : s.Initial) : s.Checked := by
  intro w hw
  rw [h.writes w] at hw
  exact WriteState.noConfusion hw

theorem Initial.noLateEffect {s : LeaseState} (h : s.Initial) : s.NoLateEffect := by
  intro e he
  rw [h.effects] at he
  exact absurd he List.not_mem_nil

theorem listening_of_isCurrent {s : LeaseState} {h : ℕ} {seen : Option LeaseRecord}
    (hc : s.isCurrent h seen = true) :
    (s.handles h).listening = true ∧ ∃ r, (s.handles h).phase = .held r := by
  unfold isCurrent at hc
  split at hc
  next r hp =>
    rw [Bool.and_eq_true] at hc
    exact ⟨hc.1, r, hp⟩
  next => exact Bool.noConfusion hc

/-- **At most one listener is open.** -/
theorem Inv.exclusive {s : LeaseState} (hi : s.Inv) {h h' : ℕ}
    (hl : (s.handles h).listening = true) (hl' : (s.handles h').listening = true) : h = h' := by
  have hp := hi.holder h hl
  rw [hi.holder h' hl', Option.some.injEq, PortHolder.lease.injEq] at hp
  exact hp.symm

/-- **The first two parts of what a lease promises, and the third as far as it has been kept.** -/
theorem Inv.fenced {s : LeaseState} (hi : s.Inv) (hn : s.NoLateEffect) : s.Fenced where
  exclusive := fun _ _ _ _ hc hc' =>
    hi.exclusive (listening_of_isCurrent hc).1 (listening_of_isCurrent hc').1
  increasing := hi.increasing
  fenced := hn

theorem Inv.latest_of_isCurrent {s : LeaseState} (hi : s.Inv) {h : ℕ} {seen : Option LeaseRecord}
    (hc : s.isCurrent h seen = true) :
    ∃ r, (s.handles h).phase = .held r ∧ ∀ l ∈ s.acquired, l.leaseId ≤ r.leaseId := by
  obtain ⟨hl, r, hp⟩ := listening_of_isCurrent hc
  exact ⟨r, hp, (hi.newest h r hl (Or.inr hp)).2⟩

theorem Inv.lt_nextHandle {s : LeaseState} (hi : s.Inv) {h : ℕ}
    (hp : (s.handles h).phase ≠ .unused) : h < s.nextHandle := by
  by_contra hle
  exact hp (hi.fresh h (Nat.le_of_not_lt hle))

/-! ## Steps of a write -/

@[simp] theorem setWrite_handles (s : LeaseState) (w : ℕ) (v : WriteState) :
    (s.setWrite w v).handles = s.handles := rfl

theorem setWrite_state (s : LeaseState) (w x : ℕ) (v : WriteState) :
    ((s.setWrite w v).writes x).state = if x = w then v else (s.writes x).state := by
  unfold setWrite
  by_cases hx : x = w
  · subst hx
    simp only [Function.update_self, if_true]
  · simp only [Function.update_of_ne hx, if_neg hx]

theorem setWrite_handle (s : LeaseState) (w x : ℕ) (v : WriteState) :
    ((s.setWrite w v).writes x).handle = (s.writes x).handle := by
  unfold setWrite
  by_cases hx : x = w
  · subst hx
    simp only [Function.update_self]
  · simp only [Function.update_of_ne hx]

theorem Inv.setWrite {s : LeaseState} (hi : s.Inv) {w : ℕ} {v : WriteState}
    (hw : w < s.nextWrite ∨ v = .done) : (s.setWrite w v).Inv :=
  { hi with
    freshWrite := by
      intro x hx
      rw [setWrite_state]
      split_ifs with h
      · rcases hw with hw | hw
        · have hle : s.nextWrite ≤ x := hx
          omega
        · exact hw
      · exact hi.freshWrite x hx }

theorem Checked.setWrite {s : LeaseState} (hc : s.Checked) {w : ℕ} {v : WriteState}
    (hv : v = .ready → ∃ r, (s.handles (s.writes w).handle).phase = .held r ∧
      ∀ l ∈ s.acquired, l.leaseId ≤ r.leaseId) : (s.setWrite w v).Checked := by
  intro x hx
  rw [setWrite_state] at hx
  rw [setWrite_handle, setWrite_handles]
  split_ifs at hx with h
  · rw [h]
    exact hv hx
  · exact hc x hx

theorem Inv.lt_nextWrite {s : LeaseState} (hi : s.Inv) {w : ℕ} (hp : (s.writes w).state ≠ .done) :
    w < s.nextWrite := by
  by_contra hle
  exact hp (hi.freshWrite w (Nat.le_of_not_lt hle))

theorem stepWrite_cases {s t : LeaseState} {w : ℕ} (h : s.stepWrite w = some t) :
    (s.writes w).state ≠ .done ∧
      ((∃ v, v ≠ .ready ∧ t = s.setWrite w v) ∨
        (t = s.setWrite w .ready ∧ ∃ seen, s.isCurrent (s.writes w).handle seen = true) ∨
        ((s.writes w).state = .ready ∧ ∃ r, (s.handles (s.writes w).handle).phase = .held r ∧
          t = { s.setWrite w .done with
            effects := s.effects ++ [⟨(s.writes w).kind, r, s.acquired⟩] })) := by
  unfold stepWrite at h
  cases hs : (s.writes w).state with
  | done =>
    rw [hs] at h
    cases h
  | assert later =>
    rw [hs] at h
    refine ⟨fun hc => WriteState.noConfusion hc, Or.inl ⟨_, ?_, (Option.some.inj h).symm⟩⟩
    exact fun hc => WriteState.noConfusion hc
  | check later seen =>
    rw [hs] at h
    refine ⟨fun hc => WriteState.noConfusion hc, ?_⟩
    dsimp only at h
    by_cases hcur : s.isCurrent (s.writes w).handle seen = true
    · rw [if_pos hcur] at h
      cases later with
      | zero => exact Or.inr (Or.inl ⟨(Option.some.inj h).symm, seen, hcur⟩)
      | succ later =>
        refine Or.inl ⟨_, ?_, (Option.some.inj h).symm⟩
        exact fun hc => WriteState.noConfusion hc
    · rw [if_neg hcur] at h
      refine Or.inl ⟨_, ?_, (Option.some.inj h).symm⟩
      exact fun hc => WriteState.noConfusion hc
  | ready =>
    rw [hs] at h
    refine ⟨fun hc => WriteState.noConfusion hc, Or.inr (Or.inr ⟨rfl, ?_⟩)⟩
    dsimp only at h
    split at h
    next r hp => exact ⟨r, hp, (Option.some.inj h).symm⟩
    next => cases h

theorem Inv.stepWrite {s t : LeaseState} (hi : s.Inv) {w : ℕ} (h : s.stepWrite w = some t) :
    t.Inv := by
  obtain ⟨hd, ⟨v, -, rfl⟩ | ⟨rfl, -⟩ | ⟨-, r, -, rfl⟩⟩ := stepWrite_cases h
  · exact hi.setWrite (Or.inl (hi.lt_nextWrite hd))
  · exact hi.setWrite (Or.inl (hi.lt_nextWrite hd))
  · exact { hi.setWrite (Or.inr rfl) with }

theorem Checked.stepWrite {s t : LeaseState} (hc : s.Checked) (hi : s.Inv) {w : ℕ}
    (h : s.stepWrite w = some t) : t.Checked := by
  obtain ⟨-, ⟨v, hv, rfl⟩ | ⟨rfl, seen, hs⟩ | ⟨-, r, -, rfl⟩⟩ := stepWrite_cases h
  · exact hc.setWrite fun hr => absurd hr hv
  · exact hc.setWrite fun _ => hi.latest_of_isCurrent hs
  · exact hc.setWrite fun hr => WriteState.noConfusion hr

/-- **A checked write changes the files before any later lease is acquired.** -/
theorem NoLateEffect.stepWrite {s t : LeaseState} (hn : s.NoLateEffect) (hc : s.Checked) {w : ℕ}
    (h : s.stepWrite w = some t) : t.NoLateEffect := by
  obtain ⟨-, ⟨v, -, rfl⟩ | ⟨rfl, -⟩ | ⟨hr, r, hp, rfl⟩⟩ := stepWrite_cases h
  · exact hn
  · exact hn
  · intro e he
    rcases List.mem_append.mp he with he | he
    · exact hn e he
    · obtain ⟨r', hp', hle⟩ := hc w hr
      rw [hp] at hp'
      rw [List.mem_singleton.mp he, Phase.held.inj hp']
      exact hle

/-! ## Steps of a call of `acquireRunLease` -/

theorem setHandle_self (s : LeaseState) (h : ℕ) (v : Handle) :
    (s.setHandle h v).handles h = v := Function.update_self ..

theorem setHandle_of_ne (s : LeaseState) {h k : ℕ} (hk : k ≠ h) (v : Handle) :
    (s.setHandle h v).handles k = s.handles k := Function.update_of_ne hk ..

/-- A call that neither opens its listener nor publishes keeps the invariant. -/
theorem Inv.setHandle {s : LeaseState} (hi : s.Inv) {h : ℕ} {v : Handle} (hh : h < s.nextHandle)
    (hl : v.listening = true → (s.handles h).listening = true)
    (ha : v.phase.acquiring = true → v.listening = true)
    (hn : ∀ r, v.listening = true → v.phase = .published r ∨ v.phase = .held r →
      r.leaseId < s.nextLease ∧ ∀ l ∈ s.acquired, l.leaseId ≤ r.leaseId)
    (hr : ∀ e, v.phase = .read e → e = s.record ∨ s.record = none) : (s.setHandle h v).Inv :=
  { hi with
    fresh := by
      intro k hk
      have hle : s.nextHandle ≤ k := hk
      rw [setHandle_of_ne s (by omega)]
      exact hi.fresh k hk
    holder := by
      intro k hk
      by_cases hkh : k = h
      · subst hkh
        rw [setHandle_self] at hk
        exact hi.holder k (hl hk)
      · rw [setHandle_of_ne s hkh] at hk
        exact hi.holder k hk
    acquiring := by
      intro k hk
      by_cases hkh : k = h
      · subst hkh
        rw [setHandle_self] at hk ⊢
        exact ha hk
      · rw [setHandle_of_ne s hkh] at hk ⊢
        exact hi.acquiring k hk
    newest := by
      intro k r hk hp
      by_cases hkh : k = h
      · subst hkh
        rw [setHandle_self] at hk hp
        exact hn r hk hp
      · rw [setHandle_of_ne s hkh] at hk hp
        exact hi.newest k r hk hp
    seen := by
      intro k e hk
      by_cases hkh : k = h
      · subst hkh
        rw [setHandle_self] at hk
        exact hr e hk
      · rw [setHandle_of_ne s hkh] at hk
        exact hi.seen k e hk }

/-- A call that keeps the lease it has returned keeps the checked writes checked. -/
theorem Checked.setHandle {s : LeaseState} (hc : s.Checked) {h : ℕ} {v : Handle}
    (hv : ∀ r, (s.handles h).phase = .held r → v.phase = .held r) : (s.setHandle h v).Checked := by
  intro w hr
  obtain ⟨r, hp, hle⟩ := hc w hr
  refine ⟨r, ?_, hle⟩
  change ((s.setHandle h v).handles (s.writes w).handle).phase = .held r
  by_cases he : (s.writes w).handle = h
  · rw [he] at hp ⊢
    rw [setHandle_self]
    exact hv r hp
  · rw [setHandle_of_ne s he]
    exact hp

theorem not_held {s : LeaseState} {h : ℕ} {p q : Phase} (hp : (s.handles h).phase = p)
    (hne : ∀ r, p ≠ .held r) (r : LeaseRecord) (hr : (s.handles h).phase = .held r) :
    q = .held r := by
  rw [hp] at hr
  exact absurd hr (hne r)

theorem bind_inv {s : LeaseState} (hi : s.Inv) (hp : s.port = none) (seat : ℕ) :
    Inv { s.setHandle s.nextHandle ⟨seat, .bound, true⟩ with
      port := some (.lease s.nextHandle), nextHandle := s.nextHandle + 1 } := by
  have hclosed : ∀ k, (s.handles k).listening = false := by
    intro k
    cases hk : (s.handles k).listening with
    | false => rfl
    | true =>
      have := hi.holder k hk
      rw [hp] at this
      cases this
  have hnew : ∀ k, (s.setHandle s.nextHandle ⟨seat, .bound, true⟩).handles k =
      if k = s.nextHandle then ⟨seat, .bound, true⟩ else s.handles k := by
    intro k
    by_cases hk : k = s.nextHandle
    · subst hk
      rw [setHandle_self, if_pos rfl]
    · rw [setHandle_of_ne s hk, if_neg hk]
  constructor
  · intro k hk
    have hle : s.nextHandle + 1 ≤ k := hk
    change ((s.setHandle _ _).handles k).phase = _
    rw [hnew, if_neg (by omega)]
    exact hi.fresh k (by omega)
  · exact hi.freshWrite
  · intro k hk
    change ((s.setHandle _ _).handles k).listening = true at hk
    rw [hnew] at hk
    split_ifs at hk with he
    · rw [he]
    · rw [hclosed k] at hk
      exact Bool.noConfusion hk
  · intro k hk
    change ((s.setHandle _ _).handles k).phase.acquiring = true at hk
    change ((s.setHandle _ _).handles k).listening = true
    rw [hnew] at hk ⊢
    split_ifs at hk ⊢ with he
    · rfl
    · exact hi.acquiring k hk
  · exact hi.numbered
  · intro k r hk hph
    change ((s.setHandle _ _).handles k).listening = true at hk
    change ((s.setHandle _ _).handles k).phase = _ ∨ ((s.setHandle _ _).handles k).phase = _ at hph
    rw [hnew] at hk hph
    split_ifs at hk hph with he
    · rcases hph with hph | hph <;> exact hph.elim
    · rw [hclosed k] at hk
      exact Bool.noConfusion hk
  · exact hi.inPlace
  · intro k e hk
    change ((s.setHandle _ _).handles k).phase = _ at hk
    rw [hnew] at hk
    split_ifs at hk with he
    exact hi.seen k e hk
  · exact hi.increasing

/-- The record a call publishes is newer than every one before it. -/
theorem Inv.nextRecord_newer {s : LeaseState} (hi : s.Inv) {h : ℕ} {e : Option LeaseRecord}
    (hp : (s.handles h).phase = .read e) :
    ∀ l ∈ s.published, l.generation < (s.nextRecord e).generation ∧
      l.leaseId < (s.nextRecord e).leaseId := by
  intro l hl
  refine ⟨?_, hi.numbered l (Or.inl hl)⟩
  obtain ⟨r, hr, hle⟩ := hi.inPlace l hl
  rcases hi.seen h e hp with he | hnone
  · rw [he, hr]
    exact Nat.lt_succ_of_le hle
  · rw [hnone] at hr
    cases hr

theorem publish_inv {s : LeaseState} (hi : s.Inv) {h : ℕ} {e : Option LeaseRecord}
    (hp : (s.handles h).phase = .read e) :
    Inv { s.setHandle h { s.handles h with phase := .published (s.nextRecord e) } with
      record := some (s.nextRecord e)
      nextLease := s.nextLease + 1
      published := s.published ++ [s.nextRecord e] } := by
  have hl : (s.handles h).listening = true := by
    apply hi.acquiring h
    rw [hp]
    rfl
  have hh : h < s.nextHandle := hi.lt_nextHandle (by rw [hp]; exact fun hc => Phase.noConfusion hc)
  have hnewer := hi.nextRecord_newer hp
  -- Nobody else is between reading and publishing: the port is this call's.
  have honly : ∀ k, k ≠ h → (s.handles k).listening = false := by
    intro k hk
    cases hkl : (s.handles k).listening with
    | false => rfl
    | true => exact absurd (hi.exclusive hkl hl) hk
  have hset : (s.setHandle h { s.handles h with phase := .published (s.nextRecord e) }).handles h =
      { s.handles h with phase := .published (s.nextRecord e) } := setHandle_self ..
  constructor
  · intro k hk
    have hle : s.nextHandle ≤ k := hk
    change ((s.setHandle _ _).handles k).phase = _
    rw [setHandle_of_ne s (by omega)]
    exact hi.fresh k hk
  · exact hi.freshWrite
  · intro k hk
    change ((s.setHandle _ _).handles k).listening = true at hk
    by_cases hkh : k = h
    · subst hkh
      exact hi.holder k hl
    · rw [setHandle_of_ne s hkh] at hk
      exact hi.holder k hk
  · intro k hk
    change ((s.setHandle _ _).handles k).phase.acquiring = true at hk
    change ((s.setHandle _ _).handles k).listening = true
    by_cases hkh : k = h
    · subst hkh
      rw [hset]
      exact hl
    · rw [setHandle_of_ne s hkh] at hk ⊢
      exact hi.acquiring k hk
  · intro l hm
    change l ∈ s.published ++ [s.nextRecord e] ∨ l ∈ s.acquired at hm
    change l.leaseId < s.nextLease + 1
    rw [List.mem_append, List.mem_singleton] at hm
    rcases hm with (hm | hm) | hm
    · exact Nat.lt_succ_of_lt (hi.numbered l (Or.inl hm))
    · rw [hm]
      exact Nat.lt_succ_self _
    · exact Nat.lt_succ_of_lt (hi.numbered l (Or.inr hm))
  · intro k r hk hph
    change ((s.setHandle _ _).handles k).listening = true at hk
    change ((s.setHandle _ _).handles k).phase = _ ∨ ((s.setHandle _ _).handles k).phase = _ at hph
    change r.leaseId < s.nextLease + 1 ∧ _
    by_cases hkh : k = h
    · subst hkh
      rw [hset] at hph
      have hr : r = s.nextRecord e := by
        rcases hph with hph | hph
        · exact (Phase.published.inj hph).symm
        · exact Phase.noConfusion hph
      rw [hr]
      exact ⟨Nat.lt_succ_self _, fun l hm => Nat.le_of_lt (hi.numbered l (Or.inr hm))⟩
    · rw [setHandle_of_ne s hkh, honly k hkh] at hk
      exact Bool.noConfusion hk
  · intro l hm
    refine ⟨s.nextRecord e, rfl, ?_⟩
    rcases List.mem_append.mp hm with hm | hm
    · exact Nat.le_of_lt (hnewer l hm).1
    · exact Nat.le_of_eq (congrArg LeaseRecord.generation (List.mem_singleton.mp hm))
  · intro k e' hk
    change ((s.setHandle _ _).handles k).phase = _ at hk
    by_cases hkh : k = h
    · subst hkh
      rw [hset] at hk
      exact Phase.noConfusion hk
    · rw [setHandle_of_ne s hkh] at hk
      have hlk := hi.acquiring k (by rw [hk]; rfl)
      rw [honly k hkh] at hlk
      exact Bool.noConfusion hlk
  · change (s.published ++ [s.nextRecord e]).Pairwise _
    rw [List.pairwise_append]
    refine ⟨hi.increasing, List.pairwise_singleton _ _, ?_⟩
    intro a ha b hb
    rw [List.mem_singleton.mp hb]
    exact hnewer a ha

theorem returnLease_inv {s : LeaseState} (hi : s.Inv) {h : ℕ} {r : LeaseRecord}
    (hp : (s.handles h).phase = .published r) :
    Inv { s.setHandle h { s.handles h with phase := .held r } with
      acquired := s.acquired ++ [r] } := by
  have hl : (s.handles h).listening = true := by
    apply hi.acquiring h
    rw [hp]
    rfl
  have hh : h < s.nextHandle := hi.lt_nextHandle (by rw [hp]; exact fun hc => Phase.noConfusion hc)
  have hr := hi.newest h r hl (Or.inl hp)
  have hset : (s.setHandle h { s.handles h with phase := .held r }).Inv := by
    refine hi.setHandle hh (fun hv => hv) (fun hv => Bool.noConfusion hv) ?_
      (fun e hv => Phase.noConfusion hv)
    rintro r' - (hv | hv)
    · exact Phase.noConfusion hv
    · obtain rfl := Phase.held.inj hv
      exact hr
  exact { hset with
    numbered := by
      rintro l (hm | hm)
      · exact hset.numbered l (Or.inl hm)
      · rcases List.mem_append.mp hm with hm | hm
        · exact hset.numbered l (Or.inr hm)
        · rw [List.mem_singleton.mp hm]
          exact hr.1
    newest := by
      intro k r' hk hph
      have hkh : k = h := by
        have hlk : (s.handles k).listening = true := by
          by_cases hkh : k = h
          · rw [hkh]
            exact hl
          · change ((s.setHandle _ _).handles k).listening = true at hk
            rwa [setHandle_of_ne s hkh] at hk
        exact hi.exclusive hlk hl
      subst hkh
      change ((s.setHandle _ _).handles k).phase = _ ∨
        ((s.setHandle _ _).handles k).phase = _ at hph
      rw [setHandle_self] at hph
      have hr' : r' = r := by
        rcases hph with hph | hph
        · exact Phase.noConfusion hph
        · exact (Phase.held.inj hph).symm
      rw [hr']
      refine ⟨hr.1, ?_⟩
      intro l hm
      rcases List.mem_append.mp hm with hm | hm
      · exact hr.2 l hm
      · exact Nat.le_of_eq (congrArg LeaseRecord.leaseId (List.mem_singleton.mp hm)) }

/-! ## Steps of the operating system -/

theorem die_handle (s : LeaseState) (seat h : ℕ) :
    (s.die seat).handles h =
      if s.ofSeat seat h then ⟨seat, .gone, false⟩ else s.handles h := rfl

theorem die_handle_of_listening {s : LeaseState} {seat h : ℕ}
    (hl : ((s.die seat).handles h).listening = true) :
    (s.die seat).handles h = s.handles h ∧ ¬s.ofSeat seat h := by
  rw [die_handle] at hl ⊢
  split_ifs at hl ⊢ with hs
  · exact ⟨rfl, hs⟩

theorem die_handle_of_phase {s : LeaseState} {seat h : ℕ}
    (hp : ((s.die seat).handles h).phase ≠ .gone) :
    (s.die seat).handles h = s.handles h ∧ ¬s.ofSeat seat h := by
  rw [die_handle] at hp ⊢
  split_ifs at hp ⊢ with hs
  · exact absurd rfl hp
  · exact ⟨rfl, hs⟩

theorem die_port_of_other {s : LeaseState} {seat k : ℕ} (hp : s.port = some (.lease k))
    (hs : ¬s.ofSeat seat k) : (s.die seat).port = some (.lease k) := by
  unfold LeaseState.die
  simp [hp, hs]

theorem die_inv {s : LeaseState} (hi : s.Inv) (seat : ℕ) : (s.die seat).Inv where
  fresh := by
    intro k hk
    have hu : (s.handles k).phase = .unused := hi.fresh k hk
    have hs : ¬s.ofSeat seat k := fun hs => hs.1 hu
    rw [die_handle, if_neg hs]
    exact hu
  freshWrite := by
    intro w hw
    have hd : (s.writes w).state = .done := hi.freshWrite w hw
    change (if s.ofSeat seat (s.writes w).handle then _ else s.writes w).state = .done
    split_ifs with hs
    · rfl
    · exact hd
  holder := by
    intro k hk
    obtain ⟨he, hs⟩ := die_handle_of_listening hk
    rw [he] at hk
    have hp : s.port = some (.lease k) := hi.holder k hk
    exact die_port_of_other hp hs
  acquiring := by
    intro k hk
    have hne : ((s.die seat).handles k).phase ≠ .gone := by
      intro hg
      rw [hg] at hk
      exact Bool.noConfusion hk
    have he := (die_handle_of_phase hne).1
    rw [he] at hk ⊢
    exact hi.acquiring k hk
  numbered := hi.numbered
  newest := by
    intro k r hk hp
    have he := (die_handle_of_listening hk).1
    rw [he] at hk hp
    exact hi.newest k r hk hp
  inPlace := hi.inPlace
  seen := by
    intro k e hk
    have hne : ((s.die seat).handles k).phase ≠ .gone := by
      rw [hk]
      exact fun hg => Phase.noConfusion hg
    rw [(die_handle_of_phase hne).1] at hk
    exact hi.seen k e hk
  increasing := hi.increasing

theorem Checked.die {s : LeaseState} (hc : s.Checked) (seat : ℕ) : (s.die seat).Checked := by
  intro w hw
  have hd : (s.die seat).writes w =
      if s.ofSeat seat (s.writes w).handle then { s.writes w with state := .done }
      else s.writes w := rfl
  rw [hd] at hw ⊢
  split_ifs at hw ⊢ with hs
  · rw [die_handle, if_neg hs]
    exact hc w hw

theorem port_inv {s : LeaseState} (hi : s.Inv) {p : Option PortHolder}
    (hp : ∀ h, s.port = some (.lease h) → (s.handles h).listening = false) :
    Inv { s with port := p } :=
  { hi with
    holder := by
      intro h hl
      have hport : s.port = some (.lease h) := hi.holder h hl
      have hclosed := hp h hport
      have hopen : (s.handles h).listening = true := hl
      rw [hclosed] at hopen
      exact Bool.noConfusion hopen }

/-- The record is moved away: what has been published with it no longer counts. -/
theorem removeRecord_inv {s : LeaseState} (hi : s.Inv) :
    Inv { s with record := none, published := [] } :=
  { hi with
    numbered := fun l hl => hi.numbered l (Or.inr (hl.resolve_left List.not_mem_nil))
    inPlace := fun _ hl => absurd hl List.not_mem_nil
    seen := fun _ _ _ => Or.inr rfl
    increasing := List.Pairwise.nil }

/-! ## Beginning a write -/

theorem begin_state (s : LeaseState) (v : Write) (x : ℕ) :
    Function.update s.writes s.nextWrite v x = if x = s.nextWrite then v else s.writes x := by
  by_cases hx : x = s.nextWrite
  · subst hx
    rw [Function.update_self, if_pos rfl]
  · rw [Function.update_of_ne hx, if_neg hx]

theorem begin_inv {s : LeaseState} (hi : s.Inv) (v : Write) :
    Inv { s with
      writes := Function.update s.writes s.nextWrite v, nextWrite := s.nextWrite + 1 } :=
  { hi with
    freshWrite := by
      intro x hx
      have hle : s.nextWrite + 1 ≤ x := hx
      change (Function.update s.writes s.nextWrite v x).state = .done
      rw [begin_state, if_neg (by omega)]
      exact hi.freshWrite x (by omega) }

theorem Checked.begin {s : LeaseState} (hc : s.Checked) {v : Write} (hv : v.state ≠ .ready) :
    Checked { s with
      writes := Function.update s.writes s.nextWrite v, nextWrite := s.nextWrite + 1 } := by
  intro x hx
  change (Function.update s.writes s.nextWrite v x).state = .ready at hx
  change ∃ r, (s.handles (Function.update s.writes s.nextWrite v x).handle).phase = .held r ∧
    ∀ l ∈ s.acquired, l.leaseId ≤ r.leaseId
  rw [begin_state] at hx ⊢
  split_ifs at hx ⊢ with he
  · exact absurd hx hv
  · exact hc x hx

/-! ## Runs -/

/-- **The invariant is kept by every step.** -/
theorem Inv.step {s t : LeaseState} (hi : s.Inv) {a : LeaseAct} (h : s.step a = some t) :
    t.Inv := by
  cases a with
  | bind seat =>
    dsimp only [LeaseState.step] at h
    split at h
    · cases h
    next hp =>
      rw [← Option.some.inj h]
      exact bind_inv hi hp seat
  | readRecord k =>
    dsimp only [LeaseState.step] at h
    split at h
    next hp =>
      rw [← Option.some.inj h]
      have hh : k < s.nextHandle :=
        hi.lt_nextHandle (by rw [hp]; exact fun hc => Phase.noConfusion hc)
      have hl : (s.handles k).listening = true := hi.acquiring k (by rw [hp]; rfl)
      refine hi.setHandle hh (fun hv => hv) (fun _ => hl) ?_ ?_
      · rintro r - (hv | hv) <;> exact Phase.noConfusion hv
      · intro e hv
        exact Or.inl (Phase.read.inj hv).symm
    · cases h
  | publish k =>
    dsimp only [LeaseState.step] at h
    split at h
    next e hp =>
      rw [← Option.some.inj h]
      exact publish_inv hi hp
    · cases h
  | returnLease k =>
    dsimp only [LeaseState.step] at h
    split at h
    next r hp =>
      rw [← Option.some.inj h]
      exact returnLease_inv hi hp
    · cases h
  | throw k =>
    dsimp only [LeaseState.step] at h
    split_ifs at h with ha
    rw [← Option.some.inj h]
    have hh : k < s.nextHandle := hi.lt_nextHandle fun hu => by
      rw [hu] at ha
      exact Bool.noConfusion ha
    refine hi.setHandle hh (fun hv => Bool.noConfusion hv) (fun hv => Bool.noConfusion hv) ?_
      (fun e hv => Phase.noConfusion hv)
    exact fun r hv => Bool.noConfusion hv
  | release k =>
    dsimp only [LeaseState.step] at h
    split at h
    next r hp =>
      rw [← Option.some.inj h]
      have hh : k < s.nextHandle :=
        hi.lt_nextHandle (by rw [hp]; exact fun hc => Phase.noConfusion hc)
      refine hi.setHandle hh (fun hv => Bool.noConfusion hv) ?_ (fun r' hv => Bool.noConfusion hv)
        ?_
      · intro hv
        dsimp only at hv
        rw [hp] at hv
        exact Bool.noConfusion hv
      · intro e hv
        dsimp only at hv
        rw [hp] at hv
        exact Phase.noConfusion hv
    · cases h
  | freePort k =>
    dsimp only [LeaseState.step] at h
    split_ifs at h with hc
    rw [← Option.some.inj h]
    refine port_inv hi fun k' hk' => ?_
    rw [hc.1, Option.some.injEq, PortHolder.lease.injEq] at hk'
    rw [← hk']
    exact hc.2
  | die seat =>
    rw [← Option.some.inj h]
    exact die_inv hi seat
  | otherBind =>
    dsimp only [LeaseState.step] at h
    split_ifs at h with hp
    rw [← Option.some.inj h]
    refine port_inv hi fun k hk => ?_
    rw [hp] at hk
    cases hk
  | otherFree =>
    dsimp only [LeaseState.step] at h
    split_ifs at h with hp
    rw [← Option.some.inj h]
    refine port_inv hi fun k hk => ?_
    rw [hp] at hk
    cases hk
  | removeRecord =>
    rw [← Option.some.inj h]
    exact removeRecord_inv hi
  | begin k kind =>
    dsimp only [LeaseState.step] at h
    split at h
    · rw [← Option.some.inj h]
      exact begin_inv hi _
    · cases h
  | write w => exact hi.stepWrite h
  | abandon w =>
    rw [← Option.some.inj h]
    exact hi.setWrite (Or.inr rfl)

/-- **The writes that have passed their last check stay under the latest lease**, unless a lease is
returned in between. -/
theorem Checked.step {s t : LeaseState} (hc : s.Checked) (hi : s.Inv) {a : LeaseAct}
    (hok : s.NoneChecked a) (h : s.step a = some t) : t.Checked := by
  cases a with
  | bind seat =>
    dsimp only [LeaseState.step] at h
    split at h
    · cases h
    · rw [← Option.some.inj h]
      have hnew : (s.setHandle s.nextHandle ⟨seat, .bound, true⟩).Checked :=
        hc.setHandle (not_held (hi.fresh _ (Nat.le_refl _)) fun r hr => Phase.noConfusion hr)
      exact hnew
  | readRecord k =>
    dsimp only [LeaseState.step] at h
    split at h
    next hp =>
      rw [← Option.some.inj h]
      exact hc.setHandle (not_held hp fun r hr => Phase.noConfusion hr)
    · cases h
  | publish k =>
    dsimp only [LeaseState.step] at h
    split at h
    next e hp =>
      rw [← Option.some.inj h]
      have hnew :
          (s.setHandle k { s.handles k with phase := .published (s.nextRecord e) }).Checked :=
        hc.setHandle (not_held hp fun r hr => Phase.noConfusion hr)
      exact hnew
    · cases h
  | returnLease k =>
    dsimp only [LeaseState.step] at h
    split at h
    next r hp =>
      rw [← Option.some.inj h]
      intro w hw
      have hready : (s.writes w).state = .ready := hw
      have hlt : w < s.nextWrite :=
        hi.lt_nextWrite (by rw [hready]; exact fun hd => WriteState.noConfusion hd)
      exact absurd hready (hok w hlt)
    · cases h
  | throw k =>
    dsimp only [LeaseState.step] at h
    split_ifs at h with ha
    rw [← Option.some.inj h]
    refine hc.setHandle (not_held rfl fun r hr => ?_)
    rw [hr] at ha
    exact Bool.noConfusion ha
  | release k =>
    dsimp only [LeaseState.step] at h
    split at h
    · rw [← Option.some.inj h]
      exact hc.setHandle fun r hr => hr
    · cases h
  | freePort k =>
    dsimp only [LeaseState.step] at h
    split_ifs at h
    rw [← Option.some.inj h]
    exact hc
  | die seat =>
    rw [← Option.some.inj h]
    exact hc.die seat
  | otherBind =>
    dsimp only [LeaseState.step] at h
    split_ifs at h
    rw [← Option.some.inj h]
    exact hc
  | otherFree =>
    dsimp only [LeaseState.step] at h
    split_ifs at h
    rw [← Option.some.inj h]
    exact hc
  | removeRecord =>
    rw [← Option.some.inj h]
    exact hc
  | begin k kind =>
    dsimp only [LeaseState.step] at h
    split at h
    · rw [← Option.some.inj h]
      exact hc.begin fun hr => WriteState.noConfusion hr
    · cases h
  | write w => exact hc.stepWrite hi h
  | abandon w =>
    rw [← Option.some.inj h]
    exact hc.setWrite fun hr => WriteState.noConfusion hr

theorem step_effects {s t : LeaseState} {a : LeaseAct} (h : s.step a = some t) :
    (∃ w, a = .write w) ∨ t.effects = s.effects := by
  cases a with
  | write w => exact Or.inl ⟨w, rfl⟩
  | die | removeRecord | abandon =>
    rw [← Option.some.inj h]
    exact Or.inr rfl
  | throw | freePort | otherBind | otherFree =>
    dsimp only [LeaseState.step] at h
    split_ifs at h
    rw [← Option.some.inj h]
    exact Or.inr rfl
  | bind | readRecord | publish | returnLease | release | begin =>
    dsimp only [LeaseState.step] at h
    split at h <;> first
      | cases h
        done
      | rw [← Option.some.inj h]
        exact Or.inr rfl

theorem NoLateEffect.step {s t : LeaseState} (hn : s.NoLateEffect) (hc : s.Checked)
    {a : LeaseAct} (h : s.step a = some t) : t.NoLateEffect := by
  rcases step_effects h with ⟨w, rfl⟩ | he
  · exact hn.stepWrite hc h
  · unfold NoLateEffect
    rw [he]
    exact hn

/-- What is kept by the steps that return no lease while a write is past its last check. -/
structure Safe (s : LeaseState) : Prop where
  inv : s.Inv
  checked : s.Checked
  noLate : s.NoLateEffect

theorem Safe.step {s t : LeaseState} (hs : s.Safe) {a : LeaseAct} (hok : s.NoneChecked a)
    (h : s.step a = some t) : t.Safe where
  inv := hs.inv.step h
  checked := hs.checked.step hs.inv hok h
  noLate := hs.noLate.step hs.checked h

end LeaseState

/-- **The lease fences writes**: from any record and any port, in every run of any number of seats
in which no lease is returned while a write is past its last `assertCurrent`, at most one lease is
current, the generations increase and no write takes effect once a later lease has been acquired. -/
theorem leases_fence_writes (s t : LeaseState) (acts : List LeaseAct) (h : s.Initial)
    (hok : Meets LeaseState.step LeaseState.NoneChecked s acts)
    (ht : exec LeaseState.step s acts = some t) : t.Fenced := by
  have hs : s.Safe := ⟨h.inv, h.checked, h.noLateEffect⟩
  have hsafe : t.Safe :=
    exec_invariant LeaseState.Safe (fun _ _ _ hp hok hstep => hp.step hok hstep) hs hok ht
  exact hsafe.inv.fenced hsafe.noLate

/-- **The first two parts need no condition**: in every run at most one lease is current and the
generations increase. -/
theorem leases_exclusive_increasing (s t : LeaseState) (acts : List LeaseAct) (h : s.Initial)
    (ht : exec LeaseState.step s acts = some t) :
    (∀ k k' seen seen', t.isCurrent k seen = true → t.isCurrent k' seen' = true → k = k') ∧
      t.published.Pairwise fun a b => a.generation < b.generation ∧ a.leaseId < b.leaseId := by
  have hi : t.Inv := exec_preserves LeaseState.Inv (fun _ _ _ hp hstep => hp.step hstep) h.inv ht
  refine ⟨fun _ _ _ _ hc hc' => ?_, hi.increasing⟩
  exact hi.exclusive (LeaseState.listening_of_isCurrent hc).1
    (LeaseState.listening_of_isCurrent hc').1

/-! ## Two seats -/

/-- A run that no seat has touched. -/
def freshRun : LeaseState where
  port := none
  record := none
  handles := fun _ => ⟨0, .unused, false⟩
  writes := fun _ => ⟨0, .journalAppend, .done⟩
  nextHandle := 0
  nextWrite := 0
  nextLease := 0
  published := []
  acquired := []
  effects := []

theorem freshRun_initial : freshRun.Initial where
  port := fun _ hp => by cases hp
  handles := fun _ => ⟨rfl, rfl⟩
  writes := fun _ => rfl
  published := rfl
  acquired := rfl
  effects := rfl

/-- A seat acquires the lease, as call `h`. -/
def acquire (seat h : ℕ) : List LeaseAct :=
  [.bind seat, .readRecord h, .publish h, .returnLease h]

/-- A seat lets the lease of call `h` go. -/
def letGo (h : ℕ) : List LeaseAct :=
  [.release h, .freePort h]

/-- Two seats take turns and each append an event. -/
def turns : List LeaseAct :=
  acquire 1 0 ++ [.begin 0 .journalAppend, .write 0, .write 0, .write 0] ++ letGo 0 ++
    acquire 2 1 ++ [.begin 1 .journalAppend, .write 1, .write 1, .write 1]

/-- Seat 1 settles its attempt while a delivered control is about to be appended, and seat 2
acquires the lease before the append. -/
def settlesTooEarly : List LeaseAct :=
  acquire 1 0 ++ [.begin 0 .journalAppend, .write 0, .write 0] ++ letGo 0 ++ acquire 2 1 ++
    [.write 0]

/-- Both seats' appends take effect, each under its own lease, in order. -/
theorem leases_fence_writes_turns :
    ∃ t, exec LeaseState.step freshRun turns = some t ∧ t.effects.length = 2 ∧ t.Fenced := by
  have hrun : (exec LeaseState.step freshRun turns).isSome := by decide
  obtain ⟨t, ht⟩ := Option.isSome_iff_exists.mp hrun
  have hlen : (exec LeaseState.step freshRun turns).map (fun t => t.effects.length) = some 2 := by
    decide
  rw [ht] at hlen
  refine ⟨t, ht, Option.some.inj hlen, ?_⟩
  exact leases_fence_writes freshRun t turns freshRun_initial (by decide) ht

/-- **A released lease writes late**: the append takes effect under generation 1 after the lease of
generation 2 has been acquired. -/
theorem released_lease_writes_late :
    ¬∀ (s t : LeaseState) (acts : List LeaseAct), s.Initial →
      exec LeaseState.step s acts = some t → t.Fenced := by
  intro hall
  have heff : (exec LeaseState.step freshRun settlesTooEarly).map LeaseState.effects =
      some [⟨.journalAppend, ⟨0, 1⟩, [⟨0, 1⟩, ⟨1, 2⟩]⟩] := by decide
  obtain ⟨t, ht, he⟩ := Option.map_eq_some_iff.mp heff
  have hf := (hall freshRun t settlesTooEarly freshRun_initial ht).fenced
  rw [he] at hf
  have hle : 1 ≤ 0 := hf ⟨.journalAppend, ⟨0, 1⟩, [⟨0, 1⟩, ⟨1, 2⟩]⟩ (by simp) ⟨1, 2⟩ (by simp)
  omega

end PiSubagent
