import PiSubagent.Lib.Flights
import Mathlib.Data.List.Nodup

/-!
# The service of the extension

The tool, the commands and the providers all ask for the service; the first of them creates it. The
end of the session shuts it down, also when it is still being created.

* `Runtime`, `Runtime.step`: calls, what becomes of a creation, the end of the session.
* `Sound`: the services that are open (`sound_step`).
* **`one_service`**: in every run at most one service is open, every caller of a created service has
  that one, and no caller has a closed one while the session lasts.
* **`shutdown_final`**: when the end of the session has been handled no service is open or being
  created, and no later call gets or begins one.
-/

namespace PiSubagent

namespace Extension

open Runs Flights

/-! ## States and steps -/

/-- How far `session_shutdown` is. -/
inductive Shutdown where
  | idle
  /-- It awaits `service.shutdown()`. -/
  | closing (service : ℕ)
  /-- It awaits the promise of a service, if there is one. -/
  | awaiting (servicePromise : Option ℕ)
  | ended
  /-- `service.shutdown()` threw. -/
  | failed
deriving DecidableEq, Repr

/-- The variables of the extension. A service has the number of its creation. -/
structure Runtime where
  active : Bool
  /-- `servicePromise`, with `service` as the result that is kept. -/
  creations : State
  /-- The services whose shutdown has not ended. -/
  opened : List ℕ
  /-- The creations that shut their own service down. -/
  discarding : List ℕ
  /-- The calls that were refused. -/
  refused : ℕ
  shutdown : Shutdown
deriving DecidableEq, Repr

/-- The handler of a creation: `.catch`, and `service = created`. -/
def policy : Policy := ⟨true, true⟩

/-- What happens to the extension. -/
inductive Event where
  /-- `ensureService`. -/
  | ensure
  /-- `createSubagentService` returns. -/
  | created (i : ℕ)
  /-- Something before the service throws. -/
  | createFailed (i : ℕ)
  /-- `created.shutdown()` returns or throws. -/
  | discarded (i : ℕ)
  /-- The handler of a creation that failed. -/
  | caught (i : ℕ)
  | sessionShutdown
  /-- `service.shutdown()` returns, or throws. -/
  | closed (ok : Bool)
  /-- `pendingService` is settled. -/
  | awaited
deriving DecidableEq, Repr

namespace Runtime

/-- The extension as it is loaded. -/
def start : Runtime := ⟨true, .start, [], [], 0, .idle⟩

variable (s : Runtime)

/-- `service`. -/
def service : Option ℕ := s.creations.result

/-- `servicePromise`. -/
def servicePromise : Option ℕ := s.creations.promise

/-- The end of `session_shutdown`. -/
def forget : Runtime :=
  { s with
    creations := { s.creations with result := none, promise := none }
    shutdown := .ended }

/-- A service has been created. -/
def create (i : ℕ) : Runtime :=
  if s.active = true then
    { s with
      opened := s.opened ++ [i]
      creations := (s.creations.settle i true).handle policy i true }
  else { s with opened := s.opened ++ [i], discarding := s.discarding ++ [i] }

/-- The creation still awaits `createSubagentService`. -/
def creating (i : ℕ) : Prop := s.creations.phases[i]? = some .running ∧ i ∉ s.discarding

instance (i : ℕ) : Decidable (s.creating i) := inferInstanceAs (Decidable (_ ∧ _))

/-- What `session_shutdown` awaits is settled. -/
def settled : Option ℕ → Bool
  | none => true
  | some i => s.creations.phases[i]? = some (.handled true) ∨ s.creations.phases[i]? =
      some (.handled false)

/-- One step; `none` when it cannot be taken. -/
def step : Event → Option Runtime
  | .ensure =>
    some (if s.active = true then { s with creations := s.creations.call }
      else { s with refused := s.refused + 1 })
  | .created i => if s.creating i then some (s.create i) else none
  | .createFailed i =>
    if s.creating i then some { s with creations := s.creations.settle i false } else none
  | .discarded i =>
    if i ∈ s.discarding then
      some { s with
        opened := s.opened.erase i
        discarding := s.discarding.erase i
        creations := s.creations.settle i false }
    else none
  | .caught i =>
    if s.creations.phases[i]? = some (.settled false) then
      some { s with creations := s.creations.handle policy i false }
    else none
  | .sessionShutdown =>
    if s.shutdown = .idle then
      some { s with
        active := false
        shutdown := match s.service with
          | some i => .closing i
          | none => .awaiting s.servicePromise }
    else none
  | .closed ok =>
    match s.shutdown with
    | .closing i =>
      some (if ok = true then { s with opened := s.opened.erase i }.forget
        else { s with shutdown := .failed })
    | _ => none
  | .awaited =>
    match s.shutdown with
    | .awaiting p => if s.settled p = true then some s.forget else none
    | _ => none

end Runtime

/-! ## The services that are open -/

/-- What `session_shutdown` knows where it is. -/
def Shutdown.Knows (s : Runtime) : Shutdown → Prop
  | .idle => s.active = true
  | .closing i => s.active = false ∧ s.service = some i
  | .awaiting p => s.active = false ∧ s.service = none ∧ ∀ i, s.servicePromise = some i → p = some i
  | .ended => False
  | .failed => s.active = false ∧ s.service.isSome

/-- The services that are open before `session_shutdown` has ended. -/
structure Sound (s : Runtime) : Prop where
  single : Single policy s.creations
  knows : s.shutdown.Knows s
  success : ∀ i, Succeeded s.creations i → s.service = some i
  discarding : ∀ i ∈ s.discarding, s.creations.phases[i]? = some .running ∧ s.active = false
  opened : ∀ i ∈ s.opened, i ∈ s.discarding ∨ s.service = some i
  nodup : s.opened.Nodup
  discards : s.discarding.Nodup
  lasts : s.active = true → ∀ i, s.service = some i → i ∈ s.opened

/-- The session has ended. -/
structure Ended (s : Runtime) : Prop where
  inactive : s.active = false
  ended : s.shutdown = .ended
  opened : s.opened = []
  discarding : s.discarding = []
  phases : ∀ (i : ℕ) (x : Phase), s.creations.phases[i]? = some x →
    ∃ ok, x = .handled ok
  failed : ∀ i, i + 1 < s.creations.phases.length →
    s.creations.phases[i]? = some (.handled false)
  unique : ∀ i j, Succeeded s.creations i → Succeeded s.creations j → i = j

variable {s t : Runtime} {e : Event} {i : ℕ}

theorem sound_start : Sound .start where
  single := single_start policy
  knows := rfl
  success := fun i h => by
    obtain ⟨x, hx, -⟩ := h.phase
    cases hx
  discarding := fun _ h => absurd h List.not_mem_nil
  opened := fun _ h => absurd h List.not_mem_nil
  nodup := List.nodup_nil
  discards := List.nodup_nil
  lasts := fun _ _ h => by cases h

theorem Sound.service_phase (h : Sound s) (hi : s.service = some i) :
    s.creations.phases[i]? = some (.handled true) := (h.single.result i hi).2

/-- A creation that has not ended has no open service, but for one that it shuts down. -/
theorem Sound.not_opened (h : Sound s) (hi : s.creating i) : i ∉ s.opened := by
  intro hmem
  rcases h.opened i hmem with hd | hservice
  · exact hi.2 hd
  · cases hi.1.symm.trans (h.service_phase hservice)

theorem Shutdown.Knows.keep {d : Shutdown} (h : d.Knows s) (hactive : t.active = s.active)
    (hservice : t.service = s.service)
    (hpromise : ∀ j, t.servicePromise = some j → s.servicePromise = some j) : d.Knows t := by
  cases d with
  | idle => exact hactive.trans h
  | closing j => exact ⟨hactive.trans h.1, hservice.trans h.2⟩
  | awaiting p =>
    exact ⟨hactive.trans h.1, hservice.trans h.2.1, fun j hj => h.2.2 j (hpromise j hj)⟩
  | ended => exact h
  | failed => exact ⟨hactive.trans h.1, hservice ▸ h.2⟩

theorem Sound.idle (h : Sound s) (hactive : s.active = true) : s.shutdown = .idle := by
  have hk := h.knows
  cases hd : s.shutdown with
  | idle => rfl
  | closing j =>
    rw [hd] at hk
    cases hactive.symm.trans hk.1
  | awaiting p =>
    rw [hd] at hk
    cases hactive.symm.trans hk.1
  | ended =>
    rw [hd] at hk
    exact hk.elim
  | failed =>
    rw [hd] at hk
    cases hactive.symm.trans hk.1

theorem Sound.fails (h : Sound s) {y : Phase} (hsingle : Single policy t.creations)
    (hphases : t.creations.phases = s.creations.phases.set i y) (hy : y.succeeded = false)
    (hservice : t.service = s.service)
    (hpromise : ∀ j, t.servicePromise = some j → s.servicePromise = some j)
    (hactive : t.active = s.active) (hshutdown : t.shutdown = s.shutdown)
    (hdiscarding : ∀ j ∈ t.discarding, j ∈ s.discarding ∧ j ≠ i)
    (hopened : ∀ j ∈ t.opened, j ∈ s.opened ∧ (j ∈ s.discarding → j ∈ t.discarding))
    (hnodup : t.opened.Nodup) (hdiscards : t.discarding.Nodup)
    (hlasts : ∀ j, s.service = some j → j ∈ s.opened → j ∈ t.opened) :
    Sound t where
  single := hsingle
  knows := hshutdown ▸ h.knows.keep hactive hservice hpromise
  success := fun j hj => hservice.trans (h.success j (hj.of_set hphases hy).2)
  discarding := fun j hj => by
    obtain ⟨hmem, hne⟩ := hdiscarding j hj
    obtain ⟨hrunning, hinactive⟩ := h.discarding j hmem
    refine ⟨?_, hactive.trans hinactive⟩
    rw [hphases, List.getElem?_set_ne hne.symm]
    exact hrunning
  opened := fun j hj => by
    obtain ⟨hmem, hkeep⟩ := hopened j hj
    exact (h.opened j hmem).imp hkeep hservice.trans
  nodup := hnodup
  discards := hdiscards
  lasts := fun ha j hj =>
    hlasts j (hservice.symm.trans hj) (h.lasts (hactive.symm.trans ha) j (hservice.symm.trans hj))

theorem sound_ensure (h : Sound s) (hactive : s.active = true) :
    Sound { s with creations := s.creations.call } where
  single := single_call h.single
  knows := by
    change s.shutdown.Knows _
    rw [h.idle hactive]
    exact hactive
  success := fun i hi => (call_result s.creations).trans (h.success i hi.of_call)
  discarding := fun i hi => by cases hactive.symm.trans (h.discarding i hi).2
  opened := fun i hi => (h.opened i hi).imp_right (call_result s.creations).trans
  nodup := h.nodup
  discards := h.discards
  lasts := fun ha i hi => h.lasts ha i ((call_result s.creations).symm.trans hi)

theorem sound_created_active (h : Sound s) (hactive : s.active = true) (hi : s.creating i) :
    Sound { s with
      opened := s.opened ++ [i]
      creations := (s.creations.settle i true).handle policy i true } := by
  have hlt : i < s.creations.phases.length := (List.getElem?_eq_some_iff.mp hi.1).1
  have hsettle : Single policy (s.creations.settle i true) :=
    single_step (a := .settle i true) h.single (if_pos hi.1)
  have hphase : (s.creations.settle i true).phases[i]? = some (.settled true) :=
    List.getElem?_set_self hlt
  have hsingle : Single policy ((s.creations.settle i true).handle policy i true) :=
    single_step (a := .handle i true) hsettle (if_pos hphase)
  have hi' : Succeeded ((s.creations.settle i true).handle policy i true) i := by
    refine succeeded_set (s := s.creations.settle i true) ?_ rfl (fun _ => rfl)
    unfold Succeeded
    rw [hphase]
    rfl
  refine ⟨hsingle, ?_, ?_, ?_, ?_, ?_, h.discards, ?_⟩
  · change s.shutdown.Knows _
    rw [h.idle hactive]
    exact hactive
  · intro j hj
    rw [hsingle.succeeded_unique hj hi']
    rfl
  · intro j hj
    cases hactive.symm.trans (h.discarding j hj).2
  · intro j hj
    rcases List.mem_append.mp hj with hj | hj
    · rcases h.opened j hj with hd | hservice
      · exact Or.inl hd
      · have hlast := (h.single.last hi.1 (fun hc => by cases hc)).1
        have hlast' := (h.single.last (h.service_phase hservice) (fun hc => by cases hc)).1
        rw [show j = i by omega]
        exact Or.inr rfl
    · rw [List.mem_singleton.mp hj]
      exact Or.inr rfl
  · exact List.nodup_append.mpr ⟨h.nodup, List.nodup_singleton i, fun a ha b hb hab =>
      h.not_opened hi (List.mem_singleton.mp hb ▸ hab ▸ ha)⟩
  · intro _ j hj
    cases hj
    exact List.mem_append_right _ List.mem_cons_self

theorem sound_created_inactive (h : Sound s) (hactive : s.active = false) (hi : s.creating i) :
    Sound { s with opened := s.opened ++ [i], discarding := s.discarding ++ [i] } where
  single := h.single
  knows := h.knows
  success := h.success
  discarding := fun j hj => by
    rcases List.mem_append.mp hj with hj | hj
    · exact h.discarding j hj
    · rw [List.mem_singleton.mp hj]
      exact ⟨hi.1, hactive⟩
  opened := fun j hj => by
    rcases List.mem_append.mp hj with hj | hj
    · exact (h.opened j hj).imp_left fun hd => List.mem_append_left _ hd
    · exact Or.inl (List.mem_append_right _ hj)
  nodup := List.nodup_append.mpr ⟨h.nodup, List.nodup_singleton i, fun a ha b hb hab =>
      h.not_opened hi (List.mem_singleton.mp hb ▸ hab ▸ ha)⟩
  discards := List.nodup_append.mpr ⟨h.discards, List.nodup_singleton i, fun a ha b hb hab =>
      hi.2 (List.mem_singleton.mp hb ▸ hab ▸ ha)⟩
  lasts := fun ha => by cases ha.symm.trans hactive

theorem sound_createFailed (h : Sound s) (hi : s.creating i) :
    Sound { s with creations := s.creations.settle i false } :=
  h.fails (single_step (a := .settle i false) h.single (if_pos hi.1)) rfl rfl rfl (fun _ hj => hj)
    rfl rfl (fun _ hj => ⟨hj, fun he => hi.2 (he ▸ hj)⟩) (fun _ hj => ⟨hj, id⟩) h.nodup
    h.discards (fun _ _ hj => hj)

theorem sound_discarded (h : Sound s) (hi : i ∈ s.discarding) :
    Sound { s with
      opened := s.opened.erase i
      discarding := s.discarding.erase i
      creations := s.creations.settle i false } := by
  obtain ⟨hrunning, hinactive⟩ := h.discarding i hi
  refine h.fails (single_step (a := .settle i false) h.single (if_pos hrunning)) rfl rfl rfl
    (fun _ hj => hj) rfl rfl ?_ ?_ (h.nodup.erase i) (h.discards.erase i) ?_
  · intro j hj
    exact ⟨List.mem_of_mem_erase hj, (h.discards.mem_erase_iff.mp hj).1⟩
  · intro j hj
    obtain ⟨hne, hmem⟩ := h.nodup.mem_erase_iff.mp hj
    exact ⟨hmem, fun hd => h.discards.mem_erase_iff.mpr ⟨hne, hd⟩⟩
  · intro j hj hmem
    refine h.nodup.mem_erase_iff.mpr ⟨?_, hmem⟩
    rintro rfl
    cases hrunning.symm.trans (h.service_phase hj)

theorem sound_caught (h : Sound s) (hi : s.creations.phases[i]? = some (.settled false)) :
    Sound { s with creations := s.creations.handle policy i false } := by
  refine h.fails (single_step (a := .handle i false) h.single (if_pos hi)) rfl rfl rfl ?_ rfl rfl
    ?_ (fun _ hj => ⟨hj, id⟩) h.nodup h.discards (fun _ _ hj => hj)
  · intro j hj
    cases hj
  · intro j hj
    refine ⟨hj, ?_⟩
    rintro rfl
    cases hi.symm.trans (h.discarding _ hj).1

theorem sound_sessionShutdown (h : Sound s) :
    Sound { s with
      active := false
      shutdown := match s.service with
        | some i => .closing i
        | none => .awaiting s.servicePromise } where
  single := h.single
  knows := by
    cases hs : s.service with
    | some i => exact ⟨rfl, hs⟩
    | none => exact ⟨rfl, hs, fun _ hi => hi⟩
  success := h.success
  discarding := fun i hi => ⟨(h.discarding i hi).1, rfl⟩
  opened := h.opened
  nodup := h.nodup
  discards := h.discards
  lasts := fun ha => by cases ha

/-- When every creation has ended, the session ends without an open service. -/
theorem Sound.ended (h : Sound s) (hinactive : s.active = false)
    (hphases : ∀ (j : ℕ) (x : Phase), s.creations.phases[j]? = some x → ∃ ok, x = .handled ok)
    (hopened : ∀ j ∈ t.opened, j ∈ s.opened ∧ s.service ≠ some j)
    (ht : t = { s with opened := t.opened }) : Ended t.forget := by
  have hdiscarding : ∀ j, j ∉ s.discarding := by
    intro j hj
    obtain ⟨ok, hok⟩ := hphases j _ (h.discarding j hj).1
    cases hok
  rw [ht]
  refine ⟨hinactive, rfl, ?_, ?_, hphases, h.single.failed, fun i j =>
    h.single.succeeded_unique⟩
  · refine List.eq_nil_iff_forall_not_mem.mpr fun j hj => ?_
    obtain ⟨hmem, hne⟩ := hopened j hj
    rcases h.opened j hmem with hd | hservice
    · exact hdiscarding j hd
    · exact hne hservice
  · exact List.eq_nil_iff_forall_not_mem.mpr hdiscarding

theorem ended_closed (h : Sound s) (hi : s.shutdown = .closing i) :
    Ended { s with opened := s.opened.erase i }.forget := by
  have hk := h.knows
  rw [hi] at hk
  obtain ⟨hinactive, hservice⟩ := hk
  have hphase := h.service_phase hservice
  have hlast := (h.single.last hphase (fun hc => by cases hc)).1
  refine h.ended hinactive ?_ ?_ rfl
  · intro j x hx
    have hlt : j < s.creations.phases.length := (List.getElem?_eq_some_iff.mp hx).1
    rcases eq_or_ne j i with rfl | hne
    · exact ⟨true, Option.some.inj (hx.symm.trans hphase)⟩
    · exact ⟨false, Option.some.inj (hx.symm.trans (h.single.failed j (by omega)))⟩
  · intro j hj
    obtain ⟨hne, hmem⟩ := h.nodup.mem_erase_iff.mp hj
    refine ⟨hmem, fun hc => hne ?_⟩
    exact Option.some.inj (hc.symm.trans hservice)

theorem ended_awaited {p : Option ℕ} (h : Sound s) (hp : s.shutdown = .awaiting p)
    (hsettled : s.settled p = true) : Ended s.forget := by
  have hk := h.knows
  rw [hp] at hk
  obtain ⟨hinactive, hservice, hpromise⟩ := hk
  have hnone : s.servicePromise = none := by
    cases hc : s.servicePromise with
    | none => rfl
    | some i =>
      rw [hpromise i hc] at hsettled
      rcases of_decide_eq_true hsettled with htrue | hfalse
      · have hs : Succeeded s.creations i := by
          unfold Succeeded
          rw [htrue]
          rfl
        cases hservice.symm.trans (h.success i hs)
      · exact absurd hfalse (h.single.retries rfl i hc)
  refine h.ended (t := s) hinactive ?_ ?_ rfl
  · intro j x hx
    have hlt : j < s.creations.phases.length := (List.getElem?_eq_some_iff.mp hx).1
    exact ⟨false, Option.some.inj (hx.symm.trans (h.single.empty hnone j hlt))⟩
  · intro j hj
    refine ⟨hj, fun hc => ?_⟩
    cases hservice.symm.trans hc

/-- **One step** keeps what is known of the services, or ends the session. -/
theorem sound_step (h : Sound s) (hstep : s.step e = some t) : Sound t ∨ Ended t := by
  cases e with
  | ensure =>
    cases hstep
    left
    split_ifs with hactive
    · exact sound_ensure h hactive
    · exact ⟨h.single, h.knows.keep rfl rfl fun _ hj => hj, h.success, h.discarding, h.opened,
        h.nodup, h.discards, h.lasts⟩
  | created i =>
    obtain ⟨hi, he⟩ := Option.ite_none_right_eq_some.mp hstep
    cases he
    left
    unfold Runtime.create
    split_ifs with hactive
    · exact sound_created_active h hactive hi
    · exact sound_created_inactive h (Bool.eq_false_iff.mpr hactive) hi
  | createFailed i =>
    obtain ⟨hi, he⟩ := Option.ite_none_right_eq_some.mp hstep
    cases he
    exact Or.inl (sound_createFailed h hi)
  | discarded i =>
    obtain ⟨hi, he⟩ := Option.ite_none_right_eq_some.mp hstep
    cases he
    exact Or.inl (sound_discarded h hi)
  | caught i =>
    obtain ⟨hi, he⟩ := Option.ite_none_right_eq_some.mp hstep
    cases he
    exact Or.inl (sound_caught h hi)
  | sessionShutdown =>
    obtain ⟨-, he⟩ := Option.ite_none_right_eq_some.mp hstep
    cases he
    exact Or.inl (sound_sessionShutdown h)
  | closed ok =>
    unfold Runtime.step at hstep
    cases hi : s.shutdown with
    | closing i =>
      rw [hi] at hstep
      cases hstep
      have hk := h.knows
      rw [hi] at hk
      split_ifs
      · exact Or.inr (ended_closed h hi)
      · exact Or.inl ⟨h.single, ⟨hk.1, hk.2 ▸ rfl⟩, h.success, h.discarding, h.opened, h.nodup,
          h.discards, h.lasts⟩
    | _ =>
      rw [hi] at hstep
      cases hstep
  | awaited =>
    unfold Runtime.step at hstep
    cases hp : s.shutdown with
    | awaiting p =>
      rw [hp] at hstep
      obtain ⟨hsettled, he⟩ := Option.ite_none_right_eq_some.mp hstep
      cases he
      exact Or.inr (ended_awaited h hp hsettled)
    | _ =>
      rw [hp] at hstep
      cases hstep

/-- **After the end of the session** a step only refuses a call. -/
theorem Ended.step (h : Ended s) (hstep : s.step e = some t) :
    e = .ensure ∧ t = { s with refused := s.refused + 1 } := by
  have hphase : ∀ {j : ℕ} {x : Phase}, s.creations.phases[j]? = some x → x ≠ .running ∧
      x ≠ .settled false := by
    intro j x hx
    obtain ⟨ok, rfl⟩ := h.phases j x hx
    exact ⟨fun hc => (by cases hc), fun hc => (by cases hc)⟩
  cases e with
  | ensure =>
    have hinactive : s.active ≠ true := by
      rw [h.inactive]
      decide
    rw [Runtime.step, if_neg hinactive] at hstep
    exact ⟨rfl, (Option.some.inj hstep).symm⟩
  | created i =>
    obtain ⟨hi, -⟩ := Option.ite_none_right_eq_some.mp hstep
    exact absurd rfl (hphase hi.1).1
  | createFailed i =>
    obtain ⟨hi, -⟩ := Option.ite_none_right_eq_some.mp hstep
    exact absurd rfl (hphase hi.1).1
  | discarded i =>
    obtain ⟨hi, -⟩ := Option.ite_none_right_eq_some.mp hstep
    rw [h.discarding] at hi
    exact absurd hi List.not_mem_nil
  | caught i =>
    obtain ⟨hi, -⟩ := Option.ite_none_right_eq_some.mp hstep
    exact absurd rfl (hphase hi).2
  | sessionShutdown =>
    obtain ⟨hi, -⟩ := Option.ite_none_right_eq_some.mp hstep
    cases h.ended.symm.trans hi
  | closed ok =>
    unfold Runtime.step at hstep
    rw [h.ended] at hstep
    cases hstep
  | awaited =>
    unfold Runtime.step at hstep
    rw [h.ended] at hstep
    cases hstep

theorem Ended.refuse (h : Ended s) (n : ℕ) : Ended { s with refused := n } :=
  ⟨h.inactive, h.ended, h.opened, h.discarding, h.phases, h.failed, h.unique⟩

/-! ## Runs -/

theorem sound_exec {es : List Event} (h : exec Runtime.step .start es = some t) :
    Sound t ∨ Ended t := by
  refine exec_preserves (fun s => Sound s ∨ Ended s) ?_ (Or.inl sound_start) h
  rintro s e t (hs | hs) hstep
  · exact sound_step hs hstep
  · obtain ⟨-, rfl⟩ := hs.step hstep
    exact Or.inr (hs.refuse _)

theorem Sound.opened_length (h : Sound s) : s.opened.length ≤ 1 := by
  have hlast : ∀ i ∈ s.opened, i + 1 = s.creations.phases.length := by
    intro i hi
    rcases h.opened i hi with hd | hservice
    · exact (h.single.last (h.discarding i hd).1 (fun hc => by cases hc)).1
    · exact (h.single.last (h.service_phase hservice) (fun hc => by cases hc)).1
  cases hopened : s.opened with
  | nil => exact Nat.zero_le 1
  | cons i rest =>
    cases rest with
    | nil => exact Nat.le_refl 1
    | cons j rest =>
      have hnodup := h.nodup
      rw [hopened] at hlast hnodup
      have hi := hlast i List.mem_cons_self
      have hj := hlast j (List.mem_cons_of_mem _ List.mem_cons_self)
      have hne : i ≠ j := fun he => (List.nodup_cons.mp hnodup).1 (he ▸ List.mem_cons_self)
      omega

/-- The session ends while the service is being created, for two callers. -/
def endedEarly : List Event :=
  [.ensure, .ensure, .sessionShutdown, .created 0, .discarded 0, .caught 0, .awaited]

/-- **One service**: in every run at most one service is open, and a service is created when the
creations before it have failed; the callers of a service that was created have one and the same,
and while the session lasts it is open. -/
theorem one_service (es : List Event) (t : Runtime) (h : exec Runtime.step .start es = some t) :
    t.opened.length ≤ 1 ∧
    (∀ i, i + 1 < t.creations.phases.length →
      t.creations.phases[i]? = some (.handled false)) ∧
    (∀ i ∈ t.creations.answers, ∀ j ∈ t.creations.answers,
      Succeeded t.creations i → Succeeded t.creations j → i = j) ∧
    (t.active = true → ∀ i, Succeeded t.creations i → i ∈ t.opened) := by
  rcases sound_exec h with hs | hs
  · exact ⟨hs.opened_length, hs.single.failed, fun i _ j _ => hs.single.succeeded_unique,
      fun ha i hi => hs.lasts ha i (hs.success i hi)⟩
  · refine ⟨?_, hs.failed, fun i _ j _ => hs.unique i j, ?_⟩
    · rw [hs.opened]
      exact Nat.zero_le 1
    · intro ha
      cases ha.symm.trans hs.inactive

theorem one_service_endedEarly : ∃ t, exec Runtime.step .start endedEarly = some t ∧
    t.creations.answers = [0, 0] ∧ t.opened.length ≤ 1 :=
  ⟨_, rfl, rfl, (one_service endedEarly _ rfl).1⟩

/-- **The end of the session is final**: no service is open or being created, and whatever comes
after it is a call that is refused. -/
theorem shutdown_final (before after : List Event) (s t : Runtime)
    (h : exec Runtime.step .start before = some s) (hended : s.shutdown = .ended)
    (hafter : exec Runtime.step s after = some t) :
    s.opened = [] ∧
    (∀ (i : ℕ) (x : Phase), s.creations.phases[i]? = some x → ∃ ok, x = .handled ok) ∧
    (∀ e ∈ after, e = .ensure) ∧ t = { s with refused := s.refused + after.length } := by
  have hs : Ended s := by
    rcases sound_exec h with hs | hs
    · have hk := hs.knows
      rw [hended] at hk
      exact hk.elim
    · exact hs
  refine ⟨hs.opened, hs.phases, ?_⟩
  clear h hended
  induction after generalizing s with
  | nil =>
    cases hafter
    exact ⟨fun _ he => absurd he List.not_mem_nil, rfl⟩
  | cons e after ih =>
    obtain ⟨u, hu, hrest⟩ := exec_cons_eq_some.mp hafter
    obtain ⟨rfl, rfl⟩ := hs.step hu
    obtain ⟨hall, ht⟩ := ih _ hrest (hs.refuse _)
    refine ⟨fun e he => ?_, ?_⟩
    · rcases List.mem_cons.mp he with rfl | he
      · rfl
      · exact hall e he
    · rw [ht, List.length_cons, Nat.add_right_comm]
      rfl

theorem shutdown_final_endedEarly : ∃ s t, exec Runtime.step .start endedEarly = some s ∧
    exec Runtime.step s [.ensure, .ensure] = some t ∧ t.refused = 2 ∧ s.opened = [] ∧
      t = { s with refused := s.refused + 2 } :=
  have h := shutdown_final endedEarly [.ensure, .ensure] _ _ rfl rfl rfl
  ⟨_, _, rfl, rfl, rfl, h.1, h.2.2.2⟩

end Extension

end PiSubagent
