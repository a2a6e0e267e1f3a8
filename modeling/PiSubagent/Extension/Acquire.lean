import PiSubagent.Extension.Runtime
import Mathlib.Data.List.Induction

/-!
# Acquiring the service

Another extension asks on the event bus for the provider of the service, awaits its service, and
asks again: the provider must still be the only one.

* `Seat`, `Seat.step`: the extensions of a seat that are loaded and end, what else listens on the
  channel, and the acquisitions.
* `Listed`: an extension listens until its session ends (`listed_step`).
* **`acquired_open`**: an acquisition ends with a service that is open then, of an extension that is
  the only provider and whose session has not ended; all acquisitions of an extension have the same.
-/

namespace PiSubagent

namespace Extension

open Runs Flights

/-! ## States and steps -/

/-- What listens on the channel of providers: an extension, or another party. -/
inductive Provider where
  | own (i : ℕ)
  | other (k : ℕ) (compatible : Bool)
deriving DecidableEq, Repr

/-- `isCompatibleProvider`. -/
def Provider.compatible : Provider → Bool
  | .own _ => true
  | .other _ compatible => compatible

/-- The codes of `SubagentServiceProviderError`. -/
inductive ProviderCode where
  | missing | duplicate | incompatible | replaced
deriving DecidableEq, Repr

/-- `discoverProvider`, of what answers on the channel. -/
def discoverProvider : List Provider → Except ProviderCode Provider
  | [] => .error .missing
  | [p] => if p.compatible = true then .ok p else .error .incompatible
  | _ => .error .duplicate

/-- How far a call of `acquireSubagentService` is. -/
inductive Acquisition where
  /-- It awaits a creation of an extension. -/
  | asking (i c : ℕ)
  | askingOther (k : ℕ)
  | acquired (i c : ℕ)
  | acquiredOther (k : ℕ)
  | refused (code : ProviderCode)
  /-- `provider.acquire` threw. -/
  | rejected
deriving DecidableEq, Repr

/-- The extensions of a seat, by number, what listens on the channel, and the acquisitions. -/
structure Seat where
  runtimes : List Runtime
  listening : List Provider
  acquisitions : List Acquisition
deriving DecidableEq, Repr

/-- What happens in a seat. -/
inductive SeatEvent where
  /-- `piSubagentExtension`. -/
  | load
  | extension (i : ℕ) (e : Event)
  /-- Another party listens, and stops. -/
  | listen (k : ℕ) (compatible : Bool)
  | leave (k : ℕ) (compatible : Bool)
  | acquire
  /-- `provider.acquire` returns, or throws. -/
  | settle (a : ℕ) (ok : Bool)
deriving DecidableEq, Repr

namespace Seat

variable (s : Seat)

/-- Before the first extension is loaded. -/
def start : Seat := ⟨[], [], []⟩

/-- The call of `provider.acquire`. -/
def ask : Provider → Seat
  | .own i =>
    match s.runtimes[i]? with
    | some r =>
      if r.active = true then
        { s with
          runtimes := s.runtimes.set i { r with creations := r.creations.call }
          acquisitions := s.acquisitions ++ [.asking i r.creations.joined] }
      else { s with acquisitions := s.acquisitions ++ [.rejected] }
    | none => s
  | .other k _ => { s with acquisitions := s.acquisitions ++ [.askingOther k] }

/-- The first part of `acquireSubagentService`. -/
def acquire : Seat :=
  match discoverProvider s.listening with
  | .ok p => s.ask p
  | .error code => { s with acquisitions := s.acquisitions ++ [.refused code] }

/-- The second part, with what the acquisition has when the provider is the same. -/
def confirm (p : Provider) (acquired : Acquisition) : Acquisition :=
  match discoverProvider s.listening with
  | .ok q => if q = p then acquired else .refused .replaced
  | .error code => .refused code

/-- What an acquisition becomes when `provider.acquire` has returned or thrown. -/
def settled (ok : Bool) : Acquisition → Option Acquisition
  | .asking i c =>
    match s.runtimes[i]?.bind fun r => r.creations.phases[c]? with
    | some (.handled true) => some (s.confirm (.own i) (.acquired i c))
    | some (.handled false) => some .rejected
    | _ => none
  | .askingOther k =>
    some (if ok = true then s.confirm (.other k true) (.acquiredOther k) else .rejected)
  | _ => none

/-- One step; `none` when it cannot be taken. -/
def step : SeatEvent → Option Seat
  | .load =>
    some { s with
      runtimes := s.runtimes ++ [.start]
      listening := s.listening ++ [.own s.runtimes.length] }
  | .extension i e =>
    (s.runtimes[i]?.bind fun r => r.step e).map fun r =>
      { s with
        runtimes := s.runtimes.set i r
        listening := if e = .sessionShutdown then s.listening.filter (· ≠ .own i)
          else s.listening }
  | .listen k compatible => some { s with listening := s.listening ++ [.other k compatible] }
  | .leave k compatible =>
    some { s with listening := s.listening.filter (· ≠ .other k compatible) }
  | .acquire => some s.acquire
  | .settle a ok =>
    (s.acquisitions[a]?.bind (s.settled ok)).map fun acquisition =>
      { s with acquisitions := s.acquisitions.set a acquisition }

end Seat

/-! ## What extensions and acquisitions keep -/

variable {r r' : Runtime} {e : Event} {s t : Seat} {i c : ℕ}

/-- An extension is active until its session ends. -/
theorem active_step (h : r.step e = some r') (hne : e ≠ .sessionShutdown) :
    r'.active = r.active := by
  cases e with
  | ensure =>
    cases h
    split_ifs <;> rfl
  | created i =>
    obtain ⟨-, he⟩ := Option.ite_none_right_eq_some.mp h
    cases he
    unfold Runtime.create
    split_ifs <;> rfl
  | createFailed i =>
    obtain ⟨-, he⟩ := Option.ite_none_right_eq_some.mp h
    cases he
    rfl
  | discarded i =>
    obtain ⟨-, he⟩ := Option.ite_none_right_eq_some.mp h
    cases he
    rfl
  | caught i =>
    obtain ⟨-, he⟩ := Option.ite_none_right_eq_some.mp h
    cases he
    rfl
  | sessionShutdown => exact absurd rfl hne
  | closed ok =>
    unfold Runtime.step at h
    cases hi : r.shutdown with
    | closing i =>
      rw [hi] at h
      cases h
      split_ifs <;> rfl
    | _ =>
      rw [hi] at h
      cases h
  | awaited =>
    unfold Runtime.step at h
    cases hp : r.shutdown with
    | awaiting p =>
      rw [hp] at h
      obtain ⟨-, he⟩ := Option.ite_none_right_eq_some.mp h
      cases he
      rfl
    | _ =>
      rw [hp] at h
      cases h

theorem succeeded_runtime (hr : Sound r ∨ Ended r) (h : r.step e = some r')
    (hc : Succeeded r.creations c) : Succeeded r'.creations c := by
  rcases hr with hs | hs
  · cases e with
    | ensure =>
      cases h
      split_ifs
      · exact hc.call
      · exact hc
    | created i =>
      obtain ⟨hi, he⟩ := Option.ite_none_right_eq_some.mp h
      cases he
      unfold Runtime.create
      split_ifs
      · have hsettled : Succeeded (r.creations.settle i true) c := hc.keep rfl hi.1 rfl
        exact succeeded_set hsettled rfl fun _ => rfl
      · exact hc
    | createFailed i =>
      obtain ⟨hi, he⟩ := Option.ite_none_right_eq_some.mp h
      cases he
      exact hc.keep rfl hi.1 rfl
    | discarded i =>
      obtain ⟨hi, he⟩ := Option.ite_none_right_eq_some.mp h
      cases he
      exact hc.keep rfl (hs.discarding i hi).1 rfl
    | caught i =>
      obtain ⟨hi, he⟩ := Option.ite_none_right_eq_some.mp h
      cases he
      exact hc.keep rfl hi rfl
    | sessionShutdown =>
      obtain ⟨-, he⟩ := Option.ite_none_right_eq_some.mp h
      cases he
      exact hc
    | closed ok =>
      unfold Runtime.step at h
      cases hi : r.shutdown with
      | closing i =>
        rw [hi] at h
        cases h
        split_ifs <;> exact hc
      | _ =>
        rw [hi] at h
        cases h
    | awaited =>
      unfold Runtime.step at h
      cases hp : r.shutdown with
      | awaiting p =>
        rw [hp] at h
        obtain ⟨-, he⟩ := Option.ite_none_right_eq_some.mp h
        cases he
        exact hc
      | _ =>
        rw [hp] at h
        cases h
  · obtain ⟨-, rfl⟩ := hs.step h
    exact hc

/-- **What holds in a seat**: an extension listens until its session ends, and the services that
were acquired have been created. -/
structure Listed (s : Seat) : Prop where
  sound : ∀ (i : ℕ) (r : Runtime), s.runtimes[i]? = some r → Sound r ∨ Ended r
  listens : ∀ i, .own i ∈ s.listening ↔ ∃ r, s.runtimes[i]? = some r ∧ r.active = true
  acquired : ∀ i c, .acquired i c ∈ s.acquisitions →
    ∃ r, s.runtimes[i]? = some r ∧ Succeeded r.creations c

theorem listed_start : Listed .start where
  sound := fun i r h => by cases h
  listens := fun i => ⟨fun h => absurd h List.not_mem_nil, fun ⟨r, h, _⟩ => by cases h⟩
  acquired := fun i c h => absurd h List.not_mem_nil

theorem Listed.add (h : Listed s) {a : Acquisition} (ha : ∀ i c, a ≠ .acquired i c)
    (hruntimes : t.runtimes = s.runtimes) (hlistening : t.listening = s.listening)
    (hacquisitions : t.acquisitions = s.acquisitions ++ [a]) : Listed t where
  sound := hruntimes ▸ h.sound
  listens := hruntimes ▸ hlistening ▸ h.listens
  acquired := fun i c hmem => by
    rw [hacquisitions] at hmem
    rw [hruntimes]
    rcases List.mem_append.mp hmem with hmem | hmem
    · exact h.acquired i c hmem
    · exact absurd (List.mem_singleton.mp hmem).symm (ha i c)

theorem Listed.set (h : Listed s) (hr : s.runtimes[i]? = some r) (hsound : Sound r' ∨ Ended r')
    (hsucceeded : ∀ c, Succeeded r.creations c → Succeeded r'.creations c)
    (hruntimes : t.runtimes = s.runtimes.set i r')
    (hlistening : ∀ j, .own j ∈ t.listening ↔
      .own j ∈ s.listening ∧ (j = i → r'.active = true))
    (hactive : r'.active = true → r.active = true)
    (hacquisitions : ∀ j c, .acquired j c ∈ t.acquisitions → .acquired j c ∈ s.acquisitions) :
    Listed t := by
  have hlt : i < s.runtimes.length := (List.getElem?_eq_some_iff.mp hr).1
  have hself : t.runtimes[i]? = some r' := by rw [hruntimes, List.getElem?_set_self hlt]
  have hother : ∀ j, j ≠ i → t.runtimes[j]? = s.runtimes[j]? := by
    intro j hj
    rw [hruntimes, List.getElem?_set_ne (Ne.symm hj)]
  constructor
  · intro j q hq
    rcases eq_or_ne j i with rfl | hj
    · cases hself.symm.trans hq
      exact hsound
    · exact h.sound j q ((hother j hj).symm.trans hq)
  · intro j
    rw [hlistening, h.listens]
    rcases eq_or_ne j i with rfl | hj
    · constructor
      · rintro ⟨-, ha⟩
        exact ⟨r', hself, ha rfl⟩
      · rintro ⟨q, hq, ha⟩
        cases hself.symm.trans hq
        exact ⟨⟨r, hr, hactive ha⟩, fun _ => ha⟩
    · rw [hother j hj]
      exact ⟨fun hq => hq.1, fun hq => ⟨hq, fun he => absurd he hj⟩⟩
  · intro j c hmem
    obtain ⟨q, hq, hc⟩ := h.acquired j c (hacquisitions j c hmem)
    rcases eq_or_ne j i with rfl | hj
    · cases hr.symm.trans hq
      exact ⟨r', hself, hsucceeded c hc⟩
    · exact ⟨q, (hother j hj).trans hq, hc⟩

theorem Listed.extension (h : Listed s) (hr : s.runtimes[i]? = some r)
    (hstep : r.step e = some r') :
    Listed { s with
      runtimes := s.runtimes.set i r'
      listening := if e = .sessionShutdown then s.listening.filter (· ≠ .own i)
        else s.listening } := by
  have hsound : Sound r' ∨ Ended r' := by
    rcases h.sound i r hr with hs | hs
    · exact sound_step hs hstep
    · obtain ⟨-, rfl⟩ := hs.step hstep
      exact Or.inr (hs.refuse _)
  have hsucceeded : ∀ c, Succeeded r.creations c → Succeeded r'.creations c :=
    fun c hc => succeeded_runtime (h.sound i r hr) hstep hc
  by_cases he : e = .sessionShutdown
  · have hinactive : r'.active = false := by
      rw [he] at hstep
      obtain ⟨-, hs⟩ := Option.ite_none_right_eq_some.mp hstep
      cases hs
      rfl
    refine h.set hr hsound hsucceeded rfl ?_ ?_ (fun _ _ hmem => hmem)
    · intro j
      rw [if_pos he, List.mem_filter, decide_eq_true_iff, hinactive]
      refine and_congr_right fun _ => ⟨fun hne hj => absurd (hj ▸ rfl) hne, fun himp hj => ?_⟩
      cases hj
      cases himp rfl
    · rw [hinactive]
      exact fun hc => (by cases hc)
  · have hactive := active_step hstep he
    refine h.set hr hsound hsucceeded rfl ?_ (fun ha => hactive ▸ ha) (fun _ _ hmem => hmem)
    intro j
    rw [if_neg he]
    refine ⟨fun hmem => ⟨hmem, ?_⟩, fun hmem => hmem.1⟩
    rintro rfl
    obtain ⟨q, hq, ha⟩ := (h.listens j).mp hmem
    cases hr.symm.trans hq
    exact hactive.trans ha

theorem Listed.ask (h : Listed s) (p : Provider) : Listed (s.ask p) := by
  cases p with
  | other k compatible => exact h.add (fun i c hc => by cases hc) rfl rfl rfl
  | own i =>
    cases hr : s.runtimes[i]? with
    | none =>
      simp only [Seat.ask, hr]
      exact h
    | some r =>
      simp only [Seat.ask, hr]
      split_ifs with ha
      · have hcall : Listed { s with
            runtimes := s.runtimes.set i { r with creations := r.creations.call } } := by
          have hstep : r.step .ensure = some { r with creations := r.creations.call } := by
            rw [Runtime.step, if_pos ha]
          exact h.extension hr hstep
        exact hcall.add (fun i c hc => by cases hc) rfl rfl rfl
      · exact h.add (fun i c hc => by cases hc) rfl rfl rfl

theorem Listed.others (h : Listed s) {listening : List Provider}
    (hown : ∀ i, .own i ∈ listening ↔ .own i ∈ s.listening) :
    Listed { s with listening := listening } where
  sound := h.sound
  listens := fun i => (hown i).trans (h.listens i)
  acquired := h.acquired

theorem Listed.load (h : Listed s) :
    Listed { s with
      runtimes := s.runtimes ++ [.start]
      listening := s.listening ++ [.own s.runtimes.length] } := by
  have hold : ∀ (j : ℕ) (r : Runtime), s.runtimes[j]? = some r →
      (s.runtimes ++ [Runtime.start])[j]? = some r := by
    intro j r hr
    rw [List.getElem?_append_left (List.getElem?_eq_some_iff.mp hr).1]
    exact hr
  have hnew : ∀ (j : ℕ) (r : Runtime), (s.runtimes ++ [Runtime.start])[j]? = some r →
      s.runtimes[j]? = some r ∨ (j = s.runtimes.length ∧ r = .start) := by
    intro j r hr
    rcases Nat.lt_trichotomy j s.runtimes.length with hlt | rfl | hgt
    · rw [List.getElem?_append_left hlt] at hr
      exact Or.inl hr
    · rw [List.getElem?_concat_length] at hr
      exact Or.inr ⟨rfl, (Option.some.inj hr).symm⟩
    · have hlt := (List.getElem?_eq_some_iff.mp hr).1
      rw [List.length_append, List.length_singleton] at hlt
      omega
  constructor
  · intro j r hr
    rcases hnew j r hr with hr | ⟨-, rfl⟩
    · exact h.sound j r hr
    · exact Or.inl sound_start
  · intro j
    constructor
    · intro hmem
      rcases List.mem_append.mp hmem with hmem | hmem
      · obtain ⟨r, hr, ha⟩ := (h.listens j).mp hmem
        exact ⟨r, hold j r hr, ha⟩
      · cases List.mem_singleton.mp hmem
        exact ⟨.start, List.getElem?_concat_length, rfl⟩
    · rintro ⟨r, hr, ha⟩
      rcases hnew j r hr with hr | ⟨rfl, -⟩
      · exact List.mem_append_left _ ((h.listens j).mpr ⟨r, hr, ha⟩)
      · exact List.mem_append_right _ List.mem_cons_self
  · intro j c hmem
    obtain ⟨r, hr, hc⟩ := h.acquired j c hmem
    exact ⟨r, hold j r hr, hc⟩

/-! ## Acquisitions -/

theorem discoverProvider_ok {listening : List Provider} {p : Provider}
    (h : discoverProvider listening = .ok p) : listening = [p] := by
  cases listening with
  | nil => cases h
  | cons q rest =>
    cases rest with
    | cons q' rest => cases h
    | nil =>
      simp only [discoverProvider] at h
      split_ifs at h
      cases h
      rfl

/-- An acquisition ends with a service when its provider is the only one. -/
theorem confirm_acquired {p : Provider} {a b : Acquisition} (h : s.confirm p a = b)
    (hb : ∀ code, b ≠ .refused code) : b = a ∧ s.listening = [p] := by
  unfold Seat.confirm at h
  cases hd : discoverProvider s.listening with
  | error code =>
    rw [hd] at h
    exact absurd h.symm (hb code)
  | ok q =>
    rw [hd] at h
    dsimp only at h
    split_ifs at h with hq
    · exact ⟨h.symm, hq ▸ discoverProvider_ok hd⟩
    · exact absurd h.symm (hb _)

/-- What it is for an acquisition to end with a service of an extension. -/
theorem settled_acquired {a : Acquisition} {ok : Bool}
    (h : s.settled ok a = some (.acquired i c)) :
    a = .asking i c ∧ s.listening = [.own i] ∧
      ∃ r, s.runtimes[i]? = some r ∧ Succeeded r.creations c := by
  cases a with
  | asking j d =>
    simp only [Seat.settled] at h
    cases hp : s.runtimes[j]?.bind fun r => r.creations.phases[d]? with
    | none =>
      rw [hp] at h
      cases h
    | some x =>
      rw [hp] at h
      cases x with
      | handled ok =>
        cases ok with
        | true =>
          obtain ⟨he, hl⟩ := confirm_acquired (Option.some.inj h) (fun code hc => by cases hc)
          cases he
          obtain ⟨r, hr, hphase⟩ := Option.bind_eq_some_iff.mp hp
          refine ⟨rfl, hl, r, hr, ?_⟩
          unfold Succeeded
          rw [hphase]
          rfl
        | false => cases h
      | running => cases h
      | settled ok => cases h
  | askingOther k =>
    unfold Seat.settled at h
    split_ifs at h
    · cases (confirm_acquired (Option.some.inj h) (fun code hc => by cases hc)).1
    · cases h
  | acquired j d => cases h
  | acquiredOther k => cases h
  | refused code => cases h
  | rejected => cases h

/-- **One step.** -/
theorem listed_step {e : SeatEvent} (h : Listed s) (hstep : s.step e = some t) : Listed t := by
  cases e with
  | load =>
    cases hstep
    exact h.load
  | extension i e =>
    obtain ⟨r', hr', he⟩ := Option.map_eq_some_iff.mp hstep
    obtain ⟨r, hr, hextension⟩ := Option.bind_eq_some_iff.mp hr'
    cases he
    exact h.extension hr hextension
  | listen k compatible =>
    cases hstep
    refine h.others fun i => ?_
    rw [List.mem_append, List.mem_singleton]
    exact or_iff_left fun hc => by cases hc
  | leave k compatible =>
    cases hstep
    refine h.others fun i => ?_
    rw [List.mem_filter, decide_eq_true_iff]
    exact and_iff_left fun hc => by cases hc
  | acquire =>
    cases hstep
    unfold Seat.acquire
    split
    · exact h.ask _
    · exact h.add (fun i c hc => by cases hc) rfl rfl rfl
  | settle a ok =>
    obtain ⟨b, hb, he⟩ := Option.map_eq_some_iff.mp hstep
    obtain ⟨a', -, hsettled⟩ := Option.bind_eq_some_iff.mp hb
    cases he
    refine ⟨h.sound, h.listens, fun i c hmem => ?_⟩
    rcases List.mem_or_eq_of_mem_set hmem with hmem | hmem
    · exact h.acquired i c hmem
    · obtain ⟨-, -, hr⟩ := settled_acquired (hmem ▸ hsettled)
      exact hr

theorem listed_exec {es : List SeatEvent} (h : exec Seat.step .start es = some s) : Listed s :=
  exec_preserves Listed (fun _ _ _ => listed_step) listed_start h

theorem acquire_acquisitions (s : Seat) :
    s.acquire.acquisitions = s.acquisitions ∨
      ∃ b, s.acquire.acquisitions = s.acquisitions ++ [b] ∧ ∀ i c, b ≠ .acquired i c := by
  have hask : ∀ p, (s.ask p).acquisitions = s.acquisitions ∨
      ∃ b, (s.ask p).acquisitions = s.acquisitions ++ [b] ∧ ∀ i c, b ≠ .acquired i c := by
    intro p
    cases p with
    | other k compatible => exact Or.inr ⟨_, rfl, fun i c hc => by cases hc⟩
    | own i =>
      cases hr : s.runtimes[i]? with
      | none =>
        simp only [Seat.ask, hr]
        exact Or.inl trivial
      | some r =>
        simp only [Seat.ask, hr]
        split_ifs
        · exact Or.inr ⟨_, rfl, fun i c hc => by cases hc⟩
        · exact Or.inr ⟨_, rfl, fun i c hc => by cases hc⟩
  unfold Seat.acquire
  split
  · exact hask _
  · exact Or.inr ⟨_, rfl, fun i c hc => by cases hc⟩

/-- An acquisition that has ended with a service did so before, or does in this step. -/
theorem acquired_step {e : SeatEvent} {a : ℕ} (h : s.step e = some t)
    (ht : t.acquisitions[a]? = some (.acquired i c)) :
    s.acquisitions[a]? = some (.acquired i c) ∨
      ∃ ok b, e = .settle a ok ∧ s.acquisitions[a]? = some b ∧
        s.settled ok b = some (.acquired i c) := by
  cases e with
  | load =>
    cases h
    exact Or.inl ht
  | extension j e =>
    obtain ⟨r, -, he⟩ := Option.map_eq_some_iff.mp h
    cases he
    exact Or.inl ht
  | listen k compatible =>
    cases h
    exact Or.inl ht
  | leave k compatible =>
    cases h
    exact Or.inl ht
  | acquire =>
    cases h
    rcases acquire_acquisitions s with he | ⟨b, he, hb⟩
    · exact Or.inl (he ▸ ht)
    · rw [he] at ht
      rcases Nat.lt_trichotomy a s.acquisitions.length with hlt | rfl | hgt
      · rw [List.getElem?_append_left hlt] at ht
        exact Or.inl ht
      · rw [List.getElem?_concat_length] at ht
        exact absurd (Option.some.inj ht) (hb i c)
      · have hlt := (List.getElem?_eq_some_iff.mp ht).1
        rw [List.length_append, List.length_singleton] at hlt
        omega
  | settle a' ok =>
    obtain ⟨b', hb', he⟩ := Option.map_eq_some_iff.mp h
    obtain ⟨b, hb, hsettled⟩ := Option.bind_eq_some_iff.mp hb'
    cases he
    have hlt : a' < s.acquisitions.length := (List.getElem?_eq_some_iff.mp hb).1
    rcases eq_or_ne a' a with rfl | hne
    · rw [List.getElem?_set_self hlt] at ht
      exact Or.inr ⟨ok, b, rfl, hb, hsettled.trans ht⟩
    · rw [List.getElem?_set_ne hne] at ht
      exact Or.inl ht

/-- Where an acquisition ends with a service, the service is open. -/
theorem Listed.opened (h : Listed s) {a : ℕ} {b : Acquisition} {ok : Bool}
    (hb : s.acquisitions[a]? = some b) (hsettled : s.settled ok b = some (.acquired i c)) :
    s.acquisitions[a]? = some (.asking i c) ∧ s.listening = [.own i] ∧
      ∃ r, s.runtimes[i]? = some r ∧ r.active = true ∧ c ∈ r.opened := by
  obtain ⟨rfl, hl, r, hr, hc⟩ := settled_acquired hsettled
  obtain ⟨q, hq, hactive⟩ := (h.listens i).mp (hl ▸ List.mem_cons_self)
  cases hr.symm.trans hq
  refine ⟨hb, hl, r, hr, hactive, ?_⟩
  rcases h.sound i r hr with hs | hs
  · exact hs.lasts hactive c (hs.success c hc)
  · cases hactive.symm.trans hs.inactive

/-- **An acquired service is open** when its acquisition ends, and its extension is the only
provider then and its session has not ended; all acquisitions of an extension have one service. -/
theorem acquired_open (es : List SeatEvent) (s : Seat) (h : exec Seat.step .start es = some s) :
    (∀ (a i c : ℕ), s.acquisitions[a]? = some (.acquired i c) →
      ∃ before ok after u, es = before ++ .settle a ok :: after ∧
        exec Seat.step .start before = some u ∧ u.acquisitions[a]? = some (.asking i c) ∧
        u.listening = [.own i] ∧
        ∃ r, u.runtimes[i]? = some r ∧ r.active = true ∧ c ∈ r.opened) ∧
    ∀ i c d, .acquired i c ∈ s.acquisitions → .acquired i d ∈ s.acquisitions → c = d := by
  constructor
  · induction es using List.reverseRecOn generalizing s with
    | nil =>
      cases h
      intro a i c ha
      cases ha
    | append_singleton es e ih =>
      intro a i c ha
      obtain ⟨u, hu, he⟩ := exec_concat_eq_some.mp h
      rcases acquired_step he ha with hold | ⟨ok, b, rfl, hb, hsettled⟩
      · obtain ⟨before, ok, after, v, rfl, hv, hrest⟩ := ih u hu a i c hold
        exact ⟨before, ok, after ++ [e], v, by simp, hv, hrest⟩
      · obtain ⟨hasking, hl, hr⟩ := (listed_exec hu).opened hb hsettled
        exact ⟨es, ok, [], u, rfl, hu, hasking, hl, hr⟩
  · intro i c d hc hd
    have hs := listed_exec h
    obtain ⟨r, hr, hcs⟩ := hs.acquired i c hc
    obtain ⟨q, hq, hds⟩ := hs.acquired i d hd
    cases hr.symm.trans hq
    rcases hs.sound i r hr with hsound | hended
    · exact hsound.single.succeeded_unique hcs hds
    · exact hended.unique c d hcs hds

/-- An extension is acquired while its service is being created; a second extension is loaded
before the second acquisition ends. -/
def loadedTwice : List SeatEvent :=
  [.load, .acquire, .acquire, .extension 0 (.created 0), .settle 0 true, .load, .settle 1 true]

theorem acquired_open_loadedTwice : ∃ s, exec Seat.step .start loadedTwice = some s ∧
    s.acquisitions = [.acquired 0 0, .refused .duplicate] ∧
    ∃ before ok after u, loadedTwice = before ++ .settle 0 ok :: after ∧
      exec Seat.step .start before = some u ∧ u.acquisitions[0]? = some (.asking 0 0) ∧
      u.listening = [.own 0] ∧
      ∃ r, u.runtimes[0]? = some r ∧ r.active = true ∧ 0 ∈ r.opened :=
  ⟨_, rfl, rfl, (acquired_open loadedTwice _ rfl).1 0 0 0 rfl⟩

end Extension

end PiSubagent
