import PiSubagent.Lib.Double
import PiSubagent.Lib.Runs

/-!
# The deadline of an attempt

`createAttemptDeadline` charges an attempt for the time it is not paused. Its charge, the mark since
when it runs and its timer are three variables that `pause`, `resume`, `dispose` and the timer change
in any order. Times are doubles in milliseconds, and so are their sums and differences; the clock does
not go back, and a timer does not fire before its delay is over.

* `DeadlineState`: the three variables, the signal, and the timers of the runtime.
* `DeadlineState.step`: one call, one firing, or time that passes.
* `Stopwatch`: what the charge is meant to be, told by the calls alone.
* **`Sim.step`**, **`Near.step`**: the variables follow the stopwatch, up to the rounding of doubles.
* **`deadline_law`**: the charge, the signal and the timer, after any calls.
-/

namespace PiSubagent.AttemptDeadline

open Runs
open Double (rounded Within Grid)

/-! ## The variables -/

/-- A timer of the runtime and the time before which it does not fire. -/
structure Timer where
  id : ℕ
  due : ℚ
deriving DecidableEq, Repr

/-- The variables of a deadline, its signal, the timers that are pending, and the clock. -/
structure DeadlineState where
  charged : ℚ
  runningSince : Option ℚ
  timer : Option ℕ
  aborted : Bool
  pending : List Timer
  nextTimer : ℕ
  clock : ℚ
deriving DecidableEq, Repr

namespace DeadlineState

variable (s : DeadlineState)

/-- The charge with the time since the mark. -/
def charge : ℚ :=
  match s.runningSince with
  | some since => rounded (s.charged + rounded (s.clock - since))
  | none => s.charged

/-- `clearTimeout`. -/
def clearTimeout (id : ℕ) : DeadlineState :=
  { s with pending := s.pending.filter fun timer => timer.id ≠ id }

/-- `stop`, which is `pause` and `dispose`. -/
def stop : DeadlineState :=
  let cleared := match s.timer with
    | some id => s.clearTimeout id
    | none => s
  { cleared with timer := none, charged := s.charge, runningSince := none }

/-- `start`, which is `resume`. -/
def start (timeoutMs : ℚ) : DeadlineState :=
  if s.runningSince.isSome || s.aborted then s
  else
    { s with
      runningSince := some s.clock
      timer := some s.nextTimer
      pending := s.pending ++ [⟨s.nextTimer, s.clock + max 0 (rounded (timeoutMs - s.charged))⟩]
      nextTimer := s.nextTimer + 1 }

/-- The callback of a timer. -/
def expire : DeadlineState := { s.stop with aborted := true }

/-- `chargedMs`. -/
def chargedMs : ℤ := max 0 ⌈s.charge⌉

/-- The variables when the clock shows a time. -/
def showing (t : ℚ) : DeadlineState := { s with clock := t }

/-- `createAttemptDeadline` at a time. -/
def create (timeoutMs now : ℚ) : DeadlineState :=
  start ⟨0, none, none, false, [], 0, now⟩ timeoutMs

@[simp] theorem showing_clock (t : ℚ) : (s.showing t).clock = t := rfl
@[simp] theorem showing_charged (t : ℚ) : (s.showing t).charged = s.charged := rfl
@[simp] theorem showing_runningSince (t : ℚ) : (s.showing t).runningSince = s.runningSince := rfl
@[simp] theorem showing_pending (t : ℚ) : (s.showing t).pending = s.pending := rfl

end DeadlineState

/-! ## Calls -/

/-- What happens to a deadline. -/
inductive Act where
  | pause
  | resume
  | dispose
  /-- A timer of the runtime fires. -/
  | fire (id : ℕ)
  /-- Time passes. -/
  | tick
deriving DecidableEq, Repr

/-- What an action does at the time the clock shows. -/
def DeadlineState.act (timeoutMs : ℚ) (s : DeadlineState) : Act → Option DeadlineState
  | .pause | .dispose => some s.stop
  | .resume => some (s.start timeoutMs)
  | .fire id =>
    if s.pending.any fun timer => timer.id = id ∧ timer.due ≤ s.clock then
      some (s.clearTimeout id).expire
    else none
  | .tick => some s

/-- One action at a time, which is not before the one the clock has shown. -/
def DeadlineState.step (timeoutMs : ℚ) (s : DeadlineState) (a : Act × ℚ) : Option DeadlineState :=
  if s.clock ≤ a.2 then DeadlineState.act timeoutMs (s.showing a.2) a.1 else none

/-! ## The stopwatch -/

/-- Whether the attempt is charged. -/
inductive Phase where
  | unpaused
  | paused
  /-- The deadline is over. -/
  | fired
deriving DecidableEq, Repr

/-- The phase after an action. -/
def Phase.after (p : Phase) : Act → Phase
  | .pause | .dispose => if p = .fired then .fired else .paused
  | .resume => if p = .fired then .fired else .unpaused
  | .fire _ => .fired
  | .tick => p

/-- The time a deadline has been neither paused nor over, up to what the clock shows. -/
structure Stopwatch where
  phase : Phase
  total : ℚ
  clock : ℚ

/-- The stopwatch after an action at a time. -/
def Stopwatch.step (w : Stopwatch) (a : Act × ℚ) : Stopwatch where
  phase := w.phase.after a.1
  total := if w.phase = .unpaused then w.total + (a.2 - w.clock) else w.total
  clock := a.2

/-- The stopwatch after some actions, from the creation of the deadline on. -/
def stopwatch (now : ℚ) (as : List (Act × ℚ)) : Stopwatch :=
  as.foldl Stopwatch.step ⟨.unpaused, 0, now⟩

/-! ## The variables follow the stopwatch -/

/-- The charge has reached the timeout, up to the rounding of a difference and of a sum. -/
def Reached (timeoutMs charge : ℚ) : Prop := timeoutMs * (1 - 1 / 2 ^ 53) ^ 2 ≤ charge

/-- What the variables of a deadline are, by the stopwatch. -/
structure Sim (timeoutMs : ℚ) (w : Stopwatch) (s : DeadlineState) : Prop where
  clock : s.clock = w.clock
  nonneg : 0 ≤ s.charged
  double : rounded s.charged = s.charged
  aborted : s.aborted = true ↔ w.phase = .fired
  running : w.phase = .unpaused → ∃ since id, s.runningSince = some since ∧ since ≤ s.clock ∧
    s.timer = some id ∧
      s.pending = [⟨id, since + max 0 (rounded (timeoutMs - s.charged))⟩]
  idle : w.phase ≠ .unpaused → s.runningSince = none ∧ s.timer = none ∧ s.pending = []
  reached : w.phase = .fired → Grid timeoutMs → Reached timeoutMs s.charged

/-- How near the charge is to the stopwatch after so many actions. -/
structure Near (n : ℕ) (w : Stopwatch) (s : DeadlineState) : Prop where
  clock : Grid s.clock
  running : ∀ since, s.runningSince = some since →
    Grid since ∧ Within (n + 1) (w.total - (s.clock - since)) s.charged
  idle : s.runningSince = none → Within (n + 1) w.total s.charged

variable {timeoutMs : ℚ} {w : Stopwatch} {s s' : DeadlineState} {n : ℕ}

theorem Sim.charge (h : Sim timeoutMs w s) : 0 ≤ s.charge ∧ rounded s.charge = s.charge := by
  by_cases hp : w.phase = .unpaused
  · obtain ⟨since, id, hsince, hle, -, -⟩ := h.running hp
    have hsum : 0 ≤ s.charged + rounded (s.clock - since) :=
      add_nonneg h.nonneg (Double.rounded_nonneg (sub_nonneg.mpr hle))
    rw [DeadlineState.charge, hsince]
    exact ⟨Double.rounded_nonneg hsum, Double.rounded_rounded hsum⟩
  · rw [DeadlineState.charge, (h.idle hp).1]
    exact ⟨h.nonneg, h.double⟩

theorem Near.charge (h : Near n w s) (hs : Sim timeoutMs w s) :
    Within (n + 2) w.total s.charge := by
  unfold DeadlineState.charge
  cases hsince : s.runningSince with
  | none => exact (h.idle hsince).mono (Nat.le_succ _)
  | some since =>
    obtain ⟨hgrid, hnear⟩ := h.running since hsince
    have hle : since ≤ s.clock := by
      by_cases hp : w.phase = .unpaused
      · obtain ⟨since', -, hsince', hle, -, -⟩ := hs.running hp
        rw [hsince] at hsince'
        exact Option.some.inj hsince' ▸ hle
      · rw [(hs.idle hp).1] at hsince
        cases hsince
    have hnonneg := sub_nonneg.mpr hle
    have hlast := ((Within.refl hnonneg).rounded (h.clock.sub hgrid)).mono (Nat.le_add_left 1 n)
    have hsum := hnear.add hlast
    rw [sub_add_cancel] at hsum
    have hcharged : Grid s.charged := by
      rw [← hs.double]
      exact Double.grid_rounded hs.nonneg
    exact hsum.rounded (hcharged.add (Double.grid_rounded hnonneg))

/-! ## One action -/

theorem Sim.advance (h : Sim timeoutMs w s) {t : ℚ} (ht : s.clock ≤ t) :
    Sim timeoutMs (w.step (.tick, t)) (s.showing t) := by
  refine ⟨rfl, h.nonneg, h.double, h.aborted, fun hp => ?_, h.idle, h.reached⟩
  obtain ⟨since, id, hsince, hle, htimer, hpending⟩ := h.running hp
  exact ⟨since, id, hsince, hle.trans ht, htimer, hpending⟩

theorem Near.advance (h : Near n w s) (hs : Sim timeoutMs w s) {t : ℚ} (ht : Grid t) :
    Near n (w.step (.tick, t)) (s.showing t) := by
  have htotal : (w.step (.tick, t)).total =
      if w.phase = .unpaused then w.total + (t - w.clock) else w.total := rfl
  refine ⟨ht, ?_, ?_⟩
  · intro since hsince
    rw [DeadlineState.showing_runningSince] at hsince
    obtain ⟨hgrid, hnear⟩ := h.running since hsince
    have hp : w.phase = .unpaused := by
      by_contra hn
      rw [(hs.idle hn).1] at hsince
      cases hsince
    refine ⟨hgrid, ?_⟩
    rw [htotal, if_pos hp, ← hs.clock, DeadlineState.showing_clock]
    have hsame : w.total + (t - s.clock) - (t - since) = w.total - (s.clock - since) := by ring
    rw [hsame]
    exact hnear
  · intro hsince
    rw [DeadlineState.showing_runningSince] at hsince
    have hp : w.phase ≠ .unpaused := by
      intro hp
      obtain ⟨since, -, hsome, -⟩ := hs.running hp
      rw [hsince] at hsome
      cases hsome
    rw [htotal, if_neg hp]
    exact h.idle hsince

/-- An action when the clock shows its time already. -/
def Stopwatch.turn (w : Stopwatch) (a : Act) : Stopwatch := { w with phase := w.phase.after a }

theorem Stopwatch.turn_eq {w : Stopwatch} {a : Act} (h : w.phase.after a = w.phase) :
    w.turn a = w := by
  rw [Stopwatch.turn, h]

theorem Stopwatch.step_eq (w : Stopwatch) (a : Act) (t : ℚ) :
    w.step (a, t) = (w.step (.tick, t)).turn a := rfl

theorem stop_pending (h : Sim timeoutMs w s) : s.stop.pending = [] := by
  by_cases hp : w.phase = .unpaused
  · obtain ⟨since, id, -, -, htimer, hpending⟩ := h.running hp
    simp [DeadlineState.stop, htimer, DeadlineState.clearTimeout, hpending]
  · obtain ⟨-, htimer, hpending⟩ := h.idle hp
    simp [DeadlineState.stop, htimer, hpending]

theorem stop_clock (s : DeadlineState) : s.stop.clock = s.clock := by
  unfold DeadlineState.stop
  cases s.timer <;> rfl

theorem stop_aborted (s : DeadlineState) : s.stop.aborted = s.aborted := by
  unfold DeadlineState.stop
  cases s.timer <;> rfl

theorem Sim.stop (h : Sim timeoutMs w s) {a : Act} (ha : a = .pause ∨ a = .dispose) :
    Sim timeoutMs (w.turn a) s.stop := by
  have hphase : (w.turn a).phase = if w.phase = .fired then .fired else .paused := by
    rcases ha with rfl | rfl <;> rfl
  have hne : (w.turn a).phase ≠ .unpaused := by
    rw [hphase]
    split_ifs <;> exact Phase.noConfusion
  have hfired : (w.turn a).phase = .fired ↔ w.phase = .fired := by
    rw [hphase]
    split_ifs with hf <;> simp [hf]
  refine ⟨(stop_clock s).trans h.clock, h.charge.1, h.charge.2, ?_, fun hu => absurd hu hne,
    fun _ => ⟨rfl, rfl, stop_pending h⟩, fun hf hg => ?_⟩
  · rw [stop_aborted, hfired]
    exact h.aborted
  · have hidle := h.idle (by rw [hfired.mp hf]; exact Phase.noConfusion)
    have hsame : s.stop.charged = s.charged := by
      show s.charge = s.charged
      rw [DeadlineState.charge, hidle.1]
    rw [hsame]
    exact h.reached (hfired.mp hf) hg

theorem Near.stop (h : Near n w s) (hs : Sim timeoutMs w s) (a : Act) :
    Near (n + 1) (w.turn a) s.stop := by
  refine ⟨?_, (fun _ hsome => by cases hsome), fun _ => h.charge hs⟩
  rw [stop_clock]
  exact h.clock

theorem Sim.start (h : Sim timeoutMs w s) : Sim timeoutMs (w.turn .resume) (s.start timeoutMs) := by
  have hphase : (w.turn .resume).phase = if w.phase = .fired then .fired else .unpaused := rfl
  cases hp : w.phase with
  | unpaused =>
    obtain ⟨since, id, hsince, -⟩ := h.running hp
    have hsame : w.turn .resume = w := Stopwatch.turn_eq (by rw [hp]; rfl)
    rw [hsame, DeadlineState.start, hsince]
    exact h
  | paused =>
    obtain ⟨hsince, htimer, hpending⟩ := h.idle (by rw [hp]; exact Phase.noConfusion)
    have hab : s.aborted = false := by
      rw [Bool.eq_false_iff, ne_eq, h.aborted, hp]
      exact Phase.noConfusion
    have hunpaused : (w.turn .resume).phase = .unpaused := by
      rw [hphase, hp]
      rfl
    rw [DeadlineState.start, hsince, hab, if_neg (by decide)]
    refine ⟨h.clock, h.nonneg, h.double, ?_, fun _ => ⟨s.clock, s.nextTimer, rfl, le_rfl, rfl, ?_⟩,
      fun hn => absurd hunpaused hn, ?_⟩
    · rw [hunpaused]
      exact ⟨fun hc => Bool.noConfusion hc, fun hc => Phase.noConfusion hc⟩
    · change s.pending ++ _ = _
      rw [hpending]
      rfl
    · rw [hunpaused]
      exact Phase.noConfusion
  | fired =>
    have hab : s.aborted = true := h.aborted.mpr hp
    have hsame : w.turn .resume = w := Stopwatch.turn_eq (by rw [hp]; rfl)
    rw [hsame, DeadlineState.start, hab, Bool.or_true, if_pos rfl]
    exact h

theorem Near.start (h : Near n w s) : Near n (w.turn .resume) (s.start timeoutMs) := by
  unfold DeadlineState.start
  split_ifs with hc
  · exact ⟨h.clock, h.running, h.idle⟩
  · rw [Bool.or_eq_true, not_or, Option.not_isSome_iff_eq_none] at hc
    refine ⟨h.clock, fun since hsince => ?_, fun hnone => by cases hnone⟩
    cases hsince
    refine ⟨h.clock, ?_⟩
    change Within (n + 1) (w.total - (s.clock - s.clock)) s.charged
    rw [sub_self, sub_zero]
    exact h.idle hc.1

/-- What was left when the timer was set makes up the timeout, up to two roundings. -/
theorem left_near {charged : ℚ} (hcharged : 0 ≤ charged) (hdouble : rounded charged = charged)
    (ht : Grid timeoutMs) (hpos : 0 ≤ timeoutMs - charged) :
    Within 2 timeoutMs (rounded (charged + rounded (timeoutMs - charged))) := by
  have hgrid : Grid charged := by
    rw [← hdouble]
    exact Double.grid_rounded hcharged
  have hrest := (Within.refl hpos).rounded (ht.sub hgrid)
  have hsum := ((Within.refl hcharged).mono (Nat.zero_le 1)).add hrest
  rw [add_sub_cancel] at hsum
  exact hsum.rounded (hgrid.add (Double.grid_rounded hpos))

theorem reached_of_due {charged elapsed : ℚ} (hcharged : 0 ≤ charged) (hdouble : rounded charged = charged)
    (ht : Grid timeoutMs) (hdue : max 0 (rounded (timeoutMs - charged)) ≤ elapsed) :
    Reached timeoutMs (rounded (charged + rounded elapsed)) := by
  have helapsed : 0 ≤ elapsed := (le_max_left _ _).trans hdue
  by_cases hpos : 0 ≤ timeoutMs - charged
  · have hleft : rounded (timeoutMs - charged) ≤ rounded elapsed := by
      have hmono := Double.rounded_mono (Double.rounded_nonneg hpos) ((le_max_right _ _).trans hdue)
      rwa [Double.rounded_rounded hpos] at hmono
    exact (left_near hcharged hdouble ht hpos).lower.trans (Double.rounded_mono
      (add_nonneg hcharged (Double.rounded_nonneg hpos)) (add_le_add_right hleft charged))
  · -- the charge was past the timeout already
    have hlt : timeoutMs ≤ charged := (sub_neg.mp (not_le.mp hpos)).le
    have hsmall : timeoutMs * (1 - 1 / 2 ^ 53) ^ 2 ≤ charged := by
      by_cases hzero : 0 ≤ timeoutMs
      · exact (mul_le_of_le_one_right hzero (by norm_num)).trans hlt
      · exact (mul_nonpos_of_nonpos_of_nonneg (not_le.mp hzero).le (by norm_num)).trans hcharged
    have hmono := Double.rounded_mono hcharged
      (le_add_of_nonneg_right (a := charged) (Double.rounded_nonneg helapsed))
    rw [hdouble] at hmono
    exact hsmall.trans hmono

/-- Before the timer is due, the charge has not passed the timeout. -/
theorem le_of_not_due {charged elapsed : ℚ} (hcharged : 0 ≤ charged)
    (hdouble : rounded charged = charged) (ht : Grid timeoutMs) (helapsed : 0 ≤ elapsed)
    (hdue : elapsed < max 0 (rounded (timeoutMs - charged))) :
    rounded (charged + rounded elapsed) ≤ timeoutMs * (1 + 1 / 2 ^ 53) ^ 2 := by
  have hlt : elapsed < rounded (timeoutMs - charged) :=
    (lt_max_iff.mp hdue).resolve_left (not_lt.mpr helapsed)
  have hpos : 0 ≤ timeoutMs - charged := by
    by_contra hneg
    exact absurd (helapsed.trans_lt hlt)
      (not_lt.mpr (Double.rounded_nonpos (not_le.mp hneg).le))
  have hleft : rounded elapsed ≤ rounded (timeoutMs - charged) := by
    have hmono := Double.rounded_mono helapsed hlt.le
    rwa [Double.rounded_rounded hpos] at hmono
  exact (Double.rounded_mono (add_nonneg hcharged (Double.rounded_nonneg helapsed))
    (add_le_add_right hleft charged)).trans (left_near hcharged hdouble ht hpos).upper

/-- A firing, which the timer allows only when the charge has reached the timeout. -/
theorem Sim.fire (h : Sim timeoutMs w s) {id : ℕ}
    (hf : s.pending.any (fun timer => timer.id = id ∧ timer.due ≤ s.clock) = true) :
    w.phase = .unpaused ∧ Sim timeoutMs (w.turn (.fire id)) (s.clearTimeout id).expire := by
  have hp : w.phase = .unpaused := by
    by_contra hn
    obtain ⟨-, -, hpending⟩ := h.idle hn
    rw [hpending] at hf
    exact Bool.noConfusion hf
  obtain ⟨since, id', hsince, hle, htimer, hpending⟩ := h.running hp
  rw [hpending] at hf
  have hdue : id' = id ∧ since + max 0 (rounded (timeoutMs - s.charged)) ≤ s.clock := by
    simpa using hf
  refine ⟨hp, ?_, h.charge.1, h.charge.2, ?_, fun hu => Phase.noConfusion hu,
    fun _ => ⟨rfl, rfl, ?_⟩, fun _ hg => ?_⟩
  · change (s.clearTimeout id).stop.clock = w.clock
    rw [stop_clock]
    exact h.clock
  · exact ⟨fun _ => rfl, fun _ => rfl⟩
  · change (s.clearTimeout id).stop.pending = []
    simp [DeadlineState.stop, DeadlineState.clearTimeout, htimer, hpending, hdue.1]
  · change Reached timeoutMs s.charge
    rw [DeadlineState.charge, hsince]
    exact reached_of_due h.nonneg h.double hg (le_sub_iff_add_le'.mpr hdue.2)

theorem Near.fire (h : Near n w s) (hs : Sim timeoutMs w s) (id : ℕ) :
    Near (n + 1) (w.turn (.fire id)) (s.clearTimeout id).expire := by
  refine ⟨?_, (fun _ hsome => by cases hsome), fun _ => h.charge hs⟩
  change Grid (s.clearTimeout id).stop.clock
  rw [stop_clock]
  exact h.clock

theorem Near.succ (h : Near n w s) : Near (n + 1) w s :=
  ⟨h.clock, fun since hs => ⟨(h.running since hs).1, (h.running since hs).2.mono (Nat.le_succ _)⟩,
    fun hs => (h.idle hs).mono (Nat.le_succ _)⟩

/-- **One action.** -/
theorem Sim.step (h : Sim timeoutMs w s) {a : Act × ℚ} (hs : s.step timeoutMs a = some s') :
    Sim timeoutMs (w.step a) s' := by
  obtain ⟨a, t⟩ := a
  unfold DeadlineState.step at hs
  split_ifs at hs with ht
  have hnow := h.advance ht
  rw [Stopwatch.step_eq]
  cases a with
  | pause =>
    cases hs
    exact hnow.stop (Or.inl rfl)
  | dispose =>
    cases hs
    exact hnow.stop (Or.inr rfl)
  | resume =>
    cases hs
    exact hnow.start
  | fire id =>
    simp only [DeadlineState.act] at hs
    split_ifs at hs with hf
    cases hs
    exact (hnow.fire hf).2
  | tick =>
    cases hs
    exact hnow

/-- **One action adds at most one rounding.** -/
theorem Near.step (h : Near n w s) (hsim : Sim timeoutMs w s) {a : Act × ℚ} (ha : Grid a.2)
    (hs : s.step timeoutMs a = some s') : Near (n + 1) (w.step a) s' := by
  obtain ⟨a, t⟩ := a
  unfold DeadlineState.step at hs
  split_ifs at hs with ht
  have hnow := hsim.advance ht
  have hnear := h.advance hsim ha
  rw [Stopwatch.step_eq]
  cases a with
  | pause | dispose =>
    cases hs
    exact hnear.stop hnow _
  | resume =>
    cases hs
    exact hnear.start.succ
  | fire id =>
    simp only [DeadlineState.act] at hs
    split_ifs at hs with hf
    cases hs
    exact hnear.fire hnow id
  | tick =>
    cases hs
    exact hnear.succ

theorem create_sim (timeoutMs now : ℚ) :
    Sim timeoutMs ⟨.unpaused, 0, now⟩ (.create timeoutMs now) := by
  refine ⟨rfl, le_rfl, Double.rounded_zero, ?_, fun _ => ⟨now, 0, rfl, le_rfl, rfl, rfl⟩,
    fun hn => absurd rfl hn, fun hf => Phase.noConfusion hf⟩
  exact ⟨fun h => Bool.noConfusion h, fun h => Phase.noConfusion h⟩

theorem create_near {now : ℚ} (h : Grid now) (timeoutMs : ℚ) :
    Near 0 ⟨.unpaused, 0, now⟩ (.create timeoutMs now) := by
  refine ⟨h, fun since hsince => ?_, fun hnone => by cases hnone⟩
  cases hsince
  refine ⟨h, ?_⟩
  change Within 1 (0 - (now - now)) 0
  rw [sub_self, sub_zero]
  exact .zero 1

theorem Sim.exec (h : Sim timeoutMs w s) {as : List (Act × ℚ)}
    (hs : Runs.exec (DeadlineState.step timeoutMs) s as = some s') :
    Sim timeoutMs (as.foldl Stopwatch.step w) s' := by
  induction as generalizing w s with
  | nil =>
    cases hs
    exact h
  | cons a as ih =>
    obtain ⟨u, hu, hr⟩ := exec_cons_eq_some.mp hs
    exact ih (h.step hu) hr

theorem Near.exec (h : Near n w s) (hsim : Sim timeoutMs w s) {as : List (Act × ℚ)}
    (has : ∀ a ∈ as, Grid a.2) (hs : Runs.exec (DeadlineState.step timeoutMs) s as = some s') :
    Near (n + as.length) (as.foldl Stopwatch.step w) s' := by
  induction as generalizing n w s with
  | nil =>
    cases hs
    exact h
  | cons a as ih =>
    obtain ⟨u, hu, hr⟩ := exec_cons_eq_some.mp hs
    have hrest := ih (h.step hsim (has a List.mem_cons_self) hu) (hsim.step hu)
      (fun b hb => has b (List.mem_cons_of_mem _ hb)) hr
    rwa [List.length_cons, Nat.add_comm as.length, ← Nat.add_assoc]

/-! ## What follows from the stopwatch -/

theorem Sim.chargedMs (h : Sim timeoutMs w s) : s.chargedMs = ⌈s.charge⌉ := by
  rw [DeadlineState.chargedMs, max_eq_right (Int.ceil_nonneg h.charge.1)]

theorem step_clock {a : Act × ℚ} (hs : s.step timeoutMs a = some s') : s.clock ≤ a.2 := by
  unfold DeadlineState.step at hs
  split_ifs at hs with ht
  exact ht

/-- A charge that has reached a whole timeout is one of so many milliseconds. -/
theorem Reached.ceil {timeoutMs : ℕ} {charge : ℚ} (h : Reached timeoutMs charge)
    (hn : timeoutMs ≤ 2 ^ 51) : (timeoutMs : ℤ) ≤ ⌈charge⌉ := by
  have hbound : (timeoutMs : ℚ) ≤ 2 ^ 51 := by exact_mod_cast hn
  have hlower : (timeoutMs : ℚ) - 1 < charge := by
    refine lt_of_lt_of_le ?_ h
    have hsquare : (timeoutMs : ℚ) * (1 - 1 / 2 ^ 52) ≤ timeoutMs * (1 - 1 / 2 ^ 53) ^ 2 :=
      mul_le_mul_of_nonneg_left (by norm_num) (Nat.cast_nonneg _)
    linarith
  have hceil : ((timeoutMs : ℤ) - 1 : ℤ) < ⌈charge⌉ := by
    rw [Int.lt_ceil]
    push_cast
    exact hlower
  omega

theorem Sim.charge_advance (h : Sim timeoutMs w s) {t : ℚ} (ht : s.clock ≤ t) :
    s.charge ≤ (s.showing t).charge := by
  unfold DeadlineState.charge
  by_cases hp : w.phase = .unpaused
  · obtain ⟨since, id, hsince, hle, -, -⟩ := h.running hp
    rw [DeadlineState.showing_runningSince, hsince]
    have hnonneg := sub_nonneg.mpr hle
    exact Double.rounded_mono (add_nonneg h.nonneg (Double.rounded_nonneg hnonneg))
      (add_le_add_right (Double.rounded_mono hnonneg (sub_le_sub_right ht since)) s.charged)
  · rw [DeadlineState.showing_runningSince, (h.idle hp).1]
    exact le_rfl

theorem Sim.charge_start (h : Sim timeoutMs w s) : (s.start timeoutMs).charge = s.charge := by
  unfold DeadlineState.start
  split_ifs with hc
  · rfl
  · rw [Bool.or_eq_true, not_or, Option.not_isSome_iff_eq_none] at hc
    unfold DeadlineState.charge
    rw [hc.1]
    dsimp only
    rw [sub_self, Double.rounded_zero, add_zero]
    exact h.double

theorem Sim.charge_le_step (h : Sim timeoutMs w s) {a : Act × ℚ}
    (hs : s.step timeoutMs a = some s') : s.charge ≤ s'.charge := by
  obtain ⟨a, t⟩ := a
  have ht := step_clock hs
  have hnow := h.charge_advance ht
  have hsim := h.advance ht
  unfold DeadlineState.step at hs
  rw [if_pos ht] at hs
  refine hnow.trans_eq ?_
  cases a with
  | pause | dispose | tick =>
    cases hs
    rfl
  | resume =>
    cases hs
    exact hsim.charge_start.symm
  | fire id =>
    simp only [DeadlineState.act] at hs
    split_ifs at hs with hf
    cases hs
    rfl

theorem Sim.charge_le_exec (h : Sim timeoutMs w s) {bs : List (Act × ℚ)}
    (hs : Runs.exec (DeadlineState.step timeoutMs) s bs = some s') : s.charge ≤ s'.charge := by
  induction bs generalizing w s with
  | nil =>
    cases hs
    exact le_rfl
  | cons b bs ih =>
    obtain ⟨u, hu, hr⟩ := exec_cons_eq_some.mp hs
    exact (h.charge_le_step hu).trans (ih (h.step hu) hr)

/-- Without a resumption a paused deadline stays paused: no timer is there to fire. -/
theorem Sim.still (h : Sim timeoutMs w s) (hp : w.phase ≠ .unpaused) {bs : List (Act × ℚ)}
    (hn : ∀ b ∈ bs, b.1 = .resume → w.phase = .fired)
    (hs : Runs.exec (DeadlineState.step timeoutMs) s bs = some s') :
    s'.charge = s.charge ∧ (bs.foldl Stopwatch.step w).phase = w.phase := by
  induction bs generalizing w s with
  | nil =>
    cases hs
    exact ⟨rfl, rfl⟩
  | cons b bs ih =>
    obtain ⟨u, hu, hr⟩ := exec_cons_eq_some.mp hs
    obtain ⟨b, t⟩ := b
    have hnofire : ∀ id, b ≠ .fire id := by
      rintro id rfl
      unfold DeadlineState.step at hu
      split_ifs at hu with ht
      simp only [DeadlineState.act] at hu
      split_ifs at hu with hf
      exact hp ((h.advance ht).fire hf).1
    have hphase : (w.step (b, t)).phase = w.phase := by
      change w.phase.after b = w.phase
      cases b with
      | pause => cases hw : w.phase <;> simp_all [Phase.after]
      | dispose => cases hw : w.phase <;> simp_all [Phase.after]
      | resume => rw [hn _ List.mem_cons_self rfl]; rfl
      | tick => rfl
      | fire id => exact absurd rfl (hnofire id)
    have hcharge : u.charge = s.charge := by
      have hnext := h.step hu
      have hidle := (hnext.idle (by rw [hphase]; exact hp)).1
      have hbefore := (h.idle hp).1
      unfold DeadlineState.step at hu
      split_ifs at hu with ht
      have hnow : (s.showing t).charge = s.charge := by
        unfold DeadlineState.charge
        rw [DeadlineState.showing_runningSince, hbefore]
        rfl
      cases b with
      | pause | dispose | tick =>
        cases hu
        exact hnow
      | resume =>
        cases hu
        exact (h.advance ht).charge_start.trans hnow
      | fire id => exact absurd rfl (hnofire id)
    obtain ⟨h1, h2⟩ := ih (h.step hu) (by rw [hphase]; exact hp)
      (fun c hc hres => by rw [hphase]; exact hn c (List.mem_cons_of_mem _ hc) hres) hr
    exact ⟨h1.trans hcharge, h2.trans hphase⟩

/-! ## The law -/

/-- What holds of a deadline after some actions. -/
structure Law (timeoutMs now : ℚ) (as : List (Act × ℚ)) (s : DeadlineState) : Prop where
  /-- The charge is the time that was not paused, but for the rounding of doubles, and rounded up. -/
  charge : s.chargedMs = ⌈s.charge⌉ ∧ Within (as.length + 2) (stopwatch now as).total s.charge
  monotone : ∀ bs s', Runs.exec (DeadlineState.step timeoutMs) s bs = some s' →
    s.chargedMs ≤ s'.chargedMs
  /-- A pause or `dispose` lasts until a resumption. -/
  paused : (stopwatch now as).phase ≠ .unpaused → ∀ bs s', (∀ b ∈ bs, b.1 ≠ .resume) →
    Runs.exec (DeadlineState.step timeoutMs) s bs = some s' →
      s'.chargedMs = s.chargedMs ∧ s'.aborted = s.aborted
  /-- The signal is aborted only when the charge has reached the timeout, and not in a pause. -/
  abort : ∀ a s', s.step timeoutMs a = some s' → s.aborted = false → s'.aborted = true →
    (stopwatch now as).phase = .unpaused ∧ Reached timeoutMs s'.charge ∧
      ∀ n : ℕ, timeoutMs = n → n ≤ 2 ^ 51 → n ≤ s'.chargedMs
  /-- The one timer is due when the charge reaches the timeout. -/
  timer : (stopwatch now as).phase = .unpaused → ∃ timer, s.pending = [timer] ∧
    ∀ t, s.clock ≤ t →
      (timer.due ≤ t → Reached timeoutMs (s.showing t).charge) ∧
        (t < timer.due → (s.showing t).charge ≤ timeoutMs * (1 + 1 / 2 ^ 53) ^ 2)
  silent : (stopwatch now as).phase ≠ .unpaused → s.pending = []
  fired : s.aborted = true ↔ (stopwatch now as).phase = .fired
  /-- An aborted deadline stays aborted and charges no more. -/
  expired : s.aborted = true → Reached timeoutMs s.charge ∧
    ∀ bs s', Runs.exec (DeadlineState.step timeoutMs) s bs = some s' →
      s'.aborted = true ∧ s'.chargedMs = s.chargedMs

/-- The timer of a deadline that runs is due when the charge reaches the timeout. -/
theorem Sim.due (h : Sim timeoutMs w s) (hg : Grid timeoutMs) (hp : w.phase = .unpaused) :
    ∃ timer, s.pending = [timer] ∧ ∀ t, s.clock ≤ t →
      (timer.due ≤ t → Reached timeoutMs (s.showing t).charge) ∧
        (t < timer.due → (s.showing t).charge ≤ timeoutMs * (1 + 1 / 2 ^ 53) ^ 2) := by
  obtain ⟨since, id, hsince, hle, -, hpending⟩ := h.running hp
  refine ⟨_, hpending, fun t ht => ?_⟩
  have hcharge : (s.showing t).charge = rounded (s.charged + rounded (t - since)) := by
    unfold DeadlineState.charge
    rw [DeadlineState.showing_runningSince, hsince]
    rfl
  rw [hcharge]
  constructor
  · intro hdue
    exact reached_of_due h.nonneg h.double hg (le_sub_iff_add_le'.mpr hdue)
  · intro hdue
    exact le_of_not_due h.nonneg h.double hg (sub_nonneg.mpr (hle.trans ht))
      (sub_lt_iff_lt_add'.mpr hdue)

theorem Sim.unpaused_of_abort (h : Sim timeoutMs w s) {a : Act × ℚ}
    (hs : s.step timeoutMs a = some s') (hbefore : s.aborted = false) (hafter : s'.aborted = true) :
    w.phase = .unpaused := by
  have hfired := (h.step hs).aborted.mp hafter
  by_contra hp
  have hresume : ∀ b ∈ [a], b.1 = .resume → w.phase = .fired := by
    intro b hb hres
    rw [List.mem_singleton.mp hb] at hres
    have hphase : (w.step a).phase = w.phase.after a.1 := rfl
    rw [hfired, hres] at hphase
    cases hw : w.phase with
    | unpaused => exact absurd hw hp
    | paused =>
      rw [hw] at hphase
      exact Phase.noConfusion hphase
    | fired => rfl
  have hstill := h.still hp hresume (exec_cons_eq_some.mpr ⟨s', hs, rfl⟩)
  have hsame : (w.step a).phase = w.phase := hstill.2
  rw [hfired] at hsame
  rw [h.aborted.mpr hsame.symm] at hbefore
  exact Bool.noConfusion hbefore

/-- **After any pauses, resumptions, firings and `dispose`, the charge is the time that was not
paused, the signal is aborted only when it has reached the timeout, and while the deadline runs its
one timer is due just then**, each up to the rounding of doubles. -/
theorem deadline_law {now : ℚ} {as : List (Act × ℚ)} {s : DeadlineState} (hg : Grid timeoutMs)
    (hnow : Grid now) (has : ∀ a ∈ as, Grid a.2)
    (h : Runs.exec (DeadlineState.step timeoutMs) (.create timeoutMs now) as = some s) :
    Law timeoutMs now as s := by
  have hsim : Sim timeoutMs (stopwatch now as) s := (create_sim timeoutMs now).exec h
  have hnear : Near (0 + as.length) (stopwatch now as) s :=
    (create_near hnow timeoutMs).exec (create_sim timeoutMs now) has h
  rw [Nat.zero_add] at hnear
  refine ⟨⟨hsim.chargedMs, hnear.charge hsim⟩, ?_, ?_, ?_, hsim.due hg,
    fun hp => (hsim.idle hp).2.2, hsim.aborted, ?_⟩
  · intro bs s' hs
    rw [hsim.chargedMs, (hsim.exec hs).chargedMs]
    exact Int.ceil_le_ceil (hsim.charge_le_exec hs)
  · intro hp bs s' hn hs
    have hstill := hsim.still hp (fun b hb hres => absurd hres (hn b hb)) hs
    have hend := hsim.exec hs
    rw [hend.chargedMs, hsim.chargedMs, hstill.1]
    refine ⟨rfl, ?_⟩
    rw [Bool.eq_iff_iff, hend.aborted, hsim.aborted, hstill.2]
  · intro a s' hs hbefore hafter
    have hend := hsim.step hs
    have hidle := hend.idle (by rw [hend.aborted.mp hafter]; exact Phase.noConfusion)
    have hreached : Reached timeoutMs s'.charge := by
      rw [DeadlineState.charge, hidle.1]
      exact hend.reached (hend.aborted.mp hafter) hg
    refine ⟨hsim.unpaused_of_abort hs hbefore hafter, hreached, ?_⟩
    rintro n rfl hn
    rw [hend.chargedMs]
    exact hreached.ceil hn
  · intro hab
    have hfired := hsim.aborted.mp hab
    have hne : (stopwatch now as).phase ≠ .unpaused := by
      rw [hfired]
      exact Phase.noConfusion
    refine ⟨?_, fun bs s' hs => ?_⟩
    · rw [DeadlineState.charge, (hsim.idle hne).1]
      exact hsim.reached hfired hg
    · have hstill := hsim.still hne (fun _ _ _ => hfired) hs
      have hend := hsim.exec hs
      rw [hend.chargedMs, hsim.chargedMs, hstill.1, hend.aborted, hstill.2]
      exact ⟨hfired, rfl⟩

/-- A deadline of 10 ms that is paused twice for its sandbox, resumed, fires, and is disposed of. -/
def boot : List (Act × ℚ) :=
  [(.pause, 1 / 2), (.pause, 2), (.resume, 5), (.fire 1, 15), (.resume, 16), (.dispose, 17)]

theorem deadline_law_boot :
    ∃ s, Runs.exec (DeadlineState.step 10) (.create 10 0) boot = some s ∧ s.chargedMs = 11 ∧
      Law 10 0 boot s := by
  have h : (Runs.exec (DeadlineState.step 10) (.create 10 0) boot).any
      (fun s => decide (s.chargedMs = 11)) = true := by decide +kernel
  obtain ⟨s, hs, hc⟩ := (Option.any_eq_true _ _).mp h
  have hhalf : Grid (1 / 2) := by
    have hgrid := Double.grid_zpow 1 (e := -1) (by norm_num)
    rwa [Nat.cast_one, one_mul, zpow_neg_one, ← one_div] at hgrid
  have hgrid : ∀ a ∈ boot, Grid a.2 := by
    simp only [boot, List.forall_mem_cons]
    exact ⟨hhalf, Double.grid_natCast 2, Double.grid_natCast 5, Double.grid_natCast 15,
      Double.grid_natCast 16, Double.grid_natCast 17, List.forall_mem_nil _⟩
  exact ⟨s, hs, of_decide_eq_true hc,
    deadline_law (Double.grid_natCast 10) (by exact_mod_cast Double.grid_natCast 0) hgrid hs⟩

/-- Three stretches of time between readings of the clock, which sum up to 11 ms. -/
def stretches : List (Act × ℚ) :=
  [(.pause, rounded (34 / 10)), (.resume, rounded (37 / 10)), (.pause, rounded (123 / 10)),
    (.resume, rounded (135 / 10)), (.pause, rounded (146 / 10))]

/-- **The charge is not the time that was not paused, rounded up**: the sum of doubles is greater. -/
theorem stretches_rounded :
    ¬ ∀ (timeoutMs now : ℚ) (as : List (Act × ℚ)) (s : DeadlineState),
      Grid timeoutMs → Grid now → (∀ a ∈ as, Grid a.2) →
        Runs.exec (DeadlineState.step timeoutMs) (.create timeoutMs now) as = some s →
          s.chargedMs = ⌈(stopwatch now as).total⌉ := by
  intro hall
  have h : (Runs.exec (DeadlineState.step 1000) (.create 1000 (rounded (21 / 10))) stretches).any
      (fun s => decide (s.chargedMs = 12)) = true := by decide +kernel
  obtain ⟨s, hs, hc⟩ := (Option.any_eq_true _ _).mp h
  have htotal : ⌈(stopwatch (rounded (21 / 10)) stretches).total⌉ = 11 := by decide +kernel
  have hgrid : ∀ a ∈ stretches, Grid a.2 := by
    simp only [stretches, List.forall_mem_cons]
    exact ⟨Double.grid_rounded (by norm_num), Double.grid_rounded (by norm_num),
      Double.grid_rounded (by norm_num), Double.grid_rounded (by norm_num),
      Double.grid_rounded (by norm_num), List.forall_mem_nil _⟩
  have heq := hall 1000 _ stretches s (Double.grid_natCast 1000)
    (Double.grid_rounded (by norm_num)) hgrid hs
  rw [of_decide_eq_true hc, htotal] at heq
  exact absurd heq (by decide)

end PiSubagent.AttemptDeadline
