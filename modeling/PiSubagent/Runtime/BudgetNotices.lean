import PiSubagent.Service.BudgetTotals

/-!
# Budget notices

What `runNativeAttempt` tells a session of its budgets: turns end, timers fire, the attempt is
aborted and the steering is stopped in any order, while the notices and the checkpoints of the use
go one by one through `budgetTail`.

* `Notice.Due`: the use has reached its stage of the limit.
* `Notices.step`: the steering, step by step.
* **`notices_once`**: of each stage there is at most one notice, in rising order, due, and recorded
  before it is given.
* **`notices_complete`**: a stage that the use has reached at the end of a turn is told, unless an
  append fails; nothing is told after the abort, and nothing happens after the stop.
-/

namespace PiSubagent

open JsonText

namespace RunLife

open Runs

/-! ## Notices -/

/-- `BudgetSteeringTrigger`. -/
inductive NoticeTrigger where
  | ofRun (trigger : BudgetSteeringTrigger)
  | attemptTimeout
deriving DecidableEq, Repr

/-- The arguments of `queueBudgetSteering`. -/
structure Notice where
  stage : ℚ
  trigger : NoticeTrigger
  used : ℚ
  limit : ℚ
deriving DecidableEq, Repr

/-- The notice of a use of a budget. -/
def Pressure.notice (p : Pressure) (stage : ℚ) : Notice :=
  ⟨stage, .ofRun p.trigger, p.used, p.limit⟩

/-- The share of a limit that is used up. Doubles round the quotient of tokens and costs; the timers
round the product, and down to a whole millisecond. -/
def Notice.Reached (n : Notice) : Prop :=
  match n.trigger with
  | .ofRun .tokens | .ofRun .cost => n.limit * n.stage ≤ n.used * (1 + 1 / 2 ^ 53)
  | .ofRun .cumulativeRuntime | .attemptTimeout =>
    n.limit * n.stage * (1 - 1 / 2 ^ 53) < n.used + 1

/-- The notice has one of the stages, and the use has reached that of the limit. -/
structure Notice.Due (n : Notice) : Prop where
  stage : n.stage ∈ budgetSteeringStages
  used : n.Reached

/-- The higher one of a stage and that of an earlier notice of the attempt. -/
def higherStage (attemptId : JsString) (highest : ℚ) (e : JsString × ℚ) : ℚ :=
  if e.1 = attemptId ∧ e.2 ∈ budgetSteeringStages ∧ highest < e.2 then e.2 else highest

/-- `highestBudgetStage` at the start, of the notices in the journal, each with its attempt. -/
def highestBudgetStage (attemptId : JsString) (prior : List (JsString × ℚ)) : ℚ :=
  prior.foldl (higherStage attemptId) 0

theorem le_higherStage (attemptId : JsString) (highest : ℚ) (e : JsString × ℚ) :
    highest ≤ higherStage attemptId highest e := by
  unfold higherStage
  split_ifs with h
  · exact h.2.2.le
  · exact le_refl _

theorem le_foldl_higherStage (attemptId : JsString) (prior : List (JsString × ℚ)) (highest : ℚ) :
    highest ≤ prior.foldl (higherStage attemptId) highest := by
  induction prior generalizing highest with
  | nil => exact le_refl _
  | cons e prior ih => exact (le_higherStage attemptId highest e).trans (ih _)

theorem le_highestBudgetStage {attemptId : JsString} {prior : List (JsString × ℚ)}
    {e : JsString × ℚ} (he : e ∈ prior) (hid : e.1 = attemptId)
    (hstage : e.2 ∈ budgetSteeringStages) : e.2 ≤ highestBudgetStage attemptId prior := by
  unfold highestBudgetStage
  generalize (0 : ℚ) = highest
  induction prior generalizing highest with
  | nil => cases he
  | cons x prior ih =>
    rcases List.mem_cons.mp he with rfl | he
    · refine le_trans ?_ (le_foldl_higherStage attemptId prior _)
      unfold higherStage
      split_ifs with h
      · exact le_refl _
      · exact not_lt.mp fun hlt => h ⟨hid, hstage, hlt⟩
    · exact ih he _

/-! ## State -/

/-- A timer of `scheduleRuntimeStage`, and the use that its notice will tell. -/
structure StageTimer where
  stage : ℚ
  /-- The time of the attempt, else that of the run. -/
  ofAttempt : Bool
  limit : ℕ
  /-- What was used when it was set. -/
  before : ℕ
deriving DecidableEq, Repr

/-- The milliseconds until a timer is due. -/
def StageTimer.delay (timer : StageTimer) : ℕ :=
  ⌊Double.rounded (timer.limit * timer.stage)⌋₊ - timer.before

/-- The notice of a timer, so many milliseconds after it was set. -/
def StageTimer.notice (timer : StageTimer) (now : ℕ) : Notice :=
  ⟨timer.stage, if timer.ofAttempt then .attemptTimeout else .ofRun .cumulativeRuntime,
    ((timer.before + now : ℕ) : ℚ), timer.limit⟩

/-- What stands in `budgetTail`. -/
inductive BudgetTask where
  | checkpoint (current : Spent)
  | append (n : Notice)
  | steer (n : Notice)
deriving DecidableEq

/-- The notice that a task is about to append. -/
def BudgetTask.append? : BudgetTask → Option Notice
  | .append n => some n
  | _ => none

/-- The notice that a task is about to give. -/
def BudgetTask.steer? : BudgetTask → Option Notice
  | .steer n => some n
  | _ => none

/-- The steering of an attempt; `queued` are the notices that were ever put into `budgetTail`. -/
structure Notices where
  budget : Steering
  /-- The milliseconds since the timers were set. -/
  now : ℕ
  timers : List StageTimer
  aborted : Bool
  stopped : Bool
  highest : ℚ
  tail : List BudgetTask
  checkpoints : List Spent
  queued : List Notice
  journaled : List Notice
  steered : List Notice
  /-- The appends that failed. -/
  failed : ℕ

/-- What happens during an attempt. -/
inductive NoticeAct where
  | wait (ms : ℕ)
  | turnEnd (current : Spent)
  | fire (timer : StageTimer)
  | abort
  /-- The next step of `budgetTail`; whether its append succeeds. -/
  | task (ok : Bool)
  /-- `stopBudgetSteering`, up to its wait for `budgetTail`. -/
  | stop

/-- The timers of an attempt; `elapsedMs` and `chargedMs` are what it has used so far. -/
def stageTimers (b : Steering) (attemptTimeoutMs elapsedMs chargedMs : ℕ) : List StageTimer :=
  budgetSteeringStages.flatMap fun stage =>
    [⟨stage, false, b.cumulativeRuntimeLimit, b.prior.runtimeMs + elapsedMs⟩,
      ⟨stage, true, attemptTimeoutMs, chargedMs⟩]

namespace Notices

/-- The steering at its start. -/
def start (b : Steering) (attemptTimeoutMs elapsedMs chargedMs : ℕ) (highest : ℚ) : Notices where
  budget := b
  now := 0
  timers := stageTimers b attemptTimeoutMs elapsedMs chargedMs
  aborted := false
  stopped := false
  highest := highest
  tail := []
  checkpoints := []
  queued := []
  journaled := []
  steered := []
  failed := 0

/-- `queueBudgetSteering`. -/
def queueBudgetSteering (s : Notices) (n : Notice) : Notices :=
  if n.stage ≤ s.highest ∨ s.aborted = true then s
  else { s with highest := n.stage, tail := s.tail ++ [.append n], queued := s.queued ++ [n] }

/-- The notices of the use at the end of a turn. -/
def turnNotices (b : Steering) (current : Spent) : List Notice :=
  (b.stages current).map fun x => x.2.notice x.1

/-- The end of a turn. -/
def turnEnd (s : Notices) (current : Spent) : Notices :=
  (turnNotices s.budget current).foldl queueBudgetSteering
    { s with tail := s.tail ++ [.checkpoint current] }

/-- The next step of `budgetTail`; what the session makes of a notice does not matter. -/
def runTask (s : Notices) (ok : Bool) : Option Notices :=
  match s.tail with
  | [] => none
  | .checkpoint current :: rest =>
    some (if ok then { s with tail := rest, checkpoints := s.checkpoints ++ [current] }
      else { s with tail := rest, failed := s.failed + 1 })
  | .append n :: rest =>
    some (if ok then { s with tail := .steer n :: rest, journaled := s.journaled ++ [n] }
      else { s with tail := rest, failed := s.failed + 1 })
  | .steer n :: rest => some { s with tail := rest, steered := s.steered ++ [n] }

/-- One step; `none` when it cannot be taken. -/
def step (s : Notices) : NoticeAct → Option Notices
  | .wait ms => some { s with now := s.now + ms }
  | .turnEnd current => if s.stopped then none else some (s.turnEnd current)
  | .fire timer =>
    if timer ∈ s.timers ∧ timer.delay ≤ s.now then
      some ({ s with timers := s.timers.erase timer }.queueBudgetSteering (timer.notice s.now))
    else none
  | .abort => some { s with aborted := true }
  | .task ok => s.runTask ok
  | .stop => some { s with timers := [], stopped := true }

/-! ## Due notices -/

theorem mem_stagesForPressure {p : Pressure} {stage : ℚ}
    (h : stage ∈ budgetStagesForPressure p) :
    stage ∈ budgetSteeringStages ∧
      (p.limit = 0 ∧ 0 < p.used ∨ p.limit ≠ 0 ∧ stage ≤ Double.rounded (p.used / p.limit)) := by
  unfold budgetStagesForPressure at h
  split_ifs at h with hzero hused
  · exact ⟨h, Or.inl ⟨hzero, hused⟩⟩
  · cases h
  · obtain ⟨hmem, hle⟩ := List.mem_filter.mp h
    exact ⟨hmem, Or.inr ⟨hzero, of_decide_eq_true hle⟩⟩

theorem half_lt_stage {stage : ℚ} (h : stage ∈ budgetSteeringStages) : 1 / 2 < stage := by
  have hall : ∀ stage ∈ budgetSteeringStages, 1 / 2 < stage := by decide +kernel
  exact hall stage h

/-- A quotient that is rounded to a stage or more is not much below it. -/
theorem le_of_le_rounded {q stage : ℚ} (hstage : 1 / 2 < stage) (h : stage ≤ Double.rounded q) :
    stage ≤ q * (1 + 1 / 2 ^ 53) := by
  have hq : 0 < q := by
    by_contra hn
    have hle := Double.rounded_nonpos (not_lt.mp hn)
    linarith
  have herror := (abs_le.mp (Double.rounded_error hq)).2
  rcases max_choice (q / 2 ^ 53) ((2 : ℚ) ^ (-1075 : ℤ)) with hmax | hmax
  · rw [hmax] at herror
    linarith
  · -- the number is far above the subnormal ones
    have hsmall : (2 : ℚ) ^ (-1075 : ℤ) ≤ 2 ^ (-55 : ℤ) :=
      zpow_le_zpow_right₀ (by norm_num) (by norm_num)
    have hval : (2 : ℚ) ^ (-55 : ℤ) = 1 / 2 ^ 55 := by norm_num
    rw [hmax] at herror
    rw [hval] at hsmall
    have hlarge : 1 / 4 < q := by
      have hquarter : (1 : ℚ) / 2 ^ 55 ≤ 1 / 4 := by norm_num
      linarith
    have hpart : (1 : ℚ) / 2 ^ 55 ≤ q / 2 ^ 53 := by
      rw [div_le_div_iff₀ (by positivity) (by positivity)]
      norm_num
      linarith
    linarith

theorem Pressure.due {p : Pressure} {stage : ℚ} (hlimit : 0 ≤ p.limit)
    (htrigger : p.trigger ≠ .cumulativeRuntime) (h : stage ∈ budgetStagesForPressure p) :
    (p.notice stage).Due := by
  obtain ⟨hstage, hreached⟩ := mem_stagesForPressure h
  have hused : p.limit * stage ≤ p.used * (1 + 1 / 2 ^ 53) := by
    rcases hreached with ⟨hzero, hused⟩ | ⟨hzero, hle⟩
    · rw [hzero, zero_mul]
      positivity
    · have hlt : 0 < p.limit := lt_of_le_of_ne hlimit (Ne.symm hzero)
      have hquotient := le_of_le_rounded (half_lt_stage hstage) hle
      calc p.limit * stage ≤ p.limit * (p.used / p.limit * (1 + 1 / 2 ^ 53)) :=
            mul_le_mul_of_nonneg_left hquotient hlimit
        _ = p.used * (1 + 1 / 2 ^ 53) := by
            rw [← mul_assoc, mul_div_cancel₀ _ hzero]
  refine ⟨hstage, ?_⟩
  unfold Notice.Reached Pressure.notice
  cases hp : p.trigger with
  | tokens | cost => exact hused
  | cumulativeRuntime => exact absurd hp htrigger

theorem turnNotices_due {b : Steering} (hcost : 0 ≤ b.costLimit) {current : Spent} {n : Notice}
    (h : n ∈ turnNotices b current) : n.Due := by
  obtain ⟨x, hx, rfl⟩ := List.mem_map.mp h
  obtain ⟨p, hp, hx⟩ := List.mem_flatMap.mp hx
  obtain ⟨stage, hstage, rfl⟩ := List.mem_map.mp hx
  have hfacts : 0 ≤ p.limit ∧ p.trigger ≠ .cumulativeRuntime := by
    rcases List.mem_append.mp hp with hp | hp
    · obtain ⟨limit, -, rfl⟩ := List.mem_map.mp hp
      exact ⟨Nat.cast_nonneg limit, by simp⟩
    · rw [List.mem_singleton.mp hp]
      exact ⟨hcost, by simp⟩
  exact Pressure.due hfacts.1 hfacts.2 hstage

theorem StageTimer.due {timer : StageTimer} {now : ℕ}
    (hstage : timer.stage ∈ budgetSteeringStages) (h : timer.delay ≤ now) :
    (timer.notice now).Due := by
  have hpos := half_lt_stage hstage
  have hused : (timer.limit : ℚ) * timer.stage * (1 - 1 / 2 ^ 53) <
      ((timer.before + now : ℕ) : ℚ) + 1 := by
    unfold StageTimer.delay at h
    have hfloor := Nat.sub_le_iff_le_add'.mp h
    by_cases hzero : timer.limit = 0
    · rw [hzero, Nat.cast_zero, zero_mul, zero_mul]
      positivity
    · have hone : (1 : ℚ) ≤ timer.limit := by exact_mod_cast Nat.one_le_iff_ne_zero.mpr hzero
      have hproduct : 1 / 2 < (timer.limit : ℚ) * timer.stage := by nlinarith
      have hnormal : (2 : ℚ) ^ (-1022 : ℤ) ≤ timer.limit * timer.stage :=
        le_trans (zpow_le_zpow_right₀ (by norm_num) (by norm_num : (-1022 : ℤ) ≤ -1))
          (le_of_lt (by rw [zpow_neg_one, ← one_div]; exact hproduct))
      have herror := (abs_le.mp (Double.rounded_error_of_le hnormal)).1
      have hlt : Double.rounded (timer.limit * timer.stage) < ((timer.before + now : ℕ) : ℚ) + 1 :=
        (Nat.lt_floor_add_one _).trans_le (by exact_mod_cast Nat.add_le_add_right hfloor 1)
      linarith
  refine ⟨hstage, ?_⟩
  unfold Notice.Reached StageTimer.notice
  cases timer.ofAttempt <;> exact hused

/-! ## The notices of an attempt -/

/-- What holds of the steering of an attempt that begins at a stage. -/
structure Sound (first : ℚ) (s : Notices) : Prop where
  cost : 0 ≤ s.budget.costLimit
  timers : ∀ timer ∈ s.timers, timer.stage ∈ budgetSteeringStages
  rests : s.stopped = true → s.timers = []
  highest : s.highest = first ∨ ∃ n ∈ s.queued, n.stage = s.highest
  below : first ≤ s.highest ∧ ∀ n ∈ s.queued, n.stage ≤ s.highest
  above : ∀ n ∈ s.queued, first < n.stage
  rising : (s.queued.map Notice.stage).Pairwise (· < ·)
  due : ∀ n ∈ s.queued, n.Due
  given : s.journaled = s.steered ++ s.tail.filterMap BudgetTask.steer?
  one : s.tail.tail.filterMap BudgetTask.steer? = []
  waiting : ∃ done, s.queued = done ++ s.tail.filterMap BudgetTask.append? ∧
    s.journaled.Sublist done ∧ (s.failed = 0 → s.journaled = done)

variable {first : ℚ} {s t : Notices}

theorem sound_start {b : Steering} (hcost : 0 ≤ b.costLimit)
    (attemptTimeoutMs elapsedMs chargedMs : ℕ) :
    (start b attemptTimeoutMs elapsedMs chargedMs first).Sound first where
  cost := hcost
  timers := by
    intro timer h
    obtain ⟨stage, hstage, hmem⟩ := List.mem_flatMap.mp h
    rcases List.mem_pair.mp hmem with rfl | rfl <;> exact hstage
  rests := fun h => Bool.noConfusion h
  highest := Or.inl rfl
  below := ⟨le_refl _, fun n hn => absurd hn List.not_mem_nil⟩
  above := fun n hn => absurd hn List.not_mem_nil
  rising := List.Pairwise.nil
  due := fun n hn => absurd hn List.not_mem_nil
  given := rfl
  one := rfl
  waiting := ⟨[], rfl, List.Sublist.refl _, fun _ => rfl⟩

theorem Sound.enqueue (h : s.Sound first) (task : BudgetTask) (hs : task.steer? = none) :
    s.journaled = s.steered ++ (s.tail ++ [task]).filterMap BudgetTask.steer? ∧
      (s.tail ++ [task]).tail.filterMap BudgetTask.steer? = [] := by
  have hlast : [task].filterMap BudgetTask.steer? = [] := by simp [hs]
  constructor
  · rw [List.filterMap_append, hlast, List.append_nil]
    exact h.given
  · cases ht : s.tail with
    | nil => rfl
    | cons x rest =>
      have hone := h.one
      rw [ht, List.tail_cons] at hone
      rw [List.cons_append, List.tail_cons, List.filterMap_append, hone, hlast, List.append_nil]

/-- **A due notice keeps the steering sound.** -/
theorem Sound.queueBudgetSteering (h : s.Sound first) {n : Notice} (hn : n.Due) :
    (s.queueBudgetSteering n).Sound first := by
  unfold Notices.queueBudgetSteering
  split_ifs with hskip
  · exact h
  · rw [not_or, not_le] at hskip
    obtain ⟨hlt, -⟩ := hskip
    obtain ⟨hgiven, hone⟩ := h.enqueue (.append n) rfl
    obtain ⟨done, hqueued, hsub, hall⟩ := h.waiting
    refine { h with
      highest := Or.inr ⟨n, by simp, rfl⟩
      below := ⟨h.below.1.trans hlt.le, ?_⟩
      above := ?_
      rising := ?_
      due := ?_
      given := hgiven
      one := hone
      waiting := ⟨done, ?_, hsub, hall⟩ }
    · intro m hm
      rcases List.mem_append.mp hm with hm | hm
      · exact (h.below.2 m hm).trans hlt.le
      · rw [List.mem_singleton.mp hm]
    · intro m hm
      rcases List.mem_append.mp hm with hm | hm
      · exact h.above m hm
      · rw [List.mem_singleton.mp hm]
        exact h.below.1.trans_lt hlt
    · rw [List.map_append, List.pairwise_append]
      refine ⟨h.rising, List.pairwise_singleton _ _, ?_⟩
      intro x hx y hy
      obtain ⟨m, hm, rfl⟩ := List.mem_map.mp hx
      rw [List.map_singleton, List.mem_singleton] at hy
      rw [hy]
      exact (h.below.2 m hm).trans_lt hlt
    · intro m hm
      rcases List.mem_append.mp hm with hm | hm
      · exact h.due m hm
      · rw [List.mem_singleton.mp hm]
        exact hn
    · change s.queued ++ [n] = done ++ (s.tail ++ [BudgetTask.append n]).filterMap _
      rw [hqueued, List.filterMap_append, ← List.append_assoc]
      rfl

theorem Sound.queueAll {ns : List Notice} (h : s.Sound first) (hn : ∀ n ∈ ns, n.Due) :
    (ns.foldl Notices.queueBudgetSteering s).Sound first := by
  induction ns generalizing s with
  | nil => exact h
  | cons n ns ih =>
    rw [List.foldl_cons]
    exact ih (h.queueBudgetSteering (hn n List.mem_cons_self))
      fun m hm => hn m (List.mem_cons_of_mem _ hm)

/-- **A step of `budgetTail` keeps the steering sound.** -/
theorem Sound.runTask (h : s.Sound first) {ok : Bool} (ht : s.runTask ok = some t) :
    t.Sound first := by
  obtain ⟨done, hqueued, hsub, hall⟩ := h.waiting
  have hgiven := h.given
  have hone := h.one
  unfold Notices.runTask at ht
  cases htail : s.tail with
  | nil =>
    rw [htail] at ht
    cases ht
  | cons task rest =>
    rw [htail] at ht hqueued hgiven hone
    rw [List.tail_cons] at hone
    have hrest : rest.tail.filterMap BudgetTask.steer? = [] := by
      cases rest with
      | nil => rfl
      | cons x rest =>
        rw [List.filterMap_cons] at hone
        split at hone
        · exact hone
        · cases hone
    cases task with
    | checkpoint current =>
      have hgiven' : s.journaled = s.steered ++ rest.filterMap BudgetTask.steer? := hgiven
      have hqueued' : s.queued = done ++ rest.filterMap BudgetTask.append? := hqueued
      cases ok with
      | true =>
        cases ht
        exact { h with given := hgiven', one := hrest, waiting := ⟨done, hqueued', hsub, hall⟩ }
      | false =>
        cases ht
        exact { h with
          given := hgiven'
          one := hrest
          waiting := ⟨done, hqueued', hsub, fun hf => absurd hf (Nat.succ_ne_zero _)⟩ }
    | append n =>
      have hgiven' : s.journaled = s.steered ++ rest.filterMap BudgetTask.steer? := hgiven
      rw [hone, List.append_nil] at hgiven'
      have hqueued' : s.queued = done ++ [n] ++ rest.filterMap BudgetTask.append? := by
        rw [hqueued, List.append_assoc]
        rfl
      cases ok with
      | true =>
        cases ht
        have hnext : s.journaled ++ [n] = s.steered ++ n :: rest.filterMap BudgetTask.steer? := by
          rw [hone, hgiven']
        exact { h with
          given := hnext
          one := hone
          waiting := ⟨done ++ [n], hqueued', hsub.append (List.Sublist.refl _),
            fun hf => congrArg (· ++ [n]) (hall hf)⟩ }
      | false =>
        cases ht
        have hnext : s.journaled = s.steered ++ rest.filterMap BudgetTask.steer? := by
          rw [hone, List.append_nil, hgiven']
        exact { h with
          given := hnext
          one := hrest
          waiting := ⟨done ++ [n], hqueued', hsub.trans (List.sublist_append_left _ _),
            fun hf => absurd hf (Nat.succ_ne_zero _)⟩ }
    | steer n =>
      cases ht
      have hnext : s.journaled = s.steered ++ [n] ++ rest.filterMap BudgetTask.steer? := by
        rw [hgiven, List.append_assoc]
        rfl
      exact { h with given := hnext, one := hrest, waiting := ⟨done, hqueued, hsub, hall⟩ }

/-- **Every step keeps the steering sound.** -/
theorem sound_step {a : NoticeAct} (h : s.Sound first) (ht : s.step a = some t) :
    t.Sound first := by
  cases a with
  | wait ms | abort =>
    cases ht
    exact { h with }
  | stop =>
    cases ht
    exact { h with
      timers := fun timer hm => absurd hm List.not_mem_nil
      rests := fun _ => rfl }
  | turnEnd current =>
    simp only [step, Option.ite_none_left_eq_some] at ht
    obtain ⟨-, ht⟩ := ht
    cases ht
    obtain ⟨hgiven, hone⟩ := h.enqueue (.checkpoint current) rfl
    obtain ⟨done, hqueued, hrest⟩ := h.waiting
    refine Sound.queueAll ?_ fun n hn => turnNotices_due h.cost hn
    have hwaiting : s.queued =
        done ++ (s.tail ++ [BudgetTask.checkpoint current]).filterMap BudgetTask.append? := by
      rw [List.filterMap_append, hqueued]
      exact (congrArg (done ++ ·) (List.append_nil _)).symm
    exact { h with given := hgiven, one := hone, waiting := ⟨done, hwaiting, hrest⟩ }
  | fire timer =>
    simp only [step, Option.ite_none_right_eq_some] at ht
    obtain ⟨⟨hmem, hdelay⟩, ht⟩ := ht
    cases ht
    refine Sound.queueBudgetSteering ?_ (StageTimer.due (h.timers timer hmem) hdelay)
    refine { h with
      timers := fun x hx => h.timers x (List.mem_of_mem_erase hx)
      rests := fun hs => ?_ }
    rw [h.rests hs] at hmem
    cases hmem
  | task ok => exact h.runTask ht

/-! ## What is told -/

/-- The use that a step tells of. -/
def offers (s : Notices) : NoticeAct → List Notice
  | .turnEnd current => turnNotices s.budget current
  | .fire timer => [timer.notice s.now]
  | _ => []

theorem queueBudgetSteering_highest (s : Notices) (n : Notice) :
    s.highest ≤ (s.queueBudgetSteering n).highest ∧
      (s.queueBudgetSteering n).aborted = s.aborted ∧
      (s.aborted = false → n.stage ≤ (s.queueBudgetSteering n).highest) := by
  unfold Notices.queueBudgetSteering
  split_ifs with hskip
  · refine ⟨le_refl _, rfl, fun hlive => ?_⟩
    rcases hskip with hle | haborted
    · exact hle
    · rw [hlive] at haborted
      cases haborted
  · rw [not_or, not_le] at hskip
    exact ⟨hskip.1.le, rfl, fun _ => le_refl _⟩

theorem queueAll_highest (ns : List Notice) (s : Notices) :
    s.highest ≤ (ns.foldl Notices.queueBudgetSteering s).highest ∧
      (s.aborted = false → ∀ n ∈ ns,
        n.stage ≤ (ns.foldl Notices.queueBudgetSteering s).highest) := by
  induction ns generalizing s with
  | nil => exact ⟨le_refl _, fun _ n hn => absurd hn List.not_mem_nil⟩
  | cons n ns ih =>
    obtain ⟨hle, haborted, hstage⟩ := queueBudgetSteering_highest s n
    obtain ⟨hrest, hcovers⟩ := ih (s.queueBudgetSteering n)
    rw [List.foldl_cons]
    refine ⟨hle.trans hrest, fun hlive m hm => ?_⟩
    rcases List.mem_cons.mp hm with rfl | hm
    · exact (hstage hlive).trans hrest
    · exact hcovers (haborted.trans hlive) m hm

/-- The stage that is reached never falls, and covers the use that a step tells of. -/
theorem highest_step {a : NoticeAct} (ht : s.step a = some t) :
    s.highest ≤ t.highest ∧
      (s.aborted = false → ∀ n ∈ s.offers a, n.stage ≤ t.highest) := by
  cases a with
  | wait ms | abort | stop =>
    cases ht
    exact ⟨le_refl _, fun _ n hn => absurd hn List.not_mem_nil⟩
  | turnEnd current =>
    simp only [step, Option.ite_none_left_eq_some] at ht
    obtain ⟨-, ht⟩ := ht
    cases ht
    exact queueAll_highest _ { s with tail := s.tail ++ [.checkpoint current] }
  | fire timer =>
    simp only [step, Option.ite_none_right_eq_some] at ht
    obtain ⟨-, ht⟩ := ht
    cases ht
    exact queueAll_highest [timer.notice s.now] { s with timers := s.timers.erase timer }
  | task ok =>
    refine ⟨?_, fun _ n hn => absurd hn List.not_mem_nil⟩
    simp only [step, Notices.runTask] at ht
    split at ht
    · cases ht
    · cases ok <;> cases ht <;> exact le_refl _
    · cases ok <;> cases ht <;> exact le_refl _
    · cases ht
      exact le_refl _

theorem highest_exec {as : List NoticeAct} (h : exec step s as = some t) :
    s.highest ≤ t.highest :=
  exec_preserves (fun u : Notices => s.highest ≤ u.highest)
    (fun _ _ _ hu hv => hu.trans (highest_step hv).1) (le_refl _) h

theorem queueAll_aborted (ns : List Notice) (h : s.aborted = true) :
    ns.foldl Notices.queueBudgetSteering s = s := by
  induction ns with
  | nil => rfl
  | cons n ns ih =>
    have hskip : s.queueBudgetSteering n = s := if_pos (Or.inr h)
    rw [List.foldl_cons, hskip, ih]

theorem quiet_step {a : NoticeAct} (hquiet : s.aborted = true ∨ s.stopped = true ∧ s.timers = [])
    (ht : s.step a = some t) :
    (t.aborted = true ∨ t.stopped = true ∧ t.timers = []) ∧ t.queued = s.queued := by
  cases a with
  | wait ms =>
    cases ht
    exact ⟨hquiet, rfl⟩
  | abort =>
    cases ht
    exact ⟨Or.inl rfl, rfl⟩
  | stop =>
    cases ht
    exact ⟨Or.inr ⟨rfl, rfl⟩, rfl⟩
  | turnEnd current =>
    simp only [step, Option.ite_none_left_eq_some] at ht
    obtain ⟨hlive, ht⟩ := ht
    have haborted : s.aborted = true := hquiet.resolve_right fun hs => hlive hs.1
    have hsame : s.turnEnd current = { s with tail := s.tail ++ [.checkpoint current] } :=
      queueAll_aborted _ haborted
    rw [hsame] at ht
    cases ht
    exact ⟨Or.inl haborted, rfl⟩
  | fire timer =>
    simp only [step, Option.ite_none_right_eq_some] at ht
    obtain ⟨⟨hmem, -⟩, ht⟩ := ht
    have haborted : s.aborted = true := by
      refine hquiet.resolve_right fun hs => ?_
      rw [hs.2] at hmem
      cases hmem
    have hsame : { s with timers := s.timers.erase timer }.queueBudgetSteering
        (timer.notice s.now) = { s with timers := s.timers.erase timer } :=
      if_pos (Or.inr haborted)
    rw [hsame] at ht
    cases ht
    exact ⟨Or.inl haborted, rfl⟩
  | task ok =>
    simp only [step, Notices.runTask] at ht
    split at ht
    · cases ht
    · cases ok <;> cases ht <;> exact ⟨hquiet, rfl⟩
    · cases ok <;> cases ht <;> exact ⟨hquiet, rfl⟩
    · cases ht
      exact ⟨hquiet, rfl⟩

/-- After the stop, and once `budgetTail` is through, nothing is written or given. -/
theorem drained_step {a : NoticeAct} (hs : s.stopped = true ∧ s.timers = [] ∧ s.tail = [])
    (ht : s.step a = some t) :
    (t.stopped = true ∧ t.timers = [] ∧ t.tail = []) ∧
      t.journaled = s.journaled ∧ t.steered = s.steered ∧ t.checkpoints = s.checkpoints := by
  obtain ⟨hstopped, htimers, htail⟩ := hs
  cases a with
  | wait ms | abort =>
    cases ht
    exact ⟨⟨hstopped, htimers, htail⟩, rfl, rfl, rfl⟩
  | stop =>
    cases ht
    exact ⟨⟨rfl, rfl, htail⟩, rfl, rfl, rfl⟩
  | turnEnd current =>
    simp only [step, Option.ite_none_left_eq_some] at ht
    exact absurd hstopped ht.1
  | fire timer =>
    simp only [step, Option.ite_none_right_eq_some, htimers] at ht
    exact absurd ht.1.1 List.not_mem_nil
  | task ok =>
    simp only [step, Notices.runTask, htail] at ht
    cases ht

/-- What holds in every state that the steering of an attempt reaches. -/
theorem sound_exec {b : Steering} (hcost : 0 ≤ b.costLimit)
    {attemptTimeoutMs elapsedMs chargedMs : ℕ} {as : List NoticeAct}
    (h : exec step (start b attemptTimeoutMs elapsedMs chargedMs first) as = some t) :
    t.Sound first :=
  exec_preserves (Sound first) (fun _ _ _ hs ht => sound_step hs ht)
    (sound_start hcost attemptTimeoutMs elapsedMs chargedMs) h

/-- **One notice of a stage**: whatever happens in which order, the stages of the notices of an
attempt rise strictly, above those that the journal already has of it, each notice is due, and one
is given only after it has been recorded. -/
theorem notices_once (b : Steering) (hcost : 0 ≤ b.costLimit)
    (attemptTimeoutMs elapsedMs chargedMs : ℕ) (attemptId : JsString)
    (prior : List (JsString × ℚ)) (as : List NoticeAct) (t : Notices)
    (h : exec step (start b attemptTimeoutMs elapsedMs chargedMs
      (highestBudgetStage attemptId prior)) as = some t) :
    (t.queued.map Notice.stage).Pairwise (· < ·) ∧
      (∀ n ∈ t.queued, n.Due ∧ ∀ e ∈ prior, e.1 = attemptId → e.2 ∈ budgetSteeringStages →
        e.2 < n.stage) ∧
      t.journaled.Sublist t.queued ∧ t.steered <+: t.journaled ∧
      t.journaled.length ≤ t.steered.length + 1 := by
  have hs := sound_exec hcost h
  obtain ⟨done, hqueued, hsub, -⟩ := hs.waiting
  refine ⟨hs.rising, fun n hn => ⟨hs.due n hn, fun e he hid hstage => ?_⟩, ?_, ?_, ?_⟩
  · exact (le_highestBudgetStage he hid hstage).trans_lt (hs.above n hn)
  · rw [hqueued]
    exact hsub.trans (List.sublist_append_left _ _)
  · rw [hs.given]
    exact List.prefix_append _ _
  · have hone := hs.one
    rw [hs.given, List.length_append]
    cases htail : t.tail with
    | nil => exact Nat.le_succ _
    | cons task rest =>
      rw [htail, List.tail_cons] at hone
      rw [List.filterMap_cons, hone]
      split <;> simp

/-- A budget of a thousand tokens. -/
def thousandTokens : Steering := ⟨3600000, some 1000, 10, 0⟩

/-- A turn that uses most of it, and what it leads to. -/
def firstTurn : List NoticeAct := [.turnEnd ⟨0, 750, 0⟩, .task true, .task true, .task true]

/-- What the next turn leads to. -/
def afterTurn : List NoticeAct := [.task true, .task true, .task true, .stop]

/-- Two turns, and two notices. -/
theorem notices_once_twoTurns : ∃ t,
    exec step (start thousandTokens 300000 0 0 (highestBudgetStage [] []))
      (firstTurn ++ .turnEnd ⟨0, 950, 0⟩ :: afterTurn) = some t ∧ t.steered.length = 2 ∧
      t.steered <+: t.journaled ∧ (t.queued.map Notice.stage).Pairwise (· < ·) := by
  have hrun : (exec step (start thousandTokens 300000 0 0 (highestBudgetStage [] []))
      (firstTurn ++ .turnEnd ⟨0, 950, 0⟩ :: afterTurn)).any
        (fun t => decide (t.steered.length = 2)) = true := by
    decide +kernel
  obtain ⟨t, ht, hlength⟩ := (Option.any_eq_true _ _).mp hrun
  obtain ⟨hrising, -, -, hgiven, -⟩ :=
    notices_once thousandTokens (by decide) 300000 0 0 [] [] _ t ht
  exact ⟨t, ht, of_decide_eq_true hlength, hgiven, hrising⟩

/-- **No stage is missed**: the use that the end of a turn or a timer tells of before the abort is
covered by a notice, and that is given once `budgetTail` is through, unless an append has failed. -/
theorem notices_complete (b : Steering) (hcost : 0 ≤ b.costLimit)
    (attemptTimeoutMs elapsedMs chargedMs : ℕ) (first : ℚ) (before after : List NoticeAct)
    (a : NoticeAct) (s u t : Notices)
    (hbefore : exec step (start b attemptTimeoutMs elapsedMs chargedMs first) before = some s)
    (hlive : s.aborted = false) (ha : s.step a = some u) (hafter : exec step u after = some t)
    (n : Notice) (hn : n ∈ s.offers a) (hfirst : first < n.stage) :
    ∃ m ∈ t.queued, n.stage ≤ m.stage ∧ (t.failed = 0 → t.tail = [] → m ∈ t.steered) := by
  have hreach : exec step (start b attemptTimeoutMs elapsedMs chargedMs first)
      (before ++ a :: after) = some t := by
    rw [exec_append, hbefore, Option.bind_some, exec_cons, ha, Option.bind_some]
    exact hafter
  have hs : t.Sound first := sound_exec hcost hreach
  have hreached : n.stage ≤ t.highest :=
    ((highest_step ha).2 hlive n hn).trans (highest_exec hafter)
  rcases hs.highest with hsame | ⟨m, hm, hstage⟩
  · rw [hsame] at hreached
    exact absurd hfirst (not_lt.mpr hreached)
  · refine ⟨m, hm, by rw [hstage]; exact hreached, ?_⟩
    intro hfailed htail
    obtain ⟨done, hqueued, -, hall⟩ := hs.waiting
    have hgiven := hs.given
    rw [htail] at hqueued hgiven
    rw [List.filterMap_nil, List.append_nil] at hqueued hgiven
    rw [← hgiven, hall hfailed, ← hqueued]
    exact hm

/-- The urgent notice of the second turn. -/
theorem notices_complete_twoTurns : ∃ t,
    exec step (start thousandTokens 300000 0 0 0)
      (firstTurn ++ .turnEnd ⟨0, 950, 0⟩ :: afterTurn) = some t ∧
      ∃ m ∈ t.steered, Double.rounded (9 / 10) ≤ m.stage := by
  have hrun : (exec step (start thousandTokens 300000 0 0 0) firstTurn).any (fun s =>
      decide (s.aborted = false ∧
        (⟨Double.rounded (9 / 10), .ofRun .tokens, 950, 1000⟩ : Notice) ∈ s.offers (.turnEnd ⟨0, 950, 0⟩)) &&
      (s.step (.turnEnd ⟨0, 950, 0⟩)).any fun u => (exec step u afterTurn).any fun t =>
        decide (t.failed = 0 ∧ t.tail = [])) = true := by
    decide +kernel
  obtain ⟨s, hs, hchecks⟩ := (Option.any_eq_true _ _).mp hrun
  obtain ⟨hstart, hrest⟩ := (Bool.and_eq_true _ _).mp hchecks
  obtain ⟨hlive, hoffers⟩ := of_decide_eq_true hstart
  obtain ⟨u, hu, hrest⟩ := (Option.any_eq_true _ _).mp hrest
  obtain ⟨t, ht, hend⟩ := (Option.any_eq_true _ _).mp hrest
  obtain ⟨hfailed, htail⟩ := of_decide_eq_true hend
  obtain ⟨m, -, hstage, hgiven⟩ := notices_complete thousandTokens (by decide) 300000 0 0 0
    firstTurn afterTurn _ s u t hs hlive hu ht _ hoffers (by decide +kernel)
  refine ⟨t, ?_, m, hgiven hfailed htail, hstage⟩
  rw [exec_append, hs, Option.bind_some, exec_cons, hu, Option.bind_some]
  exact ht

/-- **Nothing is told after the end**: after the abort or the stop no notice is queued any more, and
once the steering is stopped and `budgetTail` is through, nothing more is written or given. -/
theorem notices_end (b : Steering) (hcost : 0 ≤ b.costLimit)
    (attemptTimeoutMs elapsedMs chargedMs : ℕ) (first : ℚ) (before after : List NoticeAct)
    (s t : Notices)
    (hbefore : exec step (start b attemptTimeoutMs elapsedMs chargedMs first) before = some s)
    (hafter : exec step s after = some t) :
    (s.aborted = true ∨ s.stopped = true → t.queued = s.queued) ∧
      (s.stopped = true → s.tail = [] →
        t.journaled = s.journaled ∧ t.steered = s.steered ∧ t.checkpoints = s.checkpoints) := by
  have hs : s.Sound first := sound_exec hcost hbefore
  constructor
  · intro hquiet
    refine (exec_preserves (fun u : Notices =>
      (u.aborted = true ∨ u.stopped = true ∧ u.timers = []) ∧ u.queued = s.queued) ?_
      ⟨hquiet.imp_right fun hstopped => ⟨hstopped, hs.rests hstopped⟩, rfl⟩ hafter).2
    rintro u a v ⟨hu, hsame⟩ hv
    obtain ⟨hv', hqueued⟩ := quiet_step hu hv
    exact ⟨hv', hqueued.trans hsame⟩
  · intro hstopped htail
    refine (exec_preserves (fun u : Notices =>
      (u.stopped = true ∧ u.timers = [] ∧ u.tail = []) ∧ u.journaled = s.journaled ∧
        u.steered = s.steered ∧ u.checkpoints = s.checkpoints) ?_
      ⟨⟨hstopped, hs.rests hstopped, htail⟩, rfl, rfl, rfl⟩ hafter).2
    rintro u a v ⟨hu, hj, hst, hc⟩ hv
    obtain ⟨hv', hj', hst', hc'⟩ := drained_step hu hv
    exact ⟨hv', hj'.trans hj, hst'.trans hst, hc'.trans hc⟩

/-- The steering after its end. -/
theorem notices_end_stopped : ∃ s t,
    exec step (start thousandTokens 300000 0 0 0) (firstTurn ++ [.stop]) = some s ∧
      exec step s [.wait 3600000, .abort] = some t ∧ s.queued.length = 1 ∧
      t.queued = s.queued ∧ t.journaled = s.journaled := by
  have hrun : (exec step (start thousandTokens 300000 0 0 0) (firstTurn ++ [.stop])).any (fun s =>
      decide (s.stopped = true ∧ s.tail = [] ∧ s.queued.length = 1) &&
        (exec step s [.wait 3600000, .abort]).isSome) = true := by
    decide +kernel
  obtain ⟨s, hs, hchecks⟩ := (Option.any_eq_true _ _).mp hrun
  obtain ⟨hend, hrest⟩ := (Bool.and_eq_true _ _).mp hchecks
  obtain ⟨hstopped, htail, hlength⟩ := of_decide_eq_true hend
  obtain ⟨t, ht⟩ := Option.isSome_iff_exists.mp hrest
  obtain ⟨hqueued, hwritten⟩ := notices_end thousandTokens (by decide) 300000 0 0 0 _ _ s t hs ht
  exact ⟨s, t, hs, ht, hlength, hqueued (Or.inr hstopped), (hwritten hstopped htail).1⟩

end Notices

end RunLife

end PiSubagent
