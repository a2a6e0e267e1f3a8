import PiSubagent.Service.IdempotentLaunch

/-!
# Launching after the attempt has ended

* `LaunchHistory`: which seats know a run, and whose initial attempts have ended.
* `Timely`: a seat that does not know a run takes its lease only before the run's attempt has ended.
* **`launches_hand_over_once`**: as long as that is so, launching is idempotent.
* **`launch_handed_over_twice`**: a seat that was opened before the run's record was there hands the
  attempt over again.
-/

namespace PiSubagent

open Runs

/-- The action hands an attempt to the executor or ends one that is there. -/
def LaunchAct.ofExecutor : LaunchAct → Bool
  | .execute _ | .settle _ _ | .die _ => true
  | _ => false

/-- The executor has the attempt of the launch. -/
def LaunchPhase.executing : LaunchPhase → Bool
  | .running | .blocked => true
  | _ => false

/-- Which seats know which runs, and of which runs the initial attempt has ended. -/
structure LaunchHistory where
  /-- The run's record was there when the seat was opened and its lease was free when the seat came to
  it, or the seat has launched the run. -/
  knows : ℕ → String → Bool
  /-- The attempt has settled and released the lease, or its seat has died. -/
  ended : String → Bool

namespace LaunchHistory

/-- Before anything has happened. -/
def empty : LaunchHistory := ⟨fun _ _ => false, fun _ => false⟩

/-- A seat learns of runs or forgets them. -/
def setKnows (h : LaunchHistory) (seat : ℕ) (knows : String → Bool) : LaunchHistory :=
  { h with knows := fun n => if n = seat then knows else h.knows n }

theorem setKnows_self (h : LaunchHistory) (seat : ℕ) :
    (h.setKnows seat (h.knows seat)).knows = h.knows := by
  funext n
  simp only [setKnows]
  split_ifs with hn
  · rw [hn]
  · rfl

variable (H : Digests)

/-- A seat has the initial attempt of a run at its executor. -/
def executes (s : LaunchState) (seat : ℕ) (runId : String) : Bool :=
  (List.range s.nextLaunch).any fun l =>
    (s.launches l).any fun launch =>
      launch.seat = seat && launch.prepared.runId H = runId && launch.phase.executing

/-- What an action adds to the history. -/
def extend (s : LaunchState) (h : LaunchHistory) : LaunchAct → LaunchHistory
  | .boot seat => h.setKnows seat fun r => s.runRecords.any (·.runId = r)
  | .recoverNext seat =>
    match (s.seats seat).state with
    | .recovering (record :: _) =>
      if (s.leases record.runId).isSome then
        h.setKnows seat fun r => h.knows seat r && decide (r ≠ record.runId)
      else h
    | _ => h
  | .execute l =>
    match s.launches l with
    | some launch =>
      h.setKnows launch.seat fun r =>
        h.knows launch.seat r || decide (r = launch.prepared.runId H)
    | none => h
  | .settle l status =>
    match s.launches l with
    | some launch =>
      if status = .cleanupBlocked then h
      else { h with ended := fun r => h.ended r || decide (r = launch.prepared.runId H) }
    | none => h
  | .die seat =>
    { h.setKnows seat fun _ => false with ended := fun r => h.ended r || executes H s seat r }
  | _ => h

/-- A launch that takes the lease of a run is of a seat that knows the run, or the run's initial
attempt has not ended, or `startAttempt` will refuse the launch. -/
def Timely (s : LaunchState) (h : LaunchHistory) : LaunchAct → Prop :=
  s.AtLease fun seat p => s.leases (p.runId H) = none → h.knows seat (p.runId H) = true ∨
    h.ended (p.runId H) = false ∨ s.refuses H p = true

instance (s : LaunchState) (h : LaunchHistory) (a : LaunchAct) : Decidable (Timely H s h a) := by
  unfold Timely
  infer_instance

end LaunchHistory

namespace LaunchState

variable {H : Digests} {s t : LaunchState} {h : LaunchHistory}

/-! ## What seats know -/

/-- A launch that has not ended belongs to a seat that is up; one inside `runExclusive` is alone
there, and its run is not in the memory of its seat. -/
structure Seated (H : Digests) (s : LaunchState) : Prop where
  preflights : ∀ n id p, (s.seats n).preflights id = some p → (s.seats n).state = .ready
  ready : ∀ l launch, s.launches l = some launch → launch.phase ≠ .over →
    (s.seats launch.seat).state = .ready
  inside : ∀ l launch, s.launches l = some launch → launch.phase.inside = true →
    (s.seats launch.seat).busy = some l ∧
      (s.seats launch.seat).runs (launch.prepared.runId H) = none

theorem emptyStore_seated : emptyStore.Seated H where
  preflights := fun _ _ _ h => by cases h
  ready := fun _ _ h => by cases h
  inside := fun _ _ h => by cases h

theorem Seated.setLaunch (hs : s.Seated H) {l : ℕ} {v : Launch}
    (hready : v.phase ≠ .over → (s.seats v.seat).state = .ready)
    (hinside : v.phase.inside = true → (s.seats v.seat).busy = some l ∧
      (s.seats v.seat).runs (v.prepared.runId H) = none) : (s.setLaunch l v).Seated H where
  preflights := hs.preflights
  ready := by
    intro k launch hk hp
    simp only [LaunchState.setLaunch] at hk
    split_ifs at hk
    · obtain rfl := Option.some.inj hk
      exact hready hp
    · exact hs.ready k launch hk hp
  inside := by
    intro k launch hk hp
    simp only [LaunchState.setLaunch] at hk
    split_ifs at hk with hkl
    · obtain rfl := Option.some.inj hk
      rw [hkl]
      exact hinside hp
    · exact hs.inside k launch hk hp

theorem Seated.moveTo (hs : s.Seated H) {l : ℕ} {launch : Launch}
    (hl : s.launches l = some launch) (hover : launch.phase ≠ .over) (phase : LaunchPhase)
    (hp : phase.inside = true → launch.phase.inside = true) : (s.moveTo l launch phase).Seated H :=
  hs.setLaunch (fun _ => hs.ready l launch hl hover) fun h => hs.inside l launch hl (hp h)

theorem Seated.setSeat (hs : s.Seated H) {n : ℕ} {v : Service}
    (hp : ∀ id p, v.preflights id = some p → v.state = .ready)
    (hready : ∀ l launch, s.launches l = some launch → launch.seat = n → launch.phase ≠ .over →
      v.state = .ready)
    (hinside : ∀ l launch, s.launches l = some launch → launch.seat = n →
      launch.phase.inside = true →
        v.busy = some l ∧ v.runs (launch.prepared.runId H) = none) : (s.setSeat n v).Seated H where
  preflights := by
    intro k id p hk
    simp only [LaunchState.setSeat] at hk ⊢
    split_ifs at hk ⊢
    · exact hp id p hk
    · exact hs.preflights k id p hk
  ready := by
    intro l launch hl hphase
    simp only [LaunchState.setSeat]
    split_ifs with hn
    · exact hready l launch hl hn hphase
    · exact hs.ready l launch hl hphase
  inside := by
    intro l launch hl hphase
    simp only [LaunchState.setSeat]
    split_ifs with hn
    · exact hinside l launch hl hn hphase
    · exact hs.inside l launch hl hphase

theorem Seated.setIdle (hs : s.Seated H) {n : ℕ} {v : Service}
    (hstate : (s.seats n).state ≠ .ready)
    (hp : ∀ id p, v.preflights id = some p → (s.seats n).preflights id = some p) :
    (s.setSeat n v).Seated H := by
  have hnone : ∀ l launch, s.launches l = some launch → launch.seat = n → launch.phase = .over := by
    intro l launch hl hn
    by_contra hphase
    exact hstate (hn ▸ hs.ready l launch hl hphase)
  refine hs.setSeat ?_ ?_ ?_
  · exact fun id p hv => absurd (hs.preflights n id p (hp id p hv)) hstate
  · exact fun l launch hl hn hphase => absurd (hnone l launch hl hn) hphase
  · intro l launch hl hn hphase
    rw [hnone l launch hl hn] at hphase
    cases hphase

/-- The launch inside `runExclusive` leaves it, and its seat may remember its run. -/
theorem Seated.setFree (hs : s.Seated H) {l : ℕ} {launch : Launch}
    (hl : s.launches l = some launch) (hin : launch.phase.inside = true) {phase : LaunchPhase}
    (hout : phase.inside = false) (runs : String → Option ActiveRun) :
    ((s.moveTo l launch phase).setSeat launch.seat
      { s.seats launch.seat with busy := none, runs := runs }).Seated H := by
  have hover : launch.phase ≠ .over := by
    intro he
    rw [he] at hin
    cases hin
  have hmoved := hs.moveTo hl hover phase fun hp => absurd hp (by rw [hout]; exact Bool.noConfusion)
  refine hmoved.setSeat (hs.preflights launch.seat) ?_ ?_
  · exact fun _ _ _ _ _ => hs.ready l launch hl hover
  · intro k other hk hseat hother
    simp only [LaunchState.moveTo, LaunchState.setLaunch] at hk
    split_ifs at hk with hkl
    · rw [← Option.some.inj hk, hout] at hother
      cases hother
    · -- no other launch of the seat is inside
      have hbusy := (hs.inside k other hk hother).1
      rw [hseat, (hs.inside l launch hl hin).1] at hbusy
      exact absurd (Option.some.inj hbusy).symm hkl

theorem Seated.leave (hs : s.Seated H) {l : ℕ} {launch : Launch}
    (hl : s.launches l = some launch) (hin : launch.phase.inside = true) :
    (s.leave l launch).Seated H :=
  hs.setFree hl hin rfl (s.seats launch.seat).runs

theorem Seated.of_same (hs : s.Seated H) (hseats : t.seats = s.seats)
    (hlaunches : t.launches = s.launches) : t.Seated H where
  preflights := by
    rw [hseats]
    exact hs.preflights
  ready := by
    rw [hseats, hlaunches]
    exact hs.ready
  inside := by
    rw [hseats, hlaunches]
    exact hs.inside

theorem Seated.abort (hs : s.Seated H) {l : ℕ} {launch : Launch}
    (hl : s.launches l = some launch) (hin : launch.phase.inside = true) :
    (s.abort H l launch).Seated H := (hs.leave hl hin).of_same rfl rfl

theorem Seated.setStatus (hs : s.Seated H) (n : ℕ) (runId : String) (status : RunStatus) :
    (s.setStatus n runId status).Seated H := by
  refine hs.setSeat (hs.preflights n) ?_ ?_
  · rintro l launch hl rfl hphase
    exact hs.ready l launch hl hphase
  · rintro l launch hl rfl hphase
    obtain ⟨hbusy, hnone⟩ := hs.inside l launch hl hphase
    refine ⟨hbusy, ?_⟩
    dsimp only
    split_ifs with hrun
    · rw [hnone]
      rfl
    · exact hnone

theorem Seated.die (hs : s.Seated H) (seat : ℕ) : (s.die seat).Seated H where
  preflights := by
    intro n id p h
    rw [die_seat] at h ⊢
    split_ifs at h ⊢
    · cases h
    · exact hs.preflights n id p h
  ready := by
    intro l launch h hphase
    obtain ⟨old, hold, -, hover | ⟨hseat, rfl⟩⟩ := die_launch h
    · exact absurd hover hphase
    · rw [die_seat, if_neg hseat]
      exact hs.ready l launch hold hphase
  inside := by
    intro l launch h hphase
    obtain ⟨old, hold, -, hover | ⟨hseat, rfl⟩⟩ := die_launch h
    · rw [hover] at hphase
      cases hphase
    · rw [die_seat, if_neg hseat]
      exact hs.inside l launch hold hphase

/-- **Every step keeps the launches at their seats.** -/
theorem Seated.step (hs : s.Seated H) {a : LaunchAct} (h : s.step H a = some t) : t.Seated H := by
  cases step_move h with
  | boot hstate =>
    exact hs.setIdle (by rw [hstate]; exact ServiceState.noConfusion) fun _ _ hp => by cases hp
  | recovered hstate | skips hstate =>
    exact hs.setIdle (by rw [hstate]; exact ServiceState.noConfusion) fun _ _ hp => hp
  | @restores seat _ _ hstate | @restored seat _ _ _ hstate =>
    refine Seated.of_same (s := s.setSeat seat _) ?_ rfl rfl
    exact hs.setIdle (by rw [hstate]; exact ServiceState.noConfusion) fun _ _ hp => hp
  | @preflight seat id prepared hstate =>
    refine (hs.setSeat (v := { s.seats seat with
      preflights := fun n => if n = id then some prepared else (s.seats seat).preflights n })
        (fun _ _ _ => hstate) (fun _ _ _ _ _ => hstate) ?_).of_same rfl rfl
    rintro l launch hl rfl hphase
    exact hs.inside l launch hl hphase
  | @launch seat id _ _ p hp =>
    exact (hs.setLaunch (v := ⟨seat, p, .queued⟩) (fun _ => hs.preflights seat id p hp)
      fun hin => by cases hin).of_same rfl rfl
  | returns hl =>
    exact (hs.moveTo hl LaunchPhase.noConfusion .over fun hin => by cases hin).of_same rfl rfl
  | refused hl => exact hs.moveTo hl LaunchPhase.noConfusion .over fun hin => by cases hin
  | @enters l seat p hl hbusy hnone =>
    have hready : (s.seats seat).state = .ready := hs.ready l _ hl LaunchPhase.noConfusion
    -- nobody else is inside
    have hseat : (s.setSeat seat { s.seats seat with busy := some l }).Seated H := by
      refine hs.setSeat (hs.preflights seat) (fun _ _ _ _ _ => hready) ?_
      rintro k launch hk rfl hin
      have hother := (hs.inside k launch hk hin).1
      rw [hbusy] at hother
      cases hother
    refine (hseat.setLaunch (l := l) (v := ⟨seat, p, .claiming⟩) ?_ ?_).of_same rfl rfl
    · intro _
      simp only [LaunchState.setSeat, if_true]
      exact hready
    · intro _
      simp only [LaunchState.setSeat, if_true]
      exact ⟨trivial, hnone⟩
  | claims hl => exact (hs.moveTo hl LaunchPhase.noConfusion .claimed fun _ => rfl).of_same rfl rfl
  | adopts hl => exact hs.moveTo hl LaunchPhase.noConfusion .claimed fun _ => rfl
  | conflicts hl | unavailable hl => exact hs.leave hl rfl
  | acquires hl => exact (hs.moveTo hl LaunchPhase.noConfusion .leased fun _ => rfl).of_same rfl rfl
  | recordsRun hl =>
    exact (hs.moveTo hl LaunchPhase.noConfusion .recorded fun _ => rfl).of_same rfl rfl
  | findsRun hl => exact hs.moveTo hl LaunchPhase.noConfusion .recorded fun _ => rfl
  | otherRun hl | reservedBefore hl | otherAttempt hl => exact hs.abort hl rfl
  | reserves hl =>
    have hmoved := hs.moveTo hl LaunchPhase.noConfusion .reserved fun _ => rfl
    refine hmoved.of_same ?_ ?_ <;>
      · unfold LaunchState.reserve
        split <;> rfl
  | recordsAttempt hl =>
    exact (hs.moveTo hl LaunchPhase.noConfusion .attempted fun _ => rfl).of_same rfl rfl
  | findsAttempt hl => exact hs.moveTo hl LaunchPhase.noConfusion .attempted fun _ => rfl
  | executes hl =>
    exact (hs.setFree hl rfl (rfl : LaunchPhase.running.inside = false) _).of_same rfl rfl
  | failsRemoved hl hin => exact (hs.abort hl hin).of_same rfl rfl
  | fails hl hin => exact hs.abort hl hin
  | blocks hl =>
    exact (hs.setStatus _ _ _).moveTo hl LaunchPhase.noConfusion .blocked fun hin => by cases hin
  | @settles _ seat p status hl =>
    have hset := hs.setStatus seat (p.runId H) status
    exact (hset.moveTo hl LaunchPhase.noConfusion .over fun hin => by cases hin).of_same rfl rfl
  | die seat => exact hs.die seat
  | removes | otherTakes | otherFrees => exact hs.of_same rfl rfl

/-! ## What the history tells -/

theorem moveTo_launches (s : LaunchState) (l : ℕ) (launch : Launch) (phase : LaunchPhase) (k : ℕ) :
    (s.moveTo l launch phase).launches k =
      if k = l then some { launch with phase := phase } else s.launches k := rfl

theorem executing_step (hs : s.Leased H) {a : LaunchAct} (ha : a.ofExecutor = false)
    (h : s.step H a = some t) {l : ℕ} {launch : Launch} (hl : s.launches l = some launch)
    (he : launch.phase.executing = true) : t.launches l = some launch := by
  have hother : ∀ k other phase, s.launches k = some other → other.phase.executing = false →
      (s.moveTo k other phase).launches l = some launch := by
    intro k other phase hk hp
    rw [moveTo_launches, if_neg]
    · exact hl
    · rintro rfl
      rw [hk] at hl
      cases hl
      rw [hp] at he
      cases he
  cases step_move h with
  | executes | blocks | settles | die => cases ha
  | boot | recovered | restores | skips | restored | preflight | removes | otherTakes | otherFrees =>
    exact hl
  | launch =>
    -- the new launch has a number of its own
    show (if l = s.nextLaunch then _ else s.launches l) = some launch
    rw [if_neg, hl]
    rintro rfl
    rw [hs.fresh s.nextLaunch le_rfl] at hl
    cases hl
  | @failsRemoved k other hk hin | @fails k _ other hk hin =>
    have hp : other.phase.executing = false := by
      cases hphase : other.phase <;> rw [hphase] at hin <;> first | rfl | cases hin
    exact hother k other .over hk hp
  | @reserves k _ _ hk =>
    rw [moveTo_launches, reserve_launches, ← moveTo_launches]
    exact hother k _ .reserved hk rfl
  | returns hk | refused hk | enters hk | claims hk | adopts hk | conflicts hk | acquires hk
  | unavailable hk | recordsRun hk | findsRun hk | otherRun hk | reservedBefore hk
  | recordsAttempt hk | findsAttempt hk | otherAttempt hk => exact hother _ _ _ hk rfl

theorem handed_step {a : LaunchAct} (ha : a.ofExecutor = false) (h : s.step H a = some t) :
    t.handed = s.handed := by
  cases step_move h with
  | executes | blocks | settles | die => cases ha
  | reserves =>
    show (s.reserve H _).handed = s.handed
    unfold LaunchState.reserve
    split <;> rfl
  | _ => rfl

end LaunchState

/-- The action belongs to the start-up or the death of a seat. -/
def LaunchAct.opens : LaunchAct → Bool
  | .boot _ | .recoverNext _ | .recoverSet _ _ | .die _ => true
  | _ => false

namespace LaunchState

variable {H : Digests} {s t : LaunchState} {h : LaunchHistory}

theorem memory_step {a : LaunchAct} (ha : a.opens = false) (hstep : s.step H a = some t) (n : ℕ) :
    (t.seats n).state = (s.seats n).state ∧
      ∀ r, ((s.seats n).runs r).isSome = true → ((t.seats n).runs r).isSome = true := by
  have hset : ∀ (u : LaunchState) (seat : ℕ) (v : Service), u.seats = s.seats →
      v.state = (s.seats seat).state →
        (∀ r, ((s.seats seat).runs r).isSome = true → (v.runs r).isSome = true) →
          ((u.setSeat seat v).seats n).state = (s.seats n).state ∧
            ∀ r, ((s.seats n).runs r).isSome = true →
              (((u.setSeat seat v).seats n).runs r).isSome = true := by
    intro u seat v hu hv hr
    simp only [LaunchState.setSeat]
    split_ifs with hn
    · subst hn
      exact ⟨hv, hr⟩
    · rw [hu]
      exact ⟨rfl, fun _ h => h⟩
  have hstatus : ∀ seat runId status,
      ((s.setStatus seat runId status).seats n).state = (s.seats n).state ∧
        ∀ r, ((s.seats n).runs r).isSome = true →
          (((s.setStatus seat runId status).seats n).runs r).isSome = true := by
    intro seat runId status
    refine hset s seat _ rfl rfl ?_
    intro r hr
    dsimp only
    split_ifs with he
    · rw [Option.isSome_map, hr]
    · exact hr
  cases step_move hstep with
  | boot | recovered | restores | skips | restored | die => cases ha
  | preflight => exact hset s _ _ rfl rfl fun _ h => h
  | @enters l => exact hset (s.moveTo l _ .claiming) _ _ rfl rfl fun _ h => h
  | @conflicts l | @unavailable l | @otherRun l | @reservedBefore l | @otherAttempt l
  | @failsRemoved l | @fails l => exact hset (s.moveTo l _ .over) _ _ rfl rfl fun _ h => h
  | @reserves l seat p =>
    have hseats : (s.reserve H p).seats = s.seats := by
      unfold LaunchState.reserve
      split <;> rfl
    rw [show ((s.reserve H p).moveTo l ⟨seat, p, .recorded⟩ .reserved).seats = s.seats from hseats]
    exact ⟨rfl, fun _ h => h⟩
  | @executes l seat =>
    refine hset (s.moveTo l _ .running) seat _ rfl rfl ?_
    intro r hr
    dsimp only
    split_ifs
    · rfl
    · exact hr
  | blocks | settles => exact hstatus _ _ _
  | launch | returns | refused | claims | adopts | acquires | recordsRun | findsRun
  | recordsAttempt | findsAttempt | removes | otherTakes | otherFrees => exact ⟨rfl, fun _ h => h⟩

/-- The history tells which runs the seats remember, and that an attempt that was handed over is at
its executor or has ended. -/
structure Recalled (H : Digests) (s : LaunchState) (h : LaunchHistory) : Prop where
  knows : ∀ n r, h.knows n r = true → ((s.seats n).runs r).isSome = true ∨
    ∃ record ∈ (s.seats n).state.pending, record.runId = r
  handed : ∀ e ∈ s.handed, h.ended e.runId = true ∨ ∃ l launch, s.launches l = some launch ∧
    launch.prepared.runId H = e.runId ∧ launch.phase.executing = true

theorem emptyStore_recalled : emptyStore.Recalled H .empty where
  knows := fun _ _ h => by cases h
  handed := fun _ h => by cases h

theorem Recalled.knows_setKnows {u : LaunchHistory} (hs : s.Recalled H h) {seat : ℕ}
    {knows : String → Bool} (hu : u.knows = (h.setKnows seat knows).knows)
    (hsame : ∀ n, n ≠ seat → t.seats n = s.seats n)
    (hseat : ∀ r, knows r = true → ((t.seats seat).runs r).isSome = true ∨
      ∃ record ∈ (t.seats seat).state.pending, record.runId = r) (n : ℕ) (r : String)
    (hr : u.knows n r = true) : ((t.seats n).runs r).isSome = true ∨
      ∃ record ∈ (t.seats n).state.pending, record.runId = r := by
  rw [hu] at hr
  simp only [LaunchHistory.setKnows] at hr
  split_ifs at hr with hn
  · rw [hn]
    exact hseat r hr
  · rw [hsame n hn]
    exact hs.knows n r hr

theorem Recalled.knows_step (hs : s.Recalled H h) {a : LaunchAct} (ha : a.opens = false)
    (hstep : s.step H a = some t) (n : ℕ) (r : String) (hr : h.knows n r = true) :
    ((t.seats n).runs r).isSome = true ∨
      ∃ record ∈ (t.seats n).state.pending, record.runId = r := by
  obtain ⟨hstate, hruns⟩ := memory_step ha hstep n
  rw [hstate]
  exact (hs.knows n r hr).imp_left (hruns r)

/-- Attempts stay at their executors but for settlements and deaths. -/
theorem Recalled.handed_step (hs : s.Recalled H h) (hlease : s.Leased H) {a : LaunchAct}
    (ha : a.ofExecutor = false) (hstep : s.step H a = some t) :
    ∀ e ∈ t.handed, h.ended e.runId = true ∨ ∃ l launch, t.launches l = some launch ∧
      launch.prepared.runId H = e.runId ∧ launch.phase.executing = true := by
  rw [LaunchState.handed_step ha hstep]
  intro e he
  rcases hs.handed e he with hend | ⟨l, launch, hl, hrun, hp⟩
  · exact Or.inl hend
  · exact Or.inr ⟨l, launch, executing_step hlease ha hstep hl hp, hrun, hp⟩

/-- **Every step is told by the history.** -/
theorem Recalled.step (hs : s.Recalled H h) (hlease : s.Leased H) {a : LaunchAct}
    (hstep : s.step H a = some t) : t.Recalled H (h.extend H s a) := by
  cases step_move hstep with
  | boot =>
    refine ⟨?_, hs.handed_step hlease rfl hstep⟩
    refine hs.knows_setKnows rfl (fun n hn => if_neg hn) ?_
    intro r hr
    obtain ⟨record, hrecord, he⟩ := List.any_eq_true.mp hr
    refine Or.inr ⟨record, ?_, of_decide_eq_true he⟩
    simp only [LaunchState.setSeat, if_true]
    exact hrecord
  | @recovered seat hstate =>
    simp only [LaunchHistory.extend, hstate]
    refine ⟨?_, hs.handed_step hlease rfl hstep⟩
    refine hs.knows_setKnows (h.setKnows_self seat).symm (fun n hn => if_neg hn) ?_
    intro r hr
    simp only [LaunchState.setSeat, if_true]
    rcases hs.knows seat r hr with hrun | ⟨record, hrecord, -⟩
    · exact Or.inl hrun
    · rw [hstate] at hrecord
      cases hrecord
  | @restores seat record todo hstate hfree =>
    simp only [LaunchHistory.extend, hstate]
    rw [if_neg (by rw [hfree]; exact Bool.false_ne_true)]
    refine ⟨?_, hs.handed_step hlease rfl hstep⟩
    refine hs.knows_setKnows (h.setKnows_self seat).symm (fun n hn => if_neg hn) ?_
    intro r hr
    have hknown := hs.knows seat r hr
    rw [hstate] at hknown
    simp only [LaunchState.setLease, LaunchState.setSeat, if_true]
    exact hknown
  | @skips seat record todo holder hstate hheld =>
    simp only [LaunchHistory.extend, hstate]
    rw [if_pos (by rw [hheld]; rfl)]
    refine ⟨?_, hs.handed_step hlease rfl hstep⟩
    refine hs.knows_setKnows rfl (fun n hn => if_neg hn) ?_
    intro r hr
    rw [Bool.and_eq_true, decide_eq_true_eq] at hr
    simp only [LaunchState.setSeat, if_true]
    refine (hs.knows seat r hr.1).imp_right ?_
    rw [hstate]
    rintro ⟨other, hother, he⟩
    -- the record that is skipped is of another run
    rcases List.mem_cons.mp hother with rfl | hother
    · exact absurd he.symm hr.2
    · exact ⟨other, hother, he⟩
  | @restored seat status record todo hstate =>
    refine ⟨?_, hs.handed_step hlease rfl hstep⟩
    refine hs.knows_setKnows (h.setKnows_self seat).symm (fun n hn => if_neg hn) ?_
    intro r hr
    simp only [LaunchState.release, LaunchState.setSeat, if_true]
    rcases hs.knows seat r hr with hrun | ⟨other, hother, he⟩
    · split_ifs
      · exact Or.inl rfl
      · exact Or.inl hrun
    · rw [hstate] at hother
      rcases List.mem_cons.mp hother with rfl | hother
      · rw [if_pos he.symm]
        exact Or.inl rfl
      · exact Or.inr ⟨other, hother, he⟩
  | @executes l seat p hl =>
    simp only [LaunchHistory.extend, hl]
    refine ⟨?_, ?_⟩
    · refine hs.knows_setKnows rfl (fun n hn => if_neg hn) ?_
      intro r hr
      simp only [LaunchState.handOver, LaunchState.setSeat, if_true]
      rw [Bool.or_eq_true, decide_eq_true_eq] at hr
      by_cases he : r = p.runId H
      · exact Or.inl (by rw [if_pos he]; rfl)
      · rw [if_neg he]
        exact hs.knows seat r (hr.resolve_right he)
    · intro e he
      rcases List.mem_cons.mp he with rfl | he
      · exact Or.inr ⟨l, ⟨seat, p, .running⟩, if_pos rfl, rfl, rfl⟩
      · rcases hs.handed e he with hend | ⟨k, launch, hk, hrun, hp⟩
        · exact Or.inl hend
        · refine Or.inr ⟨k, launch, ?_, hrun, hp⟩
          have hne : k ≠ l := by
            rintro rfl
            rw [hl] at hk
            cases hk
            cases hp
          exact (if_neg hne).trans hk
  | @blocks l seat p hl =>
    simp only [LaunchHistory.extend, hl, if_true]
    refine ⟨hs.knows_step rfl hstep, ?_⟩
    intro e he
    rcases hs.handed e he with hend | ⟨k, launch, hk, hrun, hp⟩
    · exact Or.inl hend
    · by_cases hkl : k = l
      · subst hkl
        rw [hl] at hk
        cases hk
        exact Or.inr ⟨k, ⟨seat, p, .blocked⟩, if_pos rfl, hrun, rfl⟩
      · exact Or.inr ⟨k, launch, (if_neg hkl).trans hk, hrun, hp⟩
  | @settles l seat p status hl hstatus =>
    simp only [LaunchHistory.extend, hl, if_neg hstatus]
    refine ⟨hs.knows_step rfl hstep, ?_⟩
    intro e he
    rcases hs.handed e he with hend | ⟨k, launch, hk, hrun, hp⟩
    · exact Or.inl (Bool.or_eq_true_iff.mpr (Or.inl hend))
    · by_cases hkl : k = l
      · subst hkl
        rw [hl] at hk
        cases hk
        exact Or.inl (Bool.or_eq_true_iff.mpr (Or.inr (decide_eq_true hrun.symm)))
      · exact Or.inr ⟨k, launch, (if_neg hkl).trans hk, hrun, hp⟩
  | die seat =>
    refine ⟨?_, ?_⟩
    · exact hs.knows_setKnows rfl (fun n hn => if_neg hn) fun r hr => by cases hr
    · intro e he
      show (h.ended e.runId || LaunchHistory.executes H s seat e.runId) = true ∨ _
      rcases hs.handed e he with hend | ⟨k, launch, hk, hrun, hp⟩
      · exact Or.inl (Bool.or_eq_true_iff.mpr (Or.inl hend))
      · by_cases hseat : launch.seat = seat
        · refine Or.inl ?_
          rw [Bool.or_eq_true]
          refine Or.inr (List.any_eq_true.mpr ⟨k, List.mem_range.mpr (hlease.lt_nextLaunch hk), ?_⟩)
          rw [hk, Option.any_some, decide_eq_true hseat, decide_eq_true hrun, hp]
          rfl
        · refine Or.inr ⟨k, launch, ?_, hrun, hp⟩
          show (s.launches k).map _ = some launch
          rw [hk, Option.map_some, if_neg hseat]
  | _ => exact ⟨hs.knows_step rfl hstep, hs.handed_step hlease rfl hstep⟩

/-! ## Runs -/

/-- **A timely launch hands the attempt over for the first time, or is refused.** -/
theorem Recalled.firstHandOver (hs : s.Recalled H h) (hseat : s.Seated H) (hlease : s.Leased H)
    {a : LaunchAct} (ha : h.Timely H s a) : s.FirstHandOver H a := by
  cases a with
  | acquire l =>
    simp only [FirstHandOver, AtLease]
    split
    next seat p hl =>
      simp only [LaunchHistory.Timely, AtLease, hl] at ha
      intro hfree
      rcases ha hfree with hknows | hended | hrefuses
      · -- a seat that knows the run has it in memory
        have hready : (s.seats seat).state = .ready := hseat.ready l _ hl LaunchPhase.noConfusion
        have hnone : (s.seats seat).runs (p.runId H) = none := (hseat.inside l _ hl rfl).2
        rcases hs.knows seat _ hknows with hrun | ⟨record, hrecord, -⟩
        · rw [hnone] at hrun
          cases hrun
        · rw [hready] at hrecord
          cases hrecord
      · refine Or.inl fun e he hrun => ?_
        rcases hs.handed e he with hend | ⟨k, launch, hk, hkrun, hp⟩
        · rw [hrun, hended] at hend
          cases hend
        · -- while the executor has the attempt, its launch has the lease
          have hheld : launch.phase.leaseHeld = true := by
            cases hphase : launch.phase <;> rw [hphase] at hp <;> first | rfl | cases hp
          have hlaunch := hlease.held k launch hk hheld
          rw [hkrun, hrun, hfree] at hlaunch
          cases hlaunch
      · exact Or.inr hrefuses
    · trivial
  | _ => trivial

end LaunchState

/-- **Launching hands a run over once**: in every run of any number of seats on one store, when no
two requests share a run identity and no seat that was opened without a run, or skipped it, takes
the run's lease after its attempt has ended without being refused, launching is idempotent. -/
theorem launches_hand_over_once (H : Digests) (acts : List LaunchAct) (t : LaunchState)
    (hok : Meets (watch (LaunchState.step H) (LaunchHistory.extend H))
      (fun w a => w.2.Timely H w.1 a) (emptyStore, .empty) acts)
    (ht : exec (LaunchState.step H) emptyStore acts = some t) (hd : t.Distinct H) :
    t.Idempotent H := by
  obtain ⟨h, hexec⟩ := exec_watch (LaunchHistory.extend H) .empty ht
  have hs : t.Registered H ∧ t.Leased H ∧ t.Once H ∧ t.Seated H ∧ t.Recalled H h := by
    refine exec_invariant (fun w => w.1.Registered H ∧ w.1.Leased H ∧ w.1.Once H ∧ w.1.Seated H ∧
      w.1.Recalled H w.2) ?_ ⟨LaunchState.emptyStore_registered, LaunchState.emptyStore_leased,
        LaunchState.emptyStore_once, LaunchState.emptyStore_seated,
        LaunchState.emptyStore_recalled⟩ hok hexec
    rintro ⟨s, g⟩ a ⟨u, g'⟩ ⟨hreg, hlease, honce, hseated, hrecalled⟩ htimely hstep
    obtain ⟨hstep, rfl⟩ := watch_eq_some.mp hstep
    have hfirst := hrecalled.firstHandOver hseated hlease htimely
    exact ⟨hreg.step hstep, hlease.step hstep, honce.step hlease hfirst hstep, hseated.step hstep,
      hrecalled.step hlease hstep⟩
  exact hs.2.2.1.idempotent hs.1 hd

/-! ## Two seats and one operation -/

/-- A read-only request: everything but its operation and its mode is text. -/
def readRequest : SubagentRequest where
  operationId := "operation-1"
  workspace := ⟨.readOnly, none⟩
  rest := "\x7b\"agent\":\"worker\",\"contextMode\":\"fresh\",\"contextScopes\":[]," ++
    "\"cwd\":\"/work/repository\",\"limits\":\x7b\"attemptTimeoutMs\":60000," ++
    "\"cost\":1,\"cumulativeRuntimeMs\":60000,\"outputBytes\":1048576,\"resumes\":1," ++
    "\"retries\":1,\"workspaceWriteBytes\":0\x7d,\"preloadSkills\":[]," ++
    "\"task\":\x7b\"context\":[],\"goal\":\"Read\"," ++
    "\"instructions\":[\"Return result\"]\x7d,\"tools\":[\"read\"]\x7d"

/-- The digests of the request and its owner, told by the operation. -/
def readDigests : Digests where
  identity := fun ownerId request =>
    if ownerId = "owner-1" ∧ request.operationId = "operation-1" then
      "289d88f2443bad21a1eed8efeafa0488da1d03b5ee5440eb3a297c2fec3e3a60"
    else ""
  request := fun request =>
    if request.operationId = "operation-1" then
      "dbd4bc082dd0483466c366a5611291c23037e0f332877ce0d64391522bb64ca4"
    else ""
  recordKey := fun ownerId operationId =>
    if ownerId = "owner-1" ∧ operationId = "operation-1" then
      "4e1bf8452d2e7f22f148a6e45fb4ea7a3a2ef9e9fa49e7c4ec69ebe30c589121"
    else ""

/-- What `preflight` prepares for the request. -/
def readPrepared : Prepared where
  ownerId := "owner-1"
  request := readRequest
  identitySha256 := "64879f7d6b960a01909762d911a32d4582c20010c5641ee90278b644a9e3b525"
  baselineSha256 := "8ba8496a2525ae171ffd104d632dede6ef418d9b95962a9d88e2fcdbc8d48d24"

/-- A seat prepares and launches the request, as launch `l`. -/
def launchRead (seat l : ℕ) : List LaunchAct :=
  [.preflight seat 0 readPrepared, .launch seat 0 "owner-1" readPrepared.identitySha256, .enter l]

/-- A launch that finds nothing in memory goes on to the executor. -/
def startRead (l : ℕ) : List LaunchAct :=
  [.claim l, .acquire l, .createRunRecord l, .checkOut l, .createAttemptRecord l, .execute l]

/-- Seat 1 launches the request and its attempt completes; seat 2 starts after that and launches the
request again. -/
def launchedAfterStart : List LaunchAct :=
  [.boot 1, .recoverNext 1] ++ launchRead 1 0 ++ startRead 0 ++ [.settle 0 .completed] ++
    [.boot 2, .recoverNext 2, .recoverSet 2 .completed, .recoverNext 2] ++ launchRead 2 1

/-- Seats 1 and 2 start; seat 1 launches the request and its attempt completes; then seat 2 launches
the request, of which its memory knows nothing. -/
def launchedUnknown : List LaunchAct :=
  [.boot 1, .recoverNext 1, .boot 2, .recoverNext 2] ++ launchRead 1 0 ++ startRead 0 ++
    [.settle 0 .completed] ++ launchRead 2 1 ++ startRead 1

/-- The second seat returns the receipt of the first seat's run. -/
theorem launches_hand_over_once_restarted :
    ∃ t, exec (LaunchState.step readDigests) emptyStore launchedAfterStart = some t ∧
      t.receipts.length = 2 ∧ t.handed.length = 1 ∧ t.Idempotent readDigests := by
  have hrun : (exec (LaunchState.step readDigests) emptyStore launchedAfterStart).map
      (fun t => (t.receipts.length, t.handed.length, t.requested)) =
      some (2, 1, [("owner-1", readRequest), ("owner-1", readRequest)]) := by decide +kernel
  obtain ⟨t, ht, hlen⟩ := Option.map_eq_some_iff.mp hrun
  obtain ⟨hreceipts, hlen⟩ := Prod.mk.inj hlen
  obtain ⟨hhanded, hrequested⟩ := Prod.mk.inj hlen
  have hdistinct : t.Distinct readDigests := by
    intro x hx y hy _
    rw [hrequested] at hx hy
    simp only [List.mem_cons, List.not_mem_nil, or_false, or_self] at hx hy
    rw [hx, hy]
  refine ⟨t, ht, hreceipts, hhanded, ?_⟩
  exact launches_hand_over_once readDigests launchedAfterStart t (by decide +kernel) ht hdistinct

/-- **A seat that started before the launch hands the attempt over again.** -/
theorem launch_handed_over_twice :
    ¬∀ (H : Digests) (acts : List LaunchAct) (t : LaunchState),
      exec (LaunchState.step H) emptyStore acts = some t → t.Distinct H → t.Idempotent H := by
  intro hall
  have hrun : (exec (LaunchState.step readDigests) emptyStore launchedUnknown).map
      (fun t => (t.handed.map fun e => (e.ownerId, e.operationId), t.requested)) =
      some ([("owner-1", "operation-1"), ("owner-1", "operation-1")],
        [("owner-1", readRequest), ("owner-1", readRequest)]) := by decide +kernel
  obtain ⟨t, ht, he⟩ := Option.map_eq_some_iff.mp hrun
  obtain ⟨hhanded, hrequested⟩ := Prod.mk.inj he
  have hdistinct : t.Distinct readDigests := by
    intro x hx y hy _
    rw [hrequested] at hx hy
    simp only [List.mem_cons, List.not_mem_nil, or_false, or_self] at hx hy
    rw [hx, hy]
  have honce := (hall readDigests launchedUnknown t ht hdistinct).once
  have hpair : (t.handed.map fun e => (e.ownerId, e.operationId)).Pairwise (· ≠ ·) := by
    rw [List.pairwise_map]
    exact honce.imp fun hne he => hne (Prod.mk.inj he)
  rw [hhanded] at hpair
  simp at hpair

end PiSubagent
