import PiSubagent.Lib.Runs
import PiSubagent.Service.Launch
import Mathlib.Tactic.SplitIfs

/-!
# Launching once

* `LaunchState.Move`: what a step comes to, by its outcome (**`step_move`**); every invariant below is
  kept outcome by outcome.
* `LaunchState.Registered`: whatever a seat, a launch or the store knows of a run is backed by the
  claim of its operation.
* `LaunchState.Leased`: a launch between `acquireRunLease` and the settlement has the run's lease.
* `LaunchState.FirstHandOver`: a launch acquires the lease of a run that has not been handed to the
  executor, or will be refused under it.
* `LaunchState.Once`: as long as that is so, nothing is handed over twice.
* **`launches_share_run`**: an operation has one run and one request, whatever happens.
-/

namespace PiSubagent

open Runs

namespace LaunchState

variable {H : Digests} {s t : LaunchState}

/-! ## Steps -/

/-- What a step comes to, by its outcome. -/
inductive Move (H : Digests) (s : LaunchState) : LaunchAct → LaunchState → Prop
  | boot {seat : ℕ} (hstate : (s.seats seat).state = .down) :
    Move H s (.boot seat) (s.setSeat seat { Service.down with state := .recovering s.runRecords })
  | recovered {seat : ℕ} (hstate : (s.seats seat).state = .recovering []) :
    Move H s (.recoverNext seat) (s.setSeat seat { s.seats seat with state := .ready })
  | restores {seat : ℕ} {record : RunRecord} {todo : List RunRecord}
      (hstate : (s.seats seat).state = .recovering (record :: todo))
      (hfree : s.leases record.runId = none) :
    Move H s (.recoverNext seat)
      ((s.setSeat seat { s.seats seat with state := .restoring record todo }).setLease record.runId
        (.recovery seat))
  | skips {seat : ℕ} {record : RunRecord} {todo : List RunRecord} {holder : LeaseHolder}
      (hstate : (s.seats seat).state = .recovering (record :: todo))
      (hheld : s.leases record.runId = some holder) :
    Move H s (.recoverNext seat) (s.setSeat seat { s.seats seat with state := .recovering todo })
  | restored {seat : ℕ} {status : RunStatus} {record : RunRecord} {todo : List RunRecord}
      (hstate : (s.seats seat).state = .restoring record todo) :
    Move H s (.recoverSet seat status)
      ((s.setSeat seat { s.seats seat with
        state := .recovering todo
        runs := fun r =>
          if r = record.runId then
            some ⟨record.ownerId, record.runId, record.attemptId, status⟩
          else (s.seats seat).runs r }).release record.runId (.recovery seat))
  | preflight {seat id : ℕ} {prepared : Prepared} (hstate : (s.seats seat).state = .ready) :
    Move H s (.preflight seat id prepared)
      { s.setSeat seat { s.seats seat with
          preflights := fun n => if n = id then some prepared else (s.seats seat).preflights n } with
        requested := (prepared.ownerId, prepared.request) :: s.requested }
  | launch {seat id : ℕ} {ownerId expected : String} {p : Prepared}
      (hp : (s.seats seat).preflights id = some p) :
    Move H s (.launch seat id ownerId expected)
      { s.setLaunch s.nextLaunch ⟨seat, p, .queued⟩ with nextLaunch := s.nextLaunch + 1 }
  | returns {l seat : ℕ} {p : Prepared} {existing : ActiveRun}
      (hl : s.launches l = some ⟨seat, p, .queued⟩)
      (hrun : (s.seats seat).runs (p.runId H) = some existing)
      (hown : existing.ownerId = p.ownerId) :
    Move H s (.enter l)
      { s.moveTo l ⟨seat, p, .queued⟩ .over with
        receipts := ⟨p.ownerId, p.request, existing.runId, existing.attemptId, existing.status⟩ ::
          s.receipts }
  | refused {l seat : ℕ} {p : Prepared} (hl : s.launches l = some ⟨seat, p, .queued⟩) :
    Move H s (.enter l) (s.moveTo l ⟨seat, p, .queued⟩ .over)
  | enters {l seat : ℕ} {p : Prepared} (hl : s.launches l = some ⟨seat, p, .queued⟩)
      (hbusy : (s.seats seat).busy = none) (hnone : (s.seats seat).runs (p.runId H) = none) :
    Move H s (.enter l) ((s.moveTo l ⟨seat, p, .queued⟩ .claiming).setSeat seat
      { s.seats seat with busy := some l })
  | claims {l seat : ℕ} {p : Prepared} (hl : s.launches l = some ⟨seat, p, .claiming⟩)
      (hnone : s.operations (p.key H) = none) :
    Move H s (.claim l) { s.moveTo l ⟨seat, p, .claiming⟩ .claimed with
      operations := fun k => if k = p.key H then some (p.claim H) else s.operations k }
  | adopts {l seat : ℕ} {p : Prepared} (hl : s.launches l = some ⟨seat, p, .claiming⟩)
      (hclaim : s.operations (p.key H) = some (p.claim H)) :
    Move H s (.claim l) (s.moveTo l ⟨seat, p, .claiming⟩ .claimed)
  | conflicts {l seat : ℕ} {p : Prepared} (hl : s.launches l = some ⟨seat, p, .claiming⟩) :
    Move H s (.claim l) (s.leave l ⟨seat, p, .claiming⟩)
  | acquires {l seat : ℕ} {p : Prepared} (hl : s.launches l = some ⟨seat, p, .claimed⟩)
      (hfree : s.leases (p.runId H) = none) :
    Move H s (.acquire l)
      ((s.moveTo l ⟨seat, p, .claimed⟩ .leased).setLease (p.runId H) (.launch l))
  | unavailable {l seat : ℕ} {p : Prepared} (hl : s.launches l = some ⟨seat, p, .claimed⟩) :
    Move H s (.acquire l) (s.leave l ⟨seat, p, .claimed⟩)
  | recordsRun {l seat : ℕ} {p : Prepared} (hl : s.launches l = some ⟨seat, p, .leased⟩)
      (hnone : s.runRecord? (p.runId H) = none) :
    Move H s (.createRunRecord l) { s.moveTo l ⟨seat, p, .leased⟩ .recorded with
      runRecords := s.runRecords ++ [p.runRecord H] }
  | findsRun {l seat : ℕ} {p : Prepared} {existing : RunRecord}
      (hl : s.launches l = some ⟨seat, p, .leased⟩)
      (hfound : s.runRecord? (p.runId H) = some existing)
      (haccepts : p.acceptsRunRecord existing = true) :
    Move H s (.createRunRecord l) (s.moveTo l ⟨seat, p, .leased⟩ .recorded)
  | otherRun {l seat : ℕ} {p : Prepared} (hl : s.launches l = some ⟨seat, p, .leased⟩) :
    Move H s (.createRunRecord l) (s.abort H l ⟨seat, p, .leased⟩)
  | reservedBefore {l seat : ℕ} {p : Prepared} (hl : s.launches l = some ⟨seat, p, .recorded⟩) :
    Move H s (.checkOut l) (s.abort H l ⟨seat, p, .recorded⟩)
  | reserves {l seat : ℕ} {p : Prepared} (hl : s.launches l = some ⟨seat, p, .recorded⟩)
      (hfree : ¬ s.isReserved H p = true) :
    Move H s (.checkOut l) ((s.reserve H p).moveTo l ⟨seat, p, .recorded⟩ .reserved)
  | recordsAttempt {l seat : ℕ} {p : Prepared} (hl : s.launches l = some ⟨seat, p, .reserved⟩) :
    Move H s (.createAttemptRecord l) { s.moveTo l ⟨seat, p, .reserved⟩ .attempted with
      attemptRecords := s.attemptRecords ++ [p.attemptRecord H] }
  | findsAttempt {l seat : ℕ} {p : Prepared} (hl : s.launches l = some ⟨seat, p, .reserved⟩) :
    Move H s (.createAttemptRecord l) (s.moveTo l ⟨seat, p, .reserved⟩ .attempted)
  | otherAttempt {l seat : ℕ} {p : Prepared} (hl : s.launches l = some ⟨seat, p, .reserved⟩) :
    Move H s (.createAttemptRecord l) (s.abort H l ⟨seat, p, .reserved⟩)
  | executes {l seat : ℕ} {p : Prepared} (hl : s.launches l = some ⟨seat, p, .attempted⟩) :
    Move H s (.execute l) (s.handOver H l ⟨seat, p, .attempted⟩)
  | failsRemoved {l : ℕ} {launch : Launch} (hl : s.launches l = some launch)
      (hin : launch.phase.inside = true) (hout : launch.phase.checkedOut = true) :
    Move H s (.fail l true) ((s.abort H l launch).dropSnapshot (launch.prepared.attemptId H))
  | fails {l : ℕ} {removed : Bool} {launch : Launch} (hl : s.launches l = some launch)
      (hin : launch.phase.inside = true) : Move H s (.fail l removed) (s.abort H l launch)
  | removes {l seat : ℕ} {p : Prepared} (hl : s.launches l = some ⟨seat, p, .running⟩) :
    Move H s (.removeSnapshot l) (s.dropSnapshot (p.attemptId H))
  | blocks {l seat : ℕ} {p : Prepared} (hl : s.launches l = some ⟨seat, p, .running⟩) :
    Move H s (.settle l .cleanupBlocked)
      ((s.setStatus seat (p.runId H) .cleanupBlocked).moveTo l ⟨seat, p, .running⟩ .blocked)
  | settles {l seat : ℕ} {p : Prepared} {status : RunStatus}
      (hl : s.launches l = some ⟨seat, p, .running⟩) (hstatus : status ≠ .cleanupBlocked) :
    Move H s (.settle l status)
      (((s.setStatus seat (p.runId H) status).moveTo l ⟨seat, p, .running⟩ .over).release
        (p.runId H) (.launch l))
  | die (seat : ℕ) : Move H s (.die seat) (s.die seat)
  | otherTakes {runId : String} (hfree : s.leases runId = none) :
    Move H s (.otherTake runId) (s.setLease runId .other)
  | otherFrees (runId : String) : Move H s (.otherFree runId) (s.release runId .other)

/-- **A step comes to one of its outcomes.** -/
theorem step_move {a : LaunchAct} (h : s.step H a = some t) : s.Move H a t := by
  cases a with
  | boot seat =>
    simp only [LaunchState.step] at h
    split at h
    next hstate =>
      cases h
      exact .boot hstate
    · cases h
  | recoverNext seat =>
    simp only [LaunchState.step] at h
    split at h
    next hstate =>
      cases h
      exact .recovered hstate
    next record todo hstate =>
      split at h
      next hfree =>
        cases h
        exact .restores hstate hfree
      next holder hheld =>
        cases h
        exact .skips hstate hheld
    · cases h
  | recoverSet seat status =>
    simp only [LaunchState.step] at h
    split at h
    next record todo hstate =>
      cases h
      exact .restored hstate
    · cases h
  | preflight seat id prepared =>
    simp only [LaunchState.step] at h
    split at h
    next hstate =>
      cases h
      exact .preflight hstate
    · cases h
  | launch seat id ownerId expected =>
    simp only [LaunchState.step] at h
    split at h
    next p hp =>
      split_ifs at h
      cases h
      exact .launch hp
    · cases h
  | enter l =>
    simp only [LaunchState.step] at h
    split at h
    next seat p hl =>
      split at h
      · cases h
      next hbusy =>
        split at h
        next existing hrun =>
          split_ifs at h with hown
          · cases h
            exact .returns hl hrun hown
          · cases h
            exact .refused hl
        next hnone =>
          cases h
          exact .enters hl hbusy hnone
    · cases h
  | claim l =>
    simp only [LaunchState.step] at h
    split at h
    next seat p hl =>
      split at h
      next hnone =>
        cases h
        exact .claims hl hnone
      next existing hclaim =>
        split_ifs at h with hsame
        · cases h
          exact .adopts hl (hsame ▸ hclaim)
        · cases h
          exact .conflicts hl
    · cases h
  | acquire l =>
    simp only [LaunchState.step] at h
    split at h
    next seat p hl =>
      split at h
      next hfree =>
        cases h
        exact .acquires hl hfree
      · cases h
        exact .unavailable hl
    · cases h
  | createRunRecord l =>
    simp only [LaunchState.step] at h
    split at h
    next seat p hl =>
      split at h
      next hnone =>
        cases h
        exact .recordsRun hl hnone
      next existing hfound =>
        split_ifs at h with haccepts
        · cases h
          exact .findsRun hl hfound haccepts
        · cases h
          exact .otherRun hl
    · cases h
  | checkOut l =>
    simp only [LaunchState.step] at h
    split at h
    next seat p hl =>
      split_ifs at h with hreserved
      · cases h
        exact .reservedBefore hl
      · cases h
        exact .reserves hl hreserved
    · cases h
  | createAttemptRecord l =>
    simp only [LaunchState.step] at h
    split at h
    next seat p hl =>
      split at h
      · split_ifs at h
        · cases h
          exact .findsAttempt hl
        · cases h
          exact .otherAttempt hl
      · split_ifs at h
        · cases h
          exact .otherAttempt hl
        · cases h
          exact .recordsAttempt hl
    · cases h
  | execute l =>
    simp only [LaunchState.step] at h
    split at h
    next seat p hl =>
      cases h
      exact .executes hl
    · cases h
  | fail l removed =>
    simp only [LaunchState.step] at h
    split at h
    next launch hl =>
      split_ifs at h with hin hout
      · cases h
        rw [Bool.and_eq_true] at hout
        rw [hout.1]
        exact .failsRemoved hl hin hout.2
      · cases h
        exact .fails hl hin
    · cases h
  | removeSnapshot l =>
    simp only [LaunchState.step] at h
    split at h
    next seat p hl =>
      cases h
      exact .removes hl
    · cases h
  | settle l status =>
    simp only [LaunchState.step] at h
    split at h
    next seat p hl =>
      split_ifs at h with hstatus
      · cases h
        rw [hstatus]
        exact .blocks hl
      · cases h
        exact .settles hl hstatus
    · cases h
  | die seat =>
    cases h
    exact .die seat
  | otherTake runId =>
    simp only [LaunchState.step] at h
    split at h
    next hfree =>
      cases h
      exact .otherTakes hfree
    · cases h
  | otherFree runId =>
    cases h
    exact .otherFrees runId

theorem reserve_launches (s : LaunchState) (p : Prepared) :
    (s.reserve H p).launches = s.launches := by
  unfold LaunchState.reserve
  split <;> rfl

/-! ## Claims -/

/-- A run of an owner is that of the claim of its operation. -/
def Owned (H : Digests) (operations : String → Option OperationRecord)
    (requested : List (String × SubagentRequest)) (ownerId runId : String) : Prop :=
  ∃ p : Prepared, p.ownerId = ownerId ∧ p.runId H = runId ∧
    (p.ownerId, p.request) ∈ requested ∧ operations (p.key H) = some (p.claim H)

theorem Owned.mono {operations operations' : String → Option OperationRecord}
    {requested requested' : List (String × SubagentRequest)} {ownerId runId : String}
    (h : Owned H operations requested ownerId runId)
    (ho : ∀ k r, operations k = some r → operations' k = some r)
    (hr : ∀ x ∈ requested, x ∈ requested') : Owned H operations' requested' ownerId runId := by
  obtain ⟨p, hown, hrun, hreq, hop⟩ := h
  exact ⟨p, hown, hrun, hr _ hreq, ho _ _ hop⟩

/-- Everything that is known of a run is backed by the claim of its operation. -/
structure Registered (H : Digests) (s : LaunchState) : Prop where
  preflights : ∀ n id p, (s.seats n).preflights id = some p → (p.ownerId, p.request) ∈ s.requested
  launches : ∀ l launch, s.launches l = some launch →
    (launch.prepared.ownerId, launch.prepared.request) ∈ s.requested
  claims : ∀ l launch, s.launches l = some launch → launch.phase.claimHeld = true →
    s.operations (launch.prepared.key H) = some (launch.prepared.claim H)
  records : ∀ r ∈ s.runRecords, Owned H s.operations s.requested r.ownerId r.runId
  pending : ∀ n, ∀ r ∈ (s.seats n).state.pending, r ∈ s.runRecords
  memory : ∀ n rid run, (s.seats n).runs rid = some run →
    run.runId = rid ∧ Owned H s.operations s.requested run.ownerId rid
  handed : ∀ e ∈ s.handed, ∃ p : Prepared, s.operations (p.key H) = some (p.claim H) ∧
    p.ownerId = e.ownerId ∧ p.request.operationId = e.operationId ∧ p.runId H = e.runId
  receipts : ∀ r ∈ s.receipts, (r.ownerId, r.request) ∈ s.requested ∧
    r.runId = (deterministicIds H r.ownerId r.request).runId ∧
    Owned H s.operations s.requested r.ownerId r.runId

theorem emptyStore_registered : emptyStore.Registered H where
  preflights := fun _ _ _ h => by cases h
  launches := fun _ _ h => by cases h
  claims := fun _ _ h => by cases h
  records := fun _ h => by cases h
  pending := fun _ _ h => by cases h
  memory := fun _ _ _ h => by cases h
  handed := fun _ h => by cases h
  receipts := fun _ h => by cases h

theorem Registered.owned (hs : s.Registered H) {l : ℕ} {launch : Launch}
    (hl : s.launches l = some launch) (hc : launch.phase.claimHeld = true) :
    Owned H s.operations s.requested launch.prepared.ownerId (launch.prepared.runId H) :=
  ⟨launch.prepared, rfl, rfl, hs.launches l launch hl, hs.claims l launch hl hc⟩

theorem Registered.setSeat (hs : s.Registered H) {n : ℕ} {v : Service}
    (hp : ∀ id p, v.preflights id = some p → (p.ownerId, p.request) ∈ s.requested)
    (hpend : ∀ r ∈ v.state.pending, r ∈ s.runRecords)
    (hruns : ∀ rid run, v.runs rid = some run →
      run.runId = rid ∧ Owned H s.operations s.requested run.ownerId rid) :
    (s.setSeat n v).Registered H :=
  { hs with
    preflights := by
      intro k id p hk
      by_cases hkn : k = n
      · simp only [LaunchState.setSeat, if_pos hkn] at hk
        exact hp id p hk
      · simp only [LaunchState.setSeat, if_neg hkn] at hk
        exact hs.preflights k id p hk
    pending := by
      intro k r hr
      by_cases hkn : k = n
      · simp only [LaunchState.setSeat, if_pos hkn] at hr
        exact hpend r hr
      · simp only [LaunchState.setSeat, if_neg hkn] at hr
        exact hs.pending k r hr
    memory := by
      intro k rid run hk
      by_cases hkn : k = n
      · simp only [LaunchState.setSeat, if_pos hkn] at hk
        exact hruns rid run hk
      · simp only [LaunchState.setSeat, if_neg hkn] at hk
        exact hs.memory k rid run hk }

/-- A seat goes on with its start-up, or enters or leaves `runExclusive`. -/
theorem Registered.setState (hs : s.Registered H) {n : ℕ} {busy : Option ℕ}
    (state : ServiceState) (hpend : ∀ r ∈ state.pending, r ∈ s.runRecords) :
    (s.setSeat n { s.seats n with state := state, busy := busy }).Registered H :=
  hs.setSeat (hs.preflights n) hpend (hs.memory n)

theorem Registered.setLaunch (hs : s.Registered H) {l : ℕ} {v : Launch}
    (hreq : (v.prepared.ownerId, v.prepared.request) ∈ s.requested)
    (hc : v.phase.claimHeld = true →
      s.operations (v.prepared.key H) = some (v.prepared.claim H)) :
    (s.setLaunch l v).Registered H :=
  { hs with
    launches := by
      intro k launch hk
      simp only [LaunchState.setLaunch] at hk
      split_ifs at hk
      · rw [← Option.some.inj hk]
        exact hreq
      · exact hs.launches k launch hk
    claims := by
      intro k launch hk hclaim
      simp only [LaunchState.setLaunch] at hk
      split_ifs at hk
      · rw [← Option.some.inj hk] at hclaim ⊢
        exact hc hclaim
      · exact hs.claims k launch hk hclaim }

theorem Registered.moveTo (hs : s.Registered H) {l : ℕ} {launch : Launch}
    (hl : s.launches l = some launch) (phase : LaunchPhase)
    (hc : phase.claimHeld = true → launch.phase.claimHeld = true) :
    (s.moveTo l launch phase).Registered H :=
  hs.setLaunch (hs.launches l launch hl) fun hp => hs.claims l launch hl (hc hp)

theorem Registered.leave (hs : s.Registered H) {l : ℕ} {launch : Launch}
    (hl : s.launches l = some launch) : (s.leave l launch).Registered H :=
  (hs.moveTo hl .over fun hc => Bool.noConfusion hc).setState _ (hs.pending _)

theorem Registered.release (hs : s.Registered H) (runId : String) (holder : LeaseHolder) :
    (s.release runId holder).Registered H := { hs with }

theorem Registered.setLease (hs : s.Registered H) (runId : String) (holder : LeaseHolder) :
    (s.setLease runId holder).Registered H := { hs with }

theorem Registered.abort (hs : s.Registered H) {l : ℕ} {launch : Launch}
    (hl : s.launches l = some launch) : (s.abort H l launch).Registered H :=
  (hs.leave hl).release _ _

theorem Registered.dropSnapshot (hs : s.Registered H) (attemptId : String) :
    (s.dropSnapshot attemptId).Registered H := { hs with }

theorem Registered.reserve (hs : s.Registered H) (p : Prepared) :
    (s.reserve H p).Registered H := by
  unfold LaunchState.reserve
  split <;> exact { hs with }

theorem Registered.grow (hs : s.Registered H) (operations : String → Option OperationRecord)
    (requested : List (String × SubagentRequest))
    (ho : ∀ k r, s.operations k = some r → operations k = some r)
    (hr : ∀ x ∈ s.requested, x ∈ requested) :
    Registered H { s with operations := operations, requested := requested } where
  preflights := fun n id p h => hr _ (hs.preflights n id p h)
  launches := fun l launch h => hr _ (hs.launches l launch h)
  claims := fun l launch h hc => ho _ _ (hs.claims l launch h hc)
  records := fun r h => (hs.records r h).mono ho hr
  pending := hs.pending
  memory := fun n rid run h => ⟨(hs.memory n rid run h).1, (hs.memory n rid run h).2.mono ho hr⟩
  handed := fun e h => by
    obtain ⟨p, hop, he⟩ := hs.handed e h
    exact ⟨p, ho _ _ hop, he⟩
  receipts := fun r h => by
    obtain ⟨hreq, hid, hown⟩ := hs.receipts r h
    exact ⟨hr _ hreq, hid, hown.mono ho hr⟩

theorem Registered.addReceipt (hs : s.Registered H) {r : Receipt}
    (hr : (r.ownerId, r.request) ∈ s.requested ∧
      r.runId = (deterministicIds H r.ownerId r.request).runId ∧
      Owned H s.operations s.requested r.ownerId r.runId) :
    Registered H { s with receipts := r :: s.receipts } :=
  { hs with
    receipts := by
      intro r' hr'
      rcases List.mem_cons.mp hr' with rfl | hr'
      · exact hr
      · exact hs.receipts r' hr' }

theorem Registered.addRunRecord (hs : s.Registered H) {r : RunRecord}
    (hr : Owned H s.operations s.requested r.ownerId r.runId) :
    Registered H { s with runRecords := s.runRecords ++ [r] } :=
  { hs with
    records := by
      intro r' hr'
      rcases List.mem_append.mp hr' with hr' | hr'
      · exact hs.records r' hr'
      · rw [List.mem_singleton.mp hr']
        exact hr
    pending := fun n r' hr' => List.mem_append_left _ (hs.pending n r' hr') }

theorem Registered.handOver (hs : s.Registered H) {l : ℕ} {launch : Launch}
    (hl : s.launches l = some launch) (hc : launch.phase.claimHeld = true) :
    (s.handOver H l launch).Registered H := by
  have hown := hs.owned hl hc
  have hmoved : (s.moveTo l launch .running).Registered H :=
    hs.moveTo hl .running fun _ => hc
  have hseat := hmoved.setSeat (n := launch.seat) (v := { s.seats launch.seat with
      busy := none
      runs := fun r => if r = launch.prepared.runId H then
        some ⟨launch.prepared.ownerId, launch.prepared.runId H, launch.prepared.attemptId H, .active⟩
        else (s.seats launch.seat).runs r }) (hs.preflights _) (hs.pending _) (by
    intro rid run hrun
    dsimp only at hrun
    split_ifs at hrun with hrid
    · rw [← Option.some.inj hrun, hrid]
      exact ⟨rfl, hown⟩
    · exact hs.memory _ rid run hrun)
  exact { hseat with
    handed := by
      intro e he
      rcases List.mem_cons.mp he with rfl | he
      · exact ⟨launch.prepared, hs.claims l launch hl hc, rfl, rfl, rfl⟩
      · exact hs.handed e he
    receipts := by
      intro r hr
      rcases List.mem_cons.mp hr with rfl | hr
      · exact ⟨hs.launches l launch hl, rfl, hown⟩
      · exact hs.receipts r hr }

theorem Registered.setStatus (hs : s.Registered H) (n : ℕ) (runId : String) (status : RunStatus) :
    (s.setStatus n runId status).Registered H := by
  refine hs.setSeat (hs.preflights n) (hs.pending n) ?_
  intro rid run hrun
  dsimp only at hrun
  split_ifs at hrun with hrid
  · obtain ⟨old, hold, rfl⟩ := Option.map_eq_some_iff.mp hrun
    exact hs.memory n rid old hold
  · exact hs.memory n rid run hrun

theorem die_launch {seat l : ℕ} {launch : Launch} (h : (s.die seat).launches l = some launch) :
    ∃ old, s.launches l = some old ∧ launch.prepared = old.prepared ∧
      (launch.phase = .over ∨ old.seat ≠ seat ∧ launch = old) := by
  obtain ⟨old, hold, he⟩ := Option.map_eq_some_iff.mp h
  split_ifs at he with hseat
  · rw [← he]
    exact ⟨old, hold, rfl, Or.inl rfl⟩
  · rw [← he]
    exact ⟨old, hold, rfl, Or.inr ⟨hseat, rfl⟩⟩

theorem die_seat (s : LaunchState) (seat n : ℕ) :
    (s.die seat).seats n = if n = seat then Service.down else s.seats n := rfl

theorem Registered.die (hs : s.Registered H) (seat : ℕ) : (s.die seat).Registered H :=
  { hs with
    preflights := by
      intro n id p h
      rw [die_seat] at h
      split_ifs at h
      · cases h
      · exact hs.preflights n id p h
    launches := by
      intro l launch h
      obtain ⟨old, hold, hp, -⟩ := die_launch h
      rw [hp]
      exact hs.launches l old hold
    claims := by
      intro l launch h hc
      obtain ⟨old, hold, hp, hover | ⟨-, rfl⟩⟩ := die_launch h
      · rw [hover] at hc
        exact Bool.noConfusion hc
      · exact hs.claims l launch hold hc
    pending := by
      intro n r h
      rw [die_seat] at h
      split_ifs at h
      · cases h
      · exact hs.pending n r h
    memory := by
      intro n rid run h
      rw [die_seat] at h
      split_ifs at h
      · cases h
      · exact hs.memory n rid run h }

/-- **Every step keeps what is known of a run backed by a claim.** -/
theorem Registered.step (hs : s.Registered H) {a : LaunchAct} (h : s.step H a = some t) :
    t.Registered H := by
  cases step_move h with
  | boot =>
    refine hs.setSeat (fun id p hp => ?_) (fun r hr => hr) fun rid run hrun => ?_
    · cases hp
    · cases hrun
  | recovered => exact hs.setState .ready fun r hr => by cases hr
  | @restores seat record todo hstate =>
    refine (hs.setState (.restoring record todo) fun r hr => ?_).setLease _ _
    exact hs.pending seat r (by rw [hstate]; exact hr)
  | @skips seat record todo _ hstate =>
    refine hs.setState (.recovering todo) fun r hr => ?_
    exact hs.pending seat r (by rw [hstate]; exact List.mem_cons_of_mem _ hr)
  | @restored seat _ record todo hstate =>
    have hpend : ∀ r ∈ record :: todo, r ∈ s.runRecords := fun r hr =>
      hs.pending seat r (by rw [hstate]; exact hr)
    refine Registered.release (hs.setSeat ?_ ?_ ?_) _ _
    · exact hs.preflights seat
    · exact fun r hr => hpend r (List.mem_cons_of_mem _ hr)
    · intro rid run hrun
      dsimp only at hrun
      split_ifs at hrun with hrid
      · rw [← Option.some.inj hrun, hrid]
        exact ⟨rfl, hs.records record (hpend record List.mem_cons_self)⟩
      · exact hs.memory seat rid run hrun
  | @preflight seat id prepared =>
    have hgrown := hs.grow s.operations ((prepared.ownerId, prepared.request) :: s.requested)
      (fun _ _ ho => ho) fun x hx => List.mem_cons_of_mem _ hx
    refine hgrown.setSeat (n := seat) ?_ (hs.pending seat) (hgrown.memory seat)
    intro n p hp
    dsimp only at hp
    split_ifs at hp with hn
    · rw [← Option.some.inj hp]
      exact List.mem_cons_self
    · exact hgrown.preflights seat n p hp
  | @launch seat id _ _ p hp =>
    have hnew : (s.setLaunch s.nextLaunch ⟨seat, p, .queued⟩).Registered H :=
      hs.setLaunch (hs.preflights seat id p hp) fun hc => Bool.noConfusion hc
    exact { hnew with }
  | @returns l seat p existing hl hrun hown =>
    have hover := hs.moveTo hl .over fun hc => Bool.noConfusion hc
    obtain ⟨hid, hmem⟩ := hs.memory seat _ existing hrun
    rw [hown, ← hid] at hmem
    exact hover.addReceipt ⟨hs.launches l _ hl, hid, hmem⟩
  | refused hl => exact hs.moveTo hl .over fun hc => Bool.noConfusion hc
  | @enters l seat p hl =>
    have hmoved := hs.moveTo hl .claiming fun hc => Bool.noConfusion hc
    exact hmoved.setSeat (n := seat) (hs.preflights seat) (hs.pending seat) (hs.memory seat)
  | @claims l seat p hl hnone =>
    have hrequested := hs.launches l _ hl
    have hgrown := hs.grow
      (fun k => if k = p.key H then some (p.claim H) else s.operations k) s.requested
      (fun k r hk => by
        have hne : k ≠ p.key H := by
          intro he
          rw [he, hnone] at hk
          cases hk
        rw [if_neg hne]
        exact hk) fun _ hx => hx
    exact hgrown.setLaunch hrequested fun _ => if_pos rfl
  | @adopts l seat p hl hclaim =>
    have hrequested := hs.launches l _ hl
    exact hs.setLaunch hrequested fun _ => hclaim
  | conflicts hl | unavailable hl => exact hs.leave hl
  | acquires hl => exact (hs.moveTo hl .leased fun _ => rfl).setLease _ _
  | recordsRun hl => exact (hs.moveTo hl .recorded fun _ => rfl).addRunRecord (hs.owned hl rfl)
  | findsRun hl => exact hs.moveTo hl .recorded fun _ => rfl
  | otherRun hl | reservedBefore hl | otherAttempt hl | fails hl => exact hs.abort hl
  | @reserves l seat p hl =>
    rw [← reserve_launches (H := H) s p] at hl
    exact (hs.reserve p).moveTo hl .reserved fun _ => rfl
  | recordsAttempt hl =>
    have hmoved := hs.moveTo hl .attempted fun _ => rfl
    exact { hmoved with }
  | findsAttempt hl => exact hs.moveTo hl .attempted fun _ => rfl
  | executes hl => exact hs.handOver hl rfl
  | failsRemoved hl => exact (hs.abort hl).dropSnapshot _
  | removes => exact hs.dropSnapshot _
  | blocks hl => exact (hs.setStatus _ _ _).moveTo hl .blocked fun _ => rfl
  | settles hl => exact ((hs.setStatus _ _ _).moveTo hl .over fun _ => rfl).release _ _
  | die seat => exact hs.die seat
  | otherTakes => exact hs.setLease _ _
  | otherFrees => exact hs.release _ _

/-! ## Leases -/

/-- A launch between `acquireRunLease` and the settlement has the run's lease. -/
structure Leased (H : Digests) (s : LaunchState) : Prop where
  fresh : ∀ l, s.nextLaunch ≤ l → s.launches l = none
  held : ∀ l launch, s.launches l = some launch → launch.phase.leaseHeld = true →
    s.leases (launch.prepared.runId H) = some (.launch l)

theorem emptyStore_leased : emptyStore.Leased H where
  fresh := fun _ _ => rfl
  held := fun _ _ h => by cases h

theorem Leased.lt_nextLaunch (hs : s.Leased H) {l : ℕ} {launch : Launch}
    (hl : s.launches l = some launch) : l < s.nextLaunch := by
  by_contra hle
  rw [hs.fresh l (Nat.le_of_not_lt hle)] at hl
  cases hl

/-- **Two launches do not have the lease of one run.** -/
theorem Leased.unique (hs : s.Leased H) {l l' : ℕ} {launch launch' : Launch}
    (hl : s.launches l = some launch) (hp : launch.phase.leaseHeld = true)
    (hl' : s.launches l' = some launch') (hp' : launch'.phase.leaseHeld = true)
    (hrun : launch.prepared.runId H = launch'.prepared.runId H) : l = l' := by
  have hlease := hs.held l launch hl hp
  rw [hrun, hs.held l' launch' hl' hp', Option.some.injEq, LeaseHolder.launch.injEq] at hlease
  exact hlease.symm

theorem Leased.setLaunch (hs : s.Leased H) {l : ℕ} {v : Launch} (hlt : l < s.nextLaunch)
    (hv : v.phase.leaseHeld = true → s.leases (v.prepared.runId H) = some (.launch l)) :
    (s.setLaunch l v).Leased H where
  fresh := by
    intro k hk
    have hle : s.nextLaunch ≤ k := hk
    have hne : k ≠ l := by omega
    simp only [LaunchState.setLaunch, if_neg hne]
    exact hs.fresh k hle
  held := by
    intro k launch hk hp
    simp only [LaunchState.setLaunch] at hk
    split_ifs at hk with hkl
    · obtain rfl := Option.some.inj hk
      rw [hkl]
      exact hv hp
    · exact hs.held k launch hk hp

theorem Leased.moveTo (hs : s.Leased H) {l : ℕ} {launch : Launch}
    (hl : s.launches l = some launch) (phase : LaunchPhase)
    (hp : phase.leaseHeld = true → launch.phase.leaseHeld = true) :
    (s.moveTo l launch phase).Leased H :=
  hs.setLaunch (hs.lt_nextLaunch hl) fun h => hs.held l launch hl (hp h)

theorem Leased.setSeat (hs : s.Leased H) (n : ℕ) (v : Service) : (s.setSeat n v).Leased H :=
  { hs with }

theorem Leased.leave (hs : s.Leased H) {l : ℕ} {launch : Launch}
    (hl : s.launches l = some launch) : (s.leave l launch).Leased H :=
  (hs.moveTo hl .over fun h => Bool.noConfusion h).setSeat _ _

theorem Leased.release (hs : s.Leased H) (runId : String) {holder : LeaseHolder}
    (hfree : ∀ l launch, s.launches l = some launch → launch.phase.leaseHeld = true →
      launch.prepared.runId H = runId → holder ≠ .launch l) :
    (s.release runId holder).Leased H where
  fresh := hs.fresh
  held := by
    intro l launch hl hp
    have hlease := hs.held l launch hl hp
    have hne : ¬(launch.prepared.runId H = runId ∧
        s.leases (launch.prepared.runId H) = some holder) := by
      rintro ⟨hrun, hold⟩
      rw [hlease, Option.some.injEq] at hold
      exact hfree l launch hl hp hrun hold.symm
    simp only [LaunchState.release, if_neg hne]
    exact hlease

theorem Leased.abort (hs : s.Leased H) {l : ℕ} {launch : Launch}
    (hl : s.launches l = some launch) : (s.abort H l launch).Leased H := by
  refine (hs.leave hl).release _ fun k launch' hk hp _ => ?_
  simp only [LaunchState.leave, LaunchState.setSeat, LaunchState.moveTo,
    LaunchState.setLaunch] at hk
  split_ifs at hk with hkl
  · rw [← Option.some.inj hk] at hp
    exact Bool.noConfusion hp
  · rw [ne_eq, LeaseHolder.launch.injEq]
    exact fun he => hkl he.symm

theorem Leased.setLease (hs : s.Leased H) {runId : String} (holder : LeaseHolder)
    (hfree : s.leases runId = none) : (s.setLease runId holder).Leased H where
  fresh := hs.fresh
  held := by
    intro l launch hl hp
    have hlease := hs.held l launch hl hp
    have hne : launch.prepared.runId H ≠ runId := by
      intro he
      rw [he, hfree] at hlease
      cases hlease
    simp only [LaunchState.setLease, if_neg hne]
    exact hlease

theorem Leased.acquire (hs : s.Leased H) {l : ℕ} {launch : Launch}
    (hl : s.launches l = some launch) (phase : LaunchPhase)
    (hfree : s.leases (launch.prepared.runId H) = none) :
    ((s.moveTo l launch phase).setLease (launch.prepared.runId H) (.launch l)).Leased H := by
  have hset := hs.setLease (.launch l) hfree
  exact hset.setLaunch (hs.lt_nextLaunch hl) fun _ => if_pos rfl

theorem Leased.die (hs : s.Leased H) (seat : ℕ) : (s.die seat).Leased H where
  fresh := by
    intro l hl
    change (s.launches l).map _ = none
    rw [hs.fresh l hl]
    rfl
  held := by
    intro l launch hl hp
    obtain ⟨old, hold, -, hover | ⟨hseat, rfl⟩⟩ := die_launch hl
    · rw [hover] at hp
      exact Bool.noConfusion hp
    · have hlease := hs.held l launch hold hp
      have hany : ¬(s.launches l).any (fun launch => launch.seat = seat) = true := by
        rw [hold, Option.any_some, decide_eq_true_eq]
        exact hseat
      simp only [LaunchState.die, hlease, if_neg hany]

theorem Leased.reserve (hs : s.Leased H) (p : Prepared) : (s.reserve H p).Leased H := by
  unfold LaunchState.reserve
  split <;> exact { hs with }

/-- **Every step keeps the leases of the launches.** -/
theorem Leased.step (hs : s.Leased H) {a : LaunchAct} (h : s.step H a = some t) : t.Leased H := by
  cases step_move h with
  | boot | recovered | skips => exact hs.setSeat _ _
  | restores _ hfree => exact (hs.setSeat _ _).setLease _ hfree
  | restored => exact (hs.setSeat _ _).release _ fun l launch hl hp hr => LeaseHolder.noConfusion
  | preflight => exact { hs with }
  | @launch seat _ _ _ p =>
    have hgrown : Leased H { s with nextLaunch := s.nextLaunch + 1 } :=
      { hs with fresh := fun k hk => hs.fresh k (Nat.le_of_succ_le hk) }
    have hnew := hgrown.setLaunch (v := ⟨seat, p, .queued⟩) (Nat.lt_succ_self s.nextLaunch)
      fun hq => Bool.noConfusion hq
    exact { hnew with }
  | returns hl =>
    have hover := hs.moveTo hl .over fun hp => Bool.noConfusion hp
    exact { hover with }
  | refused hl => exact hs.moveTo hl .over fun hp => Bool.noConfusion hp
  | enters hl => exact (hs.moveTo hl .claiming fun hp => Bool.noConfusion hp).setSeat _ _
  | claims hl =>
    have hmoved := hs.moveTo hl .claimed fun hp => Bool.noConfusion hp
    exact { hmoved with }
  | adopts hl => exact hs.moveTo hl .claimed fun hp => Bool.noConfusion hp
  | conflicts hl | unavailable hl => exact hs.leave hl
  | acquires hl hfree => exact hs.acquire hl .leased hfree
  | recordsRun hl =>
    have hmoved := hs.moveTo hl .recorded fun _ => rfl
    exact { hmoved with }
  | findsRun hl => exact hs.moveTo hl .recorded fun _ => rfl
  | otherRun hl | reservedBefore hl | otherAttempt hl | fails hl => exact hs.abort hl
  | @reserves l seat p hl =>
    rw [← reserve_launches (H := H) s p] at hl
    exact (hs.reserve p).moveTo hl .reserved fun _ => rfl
  | recordsAttempt hl =>
    have hmoved := hs.moveTo hl .attempted fun _ => rfl
    exact { hmoved with }
  | findsAttempt hl => exact hs.moveTo hl .attempted fun _ => rfl
  | executes hl => exact { hs.moveTo hl .running fun _ => rfl with }
  | failsRemoved hl => exact { hs.abort hl with }
  | removes => exact { hs with }
  | @blocks l seat p hl =>
    have hset : (s.setStatus seat (p.runId H) .cleanupBlocked).Leased H := hs.setSeat _ _
    exact hset.moveTo hl .blocked fun _ => rfl
  | settles hl => exact { hs.abort hl with }
  | die seat => exact hs.die seat
  | otherTakes hfree => exact hs.setLease _ hfree
  | otherFrees => exact hs.release _ fun l launch hl hp hr => LeaseHolder.noConfusion

/-! ## Handing over -/

/-- The attempt of a run has not been handed to the executor. -/
def NotHanded (s : LaunchState) (runId : String) : Prop := ∀ e ∈ s.handed, e.runId ≠ runId

instance (runId : String) : Decidable (s.NotHanded runId) := by
  unfold NotHanded
  infer_instance

/-- The launch will be refused under the lease: the run's record is of another launch, or the
checkout of the attempt has been reserved. -/
def refuses (H : Digests) (s : LaunchState) (p : Prepared) : Bool :=
  (s.runRecord? (p.runId H)).any (fun existing => !p.acceptsRunRecord existing) || s.isReserved H p

/-- A condition on the seat and the request of a launch that is about to take the lease. -/
def AtLease (s : LaunchState) (C : ℕ → Prepared → Prop) : LaunchAct → Prop
  | .acquire l =>
    match s.launches l with
    | some ⟨seat, p, .claimed⟩ => C seat p
    | _ => True
  | _ => True

instance (C : ℕ → Prepared → Prop) [∀ seat p, Decidable (C seat p)] (a : LaunchAct) :
    Decidable (s.AtLease C a) := by
  unfold AtLease
  split
  · split <;> infer_instance
  · infer_instance

/-- A launch that acquires the lease of a run hands its attempt to the executor for the first time,
or will be refused. -/
def FirstHandOver (H : Digests) (s : LaunchState) : LaunchAct → Prop :=
  s.AtLease fun _ p => s.leases (p.runId H) = none →
    s.NotHanded (p.runId H) ∨ s.refuses H p = true

instance (a : LaunchAct) : Decidable (s.FirstHandOver H a) := by
  unfold FirstHandOver
  infer_instance

/-- What holds of a launch on its way to the executor. -/
def Ahead (H : Digests) (s : LaunchState) (p : Prepared) : LaunchPhase → Prop
  | .leased => s.NotHanded (p.runId H) ∨ s.refuses H p = true
  | .recorded => s.NotHanded (p.runId H) ∨ s.isReserved H p = true
  | .reserved | .attempted => s.NotHanded (p.runId H)
  | _ => True

/-- No attempt has been handed over twice, nor will one be by a launch that has the lease. -/
structure Once (H : Digests) (s : LaunchState) : Prop where
  ahead : ∀ l launch, s.launches l = some launch → Ahead H s launch.prepared launch.phase
  once : s.handed.Pairwise fun a b => a.runId ≠ b.runId

theorem emptyStore_once : emptyStore.Once H where
  ahead := fun _ _ h => by cases h
  once := List.Pairwise.nil

theorem ahead_of_not_leaseHeld {p : Prepared} {phase : LaunchPhase}
    (hp : phase.leaseHeld ≠ true) : Ahead H s p phase := by
  cases phase <;> first
    | exact trivial
    | exact absurd rfl hp

theorem Ahead.mono {p : Prepared} {phase : LaunchPhase} (ha : Ahead H s p phase)
    (hhand : s.NotHanded (p.runId H) → t.NotHanded (p.runId H))
    (hrec : ∀ r, s.runRecord? (p.runId H) = some r → t.runRecord? (p.runId H) = some r)
    (hres : s.isReserved H p = true → t.isReserved H p = true) : Ahead H t p phase := by
  cases phase with
  | leased =>
    refine ha.imp hhand fun hr => ?_
    rw [refuses, Bool.or_eq_true] at hr ⊢
    refine hr.imp (fun hany => ?_) hres
    rw [Option.any_eq_true] at hany ⊢
    obtain ⟨r, hr, hacc⟩ := hany
    exact ⟨r, hrec r hr, hacc⟩
  | recorded => exact ha.imp hhand hres
  | reserved => exact hhand ha
  | attempted => exact hhand ha
  | _ => exact trivial

/-- The identities of a run and of its initial attempt tell the same. -/
theorem runId_eq_of_attemptId {p q : Prepared} (h : p.attemptId H = q.attemptId H) :
    p.runId H = q.runId H := by
  have happ : "attempt_" ++ String.ofList ((H.identity p.ownerId p.request).toList.take 48) =
      "attempt_" ++ String.ofList ((H.identity q.ownerId q.request).toList.take 48) := h
  have hcut := congrArg String.toList happ
  rw [String.toList_append, String.toList_append, List.append_cancel_left_eq] at hcut
  exact congrArg ("run_" ++ ·) (String.toList_inj.mp hcut)

theorem Once.of_files (hs : s.Once H) (hlaunch : t.launches = s.launches)
    (hhand : t.handed = s.handed)
    (hrec : ∀ rid r, s.runRecord? rid = some r → t.runRecord? rid = some r)
    (hres : ∀ l launch, s.launches l = some launch → launch.phase.leaseHeld = true →
      s.isReserved H launch.prepared = true → t.isReserved H launch.prepared = true) :
    t.Once H where
  ahead := by
    intro l launch hl
    rw [hlaunch] at hl
    by_cases hp : launch.phase.leaseHeld = true
    · refine (hs.ahead l launch hl).mono (fun hn => ?_) (hrec _) (hres l launch hl hp)
      unfold NotHanded at hn ⊢
      rw [hhand]
      exact hn
    · exact ahead_of_not_leaseHeld hp
  once := by
    rw [hhand]
    exact hs.once

theorem Once.setSeat (hs : s.Once H) (n : ℕ) (v : Service) : (s.setSeat n v).Once H := { hs with }

theorem Once.setLease (hs : s.Once H) (runId : String) (holder : LeaseHolder) :
    (s.setLease runId holder).Once H := { hs with }

theorem Once.release (hs : s.Once H) (runId : String) (holder : LeaseHolder) :
    (s.release runId holder).Once H := { hs with }

theorem Once.setLaunch (hs : s.Once H) {l : ℕ} {v : Launch} (hv : Ahead H s v.prepared v.phase) :
    (s.setLaunch l v).Once H where
  ahead := by
    intro k launch hk
    simp only [LaunchState.setLaunch] at hk
    split_ifs at hk
    · obtain rfl := Option.some.inj hk
      exact hv
    · exact hs.ahead k launch hk
  once := hs.once

theorem Once.moveTo (hs : s.Once H) {l : ℕ} {launch : Launch} (phase : LaunchPhase)
    (hv : Ahead H s launch.prepared phase) : (s.moveTo l launch phase).Once H :=
  hs.setLaunch hv

theorem Once.leave (hs : s.Once H) (l : ℕ) (launch : Launch) : (s.leave l launch).Once H :=
  (hs.moveTo .over trivial).setSeat _ _

theorem Once.abort (hs : s.Once H) (l : ℕ) (launch : Launch) : (s.abort H l launch).Once H :=
  (hs.leave l launch).release _ _

/-- The snapshot of one attempt is removed: no other launch that has a lease needs it. -/
theorem Once.dropSnapshot (hs : s.Once H) {p : Prepared}
    (hother : ∀ l launch, s.launches l = some launch → launch.phase.leaseHeld = true →
      launch.prepared.runId H = p.runId H →
      launch.phase ≠ .leased ∧ launch.phase ≠ .recorded) :
    (s.dropSnapshot (p.attemptId H)).Once H where
  ahead := by
    intro l launch hl
    have hold := hs.ahead l launch hl
    by_cases hsame : launch.prepared.attemptId H = p.attemptId H
    · by_cases hp : launch.phase.leaseHeld = true
      · have hno := hother l launch hl hp (runId_eq_of_attemptId hsame)
        cases hphase : launch.phase with
        | leased => exact absurd hphase hno.1
        | recorded => exact absurd hphase hno.2
        | reserved | attempted =>
          rw [hphase] at hold
          exact hold
        | _ => exact trivial
      · exact ahead_of_not_leaseHeld hp
    · refine hold.mono (fun hn => hn) (fun r hr => hr) fun hres => ?_
      unfold isReserved at hres ⊢
      split at hres
      · exact hres
      · simp only [LaunchState.dropSnapshot, decide_eq_true_eq, List.mem_filter] at hres ⊢
        exact ⟨hres, hsame⟩
      · exact hres
  once := hs.once

theorem isReserved_reserve {p q : Prepared} (h : s.isReserved H q = true) :
    (s.reserve H p).isReserved H q = true := by
  unfold isReserved at h ⊢
  unfold LaunchState.reserve
  split at h
  · split <;> simp_all
  · split <;> simp_all
  · cases h

/-- The attempt of a launch that nobody else can hand over is handed over. -/
theorem Once.handOver (hs : s.Once H) (hl : s.Leased H) {l seat : ℕ} {p : Prepared}
    (h : s.launches l = some ⟨seat, p, .attempted⟩) :
    (s.handOver H l ⟨seat, p, .attempted⟩).Once H where
  ahead := by
    intro k launch hk
    have hk' : (if k = l then some ⟨seat, p, .running⟩ else s.launches k) = some launch := hk
    split_ifs at hk' with hkl
    · rw [← Option.some.inj hk']
      exact trivial
    · by_cases hp : launch.phase.leaseHeld = true
      · have hne : launch.prepared.runId H ≠ p.runId H := fun he =>
          hkl (hl.unique hk' hp h rfl he)
        refine (hs.ahead k launch hk').mono (fun hn => ?_) (fun r hr => hr) fun hr => hr
        intro e he
        rcases List.mem_cons.mp he with rfl | he
        · exact fun hrun => hne hrun.symm
        · exact hn e he
      · exact ahead_of_not_leaseHeld hp
  once := by
    have hnot : s.NotHanded (p.runId H) := hs.ahead l _ h
    exact List.Pairwise.cons (fun e he => fun hrun => hnot e he hrun.symm) hs.once

theorem Once.die (hs : s.Once H) (seat : ℕ) : (s.die seat).Once H where
  ahead := by
    intro l launch h
    obtain ⟨old, hold, -, hover | ⟨-, rfl⟩⟩ := die_launch h
    · rw [hover]
      exact trivial
    · exact hs.ahead l launch hold
  once := hs.once

end LaunchState

theorem LaunchPhase.of_checkedOut {phase : LaunchPhase} (h : phase.checkedOut = true) :
    phase.leaseHeld = true ∧ phase ≠ .leased ∧ phase ≠ .recorded := by
  cases phase <;> first
    | exact Bool.noConfusion h
    | decide

namespace LaunchState

variable {H : Digests} {s t : LaunchState}

/-- No launch but `l` has the lease of its run. -/
theorem Leased.other (hs : s.Leased H) {l : ℕ} {launch : Launch} (hl : s.launches l = some launch)
    (hp : launch.phase.leaseHeld = true) (hne : launch.phase ≠ .leased ∧ launch.phase ≠ .recorded)
    (k : ℕ) (other : Launch) (hk : s.launches k = some other)
    (hkp : other.phase.leaseHeld = true)
    (hrun : other.prepared.runId H = launch.prepared.runId H) :
    other.phase ≠ .leased ∧ other.phase ≠ .recorded := by
  have hkl : k = l := hs.unique hk hkp hl hp hrun
  rw [hkl, hl] at hk
  rw [← Option.some.inj hk]
  exact hne

/-- **Every step that hands an attempt over for the first time keeps it so.** -/
theorem Once.step (hs : s.Once H) (hlease : s.Leased H) {a : LaunchAct}
    (hok : s.FirstHandOver H a) (h : s.step H a = some t) : t.Once H := by
  cases step_move h with
  | boot | recovered | skips => exact hs.setSeat _ _
  | restores => exact (hs.setSeat _ _).setLease _ _
  | restored => exact (hs.setSeat _ _).release _ _
  | preflight => exact { hs with }
  | @launch seat _ _ _ p =>
    have hnew : (s.setLaunch s.nextLaunch ⟨seat, p, .queued⟩).Once H := hs.setLaunch trivial
    exact { hnew with }
  | @returns l seat p =>
    have hover : (s.moveTo l ⟨seat, p, .queued⟩ .over).Once H := hs.moveTo .over trivial
    exact { hover with }
  | refused => exact hs.moveTo .over trivial
  | enters => exact (hs.moveTo .claiming trivial).setSeat _ _
  | @claims l seat p =>
    have hmoved : (s.moveTo l ⟨seat, p, .claiming⟩ .claimed).Once H := hs.moveTo .claimed trivial
    exact { hmoved with }
  | adopts => exact hs.moveTo .claimed trivial
  | conflicts | unavailable => exact hs.leave _ _
  | @acquires l seat p hl hfree =>
    rw [FirstHandOver, AtLease, hl] at hok
    have hmoved : (s.moveTo l ⟨seat, p, .claimed⟩ .leased).Once H :=
      hs.moveTo .leased (hok hfree)
    exact hmoved.setLease _ _
  | @recordsRun l seat p hl hnone =>
    -- No record is there: only the checkout can still be in the way.
    have hrec : s.NotHanded (p.runId H) ∨ s.isReserved H p = true := by
      have hold : s.NotHanded (p.runId H) ∨ s.refuses H p = true := hs.ahead l _ hl
      rw [refuses, hnone, Option.any_none, Bool.false_or] at hold
      exact hold
    have hmoved : (s.moveTo l ⟨seat, p, .leased⟩ .recorded).Once H := hs.moveTo .recorded hrec
    refine hmoved.of_files rfl rfl (fun rid r hr => ?_) fun _ _ _ _ hr => hr
    have hfind : s.runRecords.find? (·.runId = rid) = some r := hr
    change (s.runRecords ++ [p.runRecord H]).find? (·.runId = rid) = some r
    rw [List.find?_append, hfind]
    rfl
  | @findsRun l seat p existing hl hfound haccepts =>
    have hold : s.NotHanded (p.runId H) ∨ s.refuses H p = true := hs.ahead l _ hl
    rw [refuses, hfound, Option.any_some, haccepts, Bool.not_true, Bool.false_or] at hold
    exact hs.moveTo .recorded hold
  | otherRun | reservedBefore | otherAttempt | fails => exact hs.abort _ _
  | @reserves l seat p hl hfree =>
    have hold : s.NotHanded (p.runId H) ∨ s.isReserved H p = true := hs.ahead l _ hl
    have hmoved : (s.moveTo l ⟨seat, p, .recorded⟩ .reserved).Once H :=
      hs.moveTo .reserved (hold.resolve_right hfree)
    have hreserved : ((s.moveTo l ⟨seat, p, .recorded⟩ .reserved).reserve H p).Once H := by
      refine hmoved.of_files (reserve_launches _ _) ?_ (fun rid r hr => ?_)
        fun _ _ _ _ hr => isReserved_reserve hr
      · unfold LaunchState.reserve
        split <;> rfl
      · unfold LaunchState.reserve
        split <;> exact hr
    have hcomm : (s.reserve H p).moveTo l ⟨seat, p, .recorded⟩ .reserved =
        (s.moveTo l ⟨seat, p, .recorded⟩ .reserved).reserve H p := by
      unfold LaunchState.reserve
      split <;> rfl
    rw [hcomm]
    exact hreserved
  | @recordsAttempt l seat p hl =>
    have hnot : s.NotHanded (p.runId H) := hs.ahead l _ hl
    have hmoved : (s.moveTo l ⟨seat, p, .reserved⟩ .attempted).Once H :=
      hs.moveTo .attempted hnot
    exact { hmoved with }
  | @findsAttempt l seat p hl =>
    have hnot : s.NotHanded (p.runId H) := hs.ahead l _ hl
    exact hs.moveTo .attempted hnot
  | executes hl => exact hs.handOver hlease hl
  | @failsRemoved l launch hl _ hout =>
    have hphase := LaunchPhase.of_checkedOut hout
    have hdrop : (s.dropSnapshot (launch.prepared.attemptId H)).Once H :=
      hs.dropSnapshot (hlease.other hl hphase.1 hphase.2)
    exact hdrop.abort l launch
  | removes hl =>
    have hne : LaunchPhase.running ≠ .leased ∧ LaunchPhase.running ≠ .recorded := by decide
    have hother := hlease.other hl rfl hne
    exact hs.dropSnapshot hother
  | @blocks l seat p =>
    have hset : (s.setStatus seat (p.runId H) .cleanupBlocked).Once H := hs.setSeat _ _
    exact hset.moveTo .blocked trivial
  | @settles l seat p status =>
    have hset : (s.setStatus seat (p.runId H) status).Once H := hs.setSeat _ _
    have hover : ((s.setStatus seat (p.runId H) status).moveTo l ⟨seat, p, .running⟩ .over).Once H :=
      hset.moveTo .over trivial
    exact hover.release _ _
  | die seat => exact hs.die seat
  | otherTakes => exact hs.setLease _ _
  | otherFrees => exact hs.release _ _

/-! ## Runs -/

/-- Launching is idempotent: each operation's initial attempt has been handed over at most once,
its successful launches have returned one run, and they were launches of one request, the one that
has the claim. -/
structure Idempotent (H : Digests) (s : LaunchState) : Prop where
  once : s.handed.Pairwise fun a b => ¬(a.ownerId = b.ownerId ∧ a.operationId = b.operationId)
  sameRun : ∀ a ∈ s.receipts, ∀ b ∈ s.receipts, a.ownerId = b.ownerId →
    a.request.operationId = b.request.operationId → a.runId = b.runId
  sameRequest : ∀ a ∈ s.receipts, ∀ b ∈ s.receipts, a.ownerId = b.ownerId →
    a.request.operationId = b.request.operationId → a.request = b.request
  claimed : ∀ a ∈ s.receipts, ∃ claim,
    s.operations (H.recordKey a.ownerId a.request.operationId) = some claim ∧
      claim.requestSha256 = H.request a.request ∧ claim.runId = a.runId

/-- No two of the requests made so far have one run identity. -/
def Distinct (H : Digests) (s : LaunchState) : Prop :=
  ∀ x ∈ s.requested, ∀ y ∈ s.requested,
    (deterministicIds H x.1 x.2).runId = (deterministicIds H y.1 y.2).runId → x = y

/-- The claim of what a successful launch returned is that of its own request. -/
theorem Registered.receipt_claim (hs : s.Registered H) (hd : s.Distinct H) {r : Receipt}
    (hr : r ∈ s.receipts) :
    s.operations (H.recordKey r.ownerId r.request.operationId) = some
      ⟨r.ownerId, r.request.operationId, H.request r.request, r.runId⟩ := by
  obtain ⟨hreq, hid, p, hown, hrun, hpreq, hop⟩ := hs.receipts r hr
  have hids : (deterministicIds H p.ownerId p.request).runId =
      (deterministicIds H r.ownerId r.request).runId := hrun.trans hid
  obtain ⟨-, hsame⟩ := Prod.mk.inj (hd _ hpreq _ hreq hids)
  rw [Prepared.key, Prepared.claim, hrun, hown, hsame] at hop
  exact hop

theorem Once.idempotent (ho : s.Once H) (hs : s.Registered H) (hd : s.Distinct H) :
    s.Idempotent H where
  once := by
    refine ho.once.imp_of_mem fun {a b} ha hb hne hsame => ?_
    obtain ⟨p, hp, hpo, hpop, hpr⟩ := hs.handed a ha
    obtain ⟨q, hq, hqo, hqop, hqr⟩ := hs.handed b hb
    have hkey : p.key H = q.key H := by
      rw [Prepared.key, Prepared.key, hpo, hqo, hpop, hqop, hsame.1, hsame.2]
    rw [hkey, hq] at hp
    have hrun : (q.claim H).runId = (p.claim H).runId :=
      congrArg OperationRecord.runId (Option.some.inj hp)
    exact hne (hpr.symm.trans (hrun.symm.trans hqr))
  sameRun := by
    intro a ha b hb hown hop
    have hca := hs.receipt_claim hd ha
    rw [hown, hop, hs.receipt_claim hd hb] at hca
    exact (congrArg OperationRecord.runId (Option.some.inj hca)).symm
  sameRequest := by
    intro a ha b hb hown hop
    have hca := hs.receipt_claim hd ha
    rw [hown, hop, hs.receipt_claim hd hb] at hca
    have hrun : b.runId = a.runId := congrArg OperationRecord.runId (Option.some.inj hca)
    obtain ⟨hareq, haid, -⟩ := hs.receipts a ha
    obtain ⟨hbreq, hbid, -⟩ := hs.receipts b hb
    exact (Prod.mk.inj (hd _ hareq _ hbreq (haid.symm.trans (hrun.symm.trans hbid)))).2
  claimed := by
    intro a ha
    exact ⟨_, hs.receipt_claim hd ha, rfl, rfl⟩

end LaunchState

/-- **An operation has one run and one request.** -/
theorem launches_share_run (H : Digests) (acts : List LaunchAct) (t : LaunchState)
    (ht : exec (LaunchState.step H) emptyStore acts = some t) (hd : t.Distinct H)
    (a : Receipt) (ha : a ∈ t.receipts) :
    t.operations (H.recordKey a.ownerId a.request.operationId) = some
      ⟨a.ownerId, a.request.operationId, H.request a.request, a.runId⟩ := by
  have hs : t.Registered H :=
    exec_preserves (fun s => s.Registered H) (fun _ _ _ hs hstep => hs.step hstep)
      LaunchState.emptyStore_registered ht
  exact hs.receipt_claim hd ha

end PiSubagent
