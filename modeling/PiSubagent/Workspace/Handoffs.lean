import PiSubagent.Workspace.Worktree

/-!
# The hand-offs of the records

* `Sound`: every record is of its run and attempt, and its hand-off is a commit on the baseline that
  its ref pins.
* **`sound_create`**, **`sound_finalize`**, **`sound_release`**: wherever the scripts are left, the
  records are sound.
* `finalize_records`, `release_records`: what the scripts do to the records.
-/

namespace PiSubagent

open JsonText

namespace Worktree

open Scripts

variable {runId head : JsString} {r : Record} {c : JsString} {s t : Store}

/-- The records of a run are of the run, and every recorded hand-off has the baseline as its only
parent and is pinned by its ref. -/
structure Sound (runId head : JsString) (s : Store) : Prop where
  record : ∀ id r, s.records id = some (.written r) →
    r.attemptId = id ∧ r.runId = runId ∧ r.baselineHead = head
  handoff : ∀ id r, s.records id = some (.written r) → ∀ c, r.handoffCommit = some c →
    r.handoffRef = some (handoffRefName runId id) ∧ s.repo.refs (.handoff id) = some c ∧
      ∃ tree, s.repo.commits c = some ⟨tree, [head]⟩

/-- A step that writes no record keeps the hand-offs while their refs and commits stay. -/
theorem Sound.mono (h : Sound runId head s) (hrecords : t.records = s.records)
    (hrefs : ∀ id c, s.repo.refs (.handoff id) = some c → t.repo.refs (.handoff id) = some c)
    (hcommits : Git.Repository.Extends s.repo t.repo) : Sound runId head t := by
  constructor
  · intro id r hr
    rw [hrecords] at hr
    exact h.record id r hr
  · intro id r hr c hc
    rw [hrecords] at hr
    obtain ⟨href, hpin, tree, hcommit⟩ := h.handoff id r hr c hc
    exact ⟨href, hrefs id c hpin, tree, hcommits c _ hcommit⟩

theorem Sound.write (h : Sound runId head s) (hid : r.runId = runId) (hbase : r.baselineHead = head)
    (hhandoff : ∀ c, r.handoffCommit = some c →
      r.handoffRef = some (handoffRefName runId r.attemptId) ∧
        s.repo.refs (.handoff r.attemptId) = some c ∧
          ∃ tree, s.repo.commits c = some ⟨tree, [head]⟩) : Sound runId head (s.write r) := by
  have hcases : ∀ id r', (s.write r).records id = some (.written r') →
      (id = r.attemptId ∧ r' = r) ∨ s.records id = some (.written r') := by
    intro id r' hr'
    by_cases he : id = r.attemptId
    · subst he
      rw [s.write_self r] at hr'
      cases hr'
      exact Or.inl ⟨rfl, rfl⟩
    · rw [s.write_ne r he] at hr'
      exact Or.inr hr'
  constructor
  · intro id r' hr'
    rcases hcases id r' hr' with ⟨rfl, rfl⟩ | hr'
    · exact ⟨rfl, hid, hbase⟩
    · exact h.record id r' hr'
  · intro id r' hr' c hc
    rcases hcases id r' hr' with ⟨rfl, rfl⟩ | hr'
    · exact hhandoff c hc
    · exact h.handoff id r' hr' c hc

theorem Sound.reserve (h : Sound runId head s) (id : JsString) :
    Sound runId head
      { s with records := Function.update s.records id (some .reserved) } := by
  have hcases : ∀ id' r, Function.update s.records id (some .reserved) id' = some (.written r) →
      s.records id' = some (.written r) := by
    intro id' r hr
    by_cases he : id' = id
    · subst he
      rw [Function.update_self] at hr
      cases hr
    · rwa [Function.update_of_ne he] at hr
  exact ⟨fun id' r hr => h.record id' r (hcases id' r hr),
    fun id' r hr => h.handoff id' r (hcases id' r hr)⟩

/-! ## Creation -/

/-- **Wherever a creation is left, the records are sound.** -/
theorem sound_create (h : Sound runId head s) (hid : r.runId = runId) (hbase : r.baselineHead = head)
    (hnone : r.handoffCommit = none) (n : ℕ) :
    Sound runId head (advance n (createAttemptWorktree r) s).1 := by
  generalize hout : advance n (createAttemptWorktree r) s = out
  have hend := create_states r n s
  rw [hout] at hend
  have hadd : ∀ (u : Store) (tree : JsString), Sound runId head u → Sound runId head
      { u with repo := { u.repo with
        refs := Function.update u.repo.refs (.branch r.attemptId) (some r.start)
        worktrees := Function.update u.repo.worktrees r.attemptId
          (some ⟨.branch r.attemptId, tree, tree⟩) } } := by
    intro u tree hu
    refine hu.mono rfl ?_ (Git.Repository.Extends.refl u.repo)
    intro id c hc
    simpa using hc
  cases hend with
  | unreserved => exact h
  | reserved hnew => exact h.reserve r.attemptId
  | added tree hnew hpath href htree => exact hadd _ tree (h.reserve r.attemptId)
  | created tree hnew hpath href htree =>
    refine (hadd _ tree h).write hid hbase ?_
    intro c hc
    rw [hnone] at hc
    cases hc

/-- **What a creation does to the records**: nothing, or the new one is reserved or written. -/
theorem create_records (r : Record) (n : ℕ) (s : Store) :
    ((advance n (createAttemptWorktree r) s).1.records = s.records ∧
      (advance n (createAttemptWorktree r) s).2 = false) ∨
    (s.records r.attemptId = none ∧
      ∃ file, (advance n (createAttemptWorktree r) s).1.records =
          Function.update s.records r.attemptId (some file) ∧
        ((advance n (createAttemptWorktree r) s).2 = true ∧ file = .written r ∨
          (advance n (createAttemptWorktree r) s).2 = false ∧ file = .reserved)) := by
  have hend := create_states r n s
  generalize advance n (createAttemptWorktree r) s = out at hend
  cases hend with
  | unreserved => exact Or.inl ⟨rfl, rfl⟩
  | reserved hnew => exact Or.inr ⟨hnew, .reserved, rfl, Or.inr ⟨rfl, rfl⟩⟩
  | added tree hnew => exact Or.inr ⟨hnew, .reserved, rfl, Or.inr ⟨rfl, rfl⟩⟩
  | created tree hnew => exact Or.inr ⟨hnew, .written r, rfl, Or.inl ⟨rfl, rfl⟩⟩

/-! ## Finalization -/

/-- A finalization is left where its capture is, or where a worktree with nothing more to capture is
staged or removed. -/
inductive FinalizeEnd (s : Store) (r : Record) (c : JsString) : Store × Bool → Prop
  | unchecked : FinalizeEnd s r c (s, false)
  | staged (w : Git.Worktree JsString RefName) (h : Capturable s r w) :
      FinalizeEnd s r c (capturedAt s r c w 1, false)
  | cut (w : Git.Worktree JsString RefName) (h : Capturable s r w)
      (hnew : s.repo.commits c = none) (k : ℕ) (hlow : 2 ≤ k) (hhigh : k ≤ 5)
      (hchanges : hasChanges s r = true) : FinalizeEnd s r c (capturedAt s r c w k, false)
  | captured (w : Git.Worktree JsString RefName) (h : Capturable s r w)
      (hnew : s.repo.commits c = none) (hchanges : hasChanges s r = true) :
      FinalizeEnd s r c ({ capturedAt s r c w 5 with
        repo := { (capturedAt s r c w 5).repo with
          worktrees := Function.update (capturedAt s r c w 5).repo.worktrees r.attemptId none } },
        true)
  | unchanged (w : Git.Worktree JsString RefName) (h : Capturable s r w)
      (hchanges : hasChanges s r = false) :
      FinalizeEnd s r c ({ capturedAt s r c w 1 with
        repo := { (capturedAt s r c w 1).repo with
          worktrees := Function.update (capturedAt s r c w 1).repo.worktrees r.attemptId none } },
        true)

/-- **The states a finalization passes through.** -/
theorem finalize_states (s : Store) (r : Record) (c : JsString) (n : ℕ) :
    FinalizeEnd s r c (advance n (finalizeWorktreeHandoff s r c) s) := by
  unfold finalizeWorktreeHandoff
  by_cases hchanges : hasChanges s r = true
  · rw [if_pos hchanges]
    have hend := capture_states r c n s
    rcases advance_append_cases (captureWorktreeHandoff r c) [removeCleanWorktree (r.updated c)] s
      (n := n) with ⟨hfalse, hall⟩ | ⟨htrue, m, hall⟩
    · rw [hall]
      generalize advance n (captureWorktreeHandoff r c) s = out at hend hfalse
      cases hend with
      | unchecked => exact .unchecked
      | staged w h => exact .staged w h
      | cut w h hnew k hlow hhigh => exact .cut w h hnew k hlow (by omega) hchanges
      | captured w h hnew => cases hfalse
    · rw [hall]
      generalize advance n (captureWorktreeHandoff r c) s = out at hend htrue
      cases hend with
      | unchecked | staged | cut => cases htrue
      | captured w h hnew =>
        apply advance_cons_cases
        · exact .cut w h hnew 5 (by omega) (by omega) hchanges
        intro m t ht
        obtain ⟨-, -, rfl⟩ := removeCleanWorktree_cases ht
        rw [advance_nil]
        exact .captured w h hnew hchanges
  · rw [if_neg hchanges]
    apply advance_cons_cases
    · exact .unchecked
    intro m t ht
    obtain ⟨rfl, huncaptured, hat, hfree⟩ := checkBaseline_cases ht
    obtain ⟨w, hw, hb, hhead⟩ := Store.isAt_iff.mp hat
    have hcap : Capturable t r w := ⟨huncaptured, hw, hb, hhead, hfree⟩
    apply advance_cons_cases
    · exact .unchecked
    intro m u hu
    obtain ⟨repo, hr, rfl⟩ := Store.onRepo_cases hu
    obtain ⟨w', hw', rfl⟩ := Git.Repository.stageAll_cases hr
    rw [hw] at hw'
    cases hw'
    apply advance_cons_cases
    · exact .staged w hcap
    intro m v hv
    obtain ⟨-, -, rfl⟩ := removeCleanWorktree_cases hv
    rw [advance_nil]
    exact .unchanged w hcap (Bool.eq_false_iff.mpr hchanges)

theorem Sound.worktrees (h : Sound runId head s)
    (worktrees : JsString → Option (Git.Worktree JsString RefName)) :
    Sound runId head { s with repo := { s.repo with worktrees := worktrees } } :=
  h.mono rfl (fun _ _ hc => hc) (fun _ _ hc => hc)

theorem sound_capturedAt (h : Sound runId head s) {w : Git.Worktree JsString RefName}
    (hcap : Capturable s r w) (hnew : s.repo.commits c = none) (hid : r.runId = runId)
    (hbase : r.baselineHead = head) (k : ℕ) : Sound runId head (capturedAt s r c w k) := by
  have hcommit : ∀ u : Store, Sound runId head u → u.repo.commits c = none → Sound runId head
      { u with repo := { u.repo with
        commits := Function.update u.repo.commits c (some ⟨w.files, [r.baselineHead]⟩) } } := by
    intro u hs hu
    refine hs.mono rfl (fun _ _ hc => hc) ?_
    intro other commit hother
    have hne : other ≠ c := by
      rintro rfl
      rw [hu] at hother
      cases hother
    show Function.update u.repo.commits c _ other = _
    rw [Function.update_of_ne hne]
    exact hother
  have hbranch : ∀ u : Store, Sound runId head u → Sound runId head
      { u with repo := { u.repo with
        refs := Function.update u.repo.refs (.branch r.attemptId) (some c) } } := by
    intro u hs
    refine hs.mono rfl ?_ (fun _ _ hc => hc)
    intro id c' hc'
    simpa using hc'
  have hpin : ∀ u : Store, Sound runId head u → u.repo.refs (.handoff r.attemptId) = none →
      Sound runId head { u with repo := { u.repo with
        refs := Function.update u.repo.refs (.handoff r.attemptId) (some c) } } := by
    intro u hs hfree
    refine hs.mono rfl ?_ (fun _ _ hc => hc)
    intro id c' hc'
    have hne : id ≠ r.attemptId := by
      rintro rfl
      rw [hfree] at hc'
      cases hc'
    simpa [hne] using hc'
  have h1 := h.worktrees (Function.update s.repo.worktrees r.attemptId
    (some { w with index := w.files }))
  have h2 := hcommit _ h1 hnew
  have h3 := hbranch _ h2
  have h4 := hpin _ h3 (by simpa using hcap.free)
  match k with
  | 0 => exact h
  | 1 => exact h1
  | 2 => exact h2
  | 3 => exact h3
  | 4 => exact h4
  | k + 5 =>
    refine Sound.write h4 hid hbase ?_
    intro c' hc'
    cases hc'
    refine ⟨by rw [← hid]; rfl, by simp [Record.updated], w.files, ?_⟩
    rw [← hbase]
    simp

/-- **Wherever a finalization is left, the records are sound.** -/
theorem sound_finalize (h : Sound runId head s) (hid : r.runId = runId)
    (hbase : r.baselineHead = head) (n : ℕ) :
    Sound runId head (advance n (finalizeWorktreeHandoff s r c) s).1 := by
  have hend := finalize_states s r c n
  generalize advance n (finalizeWorktreeHandoff s r c) s = out at hend
  cases hend with
  | unchecked => exact h
  | staged w hcap => exact h.worktrees _
  | cut w hcap hnew k => exact sound_capturedAt h hcap hnew hid hbase k
  | captured w hcap hnew =>
    exact (sound_capturedAt h hcap hnew hid hbase 5).worktrees _
  | unchanged w hcap => exact (h.worktrees _).worktrees _

theorem capturedAt_records (s : Store) (r : Record) (c : JsString)
    (w : Git.Worktree JsString RefName) (k : ℕ) (hk : k ≤ 4) :
    (capturedAt s r c w k).records = s.records := by
  match k with
  | 0 | 1 | 2 | 3 | 4 => rfl
  | k + 5 => omega

/-- **What a finalization does to the records**: nothing, or it writes the hand-off. -/
theorem finalize_records (s : Store) (r : Record) (c : JsString) (n : ℕ) :
    ((advance n (finalizeWorktreeHandoff s r c) s).1.records = s.records ∧
      ((advance n (finalizeWorktreeHandoff s r c) s).2 = true → finalized s r c = none)) ∨
    (r.handoffCommit = none ∧ s.repo.commits c = none ∧
      (advance n (finalizeWorktreeHandoff s r c) s).1.records =
        Function.update s.records r.attemptId (some (.written (r.updated c))) ∧
      finalized s r c = some (r.updated c)) := by
  have hend := finalize_states s r c n
  generalize advance n (finalizeWorktreeHandoff s r c) s = out at hend
  cases hend with
  | unchecked => exact Or.inl ⟨rfl, by simp⟩
  | staged w hcap => exact Or.inl ⟨rfl, by simp⟩
  | cut w hcap hnew k hlow hhigh hchanges =>
    by_cases hk : k ≤ 4
    · exact Or.inl ⟨capturedAt_records s r c w k hk, by simp⟩
    · obtain rfl : k = 5 := by omega
      exact Or.inr ⟨hcap.uncaptured, hnew, rfl, by simp [finalized, hchanges]⟩
  | captured w hcap hnew hchanges =>
    exact Or.inr ⟨hcap.uncaptured, hnew, rfl, by simp [finalized, hchanges]⟩
  | unchanged w hcap hchanges => exact Or.inl ⟨rfl, fun _ => by simp [finalized, hchanges]⟩

/-! ## Release -/

/-- A step of the release of the worktrees of attempts. -/
inductive ReleaseStep (s : Store) (ids : List JsString) : Step → Prop
  | fail : ReleaseStep s ids fun _ => none
  | remove (id : JsString) (hid : id ∈ ids) (r : Record) (hr : s.records id = some (.written r)) :
      ReleaseStep s ids (removeIfPresent r)
  | drop (id : JsString) (hid : id ∈ ids) (r : Record) (hr : s.records id = some (.written r)) :
      ReleaseStep s ids (dropBranch r)
  | write (id : JsString) (hid : id ∈ ids) (r : Record) (hr : s.records id = some (.written r)) :
      ReleaseStep s ids (writeRecord r.released)

theorem mem_releaseRunWorktrees {ids : List JsString} {f : Step}
    (h : f ∈ releaseRunWorktrees s ids) : ReleaseStep s ids f := by
  unfold releaseRunWorktrees at h
  split_ifs at h with hnil
  · rw [List.mem_singleton.mp h]
    exact .fail
  · obtain ⟨id, hid, hf⟩ := List.mem_flatMap.mp h
    unfold releaseWorktree at hf
    split at hf
    case h_1 r hr =>
      simp only [releaseWorktreeBranch, List.mem_cons, List.not_mem_nil, or_false] at hf
      rcases hf with rfl | rfl | rfl
      · exact .remove id hid r hr
      · exact .drop id hid r hr
      · exact .write id hid r hr
    case h_2 =>
      rw [List.mem_singleton.mp hf]
      exact .fail

/-- The records as they are, but that some are released. -/
def ReleasedFrom (s u : Store) : Prop :=
  ∀ id, u.records id = s.records id ∨
    ∃ r, s.records id = some (.written r) ∧ u.records id = some (.written r.released)

theorem ReleasedFrom.refl (s : Store) : ReleasedFrom s s := fun _ => Or.inl rfl

/-- What a release leaves: sound records, some of which are released. -/
structure Released (runId head : JsString) (s u : Store) : Prop where
  sound : Sound runId head u
  records : ReleasedFrom s u

theorem released_step {u v : Store} {ids : List JsString} {f : Step} (hs : Sound runId head s)
    (hf : ReleaseStep s ids f) (hu : Released runId head s u) (h : f u = some v) :
    Released runId head s v := by
  cases hf with
  | fail => cases h
  | remove id hid r hr =>
    unfold removeIfPresent at h
    split_ifs at h
    · obtain ⟨-, -, rfl⟩ := removeCleanWorktree_cases h
      exact ⟨hu.sound.worktrees _, hu.records⟩
    · cases h
      exact hu
  | drop id hid r hr =>
    obtain ⟨-, -, ⟨rfl, -⟩ | ⟨-, rfl⟩⟩ := dropBranch_cases h
    · exact hu
    · refine ⟨hu.sound.mono rfl ?_ (fun _ _ hc => hc), hu.records⟩
      intro id' c' hc'
      simpa using hc'
  | write id hid r hr =>
    cases h
    obtain ⟨hatt, hrun, hbase⟩ := hs.record id r hr
    subst hatt
    refine ⟨hu.sound.write hrun hbase ?_, ?_⟩
    · intro c hc
      have hcu : ∃ r', u.records r.attemptId = some (.written r') ∧ r'.handoffCommit = some c ∧
          r'.handoffRef = r.handoffRef := by
        rcases hu.records r.attemptId with hsame | ⟨r', hr', hrel⟩
        · exact ⟨r, hsame.trans hr, hc, rfl⟩
        · rw [hr] at hr'
          cases hr'
          exact ⟨_, hrel, hc, rfl⟩
      obtain ⟨r', hr', hc', href⟩ := hcu
      have hsound := hu.sound.handoff r.attemptId r' hr' c hc'
      rw [href] at hsound
      exact hsound
    · intro id'
      by_cases he : id' = r.attemptId
      · subst he
        exact Or.inr ⟨r, hr, u.write_self r.released⟩
      · rcases hu.records id' with hsame | hrel
        · exact Or.inl ((u.write_ne r.released he).trans hsame)
        · obtain ⟨r', hr', hrel⟩ := hrel
          exact Or.inr ⟨r', hr', (u.write_ne r.released he).trans hrel⟩

/-- **Wherever a release is left, the records are sound and some are released.** -/
theorem sound_release (h : Sound runId head s) (ids : List JsString) (n : ℕ) :
    Released runId head s (advance n (releaseRunWorktrees s ids) s).1 :=
  advance_invariant (Released runId head s)
    (fun _ hf _ _ hu hv => released_step h (mem_releaseRunWorktrees hf) hu hv) n
    ⟨h, ReleasedFrom.refl s⟩

end Worktree

end PiSubagent
