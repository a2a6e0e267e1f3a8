import PiSubagent.Persistence.AttemptRecords

/-!
# Creations in any order keep the attempt records

* `Own`, `Relies`: what a call of `create` relies on between its steps, `Answered` what it has
  answered.
* `Next`: what a step of `create` can do (`next_cases`); the lemmas about one step are by its cases.
* `Own.unique`: of the calls that have seen their lease, one has the turn of its process.
* `attemptOutline_sound`: every step of every call keeps all of it.
* **`attemptRecords_chained`**: in every state of a run the records are chained, and a record that was
  there when its creation was called is what the creation returns.
-/

namespace PiSubagent

open JsonText Calls

namespace AttemptRecords

section Store

variable (S : StorePlatform)

/-! ## What every call relies on -/

/-- The input is one the store accepts for this run. -/
def CreateInput.valid (runId : RunId) (i : CreateInput) : Bool :=
  i.plan.runId.val = runId.val ∧ S.fieldsValid i.fields = true ∧
    S.verifyLaunchPlanIdentity i.plan = true

/-- A record is the one that a creation makes. -/
def Repeats (runId : RunId) (i : CreateInput) (x : AttemptRecord) : Prop :=
  i.valid S runId = true ∧ x.attemptId = i.plan.attemptId ∧ i.fields.matches x = true

/-- What an ending says, given how many records were there when the call was made. -/
def Answered (runId : RunId) (i : CreateInput) (before : ℕ) (s : Directory) : Ending → Prop
  | .returned r => r ∈ s.records ∧ r.attemptId = i.plan.attemptId ∧ i.fields.matches r = true
  | .refused _ => ∀ x ∈ s.records.take before, ¬ Repeats S runId i x
  | _ => True

/-- The call is in the queue of its process. -/
def CreatePhase.queued : CreatePhase → Bool
  | .called | .ended _ => false
  | _ => true

/-- The call has the turn of its process. -/
def CreatePhase.inside : CreatePhase → Bool
  | .called | .waiting | .ended _ => false
  | _ => true

/-- The call has seen that its lease is current. -/
def CreatePhase.leased : CreatePhase → Bool
  | .called | .waiting | .entered | .ended _ => false
  | _ => true

/-- The record of a call. -/
def CreatePhase.record? : CreatePhase → Option AttemptRecord
  | .made r | .absent r | .listing r | .validated r | .opened r | .written r | .linking r
  | .linked r | .unlinking r _ | .reread r => some r
  | _ => none

/-- The call has seen no record of its attempt, and has linked none. -/
def CreatePhase.absent? : CreatePhase → Bool
  | .absent _ | .listing _ | .validated _ | .opened _ | .written _ | .linking _ => true
  | _ => false

/-- The lineage has been checked. -/
def CreatePhase.checked : CreatePhase → Bool
  | .validated _ | .opened _ | .written _ | .linking _ => true
  | _ => false

/-- The size has been checked. -/
def CreatePhase.sized : CreatePhase → Bool
  | .opened _ | .written _ | .linking _ => true
  | _ => false

/-- How the call is going to end. -/
def CreatePhase.ending? : CreatePhase → Option Ending
  | .linked r => some (.returned r)
  | .unlinking _ ending => ending
  | .ended ending => some ending
  | _ => none

/-- The call has found a record where it has seen none. -/
def CreatePhase.overtaken : CreatePhase → Bool
  | .unlinking _ none | .reread _ => true
  | _ => false

/-- The call has found no record of its attempt. -/
def CreatePhase.missed : CreatePhase → Bool
  | .called | .waiting | .entered | .made _ | .ended _ => false
  | _ => true

/-- What a call relies on while its process lives. -/
structure Own (runId : RunId) (process c : ℕ) (i : CreateInput) (p : CreatePhase) (s : Directory) :
    Prop where
  ofRun : p.queued = true → i.plan.runId.val = runId.val
  waits : p.queued = true → (c, i.lease) ∈ s.queues process
  inside : p.inside = true → s.turn process = some c
  leased : p.leased = true → s.lease = some ⟨process, i.lease⟩
  record : ∀ r ∈ p.record?, r.toRecordFields = i.fields ∧ i.valid S runId = true
  fresh : ∀ r ∈ p.record?, p.absent? = true → s.find r.attemptId = none
  checked : ∀ r ∈ p.record?, p.checked = true →
    lineageRefusal s.records.getLast? r.toRecordFields = none
  sized : ∀ r ∈ p.record?, p.sized = true → S.recordBytes r ≤ maxAttemptRecordBytes
  alone : p.overtaken = false

/-- What a call of `create` relies on. -/
structure Relies (runId : RunId) (dead : ℕ → Bool) (process c : ℕ) (i : CreateInput) (before : ℕ)
    (p : CreatePhase) (s : Directory) : Prop where
  owner : i.ownerId = i.plan.ownerId
  counted : before ≤ s.records.length
  answered : ∀ e ∈ p.ending?, Answered S runId i before s e
  missed : p.missed = true → ∀ x ∈ s.records.take before, ¬ Repeats S runId i x
  own : dead process = false → Own S runId process c i p s

/-- The records are a readable chain with different attempts. -/
structure Kept (s : Directory) : Prop where
  chained : Chained s.records
  readable : ∀ x ∈ s.records, readable S x = true
  nodup : (s.records.map fun x => x.attemptId).Nodup

/-- The assertions on the directory. -/
def attemptOutline (runId : RunId) : Outline Directory Phase :=
  Outline.separate (fun _ s => Kept S s) fun dead c a s =>
    match a.state with
    | .lease _ => True
    | .create i before p => Relies S runId dead a.process c i before p s

/-- What a step of `create` can do. -/
inductive Next (runId : RunId) (process c : ℕ) (i : CreateInput) :
    CreatePhase → Outcome → Directory → Directory → CreatePhase → Prop
  | otherRun {o s} (h : i.plan.runId.val ≠ runId.val) :
    Next runId process c i .called o s s (.ended (.refused .leaseIdentity))
  | queues {o s} (h : i.plan.runId.val = runId.val) :
    Next runId process c i .called o s (s.enqueue process (c, i.lease)) .waiting
  | enters {o s} (h : s.turn process = some c) : Next runId process c i .waiting o s s .entered
  | fails {p s} : Next runId process c i p .fails s s (.ended .failed)
  | fenced {p now s} (h : s.isCurrent process i.lease = false) :
    Next runId process c i p (.ok now) s s (.ended .fenced)
  | makes {now s} (hlease : s.isCurrent process i.lease = true)
      (h : S.fieldsValid i.fields = true ∧ S.verifyLaunchPlanIdentity i.plan = true) :
    Next runId process c i .entered (.ok now) s s
      (.made { toRecordFields := i.fields, createdAt := now })
  | invalid {now s}
      (h : ¬ (S.fieldsValid i.fields = true ∧ S.verifyLaunchPlanIdentity i.plan = true)) :
    Next runId process c i .entered (.ok now) s s (.ended (.refused .invalid))
  | finds {r existing now s} (h : s.find r.attemptId = some existing) :
    Next runId process c i (.made r) (.ok now) s s (.ended (existingEnding S r existing))
  | misses {r now s} (h : s.find r.attemptId = none) :
    Next runId process c i (.made r) (.ok now) s s (.absent r)
  | lists {r now s} (hlease : s.isCurrent process i.lease = true) :
    Next runId process c i (.absent r) (.ok now) s s (.listing r)
  | refuses {r now s why} : Next runId process c i (.listing r) (.ok now) s s (.ended (.refused why))
  | validates {r now s last} (hlast : latest S s = some last)
      (h : lineageRefusal last r.toRecordFields = none) :
    Next runId process c i (.listing r) (.ok now) s s (.validated r)
  | oversized {r now s} (h : S.recordBytes r > maxAttemptRecordBytes) :
    Next runId process c i (.validated r) (.ok now) s s (.ended (.refused .bytes))
  | opens {r now s} (h : S.recordBytes r ≤ maxAttemptRecordBytes) :
    Next runId process c i (.validated r) (.ok now) s { s with temporaries := c :: s.temporaries }
      (.opened r)
  | writes {r now s} : Next runId process c i (.opened r) (.ok now) s s (.written r)
  | checks {r now s} (hlease : s.isCurrent process i.lease = true) :
    Next runId process c i (.written r) (.ok now) s s (.linking r)
  /-- The temporary file is removed before the call ends as fenced or failed. -/
  | drops {p o s e r} (hp : p = .written r ∨ p = .linking r ∨ p = .linked r)
      (he : e = .fenced ∨ e = .failed) : Next runId process c i p o s s (.unlinking r (some e))
  | overtaken {r existing now s} (h : s.find r.attemptId = some existing) :
    Next runId process c i (.linking r) (.ok now) s s (.unlinking r none)
  | links {r now s} (h : s.find r.attemptId = none) :
    Next runId process c i (.linking r) (.ok now) s { s with records := s.records ++ [r] } (.linked r)
  | stores {r now s} :
    Next runId process c i (.linked r) (.ok now) s s (.unlinking r (some (.returned r)))
  | unlinks {r e now s} :
    Next runId process c i (.unlinking r (some e)) (.ok now) s
      { s with temporaries := s.temporaries.filter (· ≠ c) } (.ended e)
  | rereads {r now s} :
    Next runId process c i (.unlinking r none) (.ok now) s
      { s with temporaries := s.temporaries.filter (· ≠ c) } (.reread r)
  | found {r existing now s} (h : s.find r.attemptId = some existing) :
    Next runId process c i (.reread r) (.ok now) s s (.ended (existingEnding S r existing))
  | gone {r now s} (h : s.find r.attemptId = none) :
    Next runId process c i (.reread r) (.ok now) s s (.ended .failed)

/-! ## Moves -/

variable {S} {runId : RunId} {process c : ℕ} {i : CreateInput} {before : ℕ} {p q : CreatePhase}
  {o : Outcome} {s t : Directory}

theorem next_cases (h : nextPhase S runId process c i p o s = some (t, q)) :
    Next S runId process c i p o s t q := by
  cases p with
  | called =>
    simp only [nextPhase] at h
    split at h
    · next hrun =>
      cases h
      exact .otherRun hrun
    · next hrun =>
      cases h
      exact .queues (not_not.mp hrun)
  | waiting =>
    simp only [nextPhase] at h
    split at h
    · next hturn =>
      cases h
      exact .enters hturn
    · cases h
  | entered =>
    cases o with
    | fails =>
      cases h
      exact .fails
    | ok now =>
      simp only [nextPhase] at h
      split at h
      · next hlease =>
        cases h
        exact .fenced hlease
      · next hlease =>
        split at h
        · next hvalid =>
          cases h
          exact .makes (Bool.eq_true_of_not_eq_false hlease) hvalid
        · next hvalid =>
          cases h
          exact .invalid hvalid
  | made r =>
    cases o with
    | fails =>
      cases h
      exact .fails
    | ok now =>
      simp only [nextPhase] at h
      split at h
      · next hfind =>
        cases h
        exact .finds hfind
      · next hfind =>
        cases h
        exact .misses hfind
  | absent r =>
    cases o with
    | fails =>
      cases h
      exact .fails
    | ok now =>
      simp only [nextPhase] at h
      split at h
      · next hlease =>
        cases h
        exact .fenced hlease
      · next hlease =>
        cases h
        exact .lists (Bool.eq_true_of_not_eq_false hlease)
  | listing r =>
    cases o with
    | fails =>
      cases h
      exact .fails
    | ok now =>
      simp only [nextPhase] at h
      split at h
      · cases h
        exact .refuses
      · next hlast =>
        split at h
        · cases h
          exact .refuses
        · next hlineage =>
          cases h
          exact .validates hlast hlineage
  | validated r =>
    cases o with
    | fails =>
      cases h
      exact .fails
    | ok now =>
      simp only [nextPhase] at h
      split at h
      · next hbytes =>
        cases h
        exact .oversized hbytes
      · next hbytes =>
        cases h
        exact .opens (not_lt.mp hbytes)
  | opened r =>
    cases o with
    | fails =>
      cases h
      exact .fails
    | ok now =>
      cases h
      exact .writes
  | written r =>
    cases o with
    | fails =>
      cases h
      exact .drops (Or.inl rfl) (Or.inr rfl)
    | ok now =>
      simp only [nextPhase] at h
      split at h
      · cases h
        exact .drops (Or.inl rfl) (Or.inl rfl)
      · next hlease =>
        cases h
        exact .checks (Bool.eq_true_of_not_eq_false hlease)
  | linking r =>
    cases o with
    | fails =>
      cases h
      exact .drops (Or.inr (Or.inl rfl)) (Or.inr rfl)
    | ok now =>
      simp only [nextPhase] at h
      split at h
      · next hfind =>
        cases h
        exact .overtaken hfind
      · next hfind =>
        cases h
        exact .links hfind
  | linked r =>
    cases o with
    | fails =>
      cases h
      exact .drops (Or.inr (Or.inr rfl)) (Or.inr rfl)
    | ok now =>
      cases h
      exact .stores
  | unlinking r ending =>
    cases o with
    | fails =>
      cases h
      exact .fails
    | ok now =>
      cases ending with
      | none =>
        cases h
        exact .rereads
      | some e =>
        cases h
        exact .unlinks
  | reread r =>
    cases o with
    | fails =>
      cases h
      exact .fails
    | ok now =>
      simp only [nextPhase] at h
      split at h
      · next hfind =>
        cases h
        exact .found hfind
      · next hfind =>
        cases h
        exact .gone hfind
  | ended e => cases h

theorem find_eq_none {attemptId : JsString} :
    s.find attemptId = none ↔ ∀ x ∈ s.records, x.attemptId ≠ attemptId := by
  simp only [Directory.find, List.find?_eq_none, decide_eq_true_eq, ne_eq]

/-- What a move does to the rest of the directory. -/
structure Changed (process c : ℕ) (p q : CreatePhase) (s t : Directory) : Prop where
  lease : t.lease = s.lease
  records : t.records = s.records ∨ ∃ r, p = .linking r ∧ q = .linked r ∧
    s.find r.attemptId = none ∧ t.records = s.records ++ [r]
  mem : ∀ n e, e.1 ≠ c → e ∈ s.queues n → e ∈ t.queues n
  turn : ∀ n d, d ≠ c → s.turn n = some d → t.turn n = some d

theorem Changed.refl : Changed process c p q s s := ⟨rfl, Or.inl rfl, fun _ _ _ h => h, fun _ _ _ h => h⟩

theorem changed_temporaries (l : List ℕ) : Changed process c p q s { s with temporaries := l } :=
  ⟨rfl, Or.inl rfl, fun _ _ _ h => h, fun _ _ _ h => h⟩

theorem turn_enqueue {n d : ℕ} {e : ℕ × ℕ} (h : s.turn n = some d) :
    (s.enqueue process e).turn n = some d := by
  show (Function.update s.queues process (s.queues process ++ [e]) n).head?.map Prod.fst = some d
  by_cases hn : n = process
  · subst hn
    obtain ⟨x, hx, hd⟩ := Option.map_eq_some_iff.mp h
    rw [Function.update_self, List.head?_append, hx]
    exact congrArg some hd
  · rw [Function.update_of_ne hn]
    exact h

theorem turn_leave {n d : ℕ} (hd : d ≠ c) (h : s.turn n = some d) :
    (s.leave process c).turn n = some d := by
  show (Function.update s.queues process ((s.queues process).filter (·.1 ≠ c)) n).head?.map
    Prod.fst = some d
  by_cases hn : n = process
  · subst hn
    obtain ⟨x, hx, rfl⟩ := Option.map_eq_some_iff.mp h
    obtain ⟨rest, hrest⟩ := List.head?_eq_some_iff.mp hx
    rw [Function.update_self, hrest, List.filter_cons, if_pos (decide_eq_true hd)]
    rfl
  · rw [Function.update_of_ne hn]
    exact h

theorem mem_enqueue {n : ℕ} {e e' : ℕ × ℕ} (h : e' ∈ s.queues n) :
    e' ∈ (s.enqueue process e).queues n := by
  show e' ∈ Function.update s.queues process (s.queues process ++ [e]) n
  by_cases hn : n = process
  · subst hn
    rw [Function.update_self]
    exact List.mem_append_left _ h
  · rw [Function.update_of_ne hn]
    exact h

theorem mem_leave {n : ℕ} {e : ℕ × ℕ} (hne : e.1 ≠ c) (h : e ∈ s.queues n) :
    e ∈ (s.leave process c).queues n := by
  show e ∈ Function.update s.queues process ((s.queues process).filter (·.1 ≠ c)) n
  by_cases hn : n = process
  · subst hn
    rw [Function.update_self]
    exact List.mem_filter.mpr ⟨h, decide_eq_true hne⟩
  · rw [Function.update_of_ne hn]
    exact h

theorem changed_enqueue (e : ℕ × ℕ) : Changed process c p q s (s.enqueue process e) :=
  ⟨rfl, Or.inl rfl, fun _ _ _ h => mem_enqueue h, fun _ _ _ h => turn_enqueue h⟩

theorem Changed.leave (h : Changed process c p q s t) {q' : CreatePhase}
    (hr : t.records = s.records) : Changed process c p q' s (t.leave process c) :=
  ⟨h.lease, Or.inl hr, fun n e hne hmem => mem_leave hne (h.mem n e hne hmem),
    fun n d hne hturn => turn_leave hne (h.turn n d hne hturn)⟩

/-- **What a step of a creation changes.** -/
theorem changed_next (h : Next S runId process c i p o s t q) : Changed process c p q s t := by
  cases h with
  | queues => exact changed_enqueue _
  | links hfind => exact ⟨rfl, Or.inr ⟨_, rfl, rfl, hfind, rfl⟩, fun _ _ _ h => h, fun _ _ _ h => h⟩
  | opens | unlinks | rereads => exact changed_temporaries _
  | _ => exact .refl

theorem moveCreate_cases (h : moveCreate S runId process c i p o s = some (t, q)) :
    ∃ u, Next S runId process c i p o s u q ∧
      ((∃ e, q = .ended e ∧ t = u.leave process c) ∨ ((∀ e, q ≠ .ended e) ∧ t = u)) := by
  obtain ⟨⟨u, q'⟩, hn, hr⟩ := Option.map_eq_some_iff.mp h
  refine ⟨u, ?_⟩
  cases q' with
  | ended e =>
    cases hr
    exact ⟨next_cases hn, Or.inl ⟨e, rfl, rfl⟩⟩
  | _ =>
    cases hr
    exact ⟨next_cases hn, Or.inr ⟨(fun e he => by cases he), rfl⟩⟩

theorem changed_move (h : moveCreate S runId process c i p o s = some (t, q)) :
    Changed process c p q s t := by
  obtain ⟨u, hn, ⟨e, rfl, rfl⟩ | ⟨-, rfl⟩⟩ := moveCreate_cases h
  · have hu := changed_next hn
    rcases hu.records with hr | ⟨r, -, hq, -⟩
    · exact hu.leave hr
    · cases hq
  · exact changed_next hn

theorem CreatePhase.queued_of_inside {p : CreatePhase} (h : p.inside = true) :
    p.queued = true := by
  cases p <;> first | rfl | cases h

theorem Own.ended (e : Ending) : Own S runId process c i (.ended e) s where
  ofRun := fun h => by cases h
  waits := fun h => by cases h
  inside := fun h => by cases h
  leased := fun h => by cases h
  record := fun _ h => by cases h
  fresh := fun _ h => by cases h
  checked := fun _ h => by cases h
  sized := fun _ h => by cases h
  alone := rfl

/-- A call that keeps its turn and its lease, and goes on with a record of its own. -/
theorem Own.advance (h : Own S runId process c i p s) (hp : p.inside = true)
    (hl : s.lease = some ⟨process, i.lease⟩) (halone : q.overtaken = false)
    {r : AttemptRecord} (hqr : q.record? = some r)
    (hrec : r.toRecordFields = i.fields ∧ i.valid S runId = true)
    (hfresh : q.absent? = true → s.find r.attemptId = none)
    (hchecked : q.checked = true → lineageRefusal s.records.getLast? r.toRecordFields = none)
    (hsized : q.sized = true → S.recordBytes r ≤ maxAttemptRecordBytes) :
    Own S runId process c i q s where
  ofRun := fun _ => h.ofRun (CreatePhase.queued_of_inside hp)
  waits := fun _ => h.waits (CreatePhase.queued_of_inside hp)
  inside := fun _ => h.inside hp
  leased := fun _ => hl
  record := fun r' hr' => by
    cases hqr.symm.trans hr'
    exact hrec
  fresh := fun r' hr' hf => by
    cases hqr.symm.trans hr'
    exact hfresh hf
  checked := fun r' hr' hf => by
    cases hqr.symm.trans hr'
    exact hchecked hf
  sized := fun r' hr' hf => by
    cases hqr.symm.trans hr'
    exact hsized hf
  alone := halone

theorem Own.next (h : Own S runId process c i p s) (hk : Kept S s)
    (hn : Next S runId process c i p o s t q) (hq : ∀ e, q ≠ .ended e) :
    Own S runId process c i q t := by
  cases hn with
  | queues hrun =>
    exact {
      ofRun := fun _ => hrun
      waits := fun _ => by
        show _ ∈ Function.update s.queues process (s.queues process ++ [(c, i.lease)]) process
        rw [Function.update_self]
        exact List.mem_append_right _ List.mem_cons_self
      inside := fun h => by cases h
      leased := fun h => by cases h
      record := fun _ h => by cases h
      fresh := fun _ h => by cases h
      checked := fun _ h => by cases h
      sized := fun _ h => by cases h
      alone := rfl }
  | enters hturn =>
    exact {
      ofRun := fun _ => h.ofRun rfl
      waits := fun _ => h.waits rfl
      inside := fun _ => hturn
      leased := fun h => by cases h
      record := fun _ h => by cases h
      fresh := fun _ h => by cases h
      checked := fun _ h => by cases h
      sized := fun _ h => by cases h
      alone := rfl }
  | makes hlease hvalid =>
    exact h.advance rfl (of_decide_eq_true hlease) rfl rfl
      ⟨rfl, decide_eq_true ⟨h.ofRun rfl, hvalid.1, hvalid.2⟩⟩ (fun h => by cases h)
      (fun h => by cases h) (fun h => by cases h)
  | @misses r _ _ hfind =>
    exact h.advance rfl (h.leased rfl) rfl rfl (h.record r rfl) (fun _ => hfind)
      (fun h => by cases h) (fun h => by cases h)
  | @lists r =>
    exact h.advance rfl (h.leased rfl) rfl rfl (h.record r rfl) (h.fresh r rfl)
      (fun h => by cases h) (fun h => by cases h)
  | @validates r _ _ last hlast hlineage =>
    -- the store reads the chain as it is
    have hlatest : latest S s = some s.records.getLast? := by
      rw [latest, hk.chained.list_eq hk.readable]
      rfl
    rw [Option.some.inj (hlast.symm.trans hlatest)] at hlineage
    exact h.advance rfl (h.leased rfl) rfl rfl (h.record r rfl) (h.fresh r rfl)
      (fun _ => hlineage) (fun h => by cases h)
  | @opens r _ _ hbytes =>
    have hadv := h.advance (q := .opened r) rfl (h.leased rfl) rfl rfl (h.record r rfl)
      (h.fresh r rfl) (h.checked r rfl) (fun _ => hbytes)
    exact ⟨hadv.ofRun, hadv.waits, hadv.inside, hadv.leased, hadv.record, hadv.fresh,
      hadv.checked, hadv.sized, hadv.alone⟩
  | @writes r | @checks r =>
    exact h.advance rfl (h.leased rfl) rfl rfl (h.record r rfl) (h.fresh r rfl)
      (h.checked r rfl) (h.sized r rfl)
  | @drops _ _ _ _ r hp =>
    rcases hp with rfl | rfl | rfl
    all_goals
      exact h.advance rfl (h.leased rfl) rfl rfl (h.record r rfl) (fun h => by cases h)
        (fun h => by cases h) (fun h => by cases h)
  | @overtaken r _ _ _ hfind => cases (h.fresh r rfl rfl).symm.trans hfind
  | @links r =>
    have hadv := h.advance (q := .linked r) rfl (h.leased rfl) rfl rfl (h.record r rfl)
      (fun h => by cases h) (fun h => by cases h) (fun h => by cases h)
    exact ⟨hadv.ofRun, hadv.waits, hadv.inside, hadv.leased, hadv.record,
      (fun _ _ h => by cases h), (fun _ _ h => by cases h), (fun _ _ h => by cases h), rfl⟩
  | @stores r =>
    exact h.advance rfl (h.leased rfl) rfl rfl (h.record r rfl) (fun h => by cases h)
      (fun h => by cases h) (fun h => by cases h)
  | rereads => cases h.alone
  | _ => exact absurd rfl (hq _)

theorem Kept.concat (hk : Kept S s) {r : AttemptRecord}
    (h : Own S runId process c i (.linking r) s)
    (howner : i.ownerId = i.plan.ownerId) (ht : t.records = s.records ++ [r]) : Kept S t := by
  obtain ⟨hfields, hvalid⟩ := h.record r rfl
  obtain ⟨-, hschema, hidentity⟩ := of_decide_eq_true hvalid
  have hread : AttemptRecords.readable S r = true := by
    refine decide_eq_true ⟨h.sized r rfl rfl, hfields ▸ hschema, ?_⟩
    rw [hfields]
    exact ⟨rfl, rfl, howner.symm, hidentity⟩
  refine ⟨?_, ?_, ?_⟩
  · rw [ht]
    exact hk.chained.concat (h.checked r rfl rfl)
  · intro x hx
    rw [ht] at hx
    rcases List.mem_append.mp hx with hx | hx
    · exact hk.readable x hx
    · rw [List.mem_singleton.mp hx]
      exact hread
  · rw [ht, List.map_append]
    refine List.nodup_append.mpr ⟨hk.nodup, List.nodup_singleton _, ?_⟩
    intro id hid id' hid' heq
    obtain ⟨x, hx, rfl⟩ := List.mem_map.mp hid
    rw [List.map_singleton, List.mem_singleton] at hid'
    exact find_eq_none.mp (h.fresh r rfl rfl) x hx (heq.trans hid')

theorem Kept.move (hk : Kept S s) (h : Own S runId process c i p s)
    (howner : i.ownerId = i.plan.ownerId) (hc : Changed process c p q s t) : Kept S t := by
  rcases hc.records with hr | ⟨r, rfl, -, -, hr⟩
  · exact ⟨hr ▸ hk.chained, hr ▸ hk.readable, hr ▸ hk.nodup⟩
  · exact hk.concat h howner hr

theorem Changed.mono (h : Changed process c p q s t) : s.records <+: t.records := by
  rcases h.records with hr | ⟨r, -, -, -, hr⟩
  · exact hr ▸ List.prefix_rfl
  · exact hr ▸ List.prefix_append _ _

/-- The records that were there when a call was made are the same ones later. -/
theorem take_before (hb : before ≤ s.records.length) (ht : s.records <+: t.records) :
    t.records.take before = s.records.take before := by
  obtain ⟨rest, hrest⟩ := ht
  rw [← hrest, List.take_append_of_le_length hb]

theorem Answered.mono {e : Ending} (h : Answered S runId i before s e)
    (hb : before ≤ s.records.length) (ht : s.records <+: t.records) :
    Answered S runId i before t e := by
  cases e with
  | returned r => exact ⟨ht.subset h.1, h.2⟩
  | refused why =>
    intro x hx
    rw [take_before hb ht] at hx
    exact h x hx
  | fenced | failed => trivial

/-- Where no record of the attempt is there, no creation of it has been recorded. -/
theorem not_repeats_of_find {id : JsString} (hid : id = i.plan.attemptId) (h : s.find id = none)
    {x : AttemptRecord} (hx : x ∈ s.records.take before) : ¬ Repeats S runId i x := by
  rintro ⟨-, hx', -⟩
  exact find_eq_none.mp h x (List.mem_of_mem_take hx) (hx'.trans hid.symm)

theorem not_repeats_of_invalid (h : i.valid S runId = false) (x : AttemptRecord) :
    ¬ Repeats S runId i x := by
  rintro ⟨hv, -⟩
  rw [h] at hv
  cases hv

theorem Own.attemptId (h : Own S runId process c i p s) {r : AttemptRecord} (hr : p.record? = some r) :
    r.attemptId = i.plan.attemptId := by
  have hf := (h.record r hr).1
  show r.toRecordFields.attemptId = i.plan.attemptId
  rw [hf]
  rfl

theorem answered_existing (hk : Kept S s) (h : Own S runId process c i p s) {r : AttemptRecord}
    (hr : p.record? = some r) {existing : AttemptRecord}
    (hf : s.find r.attemptId = some existing) :
    Answered S runId i before s (existingEnding S r existing) := by
  have hid := h.attemptId hr
  have hmem : existing ∈ s.records := List.mem_of_find?_eq_some hf
  have hexisting : existing.attemptId = r.attemptId := by
    unfold Directory.find at hf
    simpa using List.find?_some hf
  have hfields := (h.record r hr).1
  unfold existingEnding
  rw [if_neg (by rw [hk.readable existing hmem]; exact Bool.noConfusion), hfields]
  split
  · next hm => exact ⟨hmem, hexisting.trans hid, hm⟩
  · next hm =>
    intro x hx hx'
    -- attempts are recorded once, so the matching record is this one
    have heq : x = existing :=
      List.inj_on_of_nodup_map hk.nodup (List.mem_of_mem_take hx) hmem
        (hx'.2.1.trans (hexisting.trans hid).symm)
    exact hm (heq ▸ hx'.2.2)

/-- **What a creation says when it is about to end.** -/
theorem answered_next (hk : Kept S s) (h : Own S runId process c i p s)
    (hp : ∀ e ∈ p.ending?, Answered S runId i before s e)
    (hn : Next S runId process c i p o s t q) :
    ∀ e ∈ q.ending?, Answered S runId i before t e := by
  intro e he
  cases hn with
  | otherRun hrun =>
    cases he
    exact fun x _ => not_repeats_of_invalid (decide_eq_false fun hv => hrun hv.1) x
  | fails | fenced =>
    cases he
    trivial
  | invalid hvalid =>
    cases he
    exact fun x _ => not_repeats_of_invalid (decide_eq_false fun hv => hvalid hv.2) x
  | finds hfind =>
    cases he
    exact answered_existing hk h rfl hfind
  | @refuses r | @oversized r =>
    cases he
    exact fun x hx => not_repeats_of_find (h.attemptId rfl) (h.fresh r rfl rfl) hx
  | drops hp he' =>
    cases he
    rcases he' with rfl | rfl <;> trivial
  | @links r =>
    cases he
    refine ⟨List.mem_append_right _ List.mem_cons_self, h.attemptId rfl, ?_⟩
    rw [← (h.record r rfl).1]
    exact decide_eq_true ⟨rfl, rfl, rfl, rfl, rfl⟩
  | stores | unlinks =>
    cases he
    exact hp _ rfl
  | overtaken | queues | enters | makes | misses | lists | validates | opens | writes | checks |
    rereads => cases he
  | found | gone => cases h.alone

/-- **A call finds no record only where its creation has not been recorded.** -/
theorem missed_next (h : Own S runId process c i p s)
    (hp : p.missed = true → ∀ x ∈ s.records.take before, ¬ Repeats S runId i x)
    (hn : Next S runId process c i p o s t q) (hq : q.missed = true) :
    ∀ x ∈ s.records.take before, ¬ Repeats S runId i x := by
  cases hn with
  | misses hfind => exact fun x hx => not_repeats_of_find (h.attemptId rfl) hfind hx
  | drops hp' =>
    rcases hp' with rfl | rfl | rfl
    all_goals exact hp rfl
  | otherRun | queues | enters | fails | fenced | makes | invalid | finds | refuses | oversized |
    unlinks | found | gone => cases hq
  | _ => exact hp rfl

/-- **What a call relies on, over a step of its own.** -/
theorem Relies.move {dead : ℕ → Bool} (hk : Kept S s)
    (h : Relies S runId dead process c i before p s) (hd : dead process = false)
    (hm : moveCreate S runId process c i p o s = some (t, q)) :
    Relies S runId dead process c i before q t := by
  have hown := h.own hd
  have hmono := (changed_move hm).mono
  have hb : before ≤ t.records.length := h.counted.trans hmono.length_le
  obtain ⟨u, hn, ⟨e, rfl, rfl⟩ | ⟨hq, rfl⟩⟩ := moveCreate_cases hm
  · refine ⟨h.owner, hb, ?_, (fun hq => by cases hq), fun _ => .ended e⟩
    intro e' he'
    exact (answered_next hk hown h.answered hn e' he').mono (t := u.leave process c) hb List.prefix_rfl
  · refine ⟨h.owner, hb, answered_next hk hown h.answered hn, ?_, fun _ => hown.next hk hn hq⟩
    rw [take_before h.counted hmono]
    exact missed_next hown h.missed hn

/-- **A creation whose record was there when it was called ends with that record**, where the step
that ends it neither fails nor finds the lease gone. -/
theorem Relies.again {dead : ℕ → Bool} (hk : Kept S s)
    (h : Relies S runId dead process c i before p s) (hd : dead process = false) {e : Ending}
    (hm : moveCreate S runId process c i p o s = some (t, .ended e)) {x : AttemptRecord}
    (hx : x ∈ s.records.take before) (hr : Repeats S runId i x) :
    e = .returned x ∨ e = .failed ∧ o = .fails ∨
      e = .fenced ∧ s.isCurrent process i.lease = false := by
  obtain ⟨hvalid, hid, hmatches⟩ := hr
  have hown := h.own hd
  have hmem : x ∈ s.records := List.mem_of_mem_take hx
  obtain ⟨hrun, hschema, hidentity⟩ := of_decide_eq_true hvalid
  obtain ⟨u, hn, -⟩ := moveCreate_cases hm
  cases hn with
  | otherRun hrun' => exact absurd hrun hrun'
  | fails => exact Or.inr (Or.inl ⟨rfl, rfl⟩)
  | fenced hlease => exact Or.inr (Or.inr ⟨rfl, hlease⟩)
  | invalid hinvalid => exact absurd ⟨hschema, hidentity⟩ hinvalid
  | @finds r existing _ _ hfind =>
    -- attempts are recorded once, so the record that is found is the repeated one
    have hfound : existing ∈ s.records := List.mem_of_find?_eq_some hfind
    have hexisting : existing.attemptId = r.attemptId := by
      unfold Directory.find at hfind
      simpa using List.find?_some hfind
    have heq : existing = x := List.inj_on_of_nodup_map hk.nodup hfound hmem
      ((hexisting.trans (hown.attemptId rfl)).trans hid.symm)
    subst heq
    left
    unfold existingEnding
    rw [if_neg (by rw [hk.readable existing hmem]; exact Bool.noConfusion),
      (hown.record r rfl).1, if_pos hmatches]
  | _ => exact absurd ⟨hvalid, hid, hmatches⟩ (h.missed rfl x hx)

/-- Two calls whose lease is current are one: the lease is of one process, and there one call has
the turn. -/
theorem Own.unique {process' d : ℕ} {j : CreateInput} {k : CreatePhase}
    (h : Own S runId process c i p s) (h' : Own S runId process' d j k s)
    (hp : p.leased = true) (hp' : k.leased = true) (hi : p.inside = true)
    (hi' : k.inside = true) : c = d := by
  have hlease := (h.leased hp).symm.trans (h'.leased hp')
  have hprocess : process = process' := congrArg Lease.process (Option.some.inj hlease)
  subst hprocess
  exact Option.some.inj ((h.inside hi).symm.trans (h'.inside hi'))

theorem CreatePhase.inside_of_leased {p : CreatePhase} (h : p.leased = true) :
    p.inside = true := by
  cases p <;> first | rfl | cases h

theorem CreatePhase.leased_of_absent {p : CreatePhase} (h : p.absent? = true) :
    p.leased = true := by
  cases p <;> first | rfl | cases h

theorem CreatePhase.leased_of_checked {p : CreatePhase} (h : p.checked = true) :
    p.leased = true := by
  cases p <;> first | rfl | cases h

/-- What another call relies on, over a step that keeps its place in the queue and its lease. -/
theorem Own.frame (h : Own S runId process c i p s)
    (hqueue : p.queued = true → (c, i.lease) ∈ t.queues process)
    (hturn : p.inside = true → t.turn process = some c)
    (hlease : p.leased = true → t.lease = some ⟨process, i.lease⟩)
    (hrecords : p.leased = true → t.records = s.records) : Own S runId process c i p t where
  ofRun := h.ofRun
  waits := hqueue
  inside := hturn
  leased := hlease
  record := h.record
  fresh := fun r hr hf => by
    rw [Directory.find, hrecords (CreatePhase.leased_of_absent hf)]
    exact h.fresh r hr hf
  checked := fun r hr hf => by
    rw [hrecords (CreatePhase.leased_of_checked hf)]
    exact h.checked r hr hf
  sized := h.sized
  alone := h.alone

theorem Relies.other {dead : ℕ → Bool} {process' d : ℕ} {j : CreateInput} {count : ℕ}
    {k : CreatePhase} (h : Relies S runId dead process c i before p s) (hd : dead process = false)
    (hne : d ≠ c) (h' : Relies S runId dead process' d j count k s)
    (hm : moveCreate S runId process c i p o s = some (t, q)) :
    Relies S runId dead process' d j count k t := by
  have hc := changed_move hm
  refine ⟨h'.owner, h'.counted.trans hc.mono.length_le,
    fun e he => (h'.answered e he).mono h'.counted hc.mono, ?_, ?_⟩
  · rw [take_before h'.counted hc.mono]
    exact h'.missed
  intro hd'
  have hown' := h'.own hd'
  refine hown'.frame (fun hq => hc.mem _ _ hne (hown'.waits hq))
    (fun hi => hc.turn _ _ hne (hown'.inside hi)) (fun hl => hc.lease.trans (hown'.leased hl)) ?_
  intro hl
  rcases hc.records with hr | ⟨r, rfl, -, -, -⟩
  · exact hr
  · exact absurd ((h.own hd).unique hown' rfl hl rfl (CreatePhase.inside_of_leased hl)).symm hne

/-- A seat that takes the lease or releases it changes nothing that a call relies on. -/
theorem moveLease_cases {process' : ℕ} {a b : LeasePhase}
    (hm : moveLease process' c a s = some (t, b)) :
    t.records = s.records ∧ t.queues = s.queues ∧
      (t.lease = s.lease ∨ s.lease = none ∨
        s.lease = some ⟨process', c⟩ ∧ ∀ e ∈ s.queues process', e.2 ≠ c) := by
  cases a with
  | acquiring =>
    simp only [moveLease] at hm
    split at hm
    · next hl =>
      cases hm
      exact ⟨rfl, rfl, Or.inr (Or.inl hl)⟩
    · cases hm
      exact ⟨rfl, rfl, Or.inl rfl⟩
  | held =>
    simp only [moveLease] at hm
    split at hm
    · next hq =>
      cases hm
      refine ⟨rfl, rfl, ?_⟩
      by_cases hcur : s.isCurrent process' c = true
      · refine Or.inr (Or.inr ⟨of_decide_eq_true hcur, ?_⟩)
        intro e he
        exact of_decide_eq_true (List.all_eq_true.mp hq e he)
      · exact Or.inl (if_neg hcur)
    · cases hm
  | released | unavailable => cases hm

theorem Relies.lease {dead : ℕ → Bool} {process' d : ℕ} {a b : LeasePhase}
    (h : Relies S runId dead process c i before p s)
    (hm : moveLease process' d a s = some (t, b)) :
    Relies S runId dead process c i before p t := by
  obtain ⟨hr, hq, hl⟩ := moveLease_cases hm
  refine ⟨h.owner, hr ▸ h.counted,
    fun e he => (h.answered e he).mono h.counted (hr ▸ List.prefix_rfl), hr ▸ h.missed, ?_⟩
  intro hd
  have hown := h.own hd
  refine hown.frame (fun hq' => hq ▸ hown.waits hq') ?_ ?_ (fun _ => hr)
  · intro hi
    rw [Directory.turn, hq]
    exact hown.inside hi
  · intro hlease
    have hcur := hown.leased hlease
    rcases hl with hl | hl | ⟨hl, hfree⟩
    · exact hl.trans hcur
    · rw [hl] at hcur
      cases hcur
    · -- the lease is not released under a call that is in the queue
      rw [hl] at hcur
      have hsame := Option.some.inj hcur
      have hprocess : process' = process := congrArg Lease.process hsame
      have htoken : d = i.lease := congrArg Lease.token hsame
      subst hprocess
      exact absurd htoken.symm
        (hfree _ (hown.waits (CreatePhase.queued_of_inside (CreatePhase.inside_of_leased hlease))))

/-- **Every step keeps what the calls rely on.** -/
theorem attemptOutline_sound :
    (attemptOutline S runId).Sound (program S runId) fun _ _ => True where
  begun := by
    intro w process k _ _ he _
    refine Outline.Begun.separate ?_
    cases k with
    | lease a => trivial
    | create i before p =>
      cases p with
      | called =>
        obtain ⟨hb, ho⟩ := of_decide_eq_true (p := before = w.shared.records.length ∧ _) he
        exact ⟨ho, hb.le, (fun _ h => by cases h), (fun h => by cases h), fun _ => {
          ofRun := fun h => by cases h
          waits := fun h => by cases h
          inside := fun h => by cases h
          leased := fun h => by cases h
          record := fun _ h => by cases h
          fresh := fun _ h => by cases h
          checked := fun _ h => by cases h
          sized := fun _ h => by cases h
          alone := rfl }⟩
      | _ => cases he
  move := by
    intro w c ⟨process, k⟩ o t k' hw _ hc hd hm
    have hk : Kept S w.shared := hw.all
    cases k with
    | lease a =>
      obtain ⟨⟨u, b⟩, hl, hr⟩ := Option.map_eq_some_iff.mp hm
      cases hr
      obtain ⟨hrec, -, -⟩ := moveLease_cases hl
      refine Outline.Kept.separate ⟨hrec ▸ hk.chained, hrec ▸ hk.readable, hrec ▸ hk.nodup⟩
        trivial ?_
      intro d b hdc hb
      have hrel := hw.each d b hb
      obtain ⟨process', k''⟩ := b
      cases k'' with
      | lease a' => trivial
      | create j count p' => exact Relies.lease hrel hl
    | create i before p =>
      obtain ⟨⟨u, q⟩, hmove, hr⟩ := Option.map_eq_some_iff.mp hm
      cases hr
      have hrel : Relies S runId w.dead process c i before p w.shared := hw.each c _ hc
      refine Outline.Kept.separate
        (hk.move (hrel.own hd) hrel.owner (changed_move hmove)) (hrel.move hk hd hmove) ?_
      intro d b hdc hb
      have hrel' := hw.each d b hb
      obtain ⟨process', k''⟩ := b
      cases k'' with
      | lease a' => trivial
      | create j count p' => exact hrel.other hd hdc hrel' hmove
  die := by
    intro w process hw _
    refine Outline.Stable.separate ⟨hw.all.chained, hw.all.readable, hw.all.nodup⟩ ?_
    intro c ⟨process', k⟩ hc
    have hrel := hw.each c _ hc
    cases k with
    | lease a => trivial
    | create i before p =>
      refine ⟨hrel.owner, hrel.counted,
        fun e he => (hrel.answered e he).mono hrel.counted List.prefix_rfl, hrel.missed, ?_⟩
      intro hd
      have hne : process' ≠ process := by
        rintro rfl
        rw [Function.update_self] at hd
        cases hd
      rw [Function.update_of_ne hne] at hd
      have hown := hrel.own hd
      refine hown.frame hown.waits hown.inside ?_ (fun _ => rfl)
      intro hl
      show w.shared.lease.filter _ = _
      rw [hown.leased hl, Option.filter_some, if_pos (decide_eq_true hne)]
  outside := fun _ e _ _ _ _ => e.elim

/-! ## Runs -/

variable (S) in
/-- What the records of a run and the calls that make them look like. -/
structure RecordsKept (runId : RunId) (w : World Directory Phase) : Prop where
  /-- The store lists the records, and they are a chain. -/
  listed : list S w.shared = some w.shared.records
  chained : Chained w.shared.records
  /-- An attempt is recorded once. -/
  once : ∀ x ∈ w.shared.records, ∀ y ∈ w.shared.records, x.attemptId = y.attemptId → x = y
  /-- A creation answers with the stored record of its attempt. -/
  stored : ∀ c process i before x, w.calls c = some ⟨process, .create i before (.ended (.returned x))⟩ →
    x ∈ w.shared.records ∧ x.attemptId = i.plan.attemptId
  /-- A creation whose record was there when it was called is not refused. -/
  repeated : ∀ c process i before why,
    w.calls c = some ⟨process, .create i before (.ended (.refused why))⟩ →
      ∀ x ∈ w.shared.records.take before, ¬ Repeats S runId i x

theorem RecordsKept.of_holds {w : World Directory Phase}
    (hw : (attemptOutline S runId).Holds w) : RecordsKept S runId w := by
  have hk : Kept S w.shared := hw.all
  refine ⟨hk.chained.list_eq hk.readable, hk.chained, ?_, ?_, ?_⟩
  · exact fun x hx y hy he => List.inj_on_of_nodup_map hk.nodup hx hy he
  · intro c process i before x hc
    have hrel : Relies S runId w.dead process c i before (.ended (.returned x)) w.shared :=
      hw.each c _ hc
    have ha := hrel.answered _ rfl
    exact ⟨ha.1, ha.2.1⟩
  · intro c process i before why hc
    have hrel : Relies S runId w.dead process c i before (.ended (.refused why)) w.shared :=
      hw.each c _ hc
    exact hrel.answered _ rfl

variable (S) in
/-- What a creation of a recorded attempt does. -/
structure ReturnsStored (runId : RunId) (w : World Directory Phase) : Prop where
  /-- It ends with the stored record, unless the step that ends it fails in the file system or finds
  that the lease is not its seat's any more. -/
  ends : ∀ c o v process i before p e, step S runId w (.move c o) = some v →
    w.calls c = some ⟨process, .create i before p⟩ →
      v.calls c = some ⟨process, .create i before (.ended e)⟩ →
        ∀ x ∈ w.shared.records.take before, Repeats S runId i x →
          e = .returned x ∨ e = .failed ∧ o = .fails ∨
            e = .fenced ∧ w.shared.isCurrent process i.lease = false
  /-- Called under the lease and alone in its process, it returns the record and changes none. -/
  returns : ∀ process i x now, w.dead process = false →
    w.shared.isCurrent process i.lease = true → w.shared.queues process = [] →
      i.ownerId = i.plan.ownerId → x ∈ w.shared.records → Repeats S runId i x →
        ∃ v, Runs.exec (step S runId) w
            (.begin process (.create i w.shared.records.length .called) ::
              List.replicate 4 (.move w.next (.ok now))) = some v ∧
          v.calls w.next =
            some ⟨process, .create i w.shared.records.length (.ended (.returned x))⟩ ∧
          v.shared.records = w.shared.records

theorem returnsStored_ends {w : World Directory Phase}
    (hw : (attemptOutline S runId).Holds w) {v : World Directory Phase} {e : Ending}
    {x : AttemptRecord} (hstep : step S runId w (.move c o) = some v)
    (hc : w.calls c = some ⟨process, .create i before p⟩)
    (hv : v.calls c = some ⟨process, .create i before (.ended e)⟩)
    (hx : x ∈ w.shared.records.take before) (hr : Repeats S runId i x) :
    e = .returned x ∨ e = .failed ∧ o = .fails ∨
      e = .fenced ∧ w.shared.isCurrent process i.lease = false := by
  obtain ⟨a, t, k, ha, hd, hm, rfl⟩ := World.step_move hstep
  cases hc.symm.trans ha
  have hrel : Relies S runId w.dead process c i before p w.shared := hw.each c _ hc
  obtain ⟨⟨u, q⟩, hmove, hq⟩ := Option.map_eq_some_iff.mp hm
  cases hq
  have hend := Option.some.inj ((World.setCall_self c _).symm.trans hv)
  cases hend
  exact hrel.again hw.all hd hmove hx hr

theorem step_create {w : World Directory Phase} (hd : w.dead process = false)
    (hc : w.calls c = some ⟨process, .create i before p⟩) (hs : w.shared = s)
    (hm : moveCreate S runId process c i p o s = some (t, q)) :
    ∃ v, step S runId w (.move c o) = some v ∧ v.dead process = false ∧
      v.calls c = some ⟨process, .create i before q⟩ ∧ v.shared = t := by
  refine ⟨{ w.setCall c ⟨process, .create i before q⟩ with shared := t }, ?_, hd,
    World.setCall_self c _, rfl⟩
  simp only [step, World.step, hc, hd, hs, program, movePhase, hm, Bool.false_eq_true, if_false,
    Option.map_some]

theorem returnsStored_returns {w : World Directory Phase} (hk : Kept S w.shared)
    (hd : w.dead process = false) (hl : w.shared.isCurrent process i.lease = true)
    (hq : w.shared.queues process = []) (howner : i.ownerId = i.plan.ownerId)
    {x : AttemptRecord} (hx : x ∈ w.shared.records) (hr : Repeats S runId i x) (now : JsString) :
    ∃ v, Runs.exec (step S runId) w
        (.begin process (.create i w.shared.records.length .called) ::
          List.replicate 4 (.move w.next (.ok now))) = some v ∧
      v.calls w.next = some ⟨process, .create i w.shared.records.length (.ended (.returned x))⟩ ∧
      v.shared.records = w.shared.records := by
  obtain ⟨hvalid, hid, hmatches⟩ := hr
  obtain ⟨hrun, hschema, hidentity⟩ := of_decide_eq_true hvalid
  obtain ⟨w₁, h₁, hd₁, hc₁, hs₁⟩ : ∃ v,
      step S runId w (.begin process (.create i w.shared.records.length .called)) = some v ∧
        v.dead process = false ∧
          v.calls w.next = some ⟨process, .create i w.shared.records.length .called⟩ ∧
            v.shared = w.shared :=
    ⟨_, if_pos ⟨hd, decide_eq_true ⟨rfl, howner⟩⟩, hd, World.setCall_self _ _, rfl⟩
  have hcalled : moveCreate S runId process w.next i .called (.ok now) w.shared =
      some (w.shared.enqueue process (w.next, i.lease), .waiting) := by
    simp only [moveCreate, nextPhase, hrun, ne_eq, not_true_eq_false, if_false, Option.map_some]
  have hturn : (w.shared.enqueue process (w.next, i.lease)).turn process = some w.next := by
    simp only [Directory.turn, Directory.enqueue, Function.update_self, hq, List.nil_append,
      List.head?_cons, Option.map_some]
  have hfind : w.shared.find i.plan.attemptId = some x := by
    cases hf : w.shared.find i.plan.attemptId with
    | none => exact absurd hid (find_eq_none.mp hf x hx)
    | some y =>
      have hy : y.attemptId = i.plan.attemptId := by
        unfold Directory.find at hf
        simpa using List.find?_some hf
      rw [List.inj_on_of_nodup_map hk.nodup (List.mem_of_find?_eq_some hf) hx (hy.trans hid.symm)]
  have hwaiting : moveCreate S runId process w.next i .waiting (.ok now)
      (w.shared.enqueue process (w.next, i.lease)) =
        some (w.shared.enqueue process (w.next, i.lease), .entered) := by
    simp only [moveCreate, nextPhase, hturn, if_true, Option.map_some]
  have hentered : moveCreate S runId process w.next i .entered (.ok now)
      (w.shared.enqueue process (w.next, i.lease)) =
        some (w.shared.enqueue process (w.next, i.lease), .made ⟨i.fields, now⟩) := by
    have hl' : (w.shared.enqueue process (w.next, i.lease)).isCurrent process i.lease = true := hl
    simp only [moveCreate, nextPhase, hl', hschema, hidentity, Bool.true_eq_false, if_false,
      and_self, if_true, Option.map_some]
  have hmade : moveCreate S runId process w.next i (.made ⟨i.fields, now⟩) (.ok now)
      (w.shared.enqueue process (w.next, i.lease)) =
        some ((w.shared.enqueue process (w.next, i.lease)).leave process w.next,
          .ended (.returned x)) := by
    have hf : (w.shared.enqueue process (w.next, i.lease)).find i.fields.attemptId = some x := hfind
    have hending : existingEnding S ⟨i.fields, now⟩ x = .returned x := by
      unfold existingEnding
      rw [if_neg (by rw [hk.readable x hx]; exact Bool.noConfusion), if_pos hmatches]
    simp only [moveCreate, nextPhase, hf, hending, Option.map_some]
  obtain ⟨w₂, h₂, hd₂, hc₂, hs₂⟩ := step_create hd₁ hc₁ hs₁ hcalled
  obtain ⟨w₃, h₃, hd₃, hc₃, hs₃⟩ := step_create hd₂ hc₂ hs₂ hwaiting
  obtain ⟨w₄, h₄, hd₄, hc₄, hs₄⟩ := step_create hd₃ hc₃ hs₃ hentered
  obtain ⟨v, h₅, -, hv, hsv⟩ := step_create hd₄ hc₄ hs₄ hmade
  refine ⟨v, ?_, hv, hsv ▸ rfl⟩
  simp only [List.replicate, Runs.exec, h₁, h₂, h₃, h₄, h₅, Option.bind_some]

theorem holds_emptyDirectory (dead : ℕ → Bool) :
    (attemptOutline S runId).Holds (World.fresh dead emptyDirectory) :=
  Outline.holds_fresh ⟨chained_nil, fun _ h => (by cases h), List.nodup_nil⟩

theorem holds_exec_emptyDirectory {dead : ℕ → Bool} {as : List Act} {w : World Directory Phase}
    (h : Runs.exec (step S runId) (World.fresh dead emptyDirectory) as = some w) :
    (attemptOutline S runId).Holds w :=
  attemptOutline_sound.holds_exec (holds_emptyDirectory dead) (Runs.meets_true _ _) h

/-- **The attempt records of a run are a chain**, in every state of a run of any calls, and their
creations answer with them. -/
theorem attemptRecords_chained {dead : ℕ → Bool} {as : List Act} {w : World Directory Phase}
    (h : Runs.exec (step S runId) (World.fresh dead emptyDirectory) as = some w) :
    RecordsKept S runId w ∧ ReturnsStored S runId w :=
  have hw := holds_exec_emptyDirectory h
  ⟨.of_holds hw, ⟨fun _ _ _ _ _ _ _ _ hstep hc hv _ hx hr => returnsStored_ends hw hstep hc hv hx hr,
    fun _ _ _ now hd hl hq ho hx hr => returnsStored_returns hw.all hd hl hq ho hx hr now⟩⟩

theorem records_exec {w v : World Directory Phase} {as : List Act}
    (h : Runs.exec (step S runId) w as = some v) : w.shared.records <+: v.shared.records := by
  refine Runs.exec_preserves (fun u => w.shared.records <+: u.shared.records) ?_ List.prefix_rfl h
  intro u a u' hu hstep
  cases a with
  | begin process k =>
    obtain ⟨-, -, rfl⟩ := World.step_begin hstep
    exact hu
  | move c o =>
    obtain ⟨⟨process, k⟩, t, k', -, -, hm, rfl⟩ := World.step_move hstep
    cases k with
    | lease a =>
      obtain ⟨⟨t, b⟩, hl, hr⟩ := Option.map_eq_some_iff.mp hm
      cases hr
      exact (moveLease_cases hl).1 ▸ hu
    | create i before p =>
      obtain ⟨⟨t, q⟩, hmove, hr⟩ := Option.map_eq_some_iff.mp hm
      cases hr
      exact hu.trans (changed_move hmove).mono
  | die process =>
    cases hstep
    exact hu
  | outside e => exact e.elim

end Store

end AttemptRecords

end PiSubagent
