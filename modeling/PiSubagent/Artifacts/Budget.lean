import PiSubagent.Artifacts.Store
import PiSubagent.Service.AttemptLineage

/-!
# Artifacts within the budget of a run

The artifact store of a run beside its life. Every attempt puts its output once, while its executor
runs, with the limits that `startAttempt` computes from the root plan.

* `RunLife.FirstLaunch`: a launch hands its attempt to the executor only while the run has handed over
  none; **`RunLife.executed_bounded`**.
* `attemptLimits`, `Run.step`: the store that `startAttempt` opens, and the run with it, whose retries
  and resumes read before they have the lease.
* **`artifactsKept`**: stored artifacts stay, and no put is refused for the total.
* `refused_after_relaunch`: a run that is launched twice.
-/

namespace PiSubagent

open JsonText

namespace RunLife

open Runs

variable {D : Planner} {root : Plan} {s t : RunState}

/-! ## Executions -/

/-- A launch hands its attempt to the executor only while the run has handed over none. -/
def FirstLaunch (D : Planner) (s : RunState) : RunAct → Prop
  | .launch seat cut | .launchUndone seat cut =>
    (StartCall.launch.written D s seat cut).any Effect.isExecute = true → s.executed = []
  | _ => True

instance (D : Planner) (s : RunState) (a : RunAct) : Decidable (FirstLaunch D s a) := by
  cases a <;> unfold FirstLaunch <;> infer_instance

theorem executed_of_written {call : StartCall} {seat cut : ℕ} {undo : Bool}
    (h : s.step D (call.act seat cut undo) = some t)
    (hw : (call.written D s seat cut).any Effect.isExecute = false) : t.executed = s.executed := by
  obtain ⟨es, he, rfl⟩ := step_act h
  rw [StartCall.written, he, Option.getD_some] at hw
  obtain ⟨-, -, -, hundo, -⟩ := foldl_abandonedCheckout seat es cut undo
    ((es.take cut).foldl (RunState.perform seat) s)
  rw [hundo, foldl_executed, List.filterMap_eq_nil_iff.mpr, List.append_nil]
  intro e hm
  have hnot := List.any_eq_false.mp hw e hm
  cases e with
  | execute run => exact absurd rfl hnot
  | _ => rfl

/-- **Every attempt that is handed to the executor is one more of the records.** -/
theorem executed_bounded {a : RunAct} (h : Lined root s)
    (hle : s.executed.length ≤ s.files.attempts.length) (hok : FirstLaunch D s a)
    (ht : s.step D a = some t) : t.executed.length ≤ t.files.attempts.length := by
  by_cases ha : a.isStart = true
  · obtain ⟨call, cut, undo, hact⟩ := RunAct.isStart_cases ha
    rw [hact] at ht hok
    obtain ⟨i, hi, ho, -⟩ := start_spec ht
    have hgrown : s.files.attempts.length ≤ t.files.attempts.length := by
      rcases ho.attempts with hsame | ⟨id, -, -, -, happ⟩
      · rw [hsame]
      · rw [happ, List.length_append]
        omega
    rcases ho.executed with ⟨hsame, -⟩ | ⟨happ, -, b, hb, -, hord, -⟩
    · rw [hsame]
      omega
    · rcases h.input hi with ⟨-, hkind, -⟩ | ⟨latest, hl, -, hnext, -⟩
      · -- a launch, and the first
        have hlaunch : s.executed = [] := by
          cases hi with
          | launch =>
            by_contra hne
            have hw : (StartCall.launch.written D s a.seat cut).any Effect.isExecute = false := by
              cases undo <;> exact Bool.not_eq_true _ ▸ fun hany => hne (hok hany)
            have hsame := executed_of_written ht hw
            rw [happ] at hsame
            exact absurd (congrArg List.length hsame) (by simp)
          | retry | resume => cases hkind
        rw [happ, hlaunch]
        exact List.length_pos_of_mem hb
      · rcases ho.attempts with hsame | ⟨id, -, -, -, hnew⟩
        · -- the attempt was there, so it is no retry or resume
          rw [hsame] at hb
          obtain ⟨n, hn, rfl⟩ := List.getElem_of_mem hb
          rw [h.ordinals n hn] at hord
          have hlen := h.length hl
          omega
        · rw [happ, hnew, List.length_append, List.length_append]
          exact Nat.add_le_add_right hle 1
  · have hf := step_frame (Bool.not_eq_true _ ▸ ha) ht
    rw [hf.executed, hf.attempts]
    exact hle

theorem executed_mono {a : RunAct} (ht : s.step D a = some t) :
    s.executed.length ≤ t.executed.length := by
  by_cases ha : a.isStart = true
  · obtain ⟨call, cut, undo, hact⟩ := RunAct.isStart_cases ha
    rw [hact] at ht
    obtain ⟨i, hi, ho, -⟩ := start_spec ht
    rcases ho.executed with ⟨hsame, -⟩ | ⟨happ, -⟩
    · rw [hsame]
    · rw [happ, List.length_append]
      omega
  · rw [(step_frame (Bool.not_eq_true _ ▸ ha) ht).executed]

theorem lined_left (seat : ℕ) {es : List Effect} (h : Lined root s)
    (hes : ∀ e ∈ es, e.isLeft = true) :
    Lined root (es.foldl (RunState.perform seat) s) ∧
      (es.foldl (RunState.perform seat) s).executed = s.executed ∧
        (es.foldl (RunState.perform seat) s).files.attempts = s.files.attempts := by
  induction es generalizing s with
  | nil => exact ⟨h, rfl, rfl⟩
  | cons e es ih =>
    have hleft := hes e List.mem_cons_self
    have hsame : (s.perform seat e).executed = s.executed ∧
        (s.perform seat e).files.attempts = s.files.attempts := by
      cases e with
      | append _ | reserveWorktree _ | reserveSnapshot _ | removeSnapshot _ => exact ⟨rfl, rfl⟩
      | _ => cases hleft
    obtain ⟨h1, h2, h3⟩ := ih (h.perform_left hleft) fun e he => hes e (List.mem_cons_of_mem _ he)
    exact ⟨h1, h2.trans hsame.1, h3.trans hsame.2⟩

end RunLife

namespace Artifacts

open RunLife Runs OrderedMap

variable {δ : Type} [DecidableEq δ] {D : Planner}

/-! ## A run and its store -/

/-- The limits of `startAttempt`. -/
def attemptLimits (sha256 : List UInt8 → δ) (injective : Function.Injective sha256) (root : Plan)
    (outputBytes : ℕ) : Limits δ where
  maxArtifactBytes := outputBytes
  maxTotalBytes := outputBytes * (root.limits.retries + root.limits.resumes + 1)
  ordered := Nat.le_mul_of_pos_right outputBytes (Nat.succ_pos _)
  sha256 := sha256
  injective := injective

/-- A run, its store, and how many attempts had been handed over when the last put was called. -/
structure Run (δ : Type) where
  life : LateState
  store : Store δ
  called : ℕ

/-- A run before its launch. -/
def Run.fresh (root : Plan) : Run δ := ⟨.fresh root, .fresh, 0⟩

/-- A step of a run with its store. -/
inductive RunStep (δ : Type) where
  | life (act : LateAct)
  /-- The executor of a seat puts its output. -/
  | put (seat : ℕ) (content : List UInt8) (mediaType : JsString)
  | move (i : Input δ)
  /-- A call of the put fails. -/
  | fail (written : ℕ)
  /-- The process of a seat dies. -/
  | die (seat written : ℕ)

/-- The executor of a seat runs. -/
def executing (s : RunState) (seat : ℕ) : Bool :=
  match s.seats seat with
  | some run =>
    match run.flight with
    | .running begun => begun
    | _ => false
  | none => false

/-- The step waits for the put under way. -/
def awaitsPut : LateAct → Bool
  | .other (.finish ..) | .other (.reject _) | .other (.die _) => true
  | _ => false

/-- One step of a run with its store. -/
def Run.step (L : Limits δ) (D : Planner) (s : Run δ) : RunStep δ → Option (Run δ)
  | .life act =>
    if awaitsPut act = true ∧ s.store.active.isSome = true then none
    else (s.life.step D act).map fun life => { s with life := life }
  | .put seat content mediaType =>
    if executing s.life.run seat = true ∧ s.called < s.life.run.executed.length then
      (s.store.step L (.put content mediaType)).map fun store =>
        { s with store := store, called := s.life.run.executed.length }
    else none
  | .move i => (s.store.step L (.move i)).map fun store => { s with store := store }
  | .fail written => (s.store.step L (.die written)).map fun store => { s with store := store }
  | .die seat written =>
    (s.life.step D (.other (.die seat))).bind fun life =>
      if s.life.run.lease = some seat then
        (s.store.step L (.die written)).map fun store => { s with life := life, store := store }
      else some { s with life := life }

/-! ## The puts of a run -/

variable {root : Plan} {L : Limits δ} {s t : Run δ}

/-- Every attempt has put at most once, and no put was refused for the total. -/
structure Run.Within (D : Planner) (root : Plan) (L : Limits δ) (s : Run δ) : Prop where
  prepared : s.life.Prepared D
  lined : Lined root s.life.run
  executed : s.life.run.executed.length ≤ s.life.run.files.attempts.length
  called : s.called ≤ s.life.run.executed.length
  begun : s.store.begun ≤ s.called
  good : s.store.Good L
  counted : s.store.Counted L
  refusals : ∀ e ∈ s.store.refusals, e.isTotal = false

theorem Run.within_fresh (root : Plan) (L : Limits δ) : (Run.fresh root).Within D root L where
  prepared := prepared_fresh root
  lined := lined_freshRun root
  executed := Nat.le_refl _
  called := Nat.le_refl _
  begun := Nat.le_refl _
  good := Store.good_fresh L
  counted := Store.counted_fresh L
  refusals := fun _ h => absurd h List.not_mem_nil

/-- A start does not hand over an attempt that is on record, and a launch hands over the first. -/
def InTime (D : Planner) (w : LateState) (act : LateAct) : Prop :=
  w.timely act = true ∧ ∀ a ∈ w.act act, FirstLaunch D w.run a

instance (D : Planner) (w : LateState) (act : LateAct) : Decidable (InTime D w act) := by
  unfold InTime
  infer_instance

theorem Run.Within.life {act : LateAct} {life : LateState} (h : s.Within D root L)
    (hok : InTime D s.life act) (ht : s.life.step D act = some life) :
    Run.Within D root L { s with life := life } := by
  have hnext : Lined root life.run ∧
      life.run.executed.length ≤ life.run.files.attempts.length ∧
        s.life.run.executed.length ≤ life.run.executed.length := by
    rcases late_step h.prepared hok.1 ht with hsame | ⟨a, ha, hrun⟩ | ⟨-, seat, es, hes, hrun⟩
    · rw [hsame]
      exact ⟨h.lined, h.executed, le_refl _⟩
    · exact ⟨lined_step h.lined hrun, executed_bounded h.lined h.executed (hok.2 a ha) hrun,
        executed_mono hrun⟩
    · obtain ⟨hlined, hexecuted, hattempts⟩ := lined_left seat h.lined hes
      rw [hrun, hexecuted, hattempts]
      exact ⟨hlined, h.executed, le_refl _⟩
  exact {
    prepared := h.prepared.step ht
    lined := hnext.1
    executed := hnext.2.1
    called := h.called.trans hnext.2.2
    begun := h.begun
    good := h.good
    counted := h.counted
    refusals := h.refusals }

theorem Run.Within.store {a : Act δ} {store : Store δ} (h : s.Within D root L)
    (htotal : L.maxArtifactBytes * (root.limits.retries + root.limits.resumes + 1) ≤ L.maxTotalBytes)
    (ht : s.store.step L a = some store) {called : ℕ} (hcalled : called ≤ s.life.run.executed.length)
    (hbegun : store.begun ≤ called) : Run.Within D root L ⟨s.life, store, called⟩ where
  prepared := h.prepared
  lined := h.lined
  executed := h.executed
  called := hcalled
  begun := hbegun
  good := Store.good_step h.good ht
  counted := Store.counted_step h.good h.counted ht
  refusals := by
    intro e he
    have hputs : s.store.begun ≤ root.limits.retries + root.limits.resumes + 1 := by
      have h1 := h.begun
      have h2 := h.called
      have h3 := h.executed
      have h4 := h.lined.bounded
      omega
    have hroom := (Nat.mul_le_mul_left L.maxArtifactBytes hputs).trans htotal
    rcases Store.not_refused h.good h.counted hroom ht he with hold | hnew
    · exact h.refusals e hold
    · exact hnew

theorem Store.begun_step {u v : Store δ} {a : Act δ} (h : u.step L a = some v)
    (ha : ∀ content mediaType, a ≠ .put content mediaType) : v.begun = u.begun := by
  cases a with
  | put content mediaType => exact absurd rfl (ha content mediaType)
  | move i =>
    simp only [Store.step] at h
    split at h
    · cases h
    · obtain ⟨r, -, rfl⟩ := Option.map_eq_some_iff.mp h
      exact Store.begun_next _ _
  | die written =>
    simp only [Store.step] at h
    split at h <;>
    · cases h
      rfl

/-- The condition on a step. -/
def FirstLaunches (D : Planner) (s : Run δ) : RunStep δ → Prop
  | .life act => InTime D s.life act
  | _ => True

instance (D : Planner) (s : Run δ) (a : RunStep δ) : Decidable (FirstLaunches D s a) := by
  cases a <;> unfold FirstLaunches <;> infer_instance

/-- **Every step in which no attempt is handed over again keeps the puts within the limit.** -/
theorem Run.within_step {a : RunStep δ} (h : s.Within D root L)
    (htotal : L.maxArtifactBytes * (root.limits.retries + root.limits.resumes + 1) ≤ L.maxTotalBytes)
    (hok : FirstLaunches D s a) (ht : s.step L D a = some t) : t.Within D root L := by
  cases a with
  | life a =>
    simp only [Run.step] at ht
    split_ifs at ht
    obtain ⟨life, hlife, rfl⟩ := Option.map_eq_some_iff.mp ht
    exact h.life hok hlife
  | put seat content mediaType =>
    simp only [Run.step] at ht
    split_ifs at ht with hc
    obtain ⟨store, hstore, rfl⟩ := Option.map_eq_some_iff.mp ht
    refine h.store htotal hstore (Nat.le_refl _) ?_
    have hbegun := h.begun
    rcases Store.step_cases hstore with ⟨-, -, -, ⟨-, hb⟩ | ⟨-, hb, -⟩⟩ | ⟨i, put, d', q, -, -, rfl⟩
    · omega
    · omega
    · rw [Store.begun_next]
      omega
  | move i | fail written =>
    simp only [Run.step] at ht
    obtain ⟨store, hstore, rfl⟩ := Option.map_eq_some_iff.mp ht
    refine h.store htotal hstore h.called ?_
    rw [Store.begun_step hstore fun _ _ hne => by cases hne]
    exact h.begun
  | die seat written =>
    simp only [Run.step] at ht
    obtain ⟨life, hlife, ht⟩ := Option.bind_eq_some_iff.mp ht
    have hok : InTime D s.life (.other (.die seat)) :=
      ⟨rfl, fun a ha => by cases ha; exact trivial⟩
    have hl := h.life hok hlife
    split_ifs at ht
    · obtain ⟨store, hstore, rfl⟩ := Option.map_eq_some_iff.mp ht
      refine hl.store htotal hstore hl.called ?_
      rw [Store.begun_step hstore fun _ _ hne => by cases hne]
      exact h.begun
    · cases ht
      exact hl

/-- **Artifacts.** In every state of every run of a store an export of what a put has returned
answers with what was put, then and later; a stored artifact stays; no two have one content; and they
are within the limit. In a run that hands no attempt over again no put is refused for the total. -/
theorem artifactsKept (sha256 : List UInt8 → δ) (hinj : Function.Injective sha256)
    (D : Planner) (root : Plan) (outputBytes : ℕ) :
    (∀ L : Limits δ, L.sha256 = sha256 → ∀ acts s, exec (Store.step L) .fresh acts = some s →
      (∀ ref content, (ref, content) ∈ s.returned → ref.sha256 = sha256 content ∧
        ref.bytes = content.length ∧
        ∀ acts₁ acts₂ t u, exec (Store.step L) s acts₁ = some t → exec (Store.step L) t acts₂ = some u →
          ∀ maxBytes ≤ maxSafeInteger, ref.bytes ≤ maxBytes →
            exportArtifact L t.directory u.directory ref maxBytes = .ok (ref, content)) ∧
      (∀ digest file, get digest s.directory.blobs = some file → ∀ acts₁ t,
        exec (Store.step L) s acts₁ = some t → get digest t.directory.blobs = some file) ∧
      (s.directory.blobs.map Prod.snd).Nodup ∧ bytesOf s.directory.blobs ≤ L.maxTotalBytes) ∧
    ∀ acts s, Meets (Run.step (attemptLimits sha256 hinj root outputBytes) D) (FirstLaunches D)
        (.fresh root) acts →
      exec (Run.step (attemptLimits sha256 hinj root outputBytes) D) (.fresh root) acts = some s →
        ∀ e ∈ s.store.refusals, e.isTotal = false := by
  constructor
  · rintro L rfl acts s hs
    have hgood : s.Good L := Store.good_exec (Store.good_fresh L) hs
    refine ⟨?_, ?_, hgood.sound.contents_nodup, hgood.sound.bounded⟩
    · intro ref content hr
      obtain ⟨href, -, -⟩ := hgood.returned _ hr
      refine ⟨congrArg Ref.sha256 href, congrArg Ref.bytes href, ?_⟩
      intro acts₁ acts₂ t u ht hu maxBytes hmax hsize
      exact hgood.export_returned hr ht hu hmax hsize
    · intro digest file hf acts₁ t ht
      exact Store.get_exec hgood ht hf
  · intro acts s hm hs
    have hwithin := exec_invariant
      (Run.Within D root (attemptLimits sha256 hinj root outputBytes))
      (fun u a v hu hok hv => Run.within_step hu (Nat.le_refl _) hok hv)
      (Run.within_fresh root _) hm hs
    exact hwithin.refusals

/-- The digests of `a` and `b`, and a form of its own for every other content. -/
def letterDigest (content : List UInt8) : JsString :=
  if content = [97] then
    ofString "ca978112ca1bbdcafac231b39a23dc4da786eff8147c4e72b9807785afee48bb"
  else if content = [98] then
    ofString "3e23e8160039594a33894f6564e1b1348bbd7a0088d42c4acb73eeaed59c009d"
  else 0 :: content.map UInt8.toUInt16

theorem letterDigest_injective : Function.Injective letterDigest := by
  have hmap : Function.Injective (List.map UInt8.toUInt16) :=
    List.map_injective_iff.mpr fun _ _ => UInt8.toUInt16_inj.mp
  intro a b h
  unfold letterDigest at h
  by_cases ha : a = [97] ∨ a = [98]
  · by_cases hb : b = [97] ∨ b = [98]
    · rcases ha with rfl | rfl <;> rcases hb with rfl | rfl
      · rfl
      · exact absurd h (by decide)
      · exact absurd h (by decide)
      · rfl
    · obtain ⟨hb₁, hb₂⟩ := not_or.mp hb
      rw [if_neg hb₁, if_neg hb₂] at h
      have hhead := congrArg List.head? h
      rw [List.head?_cons] at hhead
      rcases ha with rfl | rfl <;> exact absurd hhead (by decide)
  · obtain ⟨ha₁, ha₂⟩ := not_or.mp ha
    rw [if_neg ha₁, if_neg ha₂] at h
    by_cases hb : b = [97] ∨ b = [98]
    · have hhead := congrArg List.head? h
      rw [List.head?_cons] at hhead
      rcases hb with rfl | rfl <;> exact absurd hhead (by decide)
    · obtain ⟨hb₁, hb₂⟩ := not_or.mp hb
      rw [if_neg hb₁, if_neg hb₂] at h
      exact hmap (List.cons.inj h).2

/-- A put beside the files of some names. -/
def putBeside (seat : ℕ) (byte : UInt8) (names : List JsString) : List (RunStep JsString) :=
  [.put seat [byte] (ofString "text/plain"), .move .none, .move .none, .move (.names names)] ++
    names.map (fun _ => .move .none) ++
    [.move .none, .move .none, .move .none, .move .none, .move .none]

/-- A seat launches the run, and its attempt puts and fails. -/
def launchPut (seat : ℕ) (byte : UInt8) : List (RunStep JsString) :=
  [.life (.other (.launch seat 5)), .life (.other (.begin seat))] ++ putBeside seat byte [] ++
    [.life (.other (.finish seat (failed .notNeeded) 5)), .life (.other (.settle seat none))]

/-- A run that permits so many retries. -/
def retriesPlan (retries : ℕ) : Plan :=
  { livePlan with limits := { livePlan.limits with retries := retries, resumes := 0 } }

/-- The store of a run whose attempts put a byte each. -/
def letterLimits (retries : ℕ) : Limits JsString :=
  attemptLimits letterDigest letterDigest_injective (retriesPlan retries) 1

/-- A digest that grows with the ordinal. -/
def countingDigest : Planner := .exact fun _ _ ordinal _ => List.replicate ordinal 97

/-- An attempt and its retry put a byte each. -/
theorem artifactsKept_retry : ∃ s,
    exec (Run.step (letterLimits 1) countingDigest) (.fresh (retriesPlan 1))
      (launchPut 0 97 ++ [.life (.request 0 .retry), .life (.start 0 5 false),
        .life (.other (.begin 0))] ++
        putBeside 0 98 [letterDigest [97]]) = some s ∧
      s.store.returned.length = 2 ∧ ∀ e ∈ s.store.refusals, e.isTotal = false := by
  have hrun : (exec (Run.step (letterLimits 1) countingDigest) (.fresh (retriesPlan 1))
      (launchPut 0 97 ++ [.life (.request 0 .retry), .life (.start 0 5 false),
        .life (.other (.begin 0))] ++
        putBeside 0 98 [letterDigest [97]])).any
          (fun s => decide (s.store.returned.length = 2)) = true := by
    decide +kernel
  obtain ⟨s, hs, hlen⟩ := (Option.any_eq_true _ _).mp hrun
  refine ⟨s, hs, of_decide_eq_true hlen, ?_⟩
  exact (artifactsKept letterDigest letterDigest_injective countingDigest (retriesPlan 1) 1).2 _ s
    (by decide +kernel) hs

/-- A run that permits one attempt is launched by a second seat after its attempt has failed, and the
second output is refused for the total. -/
theorem refused_after_relaunch : ¬∀ acts s,
    exec (Run.step (letterLimits 0) countingDigest) (.fresh (retriesPlan 0)) acts = some s →
      ∀ e ∈ s.store.refusals, e.isTotal = false := by
  intro hall
  have hrun : (exec (Run.step (letterLimits 0) countingDigest) (.fresh (retriesPlan 0))
      (launchPut 0 97 ++ [.life (.other (.launch 1 5)), .life (.other (.begin 1)),
        .put 1 [98] (ofString "text/plain"), .move .none, .move .none,
        .move (.names [letterDigest [97]]), .move .none, .move .none])).any
          (fun s => decide (s.store.refusals = [.total])) = true := by
    decide +kernel
  obtain ⟨s, hs, href⟩ := (Option.any_eq_true _ _).mp hrun
  have hnot := hall _ s hs .total (by rw [of_decide_eq_true href]; exact List.mem_singleton_self _)
  cases hnot

end Artifacts

end PiSubagent
