import PiSubagent.Sandbox.Gondolin
import PiSubagent.Service.Results

/-!
# The processes of sandboxes

The controller that looks a sandbox's process up with `ps` and ends it with signals, and what
`reconcile` makes of it. Between two calls the process may end and its identifier be used again, and
`ps` may fail: what `ps` and `kill` answer depends in any way on what has happened before.

* `observation`: what is read off an answer of `ps`.
* `terminate`, `sandboxEvidence`, `reconcileSandbox`.
* `Careful`: every signal comes directly after an observation of the recorded process, and a
  `SIGKILL` after a `SIGTERM` too.
* **`terminate_spec`**, **`sandboxEvidence_spec`**: they are careful, and say `absent` only of a
  process that was seen to be gone.
-/

namespace PiSubagent.Reconciliation

open JsonText Prog

/-! ## Observations -/

/-- `ProcessIdentity`. -/
structure ProcessIdentity where
  pid : Decimal
  startedAtMs : Decimal
  commandSha256 : JsString
deriving DecidableEq, Repr

/-- `ProcessObservation`. -/
inductive ProcessObservation where
  | absent
  | present (identity : ProcessIdentity)
  | unknown (reason : String)
deriving DecidableEq, Repr

/-- The `code` of an error of `execFile`. -/
inductive ErrorCode where
  | exit (status : ℤ)
  | errno (name : String)
  | other
deriving DecidableEq, Repr

/-- How a call of `ps` ends. -/
inductive PsOutcome where
  | failed (code : ErrorCode)
  | printed (stdout : JsString)
deriving DecidableEq, Repr

/-- A unit that `\w` matches. -/
def isWordUnit (u : UInt16) : Bool :=
  isDigitUnit u || isLowerUnit u || (65 ≤ u.toNat && u.toNat ≤ 90) || u = 95

/-- The rest after so many units of a kind. -/
def skipUnits (kind : UInt16 → Bool) (n : ℕ) (s : JsString) : Option JsString :=
  if (s.take n).length = n ∧ (s.take n).all kind = true then some (s.drop n) else none

/-- The rest after `\s+`. -/
def skipSpaces : JsString → Option JsString
  | [] => none
  | u :: us => if isSpaceUnit u then some (us.dropWhile isSpaceUnit) else none

/-- The rest after `\d{1,2}`. -/
def skipDay (s : JsString) : Option JsString :=
  (skipUnits isDigitUnit 2 s).or (skipUnits isDigitUnit 1 s)

/-- The rest after a unit. -/
def skipUnit (v : UInt16) : JsString → Option JsString
  | [] => none
  | u :: us => if u = v then some us else none

/-- The rest after `\w{3}\s+\w{3}\s+\d{1,2}\s+\d{2}:\d{2}:\d{2}\s+\d{4}`. -/
def skipStart (s : JsString) : Option JsString := do
  let s ← skipUnits isWordUnit 3 s
  let s ← skipSpaces s
  let s ← skipUnits isWordUnit 3 s
  let s ← skipSpaces s
  let s ← skipDay s
  let s ← skipSpaces s
  let s ← skipUnits isDigitUnit 2 s
  let s ← skipUnit 58 s
  let s ← skipUnits isDigitUnit 2 s
  let s ← skipUnit 58 s
  let s ← skipUnits isDigitUnit 2 s
  let s ← skipSpaces s
  skipUnits isDigitUnit 4 s

/-- The start and the command of a trimmed line of `ps`. -/
def matchLine (line : JsString) : Option (JsString × JsString) := do
  let rest ← skipStart line
  let command ← skipSpaces rest
  if command = [] then none
  else some (line.take (line.length - rest.length), command)

/-- The names of qualified commands. -/
def qemuNames : List String := ["qemu-system-aarch64", "qemu-system-arm", "qemu-system-x86_64"]

/-- A qualified name and then a space or the end. -/
def startsQemu (s : JsString) : Bool :=
  qemuNames.any fun name =>
    (ofString name).isPrefixOf s && ((s.drop (ofString name).length).head?.all isSpaceUnit)

/-- `QEMU_COMMAND.test`, from a place where a name may begin or not. -/
def isQemuFrom : Bool → JsString → Bool
  | _, [] => false
  | boundary, u :: us => boundary && startsQemu (u :: us) || isQemuFrom (u = 47) us

/-- `QEMU_COMMAND.test`. -/
def isQemu (command : JsString) : Bool := isQemuFrom true command

/-- `Number.isSafeInteger(pid) && pid >= 1`. -/
def isPid (pid : Decimal) : Bool := pid.toNat?.any fun n => 1 ≤ n ∧ n ≤ maxSafeInteger

variable (parseDate : JsString → Option Decimal) (digest : JsString → JsString)

/-- What `observe` reads off an answer of `ps`; `parseDate` is `Date.parse`, `none` for `NaN`. -/
def observation (pid : Decimal) (ps : PsOutcome) : ProcessObservation :=
  if !isPid pid then .unknown "invalid PID"
  else
    match ps with
    | .failed code =>
      if code = .exit 1 ∨ code = .errno "ESRCH" then .absent
      else .unknown "process observation failed"
    | .printed stdout =>
      let line := trim stdout
      if line = [] then .absent
      else
        match matchLine line with
        | none => .unknown "process identity parse failed"
        | some (start, command) =>
          match parseDate start with
          | none => .unknown "process is not a qualified QEMU command"
          | some startedAtMs =>
            if isQemu command then .present ⟨pid, startedAtMs, digest command⟩
            else .unknown "process is not a qualified QEMU command"

/-! ## The controller -/

inductive Signal where
  | sigterm | sigkill
deriving DecidableEq, Repr

/-- How `process.kill` ends: done, the process does not exist, or another error. -/
inductive KillOutcome where
  | done | esrch | failed
deriving DecidableEq, Repr

/-- What the controller and its caller do. -/
inductive Event where
  | observed (pid : Decimal) (seen : ProcessObservation)
  | signalled (signal : Signal) (pid : Decimal) (outcome : KillOutcome)
  /-- `terminate` is called. -/
  | terminating (identity : ProcessIdentity)
deriving DecidableEq, Repr

/-- A program that records what it does. -/
abbrev ControllerM := Prog (List Event) Thrown

/-- One event more. -/
def note (e : Event) : ControllerM Unit := modify fun t => t ++ [e]

variable (ps : List Event → PsOutcome) (kill : List Event → KillOutcome)

/-- `observe`. -/
def observe (pid : Decimal) : ControllerM ProcessObservation := do
  let t ← get
  note (.observed pid (observation parseDate digest pid (ps t)))
  pure (observation parseDate digest pid (ps t))

/-- `process.kill`. -/
def sendSignal (signal : Signal) (pid : Decimal) : ControllerM KillOutcome := do
  let t ← get
  note (.signalled signal pid (kill t))
  pure (kill t)

/-- The loop after `SIGTERM`; `none` when the process is still there after it. -/
def awaitTerm (identity : ProcessIdentity) : ℕ → ControllerM (Option SandboxProcess)
  | 0 => pure none
  | n + 1 => do
    match ← observe parseDate digest ps identity.pid with
    | .absent => pure (some .absent)
    | .present found =>
      if found = identity then awaitTerm identity n else pure (some .unknown)
    | .unknown _ => pure (some .unknown)

/-- The loop after `SIGKILL`. -/
def awaitKill (identity : ProcessIdentity) : ℕ → ControllerM SandboxProcess
  | 0 => pure .unknown
  | n + 1 => do
    if (← observe parseDate digest ps identity.pid) = .absent then pure .absent
    else awaitKill identity n

/-- An observation of the recorded process and a signal to it, and what comes after the signal. -/
def signalAfterCheck (identity : ProcessIdentity) (signal : Signal)
    (next : ControllerM SandboxProcess) : ControllerM SandboxProcess := do
  match ← observe parseDate digest ps identity.pid with
  | .absent => pure .absent
  | .present found =>
    if found = identity then
      match ← sendSignal kill signal identity.pid with
      | .esrch => pure .absent
      | .failed => pure .unknown
      | .done => next
    else pure .unknown
  | .unknown _ => pure .unknown

/-- `terminate`; it answers `absent` or `unknown`. -/
def terminate (identity : ProcessIdentity) : ControllerM SandboxProcess :=
  signalAfterCheck parseDate digest ps kill identity .sigterm do
    match ← awaitTerm parseDate digest ps identity 40 with
    | some answer => pure answer
    | none =>
      signalAfterCheck parseDate digest ps kill identity .sigkill
        (awaitKill parseDate digest ps identity 40)

/-! ## Reconcile -/

/-- The `data` of a `sandbox-started` event; a field that is not of its type is `none`. -/
structure SandboxData where
  hostPid : Option Decimal
  pid : Option Decimal
  startedAtMs : Option Decimal
  commandSha256 : Option JsString
deriving DecidableEq, Repr

/-- The identity an event records, if it records one. -/
def SandboxData.identity? (data : SandboxData) : Option ProcessIdentity :=
  match data.hostPid, data.pid, data.startedAtMs, data.commandSha256 with
  | some hostPid, some pid, some startedAtMs, some sha256 =>
    if pid = hostPid ∧ isHex 64 64 sha256 = true then some ⟨pid, startedAtMs, sha256⟩ else none
  | _, _, _, _ => none

/-- What reconcile finds of the sandbox, from the last `sandbox-started` event. -/
def sandboxEvidence (event : Option SandboxData) : ControllerM SandboxProcess :=
  match event with
  | none => pure .notStarted
  | some data =>
    match data.identity? with
    | none => pure .unknown
    | some identity => do
      match ← observe parseDate digest ps identity.pid with
      | .absent => pure .absent
      | .present found =>
        if found = identity then
          note (.terminating identity)
          terminate parseDate digest ps kill identity
        else pure .unknown
      | .unknown _ => pure .unknown

/-- `reconcile`, as far as the sandbox is concerned: what it answers of the process, and the cleanup
it records. `guards` is what it awaits before: the lease, the journal and the durable status. -/
def reconcileSandbox (status : RunStatus) (guards : Outcome Unit) (event : Option SandboxData)
    (pending : Bool) (memory : Option AttemptExecutionResult) :
    ControllerM (SandboxProcess × Option CleanupOutcome) :=
  if status ≠ .cleanupBlocked then pure (.absent, none)
  else do
    liftExcept guards
    let seen ← sandboxEvidence parseDate digest ps kill event
    pure (seen, some (reconcileSandboxCleanup pending memory seen))

/-! ## Careful signals -/

/-- The last event is an observation of the process. -/
def Matched (identity : ProcessIdentity) (t : List Event) : Prop :=
  ∃ pre, t = pre ++ [.observed identity.pid (.present identity)]

/-- A `SIGTERM` has been sent. -/
def Termed (identity : ProcessIdentity) (t : List Event) : Prop :=
  ∃ pre post, t = pre ++ .signalled .sigterm identity.pid .done :: post

/-- The last event shows that the process does not exist. -/
def Gone (identity : ProcessIdentity) (t : List Event) : Prop :=
  ∃ pre, t = pre ++ [.observed identity.pid .absent] ∨
    ∃ signal, t = pre ++ [.signalled signal identity.pid .esrch]

/-- `terminate` is called for the process, and signals go to it, only directly after an observation
of it, and a `SIGKILL` after a `SIGTERM` and a further observation of it. -/
structure Careful (identity : ProcessIdentity) (t : List Event) : Prop where
  signals : ∀ pre post signal pid outcome, t = pre ++ .signalled signal pid outcome :: post →
    pid = identity.pid ∧ Matched identity pre ∧
      (signal = .sigkill → ∃ before, Termed identity before ∧
        pre = before ++ [.observed identity.pid (.present identity)])
  calls : ∀ pre post called, t = pre ++ .terminating called :: post →
    called = identity ∧ Matched identity pre

theorem careful_nil (identity : ProcessIdentity) : Careful identity [] := by
  constructor
  · intro pre post signal pid outcome h
    exact absurd h (by simp)
  · intro pre post called h
    exact absurd h (by simp)

/-- An event in a record that is one longer is the last one or in the record before. -/
theorem split_concat {t pre post : List Event} {e e' : Event} (h : t ++ [e] = pre ++ e' :: post) :
    (t = pre ∧ e = e') ∨ ∃ post', t = pre ++ e' :: post' := by
  rcases List.eq_nil_or_concat post with rfl | ⟨post, last, rfl⟩
  · obtain ⟨hpre, hlast⟩ := List.append_inj' h rfl
    exact Or.inl ⟨hpre, List.singleton_inj.mp hlast⟩
  · have hsplit : t ++ [e] = (pre ++ e' :: post) ++ [last] := by
      rw [h, List.append_assoc, List.cons_append, List.concat_eq_append]
    exact Or.inr ⟨post, (List.append_inj' hsplit rfl).1⟩

variable {parseDate digest ps kill} {identity : ProcessIdentity} {t : List Event}

theorem Careful.observed (h : Careful identity t) (pid : Decimal) (seen : ProcessObservation) :
    Careful identity (t ++ [.observed pid seen]) := by
  constructor
  · intro pre post signal pid' outcome ht
    rcases split_concat ht with ⟨-, he⟩ | ⟨post', ht'⟩
    · exact Event.noConfusion he
    · exact h.signals pre post' signal pid' outcome ht'
  · intro pre post called ht
    rcases split_concat ht with ⟨-, he⟩ | ⟨post', ht'⟩
    · exact Event.noConfusion he
    · exact h.calls pre post' called ht'

theorem Careful.signalled (h : Careful identity t) {before : List Event} {signal : Signal}
    (ht : t = before ++ [.observed identity.pid (.present identity)])
    (hk : signal = .sigkill → Termed identity before) (outcome : KillOutcome) :
    Careful identity (t ++ [.signalled signal identity.pid outcome]) := by
  constructor
  · intro pre post signal' pid outcome' hsplit
    rcases split_concat hsplit with ⟨rfl, he⟩ | ⟨post', ht'⟩
    · cases he
      exact ⟨rfl, ⟨before, ht⟩, fun hs => ⟨before, hk hs, ht⟩⟩
    · exact h.signals pre post' signal' pid outcome' ht'
  · intro pre post called hsplit
    rcases split_concat hsplit with ⟨-, he⟩ | ⟨post', ht'⟩
    · exact Event.noConfusion he
    · exact h.calls pre post' called ht'

theorem Careful.called (h : Careful identity t) (hm : Matched identity t) :
    Careful identity (t ++ [.terminating identity]) := by
  constructor
  · intro pre post signal pid outcome hsplit
    rcases split_concat hsplit with ⟨-, he⟩ | ⟨post', ht'⟩
    · exact Event.noConfusion he
    · exact h.signals pre post' signal pid outcome ht'
  · intro pre post called hsplit
    rcases split_concat hsplit with ⟨rfl, he⟩ | ⟨post', ht'⟩
    · cases he
      exact ⟨rfl, hm⟩
    · exact h.calls pre post' called ht'

theorem Termed.concat (h : Termed identity t) (e : Event) : Termed identity (t ++ [e]) := by
  obtain ⟨pre, post, rfl⟩ := h
  exact ⟨pre, post ++ [e], by rw [List.append_assoc, List.cons_append]⟩

theorem observe_spec (F : List Event → Prop) (pid : Decimal) :
    Triple (fun t => Careful identity t ∧ F t) (observe parseDate digest ps pid)
      (fun seen t => Careful identity t ∧ ∃ before, F before ∧ t = before ++ [.observed pid seen])
      (fun _ _ => False) := by
  rintro t ⟨hc, hf⟩
  exact ⟨hc.observed _ _, t, hf, rfl⟩

/-- What a part of `terminate` ends with: a careful record, and `absent` only if the process was
seen to be gone. -/
def Answers (identity : ProcessIdentity) (answer : SandboxProcess) (t : List Event) : Prop :=
  Careful identity t ∧ (answer = .absent → Gone identity t) ∧
    (answer = .absent ∨ answer = .unknown)

theorem Answers.gone (h : Careful identity t) (hg : Gone identity t) :
    Answers identity .absent t := ⟨h, fun _ => hg, Or.inl rfl⟩

theorem Answers.unsure (h : Careful identity t) : Answers identity .unknown t :=
  ⟨h, fun ha => SandboxProcess.noConfusion ha, Or.inr rfl⟩

theorem awaitTerm_spec (n : ℕ) :
    Triple (fun t => Careful identity t ∧ Termed identity t)
      (awaitTerm parseDate digest ps identity n)
      (fun answer t => match answer with
        | some answer => Answers identity answer t
        | none => Careful identity t ∧ Termed identity t)
      (fun _ _ => False) := by
  induction n with
  | zero => exact Triple.pure fun _ h => h
  | succ n ih =>
    refine Triple.bind (observe_spec (Termed identity) identity.pid) fun seen => ?_
    rintro t ⟨hc, before, hterm, rfl⟩
    cases seen with
    | absent => exact Answers.gone hc ⟨before, Or.inl rfl⟩
    | unknown reason => exact Answers.unsure hc
    | present found =>
      by_cases hf : found = identity
      · have := ih _ ⟨hc, hterm.concat (.observed identity.pid (.present found))⟩
        simpa only [if_pos hf] using this
      · simp only [if_neg hf]
        exact Answers.unsure hc

theorem awaitKill_spec (n : ℕ) :
    Triple (Careful identity) (awaitKill parseDate digest ps identity n) (Answers identity)
      (fun _ _ => False) := by
  induction n with
  | zero => exact Triple.pure fun _ h => Answers.unsure h
  | succ n ih =>
    refine Triple.bind ((observe_spec (fun _ => True) identity.pid).weaken (fun _ h => ⟨h, trivial⟩)
      (fun _ _ h => h) fun _ _ h => h) fun seen => ?_
    rintro t ⟨hc, before, -, rfl⟩
    by_cases hs : seen = .absent
    · subst hs
      exact Answers.gone hc ⟨before, Or.inl rfl⟩
    · simpa only [if_neg hs] using ih _ hc

/-- **A check, a signal, and what comes after it.** -/
theorem signalAfterCheck_spec (signal : Signal) {next : ControllerM SandboxProcess}
    (F : List Event → Prop) (hF : signal = .sigkill → ∀ t, F t → Termed identity t)
    (hnext : Triple (fun t => Careful identity t ∧
      (signal = .sigterm → Termed identity t)) next (Answers identity) (fun _ _ => False)) :
    Triple (fun t => Careful identity t ∧ F t)
      (signalAfterCheck parseDate digest ps kill identity signal next) (Answers identity)
      (fun _ _ => False) := by
  refine Triple.bind (observe_spec F identity.pid) fun seen => ?_
  rintro t ⟨hc, before, hf, rfl⟩
  cases seen with
  | absent => exact Answers.gone hc ⟨before, Or.inl rfl⟩
  | unknown reason => exact Answers.unsure hc
  | present found =>
    by_cases hfound : found = identity
    · subst hfound
      have hsent := hc.signalled rfl (fun hs => hF hs before hf)
        (kill (before ++ [.observed found.pid (.present found)]))
      have he : exec (sendSignal kill signal found.pid)
          (before ++ [.observed found.pid (.present found)]) = (.ok _, _) := rfl
      simp only [if_pos, exec_bind, he]
      generalize kill (before ++ [.observed found.pid (.present found)]) = outcome at hsent
      cases outcome with
      | done =>
        refine hnext _ ⟨hsent, ?_⟩
        rintro rfl
        exact ⟨_, [], rfl⟩
      | esrch => exact Answers.gone hsent ⟨_, Or.inr ⟨signal, rfl⟩⟩
      | failed => exact Answers.unsure hsent
    · simp only [if_neg hfound]
      exact Answers.unsure hc

/-- **The controller signals carefully, and answers `absent` only of a process that was seen to be
gone.** -/
theorem terminate_spec :
    Triple (Careful identity) (terminate parseDate digest ps kill identity) (Answers identity)
      (fun _ _ => False) := by
  refine (signalAfterCheck_spec .sigterm (fun _ => True) (fun h => Signal.noConfusion h) ?_).weaken
    (fun _ h => ⟨h, trivial⟩) (fun _ _ h => h) fun _ _ h => h
  refine Triple.bind ((awaitTerm_spec 40).weaken (fun _ h => ⟨h.1, h.2 rfl⟩) (fun _ _ h => h)
    fun _ _ h => h) fun answer => ?_
  cases answer with
  | some answer => exact Triple.pure fun _ h => h
  | none =>
    refine signalAfterCheck_spec .sigkill (Termed identity) (fun _ _ h => h) ?_
    exact (awaitKill_spec 40).weaken (fun _ h => h.1) (fun _ _ h => h) fun _ _ h => h

/-! ## What reconcile takes for evidence -/

/-- What reconcile has done and answers, by the event that records the sandbox. -/
def Evident (event : Option SandboxData) (seen : SandboxProcess) (t : List Event) : Prop :=
  match event.bind SandboxData.identity? with
  | some identity => Careful identity t ∧ (seen = .absent → Gone identity t)
  | none => t = [] ∧ seen ≠ .absent

/-- **Reconcile terminates only a recorded process that it has just observed.** -/
theorem sandboxEvidence_spec (event : Option SandboxData) :
    Triple (fun t => t = []) (sandboxEvidence parseDate digest ps kill event) (Evident event)
      (fun _ _ => False) := by
  cases event with
  | none => exact Triple.pure fun t ht => ⟨ht, SandboxProcess.noConfusion⟩
  | some data =>
    cases hi : data.identity? with
    | none =>
      have hevident : ∀ t : List Event, t = [] → Evident (some data) .unknown t := by
        intro t ht
        rw [Evident, Option.bind_some, hi]
        exact ⟨ht, SandboxProcess.noConfusion⟩
      simp only [sandboxEvidence, hi]
      exact Triple.pure hevident
    | some identity =>
      have hevident : ∀ {seen : SandboxProcess} {t : List Event}, Answers identity seen t →
          Evident (some data) seen t := by
        intro seen t h
        rw [Evident, Option.bind_some, hi]
        exact ⟨h.1, h.2.1⟩
      simp only [sandboxEvidence, hi]
      have hcall : Triple (fun t => Careful identity t ∧ Matched identity t)
          (do
            note (.terminating identity)
            terminate parseDate digest ps kill identity)
          (Evident (some data)) (fun _ _ => False) := by
        refine Triple.bind (M := fun _ => Careful identity)
          (Triple.modify fun t ht => ht.1.called ht.2) fun _ => ?_
        exact terminate_spec.weaken (fun _ h => h) (fun _ _ h => hevident h) fun _ _ h => h
      have hobserve : Triple (fun t => Careful identity t ∧ t = [])
          (observe parseDate digest ps identity.pid)
          (fun seen t => Careful identity t ∧
            ∃ before, before = [] ∧ t = before ++ [.observed identity.pid seen])
          (fun _ _ => False) := observe_spec (fun t => t = []) identity.pid
      refine Triple.bind (hobserve.weaken ?_ (fun _ _ h => h) fun _ _ h => h) fun seen => ?_
      · rintro t rfl
        exact ⟨careful_nil identity, rfl⟩
      rintro t ⟨hc, before, -, rfl⟩
      cases seen with
      | absent => exact hevident (Answers.gone hc ⟨before, Or.inl rfl⟩)
      | unknown reason => exact hevident (Answers.unsure hc)
      | present found =>
        by_cases hf : found = identity
        · subst hf
          simp only [if_pos]
          exact hcall _ ⟨hc, before, rfl⟩
        · simp only [if_neg hf]
          exact hevident (Answers.unsure hc)

/-- The cleanup reconcile records says that the sandbox is gone because it was seen to be gone, or
because the result an abandonment started from said so. -/
theorem reconcileSandboxCleanup_proved {pending : Bool} {memory : Option AttemptExecutionResult}
    {seen : SandboxProcess} (h : reconcileSandboxCleanup pending memory seen = .proved) :
    seen = .absent ∨
      pending = true ∧ ∃ m, memory = some m ∧ m.result.sandboxCleanup = .proved := by
  by_cases hs : seen = .absent
  · exact Or.inl hs
  · refine Or.inr ?_
    unfold reconcileSandboxCleanup at h
    cases memory with
    | none => cases seen <;> simp_all
    | some m =>
      dsimp only at h
      split_ifs at h with hp
      · exact ⟨(Bool.and_eq_true_iff.mp hp).1, m, rfl, h⟩
      · cases seen <;> simp_all

variable (parseDate digest ps kill)

/-- **For any answers of `ps` and `kill`: the controller signals a process only directly after an
observation that equals the recorded identity, kills it only after a `SIGTERM` and a further such
observation, and answers `absent` only if it was seen to be gone. Reconcile of a cleanup-blocked run
terminates only a recorded process it has just observed so, and takes the sandbox as absent on no
other evidence; of any other run it looks at nothing and answers `absent`.** -/
theorem process_termination :
    (∀ identity, ∃ answer t, exec (terminate parseDate digest ps kill identity) [] =
        (.ok answer, t) ∧ Answers identity answer t) ∧
      (∀ guards event pending memory seen cleanup t,
        exec (reconcileSandbox parseDate digest ps kill .cleanupBlocked guards event pending
          memory) [] = (.ok (seen, cleanup), t) →
        Evident event seen t ∧ (cleanup = some .proved →
          seen = .absent ∨
            pending = true ∧ ∃ m, memory = some m ∧ m.result.sandboxCleanup = .proved)) ∧
      ∀ status guards event pending memory, status ≠ .cleanupBlocked →
        exec (reconcileSandbox parseDate digest ps kill status guards event pending memory) [] =
          (.ok (.absent, none), []) := by
  refine ⟨?_, ?_, ?_⟩
  · intro identity
    have hspec : Triple (Careful identity) (terminate parseDate digest ps kill identity)
      (Answers identity) (fun _ _ => False) := terminate_spec
    have h := hspec [] (careful_nil identity)
    rcases he : exec (terminate parseDate digest ps kill identity) [] with ⟨e | answer, t⟩
    · rw [he] at h
      exact h.elim
    · rw [he] at h
      exact ⟨answer, t, rfl, h⟩
  · intro guards event pending memory seen cleanup t h
    have hspec : Triple (fun t => t = []) (sandboxEvidence parseDate digest ps kill event)
      (Evident event) (fun _ _ => False) := sandboxEvidence_spec event
    have hevidence := hspec [] rfl
    unfold reconcileSandbox at h
    rw [if_neg (by simp), exec_bind, exec_liftExcept] at h
    cases guards with
    | error e => cases h
    | ok _ =>
      dsimp only at h
      rw [exec_bind] at h
      rcases he : exec (sandboxEvidence parseDate digest ps kill event) [] with ⟨e | found, u⟩
      · rw [he] at h
        cases h
      · rw [he] at h hevidence
        cases h
        refine ⟨hevidence, ?_⟩
        intro hproved
        exact reconcileSandboxCleanup_proved (Option.some.inj hproved)
  · intro status guards event pending memory hs
    rw [reconcileSandbox, if_pos hs]
    rfl

/-! ## A run whose sandbox runs -/

/-- The sandbox of an active run. -/
def liveSandbox : ProcessIdentity :=
  ⟨Decimal.ofNat 4711, Decimal.ofNat 1700000000000, List.replicate 64 97⟩

/-- What its `sandbox-started` event records. -/
def liveData : SandboxData :=
  ⟨some liveSandbox.pid, some liveSandbox.pid, some liveSandbox.startedAtMs,
    some liveSandbox.commandSha256⟩

/-- What `ps` prints of it. -/
def livePs : List Event → PsOutcome := fun _ =>
  .printed (ofString "Tue Nov 14 22:13:20 2023 /usr/bin/qemu-system-x86_64 -m 512\n")

/-- What `ps` answers of it until a `SIGTERM` has been sent, and from then on. -/
def endingPs (t : List Event) : PsOutcome :=
  if t.any fun e => e = .signalled .sigterm liveSandbox.pid .done then .failed (.exit 1) else livePs t

/-- Reconcile of the run, when it is cleanup-blocked, ends the process and has seen it gone. -/
theorem blocked_run_terminated : ∃ t,
    exec (reconcileSandbox (fun _ => some liveSandbox.startedAtMs)
      (fun _ => liveSandbox.commandSha256) endingPs (fun _ => .done) .cleanupBlocked (.ok ())
      (some liveData) false none) [] = (.ok (.absent, some .proved), t) ∧
    t.length = 5 ∧ Careful liveSandbox t ∧ Gone liveSandbox t := by
  obtain ⟨t, hrun, hlength⟩ : ∃ t, exec (reconcileSandbox (fun _ => some liveSandbox.startedAtMs)
      (fun _ => liveSandbox.commandSha256) endingPs (fun _ => .done) .cleanupBlocked (.ok ())
      (some liveData) false none) [] = (.ok (.absent, some .proved), t) ∧ t.length = 5 :=
    ⟨_, rfl, rfl⟩
  obtain ⟨hevident, -⟩ := (process_termination (fun _ => some liveSandbox.startedAtMs)
    (fun _ => liveSandbox.commandSha256) endingPs fun _ => .done).2.1 (.ok ()) (some liveData)
    false none .absent (some .proved) t hrun
  rw [Evident, show (some liveData).bind SandboxData.identity? = some liveSandbox by
    decide +kernel] at hevident
  exact ⟨t, hrun, hlength, hevident.1, hevident.2 rfl⟩

/-- Reconcile of the active run answers that the process of its sandbox is absent, without a look. -/
theorem active_run_reported_absent :
    liveData.identity? = some liveSandbox ∧
      observation (fun _ => some liveSandbox.startedAtMs) (fun _ => liveSandbox.commandSha256)
        liveSandbox.pid (livePs []) = .present liveSandbox ∧
      ¬ ∀ parseDate digest ps kill status guards event pending memory seen cleanup t,
        exec (reconcileSandbox parseDate digest ps kill status guards event pending memory) [] =
          (.ok (seen, cleanup), t) → seen = .absent →
            ∃ identity, event.bind SandboxData.identity? = some identity ∧ Gone identity t := by
  refine ⟨by decide +kernel, by decide +kernel, ?_⟩
  intro h
  obtain ⟨identity, -, pre, hgone | ⟨signal, hgone⟩⟩ := h
    (fun _ => some liveSandbox.startedAtMs) (fun _ => liveSandbox.commandSha256) livePs
    (fun _ => .done) .active (.ok ()) (some liveData) false none .absent none [] rfl rfl
  · exact absurd hgone (by simp)
  · exact absurd hgone (by simp)

end PiSubagent.Reconciliation
