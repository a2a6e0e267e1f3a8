import PiSubagent.Persistence.OperationIndex
import PiSubagent.Lifecycle.Reducer

/-!
# Steering and follow-up controls

* `ActiveRun`: what a seat has of a run; its receipts and its tail are new with every start and
  every start-up.
* `moveControl`: `deliverControl` between its awaits.
* `Event`: starts, start-ups, the session of an attempt, and claims of other calls.
* `Clear`: the journal takes what a session has accepted, and nothing stands against a call that has
  its turn.
* **`controlOutline_sound`**: then a text is handed over at most once, there is one receipt for each
  operation, and it says `accepted-by-session` exactly when a session has queued the text.
-/

namespace PiSubagent

open JsonText Calls

namespace Control

/-! ## The service -/

/-- `"steer" | "follow-up"`. -/
inductive ControlKind where
  | steer | followUp
deriving DecidableEq, Repr

/-- The states of a `ControlReceipt`. -/
inductive ReceiptState where
  | acceptedBySession | missed | failed
deriving DecidableEq, Repr

/-- `ControlInput`. -/
structure ControlInput where
  operationId : JsString
  text : JsString
deriving DecidableEq, Repr

/-- The input of a control is neither blank nor too long. -/
def ControlInput.valid (input : ControlInput) : Bool :=
  !input.operationId.all isSpaceUnit && byteLength input.operationId ≤ 256 &&
    !input.text.all isSpaceUnit && byteLength input.text ≤ 64 * 1024

/-- A call of `steer` or `followUp`. -/
structure ControlCall where
  kind : ControlKind
  ownerId : JsString
  runId : JsString
  input : ControlInput
deriving DecidableEq, Repr

/-- What names the operation of a call. -/
def ControlCall.pair (call : ControlCall) : OperationIndex.Pair :=
  ⟨call.ownerId, call.input.operationId⟩

/-- A text at a session: that of the given run in memory. -/
structure Delivery where
  run : ℕ
  pair : OperationIndex.Pair
  kind : ControlKind
  text : JsString
deriving DecidableEq, Repr

/-- `ActiveRun`; `control` says whether its session has registered one. -/
structure ActiveRun where
  ownerId : JsString
  status : RunStatus
  control : Bool
  controlReceipts : JsString → Option ReceiptState
  controlTail : List ℕ

/-- A control can reach a session. -/
def ActiveRun.controllable (run : ActiveRun) : Bool := run.status = .active ∧ run.control = true

/-- The operation index, the runs in the memory of every seat, and what sessions have been handed
and have queued. -/
structure Service (δ : Type) where
  claims : OperationIndex.Pair → Option (δ × JsString)
  runs : ℕ → JsString → Option ℕ
  objects : ℕ → Option ActiveRun
  created : ℕ
  handed : List Delivery
  queued : List Delivery

variable {δ : Type}

namespace Service

variable (s : Service δ)

/-- A run in memory is another. -/
def setRun (n : ℕ) (run : ActiveRun) : Service δ :=
  { s with objects := Function.update s.objects n (some run) }

/-- A run in memory is changed. -/
def changeRun (n : ℕ) (f : ActiveRun → ActiveRun) : Service δ :=
  match s.objects n with
  | some run => s.setRun n (f run)
  | none => s

/-- `run.controlTail = run.controlTail.then(…)`. -/
def enqueue (n c : ℕ) : Service δ :=
  s.changeRun n fun run => { run with controlTail := run.controlTail ++ [c] }

/-- The operation of a call is settled. -/
def leave (n c : ℕ) : Service δ :=
  s.changeRun n fun run => { run with controlTail := run.controlTail.filter (· ≠ c) }

/-- `run.controlReceipts.set(input.operationId, receipt)`, with which the operation is settled. -/
def record (n c : ℕ) (call : ControlCall) (receipt : ReceiptState) : Service δ :=
  s.changeRun n fun run => { run with
    controlReceipts := Function.update run.controlReceipts call.input.operationId (some receipt)
    controlTail := run.controlTail.filter (· ≠ c) }

end Service

/-! ## Calls -/

/-- How far a control is; with the run it holds. -/
inductive Point where
  | called
  | claiming (run : ℕ)
  | waiting (run : ℕ)
  /-- The session has been handed the text. -/
  | delivering (run : ℕ)
  /-- The session has queued the text, and the journal takes `control-accepted` next. -/
  | accepting (run : ℕ)
  /-- Something has thrown, and the journal takes `control-failed` next. -/
  | failing (run : ℕ)
  | done (receipt : ReceiptState)
  | thrown
deriving DecidableEq, Repr

/-- A call and how far it is. -/
structure Phase where
  call : ControlCall
  point : Point
deriving DecidableEq, Repr

/-- Whether what a call awaits succeeds. -/
inductive Outcome where
  | ok | fails
deriving DecidableEq, Repr

/-- The beginning of `deliverControl`, up to its first await. -/
def enter (seat : ℕ) (call : ControlCall) (s : Service δ) : Point :=
  if call.input.valid = false then .thrown
  else
    match s.runs seat call.runId with
    | none => .thrown
    | some n =>
      match s.objects n with
      | none => .thrown
      | some run => if run.ownerId = call.ownerId then .claiming n else .thrown

/-- `operationIndex.claim`, and the call joins the tail of its run. -/
def claim [DecidableEq δ] (requestSha256 : ControlKind → JsString → δ) (c n : ℕ) (call : ControlCall)
    (s : Service δ) : Service δ × Point :=
  let request := (requestSha256 call.kind call.input.text, call.runId)
  match s.claims call.pair with
  | none =>
    (Service.enqueue { s with claims := Function.update s.claims call.pair (some request) } n c,
      .waiting n)
  | some existing => if existing = request then (s.enqueue n c, .waiting n) else (s, .thrown)

/-- The turn of a call. -/
def turn (c n : ℕ) (call : ControlCall) (s : Service δ) : Option (Service δ × Point) :=
  match s.objects n with
  | none => none
  | some run =>
    if run.controlTail.head? = some c then
      match run.controlReceipts call.input.operationId with
      | some existing => some (s.leave n c, .done existing)
      | none =>
        if run.controllable then
          some ({ s with handed := s.handed ++ [⟨n, call.pair, call.kind, call.input.text⟩] },
            .delivering n)
        else some (s.record n c call .missed, .done .missed)
    else none

/-- A step of `deliverControl`. -/
def moveControl [DecidableEq δ] (requestSha256 : ControlKind → JsString → δ) (seat c : ℕ) (o : Outcome)
    (call : ControlCall) : Point → Service δ → Option (Service δ × Point)
  | .called, s => some (s, enter seat call s)
  | .claiming n, s =>
    match o with
    | .ok => some (claim requestSha256 c n call s)
    | .fails => some (s, .thrown)
  | .waiting n, s => turn c n call s
  | .delivering n, s =>
    match o with
    | .ok =>
      some ({ s with queued := s.queued ++ [⟨n, call.pair, call.kind, call.input.text⟩] },
        .accepting n)
    | .fails => some (s, .failing n)
  | .accepting n, s =>
    match o with
    | .ok => some (s.record n c call .acceptedBySession, .done .acceptedBySession)
    | .fails => some (s, .failing n)
  | .failing n, s =>
    match o with
    | .ok => some (s.record n c call .failed, .done .failed)
    | .fails => some (s.leave n c, .thrown)
  | .done _, _ => none
  | .thrown, _ => none

/-- A step of a call. -/
def movePhase [DecidableEq δ] (requestSha256 : ControlKind → JsString → δ) (seat c : ℕ)
    (o : Outcome) (k : Phase) (s : Service δ) : Option (Service δ × Phase) :=
  (moveControl requestSha256 seat c o k.call k.point s).map fun r => (r.1, ⟨k.call, r.2⟩)

/-! ## What happens beside the calls -/

/-- A start-up, a launch, a retry or a resume puts a run into the memory of a seat; sessions
register and deregister their control; runs change their status; other calls claim operations. -/
inductive Event (δ : Type) where
  | opened (seat : ℕ) (runId ownerId : JsString) (status : RunStatus)
  | registered (run : ℕ) (control : Bool)
  | status (run : ℕ) (status : RunStatus)
  | claimed (pair : OperationIndex.Pair) (request : δ × JsString)

/-- An event beside the calls. -/
def happens : Event δ → Service δ → Option (Service δ)
  | .opened seat runId ownerId status, s =>
    some { s with
      runs := Function.update s.runs seat (Function.update (s.runs seat) runId (some s.created))
      objects := Function.update s.objects s.created
        (some ⟨ownerId, status, false, fun _ => none, []⟩)
      created := s.created + 1 }
  | .registered n control, s => some (s.changeRun n fun run => { run with control := control })
  | .status n status, s => some (s.changeRun n fun run => { run with status := status })
  | .claimed pair request, s =>
    match s.claims pair with
    | none => some { s with claims := Function.update s.claims pair (some request) }
    | some _ => none

/-- The controls of all seats. -/
def program [DecidableEq δ] (requestSha256 : ControlKind → JsString → δ) :
    Program (Service δ) Phase Outcome (Event δ) where
  entry _ _ k := k.point = .called
  move _ seat c o k s := movePhase requestSha256 seat c o k s
  free _ _ s := s
  outside := happens

/-- One step of the controls. -/
abbrev step [DecidableEq δ] (requestSha256 : ControlKind → JsString → δ) :=
  World.step (program requestSha256)

/-- One action. -/
abbrev Act (δ : Type) := Calls.Act Phase Outcome (Event δ)

/-- A service before any run. -/
def empty : Service δ where
  claims := fun _ => none
  runs := fun _ _ => none
  objects := fun _ => none
  created := 0
  handed := []
  queued := []

/-! ## What is on record -/

/-- A session has been handed the text of an operation. -/
def Handed (s : Service δ) (pair : OperationIndex.Pair) : Prop := ∃ d ∈ s.handed, d.pair = pair

/-- A session has queued the text of an operation. -/
def Queued (s : Service δ) (pair : OperationIndex.Pair) : Prop := ∃ d ∈ s.queued, d.pair = pair

/-- The run `m` in memory has a receipt of an operation. -/
def ReceiptAt (s : Service δ) (m : ℕ) (pair : OperationIndex.Pair) (receipt : ReceiptState) : Prop :=
  ∃ run, s.objects m = some run ∧ run.ownerId = pair.ownerId ∧
    run.controlReceipts pair.operationId = some receipt

/-- A run in memory has a receipt of an operation. -/
def Recorded (s : Service δ) (pair : OperationIndex.Pair) (receipt : ReceiptState) : Prop :=
  ∃ m, ReceiptAt s m pair receipt

/-- A text is handed over once and queued only then; there is one receipt of an operation, and it
says whether a session has queued the text. -/
structure Kept (s : Service δ) : Prop where
  bound : ∀ n run, s.objects n = some run → n < s.created
  once : (s.handed.map Delivery.pair).Nodup
  queued : ∀ pair, Queued s pair → Handed s pair
  accepted : ∀ pair receipt, Recorded s pair receipt →
    (receipt = .acceptedBySession ↔ Queued s pair)
  first : ∀ pair x y, Recorded s pair x → Recorded s pair y → x = y

/-- The run that a call holds. -/
def Point.run : Point → Option ℕ
  | .claiming n | .waiting n | .delivering n | .accepting n | .failing n => some n
  | _ => none

/-- The session has been handed the text, and there is no receipt yet. -/
def Point.flying : Point → Bool
  | .delivering _ | .accepting _ | .failing _ => true
  | _ => false

/-- The session has queued the text. -/
def Point.accepted : Point → Bool
  | .accepting _ => true
  | _ => false

/-- The run that a call holds is there. -/
def Holds (call : ControlCall) (point : Point) (s : Service δ) : Prop :=
  ∀ n, point.run = some n → ∃ run, s.objects n = some run ∧ run.ownerId = call.ownerId

/-- What a call relies on; only while its process lives is there no receipt of the text that is at
a session. -/
structure Relies (live : Bool) (k : Phase) (s : Service δ) : Prop where
  holds : Holds k.call k.point s
  handed : k.point.flying = true → Handed s k.call.pair
  unrecorded : k.point.flying = true → live = true → ∀ x, ¬ Recorded s k.call.pair x
  accepted : k.point.flying = true → (Queued s k.call.pair ↔ k.point.accepted = true)
  done : ∀ x, k.point = .done x → Recorded s k.call.pair x

/-- Two texts of one operation are not at sessions at once. -/
def Apart (k l : Phase) : Prop :=
  k.point.flying = true → l.point.flying = true → k.call.pair ≠ l.call.pair

/-- The assertions on controls. -/
def controlOutline : Outline (Service δ) Phase where
  all _ s := Kept s
  each dead _ a s := Relies (!dead a.process) a.state s
  pair _ _ a _ b _ := Apart a.state b.state

/-! ## Steps -/

/-- A step leaves everything as it is but for the operations whose texts it touches and those it
records a receipt of. -/
structure Frame (touches records : OperationIndex.Pair → Prop) (s t : Service δ) : Prop where
  bound : (∀ n run, s.objects n = some run → n < s.created) →
    ∀ n run, t.objects n = some run → n < t.created
  owners : ∀ n run, s.objects n = some run →
    ∃ run', t.objects n = some run' ∧ run'.ownerId = run.ownerId
  handed : ∀ pair, ¬ touches pair → (Handed t pair ↔ Handed s pair)
  queued : ∀ pair, ¬ touches pair → (Queued t pair ↔ Queued s pair)
  recorded : ∀ pair, ¬ records pair → ∀ x, Recorded t pair x ↔ Recorded s pair x
  keeps : ∀ pair x, Recorded s pair x → Recorded t pair x

/-- A step that touches and records nothing. -/
abbrev Frame.Still (s t : Service δ) : Prop := Frame (fun _ => False) (fun _ => False) s t

variable {requestSha256 : ControlKind → JsString → δ} {s t : Service δ} {c n : ℕ}
  {call : ControlCall} {p q : Point} {o : Outcome} {touches records : OperationIndex.Pair → Prop}
  {live : Bool}

theorem Holds.frame (h : Holds call p s) (hf : Frame touches records s t) : Holds call p t := by
  intro n hn
  obtain ⟨run, hrun, howner⟩ := h n hn
  obtain ⟨run', hrun', howner'⟩ := hf.owners n run hrun
  exact ⟨run', hrun', howner'.trans howner⟩

/-- What a call relies on, over a step that does not touch its text and records no receipt of it
while its process lives. -/
theorem Relies.frame {k : Phase} (h : Relies live k s) (hf : Frame touches records s t)
    (htouches : k.point.flying = true → ¬ touches k.call.pair)
    (hrecords : k.point.flying = true → live = true → ¬ records k.call.pair) :
    Relies live k t where
  holds := h.holds.frame hf
  handed := fun hfly => (hf.handed _ (htouches hfly)).mpr (h.handed hfly)
  unrecorded := fun hfly hlive x hx =>
    h.unrecorded hfly hlive x ((hf.recorded _ (hrecords hfly hlive) x).mp hx)
  accepted := by
    intro hfly
    rw [hf.queued _ (htouches hfly)]
    exact h.accepted hfly
  done := fun x hx => hf.keeps _ _ (h.done x hx)

theorem Relies.mono {live' : Bool} {k : Phase} (h : Relies live k s)
    (hlive : live' = true → live = true) : Relies live' k s where
  holds := h.holds
  handed := h.handed
  unrecorded := fun hfly hl => h.unrecorded hfly (hlive hl)
  accepted := h.accepted
  done := h.done

theorem Kept.frame (h : Kept s) (hf : Frame.Still s t) (hh : t.handed = s.handed) :
    Kept t where
  bound := hf.bound h.bound
  once := hh ▸ h.once
  queued := by
    intro pair hq
    exact (hf.handed pair id).mpr (h.queued pair ((hf.queued pair id).mp hq))
  accepted := by
    intro pair receipt hr
    rw [hf.queued pair id]
    exact h.accepted pair receipt ((hf.recorded pair id receipt).mp hr)
  first := by
    intro pair x y hx hy
    exact h.first pair x y ((hf.recorded pair id x).mp hx) ((hf.recorded pair id y).mp hy)

/-! ### Runs in memory -/

@[simp] theorem changeRun_handed (f : ActiveRun → ActiveRun) :
    (s.changeRun n f).handed = s.handed := by
  unfold Service.changeRun
  split <;> rfl

@[simp] theorem changeRun_queued (f : ActiveRun → ActiveRun) :
    (s.changeRun n f).queued = s.queued := by
  unfold Service.changeRun
  split <;> rfl

@[simp] theorem changeRun_created (f : ActiveRun → ActiveRun) :
    (s.changeRun n f).created = s.created := by
  unfold Service.changeRun
  split <;> rfl

theorem changeRun_objects (f : ActiveRun → ActiveRun) (m : ℕ) :
    (s.changeRun n f).objects m =
      if m = n then (s.objects n).map f else s.objects m := by
  unfold Service.changeRun
  by_cases hm : m = n
  · subst hm
    cases hr : s.objects m with
    | none => simp [hr]
    | some run => simp [Service.setRun]
  · rw [if_neg hm]
    split
    · exact Function.update_of_ne hm _ _
    · rfl

/-- The receipts of every run after a change of one that keeps them. -/
theorem receiptAt_changeRun {f : ActiveRun → ActiveRun} {m : ℕ} {pair : OperationIndex.Pair}
    {r : ReceiptState} (h : ReceiptAt (s.changeRun n f) m pair r)
    (howner : ∀ run, (f run).ownerId = run.ownerId)
    (hreceipts : ∀ run, (f run).controlReceipts = run.controlReceipts) : ReceiptAt s m pair r := by
  obtain ⟨run', hm, ho, hr⟩ := h
  rw [changeRun_objects] at hm
  split at hm
  · next he =>
    obtain ⟨run, hrun, rfl⟩ := Option.map_eq_some_iff.mp hm
    exact ⟨run, he ▸ hrun, (howner run).symm.trans ho, hreceipts run ▸ hr⟩
  · exact ⟨run', hm, ho, hr⟩

/-- A change of a run that keeps its owner and its receipts touches nothing. -/
theorem frame_changeRun {f : ActiveRun → ActiveRun} (howner : ∀ run, (f run).ownerId = run.ownerId)
    (hreceipts : ∀ run, (f run).controlReceipts = run.controlReceipts) :
    Frame.Still s (s.changeRun n f) := by
  have hrecorded : ∀ pair x, Recorded (s.changeRun n f) pair x ↔ Recorded s pair x := by
    intro pair x
    constructor
    · rintro ⟨m, hr⟩
      exact ⟨m, receiptAt_changeRun hr howner hreceipts⟩
    · rintro ⟨m, run, hm, ho, hr⟩
      by_cases he : m = n
      · subst he
        refine ⟨m, f run, ?_, (howner run).trans ho, ?_⟩
        · rw [changeRun_objects, if_pos rfl, hm]
          rfl
        · rw [hreceipts]
          exact hr
      · refine ⟨m, run, ?_, ho, hr⟩
        rw [changeRun_objects, if_neg he]
        exact hm
  refine ⟨?_, ?_, ?_, ?_, fun pair _ x => hrecorded pair x, fun pair x => (hrecorded pair x).mpr⟩
  · intro h m run hm
    rw [changeRun_created]
    rw [changeRun_objects] at hm
    split at hm
    · next he =>
      obtain ⟨run', hrun', -⟩ := Option.map_eq_some_iff.mp hm
      exact he ▸ h n run' hrun'
    · exact h m run hm
  · intro m run hm
    by_cases he : m = n
    · subst he
      refine ⟨f run, ?_, howner run⟩
      rw [changeRun_objects, if_pos rfl, hm]
      rfl
    · refine ⟨run, ?_, rfl⟩
      rw [changeRun_objects, if_neg he]
      exact hm
  · intro pair _
    unfold Handed
    rw [changeRun_handed]
  · intro pair _
    unfold Queued
    rw [changeRun_queued]

theorem receiptAt_record {run : ActiveRun} {x : ReceiptState} (hn : s.objects n = some run)
    (howner : run.ownerId = call.ownerId) {m : ℕ} {pair : OperationIndex.Pair} {r : ReceiptState}
    (h : ReceiptAt (s.record n c call x) m pair r) :
    ReceiptAt s m pair r ∨ m = n ∧ pair = call.pair ∧ r = x := by
  obtain ⟨run', hm, ho, hr⟩ := h
  rw [Service.record, changeRun_objects] at hm
  split at hm
  · next he =>
    rw [hn] at hm
    cases hm
    by_cases hop : pair.operationId = call.input.operationId
    · refine Or.inr ⟨he, ?_, ?_⟩
      · cases pair
        cases hop
        exact congrArg (OperationIndex.Pair.mk · _) (ho.symm.trans howner)
      · have hx : Function.update run.controlReceipts call.input.operationId (some x)
            pair.operationId = some x := by
          rw [hop]
          exact Function.update_self _ _ _
        exact Option.some.inj (hr.symm.trans hx)
    · have hsame : Function.update run.controlReceipts call.input.operationId (some x)
          pair.operationId = run.controlReceipts pair.operationId := Function.update_of_ne hop _ _
      exact Or.inl ⟨run, he ▸ hn, ho, hsame.symm.trans hr⟩
  · exact Or.inl ⟨run', hm, ho, hr⟩

/-- What is on record once a run has a receipt of an operation it had none of. -/
theorem recorded_record {run : ActiveRun} {x : ReceiptState} (hn : s.objects n = some run)
    (howner : run.ownerId = call.ownerId)
    (hnone : run.controlReceipts call.input.operationId = none) (pair : OperationIndex.Pair)
    (y : ReceiptState) :
    Recorded (s.record n c call x) pair y ↔ pair = call.pair ∧ y = x ∨ Recorded s pair y := by
  have hself : (s.record n c call x).objects n = some { run with
      controlReceipts := Function.update run.controlReceipts call.input.operationId (some x)
      controlTail := run.controlTail.filter (· ≠ c) } := by
    rw [Service.record, changeRun_objects, if_pos rfl, hn]
    rfl
  have hother : ∀ m, m ≠ n → (s.record n c call x).objects m = s.objects m := by
    intro m hm
    rw [Service.record, changeRun_objects, if_neg hm]
  constructor
  · rintro ⟨m, hr⟩
    rcases receiptAt_record hn howner hr with hold | ⟨-, hpair, hx⟩
    · exact Or.inr ⟨m, hold⟩
    · exact Or.inl ⟨hpair, hx⟩
  · rintro (⟨rfl, rfl⟩ | ⟨m, run', hm, ho, hr⟩)
    · exact ⟨n, _, hself, howner, Function.update_self _ _ _⟩
    · by_cases he : m = n
      · subst he
        rw [hn] at hm
        cases hm
        refine ⟨m, _, hself, ho, ?_⟩
        have hop : pair.operationId ≠ call.input.operationId := by
          intro hop
          rw [hop, hnone] at hr
          cases hr
        exact (Function.update_of_ne hop _ _).trans hr
      · rw [← hother m he] at hm
        exact ⟨m, run', hm, ho, hr⟩

theorem frame_record {run : ActiveRun} {x : ReceiptState} (hn : s.objects n = some run)
    (howner : run.ownerId = call.ownerId)
    (hnone : run.controlReceipts call.input.operationId = none) :
    Frame (fun _ => False) (· = call.pair) s (s.record n c call x) where
  bound := by
    intro h m run' hm
    rw [Service.record, changeRun_created]
    rw [Service.record, changeRun_objects] at hm
    split at hm
    · next he => exact he ▸ h n run hn
    · exact h m run' hm
  owners := by
    intro m run' hm
    by_cases he : m = n
    · subst he
      rw [hn] at hm
      cases hm
      refine ⟨{ run with
        controlReceipts := Function.update run.controlReceipts call.input.operationId (some x)
        controlTail := run.controlTail.filter (· ≠ c) }, ?_, rfl⟩
      rw [Service.record, changeRun_objects, if_pos rfl, hn]
      rfl
    · refine ⟨run', ?_, rfl⟩
      rw [Service.record, changeRun_objects, if_neg he]
      exact hm
  handed := by
    intro pair _
    unfold Handed Service.record
    rw [changeRun_handed]
  queued := by
    intro pair _
    unfold Queued Service.record
    rw [changeRun_queued]
  recorded := by
    intro pair hpair y
    rw [recorded_record hn howner hnone]
    simp [hpair]
  keeps := fun pair y hy => (recorded_record hn howner hnone pair y).mpr (Or.inr hy)

/-- **A receipt keeps what is kept** when it says whether the text is queued and there is no other
receipt of the operation. -/
theorem Kept.record (h : Kept s) {run : ActiveRun} {x : ReceiptState}
    (hn : s.objects n = some run) (howner : run.ownerId = call.ownerId)
    (hnone : run.controlReceipts call.input.operationId = none)
    (hx : x = .acceptedBySession ↔ Queued s call.pair)
    (hsame : ∀ y, Recorded s call.pair y → y = x) : Kept (s.record n c call x) := by
  have hf := frame_record (c := c) (x := x) hn howner hnone
  have hhanded : ∀ pair, Handed (s.record n c call x) pair ↔ Handed s pair := by
    intro pair
    unfold Handed Service.record
    rw [changeRun_handed]
  have hqueued : ∀ pair, Queued (s.record n c call x) pair ↔ Queued s pair := by
    intro pair
    unfold Queued Service.record
    rw [changeRun_queued]
  refine ⟨hf.bound h.bound, ?_, ?_, ?_, ?_⟩
  · unfold Service.record
    rw [changeRun_handed]
    exact h.once
  · intro pair hq
    exact (hhanded pair).mpr (h.queued pair ((hqueued pair).mp hq))
  · intro pair y hy
    rw [hqueued]
    rcases (recorded_record hn howner hnone pair y).mp hy with ⟨rfl, rfl⟩ | hy
    · exact hx
    · exact h.accepted pair y hy
  · intro pair y z hy hz
    have hy' := (recorded_record hn howner hnone pair y).mp hy
    have hz' := (recorded_record hn howner hnone pair z).mp hz
    rcases hy' with ⟨hp, hy'⟩ | hy' <;> rcases hz' with ⟨hq, hz'⟩ | hz'
    · exact hy'.trans hz'.symm
    · exact hy'.trans (hsame z (hp ▸ hz')).symm
    · exact (hsame y (hq ▸ hy')).trans hz'.symm
    · exact h.first pair y z hy' hz'

theorem frame_claims (claims : OperationIndex.Pair → Option (δ × JsString)) :
    Frame.Still s { s with claims := claims } :=
  ⟨fun h => h, fun _ run hr => ⟨run, hr, rfl⟩, fun _ _ => Iff.rfl, fun _ _ => Iff.rfl,
    fun _ _ _ => Iff.rfl, fun _ _ h => h⟩

theorem Frame.refl : Frame.Still s s := frame_claims s.claims

theorem Frame.trans {u : Service δ} (h1 : Frame.Still s t)
    (h2 : Frame.Still t u) : Frame.Still s u where
  bound := fun h => h2.bound (h1.bound h)
  owners := by
    intro m run hm
    obtain ⟨run', hm', ho'⟩ := h1.owners m run hm
    obtain ⟨run'', hm'', ho''⟩ := h2.owners m run' hm'
    exact ⟨run'', hm'', ho''.trans ho'⟩
  handed := fun pair h => (h2.handed pair h).trans (h1.handed pair h)
  queued := fun pair h => (h2.queued pair h).trans (h1.queued pair h)
  recorded := fun pair h x => (h2.recorded pair h x).trans (h1.recorded pair h x)
  keeps := fun pair x h => h2.keeps pair x (h1.keeps pair x h)

theorem frame_handed {d : Delivery} :
    Frame (· = d.pair) (fun _ => False) s { s with handed := s.handed ++ [d] } := by
  refine ⟨fun h => h, fun _ run hr => ⟨run, hr, rfl⟩, ?_, fun _ _ => Iff.rfl,
    fun _ _ _ => Iff.rfl, fun _ _ h => h⟩
  intro pair hpair
  have hne : d.pair ≠ pair := fun h => hpair h.symm
  simp [Handed, List.mem_append, or_and_right, exists_or, hne]

theorem frame_queued {d : Delivery} :
    Frame (· = d.pair) (fun _ => False) s { s with queued := s.queued ++ [d] } := by
  refine ⟨fun h => h, fun _ run hr => ⟨run, hr, rfl⟩, fun _ _ => Iff.rfl, ?_,
    fun _ _ _ => Iff.rfl, fun _ _ h => h⟩
  intro pair hpair
  have hne : d.pair ≠ pair := fun h => hpair h.symm
  simp [Queued, List.mem_append, or_and_right, exists_or, hne]

/-! ### A call -/

/-- Nothing of an operation stands against a call that has its turn on a run without a receipt of
it: what is on record elsewhere is that it was missed, no session has queued its text, and it is at
none unless a process has died; and nothing at all is there when the run can be controlled. -/
structure Unheard (s : Service δ) (pair : OperationIndex.Pair) (run : ActiveRun) (alone : Prop) :
    Prop where
  missed : ∀ x, Recorded s pair x → x = .missed
  queued : ¬ Queued s pair
  alone : alone
  free : run.controllable = true → ¬ Handed s pair ∧ ∀ x, ¬ Recorded s pair x

theorem Relies.of_idle (hq : q.flying = false) (hholds : Holds call q t)
    (hdone : ∀ x, q = .done x → Recorded t call.pair x) : Relies live ⟨call, q⟩ t where
  holds := hholds
  handed := by
    intro hfly
    rw [show (Phase.mk call q).point = q from rfl, hq] at hfly
    cases hfly
  unrecorded := by
    intro hfly
    rw [show (Phase.mk call q).point = q from rfl, hq] at hfly
    cases hfly
  accepted := by
    intro hfly
    rw [show (Phase.mk call q).point = q from rfl, hq] at hfly
    cases hfly
  done := hdone

/-- What a step of a call leaves to the other calls: it touches no operation but its own, and that
only while its text is at a session, or when no session was handed it; it records a receipt only
then, or when the call is alone. -/
structure Change (alone : Prop) (call : ControlCall) (p q : Point) (s t : Service δ)
    (touches records : OperationIndex.Pair → Prop) : Prop where
  frame : Frame touches records s t
  text : ∀ pair, touches pair → pair = call.pair ∧ (p.flying = true ∨ ¬ Handed s call.pair)
  receipt : ∀ pair, records pair → pair = call.pair ∧ (p.flying = true ∨ alone)
  flying : q.flying = true → p.flying = true ∨ ¬ Handed s call.pair

theorem Change.same {alone : Prop} (hf : Frame.Still s t) (hq : q.flying = true → p.flying = true) :
    Change alone call p q s t (fun _ => False) fun _ => False :=
  ⟨hf, fun _ h => h.elim, fun _ h => h.elim, fun h => Or.inl (hq h)⟩

theorem enter_cases (seat : ℕ) (call : ControlCall) (s : Service δ) :
    enter seat call s = .thrown ∨ ∃ n run, enter seat call s = .claiming n ∧
      s.objects n = some run ∧ run.ownerId = call.ownerId := by
  unfold enter
  split
  · exact Or.inl rfl
  · cases hr : s.runs seat call.runId with
    | none => exact Or.inl rfl
    | some n =>
      cases hn : s.objects n with
      | none => exact Or.inl (by simp only [hn])
      | some run =>
        simp only [hn]
        split
        · next ho => exact Or.inr ⟨n, run, rfl, hn, ho⟩
        · exact Or.inl rfl

/-- A turn: the receipt of the run, a delivery, or a missed control. -/
theorem turn_cases (h : turn c n call s = some (t, q)) : ∃ run, s.objects n = some run ∧
    run.controlTail.head? = some c ∧
    ((∃ x, run.controlReceipts call.input.operationId = some x ∧ t = s.leave n c ∧ q = .done x) ∨
      run.controlReceipts call.input.operationId = none ∧ run.controllable = true ∧
        t = { s with handed := s.handed ++ [⟨n, call.pair, call.kind, call.input.text⟩] } ∧
          q = .delivering n ∨
      run.controlReceipts call.input.operationId = none ∧ run.controllable = false ∧
        t = s.record n c call .missed ∧ q = .done .missed) := by
  unfold turn at h
  split at h
  · cases h
  · next run hrun =>
    split at h
    · next hhead =>
      refine ⟨run, hrun, hhead, ?_⟩
      split at h
      · next x hx =>
        cases h
        exact Or.inl ⟨x, hx, rfl, rfl⟩
      · next hnone =>
        split at h
        · next hcontrol =>
          cases h
          exact Or.inr (Or.inl ⟨hnone, hcontrol, rfl, rfl⟩)
        · next hcontrol =>
          cases h
          exact Or.inr (Or.inr ⟨hnone, Bool.eq_false_iff.mpr hcontrol, rfl, rfl⟩)
    · cases h

theorem frame_enqueue : Frame.Still s (s.enqueue n c) :=
  frame_changeRun (fun _ => rfl) (fun _ => rfl)

theorem frame_leave : Frame.Still s (s.leave n c) :=
  frame_changeRun (fun _ => rfl) (fun _ => rfl)

theorem claim_cases [DecidableEq δ] (requestSha256 : ControlKind → JsString → δ) (c n : ℕ)
    (call : ControlCall) (s : Service δ) :
    Frame.Still s (claim requestSha256 c n call s).1 ∧
      (claim requestSha256 c n call s).1.handed = s.handed ∧
      ((claim requestSha256 c n call s).2 = .thrown ∨
        (claim requestSha256 c n call s).2 = .waiting n) := by
  unfold claim
  dsimp only
  split
  · exact ⟨(frame_claims _).trans frame_enqueue, changeRun_handed _, Or.inr rfl⟩
  · split
    · exact ⟨frame_enqueue, changeRun_handed _, Or.inr rfl⟩
    · exact ⟨.refl, rfl, Or.inl rfl⟩

/-- **A step of a call** on which the journal takes what is accepted, and against which nothing
stands. -/
theorem moveControl_spec [DecidableEq δ] {requestSha256 : ControlKind → JsString → δ} {seat : ℕ}
    {alone : Prop} (h : Kept s) (hr : Relies true ⟨call, p⟩ s)
    (hturn : ∀ n run, p = .waiting n → s.objects n = some run →
      run.controlReceipts call.input.operationId = none → Unheard s call.pair run alone)
    (haccept : ∀ n, p = .accepting n → o = .ok)
    (hm : moveControl requestSha256 seat c o call p s = some (t, q)) :
    Kept t ∧ Relies true ⟨call, q⟩ t ∧
      ∃ touches records, Change alone call p q s t touches records := by
  cases p with
  | called =>
    cases hm
    refine ⟨h, ?_, _, _, .same .refl ?_⟩
    · rcases enter_cases seat call s with he | ⟨n, run, he, hrun, howner⟩
      · rw [he]
        exact Relies.of_idle rfl (fun n hn => nomatch hn) (fun x hx => nomatch hx)
      · rw [he]
        refine Relies.of_idle rfl ?_ (fun x hx => nomatch hx)
        intro m hm
        cases hm
        exact ⟨run, hrun, howner⟩
    · rcases enter_cases seat call s with he | ⟨n, run, he, -, -⟩ <;>
        exact fun hq => by rw [he] at hq; cases hq
  | claiming n =>
    cases o with
    | fails =>
      cases hm
      exact ⟨h, Relies.of_idle rfl (fun n hn => nomatch hn) (fun x hx => nomatch hx),
        _, _, .same .refl (fun hq => nomatch hq)⟩
    | ok =>
      obtain ⟨hf, hh, hq⟩ := claim_cases requestSha256 c n call s
      have heq : claim requestSha256 c n call s = (t, q) := Option.some.inj hm
      rw [heq] at hf hh hq
      refine ⟨h.frame hf hh, ?_, _, _, .same hf ?_⟩
      · have hholds : Holds call (.waiting n) t := (hr.holds : Holds call (.claiming n) s).frame hf
        rcases hq with hq | hq <;> rw [show q = _ from hq]
        · exact Relies.of_idle rfl (fun n hn => nomatch hn) (fun x hx => nomatch hx)
        · exact Relies.of_idle rfl hholds (fun x hx => nomatch hx)
      · rcases hq with hq | hq <;> rw [show q = _ from hq] <;> exact fun h => nomatch h
  | waiting n =>
    obtain ⟨run, hrun, -, hcases⟩ := turn_cases hm
    obtain ⟨run', hrun', howner⟩ := hr.holds n rfl
    rw [hrun] at hrun'
    cases hrun'
    rcases hcases with ⟨x, hx, rfl, rfl⟩ | ⟨hnone, hcontrol, rfl, rfl⟩ | ⟨hnone, -, rfl, rfl⟩
    · refine ⟨h.frame frame_leave (changeRun_handed _), ?_, _, _, .same frame_leave (fun hq => nomatch hq)⟩
      refine Relies.of_idle rfl (fun n hn => nomatch hn) ?_
      intro y hy
      cases hy
      exact frame_leave.keeps _ _ ⟨n, run, hrun, howner, hx⟩
    · obtain ⟨-, hqueued, -, hfree⟩ := hturn n run rfl hrun hnone
      obtain ⟨hhanded, hnone'⟩ := hfree hcontrol
      refine ⟨⟨h.bound, ?_, ?_, h.accepted, h.first⟩, ?_,
        _, _, frame_handed, fun pair hp => ⟨hp, Or.inr hhanded⟩, fun _ hp => hp.elim,
        fun _ => Or.inr hhanded⟩
      · simp only [List.map_append, List.map_cons, List.map_nil]
        refine List.Nodup.append h.once (List.nodup_singleton _) ?_
        intro pair hpair hmem
        rw [List.mem_singleton.mp hmem] at hpair
        obtain ⟨d, hd, hp⟩ := List.mem_map.mp hpair
        exact hhanded ⟨d, hd, hp⟩
      · intro pair hq
        obtain ⟨d, hd, hp⟩ := h.queued pair hq
        exact ⟨d, List.mem_append_left _ hd, hp⟩
      · refine ⟨?_, ?_, fun _ _ => hnone', ?_, fun x hx => nomatch hx⟩
        · intro m hm
          cases hm
          exact ⟨run, hrun, howner⟩
        · exact fun _ => ⟨_, List.mem_append_right _ (List.mem_singleton.mpr rfl), rfl⟩
        · exact fun _ => ⟨fun hq => absurd hq hqueued, fun hq => nomatch hq⟩
    · obtain ⟨hmissed, hqueued, halone, -⟩ := hturn n run rfl hrun hnone
      refine ⟨h.record hrun howner hnone ⟨fun hx => (nomatch hx), fun hq => absurd hq hqueued⟩ hmissed,
        ?_, _, _, frame_record hrun howner hnone, fun _ hp => hp.elim,
        fun pair hp => ⟨hp, Or.inr halone⟩, fun hq => nomatch hq⟩
      refine Relies.of_idle rfl (fun n hn => nomatch hn) ?_
      intro y hy
      cases hy
      exact (recorded_record hrun howner hnone _ _).mpr (Or.inl ⟨rfl, rfl⟩)
  | delivering n =>
    have hhanded := hr.handed rfl
    have hnone := hr.unrecorded rfl rfl
    have hqueued : ¬ Queued s call.pair := fun hq => nomatch (hr.accepted rfl).mp hq
    cases o with
    | fails =>
      cases hm
      refine ⟨h, ⟨?_, fun _ => hhanded, fun _ _ => hnone, ?_, fun x hx => nomatch hx⟩,
        _, _, .same .refl (fun _ => rfl)⟩
      · exact hr.holds
      · exact fun _ => ⟨fun hq => absurd hq hqueued, fun hq => nomatch hq⟩
    | ok =>
      cases hm
      have hmem : Queued { s with
          queued := s.queued ++ [⟨n, call.pair, call.kind, call.input.text⟩] } call.pair :=
        ⟨_, List.mem_append_right _ (List.mem_singleton.mpr rfl), rfl⟩
      refine ⟨⟨h.bound, h.once, ?_, ?_, h.first⟩,
        ⟨hr.holds, fun _ => hhanded, fun _ _ => hnone, fun _ => ⟨fun _ => rfl, fun _ => hmem⟩,
          fun x hx => nomatch hx⟩,
        _, _, frame_queued, fun pair hp => ⟨hp, Or.inl rfl⟩, fun _ hp => hp.elim,
        fun _ => Or.inl rfl⟩
      · rintro pair ⟨d, hd, hp⟩
        rcases List.mem_append.mp hd with hd | hd
        · exact h.queued pair ⟨d, hd, hp⟩
        · rw [List.mem_singleton.mp hd] at hp
          exact hp ▸ hhanded
      · intro pair receipt hx
        have hpair : pair ≠ call.pair := by
          rintro rfl
          exact hnone receipt hx
        rw [frame_queued.queued pair hpair]
        exact h.accepted pair receipt hx
  | accepting n =>
    have hhanded := hr.handed rfl
    have hnone := hr.unrecorded rfl rfl
    have hqueued : Queued s call.pair := (hr.accepted rfl).mpr rfl
    obtain ⟨run, hrun, howner⟩ := hr.holds n rfl
    rw [haccept n rfl] at hm
    cases hm
    have hfree : run.controlReceipts call.input.operationId = none :=
      Option.eq_none_iff_forall_ne_some.mpr fun x hx => hnone x ⟨n, run, hrun, howner, hx⟩
    refine ⟨h.record hrun howner hfree ⟨fun _ => hqueued, fun _ => rfl⟩
        (fun y hy => absurd hy (hnone y)), ?_,
      _, _, frame_record hrun howner hfree, fun _ hp => hp.elim,
      fun pair hp => ⟨hp, Or.inl rfl⟩, fun hq => nomatch hq⟩
    refine Relies.of_idle rfl (fun n hn => nomatch hn) ?_
    intro y hy
    cases hy
    exact (recorded_record hrun howner hfree _ _).mpr (Or.inl ⟨rfl, rfl⟩)
  | failing n =>
    have hhanded := hr.handed rfl
    have hnone := hr.unrecorded rfl rfl
    have hqueued : ¬ Queued s call.pair := fun hq => nomatch (hr.accepted rfl).mp hq
    obtain ⟨run, hrun, howner⟩ := hr.holds n rfl
    cases o with
    | fails =>
      cases hm
      exact ⟨h.frame frame_leave (changeRun_handed _),
        Relies.of_idle rfl (fun n hn => nomatch hn) (fun x hx => nomatch hx),
        _, _, .same frame_leave (fun hq => nomatch hq)⟩
    | ok =>
      cases hm
      have hfree : run.controlReceipts call.input.operationId = none :=
        Option.eq_none_iff_forall_ne_some.mpr fun x hx => hnone x ⟨n, run, hrun, howner, hx⟩
      refine ⟨h.record hrun howner hfree ⟨fun hx => (nomatch hx), fun hq => absurd hq hqueued⟩
          (fun y hy => absurd hy (hnone y)), ?_,
        _, _, frame_record hrun howner hfree, fun _ hp => hp.elim,
      fun pair hp => ⟨hp, Or.inl rfl⟩, fun hq => nomatch hq⟩
      refine Relies.of_idle rfl (fun n hn => nomatch hn) ?_
      intro y hy
      cases hy
      exact (recorded_record hrun howner hfree _ _).mpr (Or.inl ⟨rfl, rfl⟩)
  | done x => cases hm
  | thrown => cases hm

/-! ### What happens beside the calls -/

theorem frame_opened (h : Kept s) {seat : ℕ} {runId ownerId : JsString} {status : RunStatus}
    (ht : happens (.opened seat runId ownerId status) s = some t) :
    Frame.Still s t := by
  cases ht
  have hold : ∀ m run, s.objects m = some run →
      Function.update s.objects s.created (some ⟨ownerId, status, false, fun _ => none, []⟩) m =
        some run := by
    intro m run hm
    exact (Function.update_of_ne (Nat.ne_of_lt (h.bound m run hm)) _ _).trans hm
  have hrecorded : ∀ pair x, Recorded s pair x → Recorded { s with
      runs := Function.update s.runs seat (Function.update (s.runs seat) runId (some s.created))
      objects := Function.update s.objects s.created
        (some ⟨ownerId, status, false, fun _ => none, []⟩)
      created := s.created + 1 } pair x := by
    rintro pair x ⟨m, run, hm, ho, hx⟩
    exact ⟨m, run, hold m run hm, ho, hx⟩
  refine ⟨?_, fun m run hm => ⟨run, hold m run hm, rfl⟩, fun _ _ => Iff.rfl, fun _ _ => Iff.rfl,
    fun pair _ x => ⟨?_, hrecorded pair x⟩, hrecorded⟩
  · intro hbound m run hm
    show m < s.created + 1
    by_cases he : m = s.created
    · omega
    · have := hbound m run ((Function.update_of_ne he _ _).symm.trans hm)
      omega
  · rintro ⟨m, run, hm, ho, hx⟩
    by_cases he : m = s.created
    · subst he
      have hself := (Function.update_self s.created
        (some (ActiveRun.mk ownerId status false (fun _ => none) [])) s.objects).symm.trans hm
      cases hself
      cases hx
    · exact ⟨m, run, (Function.update_of_ne he _ _).symm.trans hm, ho, hx⟩

/-- **What happens beside the calls** touches nothing. -/
theorem happens_spec {e : Event δ} (h : Kept s) (ht : happens e s = some t) :
    Frame.Still s t ∧ t.handed = s.handed := by
  cases e with
  | opened seat runId ownerId status =>
    refine ⟨frame_opened h ht, ?_⟩
    cases ht
    rfl
  | registered n control =>
    cases ht
    exact ⟨frame_changeRun (fun _ => rfl) (fun _ => rfl), changeRun_handed _⟩
  | status n status =>
    cases ht
    exact ⟨frame_changeRun (fun _ => rfl) (fun _ => rfl), changeRun_handed _⟩
  | claimed pair request =>
    simp only [happens] at ht
    split at ht
    · cases ht
      exact ⟨frame_claims _, rfl⟩
    · cases ht

/-! ## Steps of the controls -/

/-- No call that is alive has the text of an operation at a session. -/
def Alone (w : World (Service δ) Phase) (c : ℕ) (pair : OperationIndex.Pair) : Prop :=
  ∀ d b, d ≠ c → w.calls d = some b → w.dead b.process = false → b.state.point.flying = true →
    b.state.call.pair ≠ pair

/-- The journal takes what a session has accepted, and nothing stands against a call that has its
turn. -/
def Clear (w : World (Service δ) Phase) : Act δ → Prop
  | .move c o => ∀ a, w.calls c = some a →
      (∀ n run, a.state.point = .waiting n → w.shared.objects n = some run →
        run.controlReceipts a.state.call.input.operationId = none →
          Unheard w.shared a.state.call.pair run (Alone w c a.state.call.pair)) ∧
      ∀ n, a.state.point = .accepting n → o = .ok
  | _ => True

section Runs

variable [DecidableEq δ] (requestSha256 : ControlKind → JsString → δ)

/-- **The assertions on controls** are kept by every step against which nothing stands. -/
theorem controlOutline_sound :
    (controlOutline (δ := δ)).Sound (program requestSha256) Clear where
  begun := by
    intro w p k _ _ he _
    have hk : k.point = .called := of_decide_eq_true he
    have hidle : k.point.flying = false := by
      rw [hk]
      rfl
    refine ⟨Relies.of_idle hidle ?_ ?_, fun d b _ => ⟨?_, ?_⟩⟩
    · intro n hn
      rw [hk] at hn
      cases hn
    · intro x hx
      rw [hk] at hx
      cases hx
    · intro hfly
      rw [show (Call.mk p k).state.point = k.point from rfl, hk] at hfly
      cases hfly
    · intro _ hfly
      rw [show (Call.mk p k).state.point = k.point from rfl, hk] at hfly
      cases hfly
  move := by
    intro w c a o t k' hw hclear hc hlive hm
    obtain ⟨seat, call, p⟩ := a
    obtain ⟨⟨u, q⟩, hmove, he⟩ := Option.map_eq_some_iff.mp hm
    cases he
    have hrelies : Relies true ⟨call, p⟩ w.shared := (hw.each c _ hc).mono fun _ => by simp [hlive]
    obtain ⟨hturn, haccept⟩ := hclear _ hc
    obtain ⟨hkept, hown, touches, records, hchange⟩ :=
      moveControl_spec hw.all hrelies hturn haccept hmove
    have hdelivering : ∀ d b, d ≠ c → w.calls d = some b → b.state.point.flying = true →
        (p.flying = true ∨ ¬ Handed w.shared call.pair) → b.state.call.pair ≠ call.pair := by
      intro d b hd hb hfly hp hpair
      rcases hp with hp | hp
      · exact (hw.pair c _ d b hd.symm hc hb) hp hfly hpair.symm
      · exact hp (hpair ▸ (hw.each d b hb).handed hfly)
    refine ⟨hkept, hown.mono fun _ => rfl, ?_,
      fun d b e f _ _ hne hd he => hw.pair d b e f hne hd he⟩
    intro d b hd hb
    refine ⟨?_, ?_, ?_⟩
    · refine Relies.frame (hw.each d b hb) hchange.frame ?_ ?_
      · intro hfly htouch
        obtain ⟨hpair, hp⟩ := hchange.text _ htouch
        exact hdelivering d b hd hb hfly hp hpair
      · intro hfly hb' hrecord
        obtain ⟨hpair, hp⟩ := hchange.receipt _ hrecord
        rcases hp with hp | halone
        · exact hdelivering d b hd hb hfly (Or.inl hp) hpair
        · exact halone d b hd hb (by simpa using hb') hfly hpair
    · intro hq hfly
      exact (hdelivering d b hd hb hfly (hchange.flying hq)).symm
    · intro hfly hq
      exact hdelivering d b hd hb hfly (hchange.flying hq)
  die := by
    intro w p hw _
    refine ⟨hw.all, fun c a hc => (hw.each c a hc).mono ?_, hw.pair⟩
    intro hlive
    by_cases hp : a.process = p
    · subst hp
      simp at hlive
    · rwa [Function.update_of_ne hp] at hlive
  outside := by
    intro w e t hw _ ht
    obtain ⟨hf, hh⟩ := happens_spec hw.all ht
    exact ⟨hw.all.frame hf hh,
      fun c a hc => (hw.each c a hc).frame hf (fun _ h => h) (fun _ _ h => h), hw.pair⟩

end Runs

/-- Texts are handed over once, and every call that returns has the one receipt of its operation,
which says whether a session has queued the text. -/
structure Delivered (w : World (Service δ) Phase) : Prop where
  once : (w.shared.handed.map Delivery.pair).Nodup
  receipts : ∀ c a x, w.calls c = some a → a.state.point = .done x →
    Recorded w.shared a.state.call.pair x ∧
      (∀ y, Recorded w.shared a.state.call.pair y → y = x) ∧
      (x = .acceptedBySession ↔ Queued w.shared a.state.call.pair)
  same : ∀ c a d b x y, w.calls c = some a → w.calls d = some b →
    a.state.point = .done x → b.state.point = .done y → a.state.call.pair = b.state.call.pair →
      x = y

theorem Delivered.of_holds {w : World (Service δ) Phase} (hw : controlOutline.Holds w) :
    Delivered w where
  once := hw.all.once
  receipts := by
    intro c a x hc hx
    have hrecorded := (hw.each c a hc).done x hx
    exact ⟨hrecorded, fun y hy => hw.all.first _ y x hy hrecorded,
      hw.all.accepted _ x hrecorded⟩
  same := by
    intro c a d b x y hc hd hx hy hpair
    have hx' := (hw.each c a hc).done x hx
    have hy' := (hw.each d b hd).done y hy
    rw [← hpair] at hy'
    exact hw.all.first _ x y hx' hy'

theorem kept_empty : Kept (empty : Service δ) where
  bound := fun _ _ h => nomatch h
  once := List.nodup_nil
  queued := fun _ h => by
    obtain ⟨d, hd, -⟩ := h
    cases hd
  accepted := fun _ _ h => by
    obtain ⟨n, run, hn, -⟩ := h
    cases hn
  first := fun _ _ _ h => by
    obtain ⟨n, run, hn, -⟩ := h
    cases hn

end Control

end PiSubagent
