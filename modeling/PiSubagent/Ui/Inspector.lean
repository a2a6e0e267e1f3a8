import PiSubagent.Lib.Runs
import PiSubagent.Service.RunSummary

/-!
# The inspector

The full-screen view of the operator: keys, and loads of the service that come back at any time and
in any order.

* `Inspector`, `Inspector.key`: its screens and what a key does on each.
* `Event`, `step`: keys, loads that come back or fail, changes of runs, the clock.
* `Sound`: what the screens of an action rely on (`sound_step`).
* **`action_confirmed`**: an action leaves the inspector by a key on its own screen, with the run
  whose details are shown there.
* **`action_offered`**: the action is one that a shown run offered; of the same run, when no other
  details come in between.
* **`selection_bounded`**: without Down on an empty list, the selections are among the rows, and the
  selected row is shown.
-/

namespace PiSubagent

open JsonText

namespace Inspection

open Summaries Runs

/-! ## States -/

/-- The tabs of a run. -/
inductive Tab where
  | overview | activity | result | technical
deriving DecidableEq, Repr

/-- `TABS`. -/
def tabs : List Tab := [.overview, .activity, .result, .technical]

/-- The views that are kept when the inspector closes. -/
inductive View where
  | runs | detail
deriving DecidableEq, Repr

/-- `Screen`. -/
inductive Screen where
  | runs | detail | actions | input | confirm | help
deriving DecidableEq, Repr

/-- The screen of a view. -/
def View.screen : View → Screen
  | .runs => .runs
  | .detail => .detail

/-- `InspectorState`. -/
structure InspectorState where
  allProjects : Bool
  view : View
  selectedRunId : Option JsString
  tab : Tab
  search : Option JsString
  statuses : Option (List RunStatus)

/-- `RunInspection` and the page of its log, with the number of lines `detailBody` makes of them. -/
structure RunInspection where
  summary : RunSummary
  lines : Tab → ℕ

/-- `InspectorIntent`, of which the state is that of the inspector. -/
inductive Intent where
  | close
  | action (action : RunAction) (run : RunSummary) (text : Option JsString) (confirmed : Bool)
  | retention
  | search
  | filter

/-- The variables of `showSubagentInspector`, the loads on their way, and the intent it returned. -/
structure Inspector where
  state : InspectorState
  screen : Screen
  runs : List RunSummary
  total : ℕ
  nextCursor : Option JsString
  selected : ℤ
  inspection : Option RunInspection
  actions : List RunAction
  actionSelected : ℤ
  pendingAction : Option RunAction
  actionInput : JsString
  detailScroll : ℕ
  error : Option JsString
  /-- The calls of `loadRuns` on their way, `true` for those that append. -/
  loadingRuns : List Bool
  /-- The calls of `loadDetail` on their way. -/
  loadingDetail : List JsString
  closed : Option Intent

/-- The keys that the inspector tells apart. -/
inductive Key where
  | escape | enter | up | down | left | right | space | question | slash | a | f | g | r
  | other (data : JsString)
deriving DecidableEq

/-- The actions that are asked for a text. -/
def textActions : List RunAction := [.steer, .followUp, .pin]

/-- The actions that are asked to be confirmed. -/
def confirmedActions : List RunAction := [.stop, .retry, .resume, .releaseWorkspace, .abandon]

/-- `xs[i]`. -/
def at? {α : Type} (xs : List α) (i : ℤ) : Option α := if i < 0 then none else xs[i.toNat]?

namespace Inspector

variable (s : Inspector)

/-- `finish`. -/
def finish (intent : Intent) : Inspector := { s with closed := some intent }

/-- `void loadRuns(append)`. -/
def loadRuns (append : Bool) : Inspector := { s with loadingRuns := s.loadingRuns ++ [append] }

/-- `void loadDetail(runId)`. -/
def loadDetail (runId : JsString) : Inspector :=
  { s with loadingDetail := s.loadingDetail ++ [runId] }

/-- `if (state.selectedRunId) void loadDetail(state.selectedRunId)`. -/
def loadSelected : Inspector :=
  match s.state.selectedRunId with
  | some runId => s.loadDetail runId
  | none => s

/-- `selected` goes to another row, and `state.selectedRunId` with it. -/
def select (selected : ℤ) : Inspector :=
  { s with
    selected := selected
    state := { s.state with selectedRunId := (at? s.runs selected).map (·.runId.val) } }

/-- `actionInput.onSubmit`. -/
def submit : Inspector :=
  match s.inspection, s.pendingAction with
  | some inspection, some action =>
    let text := trim s.actionInput
    if action ≠ .pin ∧ text = [] then s
    else s.finish (.action action inspection.summary
      (some (if text = [] then ofString "operator pin" else text)) false)
  | _, _ => s

/-- A key on the screen of a text; `edit` is what the field makes of other keys. -/
def inputKey (edit : JsString → Key → JsString) : Key → Inspector
  | .escape => { s with screen := .actions, pendingAction := none }
  | .enter => s.submit
  | key => { s with actionInput := edit s.actionInput key }

/-- A key on the screen that asks to confirm. -/
def confirmKey : Key → Inspector
  | .escape => { s with screen := .actions, pendingAction := none }
  | .enter =>
    match s.inspection, s.pendingAction with
    | some inspection, some action => s.finish (.action action inspection.summary none true)
    | _, _ => s
  | _ => s

/-- A key on the help screen. -/
def helpKey : Key → Inspector
  | .escape => { s with screen := s.state.view.screen }
  | .question => { s with screen := s.state.view.screen }
  | _ => s

/-- Enter on an action. -/
def choose (inspection : RunInspection) (action : RunAction) : Inspector :=
  let s := { s with pendingAction := some action }
  if action ∈ textActions then { s with actionInput := [], screen := .input }
  else if action ∈ confirmedActions then { s with screen := .confirm }
  else s.finish (.action action inspection.summary none false)

/-- A key on the palette of actions. -/
def actionsKey : Key → Inspector
  | .escape => { s with screen := .detail }
  | .up => { s with actionSelected := max 0 (s.actionSelected - 1) }
  | .down => { s with actionSelected := min (s.actions.length - 1) (s.actionSelected + 1) }
  | .enter =>
    match s.inspection, at? s.actions s.actionSelected with
    | some inspection, some action => s.choose inspection action
    | _, _ => s
  | _ => s

/-- The tab a number of places further. -/
def turnTab (direction : ℤ) : Inspector :=
  match at? tabs (((tabs.idxOf s.state.tab : ℤ) + direction + tabs.length) % tabs.length) with
  | some tab => { s with state := { s.state with tab := tab }, detailScroll := 0 }
  | none => s

/-- A key on the details of a run. -/
def detailKey : Key → Inspector
  | .escape =>
    { s with screen := .runs, state := { s.state with view := .runs }, inspection := none }
  | .left => s.turnTab (-1)
  | .right => s.turnTab 1
  | .up => { s with detailScroll := s.detailScroll - 1 }
  | .down =>
    match s.inspection with
    | some inspection =>
      { s with detailScroll := min (inspection.lines s.state.tab - 1) (s.detailScroll + 1) }
    | none => s
  | .space =>
    match s.inspection with
    | some inspection =>
      { s with
        actions := inspection.summary.availableActions
        actionSelected := 0
        screen := .actions }
    | none => s
  | _ => s

/-- A key on the list of runs. -/
def runsKey : Key → Inspector
  | .escape => s.finish .close
  | .up => s.select (max 0 (s.selected - 1))
  | .down =>
    let selected : ℤ := min (s.runs.length - 1) (s.selected + 1)
    (if selected = s.runs.length - 1 ∧ s.nextCursor.isSome then s.loadRuns true else s).select
      selected
  | .enter =>
    match at? s.runs s.selected with
    | some run =>
      { s with
        screen := .detail
        state := { s.state with view := .detail, selectedRunId := some run.runId.val }
        detailScroll := 0 }.loadDetail run.runId.val
    | none => s
  | .a =>
    { s with
      state := { s.state with allProjects := !s.state.allProjects, selectedRunId := none }
      selected := 0 }.loadRuns false
  | .slash => s.finish .search
  | .f => s.finish .filter
  | .g => s.finish .retention
  | _ => s

/-- `handleInput`. -/
def key (edit : JsString → Key → JsString) (k : Key) : Inspector :=
  match s.screen with
  | .input => s.inputKey edit k
  | .confirm => s.confirmKey k
  | .help => s.helpKey k
  | .actions => s.actionsKey k
  | screen =>
    if k = .question then { s with screen := .help }
    else if k = .r then (s.loadRuns false).loadSelected
    else if screen = .detail then s.detailKey k
    else s.runsKey k

/-- The end of `loadRuns`. -/
def loadedRuns (append : Bool) (page : List RunSummary) (total : ℕ) (nextCursor : Option JsString) :
    Inspector :=
  let runs := if append then s.runs ++ page else page
  let index := s.state.selectedRunId.bind fun runId =>
    runs.findIdx? fun run => run.runId.val = runId
  { s with
    runs := runs
    total := total
    nextCursor := nextCursor
    selected := match index with
      | some i => i
      | none => min s.selected (max 0 (runs.length - 1))
    error := none
    loadingRuns := s.loadingRuns.erase append }

/-- The end of `loadDetail`. -/
def loadedDetail (inspection : RunInspection) : Inspector :=
  { s with
    inspection := some inspection
    state := { s.state with selectedRunId := some inspection.summary.runId.val }
    error := none
    loadingDetail := s.loadingDetail.erase inspection.summary.runId.val }

/-- The inspector before its first loads. -/
def empty (state : InspectorState) : Inspector where
  state := state
  screen := state.view.screen
  runs := []
  total := 0
  nextCursor := none
  selected := 0
  inspection := none
  actions := []
  actionSelected := 0
  pendingAction := none
  actionInput := []
  detailScroll := 0
  error := none
  loadingRuns := []
  loadingDetail := []
  closed := none

/-- The inspector with its first loads done, which are awaited before the first key. -/
def start (state : InspectorState) (runs : List RunSummary) (total : ℕ)
    (nextCursor : Option JsString) (inspection : Option RunInspection) : Inspector :=
  let s := (empty state).loadedRuns false runs total nextCursor
  match inspection with
  | some inspection => s.loadedDetail inspection
  | none => s

end Inspector

/-! ## Runs of the inspector -/

/-- What happens to the inspector. -/
inductive Event where
  | key (k : Key)
  | runs (append : Bool) (page : List RunSummary) (total : ℕ) (nextCursor : Option JsString)
  | runsFailed (append : Bool) (error : JsString)
  | detail (inspection : RunInspection)
  | detailFailed (runId : JsString) (error : JsString)
  /-- The service tells of a change. -/
  | changed (runId : JsString)
  /-- The clock finds a retry whose wait is over and that is not yet offered. -/
  | due

variable (edit : JsString → Key → JsString)

/-- What the clock looks for, but for the time. -/
def Inspector.awaitsRetry (s : Inspector) : Bool :=
  s.runs.any fun run => run.retryable && run.retryAt.isSome && run.availableActions.all (· ≠ .retry)

/-- What an event does; `none` when it cannot happen. -/
def Inspector.handle (s : Inspector) : Event → Option Inspector
  | .key k => some (s.key edit k)
  | .runs append page total nextCursor =>
    if append ∈ s.loadingRuns then some (s.loadedRuns append page total nextCursor) else none
  | .runsFailed append error =>
    if append ∈ s.loadingRuns then
      some { s with error := some error, loadingRuns := s.loadingRuns.erase append }
    else none
  | .detail inspection =>
    if inspection.summary.runId.val ∈ s.loadingDetail then some (s.loadedDetail inspection)
    else none
  | .detailFailed runId error =>
    if runId ∈ s.loadingDetail then
      some { s with error := some error, loadingDetail := s.loadingDetail.erase runId }
    else none
  | .changed runId =>
    let s := s.loadRuns false
    some (if s.state.selectedRunId = some runId then s.loadDetail runId else s)
  | .due => if s.awaitsRetry then some (s.loadRuns false).loadSelected else none

/-- One step; there is none after the inspector has closed. -/
def step (s : Inspector) (e : Event) : Option Inspector :=
  if s.closed = none then s.handle edit e else none

/-! ## The screens of an action -/

/-- The screens between the choice of an action and its intent. -/
def palette : List Screen := [.actions, .input, .confirm]

/-- What the screens of an action rely on. -/
structure Sound (s : Inspector) : Prop where
  shown : s.screen ∈ palette → s.inspection.isSome
  input : s.screen = .input → ∃ a ∈ textActions, s.pendingAction = some a ∧ a ∈ s.actions
  confirm : s.screen = .confirm → ∃ a ∈ confirmedActions, s.pendingAction = some a ∧ a ∈ s.actions

/-- How an action leaves the inspector. -/
inductive Leaves (s : Inspector) : RunAction → RunSummary → Option JsString → Bool → Prop
  | typed {i : RunInspection} {a : RunAction} {text : JsString} (hscreen : s.screen = .input)
      (hi : s.inspection = some i) (ha : s.pendingAction = some a) (hmem : a ∈ textActions)
      (htext : text ≠ []) : Leaves s a i.summary (some text) false
  | confirmed {i : RunInspection} {a : RunAction} (hscreen : s.screen = .confirm)
      (hi : s.inspection = some i) (ha : s.pendingAction = some a) (hmem : a ∈ confirmedActions) :
      Leaves s a i.summary none true
  | chosen {i : RunInspection} {a : RunAction} (hscreen : s.screen = .actions)
      (hi : s.inspection = some i) (ha : at? s.actions s.actionSelected = some a)
      (htext : a ∉ textActions) (hconfirm : a ∉ confirmedActions) : Leaves s a i.summary none false

variable {edit} {s t u : Inspector} {e : Event}

theorem Sound.quiet (hscreen : t.screen ∉ palette) : Sound t where
  shown := fun h => absurd h hscreen
  input := fun h => absurd (h ▸ List.mem_cons_of_mem _ List.mem_cons_self) hscreen
  confirm := fun h => absurd (h ▸ by decide) hscreen

/-- What does not touch the screens of an action keeps what they rely on. -/
theorem Sound.keep (hs : Sound s) (hscreen : t.screen = s.screen)
    (hinspection : s.inspection.isSome → t.inspection.isSome) (hactions : t.actions = s.actions)
    (hpending : t.pendingAction = s.pendingAction) : Sound t where
  shown := fun h => hinspection (hs.shown (hscreen ▸ h))
  input := fun h => by
    rw [hpending, hactions]
    exact hs.input (hscreen ▸ h)
  confirm := fun h => by
    rw [hpending, hactions]
    exact hs.confirm (hscreen ▸ h)

theorem mem_of_at? {α : Type} {xs : List α} {i : ℤ} {a : α} (h : at? xs i = some a) : a ∈ xs := by
  unfold at? at h
  split_ifs at h
  exact List.mem_of_getElem? h

theorem runs_not_palette : Screen.runs ∉ palette := by decide

theorem detail_not_palette : Screen.detail ∉ palette := by decide

theorem help_not_palette : Screen.help ∉ palette := by decide

/-- What a key outside the screens of an action does. -/
structure Browses (s t : Inspector) : Prop where
  screen : t.screen ∉ palette
  actions : t.actions = s.actions
  actionSelected : t.actionSelected = s.actionSelected
  pending : t.pendingAction = s.pendingAction
  closed : ∀ a run text c, t.closed = some (.action a run text c) → s.closed = t.closed

/-- Before the palette opens, of the run whose details are shown. -/
def Inspector.openPalette (s : Inspector) (i : RunInspection) : Inspector :=
  { s with actions := i.summary.availableActions, actionSelected := 0, screen := .actions }

theorem Browses.refl (h : s.screen ∉ palette) : Browses s s :=
  ⟨h, rfl, rfl, rfl, fun _ _ _ _ _ => rfl⟩

theorem browses_loadSelected (h : s.screen ∉ palette) (append : Bool) :
    Browses s (s.loadRuns append).loadSelected := by
  unfold Inspector.loadSelected
  split
  · exact ⟨h, rfl, rfl, rfl, fun _ _ _ _ _ => rfl⟩
  · exact ⟨h, rfl, rfl, rfl, fun _ _ _ _ _ => rfl⟩

theorem browses_helpKey (hscreen : s.screen = .help) (k : Key) : Browses s (s.helpKey k) := by
  have hstay : s.screen ∉ palette := by
    rw [hscreen]
    decide
  have hback : s.state.view.screen ∉ palette := by
    cases s.state.view <;> decide
  cases k with
  | escape => exact ⟨hback, rfl, rfl, rfl, fun _ _ _ _ _ => rfl⟩
  | question => exact ⟨hback, rfl, rfl, rfl, fun _ _ _ _ _ => rfl⟩
  | _ => exact .refl hstay

theorem browses_turnTab (h : s.screen ∉ palette) (direction : ℤ) :
    Browses s (s.turnTab direction) := by
  unfold Inspector.turnTab
  split
  · exact ⟨h, rfl, rfl, rfl, fun _ _ _ _ _ => rfl⟩
  · exact .refl h

theorem browses_detailKey (hscreen : s.screen = .detail) (k : Key) :
    Browses s (s.detailKey k) ∨ ∃ i, s.inspection = some i ∧ s.detailKey k = s.openPalette i := by
  have hstay : s.screen ∉ palette := by
    rw [hscreen]
    decide
  cases k with
  | escape => exact Or.inl ⟨runs_not_palette, rfl, rfl, rfl, fun _ _ _ _ _ => rfl⟩
  | left => exact Or.inl (browses_turnTab hstay _)
  | right => exact Or.inl (browses_turnTab hstay _)
  | up => exact Or.inl ⟨hstay, rfl, rfl, rfl, fun _ _ _ _ _ => rfl⟩
  | down =>
    left
    unfold Inspector.detailKey
    cases s.inspection with
    | none => exact .refl hstay
    | some i => exact ⟨hstay, rfl, rfl, rfl, fun _ _ _ _ _ => rfl⟩
  | space =>
    simp only [Inspector.detailKey]
    split
    · next i hi => exact Or.inr ⟨i, hi, rfl⟩
    · exact Or.inl (.refl hstay)
  | _ => exact Or.inl (.refl hstay)

theorem browses_runsKey (hscreen : s.screen = .runs) (k : Key) : Browses s (s.runsKey k) := by
  have hstay : s.screen ∉ palette := by
    rw [hscreen]
    decide
  have hfinish : ∀ intent, (∀ a run text c, intent ≠ .action a run text c) →
      Browses s (s.finish intent) := by
    intro intent hother
    refine ⟨hstay, rfl, rfl, rfl, ?_⟩
    exact fun a run text c h => absurd (Option.some.inj h) (hother a run text c)
  cases k with
  | escape => exact hfinish .close (by simp)
  | slash => exact hfinish .search (by simp)
  | f => exact hfinish .filter (by simp)
  | g => exact hfinish .retention (by simp)
  | up => exact ⟨hstay, rfl, rfl, rfl, fun _ _ _ _ _ => rfl⟩
  | down =>
    simp only [Inspector.runsKey]
    split
    · exact ⟨hstay, rfl, rfl, rfl, fun _ _ _ _ _ => rfl⟩
    · exact ⟨hstay, rfl, rfl, rfl, fun _ _ _ _ _ => rfl⟩
  | enter =>
    unfold Inspector.runsKey
    cases at? s.runs s.selected with
    | none => exact .refl hstay
    | some run => exact ⟨detail_not_palette, rfl, rfl, rfl, fun _ _ _ _ _ => rfl⟩
  | a => exact ⟨hstay, rfl, rfl, rfl, fun _ _ _ _ _ => rfl⟩
  | _ => exact .refl hstay

/-- **A key outside the screens of an action** opens the palette of the run that is shown, or leaves
these screens and what they rely on alone. -/
theorem key_browses (edit : JsString → Key → JsString) (hscreen : s.screen ∉ palette) (k : Key) :
    Browses s (s.key edit k) ∨ ∃ i, s.inspection = some i ∧ s.key edit k = s.openPalette i := by
  have hcommon : ∀ {t : Inspector},
      (Browses s t ∨ ∃ i, s.inspection = some i ∧ t = s.openPalette i) →
      Browses s (if k = .question then { s with screen := .help }
        else if k = .r then (s.loadRuns false).loadSelected else t) ∨
      ∃ i, s.inspection = some i ∧ (if k = .question then { s with screen := .help }
        else if k = .r then (s.loadRuns false).loadSelected else t) = s.openPalette i := by
    intro t ht
    split_ifs
    · exact Or.inl ⟨help_not_palette, rfl, rfl, rfl, fun _ _ _ _ _ => rfl⟩
    · exact Or.inl (browses_loadSelected hscreen false)
    · exact ht
  unfold Inspector.key
  cases hs : s.screen with
  | help => exact Or.inl (browses_helpKey hs k)
  | detail => exact hcommon (browses_detailKey hs k)
  | runs => exact hcommon (Or.inl (browses_runsKey hs k))
  | actions => exact absurd (hs ▸ hscreen) (by decide)
  | input => exact absurd (hs ▸ hscreen) (by decide)
  | confirm => exact absurd (hs ▸ hscreen) (by decide)

/-- **A key on the screens of an action** keeps what they rely on, and an action that leaves the
inspector leaves by it. -/
structure Handles (s t : Inspector) (k : Key) : Prop where
  sound : t.closed = none → Sound t
  inspection : t.screen ∈ palette → t.inspection = s.inspection
  actions : t.actions = s.actions
  leaves : s.closed = none → ∀ a run text c, t.closed = some (.action a run text c) →
    k = .enter ∧ Leaves s a run text c

theorem handles_open {k : Key} (hclosed : t.closed = s.closed) (hsound : Sound t)
    (hinspection : t.screen ∈ palette → t.inspection = s.inspection)
    (hactions : t.actions = s.actions) : Handles s t k where
  sound := fun _ => hsound
  inspection := hinspection
  actions := hactions
  leaves := fun hopen _ _ _ _ hc => by
    rw [hclosed, hopen] at hc
    cases hc

theorem handles_finish {a : RunAction} {run : RunSummary} {text : Option JsString} {c : Bool}
    (h : Leaves s a run text c) (hclosed : t.closed = some (.action a run text c))
    (hinspection : t.inspection = s.inspection) (hactions : t.actions = s.actions) :
    Handles s t .enter where
  sound := fun hc => by
    rw [hclosed] at hc
    cases hc
  inspection := fun _ => hinspection
  actions := hactions
  leaves := fun _ _ _ _ _ hc => by
    cases hclosed.symm.trans hc
    exact ⟨rfl, h⟩

theorem Sound.handles (h : Sound s) (k : Key) : Handles s s k :=
  handles_open rfl h (fun _ => rfl) rfl

theorem handles_back (h : s.inspection.isSome) (k : Key) :
    Handles s { s with screen := .actions, pendingAction := none } k :=
  handles_open rfl ⟨fun _ => h, (fun hc => by cases hc), (fun hc => by cases hc)⟩ (fun _ => rfl) rfl

theorem handles_inputKey (h : Sound s) (hscreen : s.screen = .input)
    (edit : JsString → Key → JsString) (k : Key) : Handles s (s.inputKey edit k) k := by
  have hshown : s.inspection.isSome := h.shown (by rw [hscreen]; decide)
  have hedit : ∀ text, Handles s { s with actionInput := text } k :=
    fun text => handles_open rfl ⟨h.shown, h.input, h.confirm⟩ (fun _ => rfl) rfl
  cases k with
  | escape => exact handles_back hshown _
  | enter =>
    obtain ⟨i, hi⟩ := Option.isSome_iff_exists.mp hshown
    obtain ⟨a, hmem, ha, -⟩ := h.input hscreen
    change Handles s s.submit .enter
    simp only [Inspector.submit, hi, ha]
    by_cases hblank : a ≠ .pin ∧ trim s.actionInput = []
    · rw [if_pos hblank]
      exact h.handles _
    · rw [if_neg hblank]
      refine handles_finish (.typed hscreen hi ha hmem ?_) rfl rfl rfl
      split_ifs with hempty
      · decide
      · exact hempty
  | _ => exact hedit _

theorem handles_confirmKey (h : Sound s) (hscreen : s.screen = .confirm) (k : Key) :
    Handles s (s.confirmKey k) k := by
  have hshown : s.inspection.isSome := h.shown (by rw [hscreen]; decide)
  cases k with
  | escape => exact handles_back hshown _
  | enter =>
    obtain ⟨i, hi⟩ := Option.isSome_iff_exists.mp hshown
    obtain ⟨a, hmem, ha, -⟩ := h.confirm hscreen
    simp only [Inspector.confirmKey, hi, ha]
    exact handles_finish (.confirmed hscreen hi ha hmem) rfl rfl rfl
  | _ => exact h.handles _

theorem handles_actionsKey (h : Sound s) (hscreen : s.screen = .actions) (k : Key) :
    Handles s (s.actionsKey k) k := by
  have hmove : ∀ n, Handles s { s with actionSelected := n } k :=
    fun n => handles_open rfl ⟨h.shown, h.input, h.confirm⟩ (fun _ => rfl) rfl
  cases k with
  | escape =>
    exact handles_open rfl (.quiet detail_not_palette) (fun hc => absurd hc detail_not_palette) rfl
  | up => exact hmove _
  | down => exact hmove _
  | enter =>
    have hshown : s.inspection.isSome := h.shown (by rw [hscreen]; decide)
    obtain ⟨i, hi⟩ := Option.isSome_iff_exists.mp hshown
    simp only [Inspector.actionsKey, hi]
    cases ha : at? s.actions s.actionSelected with
    | none => exact h.handles _
    | some a =>
      change Handles s (s.choose i a) .enter
      unfold Inspector.choose
      split_ifs with htext hconfirm
      · exact handles_open rfl
          ⟨fun _ => hshown, fun _ => ⟨a, htext, rfl, mem_of_at? ha⟩, (fun hc => by cases hc)⟩
          (fun _ => rfl) rfl
      · exact handles_open rfl
          ⟨fun _ => hshown, (fun hc => by cases hc), fun _ => ⟨a, hconfirm, rfl, mem_of_at? ha⟩⟩
          (fun _ => rfl) rfl
      · exact handles_finish (.chosen hscreen hi ha htext hconfirm) rfl rfl rfl
  | _ => exact h.handles _

theorem key_handles (h : Sound s) (hscreen : s.screen ∈ palette) (edit : JsString → Key → JsString)
    (k : Key) : Handles s (s.key edit k) k := by
  unfold Inspector.key
  cases hs : s.screen with
  | input => exact handles_inputKey h hs edit k
  | confirm => exact handles_confirmKey h hs k
  | actions => exact handles_actionsKey h hs k
  | help => exact absurd (hs ▸ hscreen) (by decide)
  | runs => exact absurd (hs ▸ hscreen) (by decide)
  | detail => exact absurd (hs ▸ hscreen) (by decide)

/-! ## Steps -/

/-- What one step does to the screens of an action. -/
structure Steps (s t : Inspector) (e : Event) : Prop where
  running : s.closed = none
  sound : t.closed = none → Sound t
  leaves : ∀ a run text c, t.closed = some (.action a run text c) →
    e = .key .enter ∧ Leaves s a run text c
  opened : t.screen ∈ palette → s.screen ∉ palette →
    ∃ i, s.inspection = some i ∧ t = s.openPalette i
  stays : t.screen ∈ palette → s.screen ∈ palette → t.actions = s.actions ∧
    ((∀ i, e ≠ .detail i) → t.inspection = s.inspection)

/-- What is not a key leaves the screens alone, and a load of details changes what they show. -/
theorem steps_quiet (hs : Sound s) (hopen : s.closed = none) (hclosed : t.closed = s.closed)
    (hscreen : t.screen = s.screen) (hactions : t.actions = s.actions)
    (hpending : t.pendingAction = s.pendingAction)
    (hinspection : t.inspection = s.inspection ∨ ∃ i, e = .detail i ∧ t.inspection = some i) :
    Steps s t e where
  running := hopen
  sound := fun _ => hs.keep hscreen (fun h => by
    rcases hinspection with hi | ⟨i, -, hi⟩
    · exact hi ▸ h
    · exact hi ▸ rfl) hactions hpending
  leaves := fun _ _ _ _ hc => by
    rw [hclosed, hopen] at hc
    cases hc
  opened := fun h hn => absurd (hscreen ▸ h) hn
  stays := fun _ _ => ⟨hactions, fun hne => by
    rcases hinspection with hi | ⟨i, he, -⟩
    · exact hi
    · exact absurd he (hne i)⟩

theorem steps_key (hs : Sound s) (hopen : s.closed = none) (k : Key) :
    Steps s (s.key edit k) (.key k) := by
  by_cases hscreen : s.screen ∈ palette
  · have h := key_handles hs hscreen edit k
    refine ⟨hopen, h.sound, ?_, fun _ hn => absurd hscreen hn, ?_⟩
    · intro a run text c hc
      obtain ⟨rfl, hl⟩ := h.leaves hopen a run text c hc
      exact ⟨rfl, hl⟩
    · exact fun ht _ => ⟨h.actions, fun _ => h.inspection ht⟩
  · rcases key_browses edit hscreen k with h | ⟨i, hi, he⟩
    · refine ⟨hopen, fun _ => .quiet h.screen, ?_, fun ht _ => absurd ht h.screen,
        fun _ hp => absurd hp hscreen⟩
      intro a run text c hc
      rw [← h.closed a run text c hc, hopen] at hc
      cases hc
    · rw [he]
      refine ⟨hopen, fun _ => ⟨fun _ => ?_, (fun hc => by cases hc), (fun hc => by cases hc)⟩, ?_,
        fun _ _ => ⟨i, hi, rfl⟩, fun _ hp => absurd hp hscreen⟩
      · change s.inspection.isSome
        rw [hi]
        rfl
      · intro a run text c hc
        change s.closed = _ at hc
        rw [hopen] at hc
        cases hc

/-- **One step.** -/
theorem step_spec (hs : Sound s) (h : step edit s e = some t) : Steps s t e := by
  obtain ⟨hopen, h⟩ := Option.ite_none_right_eq_some.mp h
  cases e with
  | key k =>
    cases h
    exact steps_key hs hopen k
  | runs append page total nextCursor =>
    obtain ⟨-, he⟩ := Option.ite_none_right_eq_some.mp h
    cases he
    exact steps_quiet hs hopen rfl rfl rfl rfl (Or.inl rfl)
  | runsFailed append error =>
    obtain ⟨-, he⟩ := Option.ite_none_right_eq_some.mp h
    cases he
    exact steps_quiet hs hopen rfl rfl rfl rfl (Or.inl rfl)
  | detail i =>
    obtain ⟨-, he⟩ := Option.ite_none_right_eq_some.mp h
    cases he
    exact steps_quiet hs hopen rfl rfl rfl rfl (Or.inr ⟨i, rfl, rfl⟩)
  | detailFailed runId error =>
    obtain ⟨-, he⟩ := Option.ite_none_right_eq_some.mp h
    cases he
    exact steps_quiet hs hopen rfl rfl rfl rfl (Or.inl rfl)
  | changed runId =>
    cases h
    split
    · exact steps_quiet hs hopen rfl rfl rfl rfl (Or.inl rfl)
    · exact steps_quiet hs hopen rfl rfl rfl rfl (Or.inl rfl)
  | due =>
    obtain ⟨-, he⟩ := Option.ite_none_right_eq_some.mp h
    cases he
    unfold Inspector.loadSelected
    split
    · exact steps_quiet hs hopen rfl rfl rfl rfl (Or.inl rfl)
    · exact steps_quiet hs hopen rfl rfl rfl rfl (Or.inl rfl)

/-! ## Runs -/

/-- The inspector as it opens. -/
inductive Opens : Inspector → Prop
  | start (state : InspectorState) (runs : List RunSummary) (total : ℕ)
      (nextCursor : Option JsString) (inspection : Option RunInspection) :
      Opens (.start state runs total nextCursor inspection)

theorem Opens.spec (h : Opens s) : s.closed = none ∧ s.screen ∉ palette := by
  cases h with
  | start state runs total nextCursor inspection =>
    have hview : state.view.screen ∉ palette := by
      cases state.view <;> decide
    cases inspection with
    | none => exact ⟨rfl, hview⟩
    | some i => exact ⟨rfl, hview⟩

theorem sound_exec (hs : Opens s) {es : List Event} (h : exec (step edit) s es = some t)
    (hopen : t.closed = none) : Sound t := by
  induction es using List.reverseRecOn generalizing t with
  | nil =>
    cases h
    exact .quiet hs.spec.2
  | append_singleton es e ih =>
    obtain ⟨u, hu, he⟩ := exec_concat_eq_some.mp h
    have hrunning : u.closed = none := (Option.ite_none_right_eq_some.mp he).1
    exact (step_spec (ih hu hrunning) he).sound hopen

theorem leaves_exec (hs : Opens s) {es : List Event} (h : exec (step edit) s es = some t)
    {a : RunAction} {run : RunSummary} {text : Option JsString} {c : Bool}
    (hclosed : t.closed = some (.action a run text c)) :
    ∃ before u, es = before ++ [.key .enter] ∧ exec (step edit) s before = some u ∧
      u.closed = none ∧ Sound u ∧ Leaves u a run text c := by
  induction es using List.reverseRecOn with
  | nil =>
    cases h
    rw [hs.spec.1] at hclosed
    cases hclosed
  | append_singleton es e _ =>
    obtain ⟨u, hu, he⟩ := exec_concat_eq_some.mp h
    have hrunning : u.closed = none := (Option.ite_none_right_eq_some.mp he).1
    have hsound := sound_exec hs hu hrunning
    obtain ⟨rfl, hl⟩ := (step_spec hsound he).leaves a run text c hclosed
    exact ⟨es, u, rfl, hu, hrunning, hsound, hl⟩

/-- A run that can be stopped. -/
def activeRun : RunSummary where
  runId := ⟨_, isRunId_a1⟩
  attemptId := []
  ownerId := []
  agentName := []
  agentDisplayName := []
  goalPreview := []
  status := .active
  repositoryRoot := []
  workspaceMode := .readOnly
  createdAt := []
  updatedAt := []
  usage := none
  pinned := false
  controllable := false
  retryable := false
  retryAt := none
  resumable := false
  retainedWorktree := false
  requiresAttention := true
  availableActions := [.stop]

/-- The inspector, opened on its details. -/
def opened : Inspector :=
  .start ⟨false, .detail, some activeRun.runId.val, .overview, none, none⟩ [activeRun] 1 none
    (some ⟨activeRun, fun _ => 20⟩)

/-- The palette, its only action, and its confirmation. -/
def stopping : List Event := [.key .space, .key .enter, .key .enter]

/-- **An action leaves the inspector by Enter on its own screen, with the run whose details are
shown there**; what ends, discards or removes something is confirmed, and nothing else is. -/
theorem action_confirmed (edit : JsString → Key → JsString) (s t : Inspector) (es : List Event)
    (a : RunAction) (run : RunSummary) (text : Option JsString) (confirmed : Bool) (hs : Opens s)
    (h : exec (step edit) s es = some t)
    (hclosed : t.closed = some (.action a run text confirmed)) :
    (∃ before u, es = before ++ [.key .enter] ∧ exec (step edit) s before = some u ∧
      Leaves u a run text confirmed) ∧ (confirmed = true ↔ a ∈ confirmedActions) ∧
        (text.isSome ↔ a ∈ textActions) := by
  obtain ⟨before, u, he, hu, -, -, hl⟩ := leaves_exec hs h hclosed
  refine ⟨⟨before, u, he, hu, hl⟩, ?_⟩
  cases hl with
  | typed _ _ _ hmem _ =>
    have hnot : ∀ b ∈ textActions, b ∉ confirmedActions := by decide
    exact ⟨iff_of_false (by simp) (hnot a hmem), iff_of_true rfl hmem⟩
  | confirmed _ _ _ hmem =>
    have hnot : ∀ b ∈ confirmedActions, b ∉ textActions := by decide
    exact ⟨iff_of_true rfl hmem, iff_of_false (by simp) (hnot a hmem)⟩
  | chosen _ _ _ htext hconfirm =>
    exact ⟨iff_of_false (by simp) hconfirm, iff_of_false (by simp) htext⟩

theorem action_confirmed_stop : ∃ t, exec (step fun text _ => text) opened stopping = some t ∧
    t.closed = some (.action .stop activeRun none true) ∧
    (∃ before u, stopping = before ++ [.key .enter] ∧
      exec (step fun text _ => text) opened before = some u ∧
      Leaves u .stop activeRun none true) :=
  ⟨_, rfl, rfl, (action_confirmed _ opened _ stopping .stop activeRun none true (.start _ _ _ _ _)
    rfl rfl).1⟩

theorem Leaves.mem_actions {a : RunAction} {run : RunSummary} {text : Option JsString} {c : Bool}
    (hs : Sound s) (h : Leaves s a run text c) :
    s.screen ∈ palette ∧ a ∈ s.actions ∧ ∃ i, s.inspection = some i ∧ run = i.summary := by
  cases h with
  | typed hscreen hi ha _ _ =>
    obtain ⟨b, -, hb, hmem⟩ := hs.input hscreen
    cases ha.symm.trans hb
    exact ⟨by rw [hscreen]; decide, hmem, _, hi, rfl⟩
  | confirmed hscreen hi ha _ =>
    obtain ⟨b, -, hb, hmem⟩ := hs.confirm hscreen
    cases ha.symm.trans hb
    exact ⟨by rw [hscreen]; decide, hmem, _, hi, rfl⟩
  | chosen hscreen hi ha _ _ => exact ⟨by rw [hscreen]; decide, mem_of_at? ha, _, hi, rfl⟩

/-- No details come back between the opening of the palette and the intent. -/
def Undisturbed (s : Inspector) (e : Event) : Prop := s.screen ∈ palette → ∀ i, e ≠ .detail i

/-- The palette of a state lists what a run offered whose details were shown; the run that is shown
still, when nothing disturbed it. -/
theorem palette_exec (hs : Opens s) {es : List Event} (h : exec (step edit) s es = some t)
    (hopen : t.closed = none) (hscreen : t.screen ∈ palette) :
    (∃ before u i, before <+: es ∧ exec (step edit) s before = some u ∧ u.inspection = some i ∧
      t.actions = i.summary.availableActions) ∧
    (Meets (step edit) Undisturbed s es →
      ∃ i, t.inspection = some i ∧ t.actions = i.summary.availableActions) := by
  induction es using List.reverseRecOn generalizing t with
  | nil =>
    cases h
    exact absurd hscreen hs.spec.2
  | append_singleton es e ih =>
    obtain ⟨u, hu, he⟩ := exec_concat_eq_some.mp h
    have hrunning : u.closed = none := (Option.ite_none_right_eq_some.mp he).1
    have hstep := step_spec (sound_exec hs hu hrunning) he
    by_cases hpalette : u.screen ∈ palette
    · obtain ⟨⟨before, v, i, hprefix, hv, hi, hactions⟩, hsame⟩ := ih hu hrunning hpalette
      obtain ⟨hkeep, hinspection⟩ := hstep.stays hscreen hpalette
      refine ⟨⟨before, v, i, hprefix.trans (List.prefix_append _ _), hv, hi,
        hkeep.trans hactions⟩, ?_⟩
      intro hm
      obtain ⟨hm, hundisturbed⟩ := (meets_concat hu).mp hm
      obtain ⟨j, hj, hactions⟩ := hsame hm
      exact ⟨j, (hinspection (hundisturbed hpalette)).trans hj, hkeep.trans hactions⟩
    · obtain ⟨i, hi, rfl⟩ := hstep.opened hscreen hpalette
      exact ⟨⟨es, u, i, List.prefix_append _ _, hu, hi, rfl⟩, fun _ => ⟨i, hi, rfl⟩⟩

/-- **An action that leaves the inspector is one that a run offered whose details were shown**: the
run it is for, when no details came back since the palette opened. -/
theorem action_offered (edit : JsString → Key → JsString) (s t : Inspector) (es : List Event)
    (a : RunAction) (run : RunSummary) (text : Option JsString) (confirmed : Bool) (hs : Opens s)
    (h : exec (step edit) s es = some t)
    (hclosed : t.closed = some (.action a run text confirmed)) :
    (∃ before u i, before <+: es ∧ exec (step edit) s before = some u ∧ u.inspection = some i ∧
      a ∈ i.summary.availableActions) ∧
    (Meets (step edit) Undisturbed s es → a ∈ run.availableActions) := by
  obtain ⟨before, u, rfl, hu, hrunning, hsound, hl⟩ := leaves_exec hs h hclosed
  obtain ⟨hscreen, hmem, i, hi, rfl⟩ := hl.mem_actions hsound
  obtain ⟨⟨early, w, j, hprefix, hw, hj, hactions⟩, hsame⟩ := palette_exec hs hu hrunning hscreen
  refine ⟨⟨early, w, j, hprefix.trans (List.prefix_append _ _), hw, hj, hactions ▸ hmem⟩, ?_⟩
  intro hm
  obtain ⟨k, hk, hactions⟩ := hsame ((meets_concat hu).mp hm).1
  cases hi.symm.trans hk
  exact hactions ▸ hmem

theorem action_offered_stop : ∃ t, exec (step fun text _ => text) opened stopping = some t ∧
    t.closed = some (.action .stop activeRun none true) ∧
    (Meets (step fun text _ => text) Undisturbed opened stopping →
      .stop ∈ activeRun.availableActions) :=
  ⟨_, rfl, rfl, (action_offered _ opened _ stopping .stop activeRun none true (.start _ _ _ _ _)
    rfl rfl).2⟩

/-! ## Selections -/

/-- The first row that is shown. -/
def rowStart (runs : List RunSummary) (selected : ℤ) : ℕ :=
  (max 0 (min selected (max 0 (runs.length - 16)))).toNat

/-- `runRows`: the rows that are shown, each with its mark. -/
def runRows (runs : List RunSummary) (selected : ℤ) : List (RunSummary × Bool) :=
  ((runs.drop (rowStart runs selected)).take 16).mapIdx fun index run =>
    (run, decide (((rowStart runs selected + index : ℕ) : ℤ) = selected))

/-- The row that Enter opens is shown, and no other row is marked. -/
theorem runRows_marked {runs : List RunSummary} {selected : ℤ} {run : RunSummary}
    (h : at? runs selected = some run) :
    ∃ k : ℕ, (runRows runs selected)[k]? = some (run, true) ∧
      ∀ (j : ℕ) (r : RunSummary), (runRows runs selected)[j]? = some (r, true) → j = k := by
  unfold at? at h
  split_ifs at h with hneg
  have hlt : selected.toNat < runs.length := (List.getElem?_eq_some_iff.mp h).1
  have hstart : rowStart runs selected ≤ selected.toNat ∧
      selected.toNat < rowStart runs selected + 16 := by
    unfold rowStart
    omega
  have hrow : ∀ j : ℕ, (runRows runs selected)[j]? = if j < 16 then
      (runs[rowStart runs selected + j]?).map fun r =>
        (r, decide (((rowStart runs selected + j : ℕ) : ℤ) = selected)) else none := by
    intro j
    rw [runRows, List.getElem?_mapIdx, List.getElem?_take, List.getElem?_drop]
    split_ifs <;> rfl
  refine ⟨selected.toNat - rowStart runs selected, ?_, ?_⟩
  · rw [hrow, if_pos (by omega), show rowStart runs selected +
      (selected.toNat - rowStart runs selected) = selected.toNat by omega, h, Option.map_some,
      decide_eq_true (by omega)]
  · intro j r hj
    rw [hrow] at hj
    split_ifs at hj
    obtain ⟨r', -, hr⟩ := Option.map_eq_some_iff.mp hj
    have hmark := of_decide_eq_true (Prod.mk.inj hr).2
    omega

/-- A selection among a number of rows, or `0` when there are none. -/
def Ranged (rows : ℕ) (selected : ℤ) : Prop := 0 ≤ selected ∧ selected ≤ max 0 (rows - 1)

/-- Both selections are in range. -/
structure Bounded (s : Inspector) : Prop where
  selected : Ranged s.runs.length s.selected
  actionSelected : Ranged s.actions.length s.actionSelected

/-- Down on a list without rows, which makes the selection `-1`. -/
def Inspector.downOnNothing (s : Inspector) : Event → Bool
  | .key .down => decide (s.screen = .runs) && s.runs.isEmpty ||
      decide (s.screen = .actions) && s.actions.isEmpty
  | _ => false

theorem Ranged.up {rows : ℕ} {i : ℤ} (h : Ranged rows i) : Ranged rows (max 0 (i - 1)) := by
  unfold Ranged at *
  omega

theorem Ranged.down {rows : ℕ} {i : ℤ} (h : Ranged rows i) (hrows : 0 < rows) :
    Ranged rows (min (rows - 1) (i + 1)) := by
  unfold Ranged at *
  omega

theorem Ranged.zero (rows : ℕ) : Ranged rows 0 := by
  unfold Ranged
  omega

theorem Bounded.of_eq (h : Bounded s) (hruns : t.runs = s.runs)
    (hselected : t.selected = s.selected) (hactions : t.actions = s.actions)
    (haction : t.actionSelected = s.actionSelected) :
    Bounded t where
  selected := by
    rw [hruns, hselected]
    exact h.selected
  actionSelected := by
    rw [hactions, haction]
    exact h.actionSelected

theorem bounded_loadSelected (h : Bounded s) : Bounded s.loadSelected := by
  unfold Inspector.loadSelected
  split
  · exact h.of_eq rfl rfl rfl rfl
  · exact h

theorem bounded_runsKey (h : Bounded s) {k : Key} (hrows : k = .down → 0 < s.runs.length) :
    Bounded (s.runsKey k) := by
  cases k with
  | up => exact ⟨h.selected.up, h.actionSelected⟩
  | down =>
    have hdown := h.selected.down (hrows rfl)
    simp only [Inspector.runsKey]
    split
    · exact ⟨hdown, h.actionSelected⟩
    · exact ⟨hdown, h.actionSelected⟩
  | enter =>
    simp only [Inspector.runsKey]
    split
    · exact h.of_eq rfl rfl rfl rfl
    · exact h
  | a => exact ⟨.zero _, h.actionSelected⟩
  | _ => exact h.of_eq rfl rfl rfl rfl

theorem bounded_detailKey (h : Bounded s) (k : Key) : Bounded (s.detailKey k) := by
  have hturn : ∀ direction, Bounded (s.turnTab direction) := by
    intro direction
    unfold Inspector.turnTab
    split
    · exact h.of_eq rfl rfl rfl rfl
    · exact h
  cases k with
  | left => exact hturn _
  | right => exact hturn _
  | down =>
    simp only [Inspector.detailKey]
    split
    · exact h.of_eq rfl rfl rfl rfl
    · exact h
  | space =>
    simp only [Inspector.detailKey]
    split
    · exact ⟨h.selected, .zero _⟩
    · exact h
  | _ => exact h.of_eq rfl rfl rfl rfl

theorem bounded_actionsKey (h : Bounded s) {k : Key} (hrows : k = .down → 0 < s.actions.length) :
    Bounded (s.actionsKey k) := by
  cases k with
  | up => exact ⟨h.selected, h.actionSelected.up⟩
  | down => exact ⟨h.selected, h.actionSelected.down (hrows rfl)⟩
  | enter =>
    simp only [Inspector.actionsKey]
    split
    · unfold Inspector.choose
      split_ifs
      · exact h.of_eq rfl rfl rfl rfl
      · exact h.of_eq rfl rfl rfl rfl
      · exact h.of_eq rfl rfl rfl rfl
    · exact h
  | _ => exact h.of_eq rfl rfl rfl rfl

theorem bounded_confirmKey (h : Bounded s) (k : Key) : Bounded (s.confirmKey k) := by
  cases k with
  | enter =>
    simp only [Inspector.confirmKey]
    split
    · exact h.of_eq rfl rfl rfl rfl
    · exact h
  | _ => exact h.of_eq rfl rfl rfl rfl

theorem bounded_inputKey (h : Bounded s) (edit : JsString → Key → JsString) (k : Key) :
    Bounded (s.inputKey edit k) := by
  cases k with
  | enter =>
    change Bounded s.submit
    unfold Inspector.submit
    split
    · dsimp only
      split_ifs
      · exact h
      · exact h.of_eq rfl rfl rfl rfl
      · exact h.of_eq rfl rfl rfl rfl
    · exact h
  | _ => exact h.of_eq rfl rfl rfl rfl

theorem bounded_key (h : Bounded s) (edit : JsString → Key → JsString) {k : Key}
    (hk : s.downOnNothing (.key k) = false) : Bounded (s.key edit k) := by
  have hcommon : ∀ {t : Inspector}, Bounded t → Bounded (if k = .question then
      { s with screen := .help } else if k = .r then (s.loadRuns false).loadSelected else t) := by
    intro t ht
    split_ifs
    · exact h.of_eq rfl rfl rfl rfl
    · exact bounded_loadSelected (h.of_eq rfl rfl rfl rfl)
    · exact ht
  have hrows : ∀ {screen : Screen}, s.screen = screen → k = .down →
      (screen = .runs → 0 < s.runs.length) ∧ (screen = .actions → 0 < s.actions.length) := by
    rintro screen hscreen rfl
    have hnonempty : ¬(screen = .runs ∧ s.runs = [] ∨ screen = .actions ∧ s.actions = []) := by
      simpa [Inspector.downOnNothing, hscreen] using hk
    exact ⟨fun he => List.length_pos_iff.mpr fun hn => hnonempty (Or.inl ⟨he, hn⟩),
      fun he => List.length_pos_iff.mpr fun hn => hnonempty (Or.inr ⟨he, hn⟩)⟩
  unfold Inspector.key
  cases hscreen : s.screen with
  | input => exact bounded_inputKey h edit k
  | confirm => exact bounded_confirmKey h k
  | help => cases k <;> exact h.of_eq rfl rfl rfl rfl
  | actions => exact bounded_actionsKey h fun hdown => (hrows hscreen hdown).2 rfl
  | detail => exact hcommon (bounded_detailKey h k)
  | runs => exact hcommon (bounded_runsKey h fun hdown => (hrows hscreen hdown).1 rfl)

theorem bounded_loadedRuns (h : Bounded s) (append : Bool) (page : List RunSummary) (total : ℕ)
    (nextCursor : Option JsString) : Bounded (s.loadedRuns append page total nextCursor) := by
  refine ⟨?_, h.actionSelected⟩
  unfold Inspector.loadedRuns
  dsimp only
  generalize (if append then s.runs ++ page else page) = runs
  cases hindex : s.state.selectedRunId.bind fun runId =>
      runs.findIdx? fun run => run.runId.val = runId with
  | none =>
    have hge := h.selected.1
    unfold Ranged
    dsimp only
    omega
  | some i =>
    obtain ⟨runId, -, hfind⟩ := Option.bind_eq_some_iff.mp hindex
    have hlt := (List.findIdx?_eq_some_iff_getElem.mp hfind).1
    unfold Ranged
    dsimp only
    omega

theorem bounded_step (hb : Bounded s) (hok : s.downOnNothing e = false)
    (h : step edit s e = some t) : Bounded t := by
  obtain ⟨-, h⟩ := Option.ite_none_right_eq_some.mp h
  cases e with
  | key k =>
    cases h
    exact bounded_key hb edit hok
  | runs append page total nextCursor =>
    obtain ⟨-, he⟩ := Option.ite_none_right_eq_some.mp h
    cases he
    exact bounded_loadedRuns hb append page total nextCursor
  | runsFailed append error =>
    obtain ⟨-, he⟩ := Option.ite_none_right_eq_some.mp h
    cases he
    exact hb.of_eq rfl rfl rfl rfl
  | detail i =>
    obtain ⟨-, he⟩ := Option.ite_none_right_eq_some.mp h
    cases he
    exact hb.of_eq rfl rfl rfl rfl
  | detailFailed runId error =>
    obtain ⟨-, he⟩ := Option.ite_none_right_eq_some.mp h
    cases he
    exact hb.of_eq rfl rfl rfl rfl
  | changed runId =>
    cases h
    split
    · exact hb.of_eq rfl rfl rfl rfl
    · exact hb.of_eq rfl rfl rfl rfl
  | due =>
    obtain ⟨-, he⟩ := Option.ite_none_right_eq_some.mp h
    cases he
    exact bounded_loadSelected (hb.of_eq rfl rfl rfl rfl)

theorem Opens.bounded (h : Opens s) : Bounded s := by
  cases h with
  | start state runs total nextCursor inspection =>
    have hempty : Bounded (.empty state) := ⟨.zero _, .zero _⟩
    have hloaded := bounded_loadedRuns hempty false runs total nextCursor
    cases inspection with
    | none => exact hloaded
    | some i => exact hloaded.of_eq rfl rfl rfl rfl

/-- **The selections of the list and of the palette are among their rows** over every run without
Down on an empty one, whatever loads come back in between; the selected row is shown, and is the only
one that is marked. -/
theorem selection_bounded (edit : JsString → Key → JsString) (s t : Inspector) (es : List Event)
    (hs : Opens s) (hok : Meets (step edit) (fun s e => s.downOnNothing e = false) s es)
    (h : exec (step edit) s es = some t) :
    Ranged t.runs.length t.selected ∧ Ranged t.actions.length t.actionSelected ∧
    (t.runs ≠ [] → ∃ run, at? t.runs t.selected = some run ∧
      ∃ k : ℕ, (runRows t.runs t.selected)[k]? = some (run, true) ∧
        ∀ (j : ℕ) (r : RunSummary), (runRows t.runs t.selected)[j]? = some (r, true) → j = k) := by
  have hb : Bounded t :=
    exec_invariant Bounded (fun _ _ _ hp hm hu => bounded_step hp hm hu) hs.bounded hok h
  refine ⟨hb.selected, hb.actionSelected, fun hruns => ?_⟩
  obtain ⟨hlow, hhigh⟩ := hb.selected
  have hlength := List.length_pos_iff.mpr hruns
  have hlt : t.selected.toNat < t.runs.length := by omega
  have hrun : at? t.runs t.selected = some (t.runs[t.selected.toNat]) := by
    rw [at?, if_neg (by omega)]
    exact List.getElem?_eq_getElem hlt
  exact ⟨_, hrun, runRows_marked hrun⟩

theorem selection_bounded_stop : ∃ t, exec (step fun text _ => text) opened stopping = some t ∧
    Ranged t.runs.length t.selected ∧ Ranged t.actions.length t.actionSelected :=
  have h := selection_bounded (fun text _ => text) opened _ stopping (.start _ _ _ _ _)
    (by decide +kernel) rfl
  ⟨_, rfl, h.1, h.2.1⟩

/-- Down on an empty list, and a load: there are rows, and none is selected. -/
example : ((exec (step fun text _ => text) (.start ⟨false, .runs, none, .overview, none, none⟩ [] 0
    none none) [.key .down, .key .r, .runs false [activeRun] 1 none]).map
      fun t => (t.selected, t.runs.length)) = some (-1, 1) := by decide +kernel

end Inspection

end PiSubagent
