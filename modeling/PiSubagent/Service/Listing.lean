import Mathlib.Data.List.DropRight
import PiSubagent.Lib.Paging
import PiSubagent.Preflight.Narrowing
import PiSubagent.Service.RunSummary

/-!
# Listing runs and reading logs

* `listRuns`, `readLogs`: as the code computes them; a cursor is the text of an offset.
* `Locale`: the lower case of a text and the collation, which are the host's.
* `matching`, `InOrder`: the facts of the runs a query asks for, and the order of the list.
* `ListsRuns`: the pages of a list have each of them once, in the order.
* **`pagination`**: a reader who follows the cursors of `listRuns` gets each of them once, in the
  order of status, last change and run id, and a reader of a journal gets each event once, from the
  beginning or from the tail on.
-/

namespace PiSubagent

open JsonText

namespace Summaries

/-! ## Queries -/

/-- What a listing takes from the host; `localeCompare` is a consistent comparator. -/
structure Locale where
  toLowerCase : JsString → JsString
  localeCompare : JsString → JsString → ℤ
  swap : ∀ a b, 0 < localeCompare a b ↔ localeCompare b a < 0
  trans : ∀ a b c, localeCompare a b ≤ 0 → localeCompare b c ≤ 0 → localeCompare a c ≤ 0

/-- `RunQuery`. -/
structure RunQuery where
  repositoryRoot : Option JsString
  ownerId : Option JsString
  statuses : Option (List JsString)
  search : Option JsString
  limit : Option ℚ
  cursor : Option JsString

/-- What the listings throw. -/
inductive ListingError where
  | message (text : String)
  /-- What reading the pins or the files of a run throws. -/
  | reading (text : JsString)
deriving DecidableEq, Repr

/-- `if (c) throw new Error(text)`. -/
def throwIf (c : Prop) [Decidable c] (text : String) : Except ListingError Unit :=
  if c then .error (.message text) else .ok ()

/-- `Number.isSafeInteger(n) && n >= 1 && n <= most`. -/
def Admits (most : ℕ) (n : ℚ) : Prop := n.den = 1 ∧ 1 ≤ n ∧ n ≤ most

instance (most : ℕ) (n : ℚ) : Decidable (Admits most n) :=
  inferInstanceAs (Decidable (n.den = 1 ∧ 1 ≤ n ∧ n ≤ most))

/-- The text of an offset. -/
def cursorText (offset : ℕ) : JsString := ofString (toString offset)

/-- The offset of a cursor; any text but that of a safe integer is refused. -/
def cursorOffset (cursor : JsString) : Option ℕ :=
  let offset := Nat.ofDigitChars 10 (charsOf cursor) 0
  if offset ≤ maxSafeInteger ∧ cursorText offset = cursor then some offset else none

/-- The offset that a cursor asks for. -/
def requestedOffset (cursor : Option JsString) (refusal : String) : Except ListingError ℕ :=
  match cursor with
  | none => .ok 0
  | some cursor =>
    match cursorOffset cursor with
    | some offset => .ok offset
    | none => .error (.message refusal)

/-- `validStatuses`. -/
def validStatuses : List RunStatus :=
  [.queued, .active, .stopping, .completed, .failed, .cancelled, .abandoned, .interrupted,
    .cleanupBlocked]

/-- A status that is asked for is none. -/
def RunQuery.unknownStatus (query : RunQuery) : Bool :=
  query.statuses.any fun statuses => statuses.any fun status =>
    !validStatuses.any fun valid => ofString valid.text = status

/-- The filters that look at the run itself. -/
def RunQuery.admits (query : RunQuery) (run : Run) : Bool :=
  query.repositoryRoot.all (fun root => run.repositoryRoot = root) &&
    query.ownerId.all (fun owner => run.ownerId = owner) &&
    query.statuses.all fun statuses => ofString run.status.text ∈ statuses

/-- The text that is searched in. -/
def searchedText (L : Locale) (run : RunFacts) : JsString :=
  L.toLowerCase (Preflight.join [10] [run.runId.val, run.agentDisplayName, run.goalPreview,
    run.repositoryRoot, ofString run.status.text])

/-- What is searched for; nothing where it is empty. -/
def RunQuery.needle (L : Locale) (query : RunQuery) : JsString :=
  (query.search.map fun search => L.toLowerCase (trim search)).getD []

/-- A run is found where nothing is searched for, or its text has it. -/
def RunQuery.found (L : Locale) (query : RunQuery) (run : RunFacts) : Bool :=
  query.needle L = [] ∨ query.needle L <:+: searchedText L run

/-- `priority`. -/
def priority : RunStatus → ℕ
  | .active => 0
  | .stopping => 1
  | .cleanupBlocked => 2
  | .interrupted => 3
  | .failed => 4
  | .cancelled => 5
  | .abandoned => 6
  | .completed => 7
  | .queued => 8

/-- The comparator of the list; the difference with `NaN` is falsy. -/
def compareRuns (L : Locale) (left right : RunFacts) : ℤ :=
  let status : ℤ := priority left.status - priority right.status
  let date : ℤ :=
    match dateParse right.updatedAt, dateParse left.updatedAt with
    | some r, some l => r - l
    | _, _ => 0
  if status ≠ 0 then status
  else if date ≠ 0 then date
  else L.localeCompare left.runId.val right.runId.val

/-- `summaries.sort`, which is stable. -/
def sortRuns (L : Locale) (summaries : List RunSummary) : List RunSummary :=
  summaries.insertionSort fun a b => compareRuns L a.toRunFacts b.toRunFacts ≤ 0

/-- The runs in the memory of a service, in the order of its map, and the pins. -/
structure Seat where
  runs : List Run
  pins : Except JsString (List RunId)
  nodup : (runs.map fun run => run.plan.runId).Nodup
  few : runs.length < 2 ^ 32

/-- `listRuns`. -/
def listRuns (L : Locale) (seat : Seat) (now : ℤ) (query : RunQuery) :
    Except ListingError (Page JsString RunSummary) := do
  let limit := query.limit.getD 50
  throwIf (¬ Admits 100 limit) "run list limit must be an integer from 1 to 100"
  let offset ← requestedOffset query.cursor "invalid run list cursor"
  throwIf (query.unknownStatus = true) "invalid run status filter"
  let pins ← seat.pins.mapError .reading
  let summaries ← ((seat.runs.filter query.admits).mapM fun run =>
    summarizeRun run pins now).mapError .reading
  throwIf (query.needle L ≠ [] ∧ 512 < byteLength (query.needle L))
    "run search exceeds byte limit"
  let summaries := summaries.filter fun run => query.found L run.toRunFacts
  return .slice cursorText (sortRuns L summaries) offset limit.num.toNat

/-- The options of `readLogs`. -/
structure LogOptions where
  cursor : Option JsString
  limit : Option ℚ
  tail : Option ℚ

/-- The offset of `readLogs`. -/
def logOffset (events : List JournalEvent) (options : LogOptions) : Except ListingError ℕ :=
  match options.tail with
  | some tail =>
    if Admits 500 tail then .ok (events.length - tail.num.toNat)
    else .error (.message "log tail must be an integer from 1 to 500")
  | none => requestedOffset options.cursor "invalid log cursor"

/-- `readLogs`. -/
def readLogs (read : Except JsString RunRead) (options : LogOptions) :
    Except ListingError (Page JsString JournalEvent) := do
  throwIf (options.cursor.isSome ∧ options.tail.isSome)
    "log cursor and tail are mutually exclusive"
  let limit := options.limit.getD (options.tail.getD 100)
  throwIf (¬ Admits 500 limit) "log limit must be an integer from 1 to 500"
  let read ← read.mapError .reading
  let offset ← logOffset read.events options
  return .slice cursorText read.events offset limit.num.toNat

/-! ## Cursors and limits -/

theorem throwIf_eq_ok {c : Prop} [Decidable c] {text : String} {u : Unit} :
    throwIf c text = .ok u ↔ ¬ c := by
  unfold throwIf
  split_ifs with h
  · exact iff_of_false nofun fun hn => hn h
  · exact iff_of_true rfl h

theorem mapError_eq_ok {α : Type} {x : Except JsString α} {a : α} :
    x.mapError ListingError.reading = .ok a ↔ x = .ok a := by
  cases x with
  | error e => exact iff_of_false nofun nofun
  | ok b => simp [Except.mapError]

theorem cursorOffset_cursorText {n : ℕ} (h : n ≤ maxSafeInteger) :
    cursorOffset (cursorText n) = some n := by
  have hvalue : Nat.ofDigitChars 10 (charsOf (cursorText n)) 0 = n := by
    rw [cursorText, ofString, charsOf_flatMap, Nat.toString_eq_repr, Nat.toList_repr,
      Nat.ofDigitChars_ten_toDigits]
  rw [cursorOffset, hvalue, if_pos ⟨h, rfl⟩]

theorem requestedOffset_cursorText {n : ℕ} (h : n ≤ maxSafeInteger) (refusal : String) :
    requestedOffset (some (cursorText n)) refusal = .ok n := by
  rw [requestedOffset, cursorOffset_cursorText h]

theorem Admits.pos {most : ℕ} {n : ℚ} (h : Admits most n) : 0 < n.num.toNat := by
  obtain ⟨-, hone, -⟩ := h
  have hnum : 0 < n.num := Rat.num_pos.mpr (lt_of_lt_of_le one_pos hone)
  omega

/-! ## The order of the list -/

/-- The instant of a run's last change. -/
def RunFacts.instant (run : RunFacts) : ℤ := (dateParse run.updatedAt).getD 0

/-- The order of the list: by status, the last change first, by run id. -/
def InOrder (L : Locale) (a b : RunFacts) : Prop :=
  priority a.status < priority b.status ∨ priority a.status = priority b.status ∧
    (b.instant < a.instant ∨ b.instant = a.instant ∧
      L.localeCompare a.runId.val b.runId.val ≤ 0)

instance (L : Locale) : DecidableRel (InOrder L) := fun a b =>
  inferInstanceAs (Decidable (priority a.status < priority b.status ∨
    priority a.status = priority b.status ∧ (b.instant < a.instant ∨ b.instant = a.instant ∧
      L.localeCompare a.runId.val b.runId.val ≤ 0)))

variable {L : Locale}

/-- **The comparator puts two runs into the order** where both last changes are instants. -/
theorem compareRuns_iff {a b : RunFacts} (ha : isDateTime a.updatedAt = true)
    (hb : isDateTime b.updatedAt = true) : compareRuns L a b ≤ 0 ↔ InOrder L a b := by
  obtain ⟨s, hs⟩ := Option.isSome_iff_exists.mp (dateParse_isSome ha)
  obtain ⟨t, ht⟩ := Option.isSome_iff_exists.mp (dateParse_isSome hb)
  have hsa : a.instant = s := by rw [RunFacts.instant, hs, Option.getD_some]
  have htb : b.instant = t := by rw [RunFacts.instant, ht, Option.getD_some]
  rw [compareRuns, InOrder, hs, ht, hsa, htb]
  simp only
  split_ifs <;> omega

theorem inOrder_total : Std.Total (InOrder L) := by
  refine ⟨fun a b => ?_⟩
  have hswap := L.swap a.runId.val b.runId.val
  unfold InOrder
  omega

theorem inOrder_trans : IsTrans RunFacts (InOrder L) := by
  refine ⟨fun a b c => ?_⟩
  have htrans := L.trans a.runId.val b.runId.val c.runId.val
  unfold InOrder
  omega

/-! ## The pages of the list -/

/-- The facts of the runs that a query asks for, in the order of the map. -/
def matching (L : Locale) (seat : Seat) (pins : List RunId) (query : RunQuery) : List RunFacts :=
  ((seat.runs.filter query.admits).filterMap fun run =>
    run.read.toOption.map (runFacts run pins)).filter (query.found L)

/-- Their summaries at an instant. -/
def summaries (L : Locale) (seat : Seat) (pins : List RunId) (query : RunQuery) (now : ℤ) :
    List RunSummary :=
  ((seat.runs.filter query.admits).filterMap fun run =>
    run.read.toOption.map (summary run pins now)).filter fun run => query.found L run.toRunFacts

theorem summaries_facts (seat : Seat) (pins : List RunId) (query : RunQuery) (now : ℤ) :
    (summaries L seat pins query now).map RunSummary.toRunFacts = matching L seat pins query := by
  rw [summaries, matching]
  change List.map _ (List.filter (query.found L ∘ RunSummary.toRunFacts) _) = _
  rw [← List.filter_map, List.map_filterMap]
  congr 2
  funext run
  rw [Option.map_map]
  rfl

theorem matching_dated {seat : Seat} {pins : List RunId} {query : RunQuery} {run : RunFacts}
    (h : run ∈ matching L seat pins query) : isDateTime run.updatedAt = true := by
  obtain ⟨r, -, hr⟩ := List.mem_filterMap.mp (List.mem_of_mem_filter h)
  cases hread : r.read with
  | error e =>
    rw [hread] at hr
    cases hr
  | ok read =>
    rw [hread] at hr
    cases hr
    exact updatedAt_date hread pins

theorem facts_sublist (pins : List RunId) (runs : List Run) :
    ((runs.filterMap fun run => run.read.toOption.map (runFacts run pins)).map
      (·.runId)).Sublist (runs.map fun run => run.plan.runId) := by
  induction runs with
  | nil => exact List.Sublist.refl _
  | cons run runs ih =>
    rw [List.filterMap_cons]
    cases run.read with
    | error e => exact ih.cons _
    | ok read => exact ih.cons_cons _

/-- What a query asks for is some of the runs, each with its own run id. -/
theorem matching_sublist (seat : Seat) (pins : List RunId) (query : RunQuery) :
    ((matching L seat pins query).map (·.runId)).Sublist
      (seat.runs.map fun run => run.plan.runId) :=
  (List.filter_sublist.map _).trans ((facts_sublist pins _).trans (List.filter_sublist.map _))

/-- The facts of the sorted summaries are the sorted facts, at every instant. -/
theorem sortRuns_facts (seat : Seat) (pins : List RunId) (query : RunQuery) (now : ℤ) :
    (sortRuns L (summaries L seat pins query now)).map RunSummary.toRunFacts =
      (matching L seat pins query).insertionSort (InOrder L) := by
  rw [← summaries_facts seat pins query now, sortRuns]
  refine List.map_insertionSort (r := fun a b : RunSummary =>
    compareRuns L a.toRunFacts b.toRunFacts ≤ 0) (s := InOrder L) _ _ fun a ha b hb => ?_
  have hdated : ∀ c ∈ summaries L seat pins query now, isDateTime c.updatedAt = true := by
    intro c hc
    have hmem := List.mem_map_of_mem (f := RunSummary.toRunFacts) hc
    rw [summaries_facts] at hmem
    exact matching_dated hmem
  exact compareRuns_iff (hdated a ha) (hdated b hb)

/-- Nothing of a query is refused. -/
structure Answers (L : Locale) (seat : Seat) (query : RunQuery) (pins : List RunId) : Prop where
  limit : Admits 100 (query.limit.getD 50)
  statuses : query.unknownStatus = false
  pins : seat.pins = .ok pins
  read : ∀ run ∈ seat.runs.filter query.admits, ∃ read, run.read = .ok read
  search : ¬ (query.needle L ≠ [] ∧ 512 < byteLength (query.needle L))

theorem mapM_summarizeRun {runs : List Run} (h : ∀ run ∈ runs, ∃ read, run.read = .ok read)
    (pins : List RunId) (now : ℤ) :
    (runs.mapM fun run => summarizeRun run pins now) =
      .ok (runs.filterMap fun run => run.read.toOption.map (summary run pins now)) := by
  induction runs with
  | nil => rfl
  | cons run runs ih =>
    obtain ⟨read, hread⟩ := h run List.mem_cons_self
    rw [List.mapM_cons, ih fun r hr => h r (List.mem_cons_of_mem _ hr), summarizeRun,
      List.filterMap_cons, hread]
    rfl

theorem read_of_mapM {runs : List Run} {pins : List RunId} {now : ℤ} {out : List RunSummary}
    (h : (runs.mapM fun run => summarizeRun run pins now) = .ok out) :
    ∀ run ∈ runs, ∃ read, run.read = .ok read := by
  induction runs generalizing out with
  | nil => exact fun run hr => absurd hr List.not_mem_nil
  | cons run runs ih =>
    rw [List.mapM_cons, Preflight.bind_eq_ok] at h
    obtain ⟨s, hs, h⟩ := h
    obtain ⟨rest, hrest, -⟩ := Preflight.bind_eq_ok.mp h
    refine List.forall_mem_cons.mpr ⟨?_, ih hrest⟩
    cases hread : run.read with
    | error e =>
      rw [summarizeRun, hread] at hs
      cases hs
    | ok read => exact ⟨read, rfl⟩

theorem listRuns_ok_iff {seat : Seat} {now : ℤ} {query : RunQuery}
    {page : Page JsString RunSummary} :
    listRuns L seat now query = .ok page ↔ ∃ pins offset, Answers L seat query pins ∧
      requestedOffset query.cursor "invalid run list cursor" = .ok offset ∧
      page = .slice cursorText (sortRuns L (summaries L seat pins query now)) offset
        (query.limit.getD 50).num.toNat := by
  unfold listRuns
  simp only [Preflight.bind_eq_ok, throwIf_eq_ok, mapError_eq_ok]
  constructor
  · rintro ⟨-, hlimit, offset, hoffset, -, hstatuses, pins, hpins, out, hout, -, hsearch, hpage⟩
    have hread := read_of_mapM hout
    rw [mapM_summarizeRun hread] at hout
    cases hout
    refine ⟨pins, offset, ⟨not_not.mp hlimit, ?_, hpins, hread, hsearch⟩, hoffset, ?_⟩
    · simpa using hstatuses
    · exact (Except.ok.inj hpage).symm
  · rintro ⟨pins, offset, h, hoffset, rfl⟩
    exact ⟨(), not_not.mpr h.limit, offset, hoffset, (), by simpa using h.statuses, pins, h.pins, _,
      mapM_summarizeRun h.read pins now, (), h.search, rfl⟩

/-- The pages of a list have every run that a query asks for once, in the order of the list, and
their number. -/
structure ListsRuns (L : Locale) (seat : Seat) (query : RunQuery) (pins : List RunId)
    (ps : List (Page JsString RunSummary)) : Prop where
  read : ∀ run ∈ seat.runs, query.admits run = true → ∃ read, run.read = .ok read
  runs : ((ps.flatMap Page.items).map RunSummary.toRunFacts).Perm (matching L seat pins query)
  once : ((ps.flatMap Page.items).map fun run => run.runId).Nodup
  ordered : (ps.flatMap Page.items).Pairwise fun a b => InOrder L a.toRunFacts b.toRunFacts
  total : ∀ p ∈ ps, p.total = (matching L seat pins query).length

/-- **A reader of the list gets each run once.** -/
theorem listRuns_pages {seat : Seat} {query : RunQuery} {now : ℕ → ℤ} {p : Page JsString RunSummary}
    (hfirst : listRuns L seat (now 0) { query with cursor := none } = .ok p) :
    ∃ pins ps, seat.pins = .ok pins ∧ ListsRuns L seat query pins ps ∧
      Follows (fun i cursor => listRuns L seat (now i) { query with cursor := cursor }) 0 none ps := by
  obtain ⟨pins, offset, hanswers, hoffset, hp⟩ := listRuns_ok_iff.mp hfirst
  obtain rfl : 0 = offset := Except.ok.inj hoffset
  set base := (matching L seat pins query).insertionSort (InOrder L) with hbase
  have hperm : base.Perm (matching L seat pins query) := List.perm_insertionSort _ _
  have hsmall : base.length < 2 ^ 32 := by
    have hle := (matching_sublist (L := L) seat pins query).length_le
    rw [List.length_map, List.length_map] at hle
    have hfew := seat.few
    rw [hperm.length_eq]
    omega
  -- a page at any offset is a page of the list at its own instant
  have hread (i : ℕ) {cursor : Option JsString} {n : ℕ}
      (hc : requestedOffset cursor "invalid run list cursor" = .ok n) :
      listRuns L seat (now i) { query with cursor := cursor } = .ok (.slice cursorText
        (sortRuns L (summaries L seat pins query (now i))) n (query.limit.getD 50).num.toNat) :=
    listRuns_ok_iff.mpr ⟨pins, n,
      ⟨hanswers.limit, hanswers.statuses, hanswers.pins, hanswers.read, hanswers.search⟩, hc, rfl⟩
  have hzero : requestedOffset none "invalid run list cursor" = .ok 0 := rfl
  have hpages : ∃ ps,
      Follows (fun i cursor => listRuns L seat (now i) { query with cursor := cursor }) 0 none ps ∧
      (ps.flatMap Page.items).map RunSummary.toRunFacts = base.drop 0 ∧
      ∀ p ∈ ps, p.total = base.length := by
    refine Follows.exists_of_slices (fun i => sortRuns L (summaries L seat pins query (now i)))
      (fun _ => (query.limit.getD 50).num.toNat) (fun _ => hanswers.limit.pos)
      (fun i => sortRuns_facts seat pins query (now i)) (fun i n hn => ?_) (hread 0 hzero)
    have hn' : n < base.length := hn
    have hmax : 2 ^ 32 ≤ maxSafeInteger := by decide
    exact hread (i + 1) (requestedOffset_cursorText (by omega) _)
  obtain ⟨ps, hps, hitems, htotal⟩ := hpages
  rw [List.drop_zero] at hitems
  refine ⟨pins, ps, hanswers.pins, ⟨?_, ?_, ?_, ?_, ?_⟩, hps⟩
  · exact fun run hr ha => hanswers.read run (List.mem_filter.mpr ⟨hr, ha⟩)
  · rw [hitems]
    exact hperm
  · have hids : ((ps.flatMap Page.items).map fun run => run.runId) = base.map (·.runId) := by
      rw [← hitems, List.map_map]
      rfl
    rw [hids, (hperm.map _).nodup_iff]
    exact seat.nodup.sublist (matching_sublist seat pins query)
  · have htotal := inOrder_total (L := L)
    have htrans := inOrder_trans (L := L)
    have hsorted : base.Pairwise (InOrder L) := List.pairwise_insertionSort _ _
    rw [← hitems, List.pairwise_map] at hsorted
    exact hsorted
  · intro q hq
    rw [htotal q hq, hperm.length_eq]

/-! ## The pages of a journal -/

theorem readLogs_ok_iff {read : RunRead} {options : LogOptions} {page : Page JsString JournalEvent} :
    readLogs (.ok read) options = .ok page ↔
      ¬ (options.cursor.isSome ∧ options.tail.isSome) ∧
      Admits 500 (options.limit.getD (options.tail.getD 100)) ∧
      ∃ offset, logOffset read.events options = .ok offset ∧
        page = .slice cursorText read.events offset
          (options.limit.getD (options.tail.getD 100)).num.toNat := by
  unfold readLogs
  simp only [Preflight.bind_eq_ok, throwIf_eq_ok, mapError_eq_ok]
  constructor
  · rintro ⟨-, hboth, -, hlimit, r, hr, offset, hoffset, hpage⟩
    obtain rfl : read = r := Except.ok.inj hr
    exact ⟨hboth, not_not.mp hlimit, offset, hoffset, (Except.ok.inj hpage).symm⟩
  · rintro ⟨hboth, hlimit, offset, hoffset, rfl⟩
    exact ⟨(), hboth, (), not_not.mpr hlimit, read, rfl, offset, hoffset, rfl⟩

/-- The options of the pages that a reader of a journal asks for: the first one may be a tail. -/
def logOptions (limit : ℕ → Option ℚ) (tail : Option ℚ) (i : ℕ) (cursor : Option JsString) :
    LogOptions where
  cursor := cursor
  limit := limit i
  tail := if cursor.isSome then none else tail

/-- **A reader of a journal gets each event once**, from the offset of the first page on. -/
theorem readLogs_pages {read : RunRead} {limit : ℕ → Option ℚ} {tail : Option ℚ}
    (hlimit : ∀ i n, limit i = some n → Admits 500 n) (htail : ∀ n, tail = some n → Admits 500 n) :
    ∃ ps, Follows (fun i cursor => readLogs (.ok read) (logOptions limit tail i cursor)) 0 none ps ∧
      ps.flatMap Page.items =
        read.events.rtake ((tail.map (·.num.toNat)).getD read.events.length) ∧
      ∀ p ∈ ps, p.total = read.events.length := by
  set start := read.events.length - (tail.map (·.num.toNat)).getD read.events.length with hstart
  -- the limits of the pages: the first one may be that of the tail
  set size : ℕ → ℚ := fun i => (limit i).getD (if i = 0 then tail.getD 100 else 100) with hsize
  have hadmits : ∀ i, Admits 500 (size i) := by
    intro i
    cases hi : limit i with
    | some n => simpa [hsize, hi] using hlimit i n hi
    | none =>
      simp only [hsize, hi, Option.getD_none]
      split_ifs
      · cases tail with
        | some n => exact htail n rfl
        | none => exact (by decide : Admits 500 100)
      · decide
  have hfirst : readLogs (.ok read) (logOptions limit tail 0 none) =
      .ok (.slice cursorText read.events start (size 0).num.toNat) := by
    refine readLogs_ok_iff.mpr ⟨nofun, hadmits 0, start, ?_, rfl⟩
    cases tail with
    | some n => exact if_pos (htail n rfl)
    | none => simp [logOffset, logOptions, requestedOffset, hstart]
  have hnext : ∀ i n, n < read.events.length →
      readLogs (.ok read) (logOptions limit tail (i + 1) (some (cursorText n))) =
        .ok (.slice cursorText read.events n (size (i + 1)).num.toNat) := by
    intro i n hn
    refine readLogs_ok_iff.mpr ⟨nofun, hadmits (i + 1), n, ?_, rfl⟩
    have hfew := read.few
    have hmax : 2 ^ 32 ≤ maxSafeInteger := by decide
    exact requestedOffset_cursorText (by omega) _
  obtain ⟨ps, hps, hitems, htotal⟩ : ∃ ps,
      Follows (fun i cursor => readLogs (.ok read) (logOptions limit tail i cursor)) 0 none ps ∧
      (ps.flatMap Page.items).map id = read.events.drop start ∧
      ∀ p ∈ ps, p.total = read.events.length :=
    Follows.exists_of_slices (fun _ => read.events) (fun i => (size i).num.toNat)
      (fun i => (hadmits i).pos) (fun _ => List.map_id _) hnext hfirst
  rw [List.map_id] at hitems
  exact ⟨ps, hps, hitems, htotal⟩

theorem readLogs_tail (read : RunRead) {n : ℚ} (h : Admits 500 n) :
    readLogs (.ok read) ⟨none, none, some n⟩ =
      .ok ⟨read.events.rtake n.num.toNat, none, read.events.length⟩ := by
  refine readLogs_ok_iff.mpr ⟨nofun, h, read.events.length - n.num.toNat, if_pos h, ?_⟩
  have hall : (read.events.drop (read.events.length - n.num.toNat)).take n.num.toNat =
      read.events.rtake n.num.toNat := by
    refine List.take_of_length_le ?_
    rw [List.length_drop]
    omega
  have hend : ¬ read.events.length - n.num.toNat + (read.events.rtake n.num.toNat).length <
      read.events.length := by
    rw [List.rtake, List.length_drop]
    omega
  change _ = Page.mk (List.take n.num.toNat _)
    (if _ + (List.take n.num.toNat _).length < _ then _ else none) _
  rw [hall, if_neg hend]

/-- **Pagination.** Of runs that do not change, a reader who follows the cursors of `listRuns` from
its first page on gets finitely many pages, with each run that the query asks for once, in the order
of status, last change and run id, and their number on every page. Of a journal, such a reader gets
each event once under any limits, in order, and the number of events on every page; a tail is the
last events, and the pages after it have those that are left of them. -/
theorem pagination (L : Locale) :
    (∀ (seat : Seat) (query : RunQuery) (now : ℕ → ℤ) (p : Page JsString RunSummary),
      listRuns L seat (now 0) { query with cursor := none } = .ok p →
      ∃ pins ps, seat.pins = .ok pins ∧ ListsRuns L seat query pins ps ∧
        ∀ qs, Follows (fun i cursor => listRuns L seat (now i) { query with cursor := cursor })
          0 none qs ↔ qs = ps) ∧
    (∀ (read : RunRead) (limit : ℕ → Option ℚ), (∀ i n, limit i = some n → Admits 500 n) →
      ∃ ps, ps.flatMap Page.items = read.events ∧ (∀ p ∈ ps, p.total = read.events.length) ∧
        ∀ qs, Follows (fun i cursor => readLogs (.ok read) (logOptions limit none i cursor))
          0 none qs ↔ qs = ps) ∧
    ∀ (read : RunRead) (n : ℚ), Admits 500 n →
      readLogs (.ok read) ⟨none, none, some n⟩ =
        .ok ⟨read.events.rtake n.num.toNat, none, read.events.length⟩ ∧
      ∀ limit : ℕ → Option ℚ, (∀ i n, limit i = some n → Admits 500 n) →
        ∃ ps, ps.flatMap Page.items = read.events.rtake n.num.toNat ∧
          (∀ p ∈ ps, p.total = read.events.length) ∧
          ∀ qs, Follows (fun i cursor => readLogs (.ok read) (logOptions limit (some n) i cursor))
            0 none qs ↔ qs = ps := by
  refine ⟨?_, ?_, ?_⟩
  · intro seat query now p hfirst
    obtain ⟨pins, ps, hpins, hlists, hps⟩ := listRuns_pages hfirst
    exact ⟨pins, ps, hpins, hlists, hps.iff_eq⟩
  · intro read limit hlimit
    have hnone : ∀ n : ℚ, none = some n → Admits 500 n := nofun
    obtain ⟨ps, hps, hitems, htotal⟩ := @readLogs_pages read limit none hlimit hnone
    refine ⟨ps, hitems.trans ?_, htotal, hps.iff_eq⟩
    rw [Option.map_none, Option.getD_none, List.rtake, Nat.sub_self, List.drop_zero]
  · intro read n hn
    refine ⟨readLogs_tail read hn, fun limit hlimit => ?_⟩
    have htail : ∀ m, some n = some m → Admits 500 m := fun m hm => Option.some.inj hm ▸ hn
    obtain ⟨ps, hps, hitems, htotal⟩ := readLogs_pages hlimit htail
    exact ⟨ps, hitems, htotal, hps.iff_eq⟩

/-- The collation of plain texts, by code units. -/
def plainCompare (a b : JsString) : ℤ :=
  if a.map UInt16.toNat < b.map UInt16.toNat then -1
  else if b.map UInt16.toNat < a.map UInt16.toNat then 1
  else 0

theorem plainCompare_le (a b : JsString) :
    plainCompare a b ≤ 0 ↔ a.map UInt16.toNat ≤ b.map UInt16.toNat := by
  rw [← not_lt, plainCompare]
  split_ifs with h h'
  · simpa using h.le
  · simpa using h'
  · simpa using not_lt.mp h'

/-- Plain texts. -/
def plainLocale : Locale where
  toLowerCase := id
  localeCompare := plainCompare
  swap a b := by
    unfold plainCompare
    rcases lt_trichotomy (a.map UInt16.toNat) (b.map UInt16.toNat) with h | h | h
    · simp [h, h.not_gt]
    · simp [h]
    · simp [h, h.not_gt]
  trans a b c hab hbc := by
    rw [plainCompare_le] at hab hbc ⊢
    exact hab.trans hbc

/-- A run of the worker that has completed. -/
def listedRun (runId : RunId) (createdAt : JsString) (h : isDateTime createdAt = true) : Run where
  plan := { Preflight.workerPlan none with runId := runId }
  ownerId := ofString "owner-1"
  status := .completed
  result := none
  repositoryRoot := ofString "/repo"
  createdAt := createdAt
  control := false
  read := .ok ⟨[], [], false, true, by decide⟩
  dated := h
  stamped := by
    rintro r hr e he
    cases hr
    cases he

/-- Three runs; two of them were created at one instant. -/
def listedSeat : Seat where
  runs := [
    listedRun ⟨ofString "run_b", by decide +kernel⟩ (ofString "2024-05-01T10:00:00.000Z")
      (by decide +kernel),
    listedRun ⟨ofString "run_a", by decide +kernel⟩ (ofString "2024-05-01T12:00:00.000+02:00")
      (by decide +kernel),
    listedRun ⟨ofString "run_c", by decide +kernel⟩ (ofString "2024-05-02T10:00:00.000Z")
      (by decide +kernel)]
  pins := .ok []
  nodup := List.Nodup.of_map RunId.val (by decide +kernel :
    ([ofString "run_b", ofString "run_a", ofString "run_c"] : List JsString).Nodup)
  few := by decide

/-- One run a page is asked for. -/
def oneByOne : RunQuery := ⟨none, none, some [ofString "completed"], none, some 1, none⟩

/-- The three runs are read one by one, a second apart. -/
theorem pagination_oneByOne :
    ∃ pins ps, listedSeat.pins = .ok pins ∧ ListsRuns plainLocale listedSeat oneByOne pins ps ∧
      ∀ qs, Follows (fun i cursor => listRuns plainLocale listedSeat (1714650000000 + 1000 * i)
        { oneByOne with cursor := cursor }) 0 none qs ↔ qs = ps := by
  have hanswers : Answers plainLocale listedSeat oneByOne [] := by
    refine ⟨by decide +kernel, by decide +kernel, rfl, ?_, by decide +kernel⟩
    intro run hr
    have hmem := List.mem_of_mem_filter hr
    simp only [listedSeat, List.mem_cons, List.not_mem_nil, or_false] at hmem
    rcases hmem with rfl | rfl | rfl <;> exact ⟨_, rfl⟩
  have hfirst : listRuns plainLocale listedSeat (1714650000000 + 1000 * (0 : ℕ)) oneByOne =
      .ok (.slice cursorText (sortRuns plainLocale (summaries plainLocale listedSeat [] oneByOne
        (1714650000000 + 1000 * (0 : ℕ)))) 0 (oneByOne.limit.getD 50).num.toNat) :=
    listRuns_ok_iff.mpr ⟨[], 0, hanswers, rfl, rfl⟩
  exact (pagination plainLocale).1 listedSeat oneByOne (fun i => 1714650000000 + 1000 * i) _ hfirst

end Summaries

end PiSubagent
