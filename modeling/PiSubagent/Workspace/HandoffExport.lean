import PiSubagent.Contracts
import PiSubagent.Lib.GitHistory
import PiSubagent.Workspace.Handoffs

/-!
# The export of a hand-off

* `ExportPlatform`: the commands of Git that make the patch, and the digest.
* `exportWorktreeHandoff`: the checks of the source in their order, and the bounds of the patch.
* **`export_ok_iff`**: for a record of a run whose baseline does not reach the hand-off, only the
  lease, the limit and the patch itself matter.
-/

namespace PiSubagent

open JsonText

namespace Worktree

open Git.Repository

/-! ## The export -/

/-- `HandoffRef`; its format and its media type are constants. -/
structure HandoffRef where
  runId : JsString
  attemptId : JsString
  baselineHead : JsString
  handoffCommit : JsString
  sha256 : JsString
  bytes : ℕ
deriving DecidableEq, Repr

/-- `HandoffRefSchema`. -/
def HandoffRef.check (r : HandoffRef) : Bool :=
  isRunId r.runId && isAttemptId r.attemptId && isHex 40 64 r.baselineHead &&
    isHex 40 64 r.handoffCommit && isHex 64 64 r.sha256 && decide (1 ≤ r.bytes)

/-- `HandoffExport`. -/
structure HandoffExport where
  ref : HandoffRef
  content : List UInt8
deriving DecidableEq, Repr

/-- What the export takes from Git and from the digest. -/
structure ExportPlatform where
  /-- `git rev-list --count base..tip`. -/
  revListCount : Repository → JsString → JsString → ℕ
  /-- `git format-patch --stdout base..tip`; `none` when it fails. -/
  formatPatch : Repository → JsString → JsString → Option (List UInt8)
  sha256 : List UInt8 → JsString

/-- `git rev-list --count` counts the commits of the range. -/
def ExportPlatform.Counts (P : ExportPlatform) : Prop :=
  ∀ repo base tip, P.revListCount repo base tip = (repo.range base tip).ncard

/-- The patch of a commit on its parent makes the tree of the commit from that of the parent, where
`patched` is what Git makes of a tree and a patch. -/
def ExportPlatform.Patches (P : ExportPlatform)
    (patched : JsString → List UInt8 → Option JsString) : Prop :=
  ∀ (repo : Repository) (base tip tree baseTree : JsString) (content : List UInt8),
    repo.range base tip = {tip} → repo.commits tip = some ⟨tree, [base]⟩ →
      repo.treeOf base = some baseTree → P.formatPatch repo base tip = some content →
        content ≠ [] → patched baseTree content = some tree

/-- Why nothing is exported. -/
inductive ExportRefusal where
  /-- The lease is another's by now. -/
  | fenced
  /-- A command of Git fails. -/
  | git
  /-- The run's lease is held elsewhere. -/
  | unavailable
  /-- The durable status is not the one that is remembered. -/
  | changed
  | error (message : JsString)
deriving DecidableEq, Repr

/-- A `WorktreeError`, or an `Error` of the service. -/
def refused {α : Type} (message : String) : Except ExportRefusal α :=
  .error (.error (ofString message))

/-- The lease of an export, and whether it is current at its first and at its second check. -/
structure ExportLease where
  runId : JsString
  current : Bool
  still : Bool
deriving DecidableEq, Repr

/-- `MAX_HANDOFF_EXPORT_BYTES`. -/
def maxHandoffExportBytes : ℕ := 64 * 1024 * 1024

/-- `maxBytes` is an integer from 1 to the maximum. -/
def limitOk (maxBytes : Option ℤ) : Bool :=
  maxBytes.all fun n : ℤ => decide (1 ≤ n ∧ n ≤ (maxHandoffExportBytes : ℤ))

/-- `maxBytes`, where it is allowed. -/
def exportLimit (maxBytes : Option ℤ) : ℕ := (maxBytes.map Int.toNat).getD maxHandoffExportBytes

/-- The reference of a patch. -/
def handoffRef (P : ExportPlatform) (r : WorktreeRecord) (c : JsString) (content : List UInt8) :
    HandoffRef where
  runId := r.runId
  attemptId := r.attemptId
  baselineHead := r.baselineHead
  handoffCommit := c
  sha256 := P.sha256 content
  bytes := content.length

/-- `exportWorktreeHandoff` of a patch; the output buffer of the command has the same limit. -/
def deliver (P : ExportPlatform) (r : WorktreeRecord) (c : JsString) (limit : ℕ)
    (content : List UInt8) : Except ExportRefusal HandoffExport :=
  if limit < content.length then refused "handoff export exceeds byte limit"
  else if content = [] then refused "handoff export produced no patch content"
  else if (handoffRef P r c content).check = false then refused "invalid handoff export metadata"
  else .ok ⟨handoffRef P r c content, content⟩

/-- `exportWorktreeHandoff`. -/
def exportWorktreeHandoff (P : ExportPlatform) (s : Store) (r : Record) (lease : ExportLease)
    (maxBytes : Option ℤ) : Except ExportRefusal HandoffExport :=
  if lease.runId ≠ r.runId then refused "worktree run lease identity mismatch"
  else if lease.current = false then .error .fenced
  else if limitOk maxBytes = false then
    refused "handoff export limit must be an integer from 1 to 67108864"
  else
    match r.handoffCommit with
    | none => refused "worktree has no handoff commit to export"
    | some c =>
      if c = r.baselineHead then
        refused "handoff commit equals its baseline; there is no handoff to export"
      else if r.handoffRef = none then refused "handoff commit has no durable handoff ref"
      else if s.repo.refs (.handoff r.attemptId) ≠ some c then
        refused "handoff commit is not reachable from its durable handoff ref"
      else
        match s.repo.commits c with
        | none => .error .git
        | some commit =>
          if commit.parents ≠ [r.baselineHead] then
            refused "handoff commit must have exactly one parent, the recorded baseline"
          else if P.revListCount s.repo r.baselineHead c ≠ 1 then
            refused "handoff must be exactly one commit on top of its baseline"
          else if lease.still = false then .error .fenced
          else
            match P.formatPatch s.repo r.baselineHead c with
            | none => .error .git
            | some content => deliver P r.toWorktreeRecord c (exportLimit maxBytes) content

/-! ## What is exported -/

variable {P : ExportPlatform} {runId head : JsString} {s : Store} {r : Record} {c : JsString}
  {id : JsString} {lease : ExportLease} {maxBytes : Option ℤ} {content : List UInt8}
  {e : HandoffExport}

theorem deliver_ok_iff {x : WorktreeRecord} {limit : ℕ} : deliver P x c limit content = .ok e ↔
    content.length ≤ limit ∧ content ≠ [] ∧ (handoffRef P x c content).check = true ∧
      e = ⟨handoffRef P x c content, content⟩ := by
  unfold deliver refused
  split_ifs with hsize hempty hcheck
  · simp only [false_iff, not_and]
    intro hle
    omega
  · simp [hempty]
  · simp [hcheck]
  · simp only [Except.ok.injEq]
    constructor
    · rintro rfl
      exact ⟨not_lt.mp hsize, hempty, by simpa using hcheck, rfl⟩
    · rintro ⟨-, -, -, rfl⟩
      rfl

/-- What the export of a record of a run comes to, when its hand-off came after the baseline. -/
theorem export_eq (h : Sound runId head s) (hcount : P.Counts)
    (hr : s.records id = some (.written r)) (hc : r.handoffCommit = some c)
    (hafter : ¬ s.repo.Reaches head c) :
    exportWorktreeHandoff P s r lease maxBytes =
      if lease.runId ≠ runId then refused "worktree run lease identity mismatch"
      else if lease.current = false then .error .fenced
      else if limitOk maxBytes = false then
        refused "handoff export limit must be an integer from 1 to 67108864"
      else if lease.still = false then .error .fenced
      else
        match P.formatPatch s.repo head c with
        | none => .error .git
        | some content => deliver P r.toWorktreeRecord c (exportLimit maxBytes) content := by
  obtain ⟨rfl, rfl, rfl⟩ := h.record id r hr
  obtain ⟨href, hpin, tree, hcommit⟩ := h.handoff _ r hr c hc
  have hne : c ≠ r.baselineHead := by
    rintro rfl
    exact hafter (reaches_refl _)
  have hone : P.revListCount s.repo r.baselineHead c = 1 := by
    rw [hcount, range_child hcommit hafter, Set.ncard_singleton]
  unfold exportWorktreeHandoff
  simp only [hc, hne, href, hpin, hcommit, hone, if_false, reduceCtorEq, ne_eq, not_true_eq_false]

/-- **Only the lease, the limit and the patch decide about the export of a record.** -/
theorem export_ok_iff (h : Sound runId head s) (hcount : P.Counts)
    (hr : s.records id = some (.written r)) (hc : r.handoffCommit = some c)
    (hafter : ¬ s.repo.Reaches head c) :
    exportWorktreeHandoff P s r lease maxBytes = .ok e ↔
      (lease.runId = runId ∧ lease.current = true ∧ lease.still = true) ∧
        limitOk maxBytes = true ∧
          ∃ content, P.formatPatch s.repo head c = some content ∧
            content.length ≤ exportLimit maxBytes ∧ content ≠ [] ∧
              (handoffRef P r.toWorktreeRecord c content).check = true ∧
                e = ⟨handoffRef P r.toWorktreeRecord c content, content⟩ := by
  rw [export_eq h hcount hr hc hafter]
  unfold refused
  split_ifs with hid hcurrent hlimit hstill
  · simp [hid]
  · simp [hcurrent]
  · simp [hlimit]
  · simp [hstill]
  · rw [ne_eq, not_not] at hid
    rw [Bool.not_eq_false] at hcurrent hlimit hstill
    cases hp : P.formatPatch s.repo head c with
    | none => simp
    | some content =>
      simp only [deliver_ok_iff, hid, hcurrent, hlimit, hstill, true_and, Option.some.injEq,
        exists_eq_left']

/-- An exported patch makes the tree of the hand-off from that of the baseline. -/
theorem patched_export {patched : JsString → List UInt8 → Option JsString}
    {tree baseTree : JsString} (hpatches : P.Patches patched)
    (hcommit : s.repo.commits c = some ⟨tree, [head]⟩)
    (hafter : ¬ s.repo.Reaches head c) (hbase : s.repo.treeOf head = some baseTree)
    (hpatch : P.formatPatch s.repo head c = some content) (hne : content ≠ []) :
    patched baseTree content = some tree :=
  hpatches s.repo head c tree baseTree content (range_child hcommit hafter) hcommit hbase hpatch
    hne

end Worktree

end PiSubagent
