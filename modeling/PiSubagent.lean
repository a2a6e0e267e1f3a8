import PiSubagent.Persistence.Journal
import PiSubagent.Lib.Runs
import PiSubagent.Persistence.JournalFile
import PiSubagent.Persistence.JournalFaults
import PiSubagent.Persistence.JournalCrash
import PiSubagent.Lifecycle.Reducer
import PiSubagent.Service.Results
import PiSubagent.Persistence.SharedJournal
import PiSubagent.Service.CleanupBlocked
import PiSubagent.Lib.Programs
import PiSubagent.Runtime.Failure
import PiSubagent.Sandbox.Gondolin
import PiSubagent.Sandbox.StartedVms
import PiSubagent.Runtime.Attempt
import PiSubagent.Runtime.SandboxCleanup
import PiSubagent.Persistence.Fencing
import PiSubagent.Service.Launch
import PiSubagent.Service.LateLaunch
import PiSubagent.Lib.Cuts
import PiSubagent.Service.RunFiles
import PiSubagent.Service.RunLife
import PiSubagent.Service.RunSteps
import PiSubagent.Service.RunInvariants
import PiSubagent.Service.RunDiscipline
import PiSubagent.Runtime.AttemptResults
import PiSubagent.Service.ValidResults
import PiSubagent.Service.Abandonment
import PiSubagent.Service.VisibleStatus
import PiSubagent.Service.StartFailure
import PiSubagent.Service.RunBudget
import PiSubagent.Service.VmEvidence
import PiSubagent.Lib.Git
import PiSubagent.Lib.Scripts
import PiSubagent.Workspace.Worktree
import PiSubagent.Service.RunWorktrees
import PiSubagent.Service.RunFrames
import PiSubagent.Workspace.Handoffs
import PiSubagent.Service.RunRecords
import PiSubagent.Lib.Calls
import PiSubagent.Sandbox.Checkpoints
import PiSubagent.Sandbox.WarmupLock
import PiSubagent.Sandbox.CheckpointLeases
import PiSubagent.Sandbox.Capacity
import PiSubagent.Persistence.OperationIndex
import PiSubagent.Preflight.Compile
import PiSubagent.Preflight.Narrowing
import PiSubagent.Persistence.AttemptCreation
import PiSubagent.Service.AttemptLineage
import PiSubagent.Service.Shutdown
import PiSubagent.Preflight.Projections
import PiSubagent.Service.Drift
import PiSubagent.Service.ControlTurns
import PiSubagent.Lib.OrderedMap
import PiSubagent.Persistence.StoreRevision
import PiSubagent.Runtime.TerminalEvents
import PiSubagent.Sandbox.Resources
import PiSubagent.Lib.JsonSize
import PiSubagent.Persistence.Snapshot
import PiSubagent.Runtime.TerminalSize
import PiSubagent.Persistence.LeasePorts
import PiSubagent.Persistence.Retention
import PiSubagent.Lib.GitWorktrees
import PiSubagent.Workspace.Release
import PiSubagent.Workspace.Snapshots
import PiSubagent.Persistence.PruneCompleteness
import PiSubagent.Lib.Double
import PiSubagent.Preflight.Canonical
import PiSubagent.Lib.Shedding
import PiSubagent.Persistence.RetentionReport
import PiSubagent.Lib.PosixPath
import PiSubagent.Sandbox.GuestPaths
import PiSubagent.Sandbox.Eviction
import PiSubagent.Preflight.Provenance
import PiSubagent.Artifacts.Budget
import PiSubagent.Sandbox.Dependencies
import PiSubagent.Service.AgentIdentity
import PiSubagent.Service.FindOperation
import PiSubagent.Service.BudgetTotals
import PiSubagent.Lib.Fitting
import PiSubagent.Runtime.OutputBounds
import PiSubagent.Runtime.Dispositions
import PiSubagent.Lib.NamedTrees
import PiSubagent.Preflight.TreeDigest
import PiSubagent.Reconciliation.Process
import PiSubagent.Runtime.Deadline
import PiSubagent.Lib.Paging
import PiSubagent.Service.Listing
import PiSubagent.Service.RetryBackoff
import PiSubagent.Extension.Acquire
import PiSubagent.Extension.ToolRequest
import PiSubagent.Lib.Turns
import PiSubagent.Lib.Walks
import PiSubagent.Sandbox.GuestSearch
import PiSubagent.Service.Exclusive
import PiSubagent.Service.ExportedHandoffs
import PiSubagent.Service.Guards
import PiSubagent.Service.Memos
import PiSubagent.Service.OneAttempt
import PiSubagent.Service.GrowingLogs
import PiSubagent.Runtime.BudgetNotices
import PiSubagent.Preflight.AgentSelection
import PiSubagent.Ui.Inspector
