import DevopsCli.Lib.Run
import DevopsCli.Lib.Window
import DevopsCli.Lib.Act
import DevopsCli.Server.RequestBudget
import DevopsCli.Server.BudgetRuns
import DevopsCli.Server.RepoWorker
import DevopsCli.Server.Webhooks
import DevopsCli.Server.WebhookReplies
import DevopsCli.Server.WebhookRepeats
import DevopsCli.GitHub.Quota
import DevopsCli.GitHub.QuotaMerge
import DevopsCli.GitHub.RateLimiter
import DevopsCli.GitHub.Holds
import DevopsCli.GitHub.Pacing
import DevopsCli.GitHub.WriteSlots
import DevopsCli.GitHub.LedgerRuns
import DevopsCli.GitHub.SlotHolds
import DevopsCli.GitHub.RunGh
import DevopsCli.GitHub.RunGhHolds
import DevopsCli.GitHub.RunGhCache
import DevopsCli.Lib.Text
import DevopsCli.Ai.ThinkingStream
import DevopsCli.Ai.ThinkingScan
import DevopsCli.Ai.ThinkingSplits
import DevopsCli.Ai.ThinkingEvents
import DevopsCli.Lib.Saga
import DevopsCli.Ai.Verdicts
import DevopsCli.Ai.VerdictRuns
import DevopsCli.Lib.Replay
import DevopsCli.K8s.Informer
import DevopsCli.K8s.InformerCache
import DevopsCli.K8s.VolumeMove
import DevopsCli.K8s.MoveUndo
import DevopsCli.K8s.MoveFailure
import DevopsCli.K8s.MoveRuns
import DevopsCli.Lib.Json
import DevopsCli.Lib.PyStr
import DevopsCli.GitHub.CheckVerdict
import DevopsCli.GitHub.GreenVerdict
import DevopsCli.Lib.PyLines
import DevopsCli.Rag.Chunker
import DevopsCli.Rag.FileSpans
import DevopsCli.Rag.ChunkIds
import DevopsCli.Rag.ChunkText
import DevopsCli.Rag.ChunkLines
import DevopsCli.Roadmap.Failure
import DevopsCli.Roadmap.FailureLedger
import DevopsCli.Implement.StepTiers
import DevopsCli.Implement.TierLaw
import DevopsCli.Roadmap.JobRecord
import DevopsCli.Roadmap.Store
import DevopsCli.Roadmap.FieldWrites
import DevopsCli.Roadmap.LabelWrites
import DevopsCli.Roadmap.Claim
import DevopsCli.Roadmap.ClaimLaw
import DevopsCli.Roadmap.StopClear
import DevopsCli.Roadmap.StopBounds
import DevopsCli.Roadmap.RefineDue
import DevopsCli.Roadmap.Sanitize
import DevopsCli.Roadmap.BodyHash
import DevopsCli.Roadmap.OwnWrite
import DevopsCli.Roadmap.RefineRounds
import DevopsCli.Roadmap.RefineRecord
import DevopsCli.Roadmap.RefineBound
import DevopsCli.Roadmap.RefineStored
import DevopsCli.Roadmap.Intake
import DevopsCli.Roadmap.IntakeResume
import DevopsCli.Roadmap.IntakeQueue
import DevopsCli.Lib.Git
import DevopsCli.Implement.StepFiles
import DevopsCli.Implement.WipKeeper
import DevopsCli.Implement.TasksOwned
import DevopsCli.Implement.TasksRuns
import DevopsCli.Git.Worktrees
import DevopsCli.Git.Prune
import DevopsCli.Git.PruneRuns
import DevopsCli.Lib.Keyed
import DevopsCli.Rag.Indexer
import DevopsCli.Rag.IndexMirror
import DevopsCli.Lib.Separated
import DevopsCli.Lib.PyWords
import DevopsCli.Ai.ResponseKey
import DevopsCli.Ai.ResponseCache
import DevopsCli.K8s.MoveCommands
import DevopsCli.K8s.MoveDryRun
import DevopsCli.Implement.StageTasks
import DevopsCli.Implement.ShellPolicy
import DevopsCli.Lib.PathTree
import DevopsCli.Config.RoundTrip
import DevopsCli.Config.ChangeTarget
import DevopsCli.Roadmap.StageCriteria
import DevopsCli.Implement.ModelSends
import DevopsCli.Lib.LeastFirst
import DevopsCli.Security.Findings
import DevopsCli.Security.Duplicates
import DevopsCli.Security.DuplicateOrder
import DevopsCli.Security.Clusters
import DevopsCli.Security.ScanReport
import DevopsCli.Lib.PyPath
import DevopsCli.Roadmap.StagePaths
import DevopsCli.Roadmap.PathsForward
import DevopsCli.Lib.PyDigits
import DevopsCli.Lib.LineEnds
import DevopsCli.Review.Diff
import DevopsCli.Review.GitDiff
import DevopsCli.Review.DiffText
import DevopsCli.Review.DiffNumbers
import DevopsCli.Review.AddedLines
import DevopsCli.Review.BothForms
import DevopsCli.Lib.LastRule
import DevopsCli.Core.Gitignore
import DevopsCli.Core.GitIgnores
import DevopsCli.Core.IgnoreVerdict
import DevopsCli.Lib.Newest
import DevopsCli.Ui.LogBuffer
import DevopsCli.Lib.Spans
import DevopsCli.Rag.ContextFilter
import DevopsCli.Lib.Tokenizer
import DevopsCli.Ai.ContextBudget
import DevopsCli.Lib.PyDict
import DevopsCli.Telemetry.TraceContext
import DevopsCli.Telemetry.Carriers
import DevopsCli.Git.BranchAuthors
import DevopsCli.Git.StrayBranch
import DevopsCli.Security.VaultLease
import DevopsCli.Security.LeaseSweep
import DevopsCli.Lib.DepthFirst
import DevopsCli.Security.Suppression
import DevopsCli.Security.SuppressionOrder
import DevopsCli.Lib.JsonScan
import DevopsCli.Output.StreamingSerializer
import DevopsCli.Lib.Bisection
import DevopsCli.Ai.ContextPacker
import DevopsCli.Lib.Matches
import DevopsCli.K8s.Logql
import DevopsCli.K8s.LogqlFilters
import DevopsCli.K8s.LogqlAnswers
import DevopsCli.K8s.LogqlFallback
import DevopsCli.K8s.LogqlPods
import DevopsCli.K8s.LogqlExact
import DevopsCli.Lib.Worklist
import DevopsCli.Core.ImportGraph
import DevopsCli.Core.TestSelection
import DevopsCli.Core.ImportReach
import DevopsCli.Core.SelectedTests
import DevopsCli.Core.ChangesTested
import DevopsCli.Lib.OptionLists
import DevopsCli.Lib.CodeSpans
import DevopsCli.Lib.Markdown
import DevopsCli.Implement.TaskTokens
import DevopsCli.Implement.PlainReader
import DevopsCli.Implement.PlanText
import DevopsCli.Implement.GroupTexts
import DevopsCli.Implement.PlanBlocks
import DevopsCli.Implement.PlanTitles
import DevopsCli.Implement.PlanTasks
import DevopsCli.Implement.PlanKept
import DevopsCli.Lib.Interleave
import DevopsCli.Roadmap.Round
import DevopsCli.Roadmap.RoundStep
import DevopsCli.Roadmap.RoundLaw
import DevopsCli.Roadmap.DryRound
import DevopsCli.Roadmap.LaneRounds
import DevopsCli.Roadmap.FailedRounds
import DevopsCli.Server.ServiceManager
import DevopsCli.Server.ServiceRuns
import DevopsCli.Server.ServiceHalt
import DevopsCli.Server.ServiceRounds
