import CommitReplay.PythonText
import CommitReplay.JsonValue
import CommitReplay.JsonText
import CommitReplay.JsonRoundTrip
import CommitReplay.HashChain
import CommitReplay.ContextArms
import CommitReplay.FailureKind
import CommitReplay.RowChecks
import CommitReplay.GradeRows
import CommitReplay.GradeChain
import CommitReplay.JsonlTail
import CommitReplay.JsonlLedger
import CommitReplay.StoreLedger
import CommitReplay.KeyedTable
import CommitReplay.TransitionRuns
import CommitReplay.RunQueue
import CommitReplay.ClaimedRows
import CommitReplay.RunQueueHalves
import CommitReplay.DecimalRounding
import CommitReplay.CampaignLine
import CommitReplay.BinomialTails
import CommitReplay.LookRule
import CommitReplay.DegradedOutcomes
import CommitReplay.ReadingRows
import CommitReplay.ReadingRecord
import CommitReplay.ReadingArms
import CommitReplay.ReadingReplay
import CommitReplay.ReadingForward
import CommitReplay.ReadingReserved
import CommitReplay.ReadingHierarchy
import CommitReplay.ReadingCertification
import CommitReplay.ReservedDecides
import CommitReplay.ReservedFinality
import CommitReplay.ReplayStability
import CommitReplay.ForwardStability
import CommitReplay.PythonRepr
import CommitReplay.ReadingRuns
import CommitReplay.SharedOrder
import CommitReplay.LoopOrder
import CommitReplay.KeyedBudget
import CommitReplay.ReadingRegistration
import CommitReplay.ReadingBudget
import CommitReplay.JoinedTexts
import CommitReplay.CellKeys
import CommitReplay.PriorityRegex
import CommitReplay.Redaction
import CommitReplay.JsonQuotes
import CommitReplay.FactoryEvents
import CommitReplay.FactoryStores
import CommitReplay.FactoryChain
import CommitReplay.FactoryGrants
import CommitReplay.FactoryFates
import CommitReplay.EgressProxy
import CommitReplay.JsonlObjects
import CommitReplay.PreventionRecords
import CommitReplay.PreventionChain
import CommitReplay.ClassSets
import CommitReplay.ClassSetRuns
import CommitReplay.EventWalk
import CommitReplay.EventVerifier
import CommitReplay.EventTailWalks
import CommitReplay.Interaction
import CommitReplay.SlotReadiness
import CommitReplay.ContextStandard
import CommitReplay.ReviewVerdicts
import CommitReplay.ItemLoop
import CommitReplay.ItemSteps
import CommitReplay.ItemCalls
import CommitReplay.WithdrawnDeliveries
import CommitReplay.ItemAdmission
import CommitReplay.SpendGate
import CommitReplay.LicensedDelivery
import CommitReplay.WeightedShares
import CommitReplay.FederatedCells
import CommitReplay.FederatedRelease
import CommitReplay.KeyedGroups
import CommitReplay.CampaignStore
import CommitReplay.AttemptHistory
import CommitReplay.ChargedAttempts
import CommitReplay.UnplacedCharges
import CommitReplay.CampaignSpend
import CommitReplay.PathTrees
import CommitReplay.WorktreeFiles
import CommitReplay.TouchedFiles
import CommitReplay.HiddenFiles
import CommitReplay.CodeTokens
import CommitReplay.BriefGuard
import CommitReplay.Accounts
import CommitReplay.LastAdmin
import CommitReplay.SessionFlows
import CommitReplay.SessionEnds
import CommitReplay.RedactedHeads
import CommitReplay.AttemptOutcomes
import CommitReplay.AttemptCalls
import CommitReplay.AttemptCharges
import CommitReplay.Interleavings
import CommitReplay.IntakeRecords
import CommitReplay.IntakeLeases
import CommitReplay.IntakePasses
import CommitReplay.FencedPasses
import CommitReplay.OnePass
import CommitReplay.FairTails
import CommitReplay.PairTest
import CommitReplay.LoopPairs
import CommitReplay.LookSpend
import CommitReplay.LookFinality
import CommitReplay.CursorReads
import CommitReplay.TraceEvents
import CommitReplay.ResumedReaders
import CommitReplay.Invitations
import CommitReplay.OneTimeLinks
import CommitReplay.PostureGates
import CommitReplay.StandingRecords
import CommitReplay.LintPlans
import CommitReplay.LintedFiles
import CommitReplay.DepthFirst
import CommitReplay.PointerChains
import CommitReplay.BacklogRecord
import CommitReplay.BacklogOrder
import CommitReplay.BacklogRuns
import CommitReplay.EditBlocks
import CommitReplay.EditBlockReads
import CommitReplay.EditWindows
import CommitReplay.StagedEdits
import CommitReplay.RunCounts
import CommitReplay.Slugs
import CommitReplay.DeliveryBranches
import CommitReplay.RoutingRule
import CommitReplay.RoutingBar
import CommitReplay.PreventionRule
import CommitReplay.PreventionTiming
import CommitReplay.PreventionKeeps
import CommitReplay.RelocatedIds
import CommitReplay.TestRuns
import CommitReplay.GoRuns
import CommitReplay.GoReports
import CommitReplay.LineRegex
import CommitReplay.PytestRuns
import CommitReplay.PytestSummaries
import CommitReplay.OrderedItems
import CommitReplay.LibraryEntries
import CommitReplay.LibraryActs
import CommitReplay.LibraryRuns
import CommitReplay.RoundRobin
import CommitReplay.MutantSample
import CommitReplay.ChangeIndex
import CommitReplay.ChangeStores
import CommitReplay.OracleScore
import CommitReplay.OracleRuns
import CommitReplay.UnifiedDiff
import CommitReplay.DiffHeaders
import CommitReplay.DiffReads
import CommitReplay.LockPins
import CommitReplay.PoetryLocks
import CommitReplay.PathClauses
import CommitReplay.UvLocks
import CommitReplay.UvClosure
import CommitReplay.UntakenKeys
import CommitReplay.RefusalTriage
import CommitReplay.CorpusTriage
import CommitReplay.TriageWrites
import CommitReplay.TriageApplies
import CommitReplay.RungLabels
import CommitReplay.StampWindows
import CommitReplay.LoginLimiter
import CommitReplay.LimiterBounds
import CommitReplay.TicketItems
import CommitReplay.TicketNames
import CommitReplay.TicketRuns
import CommitReplay.StrippedText
import CommitReplay.LowerCase
import CommitReplay.ModelNames
import CommitReplay.ModelSpellings
import CommitReplay.TailLedger
import CommitReplay.SignoffRecords
import CommitReplay.SignoffGate
import CommitReplay.SignoffLedger
import CommitReplay.ReviewCorrections
import CommitReplay.AgentRuns
import CommitReplay.ReaperRuns
import CommitReplay.PatchRuns
import CommitReplay.FlowRecords
