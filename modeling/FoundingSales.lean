import FoundingSales.Research.ExtractionRequest
import FoundingSales.Library.Utf8
import FoundingSales.Research.PageText
import FoundingSales.Library.Clocks
import FoundingSales.Social.StandingCadence
import FoundingSales.Meetings.NoShows
import FoundingSales.Today.Snoozes
import FoundingSales.Contracts.OptOutLinks
import FoundingSales.Rules.ReplyClassification
import FoundingSales.Calls.Mp3Bound
import FoundingSales.Meetings.BookingChains
import FoundingSales.Crm.ImportCsv
import FoundingSales.Crm.ImportedFiles
import FoundingSales.Crm.ImportCommits
import FoundingSales.Crm.ImportClassification
import FoundingSales.Crm.ImportedRoutes
import FoundingSales.Rules.CanonicalHandles
import FoundingSales.Outreach.BuiltCadence
import FoundingSales.Sequences.AgreedExpiry
import FoundingSales.Outbound.IncidentEvidence
import FoundingSales.Outbound.IncidentPairing
import FoundingSales.Outbound.ProviderIncidents
import FoundingSales.Sequences.FrozenPlans
import FoundingSales.Sequences.PlanChanges
import FoundingSales.Sequences.Definitions
import FoundingSales.Library.Locking
import FoundingSales.Suppression.ReplayAccounting
import FoundingSales.Library.Placement
import FoundingSales.Suppression.Replay
import FoundingSales.Suppression.ReplaySelection
import FoundingSales.Rules.TemplateApproval
import FoundingSales.Rules.ComposedBodies
import FoundingSales.Contracts.LocalClock
import FoundingSales.Library.Calendar
import FoundingSales.Rules.HoldComposition
import FoundingSales.Library.Spans
import FoundingSales.Outbound.SweepSchedule
import FoundingSales.Mail.MessageReplays
import FoundingSales.Mail.EffectWrites
import FoundingSales.Mail.SettledEffects
import FoundingSales.Mail.Effects
import FoundingSales.Library.Replays
import FoundingSales.Mail.Ambiguity
import FoundingSales.Mail.Matches
import FoundingSales.Crm.PipelineHistory
import FoundingSales.Crm.Pipeline
import FoundingSales.Auth.SignOut
import FoundingSales.Auth.Sessions
import FoundingSales.Mail.CursorSafety
import FoundingSales.Mail.SyncMoves
import FoundingSales.Mail.WholeRecords
import FoundingSales.Mail.Sync
import FoundingSales.Mail.Mailboxes
import FoundingSales.Mail.Pipeline
import FoundingSales.Mail.Gmail
import FoundingSales.Library.Feeds
import FoundingSales.Sequences.Starvation
import FoundingSales.Meetings.Convergence
import FoundingSales.Meetings.Confirmations
import FoundingSales.Research.Clearances
import FoundingSales.Research.CashCeiling
import FoundingSales.Mail.RearmedPayloads
import FoundingSales.Library.Decimals
import FoundingSales.Mail.Coalesce
import FoundingSales.Jobs.ChunkBudget
import FoundingSales.Jobs.Runner
import FoundingSales.Research.Balance
import FoundingSales.Research.Ledger
import FoundingSales.Research.Reservations
import FoundingSales.Sequences.SuppressionStops
import FoundingSales.Sequences.DrainedOnce
import FoundingSales.Sequences.TerminalStops
import FoundingSales.Library.Keysets
import FoundingSales.Sequences.Enrollments
import FoundingSales.Suppression.MergesCommute
import FoundingSales.Suppression.Corrections
import FoundingSales.Suppression.History
import FoundingSales.Crm.MergeCopies
import FoundingSales.Suppression.EventLog
import FoundingSales.Suppression.Lineage
import FoundingSales.Library.Links
import FoundingSales.Crm.Merges
import FoundingSales.Suppression.Events
import FoundingSales.Suppression.Journal
import FoundingSales.Crm.Firms
import FoundingSales.Rules.SuppressionCanonicalization
import FoundingSales.Rules.Holds
import FoundingSales.Outbound.SpendOrder
import FoundingSales.Outbound.PermissionSpend
import FoundingSales.Outbound.ClaimedCount
import FoundingSales.Outbound.DailyCap
import FoundingSales.Outbound.CapacityPrograms
import FoundingSales.Sequences.FollowUpPermissions
import FoundingSales.Outbound.CapacityCommits
import FoundingSales.Outbound.Capacity
import FoundingSales.Library.Transactions
import FoundingSales.Outbound.RampBookkeeping
import FoundingSales.Outbound.Recovery
import FoundingSales.Outbound.Ramp
import FoundingSales.Jobs.Attempts
import FoundingSales.Jobs.Fencing
import FoundingSales.Jobs.JobMoves
import FoundingSales.Jobs.JobStore
import FoundingSales.Library.Leases
import FoundingSales.Outbound.MessageId
import FoundingSales.Outbound.LedgerCompleteness
import FoundingSales.Library.Ledgers
import FoundingSales.Outbound.AtMostOnce
import FoundingSales.Outbound.FenceInvariant
import FoundingSales.Outbound.ProcessMoves
import FoundingSales.Outbound.FenceMoves
import FoundingSales.Outbound.Reconcile
import FoundingSales.Outbound.Send
import FoundingSales.Outbound.Fence
import FoundingSales.Outbound.FenceStore
import FoundingSales.Outbound.FenceRow
import FoundingSales.Outbound.Types
import FoundingSales.Rules.FooterComposition
import FoundingSales.Rules.TemplateFooter
import FoundingSales.Contracts.Templates
import FoundingSales.Library.Processes
import FoundingSales.Library.Runs
import FoundingSales.Library.Tables
import FoundingSales.Library.Texts
