import OtelSqlite.Auth.Acceptance
import OtelSqlite.Auth.Background
import OtelSqlite.Auth.GracePeriod
import OtelSqlite.Auth.Linearization
import OtelSqlite.Auth.Revocation
import OtelSqlite.Auth.Rotation
import OtelSqlite.Auth.SingleFlight
import OtelSqlite.Auth.Threads
import OtelSqlite.Auth.TokenFile
import OtelSqlite.Auth.Vault
import OtelSqlite.Backup.Artifacts
import OtelSqlite.Backup.Container
import OtelSqlite.Backup.Decoding
import OtelSqlite.Backup.Effects
import OtelSqlite.Backup.Framing
import OtelSqlite.Backup.ImmutableUri
import OtelSqlite.Backup.Leftovers
import OtelSqlite.Backup.Naming
import OtelSqlite.Backup.Nonces
import OtelSqlite.Backup.Restore
import OtelSqlite.Backup.RetentionOrder
import OtelSqlite.Backup.RoundTrip
import OtelSqlite.Backup.RunBackup
import OtelSqlite.Backup.Snapshot
import OtelSqlite.Backup.Stream
import OtelSqlite.Backup.Tampering
import OtelSqlite.Backup.Truncation
import OtelSqlite.Backup.UtcTimestamp
import OtelSqlite.Core.Batcher
import OtelSqlite.Core.BatcherRuns
import OtelSqlite.Core.Command
import OtelSqlite.Core.Commit
import OtelSqlite.Core.CommitHistory
import OtelSqlite.Core.CommitOrder
import OtelSqlite.Core.CommitPublish
import OtelSqlite.Core.CommitState
import OtelSqlite.Core.LedgerStates
import OtelSqlite.Frontend.Budgets
import OtelSqlite.Frontend.Export
import OtelSqlite.Frontend.Requests
import OtelSqlite.Frontend.Responses
import OtelSqlite.Ingress.Admission
import OtelSqlite.Ingress.AdmissionInvariant
import OtelSqlite.Ingress.AllOrNothing
import OtelSqlite.Ingress.Effects
import OtelSqlite.Ingress.EnqueueAccounting
import OtelSqlite.Ingress.Finish
import OtelSqlite.Lib.Calendar
import OtelSqlite.Lib.Completion
import OtelSqlite.Lib.Contiguous
import OtelSqlite.Lib.Disk
import OtelSqlite.Lib.Fallible
import OtelSqlite.Lib.History
import OtelSqlite.Lib.Json
import OtelSqlite.Lib.LengthPrefix
import OtelSqlite.Lib.Logged
import OtelSqlite.Lib.Numerals
import OtelSqlite.Lib.Percent
import OtelSqlite.Lib.Permits
import OtelSqlite.Lib.Publication
import OtelSqlite.Lib.Run
import OtelSqlite.Lib.Sequence
import OtelSqlite.Lib.StackWalk
import OtelSqlite.Lib.Table
import OtelSqlite.Lib.Threads
import OtelSqlite.Lib.Trace
import OtelSqlite.Lib.Writes
import OtelSqlite.Mapping.Accepted
import OtelSqlite.Mapping.Common
import OtelSqlite.Mapping.Expansion
import OtelSqlite.Mapping.Logs
import OtelSqlite.Mapping.Otlp
import OtelSqlite.Mapping.ScopeSizes
import OtelSqlite.Mapping.Values
import OtelSqlite.Model.Attribute
import OtelSqlite.Model.Canonical
import OtelSqlite.Model.LastWins
import OtelSqlite.Model.Log
import OtelSqlite.Model.Scalars
import OtelSqlite.Pipeline.Accounts
import OtelSqlite.Pipeline.Answers
import OtelSqlite.Pipeline.BatcherSteps
import OtelSqlite.Pipeline.Drain
import OtelSqlite.Pipeline.DurableAcks
import OtelSqlite.Pipeline.Graceful
import OtelSqlite.Pipeline.IngressSteps
import OtelSqlite.Pipeline.Invariant
import OtelSqlite.Pipeline.Issued
import OtelSqlite.Pipeline.Quiet
import OtelSqlite.Pipeline.Steps
import OtelSqlite.Pipeline.System
import OtelSqlite.Pipeline.Tables
import OtelSqlite.Pipeline.WriterSteps
import OtelSqlite.Runtime.AckStall
import OtelSqlite.Runtime.Acts
import OtelSqlite.Runtime.Evidence
import OtelSqlite.Runtime.FrozenPipeline
import OtelSqlite.Runtime.Intervals
import OtelSqlite.Runtime.Process
import OtelSqlite.Runtime.Scheduler
import OtelSqlite.Runtime.StallRule
import OtelSqlite.Runtime.Teardown
import OtelSqlite.Runtime.Threads
import OtelSqlite.Runtime.Watchdog
import OtelSqlite.Sqlite.Consistency
import OtelSqlite.Sqlite.Dedup
import OtelSqlite.Sqlite.Eviction
import OtelSqlite.Sqlite.Identity
import OtelSqlite.Sqlite.Insert
import OtelSqlite.Sqlite.Maintenance
import OtelSqlite.Sqlite.Migration
import OtelSqlite.Sqlite.MigrationRuns
import OtelSqlite.Sqlite.QuotaOrder
import OtelSqlite.Sqlite.ResourceJson
import OtelSqlite.Sqlite.Resume
import OtelSqlite.Sqlite.Retention
import OtelSqlite.Sqlite.Schema
import OtelSqlite.Sqlite.WriterEvidence
import OtelSqlite.Sqlite.WriterLoop
import OtelSqlite.Sqlite.WriterRefinement
import OtelSqlite.Storage.Accounting
import OtelSqlite.Storage.BatchAge
import OtelSqlite.Storage.BatchRows
import OtelSqlite.Storage.BatchRuns
import OtelSqlite.Storage.BatcherLoop
import OtelSqlite.Storage.BatcherThread
import OtelSqlite.Storage.Books
import OtelSqlite.Storage.CarriedTickets
import OtelSqlite.Storage.ExpiryOrder
import OtelSqlite.Storage.FlushBarrier
import OtelSqlite.Storage.Line
import OtelSqlite.Storage.LineAccounting
import OtelSqlite.Storage.LostRecords
import OtelSqlite.Storage.OriginBuffers
import OtelSqlite.Storage.OriginConservation
import OtelSqlite.Storage.Persist
import OtelSqlite.Storage.Provenance
import OtelSqlite.Storage.Session
import OtelSqlite.Storage.Settle
import OtelSqlite.Storage.SettlementPaths
import OtelSqlite.Storage.Stats
import OtelSqlite.Storage.TicketAccounting
import OtelSqlite.Storage.TicketIsolation
import OtelSqlite.Storage.TicketSegments
import OtelSqlite.Storage.WrittenCounters
