import Minisqlite.Agreement
import Minisqlite.Attempts
import Minisqlite.Backups
import Minisqlite.Bounds
import Minisqlite.Bytes
import Minisqlite.Claims
import Minisqlite.Cli
import Minisqlite.Concurrency
import Minisqlite.Digest
import Minisqlite.Draining
import Minisqlite.Effects.Batch
import Minisqlite.Effects.Claim
import Minisqlite.Effects.ClaimRows
import Minisqlite.Effects.Operation
import Minisqlite.Effects.Total
import Minisqlite.EventLog
import Minisqlite.EventReads
import Minisqlite.Expiry
import Minisqlite.Export
import Minisqlite.Fairness
import Minisqlite.Hashing
import Minisqlite.HexCodecs
import Minisqlite.Isolation
import Minisqlite.JobColumns
import Minisqlite.JobPaging
import Minisqlite.JobRows
import Minisqlite.Journal
import Minisqlite.JsonLines
import Minisqlite.Leases
import Minisqlite.Lib.Blocks
import Minisqlite.Lib.Fips180
import Minisqlite.Lib.Hexadecimal
import Minisqlite.Lib.Json
import Minisqlite.Lib.KeyMap
import Minisqlite.Lib.Keyset
import Minisqlite.Lib.Line
import Minisqlite.Lib.Lockstep
import Minisqlite.Lib.Machine
import Minisqlite.Lib.Paging
import Minisqlite.Lib.PlainText
import Minisqlite.Lib.PrefixCode
import Minisqlite.Lib.Prefixes
import Minisqlite.Lib.RoundRobin
import Minisqlite.Lib.Segments
import Minisqlite.Lib.Serial
import Minisqlite.Lib.Sql.Encoded
import Minisqlite.Lib.Sql.Rebuild
import Minisqlite.Lib.Sql.Select
import Minisqlite.Lib.Sql.Statements
import Minisqlite.Lib.Sql.Values
import Minisqlite.Lib.Sql.Writes
import Minisqlite.Lib.Stops
import Minisqlite.Lib.Table
import Minisqlite.Lib.Threads
import Minisqlite.Lib.Volume
import Minisqlite.Lib.Waiting
import Minisqlite.Lifecycle
import Minisqlite.Listing
import Minisqlite.Migration
import Minisqlite.Optimistic
import Minisqlite.Parking
import Minisqlite.PartitionIndex
import Minisqlite.Partitions
import Minisqlite.Patches
import Minisqlite.Persistence
import Minisqlite.Progress
import Minisqlite.Projections
import Minisqlite.Receipts
import Minisqlite.Reconciliation
import Minisqlite.Redaction
import Minisqlite.References
import Minisqlite.Rejections
import Minisqlite.Resolution
import Minisqlite.Scans
import Minisqlite.Scheduler
import Minisqlite.Schema
import Minisqlite.Sequential
import Minisqlite.Sha256
import Minisqlite.Statements
import Minisqlite.Statements.Batch
import Minisqlite.Statements.Claim
import Minisqlite.Statements.Jobs
import Minisqlite.Statements.Rows
import Minisqlite.Store.Backup
import Minisqlite.Store.Claim
import Minisqlite.Store.Commit
import Minisqlite.Store.ControlPlane
import Minisqlite.Store.DataReads
import Minisqlite.Store.Events
import Minisqlite.Store.Export
import Minisqlite.Store.Handles
import Minisqlite.Store.JobReads
import Minisqlite.Store.Jobs
import Minisqlite.Store.Migrate
import Minisqlite.Store.Projections
import Minisqlite.Store.TableReads
import Minisqlite.Store.TableWrites
import Minisqlite.Store.Tables
import Minisqlite.Store.Upgrade
import Minisqlite.Store.Verify
import Minisqlite.Streams
import Minisqlite.Tailing
import Minisqlite.Transactions
import Minisqlite.Types
import Minisqlite.Uncertainty
import Minisqlite.Upgrade
import Minisqlite.Validate
import Minisqlite.Verification
