import Minisqlite.Store.ControlPlane
import Minisqlite.Store.Migrate

/-!
# Verification

`verify` and `semantic_checks` of `store/ops.rs`. Every check over the tables is
one query: the rows of a table that are bad, each with its finding. No read
transaction is held around the checks, so each query reads the state that is
committed when it runs.

What SQLite itself answers is a parameter: the rows of `PRAGMA integrity_check` and the
rowids in the findings of `PRAGMA foreign_key_check`. The report on the migrations is what
`Migrations.status` has returned.
-/

namespace Minisqlite

open Tables
open Migrations (MigrationStatus)

/-- `VerifyFinding`. -/
structure VerifyFinding where
  check : String
  detail : String
deriving DecidableEq

/-- `VerifyReport`. -/
structure VerifyReport where
  findings : List VerifyFinding
deriving DecidableEq

/-- `VerifyReport::is_ok`. -/
def VerifyReport.isOk (report : VerifyReport) : Bool := report.findings.isEmpty

/-- The rowids that SQLite gives the rows of tables without an INTEGER PRIMARY KEY. -/
structure Rowids where
  job : JobRow → Option Int64
  entry : ProjectionEntryRow → Option Int64
  receipt : ClaimReceiptRow → Option Int64

/-- The queries of the checks over the tables. -/
inductive VerifyQuery
  | foreignKeyCheck
  | streamVersions
  | eventStreams
  | terminalJobs
  | activePartitions
  | leasedJobs
  | receiptJobs
  | receiptTransactions

/-- `SELECT … WHERE bad`, and a finding for each row. -/
def findingsOf {ρ : Type} (rows : List ρ) (bad : ρ → Bool) (finding : ρ → VerifyFinding) :
    List VerifyFinding :=
  (rows.filter bad).map finding

theorem findingsOf_eq_nil {ρ : Type} {rows : List ρ} {bad : ρ → Bool}
    {finding : ρ → VerifyFinding} :
    findingsOf rows bad finding = [] ↔ ∀ row ∈ rows, bad row = false := by
  simp [findingsOf]

/-! ## The checks -/

/-- One row of `PRAGMA foreign_key_check`. -/
def foreignKeyFinding (table : String) (rowid : Option Int64) (parent : String) : VerifyFinding :=
  let rowid := (rowid.map toString).getD "?"
  ⟨"foreign_key_check", s!"table {table} rowid {rowid} references missing row in {parent}"⟩

/-- `PRAGMA foreign_key_check`; the order of the tables is SQLite's. -/
def foreignKeyFindings (rowids : Rowids) (db : Db) : List VerifyFinding :=
  findingsOf db.events.rows (fun row => (db.requireTransaction row.transactionId).isNone)
    (fun row => foreignKeyFinding "events" (some row.globalSequence) "transactions") ++
  findingsOf db.projectionEntries.rows (fun row => (db.requireProjection row.projection).isNone)
    (fun row => foreignKeyFinding "projection_entries" (rowids.entry row) "projection_meta") ++
  findingsOf db.jobs.rows (fun job => (db.requireTransaction job.enqueueTransactionId).isNone)
    (fun job => foreignKeyFinding "jobs" (rowids.job job) "transactions") ++
  findingsOf db.claimReceipts.rows (fun row => (db.requireTransaction row.transactionId).isNone)
    (fun row => foreignKeyFinding "claim_receipts" (rowids.receipt row) "transactions")

/-- `COALESCE(MAX(e.stream_version), 0)` over the events of the stream. -/
def Db.maxVersion (db : Db) (streamId : String) : Int64 :=
  ((db.events.rows.filter fun row => decide (row.event.streamId = streamId)).map
    EventRow.streamVersion).max?.getD 0

def streamVersionFindings (db : Db) : List VerifyFinding :=
  findingsOf db.streams.rows (fun row => decide (row.currentVersion ≠ db.maxVersion row.streamId))
    fun row =>
      let streamId := row.streamId
      let current := row.currentVersion
      let max := db.maxVersion streamId
      ⟨"stream_versions",
        s!"stream {streamId} current_version {current} != max event version {max}"⟩

/-- `SELECT DISTINCT e.stream_id` of the events whose stream has no row. -/
def eventStreamFindings (db : Db) : List VerifyFinding :=
  findingsOf (db.events.rows.map fun row => row.event.streamId).dedup
    (fun streamId => (db.streams.lookup StreamRow.streamId streamId).isNone)
    fun streamId => ⟨"stream_versions", s!"stream {streamId} has events but no streams row"⟩

def terminalJobFindings (db : Db) : List VerifyFinding :=
  findingsOf db.jobs.rows
    (fun job => job.state.isTerminal &&
      (job.leaseToken.isSome || job.workerId.isSome || job.leaseExpiresAtMs.isSome))
    fun job =>
      let jobId := job.spec.jobId
      ⟨"terminal_jobs", s!"terminal job {jobId} still has lease fields"⟩

def activePartitionFindings (db : Db) : List VerifyFinding :=
  findingsOf db.activePartitions.rows
    (fun row => !db.jobs.rows.any (JobRow.activeIn row.queue row.partitionKey))
    fun row =>
      let queue := row.queue
      let partition := row.partitionKey
      ⟨"active_partitions", s!"partition {queue}/{partition} is active but has no nonterminal jobs"⟩

def leasedJobFindings (db : Db) : List VerifyFinding :=
  findingsOf db.jobs.rows
    (fun job => decide (job.state = .leased) &&
      (job.leaseToken.isNone || job.workerId.isNone || job.leaseExpiresAtMs.isNone))
    fun job =>
      let jobId := job.spec.jobId
      ⟨"leased_jobs", s!"leased job {jobId} is missing lease fields"⟩

def receiptJobFindings (db : Db) : List VerifyFinding :=
  findingsOf db.claimReceipts.rows (fun row => (db.job row.jobId).isNone)
    fun row =>
      let transactionId := row.transactionId
      let jobId := row.jobId
      ⟨"claim_receipts",
        s!"claim receipt in transaction {transactionId} references missing job {jobId}"⟩

def receiptTransactionFindings (db : Db) : List VerifyFinding :=
  findingsOf db.claimReceipts.rows (fun row => (db.transaction row.transactionId).isNone)
    fun row =>
      let transactionId := row.transactionId
      let jobId := row.jobId
      ⟨"claim_receipts",
        s!"claim receipt for job {jobId} references missing transaction {transactionId}"⟩

/-- What a query finds in the state that it reads. -/
def VerifyQuery.findings (rowids : Rowids) (db : Db) : VerifyQuery → List VerifyFinding
  | .foreignKeyCheck => foreignKeyFindings rowids db
  | .streamVersions => streamVersionFindings db
  | .eventStreams => eventStreamFindings db
  | .terminalJobs => terminalJobFindings db
  | .activePartitions => activePartitionFindings db
  | .leasedJobs => leasedJobFindings db
  | .receiptJobs => receiptJobFindings db
  | .receiptTransactions => receiptTransactionFindings db

/-- `PRAGMA integrity_check`: every row but "ok". -/
def integrityFindings (integrity : List String) : List VerifyFinding :=
  findingsOf integrity (fun detail => decide (detail ≠ "ok")) fun detail =>
    ⟨"integrity_check", detail⟩

/-- The migrations whose checksum is not this build's. -/
def checksumFindings (check : String) (statuses : List MigrationStatus) : List VerifyFinding :=
  findingsOf statuses (fun status => !status.checksumOk) fun status =>
    let version := status.version
    ⟨check, s!"migration {version} checksum mismatch"⟩

def migrationFindings (statuses : List MigrationStatus) : List VerifyFinding :=
  (if statuses = [] then [⟨"migrations", "no migrations applied"⟩] else []) ++
    checksumFindings "migrations" statuses

/-- `semantic_checks`. -/
def semanticFindings (statuses : List MigrationStatus) (rowids : Rowids) (read : VerifyQuery → Db) :
    List VerifyFinding :=
  let run (query : VerifyQuery) : List VerifyFinding := query.findings rowids (read query)
  run .streamVersions ++ run .eventStreams ++ run .terminalJobs ++ run .activePartitions ++
    checksumFindings "migration_checksums" statuses ++
    run .leasedJobs ++ run .receiptJobs ++ run .receiptTransactions

/-- `verify`; `read` is the committed state that each of its queries sees. -/
def verify (integrity : List String) (statuses : List MigrationStatus) (rowids : Rowids)
    (read : VerifyQuery → Db) : VerifyReport where
  findings := integrityFindings integrity ++
    VerifyQuery.findings rowids (read .foreignKeyCheck) .foreignKeyCheck ++
    migrationFindings statuses ++ semanticFindings statuses rowids read

end Minisqlite
