import Minisqlite.Lib.Sql.Rebuild
import Minisqlite.Store.Migrate
import Minisqlite.Validate

/-!
# The migrations as statements

The SQL of `MIGRATIONS` once more, as the statements that it consists of, and
`StoreBuilder::open`, which runs them. What becomes of an entry of `projection_entries`
when its parent is deleted is left out: no statement here deletes a row.
-/

namespace Minisqlite.Migrations

open Sql

/-! ## Columns -/

def textColumn (name : String) : Column := ⟨name, .text, false⟩

def integerColumn (name : String) : Column := ⟨name, .integer, false⟩

def blobColumn (name : String) : Column := ⟨name, .blob, false⟩

/-- `NOT NULL`. -/
def required (column : Column) : Column := { column with notNull := true }

/-- `column REFERENCES parent(parentColumn)`. -/
def references (column parent parentColumn : String) : ForeignKey :=
  ⟨[column], parent, [parentColumn]⟩

/-! ## Version 1 -/

def transactionsTable : TableDef where
  columns := [blobColumn "transaction_id", required (integerColumn "transaction_sequence"),
    required (integerColumn "committed_at_ms"), blobColumn "correlation_id",
    required (blobColumn "metadata"), required (blobColumn "request_digest"),
    required (integerColumn "operation_count")]
  keys := [["transaction_id"], ["transaction_sequence"]]
  checks := []
  foreignKeys := []

/-- The INTEGER PRIMARY KEY is the rowid, which is never NULL. -/
def eventsTable : TableDef where
  columns := [required (integerColumn "global_sequence"), required (blobColumn "event_id"),
    required (blobColumn "transaction_id"), required (textColumn "stream_id"),
    required (integerColumn "stream_version"), required (textColumn "event_type"),
    required (integerColumn "schema_version"), required (integerColumn "occurred_at_ms"),
    blobColumn "causation_id", blobColumn "correlation_id", required (blobColumn "payload"),
    required (blobColumn "metadata")]
  keys := [["global_sequence"], ["event_id"], ["stream_id", "stream_version"]]
  checks := []
  foreignKeys := [references "transaction_id" "transactions" "transaction_id"]

def streamsTable : TableDef where
  columns := [textColumn "stream_id", required (integerColumn "current_version")]
  keys := [["stream_id"]]
  checks := []
  foreignKeys := []

def projectionMetaTable : TableDef where
  columns := [textColumn "projection", required (integerColumn "version")]
  keys := [["projection"]]
  checks := []
  foreignKeys := []

def projectionEntriesTable : TableDef where
  columns := [required (textColumn "projection"), required (blobColumn "key"),
    required (blobColumn "value")]
  keys := [["projection", "key"]]
  checks := []
  foreignKeys := [references "projection" "projection_meta" "projection"]

def jobsTable : TableDef where
  columns := [blobColumn "job_id", required (integerColumn "enqueue_sequence"),
    required (blobColumn "enqueue_transaction_id"), required (textColumn "queue"),
    required (textColumn "partition_key"), required (blobColumn "payload"),
    required (integerColumn "not_before_ms"), required (integerColumn "max_attempts"),
    required (integerColumn "effect_mode"), textColumn "idempotency_key",
    required (integerColumn "state"), required (integerColumn "attempt"),
    blobColumn "lease_token", textColumn "worker_id", integerColumn "lease_expires_at_ms",
    integerColumn "retry_after_ms", integerColumn "terminal_at_ms", blobColumn "result_digest",
    textColumn "error_summary", required (blobColumn "updated_transaction_id")]
  keys := [["job_id"], ["enqueue_sequence"]]
  checks := []
  foreignKeys := [references "enqueue_transaction_id" "transactions" "transaction_id"]

def queueCursorsTable : TableDef where
  columns := [textColumn "queue", textColumn "last_partition_key"]
  keys := [["queue"]]
  checks := []
  foreignKeys := []

def activePartitionsTable : TableDef where
  columns := [required (textColumn "queue"), required (textColumn "partition_key"),
    required (integerColumn "first_active_sequence")]
  keys := [["queue", "partition_key"]]
  checks := []
  foreignKeys := []

def claimReceiptsTable : TableDef where
  columns := [required (blobColumn "transaction_id"), required (blobColumn "job_id"),
    required (blobColumn "lease_token"), required (integerColumn "attempt"),
    required (textColumn "worker_id"), required (integerColumn "lease_expires_at_ms")]
  keys := [["transaction_id", "job_id"]]
  checks := []
  foreignKeys := [references "transaction_id" "transactions" "transaction_id"]

/-- The SQL of the first migration. -/
def initial : List Sql.Statement :=
  [.createTable "transactions" transactionsTable,
    .createTable "events" eventsTable,
    .createIndex ⟨"events_stream_idx", "events", ["stream_id", "stream_version"]⟩,
    .createIndex ⟨"events_transaction_idx", "events", ["transaction_id"]⟩,
    .createTable "streams" streamsTable,
    .createTable "projection_meta" projectionMetaTable,
    .createTable "projection_entries" projectionEntriesTable,
    .createTable "jobs" jobsTable,
    .createIndex ⟨"jobs_ready_idx", "jobs",
      ["queue", "partition_key", "state", "not_before_ms", "enqueue_sequence"]⟩,
    .createIndex ⟨"jobs_expiry_idx", "jobs", ["state", "lease_expires_at_ms"]⟩,
    .createIndex ⟨"jobs_queue_state_idx", "jobs", ["queue", "state"]⟩,
    .createIndex ⟨"jobs_transaction_idx", "jobs", ["updated_transaction_id"]⟩,
    .createTable "queue_cursors" queueCursorsTable,
    .createTable "active_partitions" activePartitionsTable,
    .createTable "claim_receipts" claimReceiptsTable]

/-! ## Version 2 -/

def column (name : String) : Term := .column name

def int (n : Int64) : Term := .value (.integer n)

/-- The CHECKs of the job state machine. -/
def jobChecks : List Condition :=
  [.compare .gt (column "max_attempts") (int 0),
    .between (column "state") (int 0) (int 6),
    .compare .ge (column "attempt") (int 0),
    .or (.ne (column "state") (int 1))
      (.and (.and (.notNull (column "lease_token")) (.notNull (column "worker_id")))
        (.notNull (column "lease_expires_at_ms"))),
    .or (.compare .eq (column "state") (int 1))
      (.and (.and (.isNull (column "lease_token")) (.isNull (column "worker_id")))
        (.isNull (column "lease_expires_at_ms"))),
    .or (.ne (column "state") (int 2)) (.notNull (column "retry_after_ms")),
    .iff (.isIn (column "state") (.integer 4) [.integer 5, .integer 6])
      (.notNull (column "terminal_at_ms"))]

def jobsV2Table : TableDef where
  columns := [blobColumn "job_id", required (integerColumn "enqueue_sequence"),
    required (blobColumn "enqueue_transaction_id"), required (textColumn "queue"),
    required (textColumn "partition_key"), required (blobColumn "payload"),
    required (integerColumn "not_before_ms"), required (integerColumn "max_attempts"),
    required (integerColumn "effect_mode"), textColumn "idempotency_key",
    required (integerColumn "state"), required (integerColumn "attempt"),
    blobColumn "lease_token", textColumn "worker_id", integerColumn "lease_expires_at_ms",
    integerColumn "retry_after_ms", integerColumn "terminal_at_ms", blobColumn "result_digest",
    textColumn "error_summary", required (blobColumn "updated_transaction_id")]
  keys := [["job_id"], ["enqueue_sequence"]]
  checks := jobChecks
  foreignKeys := [references "enqueue_transaction_id" "transactions" "transaction_id"]

/-- The SQL of the second migration. -/
def upgrade : List Sql.Statement :=
  [.createTable "jobs_v2" jobsV2Table,
    .insertAll "jobs_v2" "jobs",
    .dropTable "jobs",
    .renameTable "jobs_v2" "jobs",
    .createIndex ⟨"jobs_ready_idx", "jobs",
      ["queue", "partition_key", "state", "not_before_ms", "enqueue_sequence"]⟩,
    .createIndex ⟨"jobs_expiry_idx", "jobs", ["state", "lease_expires_at_ms"]⟩,
    .createIndex ⟨"jobs_queue_state_idx", "jobs", ["queue", "state"]⟩,
    .createIndex ⟨"jobs_transaction_idx", "jobs", ["updated_transaction_id"]⟩]

/-! ## Opening a store -/

/-- The migration to version 1, and the one to version 2. -/
def toVersionOne : Migration := migrations[0]

def toVersionTwo : Migration := migrations[1]

/-- What SQLite makes of the two texts, for some `coerce` of its. -/
def executeBatch (coerce : Affinity → Value → Value) (sql : String) (db : Sql.Database) :
    Except String Sql.Database :=
  if sql = toVersionTwo.sql then execBatch coerce upgrade db
  else if sql = toVersionOne.sql then execBatch coerce initial db
  else .error "no migration"

/-- Why a store is not opened. -/
inductive OpenStop
  | validation (error : ValidationError)
  | stop (stop : Stop)
deriving DecidableEq

/-- `StoreBuilder::open`, on the database at the path. `connect` is the outcome of
`connection::open`, whose pragmas change no table. -/
def openStore (coerce : Affinity → Value → Value) (limits : Limits) (connect : Except Stop Unit)
    (env : Environment) (db : Database Sql.Database) :
    Except OpenStop Unit × Database Sql.Database :=
  match limits.validate, connect with
  | .error e, _ => (.error (.validation e), db)
  | .ok _, .error stop => (.error (.stop stop), db)
  | .ok _, .ok _ =>
    let (result, session) :=
      Stops.exec (migrate (executeBatch coerce) env migrations) ⟨db, []⟩
    (result.mapError .stop, session.db)

end Minisqlite.Migrations
