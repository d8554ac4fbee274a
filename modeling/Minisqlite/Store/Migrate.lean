import Minisqlite.Lib.Stops
import Minisqlite.Store.Claim

/-!
# Migrations

`store/migrations.rs`: `migrate` with the list of migrations as a parameter, and the
two functions that only look, `require_current` and `status`.

What is not SQL of this module is a parameter too. `executeBatch` is what SQLite makes
of the SQL of a migration, or its error. The `Environment` decides how each call
of SQLite ends: it may fail or the process may die in it, and a change that was on its
way to the disk may have arrived or not. What a transaction has done before its
COMMIT is never on disk.
-/

namespace Minisqlite.Migrations

open Tables Runs

/-! ## The database file -/

structure Migration where
  version : UInt32
  sql : String
deriving DecidableEq

/-- `MIGRATIONS`. The second rebuilds `jobs` with the CHECKs of the job state machine. -/
def migrations : List Migration :=
  [⟨1,
      "CREATE TABLE transactions (transaction_id BLOB PRIMARY KEY, transaction_sequence " ++
      "INTEGER NOT NULL UNIQUE, committed_at_ms INTEGER NOT NULL, correlation_id BLOB, " ++
      "metadata BLOB NOT NULL, request_digest BLOB NOT NULL, operation_count INTEGER NOT " ++
      "NULL);\n" ++
      "CREATE TABLE events (global_sequence INTEGER PRIMARY KEY AUTOINCREMENT, event_id " ++
      "BLOB NOT NULL UNIQUE, transaction_id BLOB NOT NULL REFERENCES " ++
      "transactions(transaction_id), stream_id TEXT NOT NULL, stream_version INTEGER NOT " ++
      "NULL, event_type TEXT NOT NULL, schema_version INTEGER NOT NULL, occurred_at_ms " ++
      "INTEGER NOT NULL, causation_id BLOB, correlation_id BLOB, payload BLOB NOT NULL, " ++
      "metadata BLOB NOT NULL, UNIQUE(stream_id, stream_version));\n" ++
      "CREATE INDEX events_stream_idx ON events(stream_id, stream_version);\n" ++
      "CREATE INDEX events_transaction_idx ON events(transaction_id);\n" ++
      "CREATE TABLE streams (stream_id TEXT PRIMARY KEY, current_version INTEGER NOT NULL);\n" ++
      "CREATE TABLE projection_meta (projection TEXT PRIMARY KEY, version INTEGER NOT " ++
      "NULL);\n" ++
      "CREATE TABLE projection_entries (projection TEXT NOT NULL REFERENCES " ++
      "projection_meta(projection) ON DELETE CASCADE, key BLOB NOT NULL, value BLOB NOT " ++
      "NULL, PRIMARY KEY(projection, key));\n" ++
      "CREATE TABLE jobs (job_id BLOB PRIMARY KEY, enqueue_sequence INTEGER NOT NULL " ++
      "UNIQUE, enqueue_transaction_id BLOB NOT NULL REFERENCES " ++
      "transactions(transaction_id), queue TEXT NOT NULL, partition_key TEXT NOT NULL, " ++
      "payload BLOB NOT NULL, not_before_ms INTEGER NOT NULL, max_attempts INTEGER NOT " ++
      "NULL, effect_mode INTEGER NOT NULL, idempotency_key TEXT, state INTEGER NOT NULL, " ++
      "attempt INTEGER NOT NULL, lease_token BLOB, worker_id TEXT, lease_expires_at_ms " ++
      "INTEGER, retry_after_ms INTEGER, terminal_at_ms INTEGER, result_digest BLOB, " ++
      "error_summary TEXT, updated_transaction_id BLOB NOT NULL);\n" ++
      "CREATE INDEX jobs_ready_idx ON jobs(queue, partition_key, state, not_before_ms, " ++
      "enqueue_sequence);\n" ++
      "CREATE INDEX jobs_expiry_idx ON jobs(state, lease_expires_at_ms);\n" ++
      "CREATE INDEX jobs_queue_state_idx ON jobs(queue, state);\n" ++
      "CREATE INDEX jobs_transaction_idx ON jobs(updated_transaction_id);\n" ++
      "CREATE TABLE queue_cursors (queue TEXT PRIMARY KEY, last_partition_key TEXT);\n" ++
      "CREATE TABLE active_partitions (queue TEXT NOT NULL, partition_key TEXT NOT NULL, " ++
      "first_active_sequence INTEGER NOT NULL, PRIMARY KEY(queue, partition_key));\n" ++
      "CREATE TABLE claim_receipts (transaction_id BLOB NOT NULL REFERENCES " ++
      "transactions(transaction_id), job_id BLOB NOT NULL, lease_token BLOB NOT NULL, " ++
      "attempt INTEGER NOT NULL, worker_id TEXT NOT NULL, lease_expires_at_ms INTEGER NOT " ++
      "NULL, PRIMARY KEY(transaction_id, job_id));\n"⟩,
    ⟨2,
      "CREATE TABLE jobs_v2 (job_id BLOB PRIMARY KEY, enqueue_sequence INTEGER NOT NULL " ++
      "UNIQUE, enqueue_transaction_id BLOB NOT NULL REFERENCES " ++
      "transactions(transaction_id), queue TEXT NOT NULL, partition_key TEXT NOT NULL, " ++
      "payload BLOB NOT NULL, not_before_ms INTEGER NOT NULL, max_attempts INTEGER NOT " ++
      "NULL CHECK (max_attempts > 0), effect_mode INTEGER NOT NULL, idempotency_key TEXT, " ++
      "state INTEGER NOT NULL CHECK (state BETWEEN 0 AND 6), attempt INTEGER NOT NULL " ++
      "CHECK (attempt >= 0), lease_token BLOB, worker_id TEXT, lease_expires_at_ms " ++
      "INTEGER, retry_after_ms INTEGER, terminal_at_ms INTEGER, result_digest BLOB, " ++
      "error_summary TEXT, updated_transaction_id BLOB NOT NULL, CHECK (state <> 1 OR " ++
      "(lease_token IS NOT NULL AND worker_id IS NOT NULL AND lease_expires_at_ms IS NOT " ++
      "NULL)), CHECK (state = 1 OR (lease_token IS NULL AND worker_id IS NULL AND " ++
      "lease_expires_at_ms IS NULL)), CHECK (state <> 2 OR retry_after_ms IS NOT NULL), " ++
      "CHECK ((state IN (4, 5, 6)) = (terminal_at_ms IS NOT NULL)));\n" ++
      "INSERT INTO jobs_v2 SELECT * FROM jobs;\n" ++
      "DROP TABLE jobs;\n" ++
      "ALTER TABLE jobs_v2 RENAME TO jobs;\n" ++
      "CREATE INDEX jobs_ready_idx ON jobs(queue, partition_key, state, not_before_ms, " ++
      "enqueue_sequence);\n" ++
      "CREATE INDEX jobs_expiry_idx ON jobs(state, lease_expires_at_ms);\n" ++
      "CREATE INDEX jobs_queue_state_idx ON jobs(queue, state);\n" ++
      "CREATE INDEX jobs_transaction_idx ON jobs(updated_transaction_id);\n"⟩]

structure MigrationStatus where
  version : UInt32
  appliedAtMs : Int64
  checksumOk : Bool
deriving DecidableEq

/-- A row of `schema_migrations`. -/
structure MigrationRow where
  version : UInt32
  appliedAtMs : Int64
  checksum : Bytes
deriving DecidableEq

/-- PRIMARY KEY `version`. -/
def migrationsSchema : Schema MigrationRow := .keyed MigrationRow.version

theorem migrations_unique : Unique migrationsSchema MigrationRow.version := Schema.keyed_unique _

/-- The file: the table `schema_migrations`, if it was created, and everything else,
which is what the SQL of a migration works on. -/
structure Database (σ : Type) where
  contents : σ
  schemaMigrations : Option (Table migrationsSchema)

namespace Database

variable {σ : Type}

def table (db : Database σ) : Table migrationsSchema := db.schemaMigrations.getD .empty

/-- `SELECT COALESCE(MAX(version), 0) FROM schema_migrations`. -/
def currentVersion (db : Database σ) : UInt32 :=
  (db.table.rows.map MigrationRow.version).max?.getD 0

/-- `SELECT checksum FROM schema_migrations WHERE version = ?1`. -/
def appliedChecksum (db : Database σ) (version : UInt32) : Option Bytes :=
  (db.table.lookup MigrationRow.version version).map MigrationRow.checksum

end Database

/-- The version of the last migration, or 0. -/
def supported (migrations : List Migration) : UInt32 :=
  (migrations.getLast?.map Migration.version).getD 0

/-! ## What can happen to a run -/

/-- The calls of SQLite that `migrate` makes, in a loop over different versions each
once. -/
inductive Statement
  | createTable
  | selectVersion
  | selectChecksum (version : UInt32)
  | beginImmediate (version : UInt32)
  | executeBatch (version : UInt32)
  | insert (version : UInt32)
  | commit (version : UInt32)
deriving DecidableEq

/-- How a call ends. A change that it was to make durable may have been written. -/
inductive Fate
  | done
  | fails (written : Bool) (message : String)
  | dies (written : Bool)

/-- Why a run is over before its end. -/
inductive Stop
  | error (error : StorageError)
  | crash
deriving DecidableEq

instance : FromStorage Stop := ⟨.error⟩

def Fate.written : Fate → Bool
  | .done => true
  | .fails written _ => written
  | .dies written => written

def Fate.result : Fate → Except Stop Unit
  | .done => .ok ()
  | .fails _ message => .error (.error (.sqlite message))
  | .dies _ => .error .crash

structure Environment where
  fate : Statement → Fate
  nowMs : UInt32 → Int64

/-- A call of `execute_batch`, and what it returned. -/
structure Execution where
  migration : Migration
  outcome : Except Stop Unit

/-- The file as it is on disk, and the calls of `execute_batch` so far. -/
structure Session (σ : Type) where
  db : Database σ
  executed : List Execution

/-- Code that can stop at every call of SQLite. -/
abbrev MigrateM (σ : Type) := ExceptT Stop (StateM (Session σ))

/-! ## `migrate` -/

section Migrate

variable {σ : Type} (executeBatch : String → σ → Except String σ) (env : Environment)

/-- A call that writes nothing, or only inside a transaction. -/
def call (statement : Statement) : MigrateM σ Unit :=
  MonadExcept.ofExcept (env.fate statement).result

/-- A call that makes `db` the database on disk. -/
def write (statement : Statement) (db : Database σ) : MigrateM σ Unit := do
  modify fun session => if (env.fate statement).written then { session with db := db } else session
  call env statement

/-- `tx.execute_batch`. -/
def batchOutcome (migration : Migration) (contents : σ) : Except Stop σ := do
  (env.fate (.executeBatch migration.version)).result
  (executeBatch migration.sql contents).mapError fun message => .error (.sqlite message)

/-- The transaction of a migration that is not recorded. -/
def applyMigration (migration : Migration) : MigrateM σ Unit := do
  call env (.beginImmediate migration.version)
  let db := (← get).db
  let outcome := batchOutcome executeBatch env migration db.contents
  modify fun session =>
    { session with executed := session.executed ++ [⟨migration, outcome.map fun _ => ()⟩] }
  let contents ← MonadExcept.ofExcept outcome
  call env (.insert migration.version)
  let table ← MonadExcept.ofExcept (execute (db.table.insert
    ⟨migration.version, env.nowMs migration.version, checksum migration.sql⟩))
  write env (.commit migration.version) ⟨contents, some table⟩

/-- One pass of the loop of `migrate`. -/
def migrateOne (migration : Migration) : MigrateM σ Unit := do
  call env (.selectChecksum migration.version)
  match (← get).db.appliedChecksum migration.version with
  | some stored =>
    if stored ≠ checksum migration.sql then
      throw (.error (.migrationChecksumMismatch migration.version))
  | none => applyMigration executeBatch env migration

/-- `migrate`. -/
def migrate (migrations : List Migration) : MigrateM σ Unit := do
  let db := (← get).db
  write env .createTable { db with schemaMigrations := some db.table }
  call env .selectVersion
  let current := (← get).db.currentVersion
  if current > supported migrations then
    throw (.error (.schemaTooNew current (supported migrations)))
  migrations.forM (migrateOne executeBatch env)

end Migrate

/-! ## `require_current` and `status` -/

section Inspect

variable {σ : Type} (migrations : List Migration) (db : Database σ)

/-- `require_current`. -/
def requireCurrent : Except StorageError Unit :=
  let current := db.currentVersion
  let supported := supported migrations
  if current > supported then .error (.schemaTooNew current supported)
  else if current < supported then
    .error (.sqlite (s!"schema version {current} is older than supported {supported}; " ++
      "open the store with a writer to migrate"))
  else .ok ()

/-- `status`. Without the table the first SELECT fails. -/
def status : Except StorageError (List MigrationStatus) :=
  match db.schemaMigrations with
  | none => if migrations = [] then .ok [] else .error (.sqlite "no such table: schema_migrations")
  | some table =>
    .ok (migrations.filterMap fun migration =>
      (table.lookup MigrationRow.version migration.version).map fun row =>
        ⟨migration.version, row.appliedAtMs, decide (row.checksum = checksum migration.sql)⟩)

end Inspect

end Minisqlite.Migrations
