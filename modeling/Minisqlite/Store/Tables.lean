import Minisqlite.Store.DataReads
import Minisqlite.Store.Upgrade

/-!
# The store as tables of SQL

The rows of each table as the INSERT statements of `store/` bind their columns, and the
database that the two migrations define with these rows in it.
-/

namespace Minisqlite.TableReads

open Sql

/-! ## Rows -/

def textValue (s : String) : Value := .text (utf8 s)

def idValue (id : Id) : Value := .blob id.bytes

/-- `value as i64`, of an `u32`. -/
def u32Value (n : UInt32) : Value := .integer n.toUInt64.toInt64

def storedTransaction (row : TransactionRow) : Row :=
  [idValue row.transactionId, .integer row.transactionSequence, .integer row.committedAtMs,
    ofOption idValue row.correlationId, .blob row.metadata, .blob row.requestDigest,
    .integer row.operationCount]

def storedEvent (row : EventRow) : Row :=
  [.integer row.globalSequence, idValue row.event.eventId, idValue row.transactionId,
    textValue row.event.streamId, .integer row.streamVersion, textValue row.event.eventType,
    u32Value row.event.schemaVersion, .integer row.event.occurredAtMs,
    ofOption idValue row.event.causationId, ofOption idValue row.event.correlationId,
    .blob row.event.payload, .blob row.event.metadata]

def storedStream (row : StreamRow) : Row := [textValue row.streamId, .integer row.currentVersion]

def storedProjectionMeta (row : ProjectionMetaRow) : Row :=
  [textValue row.projection, .integer row.version]

def storedProjectionEntry (row : ProjectionEntryRow) : Row :=
  [textValue row.projection, .blob row.key, .blob row.value]

def storedQueueCursor (row : QueueCursorRow) : Row :=
  [textValue row.queue, ofOption textValue row.lastPartitionKey]

def storedActivePartition (row : ActivePartitionRow) : Row :=
  [textValue row.queue, textValue row.partitionKey, .integer row.firstActiveSequence]

def storedClaimReceipt (row : ClaimReceiptRow) : Row :=
  [idValue row.transactionId, idValue row.jobId, idValue row.leaseToken, u32Value row.attempt,
    textValue row.workerId, .integer row.leaseExpiresAtMs]

/-! ## The database -/

/-- The definitions of version 2. -/
def currentSchema : Sql.Schema :=
  (defineAll (Migrations.initial ++ Migrations.upgrade) .empty).toOption.getD .empty

/-- The rows of a table by its name. -/
def rowsOf (db : Db) : String → List Row
  | "transactions" => db.transactions.rows.map storedTransaction
  | "events" => db.events.rows.map storedEvent
  | "streams" => db.streams.rows.map storedStream
  | "projection_meta" => db.projectionMeta.rows.map storedProjectionMeta
  | "projection_entries" => db.projectionEntries.rows.map storedProjectionEntry
  | "jobs" => db.jobs.rows.map storedJob
  | "queue_cursors" => db.queueCursors.rows.map storedQueueCursor
  | "active_partitions" => db.activePartitions.rows.map storedActivePartition
  | "claim_receipts" => db.claimReceipts.rows.map storedClaimReceipt
  | _ => []

/-- The store, as the database that its file holds. -/
def tables (db : Db) : Sql.Database := ⟨currentSchema, rowsOf db⟩

/-! ## The tables one by one -/

/-- A table of the store, and the table of its file. -/
structure StoreTable where
  Record : Type
  schema : Tables.Schema Record
  contents : Db → Tables.Table schema
  replace : Tables.Table schema → Db → Db
  name : String
  defn : TableDef
  encode : Record → Row

namespace StoreTable

open Migrations

def jobs : StoreTable :=
  ⟨_, _, Db.jobs, fun t db => { db with jobs := t }, "jobs", jobsV2Table, storedJob⟩

def claimReceipts : StoreTable :=
  ⟨_, _, Db.claimReceipts, fun t db => { db with claimReceipts := t }, "claim_receipts",
    claimReceiptsTable, storedClaimReceipt⟩

def activePartitions : StoreTable :=
  ⟨_, _, Db.activePartitions, fun t db => { db with activePartitions := t }, "active_partitions",
    activePartitionsTable, storedActivePartition⟩

def queueCursors : StoreTable :=
  ⟨_, _, Db.queueCursors, fun t db => { db with queueCursors := t }, "queue_cursors",
    queueCursorsTable, storedQueueCursor⟩

def projectionEntries : StoreTable :=
  ⟨_, _, Db.projectionEntries, fun t db => { db with projectionEntries := t }, "projection_entries",
    projectionEntriesTable, storedProjectionEntry⟩

def projectionMeta : StoreTable :=
  ⟨_, _, Db.projectionMeta, fun t db => { db with projectionMeta := t }, "projection_meta",
    projectionMetaTable, storedProjectionMeta⟩

def streams : StoreTable :=
  ⟨_, _, Db.streams, fun t db => { db with streams := t }, "streams", streamsTable, storedStream⟩

def events : StoreTable :=
  ⟨_, _, Db.events, fun t db => { db with events := t }, "events", eventsTable, storedEvent⟩

def transactions : StoreTable :=
  ⟨_, _, Db.transactions, fun t db => { db with transactions := t }, "transactions",
    transactionsTable, storedTransaction⟩

end StoreTable

def storeTables : List StoreTable :=
  [.jobs, .claimReceipts, .activePartitions, .queueCursors, .projectionEntries, .projectionMeta,
    .streams, .events, .transactions]

namespace StoreTable

theorem jobs_mem : jobs ∈ storeTables := .head _

theorem claimReceipts_mem : claimReceipts ∈ storeTables := .tail _ (.head _)

theorem activePartitions_mem : activePartitions ∈ storeTables := .tail _ (.tail _ (.head _))

theorem queueCursors_mem : queueCursors ∈ storeTables := .tail _ (.tail _ (.tail _ (.head _)))

theorem projectionEntries_mem : projectionEntries ∈ storeTables :=
  .tail _ (.tail _ (.tail _ (.tail _ (.head _))))

theorem projectionMeta_mem : projectionMeta ∈ storeTables :=
  .tail _ (.tail _ (.tail _ (.tail _ (.tail _ (.head _)))))

theorem streams_mem : streams ∈ storeTables :=
  .tail _ (.tail _ (.tail _ (.tail _ (.tail _ (.tail _ (.head _))))))

theorem events_mem : events ∈ storeTables :=
  .tail _ (.tail _ (.tail _ (.tail _ (.tail _ (.tail _ (.tail _ (.head _)))))))

theorem transactions_mem : transactions ∈ storeTables :=
  .tail _ (.tail _ (.tail _ (.tail _ (.tail _ (.tail _ (.tail _ (.tail _ (.head _))))))))

end StoreTable

end Minisqlite.TableReads
