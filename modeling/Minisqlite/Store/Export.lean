import Minisqlite.Lib.Keyset
import Minisqlite.Lib.PlainText
import Minisqlite.Schema

/-!
# Statistics and the diagnostic export

`stats` and `diagnostic_export` of `store/ops.rs`. The export is text of one JSON
object a line: a header, the statistics, and a record for each row that its queries
find. Five of its queries are read page by page. The loops take fuel, one unit a page.

Besides the tables, the export reads the size of the file, the version of the schema
and the rowids that SQLite gives the rows of two tables. These are parameters.
-/

namespace Minisqlite

open Tables Keyset PlainText

/-! ## Statistics -/

/-- `JobState::name`. -/
def JobState.name : JobState → String
  | .pending => "pending"
  | .leased => "leased"
  | .retryWait => "retry_wait"
  | .uncertain => "uncertain"
  | .succeeded => "succeeded"
  | .dead => "dead"
  | .cancelled => "cancelled"

/-- The states in the order of their codes. -/
def JobState.all : List JobState :=
  [.pending, .leased, .retryWait, .uncertain, .succeeded, .dead, .cancelled]

/-- What the export reads besides the tables. -/
structure StoreFile where
  fileSizeBytes : UInt64
  migrationVersion : UInt32
  entryRowid : ProjectionEntryRow → Int64
  receiptRowid : ClaimReceiptRow → Int64

structure StoreStats where
  transactions : UInt64
  events : UInt64
  streams : UInt64
  projections : UInt64
  projectionEntries : UInt64
  jobsByState : List (String × UInt64)
  activePartitions : UInt64
  fileSizeBytes : UInt64
  migrationVersion : UInt32
  oldestActiveLeaseMs : Option Int64
  oldestUncertainJobMs : Option Int64
deriving DecidableEq

/-- `SELECT COUNT(*)`. -/
def count {ρ : Type} (rows : List ρ) : UInt64 := UInt64.ofNat rows.length

/-- The jobs in a state. -/
def Db.jobsIn (db : Db) (state : JobState) : List JobRow :=
  db.jobs.rows.filter fun job => decide (job.state = state)

/-- `SELECT state, COUNT(*) FROM jobs GROUP BY state`, as a `BTreeMap` by name. -/
def Db.jobsByState (db : Db) : List (String × UInt64) :=
  let groups := JobState.all.filter fun state => !(db.jobsIn state).isEmpty
  ordered (fun entry => utf8 entry.1)
    (groups.map fun state => (state.name, count (db.jobsIn state)))

/-- `stats`. -/
def stats (file : StoreFile) (db : Db) : StoreStats where
  transactions := count db.transactions.rows
  events := count db.events.rows
  streams := count db.streams.rows
  projections := count db.projectionMeta.rows
  projectionEntries := count db.projectionEntries.rows
  jobsByState := db.jobsByState
  activePartitions := count db.activePartitions.rows
  fileSizeBytes := file.fileSizeBytes
  migrationVersion := file.migrationVersion
  oldestActiveLeaseMs := ((db.jobsIn .leased).filterMap JobRow.leaseExpiresAtMs).min?
  oldestUncertainJobMs := ((db.jobsIn .uncertain).filterMap fun job =>
    (db.transaction job.updatedTransactionId).map TransactionRow.committedAtMs).min?

/-! ## JSON -/

/-- `hex`. -/
def hex (bytes : Bytes) : String :=
  String.ofList (bytes.flatMap fun (b : UInt8) => [Id.hexDigit (b >>> 4), Id.hexDigit (b &&& 0xf)])

/-- One character of `json_escape`; `{:04x}` of a control character is the hex of two bytes. -/
def escapeChar : Char → String
  | '"' => "\\\""
  | '\\' => "\\\\"
  | '\n' => "\\n"
  | '\r' => "\\r"
  | '\t' => "\\t"
  | c => if c.toNat < 0x20 then "\\u" ++ hex [0, UInt8.ofNat c.toNat] else String.singleton c

/-- `json_escape`. -/
def jsonEscape (s : String) : String := String.join (s.toList.map escapeChar)

def quoted (s : String) : String := "\"" ++ s ++ "\""

/-- `opt_i64`. -/
def optI64 (value : Option Int64) : String := (value.map toString).getD "null"

/-- `opt_string`. -/
def optString (value : Option String) : String :=
  (value.map fun v => quoted (jsonEscape v)).getD "null"

/-- The fields of a JSON object, each a name and the text of its value. -/
abbrev Fields := List (String × String)

/-- The text of an object; every `writeln!` of the export has this form. -/
def object (fields : Fields) : String :=
  "\x7b" ++ ",".intercalate (fields.map fun field => quoted field.1 ++ ":" ++ field.2) ++ "\x7d"

/-- `payload_fields`. -/
def payloadFields (payload : Bytes) (includePayloads : Bool) : Fields :=
  if includePayloads then
    [("payload_len", toString payload.length), ("payload_hex", quoted (hex payload))]
  else [("payload_len", toString payload.length)]

/-- `error_summary_fields`. -/
def errorSummaryFields (errorSummary : Option String) (includePayloads : Bool) : Fields :=
  if includePayloads then [("error_summary", optString errorSummary)]
  else [("error_summary_len", optI64 (errorSummary.map fun s => Int64.ofNat s.utf8ByteSize))]

/-! ## Records -/

def headerRecord (stats : StoreStats) (includePayloads : Bool) : String :=
  object [("kind", quoted "header"), ("format", quoted "minisqlite-diagnostic-v1"),
    ("restorable", "false"), ("schema_version", toString stats.migrationVersion),
    ("payloads_included", toString includePayloads)]

def statsRecord (stats : StoreStats) : String :=
  object [("kind", quoted "stats"), ("transactions", toString stats.transactions),
    ("events", toString stats.events), ("streams", toString stats.streams),
    ("projections", toString stats.projections),
    ("projection_entries", toString stats.projectionEntries),
    ("active_partitions", toString stats.activePartitions),
    ("file_size_bytes", toString stats.fileSizeBytes),
    ("jobs_by_state", object (stats.jobsByState.map fun entry =>
      (jsonEscape entry.1, toString entry.2)))]

def TransactionRow.record (row : TransactionRow) : String :=
  object [("kind", quoted "transaction"),
    ("transaction_sequence", toString row.transactionSequence),
    ("transaction_id", quoted (hex row.transactionId.bytes)),
    ("committed_at_ms", toString row.committedAtMs),
    ("operation_count", toString row.operationCount)]

def EventRow.record (includePayloads : Bool) (row : EventRow) : String :=
  object ([("kind", quoted "event"), ("global_sequence", toString row.globalSequence),
    ("event_id", quoted (hex row.event.eventId.bytes)),
    ("transaction_id", quoted (hex row.transactionId.bytes)),
    ("stream_id", quoted (jsonEscape row.event.streamId)),
    ("stream_version", toString row.streamVersion),
    ("event_type", quoted (jsonEscape row.event.eventType)),
    ("schema_version", toString row.event.schemaVersion),
    ("occurred_at_ms", toString row.event.occurredAtMs)] ++
    payloadFields row.event.payload includePayloads)

def StreamRow.record (row : StreamRow) : String :=
  object [("kind", quoted "stream"), ("stream_id", quoted (jsonEscape row.streamId)),
    ("current_version", toString row.currentVersion)]

def ProjectionMetaRow.record (row : ProjectionMetaRow) : String :=
  object [("kind", quoted "projection"), ("projection", quoted (jsonEscape row.projection)),
    ("version", toString row.version)]

def ProjectionEntryRow.record (includePayloads : Bool) (row : ProjectionEntryRow) : String :=
  let valueFields :=
    if includePayloads then
      [("value_len", toString row.value.length), ("value_hex", quoted (hex row.value))]
    else [("value_len", toString row.value.length)]
  object ([("kind", quoted "projection_entry"), ("projection", quoted (jsonEscape row.projection)),
    ("key_hex", quoted (hex row.key))] ++ valueFields)

/-- The lease token is not selected. -/
def JobRow.record (includePayloads : Bool) (job : JobRow) : String :=
  object ([("kind", quoted "job"), ("enqueue_sequence", toString job.enqueueSequence),
    ("job_id", quoted (hex job.spec.jobId.bytes)), ("queue", quoted (jsonEscape job.spec.queue)),
    ("partition_key", quoted (jsonEscape job.spec.partitionKey)), ("state", quoted job.state.name),
    ("attempt", toString job.attempt), ("max_attempts", toString job.spec.maxAttempts),
    ("effect_mode", toString job.spec.effectMode.encode),
    ("not_before_ms", toString job.spec.notBeforeMs), ("worker_id", optString job.workerId),
    ("lease_expires_at_ms", optI64 job.leaseExpiresAtMs),
    ("retry_after_ms", optI64 job.retryAfterMs), ("terminal_at_ms", optI64 job.terminalAtMs)] ++
    errorSummaryFields job.errorSummary includePayloads ++
    payloadFields job.spec.payload includePayloads)

def ActivePartitionRow.record (row : ActivePartitionRow) : String :=
  object [("kind", quoted "active_partition"), ("queue", quoted (jsonEscape row.queue)),
    ("partition_key", quoted (jsonEscape row.partitionKey)),
    ("first_active_sequence", toString row.firstActiveSequence)]

/-- The lease token is not selected. -/
def ClaimReceiptRow.record (row : ClaimReceiptRow) : String :=
  object [("kind", quoted "claim_receipt"),
    ("transaction_id", quoted (hex row.transactionId.bytes)),
    ("job_id", quoted (hex row.jobId.bytes)), ("attempt", toString row.attempt),
    ("worker_id", quoted (jsonEscape row.workerId)),
    ("lease_expires_at_ms", toString row.leaseExpiresAtMs)]

/-! ## The export -/

/-- `EXPORT_PAGE_SIZE`. -/
def exportPageSize : Nat := 512

def exportTransactions (fuel : Nat) (db : Db) : Option (List String) :=
  (pages TransactionRow.transactionSequence exportPageSize db.transactions.rows fuel 0).map
    (List.map TransactionRow.record)

def exportEvents (includePayloads : Bool) (fuel : Nat) (db : Db) : Option (List String) :=
  (pages EventRow.globalSequence exportPageSize db.events.rows fuel 0).map
    (List.map (EventRow.record includePayloads))

/-- The cursor starts at the empty string. -/
def exportStreams (fuel : Nat) (db : Db) : Option (List String) :=
  (pages (fun row : StreamRow => utf8 row.streamId) exportPageSize db.streams.rows fuel
    (utf8 "")).map (List.map StreamRow.record)

def exportProjections (file : StoreFile) (includePayloads : Bool) (fuel : Nat) (db : Db) :
    Option (List String) :=
  let projections := ordered (fun row : ProjectionMetaRow => utf8 row.projection)
    db.projectionMeta.rows
  (pages file.entryRowid exportPageSize db.projectionEntries.rows fuel 0).map fun entries =>
    projections.map ProjectionMetaRow.record ++
      entries.map (ProjectionEntryRow.record includePayloads)

def exportJobs (includePayloads : Bool) (fuel : Nat) (db : Db) : Option (List String) :=
  (pages JobRow.enqueueSequence exportPageSize db.jobs.rows fuel 0).map
    (List.map (JobRow.record includePayloads))

def exportPartitions (db : Db) : List String :=
  (ordered (fun row : ActivePartitionRow => [utf8 row.queue, utf8 row.partitionKey])
    db.activePartitions.rows).map ActivePartitionRow.record

def exportClaimReceipts (file : StoreFile) (db : Db) : List String :=
  (ordered file.receiptRowid db.claimReceipts.rows).map ClaimReceiptRow.record

/-- The lines of `diagnostic_export`. -/
def exportLines (file : StoreFile) (includePayloads : Bool) (fuel : Nat) (db : Db) :
    Option (List String) := do
  let stats := stats file db
  let transactions ← exportTransactions fuel db
  let events ← exportEvents includePayloads fuel db
  let streams ← exportStreams fuel db
  let projections ← exportProjections file includePayloads fuel db
  let jobs ← exportJobs includePayloads fuel db
  some (headerRecord stats includePayloads :: statsRecord stats ::
    (transactions ++ events ++ streams ++ projections ++ jobs ++ exportPartitions db ++
      exportClaimReceipts file db))

/-- `diagnostic_export`; `none` if the fuel does not last for its loops. -/
def diagnosticExport (file : StoreFile) (includePayloads : Bool) (fuel : Nat) (db : Db) :
    Option String :=
  (exportLines file includePayloads fuel db).map writeLines

end Minisqlite
