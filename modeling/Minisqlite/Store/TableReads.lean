import Minisqlite.Lib.Sql.Select
import Minisqlite.Store.JobReads
import Minisqlite.Store.Projections

/-!
# Reads of the tables themselves

The queries of `store/jobs.rs`, `store/events.rs`, `store/projections.rs` and
`store/commit.rs` with what they make of each column, for tables that may hold anything.
A column of an unexpected type is an error of rusqlite, whose text is its own: a parameter.
-/

namespace Minisqlite.TableReads

open Sql

/-! ## Columns -/

section Columns

/-- What rusqlite says of a value that is not of the type asked for, in the column at this index
of a row. -/
class ColumnErrors where
  text : Nat → Value → String

def getI64 : Value → Option Int64
  | .integer n => some n
  | _ => none

def getVec : Value → Option Bytes
  | .blob bytes => some bytes
  | _ => none

def getString : Value → Option String
  | .text bytes => String.fromUTF8? ⟨bytes.toArray⟩
  | _ => none

def getU32 : Value → Option UInt32
  | .integer n => if 0 ≤ n ∧ n < 2 ^ 32 then some n.toUInt64.toUInt32 else none
  | _ => none

/-- NULL is `None`. -/
def getOption {α : Type} (get : Value → Option α) : Value → Option (Option α)
  | .null => some none
  | v => some <$> get v

/-- `Row::get`. -/
def Row.get [ColumnErrors] {α : Type} (row : Row) (i : Nat) (f : Value → Option α) :
    Except Error α :=
  let value := row.getD i .null
  (f value).elim (.error (.storage (.sqlite (ColumnErrors.text i value)))) .ok

/-- `id_from_blob`. -/
def idFromBlob (blob : Bytes) : Except Error Id :=
  if h : blob.length = 16 then .ok ⟨blob, h⟩
  else .error (.storage (.sqlite "corrupt 16-byte id column"))

/-- `JobState::encode`. -/
def encodeState : JobState → Int64
  | .pending => 0
  | .leased => 1
  | .retryWait => 2
  | .uncertain => 3
  | .succeeded => 4
  | .dead => 5
  | .cancelled => 6

/-- `JobState::decode`. -/
def decodeState (value : Int64) : Option JobState :=
  [JobState.pending, .leased, .retryWait, .uncertain, .succeeded, .dead, .cancelled].find?
    fun state => encodeState state = value

/-- `EffectMode::decode`. -/
def decodeEffectMode (value : Int64) : Option EffectMode :=
  if value = 0 then some .requiresReconciliation
  else if value = 1 then some .explicitlyIdempotent
  else none

/-- `None` is NULL. -/
def ofOption {α : Type} (value : α → Value) (x : Option α) : Value := x.elim .null value

def ofId (id : Id) : Term := .value (.blob id.bytes)

def ofString (s : String) : Term := .value (.text (utf8 s))

def ofBytes (bytes : Bytes) : Term := .value (.blob bytes)

def ofI64 (n : Int64) : Term := .value (.integer n)

end Columns

/-! ## Queries -/

section Reads

variable [ColumnErrors] (db : Sql.Database)

/-- `prepare` and `query_map`. -/
def query (select : Select) : Except Error (List Row) :=
  (db.select select).mapError fun message => .storage (.sqlite message)

/-- `query_row` and `optional`. -/
def queryRow {α : Type} (select : Select) (f : Row → Except Error α) : Except Error (Option α) := do
  let rows ← query db select
  rows.head?.mapM f

def columnIs (name : String) (term : Term) : Condition := .compare .eq (.column name) term

/-- `?1 IS NULL OR name = ?1`. -/
def filterBy (name : String) (term : Option Term) : Condition :=
  let value := term.getD (.value .null)
  .or (.isNull value) (columnIs name value)

/-! ## Jobs -/

/-- A job in the columns of its table, as the statements of `store/jobs.rs` bind them. -/
def storedJob (job : JobRow) : Row :=
  [.blob job.spec.jobId.bytes, .integer job.enqueueSequence, .blob job.enqueueTransactionId.bytes,
    .text (utf8 job.spec.queue), .text (utf8 job.spec.partitionKey), .blob job.spec.payload,
    .integer job.spec.notBeforeMs, .integer job.spec.maxAttempts.toUInt64.toInt64,
    .integer job.spec.effectMode.encode.toUInt64.toInt64,
    ofOption (fun s => .text (utf8 s)) job.spec.idempotencyKey, .integer (encodeState job.state),
    .integer job.attempt.toUInt64.toInt64, ofOption (fun id => .blob id.bytes) job.leaseToken,
    ofOption (fun s => .text (utf8 s)) job.workerId, ofOption .integer job.leaseExpiresAtMs,
    ofOption .integer job.retryAfterMs, ofOption .integer job.terminalAtMs,
    ofOption .blob job.resultDigest, ofOption (fun s => .text (utf8 s)) job.errorSummary,
    .blob job.updatedTransactionId.bytes]

/-- `JOB_COLUMNS`. -/
def jobColumns : List String :=
  ["job_id", "enqueue_sequence", "queue", "partition_key", "payload", "not_before_ms",
    "max_attempts", "effect_mode", "idempotency_key", "state", "attempt", "lease_token",
    "worker_id", "lease_expires_at_ms", "retry_after_ms", "terminal_at_ms", "result_digest",
    "error_summary"]

/-- `row_to_job` and `into_info`. -/
def rowToJob (row : Row) : Except Error JobInfo := do
  let jobId ← Row.get row 0 getVec
  let queue ← Row.get row 2 getString
  let partitionKey ← Row.get row 3 getString
  let payload ← Row.get row 4 getVec
  let notBeforeMs ← Row.get row 5 getI64
  let maxAttempts ← Row.get row 6 getI64
  let effectMode ← Row.get row 7 getI64
  let idempotencyKey ← Row.get row 8 (getOption getString)
  let state ← Row.get row 9 getI64
  let attempt ← Row.get row 10 getI64
  let leaseToken ← Row.get row 11 (getOption getVec)
  let workerId ← Row.get row 12 (getOption getString)
  let leaseExpiresAtMs ← Row.get row 13 (getOption getI64)
  let retryAfterMs ← Row.get row 14 (getOption getI64)
  let terminalAtMs ← Row.get row 15 (getOption getI64)
  let resultDigest ← Row.get row 16 (getOption getVec)
  let errorSummary ← Row.get row 17 (getOption getString)
  let jobId ← idFromBlob jobId
  let effectMode ← (decodeEffectMode effectMode).elim
    (.error (.storage (.sqlite s!"corrupt effect mode {effectMode}"))) .ok
  let state ← (decodeState state).elim
    (.error (.storage (.sqlite s!"corrupt job state {state}"))) .ok
  let _ ← leaseToken.mapM idFromBlob
  let spec : JobSpec := ⟨jobId, queue, partitionKey, payload, notBeforeMs,
    maxAttempts.toUInt64.toUInt32, effectMode, idempotencyKey⟩
  .ok ⟨jobId, spec, state, attempt.toUInt64.toUInt32, leaseExpiresAtMs, workerId, retryAfterMs,
    terminalAtMs, resultDigest, errorSummary⟩

/-- `get_job`. -/
def getJob (jobId : Id) : Except Error (Option JobInfo) :=
  queryRow db
    { names := jobColumns
      source := .table "jobs"
      condition := some (columnIs "job_id" (ofId jobId)) }
    rowToJob

/-- `list_jobs`. -/
def listJobs (queue : Option String) (state : Option JobState) (limit : UInt64) :
    Except Error (List JobInfo) := do
  let rows ← query db
    { names := jobColumns
      source := .table "jobs"
      condition := some (.and (filterBy "queue" (queue.map ofString))
        (filterBy "state" (state.map fun state => ofI64 (encodeState state))))
      order := some ("enqueue_sequence", .ascending)
      limit := some limit.toInt64 }
  rows.mapM rowToJob

/-- `list_jobs_page`. -/
def listJobsPage (queue : Option String) (state : Option JobState) (afterSequence limit : UInt64) :
    Except Error (List JobInfo × UInt64) := do
  let after ← (tryFromI64 afterSequence).elim
    (invalid s!"jobs_page after_sequence {afterSequence} exceeds the supported range") .ok
  let limit ← (tryFromI64 limit).elim
    (invalid s!"jobs_page limit {limit} exceeds the supported range") .ok
  let rows ← query db
    { names := jobColumns
      source := .table "jobs"
      condition := some (.and (.and (.compare .gt (.column "enqueue_sequence") (ofI64 after))
        (filterBy "queue" (queue.map ofString)))
        (filterBy "state" (state.map fun state => ofI64 (encodeState state))))
      order := some ("enqueue_sequence", .ascending)
      limit := some limit }
  rows.foldlM (fun page row => do
    let sequence ← Row.get row 1 getI64
    let job ← rowToJob row
    .ok (page.1 ++ [job], sequence.toUInt64)) ([], afterSequence)

/-! ## Recovery -/

/-- `recover_transaction`. -/
def recoverTransaction (transactionId : Id) : Except Error TransactionRecovery := do
  let row ← queryRow db
    { names := ["transaction_sequence", "committed_at_ms"]
      source := .table "transactions"
      condition := some (columnIs "transaction_id" (ofId transactionId)) }
    fun row => do
      let sequence ← Row.get row 0 getI64
      let committedAtMs ← Row.get row 1 getI64
      .ok (sequence, committedAtMs)
  match row with
  | some (sequence, committedAtMs) =>
    .ok (.committed ⟨transactionId, sequence.toUInt64, committedAtMs⟩)
  | none => .ok .absent

/-- What the loop of `recover_claim` has collected. -/
structure Recovered where
  jobs : List ClaimedJob
  staleJobs : List Id

/-- A pass of the loop of `recover_claim`. The token of a job that is not leased is not
looked at. -/
def recoverReceipt (nowMs : Int64) (recovered : Recovered) (row : Row) :
    Except Error Recovered := do
  let jobId ← Row.get row 0 getVec
  let leaseToken ← Row.get row 1 getVec
  let attempt ← Row.get row 2 getI64
  let workerId ← Row.get row 3 getString
  let leaseExpiresAtMs ← Row.get row 4 getI64
  let queue ← Row.get row 5 getString
  let partitionKey ← Row.get row 6 getString
  let payload ← Row.get row 7 getVec
  let idempotencyKey ← Row.get row 8 (getOption getString)
  let currentState ← Row.get row 9 getI64
  let currentToken ← Row.get row 10 (getOption getVec)
  let currentExpiry ← Row.get row 11 (getOption getI64)
  let jobId ← idFromBlob jobId
  let leaseToken ← idFromBlob leaseToken
  let stillCurrent ←
    if currentState = encodeState .leased then do
      let currentToken ← currentToken.mapM idFromBlob
      .ok (decide (currentToken = some leaseToken) &&
        currentExpiry.any fun expiry => decide (nowMs ≤ expiry))
    else .ok false
  if stillCurrent then
    .ok { recovered with
      jobs := recovered.jobs ++ [⟨jobId, queue, partitionKey, payload, workerId, leaseToken,
        attempt.toUInt64.toUInt32, leaseExpiresAtMs, idempotencyKey⟩] }
  else .ok { recovered with staleJobs := recovered.staleJobs ++ [jobId] }

/-- `recover_claim`. -/
def recoverClaim (transactionId : Id) (nowMs : Int64) : Except Error ClaimRecovery := do
  let rows ← query db
    { names := ["r.job_id", "r.lease_token", "r.attempt", "r.worker_id", "r.lease_expires_at_ms",
        "j.queue", "j.partition_key", "j.payload", "j.idempotency_key", "j.state", "j.lease_token",
        "j.lease_expires_at_ms"]
      source := .join "claim_receipts" "r" "jobs" "j"
      condition := some (.and (columnIs "j.job_id" (.column "r.job_id"))
        (columnIs "r.transaction_id" (ofId transactionId)))
      order := some ("r.job_id", .ascending) }
  let recovered ← rows.foldlM (recoverReceipt nowMs) ⟨[], []⟩
  if rows ≠ [] then
    .ok (.committed ⟨transactionId, recovered.jobs, recovered.staleJobs⟩)
  else do
    let committed ← queryRow db
      { names := []
        source := .table "transactions"
        condition := some (columnIs "transaction_id" (ofId transactionId)) }
      fun _ => .ok ()
    .ok (if committed.isSome then .maintenanceCommitted ⟨transactionId⟩ else .absent)

/-! ## Events -/

def eventColumns : List String :=
  ["global_sequence", "event_id", "transaction_id", "stream_id", "stream_version", "event_type",
    "schema_version", "occurred_at_ms", "causation_id", "correlation_id", "payload", "metadata"]

/-- `row_to_persisted_event`. -/
def rowToPersistedEvent (row : Row) : Except Error PersistedEvent := do
  let globalSequence ← Row.get row 0 getI64
  let streamVersion ← Row.get row 4 getI64
  let transactionId ← Row.get row 2 getVec
  let eventId ← Row.get row 1 getVec
  let streamId ← Row.get row 3 getString
  let eventType ← Row.get row 5 getString
  let schemaVersion ← Row.get row 6 getU32
  let occurredAtMs ← Row.get row 7 getI64
  let causationId ← Row.get row 8 (getOption getVec)
  let correlationId ← Row.get row 9 (getOption getVec)
  let payload ← Row.get row 10 getVec
  let metadata ← Row.get row 11 getVec
  let transactionId ← idFromBlob transactionId
  let eventId ← idFromBlob eventId
  let causationId ← causationId.mapM idFromBlob
  let correlationId ← correlationId.mapM idFromBlob
  .ok ⟨transactionId, globalSequence.toUInt64, streamVersion.toUInt64,
    ⟨eventId, streamId, eventType, schemaVersion, occurredAtMs, causationId, correlationId, payload,
      metadata⟩⟩

/-- `events_after`. -/
def eventsAfter (after limit : UInt64) : Except Error (List PersistedEvent) := do
  let rows ← query db
    { names := eventColumns
      source := .table "events"
      condition := some (.compare .gt (.column "global_sequence") (ofI64 after.toInt64))
      order := some ("global_sequence", .ascending)
      limit := some limit.toInt64 }
  rows.mapM rowToPersistedEvent

/-- `stream_events`. -/
def streamEvents (streamId : String) (fromVersion limit : UInt64) :
    Except Error (List PersistedEvent) := do
  let rows ← query db
    { names := eventColumns
      source := .table "events"
      condition := some (.and (columnIs "stream_id" (ofString streamId))
        (.compare .ge (.column "stream_version") (ofI64 fromVersion.toInt64)))
      order := some ("stream_version", .ascending)
      limit := some limit.toInt64 }
  rows.mapM rowToPersistedEvent

/-- `last_events`. -/
def lastEvents (limit : UInt64) : Except Error (List PersistedEvent) := do
  let rows ← query db
    { names := eventColumns
      source := .table "events"
      order := some ("global_sequence", .descending)
      limit := some limit.toInt64 }
  let events ← rows.mapM rowToPersistedEvent
  .ok events.reverse

/-- `get_event`. -/
def getEvent (eventId : Id) : Except Error (Option PersistedEvent) :=
  queryRow db
    { names := eventColumns
      source := .table "events"
      condition := some (columnIs "event_id" (ofId eventId)) }
    rowToPersistedEvent

/-- A version in a table with one row a name, or 0: `stream_version` and
`projection_version`. -/
def versionIn (table key version name : String) : Except Error UInt64 := do
  let found ← queryRow db
    { names := [version]
      source := .table table
      condition := some (columnIs key (ofString name)) }
    fun row => Row.get row 0 getI64
  .ok (found.getD 0).toUInt64

/-- `stream_version`. -/
def streamVersion (streamId : String) : Except Error UInt64 :=
  versionIn db "streams" "stream_id" "current_version" streamId

/-! ## Projections -/

/-- `projection_version`. -/
def projectionVersion (projection : String) : Except Error UInt64 :=
  versionIn db "projection_meta" "projection" "version" projection

/-- `projection_get`. -/
def projectionGet (projection : String) (key : Bytes) : Except Error (Option Bytes) :=
  queryRow db
    { names := ["value"]
      source := .table "projection_entries"
      condition := some (.and (columnIs "projection" (ofString projection))
        (columnIs "key" (ofBytes key))) }
    fun row => Row.get row 0 getVec

/-- A condition that is there for a bound that is given. -/
def bounded (op : Comparison) (bound : Option Bytes) (condition : Condition) : Condition :=
  match bound with
  | none => condition
  | some bound => .and condition (.compare op (.column "key") (ofBytes bound))

/-- `scan`. -/
def scan (projection : String) (start stop after : Option Bytes) (limit : UInt64) :
    Except Error (List ProjectionEntry) := do
  let rows ← query db
    { names := ["key", "value"]
      source := .table "projection_entries"
      condition := some (bounded .gt after (bounded .lt stop (bounded .ge start
        (columnIs "projection" (ofString projection)))))
      order := some ("key", .ascending)
      limit := some limit.toInt64 }
  rows.mapM fun row => do
    let key ← Row.get row 0 getVec
    let value ← Row.get row 1 getVec
    .ok ⟨key, value⟩

/-- `projection_scan_prefix_page`. -/
def projectionScanPrefixPage (projection : String) (keyPrefix : Bytes) (after : Option Bytes)
    (limit : UInt64) : Except Error (List ProjectionEntry) :=
  scan db projection (some keyPrefix) (prefixUpperBound keyPrefix) after limit

/-- `projection_scan_prefix`. -/
def projectionScanPrefix (projection : String) (keyPrefix : Bytes) (limit : UInt64) :
    Except Error (List ProjectionEntry) :=
  projectionScanPrefixPage db projection keyPrefix none limit

/-- `projection_scan_range`. -/
def projectionScanRange (projection : String) (start stop after : Option Bytes) (limit : UInt64) :
    Except Error (List ProjectionEntry) :=
  scan db projection start stop after limit

/-- `projections_list`. -/
def projectionsList : Except Error (List (String × UInt64)) := do
  let rows ← query db
    { names := ["projection", "version"]
      source := .table "projection_meta"
      order := some ("projection", .ascending) }
  rows.mapM fun row => do
    let projection ← Row.get row 0 getString
    let version ← Row.get row 1 getI64
    .ok (projection, version.toUInt64)

/-- `projection_entry_count`: `SELECT COUNT(*)`. -/
def projectionEntryCount (projection : String) : Except Error UInt64 := do
  let rows ← query db
    { names := []
      source := .table "projection_entries"
      condition := some (columnIs "projection" (ofString projection)) }
  .ok (UInt64.ofNat rows.length)

end Reads

/-! ## Every read -/

/-- A read of the store's data. -/
inductive DataRead
  | job (jobId : Id)
  | jobs (queue : Option String) (state : Option JobState) (limit : UInt64)
  | jobsPage (queue : Option String) (state : Option JobState) (afterSequence limit : UInt64)
  | recoverTransaction (transactionId : Id)
  | recoverClaim (transactionId : Id) (nowMs : Int64)
  | eventsAfter (after limit : UInt64)
  | streamEvents (streamId : String) (fromVersion limit : UInt64)
  | lastEvents (limit : UInt64)
  | getEvent (eventId : Id)
  | streamVersion (streamId : String)
  | projectionVersion (projection : String)
  | projectionGet (projection : String) (key : Bytes)
  | projectionScanPrefix (projection : String) (keyPrefix : Bytes) (limit : UInt64)
  | projectionScanPrefixPage (projection : String) (keyPrefix : Bytes) (after : Option Bytes)
      (limit : UInt64)
  | projectionScanRange (projection : String) (start stop after : Option Bytes) (limit : UInt64)
  | projectionsList
  | projectionEntryCount (projection : String)

/-- What a read returns. -/
def DataRead.Result : DataRead → Type
  | .job _ => Option JobInfo
  | .jobs .. => List JobInfo
  | .jobsPage .. => List JobInfo × UInt64
  | .recoverTransaction _ => TransactionRecovery
  | .recoverClaim .. => ClaimRecovery
  | .eventsAfter .. | .streamEvents .. | .lastEvents _ => List PersistedEvent
  | .getEvent _ => Option PersistedEvent
  | .streamVersion _ | .projectionVersion _ | .projectionEntryCount _ => UInt64
  | .projectionGet .. => Option Bytes
  | .projectionScanPrefix .. | .projectionScanPrefixPage .. | .projectionScanRange .. =>
    List ProjectionEntry
  | .projectionsList => List (String × UInt64)

/-- The read, of these tables. -/
def DataRead.answer [ColumnErrors] (db : Sql.Database) :
    (read : DataRead) → Except Error read.Result
  | .job jobId => getJob db jobId
  | .jobs queue state limit => listJobs db queue state limit
  | .jobsPage queue state afterSequence limit => listJobsPage db queue state afterSequence limit
  | .recoverTransaction transactionId => TableReads.recoverTransaction db transactionId
  | .recoverClaim transactionId nowMs => TableReads.recoverClaim db transactionId nowMs
  | .eventsAfter after limit => TableReads.eventsAfter db after limit
  | .streamEvents streamId fromVersion limit =>
    TableReads.streamEvents db streamId fromVersion limit
  | .lastEvents limit => TableReads.lastEvents db limit
  | .getEvent eventId => TableReads.getEvent db eventId
  | .streamVersion streamId => TableReads.streamVersion db streamId
  | .projectionVersion projection => TableReads.projectionVersion db projection
  | .projectionGet projection key => TableReads.projectionGet db projection key
  | .projectionScanPrefix projection keyPrefix limit =>
    TableReads.projectionScanPrefix db projection keyPrefix limit
  | .projectionScanPrefixPage projection keyPrefix after limit =>
    TableReads.projectionScanPrefixPage db projection keyPrefix after limit
  | .projectionScanRange projection start stop after limit =>
    TableReads.projectionScanRange db projection start stop after limit
  | .projectionsList => TableReads.projectionsList db
  | .projectionEntryCount projection => TableReads.projectionEntryCount db projection

end Minisqlite.TableReads
