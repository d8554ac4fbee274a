import Minisqlite.Lib.Sql.Writes
import Minisqlite.Store.ControlPlane
import Minisqlite.Store.Tables

/-!
# The pipelines on the tables themselves

`commit`, `claim_jobs` and `extend_lease` with the functions that they call, as the SQL that
they run on the tables of a file. The functions have the names that they have in `store/`,
and those of the typed model that they are compared with.

A statement or a query that fails in a transaction fails with a storage error; its text is
left out. The COMMIT of a transaction, and how it ends, is that of `ControlPlaneStore`.
-/

namespace Minisqlite.TableWrites

open Sql TableReads

/-! ## Statements and queries in a transaction -/

section Statements

variable {ε : Type} [FromStorage ε]

/-- `Connection::execute`. -/
def executeSql (coerce : Affinity → Value → Value) (write : Write) (file : Sql.Database) :
    Except ε Sql.Database :=
  execute (write.exec coerce file).toOption

/-- A query and what is made of its rows. -/
def fetch {α : Type} (result : Except Error α) : Except ε α := execute result.toOption

def integerOf : Value → Option Int64
  | .integer n => some n
  | _ => none

/-- `SELECT COALESCE(MAX(column), 0) + 1 FROM table`, for a column of integers. -/
def nextOf (file : Sql.Database) (table column : String) : Except ε Int64 :=
  execute ((file.select { names := [column], source := .table table }).toOption.bind fun rows =>
    nextSequence (rows.filterMap fun row => row.head?.bind integerOf))

end Statements

/-- `column = ?1 AND other = ?2`. -/
def bothAre (column other : String) (value otherValue : Term) : Condition :=
  .and (columnIs column value) (columnIs other otherValue)

def null : Term := .value .null

/-! ## Rows of jobs -/

/-- `JobRow`: what `into_info` keeps of a row, and its lease token. -/
structure LoadedJob where
  info : JobInfo
  leaseToken : Option Id

namespace LoadedJob

def jobId (job : LoadedJob) : Id := job.info.jobId

def exhausted (job : LoadedJob) : Bool := decide (job.info.attempt ≥ job.info.spec.maxAttempts)

end LoadedJob

variable [ColumnErrors]

/-- `row_to_job`. -/
def rowToLoadedJob (row : Row) : Except Error LoadedJob := do
  let info ← rowToJob row
  let leaseToken ← Row.get row 11 (getOption getVec)
  let leaseToken ← leaseToken.mapM idFromBlob
  .ok ⟨info, leaseToken⟩

/-- `load_job`. -/
def loadJob {ε : Type} [FromStorage ε] (file : Sql.Database) (jobId : Id) :
    Except ε (Option LoadedJob) :=
  fetch (queryRow file
    { names := jobColumns
      source := .table "jobs"
      condition := some (columnIs "job_id" (ofId jobId)) }
    rowToLoadedJob)

/-- `require_job`. -/
def requireJob (file : Sql.Database) (jobId : Id) : Except Error LoadedJob := do
  match ← loadJob file jobId with
  | some job => .ok job
  | none => invalid s!"job {jobId} does not exist"

/-- `ensure_transition`. -/
def ensureTransition (job : LoadedJob) (target : JobState) : Except Error Unit :=
  if job.info.state.canTransitionTo target then .ok ()
  else .error (.conflict (.jobTransition job.jobId job.info.state target))

/-- `ensure_lease_token`. -/
def ensureLeaseToken (job : LoadedJob) (token : Id) : Except Error Unit :=
  if job.leaseToken = some token then .ok ()
  else
    let jobId := job.jobId
    invalid s!"stale lease token for job {jobId}"

/-- `state IN (ACTIVE_STATES_SQL)`. -/
def stateIsActive : Condition :=
  .isIn (.column "state") (.integer (encodeState .pending))
    [.integer (encodeState .leased), .integer (encodeState .retryWait),
      .integer (encodeState .uncertain)]

/-! ## Writes of jobs -/

section Jobs

variable (coerce : Affinity → Value → Value)

/-- `UPDATE jobs SET … WHERE job_id = ?1`. -/
def updateJobs {ε : Type} [FromStorage ε] (set : Assignments) (jobId : Id) (file : Sql.Database) :
    Except ε Sql.Database :=
  executeSql coerce (.update "jobs" set (columnIs "job_id" (ofId jobId))) file

/-- `drain_partition_if_empty`. -/
def drainPartitionIfEmpty (file : Sql.Database) (queue partitionKey : String) :
    Except Error Sql.Database :=
  let inPartition := bothAre "queue" "partition_key" (ofString queue) (ofString partitionKey)
  executeSql coerce
    (.delete "active_partitions" inPartition (some ("jobs", .and inPartition stateIsActive))) file

/-- The SET clause of `set_terminal`. -/
def terminalSet (state : JobState) (nowMs : Int64) (transactionId : Id)
    (resultDigest : Option Bytes) (errorSummary : Option String) : Assignments :=
  [("state", .plain (ofI64 (encodeState state))), ("lease_token", .plain null),
    ("worker_id", .plain null), ("lease_expires_at_ms", .plain null),
    ("retry_after_ms", .plain null), ("terminal_at_ms", .plain (ofI64 nowMs)),
    ("result_digest",
      .coalesce (.value (ofOption .blob resultDigest)) (.column "result_digest")),
    ("error_summary",
      .coalesce (.value (ofOption textValue errorSummary)) (.column "error_summary")),
    ("updated_transaction_id", .plain (ofId transactionId))]

/-- `set_terminal`. -/
def setTerminal (file : Sql.Database) (job : LoadedJob) (state : JobState) (nowMs : Int64)
    (transactionId : Id) (resultDigest : Option Bytes) (errorSummary : Option String) :
    Except Error Sql.Database := do
  let file ← updateJobs coerce (terminalSet state nowMs transactionId resultDigest errorSummary)
    job.jobId file
  drainPartitionIfEmpty coerce file job.info.spec.queue job.info.spec.partitionKey

/-- The SET clause of `set_nonterminal`. -/
def nonterminalSet (state : JobState) (retryAfterMs : Option Int64) (transactionId : Id) :
    Assignments :=
  [("state", .plain (ofI64 (encodeState state))), ("lease_token", .plain null),
    ("worker_id", .plain null), ("lease_expires_at_ms", .plain null),
    ("retry_after_ms", .plain (.value (ofOption .integer retryAfterMs))),
    ("updated_transaction_id", .plain (ofId transactionId))]

/-- `set_nonterminal`. -/
def setNonterminal (file : Sql.Database) (jobId : Id) (state : JobState)
    (retryAfterMs : Option Int64) (transactionId : Id) : Except Error Sql.Database :=
  updateJobs coerce (nonterminalSet state retryAfterMs transactionId) jobId file

/-- The columns of the `INSERT INTO jobs`. The others are NULL. -/
def enqueuedColumns : List String :=
  ["job_id", "enqueue_sequence", "enqueue_transaction_id", "queue", "partition_key", "payload",
    "not_before_ms", "max_attempts", "effect_mode", "idempotency_key", "state", "attempt",
    "updated_transaction_id"]

def enqueuedValues (spec : JobSpec) (sequence : Int64) (transactionId : Id) : Row :=
  [idValue spec.jobId, .integer sequence, idValue transactionId, textValue spec.queue,
    textValue spec.partitionKey, .blob spec.payload, .integer spec.notBeforeMs,
    u32Value spec.maxAttempts, .integer spec.effectMode.encode.toUInt64.toInt64,
    ofOption textValue spec.idempotencyKey, .integer (encodeState .pending), .integer 0,
    idValue transactionId]

/-- `apply_enqueue`. -/
def applyEnqueue (file : Sql.Database) (transactionId : Id) (spec : JobSpec) :
    Except Error Sql.Database := do
  match ← loadJob file spec.jobId with
  | some _ =>
    let jobId := spec.jobId
    invalid s!"job {jobId} already exists"
  | none => do
    let sequence ← nextOf file "jobs" "enqueue_sequence"
    let file ← executeSql coerce
      (.insert "jobs" enqueuedColumns (enqueuedValues spec sequence transactionId)) file
    executeSql coerce
      (.insertOrIgnore "active_partitions" ["queue", "partition_key", "first_active_sequence"]
        [textValue spec.queue, textValue spec.partitionKey, .integer sequence]) file

/-- `apply_ack`. -/
def applyAck (file : Sql.Database) (transactionId : Id) (nowMs : Int64) (ack : JobAck) :
    Except Error Sql.Database := do
  let job ← requireJob file ack.jobId
  ensureTransition job .succeeded
  ensureLeaseToken job ack.leaseToken
  setTerminal coerce file job .succeeded nowMs transactionId ack.resultDigest none

/-- `apply_fail`. -/
def applyFail (file : Sql.Database) (transactionId : Id) (nowMs : Int64) (failure : JobFailure) :
    Except Error Sql.Database := do
  let job ← requireJob file failure.jobId
  ensureTransition job (if job.exhausted then .dead else .retryWait)
  ensureLeaseToken job failure.leaseToken
  if job.exhausted then
    setTerminal coerce file job .dead nowMs transactionId none (some failure.errorSummary)
  else do
    let retryAfterMs ← retryAfter nowMs failure.retryAfterMs
    let file ← setNonterminal coerce file job.jobId .retryWait (some retryAfterMs) transactionId
    updateJobs coerce [("error_summary", .plain (ofString failure.errorSummary))] job.jobId file

/-- The guard of `apply_cancel`. -/
def ensureCancellable (job : LoadedJob) : Option Id → Except Error Unit
  | some token => ensureLeaseToken job token
  | none =>
    if job.info.state = .pending then .ok ()
    else
      let jobId := job.jobId
      invalid s!"cancelling leased job {jobId} requires its lease token"

/-- `apply_cancel`. -/
def applyCancel (file : Sql.Database) (transactionId : Id) (nowMs : Int64)
    (cancellation : JobCancellation) : Except Error Sql.Database := do
  let job ← requireJob file cancellation.jobId
  ensureTransition job .cancelled
  ensureCancellable job cancellation.leaseToken
  setTerminal coerce file job .cancelled nowMs transactionId none none

/-- `apply_resolve`. -/
def applyResolve (file : Sql.Database) (transactionId : Id) (nowMs : Int64)
    (resolution : JobResolution) : Except Error Sql.Database := do
  let job ← requireJob file resolution.jobId
  match resolution.resolution with
  | .retry =>
    if job.exhausted then do
      ensureTransition job .dead
      setTerminal coerce file job .dead nowMs transactionId none
        (some "retry resolution exhausted max_attempts")
    else do
      ensureTransition job .pending
      setNonterminal coerce file job.jobId .pending none transactionId
  | .markSucceeded => do
    ensureTransition job .succeeded
    setTerminal coerce file job .succeeded nowMs transactionId none none
  | .markDead => do
    ensureTransition job .dead
    setTerminal coerce file job .dead nowMs transactionId none (some "resolved as dead")

/-- `apply_extend_lease`. -/
def applyExtendLease (file : Sql.Database) (extension : LeaseExtension) (nowMs : Int64) :
    Except LeaseError (Sql.Database × LeaseExtensionReceipt) := do
  let jobId := extension.jobId
  match ← loadJob file jobId with
  | none => conflicting (.jobNotFound jobId)
  | some job =>
    let currentMs := job.info.leaseExpiresAtMs.getD Int64.minValue
    if job.info.state ≠ .leased then conflicting (.notLeased jobId job.info.state)
    else if job.leaseToken ≠ some extension.leaseToken then conflicting (.invalidToken jobId)
    else if nowMs > currentMs then conflicting (.expired jobId currentMs nowMs)
    else if extension.newExpiryMs ≤ currentMs then
      conflicting (.expiryNotLater jobId currentMs extension.newExpiryMs)
    else do
      let set : Assignments := [("lease_expires_at_ms", .plain (ofI64 extension.newExpiryMs))]
      let file ← updateJobs coerce set jobId file
      let file ← executeSql coerce
        (.update "claim_receipts" set
          (bothAre "job_id" "lease_token" (ofId jobId) (ofId extension.leaseToken))) file
      .ok (file, ⟨jobId, job.info.attempt, extension.newExpiryMs⟩)

end Jobs

/-! ## Batches -/

section Batches

variable (coerce : Affinity → Value → Value)

/-- The columns of an `INSERT INTO events`, after the rowid that SQLite picks. -/
def eventValues (transactionId : Id) (event : Event) (streamVersion : UInt64) : Row :=
  [idValue event.eventId, idValue transactionId, textValue event.streamId,
    .integer streamVersion.toInt64, textValue event.eventType, u32Value event.schemaVersion,
    .integer event.occurredAtMs, ofOption idValue event.causationId,
    ofOption idValue event.correlationId, .blob event.payload, .blob event.metadata]

/-- `insert_event`. AUTOINCREMENT is the next number of the column. -/
def insertEvent (file : Sql.Database) (transactionId : Id) (event : Event)
    (streamVersion : UInt64) : Except CommitError Sql.Database := do
  let globalSequence ← nextOf file "events" "global_sequence"
  executeSql coerce
    (.insert "events"
      ["global_sequence", "event_id", "transaction_id", "stream_id", "stream_version",
        "event_type", "schema_version", "occurred_at_ms", "causation_id", "correlation_id",
        "payload", "metadata"]
      (.integer globalSequence :: eventValues transactionId event streamVersion)) file

/-- `clear_entries`. -/
def clearEntries (file : Sql.Database) (projection : String) : Except Error Sql.Database :=
  executeSql coerce
    (.delete "projection_entries" (columnIs "projection" (ofString projection)) none) file

def entryColumns : List String := ["projection", "key", "value"]

def entryValues (projection : String) (key value : Bytes) : Row :=
  [textValue projection, .blob key, .blob value]

/-- The `INSERT INTO projection_entries` of a Replace. -/
def insertEntry (projection : String) (file : Sql.Database) (entry : ProjectionEntry) :
    Except Error Sql.Database :=
  executeSql coerce
    (.insert "projection_entries" entryColumns (entryValues projection entry.key entry.value)) file

def applyMutation (projection : String) (file : Sql.Database) :
    ProjectionMutation → Except Error Sql.Database
  | .put key value =>
    executeSql coerce
      (.upsert "projection_entries" entryColumns (entryValues projection key value)
        ["projection", "key"] [("value", .plain (.column "excluded.value"))]) file
  | .delete key =>
    executeSql coerce
      (.delete "projection_entries"
        (bothAre "projection" "key" (ofString projection) (ofBytes key)) none) file
  | .clear => clearEntries coerce file projection
  | .replace entries => do
    let file ← clearEntries coerce file projection
    entries.foldlM (insertEntry coerce projection) file

/-- `INSERT INTO table (name, version) … ON CONFLICT(name) DO UPDATE SET version =
excluded.version`. -/
def setVersion {ε : Type} [FromStorage ε] (table name version key : String) (n : UInt64)
    (file : Sql.Database) : Except ε Sql.Database :=
  executeSql coerce
    (.upsert table [name, version] [textValue key, .integer n.toInt64] [name]
      [(version, .plain (.column ("excluded." ++ version)))]) file

/-- `apply_projection_patch`. -/
def applyProjectionPatch (file : Sql.Database) (patch : ProjectionPatch) :
    Except Error Sql.Database := do
  patch.validate.mapError Error.validation
  let actual ← fetch (projectionVersion file patch.projection)
  if actual ≠ patch.expectedVersion then
    .error (.conflict (.projectionVersion patch.projection patch.expectedVersion actual))
  else do
    let file ← setVersion coerce "projection_meta" "projection" "version" patch.projection
      patch.newVersion file
    patch.mutations.foldlM (applyMutation coerce patch.projection) file

/-- The columns of the two `INSERT INTO transactions`. -/
def transactionColumns : List String :=
  ["transaction_id", "transaction_sequence", "committed_at_ms", "correlation_id", "metadata",
    "request_digest", "operation_count"]

/-- The next sequence and the `INSERT INTO transactions`. The values come from the row. -/
def insertTransaction {ε : Type} [FromStorage ε] (file : Sql.Database)
    (row : Int64 → TransactionRow) : Except ε (Sql.Database × Int64) := do
  let sequence ← nextOf file "transactions" "transaction_sequence"
  let file ← executeSql coerce
    (.insert "transactions" transactionColumns (storedTransaction (row sequence))) file
  .ok (file, sequence)

structure OpenBatch where
  file : Sql.Database
  streamVersions : StreamVersions

/-- `current_stream_version`. -/
def currentStreamVersion (file : Sql.Database) (streamId : String) : Except CommitError UInt64 :=
  fetch (streamVersion file streamId)

def checkExpected (file : Sql.Database) (streamVersions : StreamVersions)
    (expected : ExpectedStreamVersion) : Except CommitError StreamVersions := do
  let actual ← currentStreamVersion file expected.streamId
  if actual ≠ expected.version then
    .error (.conflict (.streamVersion expected.streamId expected.version actual))
  else .ok (streamVersions.insert expected.streamId actual)

/-- The version that the batch holds for a stream, or else the stored one. -/
def OpenBatch.version (tx : OpenBatch) (streamId : String) : Except CommitError UInt64 :=
  match tx.streamVersions.lookup streamId with
  | some version => .ok version
  | none => currentStreamVersion tx.file streamId

/-- `Operation::AppendEvent`. -/
def appendEvent (tx : OpenBatch) (transactionId : Id) (event : Event) :
    Except CommitError OpenBatch := do
  let current ← tx.version event.streamId
  match checkedAddU64 current 1 with
  | none => .error (.validation ⟨s!"stream {event.streamId} version overflow"⟩)
  | some next => do
    let file ← insertEvent coerce tx.file transactionId event next
    .ok ⟨file, tx.streamVersions.insert event.streamId next⟩

/-- An operation that leaves the stream versions of the batch alone. -/
def OpenBatch.run (tx : OpenBatch) (result : Except Error Sql.Database) :
    Except CommitError OpenBatch := do
  let file ← result.mapError CommitError.ofError
  .ok { tx with file := file }

def applyOperation (batch : CommitBatch) (tx : OpenBatch) :
    Operation → Except CommitError OpenBatch
  | .appendEvent event => appendEvent coerce tx batch.transactionId event
  | .projectionPatch patch => tx.run (applyProjectionPatch coerce tx.file patch)
  | .enqueueJob spec => tx.run (applyEnqueue coerce tx.file batch.transactionId spec)
  | .ackJob ack => tx.run (applyAck coerce tx.file batch.transactionId batch.committedAtMs ack)
  | .failJob failure =>
    tx.run (applyFail coerce tx.file batch.transactionId batch.committedAtMs failure)
  | .cancelJob cancellation =>
    tx.run (applyCancel coerce tx.file batch.transactionId batch.committedAtMs cancellation)
  | .resolveJob resolution =>
    tx.run (applyResolve coerce tx.file batch.transactionId batch.committedAtMs resolution)
  | .extendLease extension => do
    let (file, _) ←
      (applyExtendLease coerce tx.file extension batch.committedAtMs).mapError leaseToCommit
    .ok { tx with file := file }

/-- `lookup_transaction`: the sequence, the time and the digest. -/
def lookupTransaction (file : Sql.Database) (transactionId : Id) :
    Except CommitError (Option (UInt64 × Int64 × Bytes)) :=
  fetch (queryRow file
    { names := ["transaction_sequence", "committed_at_ms", "request_digest"]
      source := .table "transactions"
      condition := some (columnIs "transaction_id" (ofId transactionId)) }
    fun row => do
      let sequence ← Row.get row 0 getI64
      let committedAtMs ← Row.get row 1 getI64
      let digest ← Row.get row 2 getVec
      .ok (sequence.toUInt64, committedAtMs, digest))

inductive StagedCommit
  /-- The batch is on record: nothing is written. -/
  | resubmitted (receipt : CommitReceipt)
  | staged (file : Sql.Database) (receipt : CommitReceipt)

/-- The transaction of a batch that is not a resubmission. -/
def stageBatch (file : Sql.Database) (batch : CommitBatch) :
    Except CommitError (Sql.Database × CommitReceipt) := do
  let streamVersions ← batch.expectedStreamVersions.foldlM (checkExpected file) ∅
  let (file, sequence) ← insertTransaction coerce file batch.row
  let tx ← batch.operations.foldlM (applyOperation coerce batch) ⟨file, streamVersions⟩
  let file ← tx.streamVersions.entries.foldlM
    (fun file entry =>
      setVersion coerce "streams" "stream_id" "current_version" entry.1 entry.2 file) tx.file
  .ok (file, ⟨batch.transactionId, sequence.toUInt64, batch.committedAtMs⟩)

/-- `commit` up to its COMMIT. -/
def stageCommit (limits : Limits) (file : Sql.Database) (batch : CommitBatch) :
    Except CommitError StagedCommit := do
  (validateBatch limits batch).mapError CommitError.validation
  match ← lookupTransaction file batch.transactionId with
  | some (sequence, committedAtMs, digest) =>
    if digest = requestDigest batch then
      .ok (.resubmitted ⟨batch.transactionId, sequence, committedAtMs⟩)
    else .error .duplicateIdWithDifferentContent
  | none => do
    let (file, receipt) ← stageBatch coerce file batch
    .ok (.staged file receipt)

end Batches

/-! ## Claims -/

section Claims

variable (coerce : Affinity → Value → Value)

structure MaintenanceAction where
  job : LoadedJob
  target : JobState

/-- Where an expired lease goes. -/
def LoadedJob.expiredTo (job : LoadedJob) : JobState :=
  match job.info.spec.effectMode with
  | .requiresReconciliation => .uncertain
  | .explicitlyIdempotent => if job.exhausted then .dead else .pending

/-- `plan_maintenance`. -/
def planMaintenance (file : Sql.Database) (request : ClaimRequest) :
    Except Error (List MaintenanceAction) := do
  let rows ← fetch (query file
    { names := jobColumns
      source := .table "jobs"
      condition := some (.and
        (bothAre "queue" "state" (ofString request.queue) (ofI64 (encodeState .leased)))
        (.compare .lt (.column "lease_expires_at_ms") (ofI64 request.nowMs)))
      order := some ("lease_expires_at_ms", .ascending)
      limit := some (Int64.ofNat maintenanceLimit) })
  let jobs ← fetch (rows.mapM rowToLoadedJob)
  .ok (jobs.map fun job => ⟨job, job.expiredTo⟩)

/-- One write of the maintenance phase. -/
def applyMaintenance (transactionId : Id) (nowMs : Int64) (file : Sql.Database)
    (action : MaintenanceAction) : Except Error Sql.Database := do
  ensureTransition action.job action.target
  match action.target with
  | .dead =>
    setTerminal coerce file action.job .dead nowMs transactionId none
      (some "lease expired at final attempt")
  | target => setNonterminal coerce file action.job.jobId target none transactionId

structure ProposedLease where
  job : LoadedJob
  leaseToken : Id

structure LeasePlan where
  leases : List ProposedLease
  lastLeased : Option String
  entropy : Entropy

/-- The first nonterminal job of a partition. -/
def partitionHead (file : Sql.Database) (queue partitionKey : String) :
    Except Error (Option LoadedJob) :=
  fetch (queryRow file
    { names := jobColumns
      source := .table "jobs"
      condition := some (.and
        (bothAre "queue" "partition_key" (ofString queue) (ofString partitionKey)) stateIsActive)
      order := some ("enqueue_sequence", .ascending)
      limit := some 1 }
    rowToLoadedJob)

/-- The head may be leased now. -/
def LoadedJob.ready (nowMs : Int64) (job : LoadedJob) : Bool :=
  match job.info.state with
  | .pending => decide (job.info.spec.notBeforeMs ≤ nowMs)
  | .retryWait =>
    decide (job.info.spec.notBeforeMs ≤ nowMs) &&
      decide (job.info.retryAfterMs.getD Int64.minValue ≤ nowMs)
  | _ => false

/-- The cursor of a queue. -/
def queueCursor (file : Sql.Database) (queue : String) : Except Error (Option String) := do
  let cursor ← fetch (queryRow file
    { names := ["last_partition_key"]
      source := .table "queue_cursors"
      condition := some (columnIs "queue" (ofString queue)) }
    fun row => Row.get row 0 (getOption getString))
  .ok cursor.join

/-- The partitions of the queue in the order in which they are visited. -/
def partitionsFromCursor (file : Sql.Database) (queue : String) : Except Error (List String) := do
  let cursor ← queueCursor file queue
  let rows ← fetch (query file
    { names := ["partition_key"]
      source := .table "active_partitions"
      condition := some (columnIs "queue" (ofString queue))
      order := some ("partition_key", .ascending) })
  let partitions ← fetch (rows.mapM fun row => Row.get row 0 getString)
  let start :=
    match cursor with
    | some cursor => partitionPoint (fun p => decide (utf8 p ≤ utf8 cursor)) partitions
    | none => 0
  .ok (partitions.drop start ++ partitions.take start)

/-- The loop of `plan_leases`. -/
def leasePartitions (file : Sql.Database) (request : ClaimRequest) :
    List String → LeasePlan → Except Error LeasePlan
  | [], plan => .ok plan
  | partition :: rest, plan =>
    if plan.leases.length ≥ request.limit then .ok plan
    else do
      match ← partitionHead file request.queue partition with
      | none => leasePartitions file request rest plan
      | some job =>
        if job.ready request.nowMs then do
          let (leaseToken, entropy) ← Id.new plan.entropy
          leasePartitions file request rest
            ⟨plan.leases ++ [⟨job, leaseToken⟩], some partition, entropy⟩
        else leasePartitions file request rest plan

/-- `plan_leases`. -/
def planLeases (file : Sql.Database) (request : ClaimRequest) (entropy : Entropy) :
    Except Error LeasePlan := do
  if request.limit = 0 then .ok ⟨[], none, entropy⟩
  else do
    let partitions ← partitionsFromCursor file request.queue
    leasePartitions file request partitions ⟨[], none, entropy⟩

/-- The SET clause of a lease grant. -/
def leaseSet (leaseToken : Id) (workerId : String) (leaseExpiresAtMs : Int64) (attempt : UInt32)
    (transactionId : Id) : Assignments :=
  [("state", .plain (ofI64 (encodeState .leased))),
    ("attempt", .plain (.value (u32Value attempt))), ("lease_token", .plain (ofId leaseToken)),
    ("worker_id", .plain (ofString workerId)),
    ("lease_expires_at_ms", .plain (ofI64 leaseExpiresAtMs)), ("retry_after_ms", .plain null),
    ("updated_transaction_id", .plain (ofId transactionId))]

/-- One write of the leasing phase. -/
def grantLease (transactionId : Id) (request : ClaimRequest) (leaseExpiresAtMs : Int64)
    (file : Sql.Database) (lease : ProposedLease) : Except Error Sql.Database := do
  let jobId := lease.job.jobId
  let attempt := lease.job.info.attempt + 1
  let file ← updateJobs coerce
    (leaseSet lease.leaseToken request.workerId leaseExpiresAtMs attempt transactionId) jobId file
  executeSql coerce
    (.insert "claim_receipts"
      ["transaction_id", "job_id", "lease_token", "attempt", "worker_id", "lease_expires_at_ms"]
      [idValue transactionId, idValue jobId, idValue lease.leaseToken, u32Value attempt,
        textValue request.workerId, .integer leaseExpiresAtMs]) file

/-- What the caller gets back for a granted lease. -/
def ProposedLease.claimed (request : ClaimRequest) (leaseExpiresAtMs : Int64)
    (lease : ProposedLease) : ClaimedJob where
  jobId := lease.job.jobId
  queue := lease.job.info.spec.queue
  partitionKey := lease.job.info.spec.partitionKey
  payload := lease.job.info.spec.payload
  workerId := request.workerId
  leaseToken := lease.leaseToken
  attempt := lease.job.info.attempt + 1
  leaseExpiresAtMs := leaseExpiresAtMs
  idempotencyKey := lease.job.info.spec.idempotencyKey

/-- The upsert of `queue_cursors`. -/
def advanceCursor (file : Sql.Database) (queue : String) : Option String → Except Error Sql.Database
  | some partition =>
    executeSql coerce
      (.upsert "queue_cursors" ["queue", "last_partition_key"]
        [textValue queue, textValue partition] ["queue"]
        [("last_partition_key", .plain (.column "excluded.last_partition_key"))]) file
  | none => .ok file

structure StagedClaim where
  file : Sql.Database
  transactionId : Id
  jobs : List ClaimedJob

/-- The write phase of `claim_jobs`. -/
def writeClaim (file : Sql.Database) (request : ClaimRequest) (leaseExpiresAtMs : Int64)
    (maintenance : List MaintenanceAction) (plan : LeasePlan) : Except Error StagedClaim := do
  let (transactionId, _) ← Id.new plan.entropy
  let (file, _) ← insertTransaction coerce file
    (claimRow transactionId request (maintenance.length + plan.leases.length))
  let file ← maintenance.foldlM (applyMaintenance coerce transactionId request.nowMs) file
  let file ← plan.leases.foldlM (grantLease coerce transactionId request leaseExpiresAtMs) file
  let file ← advanceCursor coerce file request.queue plan.lastLeased
  .ok ⟨file, transactionId, plan.leases.map (ProposedLease.claimed request leaseExpiresAtMs)⟩

/-- `claim_jobs` up to its COMMIT; `none` is the rolled back `Noop`. -/
def stageClaim (file : Sql.Database) (request : ClaimRequest) (entropy : Entropy) :
    Except Error (Option StagedClaim) := do
  let leaseExpiresAtMs ← leaseExpiry request
  let maintenance ← planMaintenance file request
  let plan ← planLeases file request entropy
  if maintenance.isEmpty ∧ plan.leases.isEmpty then .ok none
  else do
    let staged ← writeClaim coerce file request leaseExpiresAtMs maintenance plan
    .ok (some staged)

end Claims

/-! ## The store -/

/-- A store and the tables of its file. -/
structure TableStore where
  file : Sql.Database
  writer : Writer

namespace TableStore

variable (coerce : Affinity → Value → Value) (store : TableStore)

/-- `connection`. -/
def connection : TableStore := { store with writer := .live }

/-- The COMMIT of the staged tables, and the error text if its outcome is lost. -/
def finish (staged : Sql.Database) : CommitStep → TableStore × Option String
  | .done => (⟨staged, .live⟩, none)
  | .lost persisted storageError =>
    (⟨if persisted then staged else store.file, .poisoned⟩, some storageError)

/-- `ControlPlaneStore::commit`. -/
def commit (limits : Limits) (batch : CommitBatch) (step : CommitStep) :
    TableStore × Except CommitError CommitReceipt :=
  match stageCommit coerce limits store.file batch with
  | .error e => (store.connection, .error e)
  | .ok (.resubmitted receipt) => (store.connection, .ok receipt)
  | .ok (.staged file receipt) =>
    match store.finish file step with
    | (store, none) => (store, .ok receipt)
    | (store, some e) => (store, .error (.indeterminate ⟨batch.transactionId, e⟩))

/-- `ControlPlaneStore::claim_jobs`. -/
def claimJobs (request : ClaimRequest) (entropy : Entropy) (step : CommitStep) :
    TableStore × Except ClaimError ClaimOutcome :=
  match stageClaim coerce store.file request entropy with
  | .error e => (store.connection, .error (errorToClaim e))
  | .ok none => (store.connection, .ok .noop)
  | .ok (some staged) =>
    match store.finish staged.file step with
    | (store, none) =>
      (store, .ok (if staged.jobs.isEmpty then .maintenanceCommitted ⟨staged.transactionId⟩
        else .committed ⟨staged.transactionId, staged.jobs, []⟩))
    | (store, some e) =>
      (store, .error (.indeterminate ⟨staged.transactionId, staged.jobs.map ClaimedJob.jobId, e⟩))

/-- `ControlPlaneStore::extend_lease`. -/
def extendLease (jobId leaseToken : Id) (newExpiryMs nowMs : Int64) (step : CommitStep) :
    TableStore × Except LeaseError LeaseExtensionReceipt :=
  match applyExtendLease coerce store.file ⟨jobId, leaseToken, newExpiryMs⟩ nowMs with
  | .error e => (store.connection, .error e)
  | .ok (file, receipt) =>
    match store.finish file step with
    | (store, none) => (store, .ok receipt)
    | (store, some e) => (store, .error (.indeterminate ⟨jobId, e⟩))

/-- One call. A recovery can fail in its query. -/
def answer : Call → TableStore × Except Error Reply
  | .commit limits batch step =>
    (store.commit coerce limits batch step).map id fun r => .ok (.commit r)
  | .claimJobs request entropy step =>
    (store.claimJobs coerce request entropy step).map id fun r => .ok (.claimJobs r)
  | .extendLease jobId leaseToken newExpiryMs nowMs step =>
    (store.extendLease coerce jobId leaseToken newExpiryMs nowMs step).map id
      fun r => .ok (.extendLease r)
  | .recoverTransaction transactionId =>
    (store.connection,
      (TableReads.recoverTransaction store.file transactionId).map Reply.recoverTransaction)
  | .recoverClaim transactionId nowMs =>
    (store.connection,
      (TableReads.recoverClaim store.file transactionId nowMs).map Reply.recoverClaim)

end TableStore

end Minisqlite.TableWrites
