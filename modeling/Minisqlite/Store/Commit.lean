import Mathlib.Data.List.AList
import Minisqlite.Digest
import Minisqlite.Store.Claim
import Minisqlite.Validate

/-!
# The commit pipeline

`commit` of `store/commit.rs` up to its COMMIT, with `insert_event` and
`apply_projection_patch`. `stageCommit` runs the whole batch on a copy of the
database; nothing of it is durable before the COMMIT.
-/

namespace Minisqlite

open Tables Runs

/-- The `HashMap<String, u64>` of stream versions that a batch has seen. -/
abbrev StreamVersions := AList fun _ : String => UInt64

/-- The open transaction of a batch. -/
structure OpenBatch where
  db : Db
  streamVersions : StreamVersions

/-! ## Events -/

/-- `insert_event`. -/
def insertEvent (db : Db) (transactionId : Id) (event : Event) (streamVersion : UInt64) :
    Except CommitError Db := do
  let globalSequence ← execute (nextSequence (db.events.rows.map EventRow.globalSequence))
  execute (db.requireTransaction transactionId)
  let events ← execute (db.events.insert
    ⟨globalSequence, transactionId, streamVersion.toInt64, event⟩)
  .ok { db with events := events }

/-- One expected stream version, compared with the durable one. -/
def checkExpected (db : Db) (streamVersions : StreamVersions) (expected : ExpectedStreamVersion) :
    Except CommitError StreamVersions :=
  let actual := db.streamVersion expected.streamId
  if actual ≠ expected.version then
    .error (.conflict (.streamVersion expected.streamId expected.version actual))
  else .ok (streamVersions.insert expected.streamId actual)

/-- The version that the open batch holds for a stream. -/
def OpenBatch.version (tx : OpenBatch) (streamId : String) : UInt64 :=
  (tx.streamVersions.lookup streamId).getD (tx.db.streamVersion streamId)

/-- The version of the stream's next event. -/
def OpenBatch.nextVersion (tx : OpenBatch) (streamId : String) : Except CommitError UInt64 :=
  match checkedAddU64 (tx.version streamId) 1 with
  | some next => .ok next
  | none => .error (.validation ⟨s!"stream {streamId} version overflow"⟩)

/-- `Operation::AppendEvent`. -/
def appendEvent (tx : OpenBatch) (transactionId : Id) (event : Event) :
    Except CommitError OpenBatch := do
  let next ← tx.nextVersion event.streamId
  let db ← insertEvent tx.db transactionId event next
  .ok ⟨db, tx.streamVersions.insert event.streamId next⟩

/-! ## Projections -/

/-- `clear_entries`. -/
def clearEntries (db : Db) (projection : String) : Db :=
  { db with
    projectionEntries :=
      db.projectionEntries.delete fun row => decide (row.projection = projection) }

/-- An `INSERT INTO projection_entries`. -/
def insertEntry (projection : String) (db : Db) (entry : ProjectionEntry) : Except Error Db := do
  execute (db.requireProjection projection)
  let projectionEntries ← execute (db.projectionEntries.insert ⟨projection, entry.key, entry.value⟩)
  .ok { db with projectionEntries := projectionEntries }

def applyMutation (projection : String) (db : Db) : ProjectionMutation → Except Error Db
  | .put key value => do
    execute (db.requireProjection projection)
    .ok { db with
      projectionEntries := db.projectionEntries.upsert ⟨projection, key, value⟩
        (fun row => { row with value := value }) fun _ => rfl }
  | .delete key =>
    .ok { db with
      projectionEntries := db.projectionEntries.delete fun row =>
        decide (row.projection = projection) && decide (row.key = key) }
  | .clear => .ok (clearEntries db projection)
  | .replace entries => entries.foldlM (insertEntry projection) (clearEntries db projection)

/-- The upsert of `projection_meta`. -/
def setProjectionVersion (db : Db) (projection : String) (version : Int64) : Db :=
  { db with
    projectionMeta := db.projectionMeta.upsert ⟨projection, version⟩
      (fun row => { row with version := version }) fun _ => rfl }

/-- `apply_projection_patch`. -/
def applyProjectionPatch (db : Db) (patch : ProjectionPatch) : Except Error Db := do
  patch.validate.mapError Error.validation
  if db.projectionVersion patch.projection ≠ patch.expectedVersion then
    .error (.conflict (.projectionVersion patch.projection patch.expectedVersion
      (db.projectionVersion patch.projection)))
  else
    patch.mutations.foldlM (applyMutation patch.projection)
      (setProjectionVersion db patch.projection patch.newVersion.toInt64)

/-! ## The batch -/

/-- An operation that leaves the stream versions of the batch alone. -/
def OpenBatch.run (tx : OpenBatch) (result : Except Error Db) : Except CommitError OpenBatch := do
  let db ← result.mapError CommitError.ofError
  .ok { tx with db := db }

/-- How a batch reports a refused lease extension. -/
def leaseToCommit : LeaseError → CommitError
  | .conflict conflict => .conflict (.lease conflict)
  | .storage error => .storage error
  | .indeterminate lease => .storage (.sqlite lease.storageError)

def applyOperation (batch : CommitBatch) (tx : OpenBatch) :
    Operation → Except CommitError OpenBatch
  | .appendEvent event => appendEvent tx batch.transactionId event
  | .projectionPatch patch => tx.run (applyProjectionPatch tx.db patch)
  | .enqueueJob spec => tx.run (applyEnqueue tx.db batch.transactionId spec)
  | .ackJob ack => tx.run (applyAck tx.db batch.transactionId batch.committedAtMs ack)
  | .failJob failure => tx.run (applyFail tx.db batch.transactionId batch.committedAtMs failure)
  | .cancelJob cancellation =>
    tx.run (applyCancel tx.db batch.transactionId batch.committedAtMs cancellation)
  | .resolveJob resolution =>
    tx.run (applyResolve tx.db batch.transactionId batch.committedAtMs resolution)
  | .extendLease extension => do
    let (db, _) ← (applyExtendLease tx.db extension batch.committedAtMs).mapError leaseToCommit
    .ok { tx with db := db }

/-- The transactions row of a batch. -/
def CommitBatch.row (batch : CommitBatch) (sequence : Int64) : TransactionRow where
  transactionId := batch.transactionId
  transactionSequence := sequence
  committedAtMs := batch.committedAtMs
  correlationId := batch.correlationId
  metadata := batch.metadata
  requestDigest := requestDigest batch
  operationCount := Int64.ofNat batch.operations.length

/-- The receipt that a transactions row stands for. -/
def TransactionRow.receipt (row : TransactionRow) : CommitReceipt :=
  ⟨row.transactionId, row.transactionSequence.toUInt64, row.committedAtMs⟩

/-- Everything before the operations: the expectations and the transactions row. -/
def openBatch (db : Db) (batch : CommitBatch) : Except CommitError (OpenBatch × CommitReceipt) := do
  let streamVersions ← batch.expectedStreamVersions.foldlM (checkExpected db) ∅
  let (db, sequence) ← insertTransaction db batch.row
  .ok (⟨db, streamVersions⟩, (batch.row sequence).receipt)

/-- The upsert of one stream's version. -/
def setStreamVersion (db : Db) (entry : Sigma fun _ : String => UInt64) : Db :=
  { db with
    streams := db.streams.upsert ⟨entry.1, entry.2.toInt64⟩
      (fun row => { row with currentVersion := entry.2.toInt64 }) fun _ => rfl }

/-- Every version that the batch holds is written to `streams`. -/
def writeStreamVersions (tx : OpenBatch) : Db :=
  tx.streamVersions.entries.foldl setStreamVersion tx.db

/-- The transaction of a batch that is not a resubmission. -/
def stageBatch (db : Db) (batch : CommitBatch) : Except CommitError (Db × CommitReceipt) := do
  let (tx, receipt) ← openBatch db batch
  let tx ← batch.operations.foldlM (applyOperation batch) tx
  .ok (writeStreamVersions tx, receipt)

/-- A commit that has not failed before its COMMIT. -/
inductive StagedCommit
  /-- The batch is on record: nothing is written. -/
  | resubmitted (receipt : CommitReceipt)
  | staged (db : Db) (receipt : CommitReceipt)

/-- `commit` up to its COMMIT. -/
def stageCommit (limits : Limits) (db : Db) (batch : CommitBatch) :
    Except CommitError StagedCommit := do
  (validateBatch limits batch).mapError CommitError.validation
  match db.transaction batch.transactionId with
  | some row =>
    if row.requestDigest = requestDigest batch then .ok (.resubmitted row.receipt)
    else .error .duplicateIdWithDifferentContent
  | none => do
    let (db, receipt) ← stageBatch db batch
    .ok (.staged db receipt)

/-- `recover_transaction`. -/
def recoverTransaction (db : Db) (transactionId : Id) : TransactionRecovery :=
  match db.transaction transactionId with
  | some row => .committed row.receipt
  | none => .absent

end Minisqlite
