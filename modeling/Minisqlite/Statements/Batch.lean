import Minisqlite.Effects.Batch
import Minisqlite.Statements.Jobs

/-!
# The statements of a batch

`commit` up to its COMMIT: the expectations, the row in `transactions`, the operations in
order, the versions of the streams. `stageCommit_agrees` says that the file then holds what
the typed pipeline has staged.
-/

namespace Minisqlite.TableWrites

open Sql Tables TableReads Runs Migrations

/-! ## 1. Events -/

section Events

variable {coerce : Affinity → Value → Value} {file : Sql.Database} {db : Db}

theorem insertEvent_agrees (hcoerce : Settled coerce) (h : Stores file db) (transactionId : Id)
    (event : Event) (streamVersion : UInt64) :
    Agree Stores (insertEvent coerce file transactionId event streamVersion)
      (Minisqlite.insertEvent db transactionId event streamVersion) := by
  have hsequence : (nextOf file "events" "global_sequence" : Except CommitError Int64) =
      execute (nextSequence (db.events.rows.map EventRow.globalSequence)) :=
    nextOf_stores h StoreTable.events_mem fun _ => rfl
  unfold insertEvent Minisqlite.insertEvent
  rw [hsequence]
  refine .read fun globalSequence => ?_
  exact insert_child_agrees (t := .events)
    (r := ⟨globalSequence, transactionId, streamVersion.toInt64, event⟩) hcoerce h
    StoreTable.events_mem (by decide) (by cases event with | mk => rfl)
    (refers_transaction_stores h rfl (by decide) rfl)

end Events

/-! ## 2. Projections -/

section Projections

variable {coerce : Affinity → Value → Value} {file : Sql.Database} {db : Db}

theorem clearEntries_agrees (h : Stores file db) (projection : String) :
    Agree Stores (clearEntries coerce file projection)
      (.ok (Minisqlite.clearEntries db projection)) := by
  refine delete_where_agrees (t := .projectionEntries) h StoreTable.projectionEntries_mem
    (fun row _ => ?_) rfl
  exact Condition.selects_eq (eval_text (entry_projection row))

theorem insertEntry_agrees (hcoerce : Settled coerce) (h : Stores file db) (projection : String)
    (entry : ProjectionEntry) :
    Agree Stores (insertEntry coerce projection file entry)
      (Minisqlite.insertEntry projection db entry) :=
  insert_child_agrees (t := .projectionEntries) (r := ⟨projection, entry.key, entry.value⟩)
    hcoerce h StoreTable.projectionEntries_mem (by decide) rfl
    (refers_projection_stores h rfl (by decide) rfl)

/-- A mutation of a projection that has its row. -/
theorem applyMutation_agrees (hcoerce : Settled coerce) (h : Stores file db) {projection : String}
    (hmeta : db.requireProjection projection = some ()) (mutation : ProjectionMutation) :
    Agree Stores (applyMutation coerce projection file mutation)
      (Minisqlite.applyMutation projection db mutation) := by
  cases mutation with
  | put key value =>
    have hrefs : ∀ rows, (file.put "projection_entries" rows).referencesHold
        projectionEntriesTable [storedProjectionEntry ⟨projection, key, value⟩] = true :=
      fun rows => by
        rw [refers_projection_stores h rfl (by decide) rfl, hmeta]
        rfl
    unfold Minisqlite.applyMutation
    rw [hmeta]
    exact upsert_agrees (x := db.projectionEntries) (r := ⟨projection, key, value⟩)
      (g := fun row => { row with value := value }) hcoerce projectionEntries_encoding h
      (h.holds StoreTable.projectionEntries_mem)
      (fun entries => { db with projectionEntries := entries })
      (h.put StoreTable.projectionEntries_mem) (fun _ => rfl) rfl (by decide) rfl
      (fun _ _ => rfl) rfl hrefs
  | delete key =>
    refine delete_where_agrees (t := .projectionEntries) h StoreTable.projectionEntries_mem
      (fun row _ => ?_) rfl
    exact Condition.selects_eq
      (Condition.eval_and (eval_text (entry_projection row)) (eval_bytes (entry_key row)))
  | clear => exact clearEntries_agrees h projection
  | replace entries =>
    unfold applyMutation Minisqlite.applyMutation
    have hclear : Agree Stores (clearEntries coerce file projection)
        (.ok (Minisqlite.clearEntries db projection)) := clearEntries_agrees h projection
    exact hclear.bind fun file db h =>
      Agree.foldlM (fun a b entry hab => insertEntry_agrees hcoerce hab projection entry) entries h

theorem setProjectionVersion_agrees (hcoerce : Settled coerce) (h : Stores file db)
    (projection : String) (version : UInt64) :
    Agree Stores (setVersion coerce "projection_meta" "projection" "version" projection version
      file : Except Error Sql.Database)
      (.ok (setProjectionVersion db projection version.toInt64)) :=
  upsert_agrees (x := db.projectionMeta) (r := ⟨projection, version.toInt64⟩)
    (g := fun row => { row with version := version.toInt64 }) hcoerce projectionMeta_encoding h
    (h.holds StoreTable.projectionMeta_mem)
    (fun projections => { db with projectionMeta := projections })
    (h.put StoreTable.projectionMeta_mem) (fun _ => rfl) rfl (by decide) rfl (fun _ _ => rfl) rfl
    fun _ => rfl

theorem setStreamVersion_agrees (hcoerce : Settled coerce) (h : Stores file db)
    (entry : Sigma fun _ : String => UInt64) :
    Agree Stores (setVersion coerce "streams" "stream_id" "current_version" entry.1 entry.2 file :
      Except CommitError Sql.Database) (.ok (setStreamVersion db entry)) :=
  upsert_agrees (x := db.streams) (r := ⟨entry.1, entry.2.toInt64⟩)
    (g := fun row => { row with currentVersion := entry.2.toInt64 }) hcoerce streams_encoding h
    (h.holds StoreTable.streams_mem) (fun streams => { db with streams := streams })
    (h.put StoreTable.streams_mem) (fun _ => rfl) rfl (by decide) rfl (fun _ _ => rfl) rfl
    fun _ => rfl

theorem applyProjectionPatch_agrees [ColumnErrors] (hcoerce : Settled coerce) (h : Stores file db)
    (patch : ProjectionPatch) :
    Agree Stores (applyProjectionPatch coerce file patch)
      (Minisqlite.applyProjectionPatch db patch) := by
  unfold applyProjectionPatch Minisqlite.applyProjectionPatch
  rw [projectionVersion_stores h]
  refine .read fun _ => .ite (.error _) ?_
  have hlisted : (setProjectionVersion db patch.projection
      patch.newVersion.toInt64).requireProjection patch.projection = some () := by
    rw [Db.requireProjection, setProjectionVersion, Table.lookup_upsert, if_pos rfl]
    rfl
  have hversion := (setProjectionVersion_agrees hcoerce h patch.projection
    patch.newVersion).with_right
      (P := fun db => db.requireProjection patch.projection = some ())
      fun _ hdb => Except.ok.inj hdb ▸ hlisted
  refine (hversion.bind (g := fun db => patch.mutations.foldlM
    (Minisqlite.applyMutation patch.projection) db) fun file db h => ?_)
  refine (Agree.foldlM (R := fun file db => Stores file db ∧
    db.requireProjection patch.projection = some ()) (fun a b mutation hab => ?_)
    patch.mutations h).mono fun _ _ hab => hab.1
  -- The mutations leave the row of the projection where it is.
  refine (applyMutation_agrees hcoerce hab.1 hab.2 mutation).with_right fun next hnext => ?_
  obtain ⟨entries, rfl⟩ := applyMutation_ok hnext
  exact hab.2

end Projections

/-! ## 3. The pipeline -/

/-- The open batch of the file and that of the store. -/
structure StoresBatch (a : OpenBatch) (b : Minisqlite.OpenBatch) : Prop where
  stores : Stores a.file b.db
  streamVersions : a.streamVersions = b.streamVersions

/-- What is ready to COMMIT. -/
inductive StoresCommit : StagedCommit → Minisqlite.StagedCommit → Prop
  | resubmitted (receipt : CommitReceipt) :
    StoresCommit (.resubmitted receipt) (.resubmitted receipt)
  | staged {file : Sql.Database} {db : Db} (stores : Stores file db) (receipt : CommitReceipt) :
    StoresCommit (.staged file receipt) (.staged db receipt)

section Pipeline

variable {coerce : Affinity → Value → Value} {file : Sql.Database} {db : Db} {batch : CommitBatch}
  {a : OpenBatch} {b : Minisqlite.OpenBatch}

theorem insertTransaction_agrees {ε : Type} [FromStorage ε] (hcoerce : Settled coerce)
    (h : Stores file db) (row : Int64 → TransactionRow) :
    Agree (fun a b => Stores a.1 b.1 ∧ a.2 = b.2)
      (insertTransaction coerce file row : Except ε _) (Minisqlite.insertTransaction db row) := by
  have hsequence : (nextOf file "transactions" "transaction_sequence" : Except ε Int64) =
      execute (nextSequence (db.transactions.rows.map TransactionRow.transactionSequence)) :=
    nextOf_stores h StoreTable.transactions_mem fun _ => rfl
  unfold insertTransaction Minisqlite.insertTransaction
  rw [hsequence]
  refine .read fun sequence => ?_
  have hinsert : Agree Stores
      (executeSql coerce
        (.insert "transactions" transactionColumns (storedTransaction (row sequence))) file)
      (execute (db.transactions.insert (row sequence)) >>= fun transactions =>
        (.ok { db with transactions := transactions } : Except ε Db)) :=
    insert_agrees (t := .transactions) (r := row sequence) hcoerce h StoreTable.transactions_mem
      (by decide) rfl fun _ => rfl
  refine Eq.mp (congrArg (Agree _ _) ?_)
    (hinsert.bind (g := fun db => .ok (db, sequence)) fun file db h => .ok ⟨h, rfl⟩)
  rw [bind_assoc]
  rfl

theorem currentStreamVersion_stores [ColumnErrors] (h : Stores file db) (streamId : String) :
    currentStreamVersion file streamId = .ok (db.streamVersion streamId) := by
  exact fetch_ok (streamVersion_stores h streamId)

theorem checkExpected_stores [ColumnErrors] (h : Stores file db) :
    checkExpected file = Minisqlite.checkExpected db := by
  funext streamVersions expected
  rw [checkExpected, currentStreamVersion_stores h]
  rfl

theorem version_stores [ColumnErrors] (h : StoresBatch a b) (streamId : String) :
    a.version streamId = .ok (b.version streamId) := by
  unfold OpenBatch.version Minisqlite.OpenBatch.version
  rw [h.streamVersions]
  cases b.streamVersions.lookup streamId with
  | none => exact currentStreamVersion_stores h.stores streamId
  | some version => rfl

theorem appendEvent_agrees [ColumnErrors] (hcoerce : Settled coerce) (h : StoresBatch a b)
    (transactionId : Id) (event : Event) :
    Agree StoresBatch (appendEvent coerce a transactionId event)
      (Minisqlite.appendEvent b transactionId event) := by
  refine .read_left (version_stores h event.streamId) ?_
  cases hnext : checkedAddU64 (b.version event.streamId) 1 with
  | none =>
    unfold Minisqlite.appendEvent Minisqlite.OpenBatch.nextVersion
    rw [hnext]
    exact .error _
  | some next =>
    refine .read_right (c := next) (by rw [Minisqlite.OpenBatch.nextVersion, hnext]) ?_
    refine (insertEvent_agrees hcoerce h.stores transactionId event next).bind fun file db hdb => ?_
    exact .ok ⟨hdb, by rw [h.streamVersions]⟩

theorem run_agrees (h : StoresBatch a b) {x : Except Error Sql.Database} {y : Except Error Db}
    (hxy : Agree Stores x y) : Agree StoresBatch (a.run x) (b.run y) :=
  (hxy.mapError CommitError.ofError).bind fun _ _ hdb => .ok ⟨hdb, h.streamVersions⟩

theorem applyOperation_agrees [ColumnErrors] (hcoerce : Settled coerce) (h : StoresBatch a b)
    (op : Operation) :
    Agree StoresBatch (applyOperation coerce batch a op)
      (Minisqlite.applyOperation batch b op) := by
  cases op with
  | appendEvent event => exact appendEvent_agrees hcoerce h batch.transactionId event
  | projectionPatch patch => exact run_agrees h (applyProjectionPatch_agrees hcoerce h.stores patch)
  | enqueueJob spec => exact run_agrees h (applyEnqueue_agrees hcoerce h.stores _ spec)
  | ackJob ack => exact run_agrees h (applyAck_agrees hcoerce h.stores _ _ ack)
  | failJob failure => exact run_agrees h (applyFail_agrees hcoerce h.stores _ _ failure)
  | cancelJob cancellation =>
    exact run_agrees h (applyCancel_agrees hcoerce h.stores _ _ cancellation)
  | resolveJob resolution =>
    exact run_agrees h (applyResolve_agrees hcoerce h.stores _ _ resolution)
  | extendLease extension =>
    have hextend := applyExtendLease_agrees hcoerce h.stores extension batch.committedAtMs
    exact (hextend.mapError leaseToCommit).bind fun _ _ hdb => .ok ⟨hdb.1, h.streamVersions⟩

theorem stageBatch_agrees [ColumnErrors] (hcoerce : Settled coerce) (h : Stores file db)
    (batch : CommitBatch) :
    Agree (fun a b => Stores a.1 b.1 ∧ a.2 = b.2) (stageBatch coerce file batch)
      (Minisqlite.stageBatch db batch) := by
  unfold stageBatch Minisqlite.stageBatch openBatch
  rw [checkExpected_stores h, bind_assoc]
  refine .read fun streamVersions => ?_
  rw [bind_assoc]
  refine (insertTransaction_agrees hcoerce h batch.row).bind ?_
  rintro ⟨file, sequence⟩ ⟨db, _⟩ ⟨h, rfl⟩
  have hopen : StoresBatch ⟨file, streamVersions⟩ ⟨db, streamVersions⟩ := ⟨h, rfl⟩
  refine (Agree.foldlM (fun a b op hab => applyOperation_agrees hcoerce hab op) batch.operations
    hopen).bind fun a b hab => ?_
  have hwritten := Agree.foldl (fun a b entry hab => setStreamVersion_agrees hcoerce hab entry)
    b.streamVersions.entries hab.stores
  rw [hab.streamVersions]
  exact hwritten.bind (g := fun db => .ok (db, (batch.row sequence).receipt))
    fun _ _ hdb => .ok ⟨hdb, rfl⟩

theorem lookupTransaction_stores [ColumnErrors] (h : Stores file db) (transactionId : Id) :
    lookupTransaction file transactionId = .ok ((db.transaction transactionId).map fun row =>
      (row.transactionSequence.toUInt64, row.committedAtMs, row.requestDigest)) := by
  have hid : ∀ row, transactionsTable.value (storedTransaction row) "transaction_id" =
    idValue row.transactionId := fun _ => rfl
  unfold lookupTransaction
  exact fetch_ok (queryRow_ok h.transactions.source
    (fun row _ => Condition.selects_eq (eval_id (hid row))) fun _ _ => rfl)

/-- A commit up to its COMMIT. -/
theorem stageCommit_agrees [ColumnErrors] (hcoerce : Settled coerce) (h : Stores file db)
    (limits : Limits) (batch : CommitBatch) :
    Agree StoresCommit (stageCommit coerce limits file batch)
      (Minisqlite.stageCommit limits db batch) := by
  unfold stageCommit Minisqlite.stageCommit
  refine .read fun _ => ?_
  rw [lookupTransaction_stores h]
  cases hrow : db.transaction batch.transactionId with
  | some row =>
    rw [← Table.lookup_key hrow]
    exact .ite (.ok (.resubmitted _)) (.error _)
  | none =>
    refine (stageBatch_agrees hcoerce h batch).bind ?_
    rintro ⟨file, receipt⟩ ⟨db, _⟩ ⟨h, rfl⟩
    exact .ok (.staged h receipt)

end Pipeline

end Minisqlite.TableWrites
