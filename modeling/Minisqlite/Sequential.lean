import Minisqlite.EventLog
import Minisqlite.Lib.Lockstep

/-!
# The plain semantics of a batch

`sequentialCommit` says what a commit is for: the operations of the batch, one
after the other, each on the tables that the one before has left. It has no
cache of stream versions; an event reads its stream's version from the table and
writes the next one back at once.

* `Follows`: the open batch and the plain state hold the same tables and, one in
  its cache and one in its table, the same stream versions.
* `applyOperation_agree`: an operation keeps it, or both fail alike.
* `writeBack_version`: the order in which the cache is written back plays no part.
* `commit_refines_sequential`: so a commit has the result of the plain one.
-/

namespace Minisqlite

open Tables Runs

/-! ## The reference -/

/-- An event reads its stream's version from the table and writes the next one. -/
def sequentialAppend (db : Db) (transactionId : Id) (event : Event) : Except CommitError Db :=
  match checkedAddU64 (db.streamVersion event.streamId) 1 with
  | none =>
    let streamId := event.streamId
    .error (.validation ⟨s!"stream {streamId} version overflow"⟩)
  | some next => do
    let db ← insertEvent db transactionId event next
    .ok (setStreamVersion db ⟨event.streamId, next⟩)

def sequentialOperation (batch : CommitBatch) (db : Db) : Operation → Except CommitError Db
  | .appendEvent event => sequentialAppend db batch.transactionId event
  | .projectionPatch patch => (applyProjectionPatch db patch).mapError .ofError
  | .enqueueJob spec => (applyEnqueue db batch.transactionId spec).mapError .ofError
  | .ackJob ack =>
    (applyAck db batch.transactionId batch.committedAtMs ack).mapError .ofError
  | .failJob failure =>
    (applyFail db batch.transactionId batch.committedAtMs failure).mapError .ofError
  | .cancelJob cancellation =>
    (applyCancel db batch.transactionId batch.committedAtMs cancellation).mapError .ofError
  | .resolveJob resolution =>
    (applyResolve db batch.transactionId batch.committedAtMs resolution).mapError .ofError
  | .extendLease extension => do
    let (db, _) ← (applyExtendLease db extension batch.committedAtMs).mapError leaseToCommit
    .ok db

/-- An expectation, compared with the version before the batch. -/
def requireVersion (db : Db) (expected : ExpectedStreamVersion) : Except CommitError PUnit :=
  let actual := db.streamVersion expected.streamId
  if actual ≠ expected.version then
    .error (.conflict (.streamVersion expected.streamId expected.version actual))
  else .ok ⟨⟩

/-- The expectations are compared and the transaction is recorded. -/
def sequentialOpen (db : Db) (batch : CommitBatch) : Except CommitError (Db × Int64) := do
  batch.expectedStreamVersions.forM (requireVersion db)
  insertTransaction db batch.row

/-- The operations are applied from left to right. -/
def sequentialBatch (db : Db) (batch : CommitBatch) : Except CommitError (Db × CommitReceipt) := do
  let (db, sequence) ← sequentialOpen db batch
  let db ← batch.operations.foldlM (sequentialOperation batch) db
  .ok (db, (batch.row sequence).receipt)

def sequentialCommit (limits : Limits) (db : Db) (batch : CommitBatch) :
    Except CommitError (Db × CommitReceipt) := do
  (validateBatch limits batch).mapError CommitError.validation
  sequentialBatch db batch

/-! ## The order of the write-back -/

/-- An order in which a `HashMap` yields its entries. -/
structure IterationOrder where
  entries : StreamVersions → List (Sigma fun _ : String => UInt64)
  perm : ∀ streamVersions, (entries streamVersions).Perm streamVersions.entries

/-- The write-back, in any order. -/
def writeStreamVersionsIn (order : IterationOrder) (tx : OpenBatch) : Db :=
  (order.entries tx.streamVersions).foldl setStreamVersion tx.db

def stageBatchIn (order : IterationOrder) (db : Db) (batch : CommitBatch) :
    Except CommitError (Db × CommitReceipt) := do
  let (tx, receipt) ← openBatch db batch
  let tx ← batch.operations.foldlM (applyOperation batch) tx
  .ok (writeStreamVersionsIn order tx, receipt)

def stageCommitIn (order : IterationOrder) (limits : Limits) (db : Db) (batch : CommitBatch) :
    Except CommitError StagedCommit := do
  (validateBatch limits batch).mapError CommitError.validation
  match db.transaction batch.transactionId with
  | some row =>
    if row.requestDigest = requestDigest batch then .ok (.resubmitted row.receipt)
    else .error .duplicateIdWithDifferentContent
  | none => do
    let (db, receipt) ← stageBatchIn order db batch
    .ok (.staged db receipt)

/-- `ControlPlaneStore::commit`, with the write-back in any order. -/
def ControlPlaneStore.commitIn (order : IterationOrder) (store : ControlPlaneStore)
    (limits : Limits) (batch : CommitBatch) (step : CommitStep) :
    ControlPlaneStore × Except CommitError CommitReceipt :=
  match stageCommitIn order limits store.db batch with
  | .error e => (store.connection, .error e)
  | .ok (.resubmitted receipt) => (store.connection, .ok receipt)
  | .ok (.staged db receipt) =>
    match store.finish db step with
    | (store, none) => (store, .ok receipt)
    | (store, some e) => (store, .error (.indeterminate ⟨batch.transactionId, e⟩))

/-- The order in which the model of the cache lists its entries. -/
def IterationOrder.listed : IterationOrder where
  entries streamVersions := streamVersions.entries
  perm _ := .rfl

theorem commitIn_listed (store : ControlPlaneStore) (limits : Limits) (batch : CommitBatch)
    (step : CommitStep) :
    store.commitIn .listed limits batch step = store.commit limits batch step := rfl

/-! ## Operations that do not look at the streams -/

/-- The same database, but for its streams. -/
def WithStreams (streams : Table streamsSchema) (db ref : Db) : Prop :=
  ref = { db with streams := streams }

namespace SequentialLemmas

variable {db : Db} {streams : Table streamsSchema} {tid : Id} {now : Int64}

theorem updateJob_agree {ε : Type} [FromStorage ε] {jobId : Id} {u : JobUpdate} :
    Agree (WithStreams streams) (updateJob db jobId u : Except ε Db)
      (updateJob { db with streams := streams } jobId u) :=
  .read fun _ => .ok rfl

theorem setTerminal_agree {job : JobRow} {state : JobState} {resultDigest : Option Bytes}
    {errorSummary : Option String} :
    Agree (WithStreams streams) (setTerminal db job state now tid resultDigest errorSummary)
      (setTerminal { db with streams := streams } job state now tid resultDigest errorSummary) := by
  refine updateJob_agree.bind fun d d' h => ?_
  subst h
  exact .ok rfl

theorem applyEnqueue_agree {spec : JobSpec} : Agree (WithStreams streams)
    (applyEnqueue db tid spec) (applyEnqueue { db with streams := streams } tid spec) := by
  have hjob : Db.job { db with streams := streams } spec.jobId = db.job spec.jobId := rfl
  unfold applyEnqueue
  rw [hjob]
  cases db.job spec.jobId with
  | some job => exact .error _
  | none => exact .read fun _ => .read fun _ => .read fun _ => .ok rfl

theorem applyAck_agree {ack : JobAck} : Agree (WithStreams streams)
    (applyAck db tid now ack) (applyAck { db with streams := streams } tid now ack) :=
  .read fun _ => .read fun _ => .read fun _ => setTerminal_agree

theorem applyFail_agree {failure : JobFailure} : Agree (WithStreams streams)
    (applyFail db tid now failure) (applyFail { db with streams := streams } tid now failure) := by
  refine .read fun job => .read fun _ => .read fun _ => ?_
  cases job.exhausted with
  | true => exact setTerminal_agree
  | false =>
    refine .read fun _ => updateJob_agree.bind fun d d' h => ?_
    subst h
    exact updateJob_agree

theorem applyCancel_agree {cancellation : JobCancellation} : Agree (WithStreams streams)
    (applyCancel db tid now cancellation)
    (applyCancel { db with streams := streams } tid now cancellation) :=
  .read fun _ => .read fun _ => .read fun _ => setTerminal_agree

theorem applyResolve_agree {resolution : JobResolution} : Agree (WithStreams streams)
    (applyResolve db tid now resolution)
    (applyResolve { db with streams := streams } tid now resolution) := by
  refine .read fun job => ?_
  cases resolution.resolution with
  | retry =>
    cases job.exhausted with
    | true => exact .read fun _ => setTerminal_agree
    | false => exact .read fun _ => updateJob_agree
  | markSucceeded => exact .read fun _ => setTerminal_agree
  | markDead => exact .read fun _ => setTerminal_agree

theorem applyExtendLease_agree {extension : LeaseExtension} :
    Agree (fun result result' => WithStreams streams result.1 result'.1)
      (applyExtendLease db extension now)
      (applyExtendLease { db with streams := streams } extension now) := by
  have hjob : Db.job { db with streams := streams } extension.jobId = db.job extension.jobId := rfl
  unfold applyExtendLease
  simp only [hjob]
  cases db.job extension.jobId with
  | none => exact .error _
  | some job =>
    refine .ite (.error _) (.ite (.error _) (.ite (.error _) (.ite (.error _) ?_)))
    refine updateJob_agree.bind fun d d' h => ?_
    subst h
    exact .read fun _ => .ok rfl

theorem insertEvent_agree {event : Event} {version : UInt64} : Agree (WithStreams streams)
    (insertEvent db tid event version)
    (insertEvent { db with streams := streams } tid event version) :=
  .read fun _ => .read fun _ => .read fun _ => .ok rfl

theorem applyMutation_agree {projection : String} {mutation : ProjectionMutation} {ref : Db}
    (h : WithStreams streams db ref) : Agree (WithStreams streams)
      (applyMutation projection db mutation) (applyMutation projection ref mutation) := by
  subst h
  cases mutation with
  | put key value => exact .read fun _ => .ok rfl
  | delete key => exact .ok rfl
  | clear => exact .ok rfl
  | replace entries =>
    refine Agree.foldlM (fun d d' entry h => ?_) entries rfl
    subst h
    exact .read fun _ => .read fun _ => .ok rfl

theorem applyProjectionPatch_agree {patch : ProjectionPatch} :
    Agree (WithStreams streams) (applyProjectionPatch db patch)
      (applyProjectionPatch { db with streams := streams } patch) := by
  refine .read fun _ => .ite (.error _) ?_
  have hversion : WithStreams streams
      (setProjectionVersion db patch.projection patch.newVersion.toInt64)
      (setProjectionVersion { db with streams := streams } patch.projection
        patch.newVersion.toInt64) := rfl
  exact .foldlM (f := applyMutation patch.projection) (g := applyMutation patch.projection)
    (fun _ _ _ h => applyMutation_agree h) patch.mutations hversion

/-! ## The operations of a batch -/

theorem run_agree {tx : OpenBatch} {result result' : Except Error Db}
    (h : Agree (WithStreams streams) result result') :
    Agree (fun t d => WithStreams streams t.db d) (tx.run result) (result'.mapError .ofError) := by
  cases h with
  | error e => exact .error _
  | ok hab => exact .ok hab

/-- An operation without an event does the same whatever the streams are. -/
theorem operation_agree {batch : CommitBatch} {tx : OpenBatch} {op : Operation}
    (hop : op.event = none) :
    Agree (fun t d => WithStreams streams t.db d) (applyOperation batch tx op)
      (sequentialOperation batch { tx.db with streams := streams } op) := by
  cases op with
  | appendEvent event => cases hop
  | projectionPatch patch => exact run_agree applyProjectionPatch_agree
  | enqueueJob spec => exact run_agree applyEnqueue_agree
  | ackJob ack => exact run_agree applyAck_agree
  | failJob failure => exact run_agree applyFail_agree
  | cancelJob cancellation => exact run_agree applyCancel_agree
  | resolveJob resolution => exact run_agree applyResolve_agree
  | extendLease extension =>
    exact (applyExtendLease_agree.mapError leaseToCommit).bind fun _ _ h => .ok h

end SequentialLemmas

open SequentialLemmas

/-- The plain state follows the open batch: it has its tables, and in its streams
the versions that the batch has in its cache. -/
structure Follows (tx : OpenBatch) (ref : Db) : Prop where
  tables : WithStreams ref.streams tx.db ref
  version : ∀ streamId, ref.streamVersion streamId = tx.version streamId

namespace SequentialLemmas

variable {batch : CommitBatch} {tx : OpenBatch} {ref : Db} {op : Operation}

/-- Inserting the event leaves the streams to the caller, who caches the version
or writes it. -/
theorem follows_insert {event : Event} {next : UInt64} {d d' : Db} (h : Follows tx ref)
    (hkept : d.streams = tx.db.streams) (htables : WithStreams ref.streams d d') :
    Follows ⟨d, tx.streamVersions.insert event.streamId next⟩
      (setStreamVersion d' ⟨event.streamId, next⟩) := by
  have hstreams : d'.streams = ref.streams := by rw [htables]
  constructor
  · rw [htables]
    rfl
  · intro streamId
    rw [setStreamVersion_version, Db.streamVersion, hstreams]
    by_cases hs : event.streamId = streamId
    · subst hs
      simp [OpenBatch.version]
    · have hversion := h.version streamId
      simp only [OpenBatch.version, Db.streamVersion] at hversion ⊢
      rw [if_neg hs, AList.lookup_insert_ne (Ne.symm hs), hkept, hversion]

theorem appendEvent_agree {tid : Id} {event : Event} (h : Follows tx ref) :
    Agree Follows (appendEvent tx tid event) (sequentialAppend ref tid event) := by
  have hkept : ∀ next d, insertEvent tx.db tid event next = .ok d → d.streams = tx.db.streams := by
    intro next d hd
    obtain ⟨_, -, hd⟩ := bind_ok hd
    obtain ⟨_, -, hd⟩ := bind_ok hd
    obtain ⟨_, -, hd⟩ := bind_ok hd
    cases hd
    rfl
  unfold appendEvent sequentialAppend OpenBatch.nextVersion
  rw [h.version]
  cases checkedAddU64 (tx.version event.streamId) 1 with
  | none => exact .error _
  | some next =>
    have hinsert : Agree (WithStreams ref.streams) (insertEvent tx.db tid event next)
        (insertEvent { tx.db with streams := ref.streams } tid event next) := insertEvent_agree
    rw [← h.tables] at hinsert
    exact (hinsert.with_left (hkept next)).bind fun d d' hd => .ok (follows_insert h hd.2 hd.1)

/-- An operation takes the batch and the plain state to states that follow each
other, or it fails in both. -/
theorem applyOperation_agree (h : Follows tx ref) :
    Agree Follows (applyOperation batch tx op) (sequentialOperation batch ref op) := by
  cases hop : op.event with
  | some event =>
    obtain rfl := eq_of_event hop
    exact appendEvent_agree h
  | none =>
    have hagree : Agree (fun t d => WithStreams ref.streams t.db d) (applyOperation batch tx op)
        (sequentialOperation batch { tx.db with streams := ref.streams } op) := operation_agree hop
    rw [← h.tables] at hagree
    have hkept := hagree.with_left (P := fun tx' => tx'.db.streams = tx.db.streams ∧
      tx'.streamVersions = tx.streamVersions) fun tx' htx =>
        ⟨applyOperation_streams htx, (applyOperation_noEvent hop htx).2⟩
    refine hkept.mono fun tx' ref' h' => ?_
    obtain ⟨htables, hstreams, hversions⟩ := h'
    have hsame : ref'.streams = ref.streams := by rw [htables]
    refine ⟨by rw [hsame]; exact htables, fun streamId => ?_⟩
    have hversion := h.version streamId
    simp only [OpenBatch.version, Db.streamVersion] at hversion ⊢
    rw [hsame, hversion, hversions, hstreams]

/-! ## The whole batch -/

/-- The expectations cache the versions before the batch. -/
theorem checkExpected_agree {db : Db} (expected : List ExpectedStreamVersion)
    {streamVersions : StreamVersions}
    (hcache : ∀ s v, streamVersions.lookup s = some v → v = db.streamVersion s) :
    Agree (fun (streamVersions : StreamVersions) _ =>
        ∀ s v, streamVersions.lookup s = some v → v = db.streamVersion s)
      (expected.foldlM (checkExpected db) streamVersions) (expected.forM (requireVersion db)) := by
  induction expected generalizing streamVersions with
  | nil => exact .ok hcache
  | cons e expected ih =>
    show Agree _ _ (requireVersion db e >>= fun _ => expected.forM (requireVersion db))
    rw [List.foldlM_cons]
    unfold checkExpected requireVersion
    dsimp only
    split
    · exact .error _
    · refine ih fun s v hs => ?_
      by_cases he : s = e.streamId
      · subst he
        simpa [eq_comm] using hs
      · rw [AList.lookup_insert_ne he] at hs
        exact hcache s v hs

/-- A batch opens on the plain state with its transaction recorded. -/
theorem openBatch_agree {db : Db} :
    Agree (fun opened recorded =>
        Follows opened.1 recorded.1 ∧ opened.2 = (batch.row recorded.2).receipt)
      (openBatch db batch) (sequentialOpen db batch) := by
  refine (checkExpected_agree batch.expectedStreamVersions (by simp)).bind
    fun streamVersions _ hcache => ?_
  cases hinsert : (insertTransaction db batch.row : Except CommitError (Db × Int64)) with
  | error e => exact .error e
  | ok result =>
    obtain ⟨opened, sequence⟩ := result
    obtain ⟨transactions, rfl, -⟩ := insertTransaction_ok hinsert
    refine .ok ⟨⟨rfl, fun streamId => ?_⟩, rfl⟩
    rw [OpenBatch.version]
    cases hs : streamVersions.lookup streamId with
    | none => rfl
    | some version => exact (hcache streamId version hs).symm

/-- Written back in any order, the cache gives every stream its version. -/
theorem writeBack_version (order : IterationOrder) (tx : OpenBatch) (streamId : String) :
    (writeStreamVersionsIn order tx).streamVersion streamId = tx.version streamId := by
  have hperm := order.perm tx.streamVersions
  have hnodup : (order.entries tx.streamVersions).NodupKeys :=
    (List.perm_nodupKeys hperm).mpr tx.streamVersions.nodupKeys
  rw [writeStreamVersionsIn, foldl_setStreamVersion _ hnodup, OpenBatch.version, AList.lookup,
    List.perm_dlookup streamId hnodup hperm]

end SequentialLemmas

/-- A database has the tables of the reference, and in its streams the versions. -/
structure SameTables (db ref : Db) : Prop where
  tables : WithStreams ref.streams db ref
  version : ∀ streamId, db.streamVersion streamId = ref.streamVersion streamId

/-- What a commit does when the plain semantics has the result `reference`. -/
inductive CommitRefines (store : ControlPlaneStore) (batch : CommitBatch) :
    Except CommitError (Db × CommitReceipt) → CommitStep →
      ControlPlaneStore × Except CommitError CommitReceipt → Prop
  | failed (e : CommitError) (step : CommitStep) :
    CommitRefines store batch (.error e) step (store.connection, .error e)
  | done {db ref : Db} {receipt : CommitReceipt} (same : SameTables db ref) :
    CommitRefines store batch (.ok (ref, receipt)) .done (⟨db, .live⟩, .ok receipt)
  | persisted {db ref : Db} {receipt : CommitReceipt} {e : String} (same : SameTables db ref) :
    CommitRefines store batch (.ok (ref, receipt)) (.lost true e)
      (⟨db, .poisoned⟩, .error (.indeterminate ⟨batch.transactionId, e⟩))
  | rolledBack {ref : Db} {receipt : CommitReceipt} {e : String} :
    CommitRefines store batch (.ok (ref, receipt)) (.lost false e)
      (⟨store.db, .poisoned⟩, .error (.indeterminate ⟨batch.transactionId, e⟩))

namespace SequentialLemmas

variable {order : IterationOrder} {store : ControlPlaneStore} {limits : Limits}
  {batch : CommitBatch} {step : CommitStep} {db : Db}

theorem writeBack_sameTables {tx : OpenBatch} {ref : Db} (h : Follows tx ref) :
    SameTables (writeStreamVersionsIn order tx) ref := by
  refine ⟨?_, fun streamId => by rw [writeBack_version, h.version]⟩
  obtain ⟨streams, hwrite⟩ :=
    foldl_setStreamVersion_streams (order.entries tx.streamVersions) tx.db
  have htables := h.tables
  unfold WithStreams at htables ⊢
  rw [writeStreamVersionsIn, hwrite]
  exact htables

theorem stageBatchIn_agree :
    Agree (fun staged result => SameTables staged.1 result.1 ∧ staged.2 = result.2)
      (stageBatchIn order db batch) (sequentialBatch db batch) := by
  refine openBatch_agree.bind fun opened recorded hopen => ?_
  obtain ⟨tx, receipt⟩ := opened
  obtain ⟨ref, sequence⟩ := recorded
  obtain ⟨hfollows, hreceipt⟩ := hopen
  have hops : Agree Follows (batch.operations.foldlM (applyOperation batch) tx)
      (batch.operations.foldlM (sequentialOperation batch) ref) :=
    .foldlM (f := applyOperation batch) (g := sequentialOperation batch)
      (fun _ _ _ h => applyOperation_agree h) batch.operations hfollows
  exact hops.bind fun tx ref h => .ok ⟨writeBack_sameTables h, hreceipt⟩

/-- A valid batch that is not on record stages what the plain semantics computes. -/
theorem stageCommitIn_agree (free : db.transaction batch.transactionId = none) :
    Agree (fun staged result => ∃ db', staged = .staged db' result.2 ∧ SameTables db' result.1)
      (stageCommitIn order limits db batch) (sequentialCommit limits db batch) := by
  unfold stageCommitIn sequentialCommit
  refine .read fun _ => ?_
  rw [free]
  have hbatch : Agree _ (stageBatchIn order db batch) (sequentialBatch db batch) :=
    stageBatchIn_agree
  revert hbatch
  generalize stageBatchIn order db batch = staged
  generalize sequentialBatch db batch = result
  rintro (⟨hsame, hreceipt⟩ | e)
  · exact .ok ⟨_, by rw [hreceipt], hsame⟩
  · exact .error e

theorem commitIn_refines (free : store.db.transaction batch.transactionId = none) :
    CommitRefines store batch (sequentialCommit limits store.db batch) step
      (store.commitIn order limits batch step) := by
  have hagree : Agree _ (stageCommitIn order limits store.db batch)
      (sequentialCommit limits store.db batch) := stageCommitIn_agree free
  unfold ControlPlaneStore.commitIn
  revert hagree
  generalize stageCommitIn order limits store.db batch = staged
  generalize sequentialCommit limits store.db batch = result
  rintro (⟨db', rfl, hsame⟩ | e)
  · cases step with
    | done => exact .done hsame
    | lost persisted storageError =>
      cases persisted with
      | true => exact .persisted hsame
      | false => exact .rolledBack
  · exact .failed e step

end SequentialLemmas

/-- A commit under a new transaction id does what the plain semantics says, all of
it or nothing, whatever the order of the write-back. -/
theorem commit_refines_sequential (store : ControlPlaneStore) (limits : Limits)
    (batch : CommitBatch) (step : CommitStep)
    (free : store.db.transaction batch.transactionId = none) :
    CommitRefines store batch (sequentialCommit limits store.db batch) step
        (store.commit limits batch step) ∧
      ∀ order : IterationOrder, CommitRefines store batch
        (sequentialCommit limits store.db batch) step (store.commitIn order limits batch step) := by
  refine ⟨?_, fun order => commitIn_refines free⟩
  rw [← commitIn_listed]
  exact commitIn_refines free

/-- Two events of one stream in a batch that expects the stream to be new. -/
def Sample.twoEvents : CommitBatch :=
  let event (n : BitVec 128) : Operation :=
    .appendEvent ⟨.ofU128 n, "s", "t", 1, 0, none, none, [], []⟩
  { Sample.batch 11 6 [event 7, event 8] with expectedStreamVersions := [⟨"s", 0⟩] }

theorem commit_refines_sequential_sample :
    let store := controlPlane.after [Sample.enqueue .requiresReconciliation]
    CommitRefines store Sample.twoEvents (sequentialCommit .default store.db Sample.twoEvents) .done
        (store.commit .default Sample.twoEvents .done) ∧
      ∀ order : IterationOrder, CommitRefines store Sample.twoEvents
        (sequentialCommit .default store.db Sample.twoEvents) .done
        (store.commitIn order .default Sample.twoEvents .done) :=
  commit_refines_sequential _ _ _ _ (by decide)

example : ((controlPlane.after [Sample.enqueue .requiresReconciliation]).commit .default
    Sample.twoEvents .done).1.db.streamVersion "s" = 2 := by decide

end Minisqlite
