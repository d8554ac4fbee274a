import Minisqlite.Lib.Threads
import Minisqlite.Store.DataReads

/-!
# Stores that threads share

The calls of `ControlPlaneStore` by their statements, as programs of `Threads`. A call that
goes through the writer holds its mutex; the reads take a connection from the pool. Any
number of threads can share a store, and any number of stores can be open on one file; one
that was opened by `open_existing` has a read-only connection in place of the writer, on which
`BEGIN IMMEDIATE` succeeds and the first INSERT or UPDATE fails.

An operation of a batch is one step here: nobody sees the inside of a transaction.
-/

namespace Minisqlite

open Tables Threads TableReads

/-- A call, without what becomes of its COMMIT. -/
inductive Request
  | commit (limits : Limits) (batch : CommitBatch)
  | claimJobs (request : ClaimRequest) (entropy : Entropy)
  | extendLease (jobId leaseToken : Id) (newExpiryMs nowMs : Int64)
  | read (read : DataRead)

/-- What a call returns. -/
inductive Answer
  | commit (result : Except CommitError CommitReceipt)
  | claimJobs (result : Except ClaimError ClaimOutcome)
  | extendLease (result : Except LeaseError LeaseExtensionReceipt)
  | read (read : DataRead) (result : Except Error read.Result)

namespace Handles

/-! ## Programs -/

/-- A statement that can fail, with the answer for its error. -/
def orDrop {ε α : Type} (answer : ε → Answer) (result : Except ε (α × Db)) :
    Except Answer (α × Db) :=
  result.mapError answer

/-- The end of a call whose COMMIT decides between two answers. -/
def commitWith (done : Answer) (lost : String → Answer) : Body Db CommitStep Answer :=
  .commit fun
    | .done => done
    | .lost _ storageError => lost storageError

/-- The transaction of a batch that is not a resubmission. -/
def batchBody (batch : CommitBatch) : Body Db CommitStep Answer :=
  let refused (e : CommitError) : Answer := .commit (.error e)
  .checkEach (fun db streamVersions expected =>
      (checkExpected db streamVersions expected).mapError refused)
    batch.expectedStreamVersions ∅ fun streamVersions =>
  .writing <| .attempt (fun db => orDrop refused do
      let (db, sequence) ← insertTransaction db batch.row
      .ok (sequence, db)) fun sequence =>
  .each (fun streamVersions operation db => orDrop refused do
      let tx ← applyOperation batch ⟨db, streamVersions⟩ operation
      .ok (tx.streamVersions, tx.db))
    batch.operations streamVersions fun streamVersions =>
  .query fun db => .write (writeStreamVersions ⟨db, streamVersions⟩)
    (commitWith (.commit (.ok (batch.row sequence).receipt)) fun storageError =>
      refused (.indeterminate ⟨batch.transactionId, storageError⟩))

/-- `commit` from `BEGIN IMMEDIATE` on. -/
def commitBody (batch : CommitBatch) : Body Db CommitStep Answer :=
  .query fun db =>
    match db.transaction batch.transactionId with
    | some row =>
      if row.requestDigest = requestDigest batch then .drop (.commit (.ok row.receipt))
      else .drop (.commit (.error .duplicateIdWithDifferentContent))
    | none => batchBody batch

/-- The write phase of `claim_jobs`. -/
def writeBody (request : ClaimRequest) (leaseExpiresAtMs : Int64)
    (maintenance : List MaintenanceAction) (plan : LeasePlan) : Body Db CommitStep Answer :=
  let refused (e : Error) : Answer := .claimJobs (.error (errorToClaim e))
  match Id.new plan.entropy with
  | .error e => .drop (refused e)
  | .ok (transactionId, _) =>
    .writing <| .attempt (fun db => orDrop refused do
        let db ← insertClaimTransaction db transactionId request
          (maintenance.length + plan.leases.length)
        .ok ((), db)) fun _ =>
    .each (fun _ action db => orDrop refused do
        let db ← applyMaintenance transactionId request.nowMs db action
        .ok ((), db)) maintenance () fun _ =>
    .each (fun _ lease db => orDrop refused do
        let db ← grantLease transactionId request leaseExpiresAtMs db lease
        .ok ((), db)) plan.leases () fun _ =>
    let jobs := plan.leases.map (ProposedLease.claimed request leaseExpiresAtMs)
    .query fun db => .write (advanceCursor db request.queue plan.lastLeased)
      (commitWith
        (.claimJobs (.ok (if jobs = [] then .maintenanceCommitted ⟨transactionId⟩
          else .committed ⟨transactionId, jobs, []⟩)))
        fun storageError => .claimJobs (.error (.indeterminate
          ⟨transactionId, jobs.map ClaimedJob.jobId, storageError⟩)))

/-- `claim_jobs` from `BEGIN IMMEDIATE` on. -/
def claimBody (request : ClaimRequest) (entropy : Entropy) (leaseExpiresAtMs : Int64) :
    Body Db CommitStep Answer :=
  .query fun db =>
    let maintenance := planMaintenance db request
    .query fun db =>
      match planLeases db request entropy with
      | .error e => .drop (.claimJobs (.error (errorToClaim e)))
      | .ok plan =>
        if maintenance = [] ∧ plan.leases = [] then .drop (.claimJobs (.ok .noop))
        else writeBody request leaseExpiresAtMs maintenance plan

/-- `extend_lease`. Its checks come before its first UPDATE. -/
def extendBody (jobId leaseToken : Id) (newExpiryMs nowMs : Int64) : Body Db CommitStep Answer :=
  .attempt (fun db => orDrop (fun e => .extendLease (.error e)) do
      let (db, receipt) ← applyExtendLease db ⟨jobId, leaseToken, newExpiryMs⟩ nowMs
      .ok (receipt, db)) fun receipt =>
  commitWith (.extendLease (.ok receipt)) fun storageError =>
    .extendLease (.error (.indeterminate ⟨jobId, storageError⟩))

/-- The second query of `recover_claim`. -/
def recoverMaintenance (transactionId : Id) (nowMs : Int64) : Program Db CommitStep Answer :=
  .look fun db => .reply (.read (.recoverClaim transactionId nowMs) (.ok
    (match db.transaction transactionId with
    | some _ => .maintenanceCommitted ⟨transactionId⟩
    | none => .absent)))

/-- `recover_claim`. -/
def recoverProgram (transactionId : Id) (nowMs : Int64) : Program Db CommitStep Answer :=
  .look fun db =>
    let rows := receiptsOf db transactionId
    if rows = [] then recoverMaintenance transactionId nowMs
    else
      let current := rows.filter fun row => stillCurrent nowMs row.1 row.2
      let stale := rows.filter fun row => !stillCurrent nowMs row.1 row.2
      .reply (.read (.recoverClaim transactionId nowMs) (.ok (.committed ⟨transactionId,
        current.map fun row => row.1.claimed row.2, stale.map fun row => row.1.jobId⟩)))

/-- The call. A request that is not valid never begins a transaction. -/
def program : Request → Program Db CommitStep Answer
  | .commit limits batch =>
    match validateBatch limits batch with
    | .error e => .reply (.commit (.error (.validation e)))
    | .ok _ => .transaction (commitBody batch)
  | .claimJobs request entropy =>
    match leaseExpiry request with
    | .error e => .reply (.claimJobs (.error (errorToClaim e)))
    | .ok leaseExpiresAtMs => .transaction (claimBody request entropy leaseExpiresAtMs)
  | .extendLease jobId leaseToken newExpiryMs nowMs =>
    .transaction (extendBody jobId leaseToken newExpiryMs nowMs)
  | .read (.recoverClaim transactionId nowMs) => recoverProgram transactionId nowMs
  | .read read => .look fun db => .reply (.read read (db.read read))

/-- The call goes through the writer. -/
def exclusive : Request → Bool
  | .commit .. | .claimJobs .. | .extendLease .. => true
  | .read (.recoverTransaction _) | .read (.recoverClaim ..) => true
  | .read _ => false

/-- The answer to a call that the storage refuses. -/
def refusal : Request → StorageError → Answer
  | .commit .., e => .commit (.error (.storage e))
  | .claimJobs .., e => .claimJobs (.error (.storage e))
  | .extendLease .., e => .extendLease (.error (.storage e))
  | .read read, e => .read read (.error (.storage e))

end Handles

/-- The stores that are open on one file, `handle` being the one that a thread uses. -/
def service {τ η : Type} (handle : τ → η) (writable : η → Bool) :
    Service τ η Request Db CommitStep Answer StorageError where
  start := Db.empty
  persists := CommitStep.persists
  done := .done
  program := Handles.program
  exclusive := Handles.exclusive
  refusal := Handles.refusal
  handle := handle
  writable := writable

end Minisqlite
