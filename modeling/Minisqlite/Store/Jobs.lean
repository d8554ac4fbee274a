import Minisqlite.Schema

/-!
# Job operations

The functions of `store/jobs.rs` that write job rows inside an open
transaction: `set_terminal`, `set_nonterminal` and the six operations of a
batch that are built on them, with `apply_extend_lease`.

A `JobUpdate` is a SET clause. It carries the proof that it writes neither the
job's specification nor its enqueue sequence, so every `UPDATE jobs` of the
store leaves these columns, and with them the keys of the table, as they are.
-/

namespace Minisqlite

open Tables Runs

/-! ## Updates of a job row -/

/-- The SET clause of an `UPDATE jobs`. -/
structure JobUpdate where
  set : JobRow → JobRow
  spec : ∀ job, (set job).spec = job.spec
  enqueueSequence : ∀ job, (set job).enqueueSequence = job.enqueueSequence

namespace JobUpdate

theorem keeps (u : JobUpdate) : Keeps jobsSchema u.set :=
  ⟨fun a b => by simp [jobsSchema, u.spec, u.enqueueSequence],
    fun a b => by simp [jobsSchema, u.spec, u.enqueueSequence]⟩

/-- The SET clause of `set_terminal`. -/
def terminal (state : JobState) (nowMs : Int64) (transactionId : Id) (resultDigest : Option Bytes)
    (errorSummary : Option String) : JobUpdate where
  set job := { job with
    state := state
    leaseToken := none
    workerId := none
    leaseExpiresAtMs := none
    retryAfterMs := none
    terminalAtMs := some nowMs
    resultDigest := resultDigest.or job.resultDigest
    errorSummary := errorSummary.or job.errorSummary
    updatedTransactionId := transactionId }
  spec _ := rfl
  enqueueSequence _ := rfl

/-- The SET clause of `set_nonterminal`. -/
def nonterminal (state : JobState) (retryAfterMs : Option Int64) (transactionId : Id) :
    JobUpdate where
  set job := { job with
    state := state
    leaseToken := none
    workerId := none
    leaseExpiresAtMs := none
    retryAfterMs := retryAfterMs
    updatedTransactionId := transactionId }
  spec _ := rfl
  enqueueSequence _ := rfl

/-- `SET error_summary = ?2`. -/
def summary (errorSummary : String) : JobUpdate where
  set job := { job with errorSummary := some errorSummary }
  spec _ := rfl
  enqueueSequence _ := rfl

/-- The SET clause of a lease grant. -/
def lease (leaseToken : Id) (workerId : String) (leaseExpiresAtMs : Int64) (transactionId : Id) :
    JobUpdate where
  set job := { job with
    state := .leased
    attempt := job.attempt + 1
    leaseToken := some leaseToken
    workerId := some workerId
    leaseExpiresAtMs := some leaseExpiresAtMs
    retryAfterMs := none
    updatedTransactionId := transactionId }
  spec _ := rfl
  enqueueSequence _ := rfl

/-- `SET lease_expires_at_ms = ?2`. -/
def expiry (newExpiryMs : Int64) : JobUpdate where
  set job := { job with leaseExpiresAtMs := some newExpiryMs }
  spec _ := rfl
  enqueueSequence _ := rfl

end JobUpdate

/-- `UPDATE jobs SET u WHERE job_id = ?1`. -/
def updateJob {ε : Type} [FromStorage ε] (db : Db) (jobId : Id) (u : JobUpdate) : Except ε Db := do
  let jobs ← execute (db.jobs.update (fun job => decide (job.spec.jobId = jobId)) u.set u.keeps)
  .ok { db with jobs := jobs }

/-! ## Guards -/

/-- `require_job`. -/
def requireJob (db : Db) (jobId : Id) : Except Error JobRow :=
  match db.job jobId with
  | some job => .ok job
  | none => invalid s!"job {jobId} does not exist"

/-- `ensure_transition`. -/
def ensureTransition (job : JobRow) (target : JobState) : Except Error Unit :=
  if job.state.canTransitionTo target then .ok ()
  else .error (.conflict (.jobTransition job.spec.jobId job.state target))

/-- `ensure_lease_token`. -/
def ensureLeaseToken (job : JobRow) (token : Id) : Except Error Unit :=
  if job.leaseToken = some token then .ok ()
  else
    let jobId := job.spec.jobId
    invalid s!"stale lease token for job {jobId}"

/-! ## Writes -/

/-- The job is in this partition and keeps it active. -/
def JobRow.activeIn (queue partitionKey : String) (job : JobRow) : Bool :=
  decide (job.spec.queue = queue) && decide (job.spec.partitionKey = partitionKey) &&
    !job.state.isTerminal

/-- `drain_partition_if_empty`: the index row goes when no nonterminal job of
the partition remains. -/
def drainPartitionIfEmpty (db : Db) (queue partitionKey : String) : Db :=
  { db with
    activePartitions := db.activePartitions.delete fun row =>
      decide (row.queue = queue) && decide (row.partitionKey = partitionKey) &&
        !db.jobs.rows.any (JobRow.activeIn queue partitionKey) }

/-- `set_terminal`. -/
def setTerminal (db : Db) (job : JobRow) (state : JobState) (nowMs : Int64) (transactionId : Id)
    (resultDigest : Option Bytes) (errorSummary : Option String) : Except Error Db := do
  let db ← updateJob db job.spec.jobId
    (.terminal state nowMs transactionId resultDigest errorSummary)
  .ok (drainPartitionIfEmpty db job.spec.queue job.spec.partitionKey)

/-- `set_nonterminal`. -/
def setNonterminal (db : Db) (jobId : Id) (state : JobState) (retryAfterMs : Option Int64)
    (transactionId : Id) : Except Error Db :=
  updateJob db jobId (.nonterminal state retryAfterMs transactionId)

/-! ## The operations of a batch -/

/-- The row that `apply_enqueue` inserts. -/
def JobSpec.row (spec : JobSpec) (enqueueSequence : Int64) (transactionId : Id) : JobRow where
  spec := spec
  enqueueSequence := enqueueSequence
  enqueueTransactionId := transactionId
  state := .pending
  attempt := 0
  leaseToken := none
  workerId := none
  leaseExpiresAtMs := none
  retryAfterMs := none
  terminalAtMs := none
  resultDigest := none
  errorSummary := none
  updatedTransactionId := transactionId

/-- `apply_enqueue`. -/
def applyEnqueue (db : Db) (transactionId : Id) (spec : JobSpec) : Except Error Db :=
  match db.job spec.jobId with
  | some _ =>
    let jobId := spec.jobId
    invalid s!"job {jobId} already exists"
  | none => do
    let sequence ← execute (nextSequence (db.jobs.rows.map JobRow.enqueueSequence))
    execute (db.requireTransaction transactionId)
    let jobs ← execute (db.jobs.insert (spec.row sequence transactionId))
    .ok { db with
      jobs := jobs
      activePartitions := db.activePartitions.insertOrIgnore
        ⟨spec.queue, spec.partitionKey, sequence⟩ }

/-- `apply_ack`. -/
def applyAck (db : Db) (transactionId : Id) (nowMs : Int64) (ack : JobAck) : Except Error Db := do
  let job ← requireJob db ack.jobId
  ensureTransition job .succeeded
  ensureLeaseToken job ack.leaseToken
  setTerminal db job .succeeded nowMs transactionId ack.resultDigest none

/-- `DEFAULT_RETRY_DELAY_MS`. -/
def defaultRetryDelayMs : Int64 := 30000

/-- The absolute retry time of a failure. -/
def retryAfter (nowMs : Int64) : Option Int64 → Except Error Int64
  | some ms => .ok ms
  | none =>
    match checkedAddI64 nowMs defaultRetryDelayMs with
    | some ms => .ok ms
    | none => invalid "default retry timestamp overflows i64; supply retry_after_ms explicitly"

/-- The job has used all its attempts. -/
def JobRow.exhausted (job : JobRow) : Bool := decide (job.attempt ≥ job.spec.maxAttempts)

/-- `apply_fail`. -/
def applyFail (db : Db) (transactionId : Id) (nowMs : Int64) (failure : JobFailure) :
    Except Error Db := do
  let job ← requireJob db failure.jobId
  ensureTransition job (if job.exhausted then .dead else .retryWait)
  ensureLeaseToken job failure.leaseToken
  if job.exhausted then
    setTerminal db job .dead nowMs transactionId none (some failure.errorSummary)
  else do
    let retryAfterMs ← retryAfter nowMs failure.retryAfterMs
    let db ← setNonterminal db job.spec.jobId .retryWait (some retryAfterMs) transactionId
    updateJob db job.spec.jobId (.summary failure.errorSummary)

/-- Without a token only a pending job may be cancelled. -/
def ensureCancellable (job : JobRow) : Option Id → Except Error Unit
  | some token => ensureLeaseToken job token
  | none =>
    if job.state = .pending then .ok ()
    else
      let jobId := job.spec.jobId
      invalid s!"cancelling leased job {jobId} requires its lease token"

/-- `apply_cancel`. -/
def applyCancel (db : Db) (transactionId : Id) (nowMs : Int64) (cancellation : JobCancellation) :
    Except Error Db := do
  let job ← requireJob db cancellation.jobId
  ensureTransition job .cancelled
  ensureCancellable job cancellation.leaseToken
  setTerminal db job .cancelled nowMs transactionId none none

/-- `apply_resolve`: the only guard is the shared transition table. -/
def applyResolve (db : Db) (transactionId : Id) (nowMs : Int64) (resolution : JobResolution) :
    Except Error Db := do
  let job ← requireJob db resolution.jobId
  match resolution.resolution with
  | .retry =>
    if job.exhausted then do
      ensureTransition job .dead
      setTerminal db job .dead nowMs transactionId none
        (some "retry resolution exhausted max_attempts")
    else do
      ensureTransition job .pending
      setNonterminal db job.spec.jobId .pending none transactionId
  | .markSucceeded => do
    ensureTransition job .succeeded
    setTerminal db job .succeeded nowMs transactionId none none
  | .markDead => do
    ensureTransition job .dead
    setTerminal db job .dead nowMs transactionId none (some "resolved as dead")

/-- A lease conflict, raised with `?`. -/
def conflicting {α : Type} (conflict : LeaseConflict) : Except LeaseError α :=
  .error (.conflict conflict)

/-- `apply_extend_lease`: the job row and its claim receipt are extended together. -/
def applyExtendLease (db : Db) (extension : LeaseExtension) (nowMs : Int64) :
    Except LeaseError (Db × LeaseExtensionReceipt) :=
  let jobId := extension.jobId
  match db.job jobId with
  | none => conflicting (.jobNotFound jobId)
  | some job =>
    let currentMs := job.leaseExpiresAtMs.getD Int64.minValue
    if job.state ≠ .leased then conflicting (.notLeased jobId job.state)
    else if job.leaseToken ≠ some extension.leaseToken then conflicting (.invalidToken jobId)
    else if nowMs > currentMs then conflicting (.expired jobId currentMs nowMs)
    else if extension.newExpiryMs ≤ currentMs then
      conflicting (.expiryNotLater jobId currentMs extension.newExpiryMs)
    else do
      let db ← updateJob db jobId (.expiry extension.newExpiryMs)
      let claimReceipts ← execute (db.claimReceipts.update
        (fun r => decide (r.jobId = jobId) && decide (r.leaseToken = extension.leaseToken))
        (fun r => { r with leaseExpiresAtMs := extension.newExpiryMs })
        (Schema.keyed_keeps fun _ => rfl))
      .ok ({ db with claimReceipts := claimReceipts }, ⟨jobId, job.attempt, extension.newExpiryMs⟩)

end Minisqlite
