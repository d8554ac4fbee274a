import Minisqlite.Bytes

/-!
# The values that callers pass in and get back

The public types of `event.rs`, `projection.rs`, `jobs.rs` and
`transaction.rs`. An integer has the width that it has there: `i64` is
`Int64`, `u64` is `UInt64`, `u32` is `UInt32`. A `usize` limit is a `Nat`.
-/

namespace Minisqlite

/-! ## Events and projections -/

structure Event where
  eventId : Id
  streamId : String
  eventType : String
  schemaVersion : UInt32
  occurredAtMs : Int64
  causationId : Option Id
  correlationId : Option Id
  payload : Bytes
  metadata : Bytes
deriving DecidableEq

structure ProjectionEntry where
  key : Bytes
  value : Bytes
deriving DecidableEq

inductive ProjectionMutation
  | put (key value : Bytes)
  | delete (key : Bytes)
  | clear
  | replace (entries : List ProjectionEntry)
deriving DecidableEq

structure ProjectionPatch where
  projection : String
  expectedVersion : UInt64
  newVersion : UInt64
  mutations : List ProjectionMutation
deriving DecidableEq

/-! ## Jobs -/

/-- Whether a job's external effect can be retried without reconciliation. -/
inductive EffectMode
  | requiresReconciliation
  | explicitlyIdempotent
deriving DecidableEq

/-- `EffectMode::encode`. -/
def EffectMode.encode : EffectMode → UInt8
  | .requiresReconciliation => 0
  | .explicitlyIdempotent => 1

structure JobSpec where
  jobId : Id
  queue : String
  partitionKey : String
  payload : Bytes
  notBeforeMs : Int64
  maxAttempts : UInt32
  effectMode : EffectMode
  idempotencyKey : Option String
deriving DecidableEq

inductive JobState
  | pending
  | leased
  | retryWait
  | uncertain
  | succeeded
  | dead
  | cancelled
deriving DecidableEq

/-- `JobState::is_terminal`. -/
def JobState.isTerminal : JobState → Bool
  | .succeeded | .dead | .cancelled => true
  | _ => false

/-- `JobState::can_transition_to`: the one table that every caller shares. -/
def JobState.canTransitionTo : JobState → JobState → Bool
  | .pending, .leased => true
  | .pending, .cancelled => true
  | .retryWait, .leased => true
  | .leased, .succeeded => true
  | .leased, .retryWait => true
  | .leased, .dead => true
  | .leased, .cancelled => true
  | .leased, .uncertain => true
  | .leased, .pending => true
  | .leased, .leased => true
  | .uncertain, .pending => true
  | .uncertain, .succeeded => true
  | .uncertain, .dead => true
  | _, _ => false

inductive Resolution
  | retry
  | markSucceeded
  | markDead
deriving DecidableEq

structure JobAck where
  jobId : Id
  leaseToken : Id
  resultDigest : Option Bytes
deriving DecidableEq

structure JobFailure where
  jobId : Id
  leaseToken : Id
  errorSummary : String
  retryAfterMs : Option Int64
deriving DecidableEq

structure JobCancellation where
  jobId : Id
  leaseToken : Option Id
deriving DecidableEq

structure JobResolution where
  jobId : Id
  resolution : Resolution
deriving DecidableEq

structure LeaseExtension where
  jobId : Id
  leaseToken : Id
  newExpiryMs : Int64
deriving DecidableEq

structure LeaseExtensionReceipt where
  jobId : Id
  attempt : UInt32
  leaseExpiresAtMs : Int64
deriving DecidableEq

/-! ## Claims -/

structure ClaimRequest where
  queue : String
  workerId : String
  nowMs : Int64
  leaseMs : Int64
  limit : Nat
deriving DecidableEq

structure ClaimedJob where
  jobId : Id
  queue : String
  partitionKey : String
  payload : Bytes
  workerId : String
  leaseToken : Id
  attempt : UInt32
  leaseExpiresAtMs : Int64
  idempotencyKey : Option String
deriving DecidableEq

structure MaintenanceReceipt where
  transactionId : Id
deriving DecidableEq

structure CommittedClaims where
  transactionId : Id
  jobs : List ClaimedJob
  staleJobs : List Id
deriving DecidableEq

inductive ClaimOutcome
  | noop
  | maintenanceCommitted (receipt : MaintenanceReceipt)
  | committed (claims : CommittedClaims)
deriving DecidableEq

inductive ClaimRecovery
  | committed (claims : CommittedClaims)
  | maintenanceCommitted (receipt : MaintenanceReceipt)
  | absent
deriving DecidableEq

/-! ## Batches -/

inductive Operation
  | appendEvent (event : Event)
  | projectionPatch (patch : ProjectionPatch)
  | enqueueJob (spec : JobSpec)
  | ackJob (ack : JobAck)
  | failJob (failure : JobFailure)
  | cancelJob (cancellation : JobCancellation)
  | resolveJob (resolution : JobResolution)
  | extendLease (extension : LeaseExtension)
deriving DecidableEq

structure ExpectedStreamVersion where
  streamId : String
  version : UInt64
deriving DecidableEq

structure CommitBatch where
  transactionId : Id
  committedAtMs : Int64
  correlationId : Option Id
  metadata : Bytes
  expectedStreamVersions : List ExpectedStreamVersion
  operations : List Operation
deriving DecidableEq

structure CommitReceipt where
  transactionId : Id
  transactionSequence : UInt64
  committedAtMs : Int64
deriving DecidableEq

inductive TransactionRecovery
  | committed (receipt : CommitReceipt)
  | absent
deriving DecidableEq

/-- The job that an operation is about. -/
def Operation.jobId : Operation → Option Id
  | .appendEvent _ | .projectionPatch _ => none
  | .enqueueJob spec => some spec.jobId
  | .ackJob ack => some ack.jobId
  | .failJob failure => some failure.jobId
  | .cancelJob cancellation => some cancellation.jobId
  | .resolveJob resolution => some resolution.jobId
  | .extendLease extension => some extension.jobId

/-- The lease token that an operation carries. -/
def Operation.leaseToken : Operation → Option Id
  | .ackJob ack => some ack.leaseToken
  | .failJob failure => some failure.leaseToken
  | .cancelJob cancellation => cancellation.leaseToken
  | .extendLease extension => some extension.leaseToken
  | _ => none

/-! ## Errors -/

structure ValidationError where
  message : String
deriving DecidableEq

inductive StorageError
  | io (message : String)
  | sqlite (message : String)
  | migrationChecksumMismatch (version : UInt32)
  | schemaTooNew (version supported : UInt32)
deriving DecidableEq

inductive LeaseConflict
  | jobNotFound (jobId : Id)
  | invalidToken (jobId : Id)
  | notLeased (jobId : Id) (state : JobState)
  | expiryNotLater (jobId : Id) (currentMs requestedMs : Int64)
  | expired (jobId : Id) (leaseExpiresAtMs nowMs : Int64)
deriving DecidableEq

inductive Conflict
  | streamVersion (streamId : String) (expected actual : UInt64)
  | projectionVersion (projection : String) (expected actual : UInt64)
  | jobTransition (jobId : Id) (fromState toState : JobState)
  | lease (conflict : LeaseConflict)
deriving DecidableEq

/-- `Error`, the type of the helpers that the three pipelines share. -/
inductive Error
  | storage (error : StorageError)
  | validation (error : ValidationError)
  | conflict (conflict : Conflict)
deriving DecidableEq

structure IndeterminateCommit where
  transactionId : Id
  storageError : String
deriving DecidableEq

inductive CommitError
  | conflict (conflict : Conflict)
  | validation (error : ValidationError)
  | duplicateIdWithDifferentContent
  | indeterminate (commit : IndeterminateCommit)
  | storage (error : StorageError)
deriving DecidableEq

/-- `IndeterminateClaim`: no payloads and no lease tokens. -/
structure IndeterminateClaim where
  transactionId : Id
  proposedJobs : List Id
  storageError : String
deriving DecidableEq

inductive ClaimError
  | indeterminate (claim : IndeterminateClaim)
  | validation (error : ValidationError)
  | conflict (conflict : Conflict)
  | storage (error : StorageError)
deriving DecidableEq

structure IndeterminateLease where
  jobId : Id
  storageError : String
deriving DecidableEq

inductive LeaseError
  | conflict (conflict : LeaseConflict)
  | indeterminate (lease : IndeterminateLease)
  | storage (error : StorageError)
deriving DecidableEq

/-- `From<Error> for CommitError`. -/
def CommitError.ofError : Error → CommitError
  | .storage s => .storage s
  | .validation v => .validation v
  | .conflict c => .conflict c

/-- `error_to_claim`. -/
def errorToClaim : Error → ClaimError
  | .storage s => .storage s
  | .validation v => .validation v
  | .conflict c => .conflict c

/-- A helper's `ValidationError`, raised with `?`. -/
def invalid {α : Type} (message : String) : Except Error α :=
  .error (.validation ⟨message⟩)

/-! ## Fresh identifiers -/

/-- What the operating system's CSPRNG delivers to the calls of `Id::new`, in
order. Running out is an entropy failure. -/
abbrev Entropy := List Id

/-- The zero ID is reserved: `Id::new` turns it into one. -/
def Id.ofRandom (bytes : Id) : Id :=
  if bytes = Id.zero then Id.ofU128 1 else bytes

/-- `Id::new`, with the entropy that is left. -/
def Id.new : Entropy → Except Error (Id × Entropy)
  | [] => .error (.storage (.io "entropy source unavailable"))
  | bytes :: rest => .ok (Id.ofRandom bytes, rest)

end Minisqlite
