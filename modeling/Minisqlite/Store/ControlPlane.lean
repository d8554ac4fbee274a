import Minisqlite.Store.Commit

/-!
# The control plane store

The calls of `ControlPlaneStore`, serialized by its single writer, as a
machine. What a call cannot decide itself is part of the call: the outcome of
its COMMIT, and for a claim the entropy that the CSPRNG delivers.

The COMMIT is the only step that can be indeterminate: it is `done`, or its
result is `lost` and the transaction persisted or rolled back. A call that
fails before it leaves the database as it was.
-/

namespace Minisqlite

open Runs

/-- How a COMMIT ends. -/
inductive CommitStep
  | done
  | lost (persisted : Bool) (storageError : String)
deriving DecidableEq

/-- The staged database becomes the durable one. -/
def CommitStep.persists : CommitStep → Bool
  | .done => true
  | .lost persisted _ => persisted

/-- `Mutex<Option<Connection>>`: an indeterminate COMMIT poisons the writer. -/
inductive Writer
  | live
  | poisoned
deriving DecidableEq

structure ControlPlaneStore where
  db : Db
  writer : Writer

namespace ControlPlaneStore

/-- A new store. -/
def start : ControlPlaneStore := ⟨Db.empty, .live⟩

/-- `connection`: a poisoned writer is reopened, on the durable database. -/
def connection (store : ControlPlaneStore) : ControlPlaneStore := { store with writer := .live }

@[simp] theorem connection_db (store : ControlPlaneStore) : store.connection.db = store.db := rfl

/-- The COMMIT of a staged database, and the error text if its outcome is lost. -/
def finish (store : ControlPlaneStore) (staged : Db) :
    CommitStep → ControlPlaneStore × Option String
  | .done => (⟨staged, .live⟩, none)
  | .lost persisted storageError =>
    (⟨if persisted then staged else store.db, .poisoned⟩, some storageError)

/-- `ControlPlaneStore::commit`. -/
def commit (store : ControlPlaneStore) (limits : Limits) (batch : CommitBatch) (step : CommitStep) :
    ControlPlaneStore × Except CommitError CommitReceipt :=
  match stageCommit limits store.db batch with
  | .error e => (store.connection, .error e)
  | .ok (.resubmitted receipt) => (store.connection, .ok receipt)
  | .ok (.staged db receipt) =>
    match store.finish db step with
    | (store, none) => (store, .ok receipt)
    | (store, some e) => (store, .error (.indeterminate ⟨batch.transactionId, e⟩))

/-- The outcome of a claim that committed. -/
def claimOutcome (staged : StagedClaim) : ClaimOutcome :=
  if staged.jobs = [] then .maintenanceCommitted ⟨staged.transactionId⟩
  else .committed ⟨staged.transactionId, staged.jobs, []⟩

/-- `ControlPlaneStore::claim_jobs`. -/
def claimJobs (store : ControlPlaneStore) (request : ClaimRequest) (entropy : Entropy)
    (step : CommitStep) : ControlPlaneStore × Except ClaimError ClaimOutcome :=
  match stageClaim store.db request entropy with
  | .error e => (store.connection, .error (errorToClaim e))
  | .ok none => (store.connection, .ok .noop)
  | .ok (some staged) =>
    match store.finish staged.db step with
    | (store, none) => (store, .ok (claimOutcome staged))
    | (store, some e) =>
      (store, .error (.indeterminate ⟨staged.transactionId, staged.jobs.map ClaimedJob.jobId, e⟩))

/-- `ControlPlaneStore::extend_lease`. -/
def extendLease (store : ControlPlaneStore) (jobId leaseToken : Id) (newExpiryMs nowMs : Int64)
    (step : CommitStep) : ControlPlaneStore × Except LeaseError LeaseExtensionReceipt :=
  match applyExtendLease store.db ⟨jobId, leaseToken, newExpiryMs⟩ nowMs with
  | .error e => (store.connection, .error e)
  | .ok (db, receipt) =>
    match store.finish db step with
    | (store, none) => (store, .ok receipt)
    | (store, some e) => (store, .error (.indeterminate ⟨jobId, e⟩))

end ControlPlaneStore

/-! ## Calls and runs -/

inductive Call
  | commit (limits : Limits) (batch : CommitBatch) (step : CommitStep)
  | claimJobs (request : ClaimRequest) (entropy : Entropy) (step : CommitStep)
  | extendLease (jobId leaseToken : Id) (newExpiryMs nowMs : Int64) (step : CommitStep)
  | recoverTransaction (transactionId : Id)
  | recoverClaim (transactionId : Id) (nowMs : Int64)

inductive Reply
  | commit (result : Except CommitError CommitReceipt)
  | claimJobs (result : Except ClaimError ClaimOutcome)
  | extendLease (result : Except LeaseError LeaseExtensionReceipt)
  | recoverTransaction (result : TransactionRecovery)
  | recoverClaim (result : ClaimRecovery)
deriving DecidableEq

/-- One call. -/
def ControlPlaneStore.answer (store : ControlPlaneStore) : Call → ControlPlaneStore × Reply
  | .commit limits batch step => (store.commit limits batch step).map id .commit
  | .claimJobs request entropy step => (store.claimJobs request entropy step).map id .claimJobs
  | .extendLease jobId leaseToken newExpiryMs nowMs step =>
    (store.extendLease jobId leaseToken newExpiryMs nowMs step).map id .extendLease
  | .recoverTransaction transactionId =>
    (store.connection, .recoverTransaction (Minisqlite.recoverTransaction store.db transactionId))
  | .recoverClaim transactionId nowMs =>
    (store.connection, .recoverClaim (Minisqlite.recoverClaim store.db transactionId nowMs))

/-- The store as a machine, from an empty database. -/
def controlPlane : Machine ControlPlaneStore Call Reply :=
  ⟨.start, ControlPlaneStore.answer⟩

/-- The identifiers that `Id::new` can hand out during a call. -/
def Call.drawn : Call → List Id
  | .claimJobs _ entropy _ => entropy.map Id.ofRandom
  | _ => []

/-- `Id::new` never returns the same identifier twice in the run. -/
def FreshIds (calls : List Call) : Prop := (calls.flatMap Call.drawn).Nodup

instance (calls : List Call) : Decidable (FreshIds calls) :=
  inferInstanceAs (Decidable (calls.flatMap Call.drawn).Nodup)

/-! ## A small store

One job in one queue, for concrete runs. -/

namespace Sample

def jobId : Id := .ofU128 1

def spec (effectMode : EffectMode) : JobSpec :=
  ⟨jobId, "mail", "alice", [1], 0, 3, effectMode, none⟩

def batch (n : BitVec 128) (committedAtMs : Int64) (operations : List Operation) : CommitBatch :=
  ⟨.ofU128 n, committedAtMs, none, [], [], operations⟩

def commit (n : BitVec 128) (committedAtMs : Int64) (operations : List Operation) : Call :=
  .commit .default (batch n committedAtMs operations) .done

def enqueue (effectMode : EffectMode) : Call := commit 10 0 [.enqueueJob (spec effectMode)]

/-- A claim of one job for 100 ms, whose lease token is `n` and whose
transaction id is `n + 1`. -/
def claim (n : BitVec 128) (nowMs : Int64) (step : CommitStep) : Call :=
  .claimJobs ⟨"mail", "worker", nowMs, 100, 1⟩ [.ofU128 n, .ofU128 (n + 1)] step

end Sample

end Minisqlite
