import Minisqlite.Types

/-!
# Static validation

`Limits` of `config.rs`, `ProjectionPatch::validate` of `projection.rs` and
`validate_batch` of `commit.rs`: every check that a batch passes before a
transaction is opened.
-/

namespace Minisqlite

/-- `Limits`. -/
structure Limits where
  maxEventPayload : Nat
  maxMetadata : Nat
  maxProjectionKey : Nat
  maxProjectionValue : Nat
  maxJobPayload : Nat
  maxOperationsPerCommit : Nat
  maxStringLen : Nat
  maxSummaryLen : Nat
  maxReplaceEntries : Nat
deriving DecidableEq

namespace Limits

/-- `Limits::new`, the defaults. -/
def default : Limits where
  maxEventPayload := 2 ^ 20
  maxMetadata := 64 * 2 ^ 10
  maxProjectionKey := 2 ^ 20
  maxProjectionValue := 4 * 2 ^ 20
  maxJobPayload := 2 ^ 20
  maxOperationsPerCommit := 1024
  maxStringLen := 4096
  maxSummaryLen := 4096
  maxReplaceEntries := 10000

/-- The one check behind all the `validate_*` methods, with `too_large`. -/
def validateSize (kind : String) (size limit : Nat) : Except ValidationError Unit :=
  if size > limit then .error ⟨s!"{kind} exceeds limit: {size} > {limit}"⟩ else .ok ()

variable (limits : Limits)

def validateMetadata (len : Nat) : Except ValidationError Unit :=
  validateSize "metadata" len limits.maxMetadata

def validateEvent (payloadLen metadataLen : Nat) : Except ValidationError Unit := do
  validateSize "event payload" payloadLen limits.maxEventPayload
  limits.validateMetadata metadataLen

def validateProjectionKey (len : Nat) : Except ValidationError Unit :=
  validateSize "projection key" len limits.maxProjectionKey

def validateProjectionValue (len : Nat) : Except ValidationError Unit :=
  validateSize "projection value" len limits.maxProjectionValue

def validateJobPayload (len : Nat) : Except ValidationError Unit :=
  validateSize "job payload" len limits.maxJobPayload

def validateString (field s : String) : Except ValidationError Unit :=
  validateSize field s.utf8ByteSize limits.maxStringLen

def validateSummary (s : String) : Except ValidationError Unit :=
  validateSize "error summary" s.utf8ByteSize limits.maxSummaryLen

/-- `Limits::validate`: what a store is opened with. -/
def validate : Except ValidationError Unit :=
  if limits.maxOperationsPerCommit = 0 then
    .error ⟨"max_operations_per_commit must be greater than 0"⟩
  else if limits.maxReplaceEntries = 0 then
    .error ⟨"max_replace_entries must be greater than 0"⟩
  else .ok ()

end Limits

/-! ## Projection patches -/

namespace ProjectionPatch

/-- The entries of a `Replace` are the new baseline: each key once. -/
def seenEntries (projection : String) : List Bytes → List ProjectionEntry →
    Except ValidationError (List Bytes)
  | seen, [] => .ok seen
  | seen, entry :: entries =>
    if entry.key ∈ seen then
      .error ⟨s!"projection {projection} replace has contradictory duplicate key"⟩
    else seenEntries projection (entry.key :: seen) entries

/-- One mutation of the duplicate-key check; `seen` are the keys since the last
`Clear` or `Replace`. -/
def seenMutation (projection : String) (seen : List Bytes) : ProjectionMutation →
    Except ValidationError (List Bytes)
  | .put key _ | .delete key =>
    if key ∈ seen then .error ⟨s!"projection {projection} patch has contradictory duplicate key"⟩
    else .ok (key :: seen)
  | .clear => .ok []
  | .replace entries => seenEntries projection [] entries

/-- `ProjectionPatch::validate`. -/
def validate (patch : ProjectionPatch) : Except ValidationError Unit := do
  if patch.newVersion ≠ patch.expectedVersion + 1 ∨ patch.newVersion = 0 then
    let projection := patch.projection
    let expected := patch.expectedVersion
    let new := patch.newVersion
    .error ⟨
      s!"projection {projection} patch new_version {new} must be expected_version {expected} + 1"⟩
  let _ ← patch.mutations.foldlM (seenMutation patch.projection) []

/-- The next version, without wrapping around. -/
theorem next_version {version new : UInt64} :
    new = version + 1 ∧ new ≠ 0 ↔ new.toNat = version.toNat + 1 := by
  rw [← UInt64.toNat_inj, ne_eq, ← UInt64.toNat_inj, UInt64.toNat_add]
  have := version.toNat_lt
  have := new.toNat_lt
  simp only [UInt64.reduceToNat]
  omega

/-- A valid patch moves its projection one version up. -/
theorem validate_version {patch : ProjectionPatch} (h : patch.validate = .ok ()) :
    patch.newVersion = patch.expectedVersion + 1 ∧ patch.newVersion ≠ 0 := by
  unfold validate at h
  split at h
  · cases h
  · next hv => exact not_or.mp hv |>.imp not_not.mp id

end ProjectionPatch

/-! ## Batches -/

/-- A check of `validate_batch` that is not about a size. -/
def reject (bad : Bool) (message : String) : Except ValidationError Unit :=
  if bad then .error ⟨message⟩ else .ok ()

def validateMutation (limits : Limits) : ProjectionMutation → Except ValidationError Unit
  | .put key value => do
    limits.validateProjectionKey key.length
    limits.validateProjectionValue value.length
  | .delete key => limits.validateProjectionKey key.length
  | .clear => .ok ()
  | .replace entries => do
    let count := entries.length
    let limit := limits.maxReplaceEntries
    reject (decide (count > limit)) s!"replace entry count {count} exceeds limit {limit}"
    entries.forM fun entry => do
      limits.validateProjectionKey entry.key.length
      limits.validateProjectionValue entry.value.length

def validateOperation (limits : Limits) : Operation → Except ValidationError Unit
  | .appendEvent event => do
    reject (decide (event.eventId = Id.zero)) "event id cannot be zero"
    limits.validateString "stream id" event.streamId
    limits.validateString "event type" event.eventType
    limits.validateEvent event.payload.length event.metadata.length
  | .projectionPatch patch => do
    limits.validateString "projection" patch.projection
    patch.validate
    patch.mutations.forM (validateMutation limits)
  | .enqueueJob spec => do
    reject (decide (spec.jobId = Id.zero)) "job id cannot be zero"
    reject (decide (spec.maxAttempts = 0)) "job max_attempts must be at least 1"
    limits.validateString "queue" spec.queue
    limits.validateString "partition key" spec.partitionKey
    limits.validateJobPayload spec.payload.length
    match spec.idempotencyKey with
    | some key => limits.validateString "idempotency key" key
    | none => .ok ()
  | .ackJob ack => reject (decide (ack.leaseToken = Id.zero)) "lease token cannot be zero"
  | .failJob failure => do
    reject (decide (failure.leaseToken = Id.zero)) "lease token cannot be zero"
    limits.validateSummary failure.errorSummary
  | .cancelJob cancellation =>
    reject (decide (cancellation.leaseToken = some Id.zero)) "lease token cannot be zero"
  | .resolveJob _ => .ok ()
  | .extendLease extension =>
    reject (decide (extension.leaseToken = Id.zero)) "lease token cannot be zero"

/-- `validate_batch`. -/
def validateBatch (limits : Limits) (batch : CommitBatch) : Except ValidationError Unit := do
  reject (decide (batch.transactionId = Id.zero)) "transaction id cannot be zero"
  let count := batch.operations.length
  let limit := limits.maxOperationsPerCommit
  reject (decide (count > limit)) s!"operation count {count} exceeds limit {limit}"
  limits.validateMetadata batch.metadata.length
  batch.expectedStreamVersions.forM fun expected =>
    limits.validateString "stream id" expected.streamId
  batch.operations.forM (validateOperation limits)

end Minisqlite
