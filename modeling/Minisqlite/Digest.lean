import Minisqlite.Types
import Minisqlite.Sha256

/-!
# The canonical request digest

`CommitBatch::request_digest` feeds a batch to SHA-256 as a sequence of
writes. A `Digest` here is that sequence, one entry for each call of
`Sha256::update`; `requestBytes` is what the hasher sees and `requestDigest`
what it returns.

`requestBytes_injective`: the serialization determines everything in the batch
except its transaction id. `Fits` is what a Rust value promises about its
lengths: each is a `usize`, so it is below `2 ^ 64`.
-/

namespace Minisqlite

open PrefixCode

/-! ## The writes -/

/-- The arguments of `write_raw`, in order. -/
abbrev Digest := List Bytes

def writeU8 (v : UInt8) : Digest := [[v]]

def writeU64 (v : UInt64) : Digest := [toBeBytes 8 v.toNat]

def writeI64 (v : Int64) : Digest := [toBeBytes 8 v.toUInt64.toNat]

def writeBytes (bytes : Bytes) : Digest := writeU64 (UInt64.ofNat bytes.length) ++ [bytes]

def writeStr (s : String) : Digest := writeBytes (utf8 s)

def writeId (id : Id) : Digest := [id.bytes]

/-- The flag and the value of an optional field, written in line by
`digest_operation` and by `write_opt_id`. -/
def writeOpt {α : Type} (write : α → Digest) : Option α → Digest
  | some a => writeU8 1 ++ write a
  | none => writeU8 0

def writeOptId (id : Option Id) : Digest := writeOpt writeId id

def digestMutation : ProjectionMutation → Digest
  | .put key value => writeU8 1 ++ writeBytes key ++ writeBytes value
  | .delete key => writeU8 2 ++ writeBytes key
  | .clear => writeU8 3
  | .replace entries =>
    writeU8 4 ++ writeU64 (UInt64.ofNat entries.length) ++
      entries.flatMap fun entry => writeBytes entry.key ++ writeBytes entry.value

def resolutionCode : Resolution → UInt8
  | .retry => 1
  | .markSucceeded => 2
  | .markDead => 3

/-- `digest_operation`. -/
def digestOperation : Operation → Digest
  | .appendEvent e =>
    writeU8 1 ++ writeId e.eventId ++ writeStr e.streamId ++ writeStr e.eventType ++
      writeU64 e.schemaVersion.toUInt64 ++ writeI64 e.occurredAtMs ++ writeOptId e.causationId ++
      writeOptId e.correlationId ++ writeBytes e.payload ++ writeBytes e.metadata
  | .projectionPatch p =>
    writeU8 2 ++ writeStr p.projection ++ writeU64 p.expectedVersion ++ writeU64 p.newVersion ++
      writeU64 (UInt64.ofNat p.mutations.length) ++ p.mutations.flatMap digestMutation
  | .enqueueJob j =>
    writeU8 3 ++ writeId j.jobId ++ writeStr j.queue ++ writeStr j.partitionKey ++
      writeBytes j.payload ++ writeI64 j.notBeforeMs ++ writeU64 j.maxAttempts.toUInt64 ++
      writeU8 j.effectMode.encode ++ writeOpt writeStr j.idempotencyKey
  | .ackJob a =>
    writeU8 4 ++ writeId a.jobId ++ writeId a.leaseToken ++ writeOpt writeBytes a.resultDigest
  | .failJob f =>
    writeU8 5 ++ writeId f.jobId ++ writeId f.leaseToken ++ writeStr f.errorSummary ++
      writeOpt writeI64 f.retryAfterMs
  | .cancelJob c => writeU8 6 ++ writeId c.jobId ++ writeOptId c.leaseToken
  | .resolveJob r => writeU8 7 ++ writeId r.jobId ++ writeU8 (resolutionCode r.resolution)
  | .extendLease e => writeU8 8 ++ writeId e.jobId ++ writeId e.leaseToken ++ writeI64 e.newExpiryMs

/-- Everything `request_digest` writes. -/
def requestWrites (batch : CommitBatch) : Digest :=
  writeI64 batch.committedAtMs ++ writeOptId batch.correlationId ++ writeBytes batch.metadata ++
    writeU64 (UInt64.ofNat batch.expectedStreamVersions.length) ++
    (batch.expectedStreamVersions.flatMap fun expected =>
      writeStr expected.streamId ++ writeU64 expected.version) ++
    writeU64 (UInt64.ofNat batch.operations.length) ++ batch.operations.flatMap digestOperation

/-- The byte sequence that the hasher is fed. -/
def requestBytes (batch : CommitBatch) : Bytes := (requestWrites batch).flatten

/-- `CommitBatch::request_digest`. -/
def requestDigest (batch : CommitBatch) : Bytes :=
  ((requestWrites batch).foldl Sha256.update Sha256.new).finish

@[simp] theorem requestDigest_length (batch : CommitBatch) : (requestDigest batch).length = 32 :=
  Sha256.finish_length _

/-! ## Lengths of Rust values -/

abbrev fitsStr (s : String) : Prop := (utf8 s).length < 2 ^ 64

abbrev fitsBytes (bytes : Bytes) : Prop := bytes.length < 2 ^ 64

def ProjectionMutation.Fits : ProjectionMutation → Prop
  | .put key value => fitsBytes key ∧ fitsBytes value
  | .delete key => fitsBytes key
  | .clear => True
  | .replace entries =>
    entries.length < 2 ^ 64 ∧ ∀ entry ∈ entries, fitsBytes entry.key ∧ fitsBytes entry.value

def Operation.Fits : Operation → Prop
  | .appendEvent e =>
    fitsStr e.streamId ∧ fitsStr e.eventType ∧ fitsBytes e.payload ∧ fitsBytes e.metadata
  | .projectionPatch p =>
    fitsStr p.projection ∧ p.mutations.length < 2 ^ 64 ∧ ∀ m ∈ p.mutations, m.Fits
  | .enqueueJob j =>
    fitsStr j.queue ∧ fitsStr j.partitionKey ∧ fitsBytes j.payload ∧
      ∀ key ∈ j.idempotencyKey, fitsStr key
  | .ackJob a => ∀ digest ∈ a.resultDigest, fitsBytes digest
  | .failJob f => fitsStr f.errorSummary
  | .cancelJob _ | .resolveJob _ | .extendLease _ => True

/-- Every byte string, string and list of the batch has a length below `2 ^ 64`. -/
structure CommitBatch.Fits (batch : CommitBatch) : Prop where
  metadata : fitsBytes batch.metadata
  expectedCount : batch.expectedStreamVersions.length < 2 ^ 64
  expected : ∀ e ∈ batch.expectedStreamVersions, fitsStr e.streamId
  operationCount : batch.operations.length < 2 ^ 64
  operations : ∀ op ∈ batch.operations, op.Fits

/-! ## Reading the writes back -/

namespace DigestLemmas

theorem u64_ofNat_inj {n m : Nat} (hn : n < 2 ^ 64) (hm : m < 2 ^ 64)
    (h : UInt64.ofNat n = UInt64.ofNat m) : n = m := by
  have := congrArg UInt64.toNat h
  rwa [UInt64.toNat_ofNat_of_lt' hn, UInt64.toNat_ofNat_of_lt' hm] at this

theorem flatten_flatMap {α : Type} (write : α → Digest) (xs : List α) :
    (xs.flatMap write).flatten = xs.flatMap fun x => (write x).flatten := by
  induction xs with
  | nil => rfl
  | cons x xs ih => simp [ih]

theorem readU8 : Readable fun v => (writeU8 v).flatten :=
  fixed (fun _ _ => rfl) fun a b h => by simpa [writeU8] using h

theorem readU64 : Readable fun v => (writeU64 v).flatten := by
  refine fixed (fun _ _ => by simp [writeU64]) fun a b h => ?_
  refine UInt64.toNat_inj.mp (toBeBytes_inj ?_ ?_ (by simpa [writeU64] using h))
  · exact a.toNat_lt
  · exact b.toNat_lt

theorem readI64 : Readable fun v => (writeI64 v).flatten := by
  intro a b s t _ _ h
  obtain ⟨hab, hst⟩ := readU64.apply (a := a.toUInt64) (b := b.toUInt64) h
  exact ⟨by simpa using congrArg UInt64.toInt64 hab, hst⟩

theorem readId : Readable fun id => (writeId id).flatten :=
  fixed (fun a b => by simp [writeId, a.length_bytes, b.length_bytes]) fun a b h =>
    Id.bytes_inj (by simpa [writeId] using h)

/-- The length prefix says where the bytes end. -/
theorem readBytes : ReadableOn fitsBytes fun bytes => (writeBytes bytes).flatten := by
  intro a b s t ha hb h
  simp only [writeBytes, List.flatten_append, List.append_assoc] at h
  obtain ⟨hl, hrest⟩ := readU64.apply h
  exact List.append_inj (by simpa using hrest) (u64_ofNat_inj ha hb hl)

theorem readStr : ReadableOn fitsStr fun s => (writeStr s).flatten :=
  readBytes.comap fun _ _ => utf8_inj

theorem readOpt {α : Type} {P : α → Prop} {write : α → Digest}
    (h : ReadableOn P fun a => (write a).flatten) :
    ReadableOn (fun o : Option α => ∀ a ∈ o, P a) fun o => (writeOpt write o).flatten := by
  have heq : (fun o => (writeOpt write o).flatten) =
      PrefixCode.optional 0 1 fun a => (write a).flatten := by
    funext o
    cases o <;> simp [writeOpt, PrefixCode.optional, writeU8]
  rw [heq]
  exact optional_readable (by decide) h

theorem readOptId : Readable fun id => (writeOptId id).flatten :=
  fun a b s t _ _ => readOpt readId a b s t (by simp) (by simp)

/-- A list written as its `u64` count and its items. -/
theorem readList {α : Type} {P : α → Prop} {write : α → Digest}
    (h : ReadableOn P fun a => (write a).flatten) :
    ReadableOn (fun xs : List α => xs.length < 2 ^ 64 ∧ ∀ x ∈ xs, P x) fun xs =>
      (writeU64 (UInt64.ofNat xs.length) ++ xs.flatMap write).flatten := by
  have hcount : ReadableOn (fun n => n < 2 ^ 64) fun n => (writeU64 (UInt64.ofNat n)).flatten := by
    intro a b s t ha hb he
    obtain ⟨hab, hst⟩ := readU64.apply he
    exact ⟨u64_ofNat_inj ha hb hab, hst⟩
  simpa only [List.flatten_append, flatten_flatMap] using counted hcount h

theorem readEntry : ReadableOn (fun e : ProjectionEntry => fitsBytes e.key ∧ fitsBytes e.value)
    fun e => (writeBytes e.key ++ writeBytes e.value).flatten := by
  rintro ⟨ka, va⟩ ⟨kb, vb⟩ s t ⟨hka, hva⟩ ⟨hkb, hvb⟩ h
  simp only [List.flatten_append, List.append_assoc] at h
  obtain ⟨h1, h⟩ := readBytes _ _ _ _ hka hkb h
  obtain ⟨h2, h⟩ := readBytes _ _ _ _ hva hvb h
  exact ⟨by subst_vars; rfl, h⟩

theorem readExpected : ReadableOn (fun e : ExpectedStreamVersion => fitsStr e.streamId)
    fun e => (writeStr e.streamId ++ writeU64 e.version).flatten := by
  rintro ⟨sa, va⟩ ⟨sb, vb⟩ s t ha hb h
  simp only [List.flatten_append, List.append_assoc] at h
  obtain ⟨h1, h⟩ := readStr _ _ _ _ ha hb h
  obtain ⟨h2, h⟩ := readU64.apply h
  exact ⟨by subst_vars; rfl, h⟩

/-- The tag tells the mutations apart; the rest is read field by field. -/
theorem readMutation : ReadableOn ProjectionMutation.Fits fun m => (digestMutation m).flatten := by
  intro a b s t ha hb h
  cases a <;> cases b <;>
    simp only [digestMutation, List.flatten_append, List.append_assoc] at h <;>
    replace h := readU8.apply h <;> obtain ⟨htag, h⟩ := h <;> try cases htag
  case put.put =>
    obtain ⟨h1, h⟩ := readBytes _ _ _ _ ha.1 hb.1 h
    obtain ⟨h2, h⟩ := readBytes _ _ _ _ ha.2 hb.2 h
    exact ⟨by subst_vars; rfl, h⟩
  case delete.delete =>
    obtain ⟨h1, h⟩ := readBytes _ _ _ _ ha hb h
    exact ⟨by subst_vars; rfl, h⟩
  case clear.clear => exact ⟨rfl, h⟩
  case replace.replace =>
    obtain ⟨h1, h⟩ := readList readEntry _ _ _ _ ha hb
      (by simpa only [List.flatten_append, List.append_assoc] using h)
    exact ⟨by subst_vars; rfl, h⟩

theorem u32_toUInt64_inj {a b : UInt32} (h : a.toUInt64 = b.toUInt64) : a = b :=
  UInt32.toNat_inj.mp (by simpa using congrArg UInt64.toNat h)

theorem effectMode_encode_inj {a b : EffectMode} (h : a.encode = b.encode) : a = b := by
  cases a <;> cases b <;> first | rfl | cases h

theorem resolutionCode_inj {a b : Resolution} (h : resolutionCode a = resolutionCode b) :
    a = b := by
  cases a <;> cases b <;> first | rfl | cases h

/-- The first byte of an operation. -/
def operationTag : Operation → UInt8
  | .appendEvent _ => 1
  | .projectionPatch _ => 2
  | .enqueueJob _ => 3
  | .ackJob _ => 4
  | .failJob _ => 5
  | .cancelJob _ => 6
  | .resolveJob _ => 7
  | .extendLease _ => 8

theorem digestOperation_tag (op : Operation) :
    ∃ rest, (digestOperation op).flatten = operationTag op :: rest := by
  cases op <;> exact ⟨_, rfl⟩

theorem operationTag_inj {a b : Operation} {s t : Bytes}
    (h : (digestOperation a).flatten ++ s = (digestOperation b).flatten ++ t) :
    operationTag a = operationTag b := by
  obtain ⟨_, ha⟩ := digestOperation_tag a
  obtain ⟨_, hb⟩ := digestOperation_tag b
  rw [ha, hb] at h
  exact (List.cons.inj h).1

/-! One lemma for each operation: its fields are read in the order in which they are written. -/

theorem readEvent : ReadableOn (fun e => (Operation.appendEvent e).Fits)
    fun e => (digestOperation (.appendEvent e)).flatten := by
  rintro ⟨⟩ ⟨⟩ s t ⟨hstream, htype, hpayload, hmeta⟩ ⟨hstream', htype', hpayload', hmeta'⟩ h
  simp only [digestOperation, List.flatten_append, List.append_assoc] at h
  obtain ⟨-, h⟩ := readU8.apply h
  obtain ⟨h1, h⟩ := readId.apply h
  obtain ⟨h2, h⟩ := readStr _ _ _ _ hstream hstream' h
  obtain ⟨h3, h⟩ := readStr _ _ _ _ htype htype' h
  obtain ⟨hv, h⟩ := readU64.apply h
  have hversion := u32_toUInt64_inj hv
  obtain ⟨h4, h⟩ := readI64.apply h
  obtain ⟨h5, h⟩ := readOptId.apply h
  obtain ⟨h6, h⟩ := readOptId.apply h
  obtain ⟨h7, h⟩ := readBytes _ _ _ _ hpayload hpayload' h
  obtain ⟨h8, h⟩ := readBytes _ _ _ _ hmeta hmeta' h
  exact ⟨by subst_vars; rfl, h⟩

theorem readPatch : ReadableOn (fun p => (Operation.projectionPatch p).Fits)
    fun p => (digestOperation (.projectionPatch p)).flatten := by
  rintro ⟨⟩ ⟨⟩ s t ha hb h
  simp only [digestOperation, List.flatten_append, List.append_assoc] at h
  obtain ⟨-, h⟩ := readU8.apply h
  obtain ⟨h1, h⟩ := readStr _ _ _ _ ha.1 hb.1 h
  obtain ⟨h2, h⟩ := readU64.apply h
  obtain ⟨h3, h⟩ := readU64.apply h
  obtain ⟨h4, h⟩ := readList readMutation _ _ _ _ ha.2 hb.2
    (by simpa only [List.flatten_append, List.append_assoc] using h)
  exact ⟨by subst_vars; rfl, h⟩

theorem readSpec : ReadableOn (fun j => (Operation.enqueueJob j).Fits)
    fun j => (digestOperation (.enqueueJob j)).flatten := by
  rintro ⟨⟩ ⟨⟩ s t ⟨hqueue, hpartition, hpayload, hkey⟩ ⟨hqueue', hpartition', hpayload', hkey'⟩ h
  simp only [digestOperation, List.flatten_append, List.append_assoc] at h
  obtain ⟨-, h⟩ := readU8.apply h
  obtain ⟨h1, h⟩ := readId.apply h
  obtain ⟨h2, h⟩ := readStr _ _ _ _ hqueue hqueue' h
  obtain ⟨h3, h⟩ := readStr _ _ _ _ hpartition hpartition' h
  obtain ⟨h4, h⟩ := readBytes _ _ _ _ hpayload hpayload' h
  obtain ⟨h5, h⟩ := readI64.apply h
  obtain ⟨hattempts, h⟩ := readU64.apply h
  have hmax := u32_toUInt64_inj hattempts
  obtain ⟨hmode, h⟩ := readU8.apply h
  have heffect := effectMode_encode_inj hmode
  obtain ⟨h6, h⟩ := readOpt readStr _ _ _ _ hkey hkey' h
  exact ⟨by subst_vars; rfl, h⟩

theorem readAck : ReadableOn (fun a => (Operation.ackJob a).Fits)
    fun a => (digestOperation (.ackJob a)).flatten := by
  rintro ⟨⟩ ⟨⟩ s t ha hb h
  simp only [digestOperation, List.flatten_append, List.append_assoc] at h
  obtain ⟨-, h⟩ := readU8.apply h
  obtain ⟨h1, h⟩ := readId.apply h
  obtain ⟨h2, h⟩ := readId.apply h
  obtain ⟨h3, h⟩ := readOpt readBytes _ _ _ _ ha hb h
  exact ⟨by subst_vars; rfl, h⟩

theorem readFailure : ReadableOn (fun f => (Operation.failJob f).Fits)
    fun f => (digestOperation (.failJob f)).flatten := by
  rintro ⟨⟩ ⟨⟩ s t ha hb h
  simp only [digestOperation, List.flatten_append, List.append_assoc] at h
  obtain ⟨-, h⟩ := readU8.apply h
  obtain ⟨h1, h⟩ := readId.apply h
  obtain ⟨h2, h⟩ := readId.apply h
  obtain ⟨h3, h⟩ := readStr _ _ _ _ ha hb h
  obtain ⟨h4, h⟩ := readOpt readI64 _ _ _ _ (by simp) (by simp) h
  exact ⟨by subst_vars; rfl, h⟩

theorem readCancellation : Readable fun c => (digestOperation (.cancelJob c)).flatten := by
  rintro ⟨⟩ ⟨⟩ s t - - h
  simp only [digestOperation, List.flatten_append, List.append_assoc] at h
  obtain ⟨-, h⟩ := readU8.apply h
  obtain ⟨h1, h⟩ := readId.apply h
  obtain ⟨h2, h⟩ := readOptId.apply h
  exact ⟨by subst_vars; rfl, h⟩

theorem readResolution : Readable fun r => (digestOperation (.resolveJob r)).flatten := by
  rintro ⟨⟩ ⟨⟩ s t - - h
  simp only [digestOperation, List.flatten_append, List.append_assoc] at h
  obtain ⟨-, h⟩ := readU8.apply h
  obtain ⟨h1, h⟩ := readId.apply h
  obtain ⟨hcode, h⟩ := readU8.apply h
  have hresolution := resolutionCode_inj hcode
  exact ⟨by subst_vars; rfl, h⟩

theorem readExtension : Readable fun e => (digestOperation (.extendLease e)).flatten := by
  rintro ⟨⟩ ⟨⟩ s t - - h
  simp only [digestOperation, List.flatten_append, List.append_assoc] at h
  obtain ⟨-, h⟩ := readU8.apply h
  obtain ⟨h1, h⟩ := readId.apply h
  obtain ⟨h2, h⟩ := readId.apply h
  obtain ⟨h3, h⟩ := readI64.apply h
  exact ⟨by subst_vars; rfl, h⟩

/-- The bytes of an operation say where they end: its tag fixes the fields that follow. -/
theorem readOperation : ReadableOn Operation.Fits fun op => (digestOperation op).flatten := by
  intro a b s t ha hb h
  have htag := operationTag_inj h
  -- Only operations of one kind are left.
  cases a <;> cases b <;> try cases htag
  case appendEvent.appendEvent => exact (readEvent _ _ s t ha hb h).imp_left (congrArg _)
  case projectionPatch.projectionPatch => exact (readPatch _ _ s t ha hb h).imp_left (congrArg _)
  case enqueueJob.enqueueJob => exact (readSpec _ _ s t ha hb h).imp_left (congrArg _)
  case ackJob.ackJob => exact (readAck _ _ s t ha hb h).imp_left (congrArg _)
  case failJob.failJob => exact (readFailure _ _ s t ha hb h).imp_left (congrArg _)
  case cancelJob.cancelJob => exact (readCancellation.apply h).imp_left (congrArg _)
  case resolveJob.resolveJob => exact (readResolution.apply h).imp_left (congrArg _)
  case extendLease.extendLease => exact (readExtension.apply h).imp_left (congrArg _)

end DigestLemmas

open DigestLemmas

/-- The canonical serialization is injective: two batches that feed the hasher
the same bytes agree in every field except the transaction id. -/
theorem requestBytes_injective {b b' : CommitBatch} (hb : b.Fits) (hb' : b'.Fits)
    (h : requestBytes b = requestBytes b') :
    b.committedAtMs = b'.committedAtMs ∧ b.correlationId = b'.correlationId ∧
      b.metadata = b'.metadata ∧ b.expectedStreamVersions = b'.expectedStreamVersions ∧
      b.operations = b'.operations := by
  have h : requestBytes b ++ [] = requestBytes b' ++ [] := by rw [h]
  simp only [requestBytes, requestWrites, List.flatten_append, List.append_assoc] at h
  obtain ⟨hat, h⟩ := readI64.apply h
  obtain ⟨hcorrelation, h⟩ := readOptId.apply h
  obtain ⟨hmeta, h⟩ := readBytes _ _ _ _ hb.metadata hb'.metadata h
  obtain ⟨hexpected, h⟩ := readList readExpected _ _ _ _ ⟨hb.expectedCount, hb.expected⟩
    ⟨hb'.expectedCount, hb'.expected⟩
    (by simpa only [List.flatten_append, List.append_assoc] using h)
  obtain ⟨hops, -⟩ := readList readOperation _ _ _ _ ⟨hb.operationCount, hb.operations⟩
    ⟨hb'.operationCount, hb'.operations⟩
    (by simpa only [List.flatten_append, List.append_assoc] using h)
  exact ⟨hat, hcorrelation, hmeta, hexpected, hops⟩

theorem requestBytes_injective_sample :
    (CommitBatch.mk (.ofU128 1) 7 none [1] [⟨"mail", 3⟩]
        [.resolveJob ⟨.ofU128 5, .retry⟩]).operations =
      (CommitBatch.mk (.ofU128 2) 7 none [1] [⟨"mail", 3⟩]
        [.resolveJob ⟨.ofU128 5, .retry⟩]).operations := by
  refine (requestBytes_injective ?_ ?_ rfl).2.2.2.2 <;>
    exact ⟨by decide, by decide, by decide, by decide, by simp [Operation.Fits]⟩

end Minisqlite
