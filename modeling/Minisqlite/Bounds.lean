import Minisqlite.Claims
import Minisqlite.Effects.ClaimRows
import Minisqlite.Fairness
import Minisqlite.PartitionIndex
import Minisqlite.Projections
import Minisqlite.Streams

/-!
# What a store holds is within its limits

`validate_batch` checks every field of a batch, and nearly everything that a store
holds comes from a batch. The queue and the partition of a cursor and of an active
partition are those of a job. Only the worker id of a claim does not come from a
batch, and `claim_jobs` does not check its length.

1. `validateOperation_within`: a valid operation is within the limits.
2. `DataWithin`, `dataWithin_after`: so is what the store holds, but for worker ids.
3. `limits_hold_iff`: worker ids are, exactly if those of the claims are that have
   granted a lease.
-/

namespace Minisqlite

open Tables Runs KeyMaps EffectLemmas ClaimLemmas FairnessLemmas ProjectionLemmas

/-- The texts that the store itself writes into `error_summary`. -/
def builtinSummaries : List String :=
  ["lease expired at final attempt", "retry resolution exhausted max_attempts", "resolved as dead"]

section Within

variable (limits : Limits)

/-- The string is at most `max_string_len` bytes long. -/
def Limits.fits (s : String) : Prop := s.utf8ByteSize ≤ limits.maxStringLen

structure Event.Within (event : Event) : Prop where
  streamId : limits.fits event.streamId
  eventType : limits.fits event.eventType
  payload : event.payload.length ≤ limits.maxEventPayload
  metadata : event.metadata.length ≤ limits.maxMetadata

structure JobSpec.Within (spec : JobSpec) : Prop where
  queue : limits.fits spec.queue
  partitionKey : limits.fits spec.partitionKey
  payload : spec.payload.length ≤ limits.maxJobPayload
  idempotencyKey : ∀ key, spec.idempotencyKey = some key → limits.fits key

structure JobRow.Within (job : JobRow) : Prop where
  spec : job.spec.Within limits
  errorSummary : ∀ summary, job.errorSummary = some summary →
    summary ∈ builtinSummaries ∨ summary.utf8ByteSize ≤ limits.maxSummaryLen

structure ProjectionEntryRow.Within (row : ProjectionEntryRow) : Prop where
  projection : limits.fits row.projection
  key : row.key.length ≤ limits.maxProjectionKey
  value : row.value.length ≤ limits.maxProjectionValue

structure QueueCursorRow.Within (row : QueueCursorRow) : Prop where
  queue : limits.fits row.queue
  lastPartitionKey : ∀ partition, row.lastPartitionKey = some partition → limits.fits partition

/-- What the store holds is within the limits, but for the worker ids. -/
structure DataWithin (db : Db) : Prop where
  transactions : ∀ row ∈ db.transactions.rows, row.metadata.length ≤ limits.maxMetadata
  events : ∀ row ∈ db.events.rows, row.event.Within limits
  streams : ∀ row ∈ db.streams.rows, limits.fits row.streamId
  projections : ∀ row ∈ db.projectionMeta.rows, limits.fits row.projection
  entries : ∀ row ∈ db.projectionEntries.rows, row.Within limits
  jobs : ∀ job ∈ db.jobs.rows, job.Within limits
  queueCursors : ∀ row ∈ db.queueCursors.rows, row.Within limits
  activePartitions : ∀ row ∈ db.activePartitions.rows,
    limits.fits row.queue ∧ limits.fits row.partitionKey

/-- The worker ids that the store holds are within the limits. -/
structure WorkersWithin (db : Db) : Prop where
  jobs : ∀ job ∈ db.jobs.rows, ∀ workerId, job.workerId = some workerId → limits.fits workerId
  receipts : ∀ receipt ∈ db.claimReceipts.rows, limits.fits receipt.workerId

/-- No `Replace` of these entries stored more than it may. -/
def ReplacesWithin (entries : List Entry) : Prop :=
  ∀ patch ∈ entries.flatMap Entry.patches, ∀ replacement,
    .replace replacement ∈ patch.mutations → replacement.length ≤ limits.maxReplaceEntries

/-- Everything that the store holds after `k` calls is within its limits. -/
structure LimitsHold (calls : List Call) (k : Nat) : Prop where
  data : DataWithin limits (controlPlane.stateAt calls k).db
  workers : WorkersWithin limits (controlPlane.stateAt calls k).db
  replaces : ReplacesWithin limits (journal (calls.take k))

/-- The call is one on a store with these limits. -/
def Call.Under : Call → Prop
  | .commit limits' _ _ => limits' = limits
  | _ => True

structure ProjectionMutation.Within (mutation : ProjectionMutation) : Prop where
  writes : ∀ key value, mutation.mutation.writes key value →
    key.length ≤ limits.maxProjectionKey ∧ value.length ≤ limits.maxProjectionValue
  replace : ∀ entries, mutation = .replace entries → entries.length ≤ limits.maxReplaceEntries

structure ProjectionPatch.Within (patch : ProjectionPatch) : Prop where
  projection : limits.fits patch.projection
  mutations : ∀ mutation ∈ patch.mutations, mutation.Within limits

/-- What the limits ask of an operation. -/
def Operation.Within : Operation → Prop
  | .appendEvent event => event.Within limits
  | .projectionPatch patch => patch.Within limits
  | .enqueueJob spec => spec.Within limits
  | .failJob failure => failure.errorSummary.utf8ByteSize ≤ limits.maxSummaryLen
  | _ => True

end Within

namespace BoundLemmas

variable {limits : Limits} {db db' : Db} {batch : CommitBatch} {tx tx' : OpenBatch}
  {op : Operation}

/-! ## Validation -/

theorem validateSize_ok {kind : String} {size limit : Nat} {x : Unit} :
    Limits.validateSize kind size limit = .ok x ↔ size ≤ limit := by
  unfold Limits.validateSize
  split
  · next h => exact iff_of_false (by simp) (Nat.not_le.mpr h)
  · next h => exact iff_of_true rfl (Nat.not_lt.mp h)

theorem validateMutation_within {mutation : ProjectionMutation} {x : Unit}
    (h : validateMutation limits mutation = .ok x) : mutation.Within limits := by
  cases mutation with
  | put key value =>
    obtain ⟨_, hkey, hvalue⟩ := bind_ok h
    refine ⟨?_, by simp⟩
    rintro _ _ ⟨rfl, rfl⟩
    exact ⟨validateSize_ok.mp hkey, validateSize_ok.mp hvalue⟩
  | delete key => exact ⟨fun _ _ h => h.elim, by simp⟩
  | clear => exact ⟨fun _ _ h => h.elim, by simp⟩
  | replace entries =>
    obtain ⟨_, hcount, hentries⟩ := bind_ok h
    constructor
    · intro key value hwrites
      obtain ⟨entry, hentry, he⟩ := List.mem_map.mp hwrites
      obtain ⟨rfl, rfl⟩ := Prod.mk.inj he
      obtain ⟨_, hkey, hvalue⟩ := bind_ok (forM_ok hentries entry hentry)
      exact ⟨validateSize_ok.mp hkey, validateSize_ok.mp hvalue⟩
    · rintro _ ⟨⟩
      unfold reject at hcount
      split at hcount
      · cases hcount
      · next hfew => simpa using hfew

/-- A valid operation is within the limits. -/
theorem validateOperation_within {x : Unit} (h : validateOperation limits op = .ok x) :
    op.Within limits := by
  cases op with
  | appendEvent event =>
    obtain ⟨_, -, h⟩ := bind_ok h
    obtain ⟨_, hstream, h⟩ := bind_ok h
    obtain ⟨_, htype, h⟩ := bind_ok h
    obtain ⟨_, hpayload, hmetadata⟩ := bind_ok h
    exact ⟨validateSize_ok.mp hstream, validateSize_ok.mp htype, validateSize_ok.mp hpayload,
      validateSize_ok.mp hmetadata⟩
  | projectionPatch patch =>
    obtain ⟨_, hprojection, h⟩ := bind_ok h
    obtain ⟨_, -, h⟩ := bind_ok h
    exact ⟨validateSize_ok.mp hprojection, fun mutation hmutation =>
      validateMutation_within (forM_ok h mutation hmutation)⟩
  | enqueueJob spec =>
    obtain ⟨_, -, h⟩ := bind_ok h
    obtain ⟨_, -, h⟩ := bind_ok h
    obtain ⟨_, hqueue, h⟩ := bind_ok h
    obtain ⟨_, hpartition, h⟩ := bind_ok h
    obtain ⟨_, hpayload, h⟩ := bind_ok h
    refine ⟨validateSize_ok.mp hqueue, validateSize_ok.mp hpartition, validateSize_ok.mp hpayload,
      fun key hkey => ?_⟩
    rw [hkey] at h
    exact validateSize_ok.mp h
  | failJob failure =>
    obtain ⟨_, -, h⟩ := bind_ok h
    exact validateSize_ok.mp h
  | _ => trivial

structure BatchWithin (limits : Limits) (batch : CommitBatch) : Prop where
  metadata : batch.metadata.length ≤ limits.maxMetadata
  expected : ∀ expected ∈ batch.expectedStreamVersions, limits.fits expected.streamId
  operations : ∀ op ∈ batch.operations, op.Within limits

theorem validateBatch_within (h : validateBatch limits batch = .ok ()) :
    BatchWithin limits batch := by
  have hops := validateBatch_operation h
  obtain ⟨_, -, h⟩ := bind_ok h
  obtain ⟨_, -, h⟩ := bind_ok h
  obtain ⟨_, hmetadata, h⟩ := bind_ok h
  obtain ⟨_, hexpected, h⟩ := bind_ok h
  exact ⟨validateSize_ok.mp hmetadata,
    fun expected hmem => validateSize_ok.mp (forM_ok hexpected expected hmem),
    fun op hop => validateOperation_within (hops op hop)⟩

/-- Every batch of the journal was valid for the limits of the store. -/
theorem journal_within {calls : List Call} (hunder : ∀ call ∈ calls, call.Under limits)
    (h : Entry.batch batch ∈ journal calls) : BatchWithin limits batch := by
  rw [← List.take_length (l := calls)] at h
  obtain ⟨i, -, limits', receipt, step, db', hcall, -, hstaged⟩ := mem_journal_batch.mp h
  obtain rfl : limits' = limits := hunder _ (List.mem_of_getElem? hcall)
  exact validateBatch_within (stageCommit_staged hstaged).1

/-! ## Jobs -/

/-- A text of the store may take the place of the summary. -/
theorem within_terminal {job : JobRow} (h : job.Within limits) (state : JobState) (now : Int64)
    (tid : Id) {digest : Option Bytes} {text : Option String}
    (htext : ∀ summary, text = some summary →
      summary ∈ builtinSummaries ∨ summary.utf8ByteSize ≤ limits.maxSummaryLen) :
    ((JobUpdate.terminal state now tid digest text).set job).Within limits := by
  refine ⟨h.spec, fun summary hsummary => ?_⟩
  cases text with
  | none => exact h.errorSummary summary hsummary
  | some text => exact htext summary hsummary

theorem within_same {job : JobRow} {u : JobUpdate} (h : job.Within limits)
    (hsummary : (u.set job).errorSummary = job.errorSummary) : (u.set job).Within limits :=
  ⟨u.spec job ▸ h.spec, hsummary ▸ h.errorSummary⟩

/-- Other than a resolution, an operation writes its own summary or none. -/
theorem within_of_step {job : JobRow} {u : JobUpdate} (hstep : JobStep batch job op u)
    (hop : op.Within limits) (hresolve : ∀ resolution, op ≠ .resolveJob resolution)
    (h : job.Within limits) : (u.set job).Within limits := by
  cases hstep with
  | ack => exact within_terminal h _ _ _ (by simp)
  | failDead =>
    refine within_terminal h _ _ _ fun summary hsummary => .inr ?_
    rw [← Option.some.inj hsummary]
    exact hop
  | failRetry =>
    refine ⟨h.spec, fun summary hsummary => .inr ?_⟩
    rw [← Option.some.inj hsummary]
    exact hop
  | cancelPending => exact within_terminal h _ _ _ (by simp)
  | cancelLeased => exact within_terminal h _ _ _ (by simp)
  | resolveRetry => exact absurd rfl (hresolve _)
  | resolveTerminal => exact absurd rfl (hresolve _)
  | extend => exact within_same h rfl

theorem within_repair {job : JobRow} (h : job.Within limits) (tid : Id) (now : Int64) :
    ((job.repair tid now).set job).Within limits := by
  unfold JobRow.repair
  split
  · exact within_terminal h _ _ _ (by simp [builtinSummaries])
  · exact within_same h rfl

theorem jobs_of_write {job : JobRow} {u : JobUpdate} (found : db.job job.spec.jobId = some job)
    (hwrite : RowWrite db db' job u) (hset : job.Within limits → (u.set job).Within limits)
    (h : ∀ row ∈ db.jobs.rows, row.Within limits) : ∀ row ∈ db'.jobs.rows, row.Within limits := by
  intro row hrow
  rcases mem_rows_of_write found hwrite hrow with rfl | ⟨hrow, -⟩
  · exact hset (h job (job_eq_some.mp found).1)
  · exact h row hrow

/-- A resolution writes a text of the store, or none. -/
theorem jobs_of_resolve {tid : Id} {now : Int64} {resolution : JobResolution}
    (h : applyResolve db tid now resolution = .ok db')
    (hjobs : ∀ row ∈ db.jobs.rows, row.Within limits) :
    ∀ row ∈ db'.jobs.rows, row.Within limits := by
  obtain ⟨job, hjob, h⟩ := bind_ok h
  have hfound := requireJob_ok.mp hjob
  have hjob : db.job job.spec.jobId = some job := job_of_mem (job_eq_some.mp hfound).1
  have hterminal : ∀ {state : JobState} {text : Option String}, state.isTerminal = true →
      (∀ summary, text = some summary → summary ∈ builtinSummaries) →
      setTerminal db job state now tid none text = .ok db' →
      ∀ row ∈ db'.jobs.rows, row.Within limits := by
    intro state text hstate htext hset
    exact jobs_of_write hjob (setTerminal_ok hstate hset).1
      (fun hwithin => within_terminal hwithin _ _ _ fun summary hs => .inl (htext summary hs)) hjobs
  split at h
  · split at h
    · obtain ⟨_, -, h⟩ := bind_ok h
      exact hterminal rfl (by simp [builtinSummaries]) h
    · obtain ⟨_, -, h⟩ := bind_ok h
      exact jobs_of_write hjob (setNonterminal_ok rfl h).1 (fun hwithin => within_same hwithin rfl)
        hjobs
  · obtain ⟨_, -, h⟩ := bind_ok h
    exact hterminal rfl (by simp) h
  · obtain ⟨_, -, h⟩ := bind_ok h
    exact hterminal rfl (by simp [builtinSummaries]) h

theorem jobs_of_effect (heffect : JobEffect batch db db' op) (hop : op.Within limits)
    (hresolve : ∀ resolution, op ≠ .resolveJob resolution)
    (hjobs : ∀ row ∈ db.jobs.rows, row.Within limits) :
    ∀ row ∈ db'.jobs.rows, row.Within limits := by
  cases heffect with
  | enqueued write =>
    intro row hrow
    rw [write.rows] at hrow
    rcases List.mem_append.mp hrow with hrow | hrow
    · exact hjobs row hrow
    · rw [List.mem_singleton.mp hrow]
      exact ⟨hop, by simp [JobSpec.row]⟩
  | updated found write _ step =>
    exact jobs_of_write found write (within_of_step step hop hresolve) hjobs

theorem jobs_of_operation (h : applyOperation batch tx op = .ok tx') (hop : op.Within limits)
    (hjobs : ∀ row ∈ tx.db.jobs.rows, row.Within limits) :
    ∀ row ∈ tx'.db.jobs.rows, row.Within limits := by
  by_cases hresolve : ∃ resolution, op = .resolveJob resolution
  · obtain ⟨resolution, rfl⟩ := hresolve
    exact jobs_of_resolve (run_ok h).1 hjobs
  · cases hid : op.jobId with
    | none => rwa [(applyOperation_noJob hid h).1]
    | some jobId =>
      exact jobs_of_effect (applyOperation_job hid h).2.effect hop
        (fun resolution he => hresolve ⟨resolution, he⟩) hjobs

/-! ## Claims -/

section Claim

variable {request : ClaimRequest} {entropy : Entropy} {staged : StagedClaim}

theorem jobs_of_claim (h : stageClaim db request entropy = .ok (some staged))
    (hjobs : ∀ row ∈ db.jobs.rows, row.Within limits) :
    ∀ row ∈ staged.db.jobs.rows, row.Within limits := by
  obtain ⟨expiryMs, plan, db₁, db₂, db₃, hphases⟩ := stageClaim_phases h
  intro row hrow
  rw [hphases.rows] at hrow
  obtain ⟨job, hjob, rfl⟩ := List.mem_map.mp hrow
  rcases hphases.row_cases hjob rfl with ⟨lease, -, -, hset⟩ | ⟨action, -, -, hset⟩ | ⟨-, -, hset⟩
  · rw [hset]
    exact within_same (hjobs job hjob) rfl
  · rw [hset]
    exact within_repair (hjobs job hjob) _ _
  · rw [hset]
    exact hjobs job hjob

/-- A claim leaves its cursor at a partition of a job of its queue. -/
theorem cursors_of_claim (h : stageClaim db request entropy = .ok (some staged))
    (hjobs : ∀ row ∈ db.jobs.rows, row.Within limits)
    (hcursors : ∀ row ∈ db.queueCursors.rows, row.Within limits) :
    ∀ row ∈ staged.db.queueCursors.rows, row.Within limits := by
  obtain ⟨expiryMs, plan, db₁, db₂, db₃, hphases⟩ := stageClaim_phases h
  intro row hrow
  have hlookup := Table.lookup_of_mem (Schema.keyed_unique _) hrow
  rw [hphases.cursors] at hlookup
  split at hlookup
  · next hmoved =>
    obtain ⟨hqueue, hsome⟩ := hmoved
    obtain ⟨partition, hlast⟩ := Option.isSome_iff_exists.mp hsome
    obtain ⟨served, -, hkeys, hserved⟩ := planLeases_served hphases.planned
    rw [hserved] at hlast
    have hmem := List.mem_of_getLast? hlast
    rw [← hkeys] at hmem
    obtain ⟨lease, hlease, rfl⟩ := List.mem_map.mp hmem
    obtain ⟨hstored, hactive, -⟩ := partitionHead_spec (planLeases_head hphases.planned hlease)
    have hwithin := (hjobs lease.job hstored).spec
    rw [← Option.some.inj hlookup]
    refine ⟨?_, fun partition hpartition => ?_⟩
    · rw [← hqueue, ← (activeIn_iff.mp hactive).1]
      exact hwithin.queue
    · rw [hserved, hlast] at hpartition
      rw [← Option.some.inj hpartition]
      exact hwithin.partitionKey
  · exact hcursors row (Table.lookup_mem hlookup)

end Claim

/-! ## Runs -/

/-- What a batch does not write in one go. -/
structure RowsWithin (limits : Limits) (db : Db) : Prop where
  jobs : ∀ job ∈ db.jobs.rows, job.Within limits
  queueCursors : ∀ row ∈ db.queueCursors.rows, row.Within limits

theorem rowsWithin_of_batch {receipt : CommitReceipt}
    (h : stageBatch db batch = .ok (db', receipt)) (hbatch : BatchWithin limits batch)
    (hrows : RowsWithin limits db) : RowsWithin limits db' := by
  refine stageBatch_induction (P := RowsWithin limits) (fun d _ _ hd => ⟨hd.jobs, hd.queueCursors⟩)
    (fun tx tx' op happlies htx => ?_) h hrows
  have hop := hbatch.operations op happlies.mem
  refine ⟨jobs_of_operation happlies.apply hop htx.jobs, ?_⟩
  cases hid : op.jobId with
  | none =>
    rw [(applyOperation_noJob hid happlies.apply).2.2.2.2.1]
    exact htx.queueCursors
  | some jobId =>
    rw [(applyOperation_job hid happlies.apply).2.queueCursors]
    exact htx.queueCursors

theorem rowsWithin_of_call {call : Call} {entries : List Entry}
    (h : CallEffect db call db' entries) (hunder : call.Under limits)
    (hrows : RowsWithin limits db) : RowsWithin limits db' := by
  cases h with
  | unchanged => exact hrows
  | commit persists staged =>
    obtain rfl := hunder
    have hstaged := stageCommit_staged staged
    exact rowsWithin_of_batch hstaged.2.2 (validateBatch_within hstaged.1) hrows
  | claim persists staging =>
    exact ⟨jobs_of_claim staging hrows.jobs, cursors_of_claim staging hrows.jobs hrows.queueCursors⟩
  | extend persists staged =>
    obtain ⟨_, hwrite⟩ := applyExtendLease_direct staged
    refine ⟨jobs_of_effect hwrite.effect trivial (by simp) hrows.jobs, ?_⟩
    rw [hwrite.queueCursors]
    exact hrows.queueCursors

theorem rowsWithin_after {calls : List Call} (hunder : ∀ call ∈ calls, call.Under limits) :
    RowsWithin limits (controlPlane.after calls).db := by
  refine controlPlane.after_induction (P := fun calls store =>
    (∀ call ∈ calls, call.Under limits) → RowsWithin limits store.db) ?_ ?_ calls hunder
  · exact fun _ => ⟨by simp [controlPlane, ControlPlaneStore.start, Db.empty, Table.empty],
      by simp [controlPlane, ControlPlaneStore.start, Db.empty, Table.empty]⟩
  · intro calls call ih hunder
    exact rowsWithin_of_call (next_effect _ call) (hunder call (by simp))
      (ih fun call hcall => hunder call (List.mem_append_left _ hcall))

/-! ## Projections -/

/-- A projection has a row once a patch of it is committed. -/
theorem patched_invariant : PatchInvariant fun patches db =>
    ∀ row ∈ db.projectionMeta.rows, ∃ patch ∈ patches, patch.projection = row.projection where
  frame patches d d' hmeta _ h := by rwa [hmeta]
  patched patches d d' patch happly h row hrow := by
    obtain ⟨-, -, entries, rfl⟩ := applyProjectionPatch_ok happly
    have hupsert : row.projection = patch.projection ∨ row ∈ d.projectionMeta.rows :=
      Table.mem_upsert (by exact fun _ => rfl) hrow
    rcases hupsert with hkey | hrow
    · exact ⟨patch, List.mem_append_right _ (List.mem_singleton_self _), hkey.symm⟩
    · obtain ⟨other, hother, hkey⟩ := h row hrow
      exact ⟨other, List.mem_append_left _ hother, hkey⟩

/-- Every entry was written by a mutation of a committed patch of its projection. -/
theorem entry_written {calls : List Call} {row : ProjectionEntryRow}
    (hrow : row ∈ (controlPlane.after calls).db.projectionEntries.rows) :
    ∃ patch ∈ (journal calls).flatMap Entry.patches, patch.projection = row.projection ∧
      ∃ mutation ∈ patch.mutations, mutation.mutation.writes row.key row.value := by
  have hget : projectionGet (controlPlane.after calls).db row.projection row.key =
      some row.value := by
    rw [projectionGet, Db.entry, Table.lookup_of_mem entries_unique hrow]
    rfl
  rw [patches_after folded_invariant (fun _ => rfl) calls row.projection] at hget
  rcases writes_of_run hget with hempty | ⟨m, hm, hwrites⟩
  · cases hempty
  · obtain ⟨patch, hpatch, hm⟩ := List.mem_flatMap.mp hm
    obtain ⟨hpatch, hkey⟩ := List.mem_filter.mp hpatch
    obtain ⟨mutation, hmutation, rfl⟩ := List.mem_map.mp hm
    exact ⟨patch, hpatch, of_decide_eq_true hkey, mutation, hmutation, hwrites⟩

theorem patch_within {calls : List Call} (hunder : ∀ call ∈ calls, call.Under limits)
    {patch : ProjectionPatch} (h : patch ∈ (journal calls).flatMap Entry.patches) :
    patch.Within limits := by
  obtain ⟨entry, hentry, hpatch⟩ := List.mem_flatMap.mp h
  cases entry with
  | claim => cases hpatch
  | batch b =>
    obtain ⟨op, hop, hpatch⟩ := List.mem_filterMap.mp hpatch
    have hwithin := (journal_within hunder hentry).operations op hop
    cases op with
    | projectionPatch patch' =>
      rw [← Option.some.inj hpatch]
      exact hwithin
    | _ => cases hpatch

end BoundLemmas

open BoundLemmas

/-- In every state of a store, everything but the worker ids is within its limits. -/
theorem dataWithin_after {limits : Limits} {calls : List Call}
    (hunder : ∀ call ∈ calls, call.Under limits) :
    DataWithin limits (controlPlane.after calls).db where
  transactions row hrow := by
    obtain ⟨entry, hentry, hrecorded⟩ := (recorded_of_mem (journal_recorded calls)).2 row hrow
    cases hrecorded with
    | batch b sequence => exact (journal_within hunder hentry).metadata
    | claim => exact Nat.zero_le _
  events row hrow := by
    obtain ⟨b, hb, hevent⟩ := event_submitted hrow
    exact (journal_within hunder hb).operations _ hevent
  streams row hrow := by
    obtain ⟨b, hb, hnames⟩ := (listed_after calls row.streamId).mp ⟨row, hrow, rfl⟩
    have hbatch := journal_within hunder hb
    rcases hnames with ⟨expected, hexpected, hid⟩ | ⟨event, hevent, hid⟩
    · exact hid ▸ hbatch.expected expected hexpected
    · exact hid ▸ Event.Within.streamId (hbatch.operations _ hevent)
  projections row hrow := by
    obtain ⟨patch, hpatch, hkey⟩ := patches_after patched_invariant
      (by simp [Db.empty, Table.empty]) calls row hrow
    exact hkey ▸ (patch_within hunder hpatch).projection
  entries row hrow := by
    obtain ⟨patch, hpatch, hkey, mutation, hmutation, hwrites⟩ := entry_written hrow
    have hwithin := patch_within hunder hpatch
    have hbounds := (hwithin.mutations mutation hmutation).writes _ _ hwrites
    exact ⟨hkey ▸ hwithin.projection, hbounds.1, hbounds.2⟩
  jobs := (rowsWithin_after hunder).jobs
  queueCursors := (rowsWithin_after hunder).queueCursors
  activePartitions row hrow := by
    obtain ⟨job, hjob, hfor, -⟩ := (indexed_after calls).first row hrow
    have hwithin := ((rowsWithin_after hunder).jobs job hjob).spec
    exact ⟨hfor.1 ▸ hwithin.queue, hfor.2 ▸ hwithin.partitionKey⟩

namespace BoundLemmas

/-! ## Worker ids -/

/-- A worker id of a job is also on a receipt. -/
def WorkersReceipted (db : Db) : Prop :=
  ∀ job ∈ db.jobs.rows, ∀ workerId, job.workerId = some workerId →
    ∃ receipt ∈ db.claimReceipts.rows, receipt.workerId = workerId

theorem workerId_of_step {job : JobRow} {u : JobUpdate} (h : JobStep batch job op u) :
    (u.set job).workerId = none ∨ (u.set job).workerId = job.workerId := by
  cases h with
  | extend => exact .inr rfl
  | _ => exact .inl rfl

theorem onReceipt_workerId (op : Operation) (receipt : ClaimReceiptRow) :
    (op.onReceipt receipt).workerId = receipt.workerId :=
  congrArg Grant.workerId (onReceipt_grant op receipt)

theorem workers_of_jobWrite (hwrite : JobWrite batch op db db') (h : WorkersReceipted db) :
    WorkersReceipted db' := by
  have hkept : ∀ receipt ∈ db.claimReceipts.rows,
      ∃ receipt' ∈ db'.claimReceipts.rows, receipt'.workerId = receipt.workerId := by
    intro receipt hreceipt
    rw [hwrite.receipts]
    exact ⟨_, List.mem_map_of_mem hreceipt, onReceipt_workerId op receipt⟩
  have hold : ∀ job ∈ db.jobs.rows, ∀ workerId, job.workerId = some workerId →
      ∃ receipt ∈ db'.claimReceipts.rows, receipt.workerId = workerId := by
    intro job hjob workerId hworker
    obtain ⟨receipt, hreceipt, rfl⟩ := h job hjob workerId hworker
    exact hkept receipt hreceipt
  intro row hrow workerId hworker
  cases hwrite.effect with
  | enqueued write =>
    rw [write.rows] at hrow
    rcases List.mem_append.mp hrow with hrow | hrow
    · exact hold row hrow workerId hworker
    · rw [List.mem_singleton.mp hrow] at hworker
      cases hworker
  | updated found write _ step =>
    rcases mem_rows_of_write found write hrow with rfl | ⟨hrow, -⟩
    · rcases workerId_of_step step with hnone | hsame
      · rw [hnone] at hworker
        cases hworker
      · exact hold _ (job_eq_some.mp found).1 workerId (hsame ▸ hworker)
    · exact hold row hrow workerId hworker

theorem workers_of_claim {request : ClaimRequest} {entropy : Entropy} {staged : StagedClaim}
    (hstage : stageClaim db request entropy = .ok (some staged)) (h : WorkersReceipted db) :
    WorkersReceipted staged.db := by
  obtain ⟨expiryMs, plan, db₁, db₂, db₃, hphases⟩ := stageClaim_phases hstage
  intro row hrow workerId hworker
  rw [hphases.write.receipts]
  rw [hphases.rows] at hrow
  obtain ⟨job, hjob, rfl⟩ := List.mem_map.mp hrow
  rcases hphases.row_cases hjob rfl with ⟨lease, hlease, -, hset⟩ | ⟨action, -, -, hset⟩ |
    ⟨-, -, hset⟩
  · rw [hset] at hworker
    obtain rfl := Option.some.inj hworker
    exact ⟨_, List.mem_append_right _ (List.mem_map_of_mem hlease), rfl⟩
  · rw [hset] at hworker
    unfold JobRow.repair at hworker
    split at hworker <;> cases hworker
  · rw [hset] at hworker
    obtain ⟨receipt, hreceipt, he⟩ := h job hjob workerId hworker
    exact ⟨receipt, List.mem_append_left _ hreceipt, he⟩

theorem workers_of_call {call : Call} {entries : List Entry} (h : CallEffect db call db' entries)
    (hdb : WorkersReceipted db) : WorkersReceipted db' := by
  cases h with
  | unchanged => exact hdb
  | commit persists staged =>
    refine stageBatch_induction (P := WorkersReceipted) (fun d _ _ hd => hd)
      (fun tx tx' op happlies htx => ?_) (stageCommit_staged staged).2.2 hdb
    cases hid : op.jobId with
    | none =>
      obtain ⟨hjobs, -, hreceipts, -⟩ := applyOperation_noJob hid happlies.apply
      unfold WorkersReceipted
      rwa [hjobs, hreceipts]
    | some jobId => exact workers_of_jobWrite (applyOperation_job hid happlies.apply).2 htx
  | claim persists staging => exact workers_of_claim staging hdb
  | extend persists staged =>
    obtain ⟨_, hwrite⟩ := applyExtendLease_direct staged
    exact workers_of_jobWrite hwrite hdb

theorem workers_after (calls : List Call) : WorkersReceipted (controlPlane.after calls).db :=
  controlPlane.after_induction (P := fun _ store => WorkersReceipted store.db)
    (by simp [WorkersReceipted, controlPlane, ControlPlaneStore.start, Db.empty, Table.empty])
    (fun _ call ih => workers_of_call (next_effect _ call) ih) calls

section Receipts

variable {calls : List Call} {k : Nat} {request : ClaimRequest} {staged : StagedClaim}

/-- A claim has granted as many leases as it could. -/
theorem jobs_length {entropy : Entropy} (h : stageClaim db request entropy = .ok (some staged)) :
    staged.jobs.length = leaseCount db request := by
  obtain ⟨served, rfl, hserved, -⟩ := served_of_claim h
  have hlength := congrArg List.length hserved
  rwa [List.length_map, List.length_take] at hlength

theorem workerId_of_claimed (h : ClaimPersisted calls k request staged) :
    ∀ claimed ∈ staged.jobs, claimed.workerId = request.workerId := by
  obtain ⟨entropy, step, -, -, staging⟩ := h
  obtain ⟨leases, expiryMs, hwrite⟩ := stageClaim_write staging
  intro claimed hclaimed
  rw [hwrite.jobs] at hclaimed
  obtain ⟨lease, -, rfl⟩ := List.mem_map.mp hclaimed
  rfl

/-- The receipts are those of the claims that have granted a lease. -/
theorem receipt_iff {workerId : String} :
    (∃ receipt ∈ (controlPlane.stateAt calls k).db.claimReceipts.rows,
      receipt.workerId = workerId) ↔
    ∃ i < k, ∃ request staged, ClaimPersisted calls i request staged ∧
      1 ≤ leaseCount (controlPlane.stateAt calls i).db request ∧ request.workerId = workerId := by
  constructor
  · rintro ⟨receipt, hreceipt, rfl⟩
    obtain ⟨entry, hentry, hgrant⟩ := entry_of_receipt hreceipt
    cases entry with
    | batch => cases hgrant
    | claim tid request jobs =>
      obtain ⟨i, hik, staged, hpersisted, -, rfl⟩ := mem_journal_claim.mp hentry
      obtain ⟨claimed, hclaimed, he⟩ := List.mem_map.mp hgrant
      refine ⟨i, hik, request, staged, hpersisted, ?_, ?_⟩
      · obtain ⟨entropy, step, -, -, staging⟩ := hpersisted
        rw [← jobs_length staging]
        exact List.length_pos_of_mem hclaimed
      · rw [← workerId_of_claimed hpersisted claimed hclaimed]
        exact congrArg Grant.workerId he
  · rintro ⟨i, hik, request, staged, hpersisted, hgranted, rfl⟩
    have hworker := workerId_of_claimed hpersisted
    obtain ⟨entropy, step, hcall, persists, staging⟩ := hpersisted
    rw [← jobs_length staging] at hgranted
    obtain ⟨claimed, hclaimed⟩ := List.exists_mem_of_length_pos hgranted
    have hgrant : claimed.grant staged.transactionId ∈ grants (calls.take k) := by
      refine Machine.mem_log_take.mpr ⟨i, hik, _, hcall, List.mem_flatMap.mpr
        ⟨_, mem_entries_claim.mpr ⟨entropy, step, staged, rfl, persists, staging, rfl, rfl⟩, ?_⟩⟩
      exact List.mem_map_of_mem hclaimed
    rw [← receipts_granted] at hgrant
    obtain ⟨receipt, hreceipt, he⟩ := List.mem_map.mp hgrant
    exact ⟨receipt, hreceipt, (congrArg Grant.workerId he).trans (hworker claimed hclaimed)⟩

end Receipts

end BoundLemmas

/-- What a store with these limits holds after `k` calls is within them, exactly if
the worker id is of every claim that was committed and found a lease to grant. -/
theorem limits_hold_iff (limits : Limits) (calls : List Call)
    (hunder : ∀ call ∈ calls, call.Under limits) (k : Nat) :
    LimitsHold limits calls k ↔
      ∀ i < k, ∀ request staged, ClaimPersisted calls i request staged →
        1 ≤ leaseCount (controlPlane.stateAt calls i).db request →
        limits.fits request.workerId := by
  have htaken : ∀ call ∈ calls.take k, call.Under limits := fun call hcall =>
    hunder call (List.mem_of_mem_take hcall)
  constructor
  · intro h i hik request staged hpersisted hgranted
    obtain ⟨receipt, hreceipt, he⟩ :=
      receipt_iff.mpr ⟨i, hik, request, staged, hpersisted, hgranted, rfl⟩
    exact he ▸ h.workers.receipts receipt hreceipt
  · intro h
    have hreceipts : ∀ receipt ∈ (controlPlane.stateAt calls k).db.claimReceipts.rows,
        limits.fits receipt.workerId := by
      intro receipt hreceipt
      obtain ⟨i, hik, request, staged, hpersisted, hgranted, he⟩ :=
        receipt_iff.mp ⟨receipt, hreceipt, rfl⟩
      exact he ▸ h i hik request staged hpersisted hgranted
    refine ⟨dataWithin_after htaken, ⟨fun job hjob workerId hworker => ?_, hreceipts⟩, ?_⟩
    · obtain ⟨receipt, hreceipt, he⟩ := workers_after (calls.take k) job hjob workerId hworker
      exact he ▸ hreceipts receipt hreceipt
    · intro patch hpatch replacement hreplace
      exact ((patch_within htaken hpatch).mutations _ hreplace).replace _ rfl

/-- Limits that the job and its queue and partition meet, but not the worker. -/
def Sample.tight : Limits := { Limits.default with maxStringLen := 5 }

def Sample.longWorker : List Call :=
  [.commit Sample.tight (Sample.batch 10 0 [.enqueueJob (Sample.spec .explicitlyIdempotent)]) .done,
    Sample.claim 20 5 .done]

/-- The claim path stores a worker id of six bytes where five are allowed. -/
theorem limits_hold_counterexample :
    (∀ call ∈ Sample.longWorker, call.Under Sample.tight) ∧
      ¬ LimitsHold Sample.tight Sample.longWorker 2 := by
  refine ⟨fun call hcall => ?_, fun h => ?_⟩
  · simp only [Sample.longWorker, List.mem_cons, List.not_mem_nil, or_false] at hcall
    rcases hcall with rfl | rfl
    · rfl
    · trivial
  · have hstored : ⟨.ofU128 21, .ofU128 1, .ofU128 20, 1, "worker", 105⟩ ∈
        (controlPlane.stateAt Sample.longWorker 2).db.claimReceipts.rows := by decide
    have hfits : "worker".utf8ByteSize ≤ 5 := h.workers.receipts _ hstored
    exact absurd hfits (by decide)

theorem limits_hold_iff_sample :
    LimitsHold Limits.default
      [Sample.enqueue .explicitlyIdempotent, Sample.claim 20 5 .done] 2 := by
  refine (limits_hold_iff Limits.default
    [Sample.enqueue .explicitlyIdempotent, Sample.claim 20 5 .done] (fun call hcall => ?_) 2).mpr ?_
  · simp only [List.mem_cons, List.not_mem_nil, or_false] at hcall
    rcases hcall with rfl | rfl
    · rfl
    · trivial
  · rintro i hi request staged ⟨entropy, step, hcall, -⟩ -
    obtain rfl | rfl : i = 0 ∨ i = 1 := by omega
    · cases hcall
    · cases hcall
      show "worker".utf8ByteSize ≤ 4096
      decide

end Minisqlite
