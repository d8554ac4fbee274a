import Minisqlite.Journal

/-!
# References between the tables

Rows name transactions, jobs, projections and streams of other tables; some of
these columns are foreign keys, others are only promised. All of them resolve,
inside an open batch too, because the rows that are named are never deleted and
the row of the batch itself comes first.

* `Resolves`: the promise. `resolves_of_operation`: an operation keeps it.
* `resolves_after`: every reachable state.
-/

namespace Minisqlite

open Tables Runs EffectLemmas

/-- The transaction has a row. -/
def Db.Recorded (db : Db) (transactionId : Id) : Prop :=
  ∃ row ∈ db.transactions.rows, row.transactionId = transactionId

instance (db : Db) (transactionId : Id) : Decidable (db.Recorded transactionId) :=
  inferInstanceAs (Decidable (∃ row ∈ db.transactions.rows, row.transactionId = transactionId))

/-- Every reference of a row to a row of another table resolves. -/
structure Resolves (db : Db) : Prop where
  event : ∀ row ∈ db.events.rows, db.Recorded row.transactionId
  enqueued : ∀ job ∈ db.jobs.rows, db.Recorded job.enqueueTransactionId
  updated : ∀ job ∈ db.jobs.rows, db.Recorded job.updatedTransactionId
  claimed : ∀ receipt ∈ db.claimReceipts.rows, db.Recorded receipt.transactionId
  job : ∀ receipt ∈ db.claimReceipts.rows, ∃ job ∈ db.jobs.rows, job.spec.jobId = receipt.jobId
  projection : ∀ entry ∈ db.projectionEntries.rows,
    ∃ row ∈ db.projectionMeta.rows, row.projection = entry.projection

namespace ReferenceLemmas

variable {db db' : Db}

theorem recorded_iff {transactionId : Id} :
    db.Recorded transactionId ↔ ∃ row, db.transaction transactionId = some row := by
  constructor
  · rintro ⟨row, hrow, rfl⟩
    exact ⟨row, transactions_unique_rows hrow⟩
  · rintro ⟨row, hrow⟩
    exact ⟨row, (Table.lookup_iff transactions_unique).mp hrow⟩

/-- A recorded transaction meets the foreign key of a child row. -/
theorem requireTransaction_recorded {transactionId : Id} (h : db.Recorded transactionId) :
    db.requireTransaction transactionId = some () := by
  obtain ⟨row, hrow⟩ := recorded_iff.mp h
  rw [Db.requireTransaction, hrow]
  rfl

theorem recorded_append {rows : List TransactionRow}
    (h : db'.transactions.rows = db.transactions.rows ++ rows) {transactionId : Id}
    (hrecorded : db.Recorded transactionId) : db'.Recorded transactionId := by
  obtain ⟨row, hrow, hid⟩ := hrecorded
  exact ⟨row, by rw [h]; exact List.mem_append_left _ hrow, hid⟩

/-- A statement that writes none of these tables but `transactions`, and only
adds to it. -/
theorem resolves_frame {rows : List TransactionRow}
    (htransactions : db'.transactions.rows = db.transactions.rows ++ rows)
    (hevents : db'.events = db.events) (hjobs : db'.jobs = db.jobs)
    (hreceipts : db'.claimReceipts = db.claimReceipts)
    (hmeta : db'.projectionMeta = db.projectionMeta)
    (hentries : db'.projectionEntries = db.projectionEntries) (h : Resolves db) :
    Resolves db' := by
  have hkept {tid : Id} : db.Recorded tid → db'.Recorded tid := recorded_append htransactions
  constructor
  · rw [hevents]; exact fun row hrow => hkept (h.event row hrow)
  · rw [hjobs]; exact fun job hjob => hkept (h.enqueued job hjob)
  · rw [hjobs]; exact fun job hjob => hkept (h.updated job hjob)
  · rw [hreceipts]; exact fun r hr => hkept (h.claimed r hr)
  · rw [hreceipts, hjobs]; exact h.job
  · rw [hentries, hmeta]; exact h.projection

/-! ## Jobs -/

/-- A step of an operation stamps the row with its transaction, or leaves the stamp. -/
theorem updated_of_step {batch : CommitBatch} {job : JobRow} {op : Operation} {u : JobUpdate}
    (h : JobStep batch job op u) :
    (u.set job).enqueueTransactionId = job.enqueueTransactionId ∧
      ((u.set job).updatedTransactionId = batch.transactionId ∨
        (u.set job).updatedTransactionId = job.updatedTransactionId) := by
  cases h <;> exact ⟨rfl, by first | exact .inl rfl | exact .inr rfl⟩

/-- The rows after an operation on a job, and what they refer to. -/
theorem rows_of_effect {batch : CommitBatch} {op : Operation} (h : JobEffect batch db db' op) :
    (∀ job ∈ db.jobs.rows, ∃ job' ∈ db'.jobs.rows, job'.spec.jobId = job.spec.jobId) ∧
    ∀ job' ∈ db'.jobs.rows,
      ((∃ spec, op = .enqueueJob spec) ∧ job'.enqueueTransactionId = batch.transactionId ∧
        job'.updatedTransactionId = batch.transactionId) ∨
      ∃ job ∈ db.jobs.rows, job'.enqueueTransactionId = job.enqueueTransactionId ∧
        (job'.updatedTransactionId = batch.transactionId ∨
          job'.updatedTransactionId = job.updatedTransactionId) := by
  cases h with
  | enqueued write =>
    rw [write.rows]
    refine ⟨fun job hjob => ⟨job, List.mem_append_left _ hjob, rfl⟩, fun job' hjob' => ?_⟩
    rcases List.mem_append.mp hjob' with hjob' | hjob'
    · exact .inr ⟨job', hjob', rfl, .inr rfl⟩
    · obtain rfl := List.mem_singleton.mp hjob'
      exact .inl ⟨⟨_, rfl⟩, rfl, rfl⟩
  | @updated _ job u found write about step =>
    refine ⟨fun row hrow => ⟨_, write.rows ▸ List.mem_map_of_mem hrow, ?_⟩, fun row' hrow' => ?_⟩
    · split
      · exact congrArg JobSpec.jobId (u.spec row)
      · rfl
    · rw [write.rows] at hrow'
      obtain ⟨row, hrow, rfl⟩ := List.mem_map.mp hrow'
      refine .inr ⟨row, hrow, ?_⟩
      split
      · next hid =>
        obtain rfl := eq_of_found found hrow hid
        exact updated_of_step step
      · exact ⟨rfl, .inr rfl⟩

theorem resolves_of_jobWrite {batch : CommitBatch} {op : Operation} (h : JobWrite batch op db db')
    (hrecorded : db.Recorded batch.transactionId) (hdb : Resolves db) : Resolves db' := by
  obtain ⟨hkept, hrows⟩ := rows_of_effect h.effect
  have hsame {tid : Id} : db.Recorded tid → db'.Recorded tid := by
    unfold Db.Recorded
    rw [h.transactions]
    exact id
  constructor
  · rw [h.events]
    exact fun row hrow => hsame (hdb.event row hrow)
  · intro job' hjob'
    rcases hrows job' hjob' with ⟨-, henqueued, -⟩ | ⟨job, hjob, henqueued, -⟩ <;> rw [henqueued]
    · exact hsame hrecorded
    · exact hsame (hdb.enqueued job hjob)
  · intro job' hjob'
    rcases hrows job' hjob' with ⟨-, -, hupdated⟩ | ⟨job, hjob, -, hupdated | hupdated⟩ <;>
      rw [hupdated]
    · exact hsame hrecorded
    · exact hsame hrecorded
    · exact hsame (hdb.updated job hjob)
  · intro receipt hreceipt
    rw [h.receipts] at hreceipt
    obtain ⟨old, hold, rfl⟩ := List.mem_map.mp hreceipt
    have hid : (op.onReceipt old).transactionId = old.transactionId :=
      congrArg Grant.transactionId (onReceipt_grant op old)
    rw [hid]
    exact hsame (hdb.claimed old hold)
  · intro receipt hreceipt
    rw [h.receipts] at hreceipt
    obtain ⟨old, hold, rfl⟩ := List.mem_map.mp hreceipt
    obtain ⟨job, hjob, hid⟩ := hdb.job old hold
    obtain ⟨job', hjob', hid'⟩ := hkept job hjob
    have hgrant : (op.onReceipt old).jobId = old.jobId :=
      congrArg Grant.jobId (onReceipt_grant op old)
    exact ⟨job', hjob', hid'.trans (hid.trans hgrant.symm)⟩
  · rw [h.projectionEntries, h.projectionMeta]
    exact hdb.projection

/-! ## Projections -/

/-- Every entry belongs to a projection with a version. -/
def Projected (db : Db) : Prop :=
  ∀ entry ∈ db.projectionEntries.rows,
    ∃ row ∈ db.projectionMeta.rows, row.projection = entry.projection

theorem requireProjection_some {projection : String}
    (h : db.requireProjection projection = some ()) :
    ∃ row ∈ db.projectionMeta.rows, row.projection = projection := by
  unfold Db.requireProjection at h
  cases hrow : db.projectionMeta.lookup ProjectionMetaRow.projection projection with
  | none => simp [hrow] at h
  | some row => exact ⟨row, Table.lookup_mem hrow, Table.lookup_key hrow⟩

theorem projected_of_insertEntry {projection : String} {entry : ProjectionEntry}
    (h : insertEntry projection db entry = .ok db') (hdb : Projected db) : Projected db' := by
  obtain ⟨⟨⟩, hrequire, h⟩ := bind_ok h
  obtain ⟨entries, hinsert, h⟩ := bind_ok h
  cases h
  intro row hrow
  rw [(Table.insert_eq_some (execute_ok.mp hinsert)).1] at hrow
  rcases List.mem_append.mp hrow with hrow | hrow
  · exact hdb row hrow
  · obtain rfl := List.mem_singleton.mp hrow
    exact requireProjection_some (execute_ok.mp hrequire)

/-- Entries are put for a projection that has a row, and the others only go. -/
theorem projected_of_mutation {projection : String} {mutation : ProjectionMutation}
    (h : applyMutation projection db mutation = .ok db') (hdb : Projected db) : Projected db' := by
  have hdelete (p : ProjectionEntryRow → Bool) :
      Projected { db with projectionEntries := db.projectionEntries.delete p } :=
    fun row hrow => hdb row (Table.mem_delete.mp hrow).1
  cases mutation with
  | put key value =>
    obtain ⟨⟨⟩, hrequire, h⟩ := bind_ok h
    cases h
    intro row hrow
    rcases Table.mem_upsert (f := fun row : ProjectionEntryRow => { row with value := value })
      (fun _ => rfl) hrow with hkey | hrow
    · obtain ⟨rfl, -⟩ := Prod.mk.inj hkey
      exact requireProjection_some (execute_ok.mp hrequire)
    · exact hdb row hrow
  | delete key => cases h; exact hdelete _
  | clear => cases h; exact hdelete _
  | replace entries =>
    exact foldlM_induction (P := Projected) (fun _ _ _ _ hs hstep =>
      projected_of_insertEntry hstep hs) h (hdelete _)

theorem projected_of_patch {patch : ProjectionPatch} (h : applyProjectionPatch db patch = .ok db')
    (hdb : Projected db) : Projected db' := by
  obtain ⟨_, -, h⟩ := bind_ok h
  split at h
  · cases h
  · refine foldlM_induction (P := Projected) (fun _ _ _ _ hs hstep =>
      projected_of_mutation hstep hs) h fun entry hentry => ?_
    obtain ⟨row, hrow, hprojection⟩ := hdb entry hentry
    obtain ⟨row', hrow', hkey⟩ := Table.mem_upsert_of_mem (r := ⟨patch.projection, _⟩)
      (f := fun row : ProjectionMetaRow => { row with version := patch.newVersion.toInt64 })
      (fun _ => rfl) hrow
    exact ⟨row', hrow', hkey.trans hprojection⟩

/-! ## Operations -/

/-- An operation of an open batch, whose own transaction is on record, keeps
every reference. -/
theorem resolves_of_operation {batch : CommitBatch} {tx tx' : OpenBatch} {op : Operation}
    (h : applyOperation batch tx op = .ok tx') (hrecorded : tx.db.Recorded batch.transactionId)
    (hdb : Resolves tx.db) : Resolves tx'.db := by
  cases hid : op.jobId with
  | some jobId => exact resolves_of_jobWrite (applyOperation_job hid h).2 hrecorded hdb
  | none =>
    cases op with
    | appendEvent event =>
      obtain ⟨next, globalSequence, events, -, -, hrows, rfl⟩ := appendEvent_ok h
      refine ⟨fun row hrow => ?_, hdb.enqueued, hdb.updated, hdb.claimed, hdb.job, hdb.projection⟩
      rw [hrows] at hrow
      rcases List.mem_append.mp hrow with hrow | hrow
      · exact hdb.event row hrow
      · obtain rfl := List.mem_singleton.mp hrow
        exact hrecorded
    | projectionPatch patch =>
      have hpatch := (run_ok h).1
      have hprojected := projected_of_patch hpatch hdb.projection
      obtain ⟨-, -, entries, hdb'⟩ := applyProjectionPatch_ok hpatch
      rw [hdb'] at hprojected ⊢
      exact ⟨hdb.event, hdb.enqueued, hdb.updated, hdb.claimed, hdb.job, hprojected⟩
    | _ => cases hid

end ReferenceLemmas

open ReferenceLemmas

/-- The open transaction of a batch: its own row is there, and nothing dangles. -/
theorem resolves_of_open {db : Db} {batch : CommitBatch} {tx : OpenBatch} {receipt : CommitReceipt}
    (h : openBatch db batch = .ok (tx, receipt)) (hdb : Resolves db) :
    tx.db.Recorded batch.transactionId ∧ Resolves tx.db := by
  obtain ⟨transactions, sequence, -, htx, -, hrows, -⟩ := openBatch_ok h
  rw [htx]
  exact ⟨⟨batch.row sequence, by simp [hrows], rfl⟩, resolves_frame hrows rfl rfl rfl rfl rfl hdb⟩

/-- The operations of a batch keep the references, once its transaction is on record. -/
theorem resolves_of_operations {batch : CommitBatch} {ops : List Operation} {tx tx' : OpenBatch}
    (h : ops.foldlM (applyOperation batch) tx = .ok tx')
    (hdb : tx.db.Recorded batch.transactionId ∧ Resolves tx.db) :
    tx'.db.Recorded batch.transactionId ∧ Resolves tx'.db := by
  refine foldlM_induction (P := fun t : OpenBatch => t.db.Recorded batch.transactionId ∧
    Resolves t.db) (fun s t op _ hs hstep => ⟨?_, resolves_of_operation hstep hs.1 hs.2⟩) h hdb
  unfold Db.Recorded
  rw [applyOperation_transactions hstep]
  exact hs.1

/-- A claim stamps the jobs that it writes with its own transaction. -/
theorem resolves_of_claim {db : Db} {request : ClaimRequest} {entropy : Entropy}
    {staged : StagedClaim} {leases : List ProposedLease} {expiryMs : Int64}
    (h : ClaimWrite db request entropy staged leases expiryMs) (hdb : Resolves db) :
    Resolves staged.db := by
  obtain ⟨operationCount, sequence, -, hrows⟩ := h.transactions
  have hnew : staged.db.Recorded staged.transactionId :=
    ⟨claimRow staged.transactionId request operationCount sequence, by simp [hrows], rfl⟩
  have hkept {tid : Id} : db.Recorded tid → staged.db.Recorded tid := recorded_append hrows
  have hjobs : ∀ job' ∈ staged.db.jobs.rows, ∃ job ∈ db.jobs.rows,
      job'.enqueueTransactionId = job.enqueueTransactionId ∧
      (job'.updatedTransactionId = staged.transactionId ∨
        job'.updatedTransactionId = job.updatedTransactionId) := by
    intro job' hjob'
    have hchange := h.change job'.spec.jobId
    rw [job_of_mem hjob'] at hchange
    generalize hbefore : db.job job'.spec.jobId = before at hchange
    cases hchange with
    | same => exact ⟨job', (job_eq_some.mp hbefore).1, rfl, .inr rfl⟩
    | @repaired job =>
      refine ⟨job, (job_eq_some.mp hbefore).1, ?_⟩
      unfold JobRow.repair
      split <;> exact ⟨rfl, .inl rfl⟩
    | @leased lease => exact ⟨lease.job, (job_eq_some.mp hbefore).1, rfl, .inl rfl⟩
  have hids : ∀ job ∈ db.jobs.rows, ∃ job' ∈ staged.db.jobs.rows,
      job'.spec.jobId = job.spec.jobId := by
    intro job hjob
    have hchange := h.change job.spec.jobId
    rw [job_of_mem hjob] at hchange
    generalize hafter : staged.db.job job.spec.jobId = after at hchange
    cases hchange with
    | same => exact ⟨_, job_eq_some.mp hafter⟩
    | repaired => exact ⟨_, job_eq_some.mp hafter⟩
    | leased => exact ⟨_, job_eq_some.mp hafter⟩
  constructor
  · rw [h.events]
    exact fun row hrow => hkept (hdb.event row hrow)
  · intro job' hjob'
    obtain ⟨job, hjob, henqueued, -⟩ := hjobs job' hjob'
    rw [henqueued]
    exact hkept (hdb.enqueued job hjob)
  · intro job' hjob'
    obtain ⟨job, hjob, -, hupdated | hupdated⟩ := hjobs job' hjob' <;> rw [hupdated]
    · exact hnew
    · exact hkept (hdb.updated job hjob)
  · intro receipt hreceipt
    rw [h.receipts] at hreceipt
    rcases List.mem_append.mp hreceipt with hreceipt | hreceipt
    · exact hkept (hdb.claimed receipt hreceipt)
    · obtain ⟨lease, -, rfl⟩ := List.mem_map.mp hreceipt
      exact hnew
  · intro receipt hreceipt
    rw [h.receipts] at hreceipt
    rcases List.mem_append.mp hreceipt with hreceipt | hreceipt
    · obtain ⟨job, hjob, hid⟩ := hdb.job receipt hreceipt
      obtain ⟨job', hjob', hid'⟩ := hids job hjob
      exact ⟨job', hjob', hid'.trans hid⟩
    · obtain ⟨lease, hlease, rfl⟩ := List.mem_map.mp hreceipt
      exact hids _ (job_eq_some.mp (h.stored lease hlease)).1
  · rw [h.projectionEntries, h.projectionMeta]
    exact hdb.projection

theorem CallEffect.resolves {db db' : Db} {call : Call} {entries : List Entry}
    (h : CallEffect db call db' entries) (hdb : Resolves db) : Resolves db' := by
  cases h with
  | unchanged => exact hdb
  | commit persists staged =>
    obtain ⟨tx, tx', hopen, hops, rfl⟩ := stageBatch_ok (stageCommit_staged staged).2.2
    obtain ⟨streams, hstreams⟩ := writeStreamVersions_streams tx'
    obtain ⟨-, h⟩ := resolves_of_operations hops (resolves_of_open hopen hdb)
    rw [hstreams]
    exact ⟨h.event, h.enqueued, h.updated, h.claimed, h.job, h.projection⟩
  | claim persists staging =>
    obtain ⟨_, _, hwrite⟩ := stageClaim_write staging
    exact resolves_of_claim hwrite hdb
  | extend persists staged =>
    -- An extension stamps nothing, so any batch will do that is on record.
    obtain ⟨job, _, _, _, hjob, -⟩ := applyExtendLease_ok staged
    have hwrite : JobWrite ⟨job.updatedTransactionId, _, none, [], [], []⟩ _ db _ :=
      applyExtendLease_write staged
    exact resolves_of_jobWrite hwrite (hdb.updated job (job_eq_some.mp hjob).1) hdb

theorem resolves_after (calls : List Call) : Resolves (controlPlane.after calls).db :=
  controlPlane.after_induction (P := fun _ store => Resolves store.db)
    (by constructor <;> simp [ControlPlaneStore.start, controlPlane, Db.empty, Table.empty])
    (fun _ call ih => (next_effect _ call).resolves ih) calls

end Minisqlite
