import Minisqlite.Store.ControlPlane

/-!
# What an operation does to a job

The operations of a batch unfold here, and only here. `JobStep` lists
everything that an operation can do to the row of its job, guards included;
`JobEffect` adds `EnqueueJob` and says what happens to the table, and
`applyOperation_job` is the inversion: an operation that succeeds had one of
these effects and touched no other table than those in `JobsOnly`.
-/

namespace Minisqlite

open Tables Runs

/-! ## Row steps -/

/-- One SET clause after another. -/
def JobUpdate.comp (u v : JobUpdate) : JobUpdate where
  set job := v.set (u.set job)
  spec job := (v.spec _).trans (u.spec job)
  enqueueSequence job := (v.enqueueSequence _).trans (u.enqueueSequence job)

/-- The rows that hold a lease, or had one that expired unreconciled. -/
def JobRow.resolvable (job : JobRow) : Prop := job.state = .leased ∨ job.state = .uncertain

theorem active_of_resolvable {job : JobRow} (h : job.resolvable) :
    job.state.isTerminal = false := by
  rcases h with hs | hs <;> rw [hs] <;> rfl

/-- What an operation of `batch` does to the row of its job. -/
inductive JobStep (batch : CommitBatch) (job : JobRow) : Operation → JobUpdate → Prop
  | ack {ack : JobAck} (leased : job.state = .leased)
      (token : job.leaseToken = some ack.leaseToken) :
      JobStep batch job (.ackJob ack)
        (.terminal .succeeded batch.committedAtMs batch.transactionId ack.resultDigest none)
  | failDead {failure : JobFailure} (leased : job.state = .leased)
      (token : job.leaseToken = some failure.leaseToken) (exhausted : job.exhausted = true) :
      JobStep batch job (.failJob failure)
        (.terminal .dead batch.committedAtMs batch.transactionId none (some failure.errorSummary))
  | failRetry {failure : JobFailure} {retryAfterMs : Int64} (leased : job.state = .leased)
      (token : job.leaseToken = some failure.leaseToken) (left : job.exhausted = false)
      (retry : retryAfter batch.committedAtMs failure.retryAfterMs = .ok retryAfterMs) :
      JobStep batch job (.failJob failure)
        ((JobUpdate.nonterminal .retryWait (some retryAfterMs) batch.transactionId).comp
          (.summary failure.errorSummary))
  | cancelPending {jobId : Id} (pending : job.state = .pending) :
      JobStep batch job (.cancelJob ⟨jobId, none⟩)
        (.terminal .cancelled batch.committedAtMs batch.transactionId none none)
  | cancelLeased {jobId leaseToken : Id} (leased : job.state = .leased)
      (token : job.leaseToken = some leaseToken) :
      JobStep batch job (.cancelJob ⟨jobId, some leaseToken⟩)
        (.terminal .cancelled batch.committedAtMs batch.transactionId none none)
  | resolveRetry {jobId : Id} (resolvable : job.resolvable) (left : job.exhausted = false) :
      JobStep batch job (.resolveJob ⟨jobId, .retry⟩)
        (.nonterminal .pending none batch.transactionId)
  | resolveTerminal {jobId : Id} {resolution : Resolution} {state : JobState}
      {summary : Option String} (resolvable : job.resolvable) (terminal : state.isTerminal = true)
      (allowed : job.state.canTransitionTo state = true) :
      JobStep batch job (.resolveJob ⟨jobId, resolution⟩)
        (.terminal state batch.committedAtMs batch.transactionId none summary)
  | extend {extension : LeaseExtension} {expiry : Int64} (leased : job.state = .leased)
      (token : job.leaseToken = some extension.leaseToken)
      (current : job.leaseExpiresAtMs = some expiry)
      (unexpired : batch.committedAtMs ≤ expiry) (later : expiry < extension.newExpiryMs) :
      JobStep batch job (.extendLease extension) (.expiry extension.newExpiryMs)

/-- What an operation does to a claim receipt. -/
def Operation.onReceipt (op : Operation) (receipt : ClaimReceiptRow) : ClaimReceiptRow :=
  match op with
  | .extendLease extension =>
    if receipt.jobId = extension.jobId ∧ receipt.leaseToken = extension.leaseToken then
      { receipt with leaseExpiresAtMs := extension.newExpiryMs }
    else receipt
  | _ => receipt

/-- Only the tables of the jobs and their receipts differ. -/
structure JobsOnly (db db' : Db) : Prop where
  transactions : db'.transactions = db.transactions
  events : db'.events = db.events
  streams : db'.streams = db.streams
  projectionMeta : db'.projectionMeta = db.projectionMeta
  projectionEntries : db'.projectionEntries = db.projectionEntries
  queueCursors : db'.queueCursors = db.queueCursors

/-- One `UPDATE` of a stored job row. A row that becomes terminal drains its
partition when it was the last one there. -/
structure RowWrite (db db' : Db) (job : JobRow) (u : JobUpdate) : Prop where
  rows : db'.jobs.rows =
    db.jobs.rows.map fun row => if row.spec.jobId = job.spec.jobId then u.set row else row
  index : db'.activePartitions =
    if (u.set job).state.isTerminal then
      (drainPartitionIfEmpty { db with jobs := db'.jobs } job.spec.queue
        job.spec.partitionKey).activePartitions
    else db.activePartitions

/-- A row is written, with the index of its partition, and no other table. -/
def RowOnly (db db' : Db) (job : JobRow) (u : JobUpdate) : Prop :=
  RowWrite db db' job u ∧ ∃ jobs parts, db' = { db with jobs := jobs, activePartitions := parts }

/-- The `INSERT` of a new job row, and of its partition. -/
structure RowInsert (db db' : Db) (spec : JobSpec) (sequence : Int64) (transactionId : Id) :
    Prop where
  free : db.job spec.jobId = none
  next : nextSequence (db.jobs.rows.map JobRow.enqueueSequence) = some sequence
  rows : db'.jobs.rows = db.jobs.rows ++ [spec.row sequence transactionId]
  index : db'.activePartitions =
    db.activePartitions.insertOrIgnore ⟨spec.queue, spec.partitionKey, sequence⟩

/-- The new job is the last one in its table. -/
theorem RowInsert.last {db db' : Db} {spec : JobSpec} {sequence : Int64} {transactionId : Id}
    (h : RowInsert db db' spec sequence transactionId) :
    ∀ job ∈ db.jobs.rows, job.enqueueSequence < sequence :=
  fun _ hjob => lt_nextSequence h.next _ (List.mem_map_of_mem hjob)

/-- What an operation does to the jobs table and the partition index. -/
inductive JobEffect (batch : CommitBatch) (db db' : Db) : Operation → Prop
  | enqueued {spec : JobSpec} {sequence : Int64}
      (write : RowInsert db db' spec sequence batch.transactionId) :
      JobEffect batch db db' (.enqueueJob spec)
  | updated {op : Operation} {job : JobRow} {u : JobUpdate}
      (found : db.job job.spec.jobId = some job) (write : RowWrite db db' job u)
      (about : op.jobId = some job.spec.jobId) (step : JobStep batch job op u) :
      JobEffect batch db db' op

/-- Everything that an operation on a job does to the database. -/
structure JobWrite (batch : CommitBatch) (op : Operation) (db db' : Db) : Prop
    extends JobsOnly db db' where
  receipts : db'.claimReceipts.rows = db.claimReceipts.rows.map op.onReceipt
  effect : JobEffect batch db db' op

/-! ## Rows of the jobs table -/

/-- The table holds one row for each job id. -/
theorem job_eq_some {db : Db} {jobId : Id} {job : JobRow} :
    db.job jobId = some job ↔ job ∈ db.jobs.rows ∧ job.spec.jobId = jobId :=
  Table.lookup_iff jobs_unique

theorem job_of_mem {db : Db} {job : JobRow} (h : job ∈ db.jobs.rows) :
    db.job job.spec.jobId = some job :=
  Table.lookup_of_mem jobs_unique h

theorem job_id {db : Db} {jobId : Id} {job : JobRow} (h : db.job jobId = some job) :
    job.spec.jobId = jobId :=
  (job_eq_some.mp h).2

theorem eq_of_found {db : Db} {jobId : Id} {job row : JobRow} (found : db.job jobId = some job)
    (hrow : row ∈ db.jobs.rows) (hid : row.spec.jobId = jobId) : row = job := by
  subst hid
  exact Option.some.inj ((job_of_mem hrow).symm.trans found)

/-- The lease columns of a stored row, by its CHECKs. -/
theorem job_lease {db : Db} {jobId : Id} {job : JobRow} (h : db.job jobId = some job) :
    if job.state = .leased then
      job.leaseToken.isSome ∧ job.workerId.isSome ∧ job.leaseExpiresAtMs.isSome
    else job.leaseToken = none ∧ job.workerId = none ∧ job.leaseExpiresAtMs = none := by
  have hc : job.check = true := db.jobs.checked job (job_eq_some.mp h).1
  simp only [JobRow.check, Bool.and_eq_true, Bool.or_eq_true, decide_eq_true_eq] at hc
  obtain ⟨⟨⟨⟨-, hset⟩, hnull⟩, -⟩, -⟩ := hc
  split
  · next hl => simpa [hl, and_assoc] using hset
  · next hl => simpa [hl, and_assoc] using hnull

/-- Only a leased job has a lease token. -/
theorem leased_of_token {db : Db} {jobId token : Id} {job : JobRow} (h : db.job jobId = some job)
    (ht : job.leaseToken = some token) : job.state = .leased := by
  by_contra hl
  have := job_lease h
  rw [if_neg hl] at this
  simp [this.1] at ht

/-- A leased job has an expiry. -/
theorem expiry_of_leased {db : Db} {jobId : Id} {job : JobRow} (h : db.job jobId = some job)
    (hl : job.state = .leased) : ∃ expiry, job.leaseExpiresAtMs = some expiry := by
  have := job_lease h
  rw [if_pos hl] at this
  exact Option.isSome_iff_exists.mp this.2.2

/-! ## Inversion of the operations -/

namespace EffectLemmas

theorem updateJob_ok {ε : Type} [FromStorage ε] {db db' : Db} {jobId : Id} {u : JobUpdate}
    (h : (updateJob db jobId u : Except ε Db) = .ok db') :
    ∃ jobs, db' = { db with jobs := jobs } ∧ jobs.rows =
      db.jobs.rows.map fun row => if row.spec.jobId = jobId then u.set row else row := by
  obtain ⟨jobs, hjobs, h⟩ := bind_ok h
  cases h
  exact ⟨jobs, rfl, by simpa using Table.update_eq_some (execute_ok.mp hjobs)⟩

theorem setTerminal_ok {db db' : Db} {job : JobRow} {state : JobState} {now : Int64} {tid : Id}
    {digest : Option Bytes} {summary : Option String} (terminal : state.isTerminal = true)
    (h : setTerminal db job state now tid digest summary = .ok db') :
    RowOnly db db' job (.terminal state now tid digest summary) := by
  obtain ⟨db₁, hupdate, h⟩ := bind_ok h
  obtain ⟨jobs, rfl, hrows⟩ := updateJob_ok hupdate
  cases h
  exact ⟨⟨hrows, (if_pos terminal).symm⟩, jobs, _, rfl⟩

theorem setNonterminal_ok {db db' : Db} {job : JobRow} {state : JobState}
    {retryAfterMs : Option Int64} {tid : Id} (active : state.isTerminal = false)
    (h : setNonterminal db job.spec.jobId state retryAfterMs tid = .ok db') :
    RowOnly db db' job (.nonterminal state retryAfterMs tid) := by
  obtain ⟨jobs, rfl, hrows⟩ := updateJob_ok h
  exact ⟨⟨hrows, (if_neg (by simp [JobUpdate.nonterminal, active])).symm⟩, jobs, _, rfl⟩

theorem requireJob_ok {db : Db} {jobId : Id} {job : JobRow} :
    requireJob db jobId = .ok job ↔ db.job jobId = some job := by
  unfold requireJob
  cases db.job jobId <;> simp [invalid]

theorem ensureTransition_ok {job : JobRow} {target : JobState} {x : Unit} :
    ensureTransition job target = .ok x ↔ job.state.canTransitionTo target = true := by
  unfold ensureTransition
  split <;> simp [*]

theorem ensureLeaseToken_ok {job : JobRow} {token : Id} {x : Unit} :
    ensureLeaseToken job token = .ok x ↔ job.leaseToken = some token := by
  unfold ensureLeaseToken
  split <;> simp [*, invalid]

theorem applyEnqueue_ok {db db' : Db} {tid : Id} {spec : JobSpec}
    (h : applyEnqueue db tid spec = .ok db') :
    ∃ sequence jobs parts, db' = { db with jobs := jobs, activePartitions := parts } ∧
      RowInsert db db' spec sequence tid := by
  unfold applyEnqueue at h
  split at h
  · cases h
  · next hfree =>
    obtain ⟨sequence, hseq, h⟩ := bind_ok h
    obtain ⟨_, -, h⟩ := bind_ok h
    obtain ⟨jobs, hjobs, h⟩ := bind_ok h
    cases h
    exact ⟨sequence, jobs, _, rfl, hfree, execute_ok.mp hseq,
      (Table.insert_eq_some (execute_ok.mp hjobs)).1, rfl⟩

theorem applyAck_ok {db db' : Db} {tid : Id} {now : Int64} {ack : JobAck}
    (h : applyAck db tid now ack = .ok db') :
    ∃ job, db.job ack.jobId = some job ∧ job.state = .leased ∧
      job.leaseToken = some ack.leaseToken ∧
      setTerminal db job .succeeded now tid ack.resultDigest none = .ok db' := by
  obtain ⟨job, hjob, h⟩ := bind_ok h
  obtain ⟨_, -, h⟩ := bind_ok h
  obtain ⟨_, htoken, h⟩ := bind_ok h
  have hjob := requireJob_ok.mp hjob
  have htoken := ensureLeaseToken_ok.mp htoken
  exact ⟨job, hjob, leased_of_token hjob htoken, htoken, h⟩

theorem applyFail_ok {db db' : Db} {tid : Id} {now : Int64} {failure : JobFailure}
    (h : applyFail db tid now failure = .ok db') :
    ∃ job, db.job failure.jobId = some job ∧ job.state = .leased ∧
      job.leaseToken = some failure.leaseToken ∧
      if job.exhausted then
        setTerminal db job .dead now tid none (some failure.errorSummary) = .ok db'
      else ∃ retryAfterMs db₁, retryAfter now failure.retryAfterMs = .ok retryAfterMs ∧
        setNonterminal db job.spec.jobId .retryWait (some retryAfterMs) tid = .ok db₁ ∧
        updateJob (ε := Error) db₁ job.spec.jobId (.summary failure.errorSummary) = .ok db' := by
  obtain ⟨job, hjob, h⟩ := bind_ok h
  obtain ⟨_, -, h⟩ := bind_ok h
  obtain ⟨_, htoken, h⟩ := bind_ok h
  have hjob := requireJob_ok.mp hjob
  have htoken := ensureLeaseToken_ok.mp htoken
  refine ⟨job, hjob, leased_of_token hjob htoken, htoken, ?_⟩
  split at h
  · next hex => rw [if_pos hex]; exact h
  · next hex =>
    rw [if_neg hex]
    obtain ⟨retryAfterMs, hretry, h⟩ := bind_ok h
    obtain ⟨db₁, hset, h⟩ := bind_ok h
    exact ⟨retryAfterMs, db₁, hretry, hset, h⟩

theorem applyCancel_ok {db db' : Db} {tid : Id} {now : Int64} {cancellation : JobCancellation}
    (h : applyCancel db tid now cancellation = .ok db') :
    ∃ job, db.job cancellation.jobId = some job ∧
      (match cancellation.leaseToken with
      | none => job.state = .pending
      | some token => job.state = .leased ∧ job.leaseToken = some token) ∧
      setTerminal db job .cancelled now tid none none = .ok db' := by
  obtain ⟨job, hjob, h⟩ := bind_ok h
  obtain ⟨_, -, h⟩ := bind_ok h
  obtain ⟨_, hguard, h⟩ := bind_ok h
  have hjob := requireJob_ok.mp hjob
  refine ⟨job, hjob, ?_, h⟩
  cases htoken : cancellation.leaseToken with
  | none =>
    rw [htoken] at hguard
    by_contra hstate
    simp [ensureCancellable, hstate, invalid] at hguard
  | some token =>
    rw [htoken] at hguard
    have := ensureLeaseToken_ok.mp hguard
    exact ⟨leased_of_token hjob this, this⟩

/-- The states that the table lets a resolution leave. -/
theorem resolvable_of_transition {job : JobRow} {target : JobState}
    (ht : target = .pending ∨ target = .succeeded ∨ target = .dead)
    (h : job.state.canTransitionTo target = true) : job.resolvable := by
  rcases ht with rfl | rfl | rfl <;> cases hs : job.state <;>
    simp_all [JobState.canTransitionTo, JobRow.resolvable]

theorem applyResolve_ok {db db' : Db} {tid : Id} {now : Int64} {resolution : JobResolution}
    (h : applyResolve db tid now resolution = .ok db') :
    ∃ job, db.job resolution.jobId = some job ∧ job.resolvable ∧
      ((resolution.resolution = .retry ∧ job.exhausted = false ∧
        setNonterminal db job.spec.jobId .pending none tid = .ok db') ∨
      ∃ state summary, state.isTerminal = true ∧ job.state.canTransitionTo state = true ∧
        setTerminal db job state now tid none summary = .ok db') := by
  obtain ⟨job, hjob, h⟩ := bind_ok h
  refine ⟨job, requireJob_ok.mp hjob, ?_⟩
  split at h
  · next hretry =>
    split at h
    · obtain ⟨_, ht, h⟩ := bind_ok h
      have ht := ensureTransition_ok.mp ht
      exact ⟨resolvable_of_transition (.inr (.inr rfl)) ht, .inr ⟨.dead, _, rfl, ht, h⟩⟩
    · next hex =>
      obtain ⟨_, ht, h⟩ := bind_ok h
      exact ⟨resolvable_of_transition (.inl rfl) (ensureTransition_ok.mp ht),
        .inl ⟨hretry, by simpa using hex, h⟩⟩
  · obtain ⟨_, ht, h⟩ := bind_ok h
    have ht := ensureTransition_ok.mp ht
    exact ⟨resolvable_of_transition (.inr (.inl rfl)) ht, .inr ⟨.succeeded, _, rfl, ht, h⟩⟩
  · obtain ⟨_, ht, h⟩ := bind_ok h
    have ht := ensureTransition_ok.mp ht
    exact ⟨resolvable_of_transition (.inr (.inr rfl)) ht, .inr ⟨.dead, _, rfl, ht, h⟩⟩

theorem applyExtendLease_ok {db db' : Db} {extension : LeaseExtension} {now : Int64}
    {receipt : LeaseExtensionReceipt} (h : applyExtendLease db extension now = .ok (db', receipt)) :
    ∃ job expiry jobs receipts, db.job extension.jobId = some job ∧ job.state = .leased ∧
      job.leaseToken = some extension.leaseToken ∧ job.leaseExpiresAtMs = some expiry ∧
      now ≤ expiry ∧ expiry < extension.newExpiryMs ∧
      db' = { db with jobs := jobs, claimReceipts := receipts } ∧
      jobs.rows = (db.jobs.rows.map fun row => if row.spec.jobId = extension.jobId then
        (JobUpdate.expiry extension.newExpiryMs).set row else row) ∧
      receipts.rows = db.claimReceipts.rows.map (Operation.extendLease extension).onReceipt := by
  unfold applyExtendLease at h
  simp only at h
  split at h
  · cases h
  · next job hjob =>
    split at h
    · cases h
    · next hleased =>
      have hleased := not_not.mp hleased
      obtain ⟨expiry, hexpiry⟩ := expiry_of_leased hjob hleased
      rw [hexpiry, Option.getD_some] at h
      split at h
      · cases h
      · next htoken =>
        split at h
        · cases h
        · next hnow =>
          split at h
          · cases h
          · next hlater =>
            obtain ⟨db₁, hupdate, h⟩ := bind_ok h
            obtain ⟨jobs, rfl, hrows⟩ := updateJob_ok hupdate
            obtain ⟨receipts, hreceipts, h⟩ := bind_ok h
            cases h
            refine ⟨job, expiry, jobs, receipts, hjob, hleased, not_not.mp htoken, hexpiry,
              Int64.not_lt.mp hnow, Int64.not_le.mp hlater, rfl, hrows, ?_⟩
            rw [Table.update_eq_some (execute_ok.mp hreceipts)]
            exact List.map_congr_left fun r _ => by simp [Operation.onReceipt]

theorem run_ok {tx tx' : OpenBatch} {result : Except Error Db} (h : tx.run result = .ok tx') :
    result = .ok tx'.db ∧ tx'.streamVersions = tx.streamVersions := by
  obtain ⟨db, hdb, h⟩ := bind_ok h
  cases h
  exact ⟨mapError_eq_ok.mp hdb, rfl⟩

theorem onReceipt_id {op : Operation} (h : ∀ extension, op ≠ .extendLease extension) :
    op.onReceipt = id := by
  cases op <;> first | rfl | exact absurd rfl (h _)

/-- A row step that is written to the jobs and the partition index. -/
theorem jobWrite_of_step {batch : CommitBatch} {op : Operation} {db db' : Db} {job : JobRow}
    {u : JobUpdate} {jobId : Id} (found : db.job jobId = some job) (about : op.jobId = some jobId)
    (no_receipt : ∀ extension, op ≠ .extendLease extension) (step : JobStep batch job op u)
    (h : RowOnly db db' job u) : JobWrite batch op db db' := by
  obtain ⟨hwrite, jobs, parts, rfl⟩ := h
  obtain rfl := job_id found
  exact ⟨⟨rfl, rfl, rfl, rfl, rfl, rfl⟩, by simp [onReceipt_id no_receipt],
    .updated found hwrite about step⟩

theorem applyFail_write {batch : CommitBatch} {db db' : Db} {failure : JobFailure}
    (h : applyFail db batch.transactionId batch.committedAtMs failure = .ok db') :
    JobWrite batch (.failJob failure) db db' := by
  obtain ⟨job, hjob, hleased, htoken, h⟩ := applyFail_ok h
  split at h
  · next hex =>
    exact jobWrite_of_step hjob rfl nofun (.failDead hleased htoken hex) (setTerminal_ok rfl h)
  · next hex =>
    obtain ⟨retryAfterMs, db₁, hretry, hset, hsummary⟩ := h
    obtain ⟨jobs₁, rfl, hrows₁⟩ := updateJob_ok hset
    obtain ⟨jobs₂, rfl, hrows₂⟩ := updateJob_ok hsummary
    refine jobWrite_of_step hjob rfl nofun
      (@JobStep.failRetry batch job failure retryAfterMs hleased htoken (by simpa using hex) hretry)
      ⟨⟨?_, rfl⟩, jobs₂, _, rfl⟩
    show jobs₂.rows = _
    rw [hrows₂, hrows₁, List.map_map]
    refine List.map_congr_left fun row _ => ?_
    by_cases hrow : row.spec.jobId = job.spec.jobId <;>
      simp [hrow, JobUpdate.comp, JobUpdate.spec]

theorem applyCancel_write {batch : CommitBatch} {db db' : Db} {cancellation : JobCancellation}
    (h : applyCancel db batch.transactionId batch.committedAtMs cancellation = .ok db') :
    JobWrite batch (.cancelJob cancellation) db db' := by
  obtain ⟨jobId, token⟩ := cancellation
  obtain ⟨job, hjob, hguard, hset⟩ := applyCancel_ok h
  have hwrite := setTerminal_ok rfl hset
  cases token with
  | none => exact jobWrite_of_step hjob rfl nofun (.cancelPending hguard) hwrite
  | some token => exact jobWrite_of_step hjob rfl nofun (.cancelLeased hguard.1 hguard.2) hwrite

theorem applyResolve_write {batch : CommitBatch} {db db' : Db} {resolution : JobResolution}
    (h : applyResolve db batch.transactionId batch.committedAtMs resolution = .ok db') :
    JobWrite batch (.resolveJob resolution) db db' := by
  obtain ⟨jobId, resolution⟩ := resolution
  obtain ⟨job, hjob, hstate, ⟨hretry, hex, hset⟩ | ⟨state, summary, hterminal, hallowed, hset⟩⟩ :=
    applyResolve_ok h
  · obtain rfl : resolution = .retry := hretry
    exact jobWrite_of_step hjob rfl nofun (.resolveRetry hstate hex) (setNonterminal_ok rfl hset)
  · exact jobWrite_of_step hjob rfl nofun (.resolveTerminal hstate hterminal hallowed)
      (setTerminal_ok hterminal hset)

theorem applyExtendLease_write {batch : CommitBatch} {db db' : Db} {extension : LeaseExtension}
    {receipt : LeaseExtensionReceipt}
    (h : applyExtendLease db extension batch.committedAtMs = .ok (db', receipt)) :
    JobWrite batch (.extendLease extension) db db' := by
  obtain ⟨job, expiry, jobs, receipts, hjob, hleased, htoken, hexpiry, hnow, hlater, rfl, hrows,
    hreceipts⟩ := applyExtendLease_ok h
  have hid : extension.jobId = job.spec.jobId := (job_id hjob).symm
  rw [hid] at hjob hrows
  have hactive : ((JobUpdate.expiry extension.newExpiryMs).set job).state.isTerminal = false := by
    simp [JobUpdate.expiry, hleased, JobState.isTerminal]
  exact ⟨⟨rfl, rfl, rfl, rfl, rfl, rfl⟩, hreceipts,
    .updated hjob ⟨hrows, by rw [hactive]; rfl⟩ (congrArg some hid)
      (.extend hleased htoken hexpiry hnow hlater)⟩

end EffectLemmas

open EffectLemmas

/-- An operation on a job had one of the effects of `JobEffect`. -/
theorem applyOperation_job {batch : CommitBatch} {tx tx' : OpenBatch} {op : Operation} {jobId : Id}
    (hid : op.jobId = some jobId) (h : applyOperation batch tx op = .ok tx') :
    tx'.streamVersions = tx.streamVersions ∧ JobWrite batch op tx.db tx'.db := by
  cases op with
  | appendEvent event => cases hid
  | projectionPatch patch => cases hid
  | enqueueJob spec =>
    obtain ⟨h, hv⟩ := run_ok h
    obtain ⟨sequence, jobs, parts, hdb, hinsert⟩ := applyEnqueue_ok h
    rw [hdb] at hinsert ⊢
    exact ⟨hv, ⟨rfl, rfl, rfl, rfl, rfl, rfl⟩, by simp [onReceipt_id], .enqueued hinsert⟩
  | ackJob ack =>
    obtain ⟨h, hv⟩ := run_ok h
    obtain ⟨job, hjob, hleased, htoken, h⟩ := applyAck_ok h
    exact ⟨hv, jobWrite_of_step hjob rfl nofun (.ack hleased htoken) (setTerminal_ok rfl h)⟩
  | failJob failure =>
    obtain ⟨h, hv⟩ := run_ok h
    exact ⟨hv, applyFail_write h⟩
  | cancelJob cancellation =>
    obtain ⟨h, hv⟩ := run_ok h
    exact ⟨hv, applyCancel_write h⟩
  | resolveJob resolution =>
    obtain ⟨h, hv⟩ := run_ok h
    exact ⟨hv, applyResolve_write h⟩
  | extendLease extension =>
    obtain ⟨⟨db, receipt⟩, hdb, h⟩ := bind_ok h
    cases h
    exact ⟨rfl, applyExtendLease_write (mapError_eq_ok.mp hdb)⟩

/-! ## What one job sees -/

/-- What an operation does to the stored row of the job `jobId`, if any. -/
inductive JobChange (batch : CommitBatch) (op : Operation) (jobId : Id) :
    Option JobRow → Option JobRow → Prop
  | same (other : op.jobId ≠ some jobId) (job : Option JobRow) : JobChange batch op jobId job job
  | enqueued {spec : JobSpec} {sequence : Int64} (enqueue : op = .enqueueJob spec)
      (about : spec.jobId = jobId) :
      JobChange batch op jobId none (some (spec.row sequence batch.transactionId))
  | step {job : JobRow} {u : JobUpdate} (about : op.jobId = some jobId)
      (step : JobStep batch job op u) : JobChange batch op jobId (some job) (some (u.set job))

theorem job_map {db db' : Db} {jobId : Id} {u : JobUpdate} (rows : db'.jobs.rows =
    db.jobs.rows.map fun row => if row.spec.jobId = jobId then u.set row else row) (id : Id) :
    db'.job id = if id = jobId then (db.job id).map u.set else db.job id := by
  have hmap : db'.job id =
      (db.job id).map fun row => if row.spec.jobId = jobId then u.set row else row :=
    Table.lookup_map (fun row => by split <;> simp [u.spec]) rows id
  cases hjob : db.job id with
  | none => simp [hmap, hjob]
  | some job =>
    rw [hmap, hjob]
    by_cases hid : id = jobId <;> simp [job_id hjob, hid]

theorem RowWrite.found {db db' : Db} {job : JobRow} {u : JobUpdate} (h : RowWrite db db' job u)
    (hjob : db.job job.spec.jobId = some job) : db'.job job.spec.jobId = some (u.set job) := by
  rw [job_map h.rows, if_pos rfl, hjob]
  rfl

theorem JobEffect.change {batch : CommitBatch} {db db' : Db} {op : Operation}
    (h : JobEffect batch db db' op) (jobId : Id) :
    JobChange batch op jobId (db.job jobId) (db'.job jobId) := by
  cases h with
  | @enqueued spec sequence write =>
    have hjob : db'.job jobId = (db.job jobId).or
        (if spec.jobId = jobId then some (spec.row sequence batch.transactionId) else none) := by
      rw [Db.job, Table.lookup_append write.rows]
      simp [Db.job, JobSpec.row]
    by_cases hid : spec.jobId = jobId
    · rw [hjob, ← hid, write.free, if_pos rfl]
      exact .enqueued rfl rfl
    · rw [hjob, if_neg hid, Option.or_none]
      exact .same (by simpa [Operation.jobId] using hid) _
  | @updated _ job u found write about step =>
    rw [job_map write.rows]
    by_cases hid : jobId = job.spec.jobId
    · rw [if_pos hid, hid, found]
      exact .step about step
    · rw [if_neg hid]
      exact .same (fun he => hid (Option.some.inj (he.symm.trans about))) _

/-- A direct lease extension writes what it would write in a batch. -/
theorem applyExtendLease_direct {db db' : Db} {extension : LeaseExtension} {now : Int64}
    {receipt : LeaseExtensionReceipt} (h : applyExtendLease db extension now = .ok (db', receipt)) :
    ∃ batch, JobWrite batch (.extendLease extension) db db' :=
  ⟨⟨.zero, now, none, [], [], []⟩, applyExtendLease_write h⟩

/-! ## The other operations -/

theorem appendEvent_ok {tx tx' : OpenBatch} {tid : Id} {event : Event}
    (h : appendEvent tx tid event = .ok tx') :
    ∃ next globalSequence events,
      checkedAddU64 (tx.version event.streamId) 1 = some next ∧
      nextSequence (tx.db.events.rows.map EventRow.globalSequence) = some globalSequence ∧
      events.rows = tx.db.events.rows ++ [⟨globalSequence, tid, next.toInt64, event⟩] ∧
      tx' = ⟨{ tx.db with events := events }, tx.streamVersions.insert event.streamId next⟩ := by
  obtain ⟨next, hnext, h⟩ := bind_ok h
  obtain ⟨db, hdb, h⟩ := bind_ok h
  obtain ⟨globalSequence, hseq, hdb⟩ := bind_ok hdb
  obtain ⟨_, -, hdb⟩ := bind_ok hdb
  obtain ⟨events, hevents, hdb⟩ := bind_ok hdb
  cases hdb
  cases h
  refine ⟨next, globalSequence, events, ?_, execute_ok.mp hseq,
    (Table.insert_eq_some (execute_ok.mp hevents)).1, rfl⟩
  unfold OpenBatch.nextVersion at hnext
  split at hnext
  · next hadd => cases hnext; exact hadd
  · cases hnext

theorem applyMutation_ok {projection : String} {db db' : Db} {mutation : ProjectionMutation}
    (h : applyMutation projection db mutation = .ok db') :
    ∃ entries, db' = { db with projectionEntries := entries } := by
  cases mutation with
  | put key value =>
    obtain ⟨_, -, h⟩ := bind_ok h
    cases h
    exact ⟨_, rfl⟩
  | delete key => cases h; exact ⟨_, rfl⟩
  | clear => cases h; exact ⟨_, rfl⟩
  | replace entries =>
    refine foldlM_induction (P := fun d => ∃ e, d = { db with projectionEntries := e }) ?_ h
      ⟨_, rfl⟩
    rintro _ t entry - ⟨e, rfl⟩ hstep
    obtain ⟨_, -, hstep⟩ := bind_ok hstep
    obtain ⟨_, -, hstep⟩ := bind_ok hstep
    cases hstep
    exact ⟨_, rfl⟩

theorem applyProjectionPatch_ok {db db' : Db} {patch : ProjectionPatch}
    (h : applyProjectionPatch db patch = .ok db') :
    patch.validate = .ok () ∧ db.projectionVersion patch.projection = patch.expectedVersion ∧
      ∃ entries, db' = { setProjectionVersion db patch.projection patch.newVersion.toInt64 with
        projectionEntries := entries } := by
  obtain ⟨_, hvalid, h⟩ := bind_ok h
  refine ⟨mapError_eq_ok.mp hvalid, ?_⟩
  split at h
  · cases h
  · next hversion =>
    refine ⟨not_not.mp hversion, ?_⟩
    refine foldlM_induction (P := fun d => ∃ entries, d = { setProjectionVersion db
      patch.projection patch.newVersion.toInt64 with projectionEntries := entries }) ?_ h ⟨_, rfl⟩
    rintro _ t mutation - ⟨entries, rfl⟩ hstep
    obtain ⟨entries', rfl⟩ := applyMutation_ok hstep
    exact ⟨entries', rfl⟩

/-! ## All operations -/

section AllOperations

variable {batch : CommitBatch} {tx tx' : OpenBatch} {op : Operation}

/-- An operation that is not about a job is an event or a patch. -/
theorem applyOperation_noJob (hid : op.jobId = none) (h : applyOperation batch tx op = .ok tx') :
    tx'.db.jobs = tx.db.jobs ∧ tx'.db.activePartitions = tx.db.activePartitions ∧
      tx'.db.claimReceipts = tx.db.claimReceipts ∧ tx'.db.transactions = tx.db.transactions ∧
      tx'.db.queueCursors = tx.db.queueCursors ∧ tx'.db.streams = tx.db.streams := by
  cases op with
  | appendEvent event =>
    obtain ⟨_, _, _, -, -, -, rfl⟩ := appendEvent_ok h
    exact ⟨rfl, rfl, rfl, rfl, rfl, rfl⟩
  | projectionPatch patch =>
    obtain ⟨-, -, _, hdb⟩ := applyProjectionPatch_ok (run_ok h).1
    rw [hdb]
    exact ⟨rfl, rfl, rfl, rfl, rfl, rfl⟩
  | _ => cases hid

/-- What an operation does to the row of any job. -/
theorem applyOperation_change (h : applyOperation batch tx op = .ok tx') (jobId : Id) :
    JobChange batch op jobId (tx.db.job jobId) (tx'.db.job jobId) := by
  cases hid : op.jobId with
  | none =>
    rw [Db.job, Db.job, (applyOperation_noJob hid h).1]
    exact .same (by simp [hid]) _
  | some id => exact (applyOperation_job hid h).2.effect.change jobId

theorem applyOperation_receipts (h : applyOperation batch tx op = .ok tx') :
    tx'.db.claimReceipts.rows = tx.db.claimReceipts.rows.map op.onReceipt := by
  cases hid : op.jobId with
  | none =>
    rw [(applyOperation_noJob hid h).2.2.1, onReceipt_id (by rintro extension rfl; cases hid),
      List.map_id]
  | some id => exact (applyOperation_job hid h).2.receipts

theorem applyOperation_transactions (h : applyOperation batch tx op = .ok tx') :
    tx'.db.transactions = tx.db.transactions := by
  cases hid : op.jobId with
  | none => exact (applyOperation_noJob hid h).2.2.2.1
  | some id => exact (applyOperation_job hid h).2.transactions

theorem applyOperation_streams (h : applyOperation batch tx op = .ok tx') :
    tx'.db.streams = tx.db.streams := by
  cases hid : op.jobId with
  | none => exact (applyOperation_noJob hid h).2.2.2.2.2
  | some id => exact (applyOperation_job hid h).2.streams

end AllOperations

end Minisqlite
