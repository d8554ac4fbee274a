import Minisqlite.Journal

/-!
# Job rows

All that a run ever does to the rows of `jobs` and to the partition index. A row
is inserted by `EnqueueJob`, and after that it is changed by one `RowStep` after
another: a step of an operation, the repair of an expired lease, a lease grant.

* `applyOperation_rows`, `CallEffect.rows`: what every insert and every step
  preserves, an operation and a call preserve.
* `rows_after`: the same for a whole run. `jobs_consecutive` is one use of it.
* `rowInvariant_of_rows`, `rowInvariant_of_job`: a property of single rows, or of the
  row of one job.
-/

namespace Minisqlite

open Tables Runs

/-- The ways in which a stored row changes. -/
inductive RowStep (job : JobRow) : JobUpdate → Prop
  | operation {batch : CommitBatch} {op : Operation} {u : JobUpdate}
      (step : JobStep batch job op u) : RowStep job u
  | repair {queue : String} {nowMs : Int64} {transactionId : Id}
      (expired : job.expiredIn queue nowMs = true) : RowStep job (job.repair transactionId nowMs)
  | lease {request : ClaimRequest} {expiryMs : Int64} {leaseToken transactionId : Id}
      (expiry : leaseExpiry request = .ok expiryMs) (queue : job.spec.queue = request.queue)
      (ready : job.ready request.nowMs = true) :
      RowStep job (.lease leaseToken request.workerId expiryMs transactionId)

/-- The state of the row moves along an edge of the transition table, or stays. -/
theorem JobStep.transition {batch : CommitBatch} {job : JobRow} {op : Operation} {u : JobUpdate}
    (h : JobStep batch job op u) : job.state.canTransitionTo (u.set job).state = true := by
  cases h with
  | ack leased => rw [leased]; rfl
  | failDead leased => rw [leased]; rfl
  | failRetry leased => rw [leased]; rfl
  | cancelPending pending => rw [pending]; rfl
  | cancelLeased leased => rw [leased]; rfl
  | resolveRetry resolvable => rcases resolvable with hs | hs <;> rw [hs] <;> rfl
  | resolveTerminal _ _ allowed => exact allowed
  | extend leased =>
    show job.state.canTransitionTo job.state = true
    rw [leased]
    rfl

/-- Leases are granted and repaired without a look at the transition table, but
along its edges. -/
theorem RowStep.transition {job : JobRow} {u : JobUpdate} (h : RowStep job u) :
    job.state.canTransitionTo (u.set job).state = true := by
  cases h with
  | operation step => exact step.transition
  | repair expired =>
    rw [(expiredIn_iff.mp expired).2.1, JobRow.repair]
    rcases expiredTo_cases job with hto | ⟨hto, -⟩ | ⟨hto, -⟩ <;> rw [hto] <;> rfl
  | lease _ _ ready => rcases state_of_ready ready with hs | hs <;> rw [hs] <;> rfl

/-- No step starts from a terminal row. -/
theorem RowStep.active {job : JobRow} {u : JobUpdate} (h : RowStep job u) :
    job.state.isTerminal = false := by
  have := h.transition
  cases hs : job.state <;> first | rfl | (rw [hs] at this; cases this)

/-- A property of the jobs and the partition index that every insert and every
row step preserves. -/
structure RowInvariant (P : Db → Prop) : Prop where
  frame : ∀ d d', d'.jobs = d.jobs → d'.activePartitions = d.activePartitions → P d → P d'
  inserted : ∀ d d' spec sequence transactionId, RowInsert d d' spec sequence transactionId →
    P d → P d'
  updated : ∀ d d' job u, d.job job.spec.jobId = some job → RowStep job u → RowWrite d d' job u →
    P d → P d'

section Rules

variable {P : Db → Prop} {db db' : Db}

theorem JobEffect.rows {batch : CommitBatch} {op : Operation} (h : JobEffect batch db db' op)
    (inv : RowInvariant P) (hdb : P db) : P db' := by
  cases h with
  | enqueued write => exact inv.inserted _ _ _ _ _ write hdb
  | updated found write about step => exact inv.updated _ _ _ _ found (.operation step) write hdb

theorem applyOperation_rows {batch : CommitBatch} {tx tx' : OpenBatch} {op : Operation}
    (h : applyOperation batch tx op = .ok tx') (inv : RowInvariant P) (hdb : P tx.db) :
    P tx'.db := by
  cases hid : op.jobId with
  | none =>
    obtain ⟨hjobs, hindex, -⟩ := applyOperation_noJob hid h
    exact inv.frame _ _ hjobs hindex hdb
  | some jobId => exact (applyOperation_job hid h).2.effect.rows inv hdb

/-- A lease goes to a job of the claimed queue. -/
theorem rowStep_of_lease {request : ClaimRequest} {entropy : Entropy} {plan : LeasePlan}
    {expiryMs : Int64} (hplan : planLeases db request entropy = .ok plan)
    (hexpiry : leaseExpiry request = .ok expiryMs) {lease : ProposedLease}
    (hlease : lease ∈ plan.leases) (leaseToken transactionId : Id) :
    RowStep lease.job (.lease leaseToken request.workerId expiryMs transactionId) := by
  have hhead := partitionHead_spec (planLeases_head hplan hlease)
  exact .lease hexpiry (activeIn_iff.mp hhead.2.1).1 ((planLeases_spec hplan).1 lease hlease).1

theorem CallEffect.rows {call : Call} {entries : List Entry} (h : CallEffect db call db' entries)
    (inv : RowInvariant P) (hdb : P db) : P db' := by
  cases h with
  | unchanged => exact hdb
  | commit persists staged =>
    exact stageBatch_induction (fun d _ _ => inv.frame d _ rfl rfl)
      (fun _ _ _ happlies => applyOperation_rows happlies.apply inv) (stageCommit_staged staged).2.2
      hdb
  | claim persists staging =>
    obtain ⟨expiryMs, plan, _, _, _, hphases⟩ := stageClaim_phases staging
    exact hphases.induction inv.frame
      (fun d d' job hjob hexpired => inv.updated d d' job _ hjob (.repair hexpired))
      (fun d d' lease hlease hjob => inv.updated d d' lease.job _ hjob
        (rowStep_of_lease hphases.planned hphases.expiry hlease _ _)) hdb
  | extend persists staged =>
    obtain ⟨batch, hwrite⟩ := applyExtendLease_direct staged
    exact hwrite.effect.rows inv hdb

/-- A row invariant holds in every reachable state. -/
theorem rows_after (inv : RowInvariant P) (hempty : P Db.empty) (calls : List Call) :
    P (controlPlane.after calls).db :=
  controlPlane.after_induction (P := fun _ store => P store.db) hempty
    (fun _ call ih => (next_effect _ call).rows inv ih) calls

end Rules

/-- Enqueue sequences count the jobs: none is ever deleted. -/
theorem numbered_invariant :
    RowInvariant fun db => Consecutive (db.jobs.rows.map JobRow.enqueueSequence) where
  frame d d' hjobs _ h := by rwa [hjobs]
  inserted d d' spec sequence transactionId hinsert h := by
    rw [hinsert.rows, List.map_append]
    exact h.append_next hinsert.next
  updated d d' job u _ _ hwrite h := by
    have hkept : d'.jobs.rows.map JobRow.enqueueSequence =
        d.jobs.rows.map JobRow.enqueueSequence := by
      rw [hwrite.rows, List.map_map]
      refine List.map_congr_left fun row _ => ?_
      show JobRow.enqueueSequence (if _ then _ else _) = _
      split <;> simp [u.enqueueSequence]
    rwa [hkept]

theorem jobs_consecutive (calls : List Call) :
    Consecutive ((controlPlane.after calls).db.jobs.rows.map JobRow.enqueueSequence) :=
  rows_after numbered_invariant .nil calls

/-! ## Single rows -/

theorem mem_rows_of_write {db db' : Db} {job : JobRow} {u : JobUpdate}
    (found : db.job job.spec.jobId = some job) (h : RowWrite db db' job u) {row : JobRow}
    (hrow : row ∈ db'.jobs.rows) :
    row = u.set job ∨ row ∈ db.jobs.rows ∧ row.spec.jobId ≠ job.spec.jobId := by
  rw [h.rows] at hrow
  obtain ⟨old, hold, rfl⟩ := List.mem_map.mp hrow
  by_cases hid : old.spec.jobId = job.spec.jobId
  · obtain rfl := eq_of_found found hold hid
    exact .inl (if_pos rfl)
  · rw [if_neg hid]
    exact .inr ⟨hold, hid⟩

/-- A property that new rows have and every step of a legal row preserves is a
row invariant. -/
theorem rowInvariant_of_rows {Q : JobRow → Prop}
    (inserted : ∀ spec sequence transactionId,
      (JobSpec.row spec sequence transactionId).check = true → Q (spec.row sequence transactionId))
    (step : ∀ job u, job.check = true → RowStep job u → Q job → Q (u.set job)) :
    RowInvariant fun db => ∀ job ∈ db.jobs.rows, Q job where
  frame d d' hjobs _ h := by rwa [hjobs]
  inserted d d' spec sequence transactionId hinsert h row hrow := by
    have hcheck := d'.jobs.checked row hrow
    rw [hinsert.rows] at hrow
    rcases List.mem_append.mp hrow with hrow | hrow
    · exact h row hrow
    · obtain rfl := List.mem_singleton.mp hrow
      exact inserted _ _ _ hcheck
  updated d d' job u found hstep hwrite h row hrow := by
    have hjob := (job_eq_some.mp found).1
    rcases mem_rows_of_write found hwrite hrow with rfl | ⟨hrow, -⟩
    · exact step job u (d.jobs.checked job hjob) hstep (h job hjob)
    · exact h row hrow

/-- The row of one job is stored for good, and what every step of it preserves
stays true of it. -/
theorem rowInvariant_of_job {jobId : Id} {Q : JobRow → Prop}
    (step : ∀ job u, RowStep job u → Q job → Q (u.set job)) :
    RowInvariant fun db => ∃ job, db.job jobId = some job ∧ Q job where
  frame d d' hjobs _ h := by
    rw [Db.job, hjobs]
    exact h
  inserted d d' spec sequence transactionId hinsert := by
    rintro ⟨job, hjob, hQ⟩
    refine ⟨job, job_eq_some.mpr ⟨?_, job_id hjob⟩, hQ⟩
    rw [hinsert.rows]
    exact List.mem_append_left _ (job_eq_some.mp hjob).1
  updated d d' row u found hstep hwrite := by
    rintro ⟨job, hjob, hQ⟩
    by_cases hid : jobId = row.spec.jobId
    · subst hid
      obtain rfl := Option.some.inj (found.symm.trans hjob)
      exact ⟨u.set row, hwrite.found found, step row u hstep hQ⟩
    · exact ⟨job, by rw [job_map hwrite.rows, if_neg hid, hjob], hQ⟩

end Minisqlite
