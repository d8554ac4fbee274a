import Minisqlite.Effects.Claim

/-!
# The jobs table after a claim

`ClaimWrite` says what a claim can do to a row. Here is what it does: every row as a
function of the row before, of the two plans and of the transaction id.

* `rows_of_view`: a table in which every row is known by its id.
* `claimedRow`, `ClaimPhases.rows`: the row that a claim makes of a job.
* `ClaimPhases.cursors`: the cursor of each queue.
-/

namespace Minisqlite

open Tables Runs EffectLemmas ClaimLemmas

/-- An update of some rows leaves the table with the same ids in the same order, so
the rows are known from the point queries. -/
theorem rows_of_view {db db' : Db} {f : JobRow → JobRow}
    (ids : (db'.jobs.rows.map fun job => job.spec.jobId) =
      db.jobs.rows.map fun job => job.spec.jobId)
    (view : ∀ job ∈ db.jobs.rows, db'.job job.spec.jobId = some (f job)) :
    db'.jobs.rows = db.jobs.rows.map f := by
  have hlength : db'.jobs.rows.length = db.jobs.rows.length := by
    simpa using congrArg List.length ids
  refine List.ext_getElem (by simpa using hlength) fun i hi' hi => ?_
  rw [List.length_map] at hi
  have hid : db'.jobs.rows[i].spec.jobId = db.jobs.rows[i].spec.jobId := by
    have := congrArg (fun l : List Id => l[i]?) ids
    simpa [hi, hi'] using this
  have hrow := job_of_mem (List.getElem_mem hi')
  rw [hid, view _ (List.getElem_mem hi)] at hrow
  rw [List.getElem_map]
  exact (Option.some.inj hrow).symm

/-- The row that a claim makes of a job, for its two plans. -/
def claimedRow (transactionId : Id) (request : ClaimRequest) (expiryMs : Int64)
    (repaired : List JobRow) (leases : List ProposedLease) (job : JobRow) : JobRow :=
  match leases.find? fun lease => decide (lease.job.spec.jobId = job.spec.jobId) with
  | some lease =>
    (JobUpdate.lease lease.leaseToken request.workerId expiryMs transactionId).set job
  | none =>
    if repaired.any fun other => decide (other.spec.jobId = job.spec.jobId) then
      (job.repair transactionId request.nowMs).set job
    else job

section Row

variable {transactionId : Id} {request : ClaimRequest} {expiryMs : Int64} {repaired : List JobRow}
  {leases : List ProposedLease} {job : JobRow}

theorem claimedRow_spec : (claimedRow transactionId request expiryMs repaired leases job).spec =
    job.spec := by
  unfold claimedRow
  split
  · exact JobUpdate.spec _ _
  · split
    · exact JobUpdate.spec _ _
    · rfl

/-- A claim leaves a job alone that is in neither plan. -/
theorem claimedRow_other (hleases : ∀ lease ∈ leases, lease.job.spec.jobId ≠ job.spec.jobId)
    (hrepaired : ∀ other ∈ repaired, other.spec.jobId ≠ job.spec.jobId) :
    claimedRow transactionId request expiryMs repaired leases job = job := by
  have hfind : (leases.find? fun lease => decide (lease.job.spec.jobId = job.spec.jobId)) = none :=
    List.find?_eq_none.mpr fun lease hlease => by simpa using hleases lease hlease
  have hany : ¬ repaired.any (fun other => decide (other.spec.jobId = job.spec.jobId)) = true := by
    simpa using hrepaired
  unfold claimedRow
  rw [hfind]
  exact if_neg hany

end Row

/-- The jobs that a claim repairs. -/
def repairedJobs (db : Db) (request : ClaimRequest) : List JobRow :=
  (planMaintenance db request).map MaintenanceAction.job

namespace ClaimPhases

variable {db db₁ db₂ db₃ : Db} {request : ClaimRequest} {entropy : Entropy} {staged : StagedClaim}
  {expiryMs : Int64} {plan : LeasePlan}

/-- No claim inserts or deletes a job. -/
theorem ids (h : ClaimPhases db request entropy staged expiryMs plan db₁ db₂ db₃) :
    (staged.db.jobs.rows.map fun job => job.spec.jobId) =
      db.jobs.rows.map fun job => job.spec.jobId := by
  have hwrite : ∀ d d' job u, RowWrite d d' job u →
      (d'.jobs.rows.map fun job => job.spec.jobId) = d.jobs.rows.map fun job => job.spec.jobId := by
    intro d d' job u hwrite
    rw [hwrite.rows, List.map_map]
    refine List.map_congr_left fun row _ => ?_
    rw [Function.comp_apply]
    split
    · rw [u.spec]
    · rfl
  refine h.induction (P := fun d => (d.jobs.rows.map fun job => job.spec.jobId) =
    db.jobs.rows.map fun job => job.spec.jobId) (fun d d' hjobs _ hd => by rw [hjobs, hd])
    (fun d d' job _ _ hrow hd => (hwrite d d' job _ hrow).trans hd)
    (fun d d' lease _ _ hrow hd => (hwrite d d' lease.job _ hrow).trans hd) rfl

/-- The job of a lease is the row with its id. -/
theorem job_of_lease (h : ClaimPhases db request entropy staged expiryMs plan db₁ db₂ db₃)
    {lease : ProposedLease} (hlease : lease ∈ plan.leases) {job : JobRow}
    (hjob : job ∈ db.jobs.rows) (hid : lease.job.spec.jobId = job.spec.jobId) : lease.job = job :=
  Option.some.inj ((h.stored hlease).symm.trans (hid ▸ job_of_mem hjob))

/-- What a claim does to a job: it is leased, or repaired, or in neither plan. -/
theorem row_cases (h : ClaimPhases db request entropy staged expiryMs plan db₁ db₂ db₃)
    {job row : JobRow} (hjob : job ∈ db.jobs.rows)
    (hrow : row = claimedRow staged.transactionId request expiryMs (repairedJobs db request)
      plan.leases job) :
    (∃ lease ∈ plan.leases, lease.job = job ∧ row =
      (JobUpdate.lease lease.leaseToken request.workerId expiryMs staged.transactionId).set job) ∨
    (∃ action ∈ planMaintenance db request, action.job = job ∧
      row = (job.repair staged.transactionId request.nowMs).set job) ∨
    (∀ lease ∈ plan.leases, lease.job ≠ job) ∧
      (∀ action ∈ planMaintenance db request, action.job ≠ job) ∧ row = job := by
  unfold claimedRow at hrow
  split at hrow
  · next lease hfind =>
    have hlease := List.mem_of_find?_eq_some hfind
    have hid : lease.job.spec.jobId = job.spec.jobId := by simpa using List.find?_some hfind
    exact .inl ⟨lease, hlease, h.job_of_lease hlease hjob hid, hrow⟩
  · next hfind =>
    have hleases : ∀ lease ∈ plan.leases, lease.job ≠ job := fun lease hlease he => by
      have := List.find?_eq_none.mp hfind lease hlease
      simp [he] at this
    split at hrow
    · next hany =>
      obtain ⟨other, hother, hid⟩ := List.any_eq_true.mp hany
      obtain ⟨action, haction, rfl⟩ := List.mem_map.mp hother
      have hsame := eq_of_found (job_of_mem hjob) (planMaintenance_spec haction).1
        (of_decide_eq_true hid)
      exact .inr (.inl ⟨action, haction, hsame, hrow⟩)
    · next hnone =>
      refine .inr (.inr ⟨hleases, fun action haction he => hnone ?_, hrow⟩)
      exact List.any_eq_true.mpr ⟨action.job, List.mem_map_of_mem haction, by simp [he]⟩

/-- The jobs table after a claim. -/
theorem rows (h : ClaimPhases db request entropy staged expiryMs plan db₁ db₂ db₃) :
    staged.db.jobs.rows = db.jobs.rows.map (claimedRow staged.transactionId request expiryMs
      (repairedJobs db request) plan.leases) := by
  refine rows_of_view h.ids fun job hjob => ?_
  obtain ⟨cursors, hcursors⟩ := advanceCursor_cursors db₃ request.queue plan.lastLeased
  obtain ⟨-, -, -, hleased, hkept₃⟩ := leases_ok h.leasing
  obtain ⟨-, hrepaired, hkept₂⟩ := h.maintenance_repairs
  have hdb₁ : db₁.job job.spec.jobId = some job := by
    obtain ⟨transactions, _, rfl, -⟩ := insertClaimTransaction_ok h.transaction
    exact job_of_mem hjob
  rw [h.result, hcursors]
  show db₃.job job.spec.jobId = _
  rcases h.row_cases hjob rfl with ⟨lease, hlease, rfl, hrow⟩ | ⟨action, haction, rfl, hrow⟩ |
    ⟨hleases, hactions, hrow⟩
  · rw [hrow, hleased lease hlease, h.unrepaired hlease]
    rfl
  · have hapart : ∀ lease ∈ plan.leases, lease.job.spec.jobId ≠ action.job.spec.jobId :=
      fun lease hlease => (plans_apart h.planned hlease haction).symm
    rw [hrow, hkept₃ _ hapart, hrepaired action haction, hdb₁]
    rfl
  · have hleases : ∀ lease ∈ plan.leases, lease.job.spec.jobId ≠ job.spec.jobId :=
      fun lease hlease hid => hleases lease hlease (h.job_of_lease hlease hjob hid)
    have hactions : ∀ action ∈ planMaintenance db request,
        action.job.spec.jobId ≠ job.spec.jobId := fun action haction hid =>
      hactions action haction (eq_of_found (job_of_mem hjob) (planMaintenance_spec haction).1 hid)
    rw [hrow, hkept₃ _ hleases, hkept₂ _ hactions, hdb₁]

/-- A claim that granted leases leaves its cursor at the last one. -/
theorem cursors (h : ClaimPhases db request entropy staged expiryMs plan db₁ db₂ db₃)
    (queue : String) :
    staged.db.queueCursors.lookup QueueCursorRow.queue queue =
      if request.queue = queue ∧ plan.lastLeased.isSome then some ⟨queue, plan.lastLeased⟩
      else db.queueCursors.lookup QueueCursorRow.queue queue := by
  obtain ⟨transactions, _, rfl, -⟩ := insertClaimTransaction_ok h.transaction
  obtain ⟨⟨jobs, parts, rfl⟩, -⟩ := h.maintenance_repairs
  obtain ⟨⟨jobs, receipts, rfl⟩, -⟩ := leases_ok h.leasing
  rw [h.result]
  cases plan.lastLeased with
  | none => simp [advanceCursor]
  | some partition =>
    simp only [advanceCursor, Option.isSome_some, and_true]
    rw [Table.lookup_upsert]
    by_cases hqueue : request.queue = queue
    · subst hqueue
      rw [if_pos rfl, if_pos rfl]
      cases hrow : db.queueCursors.lookup QueueCursorRow.queue request.queue with
      | none => rfl
      | some row =>
        have hkey := Table.lookup_key hrow
        obtain ⟨queue, last⟩ := row
        simp only at hkey
        rw [← hkey]
        rfl
    · rw [if_neg hqueue, if_neg hqueue]

end ClaimPhases

end Minisqlite
