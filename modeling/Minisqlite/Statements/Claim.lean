import Minisqlite.Effects.Claim
import Minisqlite.Statements.Batch

/-!
# The statements of a claim

`claim_jobs` up to its COMMIT. Both plans are queries, and find on the file the jobs that the
typed plans find (`planMaintenance_stores`, `planLeases_agrees`). A grant writes the attempt
that was read when the lease was planned: it is the attempt of the row, since neither the
repairs nor the grants before it have touched that job (`grantLeases_agrees`).
-/

namespace Minisqlite.TableWrites

open Sql Tables TableReads Runs Migrations Migrations.UpgradeLemmas

/-! ## 1. Plans -/

def loadedAction (action : Minisqlite.MaintenanceAction) : MaintenanceAction :=
  ⟨loaded action.job, action.target⟩

def loadedLease (lease : Minisqlite.ProposedLease) : ProposedLease :=
  ⟨loaded lease.job, lease.leaseToken⟩

def loadedPlan (plan : Minisqlite.LeasePlan) : LeasePlan :=
  ⟨plan.leases.map loadedLease, plan.lastLeased, plan.entropy⟩

section Plans

variable {file : Sql.Database} {db : Db}

/-- The jobs whose lease is over. A job without an expiry is not one of them. -/
theorem selects_expiredIn (queue : String) (nowMs : Int64) (job : JobRow) :
    Condition.selects (jobsV2Table.value (storedJob job))
      (.and (bothAre "queue" "state" (ofString queue) (ofI64 (encodeState .leased)))
        (.compare .lt (.column "lease_expires_at_ms") (ofI64 nowMs))) =
      job.expiredIn queue nowMs := by
  have hqueue : jobsV2Table.value (storedJob job) "queue" = textValue job.spec.queue := rfl
  have hstate : jobsV2Table.value (storedJob job) "state" = .integer (encodeState job.state) := rfl
  have hexpiry : jobsV2Table.value (storedJob job) "lease_expires_at_ms" =
    ofOption .integer job.leaseExpiresAtMs := rfl
  rw [Condition.selects_and, JobRow.expiredIn]
  refine congrArg₂ _ (Condition.selects_eq
    (Condition.eval_and (eval_text hqueue) (eval_state hstate))) ?_
  cases hjob : job.leaseExpiresAtMs with
  | none =>
    rw [hjob] at hexpiry
    rw [Condition.selects, Condition.eval, Term.eval, hexpiry]
    rfl
  | some expiry =>
    rw [hjob] at hexpiry
    exact Condition.selects_eq (eval_bound .lt hexpiry rfl rfl)

/-- Expired leases are sorted by expiries, none of which is NULL. -/
theorem planMaintenance_stores [ColumnErrors] (h : Stores file db) (request : ClaimRequest) :
    planMaintenance file request =
      .ok ((Minisqlite.planMaintenance db request).map loadedAction) := by
  have hsorted : (db.jobs.rows.filter (JobRow.expiredIn request.queue request.nowMs)).insertionSort
      (fun a b => Direction.ascending.before
        (jobsV2Table.value (storedJob a) "lease_expires_at_ms")
        (jobsV2Table.value (storedJob b) "lease_expires_at_ms")) =
      (db.jobs.rows.filter (JobRow.expiredIn request.queue request.nowMs)).insertionSort
        fun a b =>
          a.leaseExpiresAtMs.getD Int64.minValue ≤ b.leaseExpiresAtMs.getD Int64.minValue := by
    have hexpiry : ∀ job : JobRow, jobsV2Table.value (storedJob job) "lease_expires_at_ms" =
      ofOption .integer job.leaseExpiresAtMs := fun _ => rfl
    have hmap := List.map_insertionSort (fun a b => Direction.ascending.before
        (jobsV2Table.value (storedJob a) "lease_expires_at_ms")
        (jobsV2Table.value (storedJob b) "lease_expires_at_ms"))
      (fun a b : JobRow =>
        a.leaseExpiresAtMs.getD Int64.minValue ≤ b.leaseExpiresAtMs.getD Int64.minValue) id
      (db.jobs.rows.filter (JobRow.expiredIn request.queue request.nowMs)) fun a ha b hb => by
        obtain ⟨-, -, x, hx, -⟩ := expiredIn_iff.mp (List.mem_filter.mp ha).2
        obtain ⟨-, -, y, hy, -⟩ := expiredIn_iff.mp (List.mem_filter.mp hb).2
        rw [hexpiry, hexpiry, id, id, hx, hy]
        exact before_integer x y
    rwa [List.map_id, List.map_id] at hmap
  unfold planMaintenance
  refine Eq.trans (bind_of_ok (fetch_ok (by
    exact query_rows h.jobs.source
      (fun job _ => selects_expiredIn request.queue request.nowMs job) fun _ _ => Iff.rfl))) ?_
  refine Eq.trans (bind_of_ok (fetch_ok (mapM_rows
    fun job _ => rowToLoadedJob_storedJob job))) ?_
  refine congrArg Except.ok ?_
  rw [Minisqlite.planMaintenance, List.map_map, List.map_map, ← hsorted]
  rfl

theorem partitionHead_stores [ColumnErrors] (h : Stores file db) (queue partitionKey : String) :
    partitionHead file queue partitionKey =
      .ok ((Minisqlite.partitionHead db queue partitionKey).map loaded) := by
  unfold partitionHead
  refine fetch_ok ?_
  rw [queryRow]
  refine Eq.trans (bind_of_ok (by
    exact query_rows h.jobs.source (fun job _ => selects_activeIn queue partitionKey job)
      fun a b => before_integer a.enqueueSequence b.enqueueSequence)) ?_
  have hcut : ∀ rows : List JobRow, (cut (some 1) rows).head? = rows.head? := fun rows => by
    cases rows <;> rfl
  rw [List.head?_map, hcut]
  show Option.mapM rowToLoadedJob
    (Option.map _ (Minisqlite.partitionHead db queue partitionKey)) = _
  cases Minisqlite.partitionHead db queue partitionKey with
  | none => rfl
  | some job => exact congrArg (some <$> ·) (rowToLoadedJob_storedJob job)

theorem queueCursor_stores [ColumnErrors] (h : Stores file db) (queue : String) :
    queueCursor file queue = .ok ((db.queueCursors.lookup QueueCursorRow.queue queue).bind
      QueueCursorRow.lastPartitionKey) := by
  have hqueue : ∀ row, queueCursorsTable.value (storedQueueCursor row) "queue" =
    textValue row.queue := fun _ => rfl
  have hpartition : ∀ row : QueueCursorRow, getOption getString
      (ofOption textValue row.lastPartitionKey) = some row.lastPartitionKey := fun row =>
    getOption_ofOption getString_text (fun _ => Value.noConfusion) row.lastPartitionKey
  unfold queueCursor
  refine Eq.trans (bind_of_ok (fetch_ok (by
    exact queryRow_ok h.queueCursors.source
      (fun row _ => Condition.selects_eq (eval_text (hqueue row)))
      fun row _ => get_ok (hpartition row)))) ?_
  show Except.ok (Option.map _ (db.queueCursors.lookup QueueCursorRow.queue queue)).join = _
  cases db.queueCursors.lookup QueueCursorRow.queue queue <;> rfl

/-- The partitions are sorted as rows, by the key that is then read. -/
theorem partitionsFromCursor_stores [ColumnErrors] (h : Stores file db) (queue : String) :
    partitionsFromCursor file queue = .ok (Minisqlite.partitionsFromCursor db queue) := by
  have hqueue : ∀ row, activePartitionsTable.value (storedActivePartition row) "queue" =
    textValue row.queue := fun _ => rfl
  unfold partitionsFromCursor
  rw [queueCursor_stores h]
  refine Eq.trans (bind_of_ok rfl) ?_
  refine Eq.trans (bind_of_ok (fetch_ok (by
    exact query_rows h.activePartitions.source
      (fun row _ => Condition.selects_eq (eval_text (hqueue row)))
      fun a b => before_text a.partitionKey b.partitionKey))) ?_
  refine Eq.trans (bind_of_ok (fetch_ok (mapM_rows (g := ActivePartitionRow.partitionKey)
    fun row _ => get_ok (getString_text row.partitionKey)))) ?_
  have hsorted := List.map_insertionSort
    (fun a b : ActivePartitionRow => utf8 a.partitionKey ≤ utf8 b.partitionKey)
    (fun a b => utf8 a ≤ utf8 b) ActivePartitionRow.partitionKey
    (db.activePartitions.rows.filter fun row => decide (row.queue = queue))
    fun _ _ _ _ => Iff.rfl
  rw [cut, hsorted]
  rfl

theorem leasePartitions_agrees [ColumnErrors] (h : Stores file db) (request : ClaimRequest)
    (partitions : List String) (plan : Minisqlite.LeasePlan) :
    Agree (fun a b => a = loadedPlan b)
      (leasePartitions file request partitions (loadedPlan plan))
      (Minisqlite.leasePartitions db request partitions plan) := by
  induction partitions generalizing plan with
  | nil => exact .ok rfl
  | cons partition rest ih =>
    have hlength : (loadedPlan plan).leases.length = plan.leases.length := List.length_map _
    rw [leasePartitions, Minisqlite.leasePartitions, hlength]
    refine .ite (.ok rfl) (.read_left (partitionHead_stores h request.queue partition) ?_)
    cases Minisqlite.partitionHead db request.queue partition with
    | none => exact ih plan
    | some job =>
      refine .ite (.read fun drawn => ?_) (ih plan)
      obtain ⟨leaseToken, entropy⟩ := drawn
      have hnext := ih ⟨plan.leases ++ [⟨job, leaseToken⟩], some partition, entropy⟩
      rw [loadedPlan, List.map_append] at hnext
      exact hnext

theorem planLeases_agrees [ColumnErrors] (h : Stores file db) (request : ClaimRequest)
    (entropy : Entropy) :
    Agree (fun a b => a = loadedPlan b) (planLeases file request entropy)
      (Minisqlite.planLeases db request entropy) := by
  refine .ite (.ok rfl) ?_
  refine .read_left (partitionsFromCursor_stores h request.queue) ?_
  exact leasePartitions_agrees h request _ ⟨[], none, entropy⟩

end Plans

/-! ## 2. Writes -/

section Writes

variable {coerce : Affinity → Value → Value} {file : Sql.Database} {db : Db}

theorem applyMaintenance_agrees (hcoerce : Settled coerce) (h : Stores file db)
    (transactionId : Id) (nowMs : Int64) (action : Minisqlite.MaintenanceAction) :
    Agree Stores (applyMaintenance coerce transactionId nowMs file (loadedAction action))
      (Minisqlite.applyMaintenance transactionId nowMs db action) := by
  obtain ⟨job, target⟩ := action
  refine .read fun _ => ?_
  have hnonterminal := setNonterminal_agrees hcoerce h job.spec.jobId target none transactionId
  cases target with
  | dead => exact setTerminal_agrees hcoerce h job _ _ _ _ _
  | _ => exact hnonterminal

theorem applyAllMaintenance_agrees (hcoerce : Settled coerce) (h : Stores file db)
    (transactionId : Id) (nowMs : Int64) (actions : List Minisqlite.MaintenanceAction) :
    Agree Stores
      ((actions.map loadedAction).foldlM (applyMaintenance coerce transactionId nowMs) file)
      (actions.foldlM (Minisqlite.applyMaintenance transactionId nowMs) db) := by
  rw [List.foldlM_map]
  exact Agree.foldlM
    (fun a b action hab => applyMaintenance_agrees hcoerce hab transactionId nowMs action) actions h

/-- The grant of a lease to a job that is as it was when the lease was planned. -/
theorem grantLease_agrees (hcoerce : Settled coerce) (h : Stores file db) (transactionId : Id)
    (request : ClaimRequest) (leaseExpiresAtMs : Int64) {lease : Minisqlite.ProposedLease}
    (hjob : db.job lease.job.spec.jobId = some lease.job) :
    Agree Stores
      (grantLease coerce transactionId request leaseExpiresAtMs file (loadedLease lease))
      (Minisqlite.grantLease transactionId request leaseExpiresAtMs db lease) := by
  have hset : ∀ job ∈ db.jobs.rows, job.spec.jobId = lease.job.spec.jobId →
      jobsV2Table.assigned (leaseSet lease.leaseToken request.workerId leaseExpiresAtMs
          (lease.job.attempt + 1) transactionId)
        (jobsV2Table.value (storedJob job)) (storedJob job) =
      storedJob ((JobUpdate.lease lease.leaseToken request.workerId leaseExpiresAtMs
        transactionId).set job) := fun job hmem hid => by
    rw [eq_of_found hjob hmem hid]
    exact assigned_lease lease.job lease.leaseToken request.workerId leaseExpiresAtMs transactionId
  refine (updateJobs_agrees hcoerce h (of_decide_eq_true rfl) hset rfl).bind fun file db h => ?_
  exact insert_child_agrees (t := .claimReceipts)
    (r := ⟨transactionId, lease.job.spec.jobId, lease.leaseToken, lease.job.attempt + 1,
      request.workerId, leaseExpiresAtMs⟩) hcoerce h StoreTable.claimReceipts_mem (by decide) rfl
    (refers_transaction_stores h rfl (by decide) rfl)

/-- The grants of a plan, whose jobs are different ones. -/
theorem grantLeases_agrees (hcoerce : Settled coerce) (transactionId : Id)
    (request : ClaimRequest) (leaseExpiresAtMs : Int64) {leases : List Minisqlite.ProposedLease}
    (h : Stores file db) (hjobs : ∀ lease ∈ leases, db.job lease.job.spec.jobId = some lease.job)
    (nodup : (leases.map fun lease => lease.job.spec.jobId).Nodup) :
    Agree Stores
      ((leases.map loadedLease).foldlM (grantLease coerce transactionId request leaseExpiresAtMs)
        file)
      (leases.foldlM (Minisqlite.grantLease transactionId request leaseExpiresAtMs) db) := by
  induction leases generalizing file db with
  | nil => exact .ok h
  | cons lease leases ih =>
    obtain ⟨hnew, hrest⟩ := List.nodup_cons.mp nodup
    rw [List.map_cons, List.foldlM_cons, List.foldlM_cons]
    have hgrant := (grantLease_agrees hcoerce h transactionId request leaseExpiresAtMs
      (hjobs lease List.mem_cons_self)).with_right
        (P := fun db => ∀ other ∈ leases, db.job other.job.spec.jobId = some other.job)
        fun next hnext other hother => by
          obtain ⟨jobs, receipts, rfl, hwrite, -⟩ := ClaimLemmas.grantLease_ok hnext
          have hne : other.job.spec.jobId ≠ lease.job.spec.jobId := fun heq =>
            hnew (List.mem_map.mpr ⟨other, hother, heq⟩)
          rw [(ClaimLemmas.job_view hwrite.rows).2 _ hne]
          exact hjobs other (List.mem_cons_of_mem _ hother)
    exact hgrant.bind fun file db hdb => ih hdb.1 hdb.2 hrest

theorem advanceCursor_agrees (hcoerce : Settled coerce) (h : Stores file db) (queue : String)
    (lastLeased : Option String) :
    Agree Stores (advanceCursor coerce file queue lastLeased)
      (.ok (Minisqlite.advanceCursor db queue lastLeased)) := by
  cases lastLeased with
  | none => exact .ok h
  | some partition =>
    exact upsert_agrees (x := db.queueCursors) (r := ⟨queue, some partition⟩)
      (g := fun row => { row with lastPartitionKey := some partition }) hcoerce
      queueCursors_encoding h h.queueCursors (fun cursors => { db with queueCursors := cursors })
      (h.put StoreTable.queueCursors_mem) (fun _ => rfl) rfl (by decide) rfl (fun _ _ => rfl) rfl
      fun _ => rfl

end Writes

/-! ## 3. The transaction -/

/-- What a claim has staged, if anything. -/
inductive StoresClaim : Option StagedClaim → Option Minisqlite.StagedClaim → Prop
  | noop : StoresClaim none none
  | staged {file : Sql.Database} {db : Db} (stores : Stores file db) (transactionId : Id)
      (jobs : List ClaimedJob) :
    StoresClaim (some ⟨file, transactionId, jobs⟩) (some ⟨db, transactionId, jobs⟩)

section Transaction

variable {coerce : Affinity → Value → Value} {file : Sql.Database} {db : Db}

theorem insertClaimTransaction_agrees (hcoerce : Settled coerce) (h : Stores file db)
    (transactionId : Id) (request : ClaimRequest) (operationCount : Nat) :
    Agree (fun a b => Stores a.1 b)
      (insertTransaction coerce file (claimRow transactionId request operationCount))
      (insertClaimTransaction db transactionId request operationCount) := by
  have hinsert := insertTransaction_agrees (ε := Error) hcoerce h
    (claimRow transactionId request operationCount)
  unfold insertClaimTransaction
  generalize (insertTransaction coerce file _ : Except Error _) = x,
    (Minisqlite.insertTransaction db _ : Except Error _) = y at hinsert ⊢
  cases hinsert with
  | error e => exact .error e
  | ok hab => exact .ok hab.1

/-- The writes of a claim, for the plans that it has made. -/
theorem writeClaim_agrees (hcoerce : Settled coerce) (h : Stores file db) (request : ClaimRequest)
    (leaseExpiresAtMs : Int64) {entropy : Entropy} {plan : Minisqlite.LeasePlan}
    (hplan : Minisqlite.planLeases db request entropy = .ok plan) :
    Agree (fun a b => StoresClaim (some a) (some b))
      (writeClaim coerce file request leaseExpiresAtMs
        ((Minisqlite.planMaintenance db request).map loadedAction) (loadedPlan plan))
      (Minisqlite.writeClaim db request leaseExpiresAtMs (Minisqlite.planMaintenance db request)
        plan) := by
  have hcount : ((Minisqlite.planMaintenance db request).map loadedAction).length +
      (loadedPlan plan).leases.length =
      (Minisqlite.planMaintenance db request).length + plan.leases.length := by
    rw [loadedPlan, List.length_map, List.length_map]
  unfold writeClaim
  rw [hcount]
  refine .read fun drawn => ?_
  obtain ⟨transactionId, entropy'⟩ := drawn
  have hinsert := (insertClaimTransaction_agrees hcoerce h transactionId request
    ((Minisqlite.planMaintenance db request).length + plan.leases.length)).with_right
      (P := fun next => next.jobs = db.jobs) fun next hnext => by
        obtain ⟨transactions, sequence, rfl, -⟩ := insertClaimTransaction_ok hnext
        rfl
  refine hinsert.bind ?_
  rintro ⟨file, sequence⟩ db₁ ⟨h, hjobs⟩
  -- A repair touches no job that is going to be leased.
  have hrepairs := (applyAllMaintenance_agrees hcoerce h transactionId request.nowMs
    (Minisqlite.planMaintenance db request)).with_right
      (P := fun next => ∀ lease ∈ plan.leases, next.job lease.job.spec.jobId = some lease.job)
      fun next hnext lease hlease => by
        obtain ⟨-, -, hothers⟩ := ClaimLemmas.maintenance_ok
          (fun action haction => (planMaintenance_spec haction).2.2)
          (planMaintenance_nodup db request) hnext
        rw [hothers _ fun action haction => plans_apart hplan hlease haction, Db.job, hjobs]
        exact job_of_mem (partitionHead_spec (planLeases_head hplan hlease)).1
  refine hrepairs.bind fun file db₂ hdb₂ => ?_
  refine (grantLeases_agrees hcoerce transactionId request leaseExpiresAtMs hdb₂.1 hdb₂.2
    (planLeases_nodup hplan)).bind fun file db₃ h => ?_
  have hclaimed : (plan.leases.map loadedLease).map
      (ProposedLease.claimed request leaseExpiresAtMs) =
      plan.leases.map (Minisqlite.ProposedLease.claimed request leaseExpiresAtMs) :=
    List.map_map
  have hcursor := advanceCursor_agrees hcoerce h request.queue plan.lastLeased
  unfold loadedPlan
  rw [hclaimed]
  exact hcursor.bind (g := fun db => .ok (⟨db, transactionId,
    plan.leases.map (Minisqlite.ProposedLease.claimed request leaseExpiresAtMs)⟩ :
      Minisqlite.StagedClaim)) fun file db h => .ok (.staged h transactionId _)

/-- A claim up to its COMMIT. -/
theorem stageClaim_agrees [ColumnErrors] (hcoerce : Settled coerce) (h : Stores file db)
    (request : ClaimRequest) (entropy : Entropy) :
    Agree StoresClaim (stageClaim coerce file request entropy)
      (Minisqlite.stageClaim db request entropy) := by
  refine .read fun leaseExpiresAtMs => ?_
  refine .read_left (planMaintenance_stores h request) ?_
  have hplans := (planLeases_agrees h request entropy).with_right
    (P := fun plan => Minisqlite.planLeases db request entropy = .ok plan) fun _ hplan => hplan
  refine hplans.bind ?_
  rintro _ plan ⟨rfl, hplan⟩
  have hempty : ((Minisqlite.planMaintenance db request).map loadedAction).isEmpty ∧
      (loadedPlan plan).leases.isEmpty ↔
      Minisqlite.planMaintenance db request = [] ∧ plan.leases = [] := by
    rw [loadedPlan, List.isEmpty_map, List.isEmpty_map, List.isEmpty_iff, List.isEmpty_iff]
  by_cases hnone : Minisqlite.planMaintenance db request = [] ∧ plan.leases = []
  · rw [if_pos (hempty.mpr hnone), if_pos hnone]
    exact .ok .noop
  · rw [if_neg fun hboth => hnone (hempty.mp hboth), if_neg hnone]
    exact (writeClaim_agrees hcoerce h request leaseExpiresAtMs hplan).bind fun _ _ hab => .ok hab

end Transaction

end Minisqlite.TableWrites
