import Minisqlite.Statements.Rows

/-!
# The statements of the jobs

Each function of `store/jobs.rs` that a batch or a lease extension runs agrees with the typed
one, as `setTerminal_agrees`, `applyEnqueue_agrees` and so on. The guards read a job as
`rowToLoadedJob` decodes it, which keeps all that they look at (`loaded`).
-/

namespace Minisqlite.TableWrites

open Sql Tables TableReads Runs Migrations Migrations.UpgradeLemmas

/-! ## 1. Rows -/

/-- What is read of a stored job. -/
def loaded (job : JobRow) : LoadedJob := ⟨job.info, job.leaseToken⟩

theorem rowToLoadedJob_storedJob [ColumnErrors] (job : JobRow) :
    rowToLoadedJob (jobColumns.map (jobsV2Table.value (storedJob job))) = .ok (loaded job) := by
  have hinfo : rowToJob (jobColumns.map (jobsV2Table.value (storedJob job))) = .ok job.info :=
    rowToJob_storedJob job
  have htoken : Row.get (jobColumns.map (jobsV2Table.value (storedJob job))) 11
      (getOption getVec) = .ok (job.leaseToken.map Id.bytes) :=
    get_ok (getOption_ofId job.leaseToken)
  unfold rowToLoadedJob
  rw [bind_of_ok hinfo, bind_of_ok htoken, bind_of_ok (mapM_idFromBlob job.leaseToken)]
  rfl

section Conditions

variable {row : String → Value}

/-- Two columns of texts. -/
theorem eval_texts {column other s t s' t' : String} (h : row column = textValue s)
    (hother : row other = textValue t) :
    (bothAre column other (ofString s') (ofString t')).eval row =
      some (decide (s = s') && decide (t = t')) :=
  Condition.eval_and (eval_text h) (eval_text hother)

theorem eval_active {state : JobState} (h : row "state" = .integer (encodeState state)) :
    stateIsActive.eval row = some !state.isTerminal := by
  refine (Condition.eval_or (Condition.eval_or (Condition.eval_or (eval_state h) (eval_state h))
    (eval_state h)) (eval_state h)).trans ?_
  cases state <;> rfl

/-- The jobs that keep a partition active. -/
theorem selects_activeIn (queue partitionKey : String) (job : JobRow) :
    Condition.selects (jobsV2Table.value (storedJob job))
      (.and (bothAre "queue" "partition_key" (ofString queue) (ofString partitionKey))
        stateIsActive) = job.activeIn queue partitionKey := by
  have hqueue : jobsV2Table.value (storedJob job) "queue" = textValue job.spec.queue := rfl
  have hpartition : jobsV2Table.value (storedJob job) "partition_key" =
    textValue job.spec.partitionKey := rfl
  have hstate : jobsV2Table.value (storedJob job) "state" = .integer (encodeState job.state) := rfl
  exact Condition.selects_eq
    (Condition.eval_and (eval_texts hqueue hpartition) (eval_active hstate))

end Conditions

section Reads

variable {ε : Type} [FromStorage ε] {file : Sql.Database} {db : Db}

theorem loadJob_stores [ColumnErrors] (h : Stores file db) (jobId : Id) :
    (loadJob file jobId : Except ε (Option LoadedJob)) = .ok ((db.job jobId).map loaded) := by
  have hid : ∀ job : JobRow, jobsV2Table.value (storedJob job) "job_id" = idValue job.spec.jobId :=
    fun _ => rfl
  unfold loadJob
  exact fetch_ok (queryRow_ok h.jobs.source
    (fun job _ => Condition.selects_eq (eval_id (hid job)))
    fun job _ => rowToLoadedJob_storedJob job)

theorem requireJob_agrees [ColumnErrors] (h : Stores file db) (jobId : Id) :
    Agree (fun a b => a = loaded b) (requireJob file jobId) (Minisqlite.requireJob db jobId) := by
  unfold requireJob Minisqlite.requireJob
  rw [loadJob_stores h]
  cases db.job jobId with
  | none => exact .error _
  | some job => exact .ok rfl

end Reads

/-! ## 2. SET clauses -/

section Sets

variable (job : JobRow)

theorem assigned_terminal (state : JobState) (nowMs : Int64) (transactionId : Id)
    (resultDigest : Option Bytes) (errorSummary : Option String) :
    jobsV2Table.assigned (terminalSet state nowMs transactionId resultDigest errorSummary)
        (jobsV2Table.value (storedJob job)) (storedJob job) =
      storedJob
        ((JobUpdate.terminal state nowMs transactionId resultDigest errorSummary).set job) := by
  cases resultDigest <;> cases errorSummary <;> rfl

theorem assigned_nonterminal (state : JobState) (retryAfterMs : Option Int64)
    (transactionId : Id) :
    jobsV2Table.assigned (nonterminalSet state retryAfterMs transactionId)
        (jobsV2Table.value (storedJob job)) (storedJob job) =
      storedJob ((JobUpdate.nonterminal state retryAfterMs transactionId).set job) := rfl

/-- The clause of a grant writes the attempt that was planned. -/
theorem assigned_lease (leaseToken : Id) (workerId : String) (leaseExpiresAtMs : Int64)
    (transactionId : Id) :
    jobsV2Table.assigned
        (leaseSet leaseToken workerId leaseExpiresAtMs (job.attempt + 1) transactionId)
        (jobsV2Table.value (storedJob job)) (storedJob job) =
      storedJob ((JobUpdate.lease leaseToken workerId leaseExpiresAtMs transactionId).set job) :=
  rfl

end Sets

/-! ## 3. Writes -/

section Writes

variable {coerce : Affinity → Value → Value} {file : Sql.Database} {db : Db}

/-- An UPDATE of one job. -/
theorem updateJobs_agrees {ε : Type} [FromStorage ε] (hcoerce : Settled coerce)
    (h : Stores file db) {set : Assignments} {u : JobUpdate} {jobId : Id}
    (hcolumns : set.map Prod.fst ⊆ jobsV2Table.names)
    (hset : ∀ job ∈ db.jobs.rows, job.spec.jobId = jobId →
      jobsV2Table.assigned set (jobsV2Table.value (storedJob job)) (storedJob job) =
        storedJob (u.set job))
    (hlinked : (set.any fun assignment => currentSchema.linked "jobs" assignment.1) = false) :
    Agree Stores (updateJobs coerce set jobId file : Except ε Sql.Database)
      (updateJob db jobId u) := by
  have hid : ∀ job : JobRow, jobsV2Table.value (storedJob job) "job_id" = idValue job.spec.jobId :=
    fun _ => rfl
  exact update_agrees (t := .jobs) hcoerce h StoreTable.jobs_mem u.keeps hcolumns
    (fun job _ => Condition.selects_eq (eval_id (hid job)))
    (fun job hjob hq => hset job hjob (of_decide_eq_true hq)) hlinked

theorem drainPartitionIfEmpty_agrees (h : Stores file db) (queue partitionKey : String) :
    Agree Stores (drainPartitionIfEmpty coerce file queue partitionKey)
      (.ok (Minisqlite.drainPartitionIfEmpty db queue partitionKey)) := by
  have hqueue : ∀ row, activePartitionsTable.value (storedActivePartition row) "queue" =
    textValue row.queue := fun _ => rfl
  have hpartition : ∀ row, activePartitionsTable.value (storedActivePartition row)
    "partition_key" = textValue row.partitionKey := fun _ => rfl
  have hfound := h.jobs.hasRow
    fun job _ => selects_activeIn queue partitionKey job
  refine delete_agrees (t := .activePartitions) h StoreTable.activePartitions_mem hfound
    (fun row _ => ?_) rfl
  exact congrArg (· && _)
    (Condition.selects_eq (eval_texts (hqueue row) (hpartition row)))

theorem setTerminal_agrees (hcoerce : Settled coerce) (h : Stores file db) (job : JobRow)
    (state : JobState) (nowMs : Int64) (transactionId : Id) (resultDigest : Option Bytes)
    (errorSummary : Option String) :
    Agree Stores
      (setTerminal coerce file (loaded job) state nowMs transactionId resultDigest errorSummary)
      (Minisqlite.setTerminal db job state nowMs transactionId resultDigest errorSummary) := by
  refine (updateJobs_agrees hcoerce h (of_decide_eq_true rfl)
    (fun job _ _ => assigned_terminal job state nowMs transactionId resultDigest errorSummary)
    rfl).bind fun file db h => ?_
  exact drainPartitionIfEmpty_agrees h job.spec.queue job.spec.partitionKey

theorem setNonterminal_agrees (hcoerce : Settled coerce) (h : Stores file db) (jobId : Id)
    (state : JobState) (retryAfterMs : Option Int64) (transactionId : Id) :
    Agree Stores (setNonterminal coerce file jobId state retryAfterMs transactionId)
      (Minisqlite.setNonterminal db jobId state retryAfterMs transactionId) :=
  updateJobs_agrees hcoerce h (of_decide_eq_true rfl)
    (fun job _ _ => assigned_nonterminal job state retryAfterMs transactionId) rfl

end Writes

/-! ## 4. Guards -/

section Guards

variable (job : JobRow)

theorem ensureTransition_loaded (target : JobState) :
    ensureTransition (loaded job) target = Minisqlite.ensureTransition job target := rfl

theorem ensureLeaseToken_loaded (token : Id) :
    ensureLeaseToken (loaded job) token = Minisqlite.ensureLeaseToken job token := rfl

theorem ensureCancellable_loaded (token : Option Id) :
    ensureCancellable (loaded job) token = Minisqlite.ensureCancellable job token := by
  cases token <;> rfl

theorem exhausted_loaded : (loaded job).exhausted = job.exhausted := rfl

end Guards

/-! ## 5. The operations of a batch -/

section Operations

variable {coerce : Affinity → Value → Value} {file : Sql.Database} {db : Db}

theorem insertJob_agrees (hcoerce : Settled coerce) (h : Stores file db) (spec : JobSpec)
    (sequence : Int64) (transactionId : Id) :
    Agree Stores
      (executeSql coerce
        (.insert "jobs" enqueuedColumns (enqueuedValues spec sequence transactionId)) file)
      (execute (db.requireTransaction transactionId) >>= fun _ =>
        execute (db.jobs.insert (spec.row sequence transactionId)) >>= fun jobs =>
          (.ok { db with jobs := jobs } : Except Error Db)) :=
  insert_child_agrees (t := .jobs) (r := spec.row sequence transactionId) hcoerce h
    StoreTable.jobs_mem (by decide) (by cases spec with | mk => rfl)
    (refers_transaction_stores h rfl (by decide) rfl)

theorem insertActivePartition_agrees (hcoerce : Settled coerce) (h : Stores file db)
    (spec : JobSpec) (sequence : Int64) :
    Agree Stores
      (executeSql coerce
        (.insertOrIgnore "active_partitions" ["queue", "partition_key", "first_active_sequence"]
          [textValue spec.queue, textValue spec.partitionKey, .integer sequence]) file)
      (.ok { db with
        activePartitions := db.activePartitions.insertOrIgnore
          ⟨spec.queue, spec.partitionKey, sequence⟩ } : Except Error Db) :=
  insertOrIgnore_agrees (t := .activePartitions) (r := ⟨spec.queue, spec.partitionKey, sequence⟩)
    hcoerce h StoreTable.activePartitions_mem (by decide) rfl fun _ => rfl

theorem applyEnqueue_agrees [ColumnErrors] (hcoerce : Settled coerce) (h : Stores file db)
    (transactionId : Id) (spec : JobSpec) :
    Agree Stores (applyEnqueue coerce file transactionId spec)
      (Minisqlite.applyEnqueue db transactionId spec) := by
  unfold applyEnqueue Minisqlite.applyEnqueue
  rw [loadJob_stores h]
  cases db.job spec.jobId with
  | some _ => exact .error _
  | none =>
    have hsequence : (nextOf file "jobs" "enqueue_sequence" : Except Error Int64) =
        execute (nextSequence (db.jobs.rows.map JobRow.enqueueSequence)) :=
      nextOf_stores h StoreTable.jobs_mem fun _ => rfl
    show Agree Stores (nextOf file "jobs" "enqueue_sequence" >>= _) _
    rw [hsequence]
    refine .read fun sequence => ?_
    refine Eq.mp (congrArg (Agree Stores _) ?_)
      ((insertJob_agrees hcoerce h spec sequence transactionId).bind
        fun file db h => insertActivePartition_agrees hcoerce h spec sequence)
    cases db.requireTransaction transactionId with
    | none => rfl
    | some _ => cases db.jobs.insert (spec.row sequence transactionId) <;> rfl

theorem applyAck_agrees [ColumnErrors] (hcoerce : Settled coerce) (h : Stores file db)
    (transactionId : Id) (nowMs : Int64) (ack : JobAck) :
    Agree Stores (applyAck coerce file transactionId nowMs ack)
      (Minisqlite.applyAck db transactionId nowMs ack) := by
  refine (requireJob_agrees h ack.jobId).bind ?_
  rintro _ job rfl
  rw [ensureTransition_loaded, ensureLeaseToken_loaded]
  exact .read fun _ => .read fun _ => setTerminal_agrees hcoerce h job _ _ _ _ _

theorem applyFail_agrees [ColumnErrors] (hcoerce : Settled coerce) (h : Stores file db)
    (transactionId : Id) (nowMs : Int64) (failure : JobFailure) :
    Agree Stores (applyFail coerce file transactionId nowMs failure)
      (Minisqlite.applyFail db transactionId nowMs failure) := by
  refine (requireJob_agrees h failure.jobId).bind ?_
  rintro _ job rfl
  rw [ensureTransition_loaded, ensureLeaseToken_loaded, exhausted_loaded]
  refine .read fun _ => .read fun _ => .ite (setTerminal_agrees hcoerce h job _ _ _ _ _) ?_
  refine .read fun retryAfterMs => ?_
  refine (setNonterminal_agrees hcoerce h job.spec.jobId _ _ _).bind fun file db h => ?_
  exact updateJobs_agrees hcoerce h (of_decide_eq_true rfl) (fun _ _ _ => rfl) rfl

theorem applyCancel_agrees [ColumnErrors] (hcoerce : Settled coerce) (h : Stores file db)
    (transactionId : Id) (nowMs : Int64) (cancellation : JobCancellation) :
    Agree Stores (applyCancel coerce file transactionId nowMs cancellation)
      (Minisqlite.applyCancel db transactionId nowMs cancellation) := by
  refine (requireJob_agrees h cancellation.jobId).bind ?_
  rintro _ job rfl
  rw [ensureTransition_loaded, ensureCancellable_loaded]
  exact .read fun _ => .read fun _ => setTerminal_agrees hcoerce h job _ _ _ _ _

theorem applyResolve_agrees [ColumnErrors] (hcoerce : Settled coerce) (h : Stores file db)
    (transactionId : Id) (nowMs : Int64) (resolution : JobResolution) :
    Agree Stores (applyResolve coerce file transactionId nowMs resolution)
      (Minisqlite.applyResolve db transactionId nowMs resolution) := by
  refine (requireJob_agrees h resolution.jobId).bind ?_
  rintro _ job rfl
  have hterminal : ∀ state errorSummary, Agree Stores
      (setTerminal coerce file (loaded job) state nowMs transactionId none errorSummary)
      (Minisqlite.setTerminal db job state nowMs transactionId none errorSummary) :=
    fun state errorSummary => setTerminal_agrees hcoerce h job state nowMs transactionId none
      errorSummary
  cases resolution.resolution with
  | retry =>
    refine .ite (.read fun _ => hterminal _ _) (.read fun _ => ?_)
    exact setNonterminal_agrees hcoerce h job.spec.jobId _ _ _
  | markSucceeded => exact .read fun _ => hterminal _ _
  | markDead => exact .read fun _ => hterminal _ _

/-- A new expiry in the receipts of a claim. -/
theorem updateReceipts_agrees (hcoerce : Settled coerce) (h : Stores file db)
    (extension : LeaseExtension) :
    Agree Stores
      (executeSql coerce
        (.update "claim_receipts" [("lease_expires_at_ms", .plain (ofI64 extension.newExpiryMs))]
          (bothAre "job_id" "lease_token" (ofId extension.jobId) (ofId extension.leaseToken)))
        file)
      (execute (db.claimReceipts.update
        (fun r => decide (r.jobId = extension.jobId) &&
          decide (r.leaseToken = extension.leaseToken))
        (fun r => { r with leaseExpiresAtMs := extension.newExpiryMs })
        (Schema.keyed_keeps fun _ => rfl)) >>= fun claimReceipts =>
          (.ok { db with claimReceipts := claimReceipts } : Except LeaseError Db)) := by
  have hjob : ∀ row, claimReceiptsTable.value (storedClaimReceipt row) "job_id" =
    idValue row.jobId := fun _ => rfl
  have htoken : ∀ row, claimReceiptsTable.value (storedClaimReceipt row) "lease_token" =
    idValue row.leaseToken := fun _ => rfl
  exact update_agrees (t := .claimReceipts)
    (g := fun r => { r with leaseExpiresAtMs := extension.newExpiryMs }) hcoerce h
    StoreTable.claimReceipts_mem (Schema.keyed_keeps fun _ => rfl) (of_decide_eq_true rfl)
    (fun row _ => Condition.selects_eq (Condition.eval_and (eval_id (hjob row))
      (eval_id (htoken row))))
    (fun _ _ _ => rfl) rfl

/-- A new expiry in the row of the job, and in the receipt of its claim. -/
theorem applyExtendLease_agrees [ColumnErrors] (hcoerce : Settled coerce) (h : Stores file db)
    (extension : LeaseExtension) (nowMs : Int64) :
    Agree (fun a b => Stores a.1 b.1 ∧ a.2 = b.2)
      (applyExtendLease coerce file extension nowMs)
      (Minisqlite.applyExtendLease db extension nowMs) := by
  unfold applyExtendLease Minisqlite.applyExtendLease
  dsimp only
  rw [loadJob_stores h]
  cases db.job extension.jobId with
  | none => exact .error _
  | some job =>
    show Agree _ (ite _ _ _) _
    refine .ite (.error _) (.ite (.error _) (.ite (.error _) (.ite (.error _) ?_)))
    refine (updateJobs_agrees hcoerce h (u := .expiry extension.newExpiryMs)
      (of_decide_eq_true rfl) (fun _ _ _ => rfl) rfl).bind fun file db h => ?_
    refine Eq.mp (congrArg (Agree _ _) ?_) ((updateReceipts_agrees hcoerce h extension).bind
      (g := fun db => .ok (db, ⟨extension.jobId, job.attempt, extension.newExpiryMs⟩))
      fun file db h => .ok ⟨h, rfl⟩)
    rw [bind_assoc]
    rfl

end Operations

end Minisqlite.TableWrites
