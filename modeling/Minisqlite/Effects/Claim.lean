import Minisqlite.Effects.Batch

/-!
# What a claim does

* `planMaintenance_spec`, `planLeases_spec`: what the two plans consist of.
* `planLeases_served`: which partitions are served, in what order.
* `ClaimPhases`, `stageClaim_phases`: the pipeline, phase by phase.
* `stageClaim_induction`: what every row write of a claim preserves, the claim
  preserves.
* `ClaimWrite`: everything that a claim writes. `ClaimChange` is its view of one
  job: kept, repaired because its lease expired, or leased because it is a
  ready partition head.
* `stageClaim_write`: the inversion. A claim that is ready to COMMIT has done
  this and nothing else.
-/

namespace Minisqlite

open Tables Runs

/-! ## The plans -/

/-- The SET clause of the repair of an expired lease. -/
def JobRow.repair (transactionId : Id) (nowMs : Int64) (job : JobRow) : JobUpdate :=
  if job.expiredTo = .dead then
    .terminal .dead nowMs transactionId none (some "lease expired at final attempt")
  else .nonterminal job.expiredTo none transactionId

/-- Where an expired lease can go. -/
theorem expiredTo_cases (job : JobRow) : job.expiredTo = .uncertain ∨
    job.expiredTo = .pending ∧ job.exhausted = false ∨
    job.expiredTo = .dead ∧ job.exhausted = true := by
  unfold JobRow.expiredTo
  cases job.spec.effectMode <;> cases job.exhausted <;> simp

theorem expiredIn_iff {queue : String} {nowMs : Int64} {job : JobRow} :
    job.expiredIn queue nowMs = true ↔ job.spec.queue = queue ∧ job.state = .leased ∧
      ∃ expiry, job.leaseExpiresAtMs = some expiry ∧ expiry < nowMs := by
  simp [JobRow.expiredIn, Option.any_eq_true, and_assoc]

theorem planMaintenance_spec {db : Db} {request : ClaimRequest} {action : MaintenanceAction}
    (h : action ∈ planMaintenance db request) : action.job ∈ db.jobs.rows ∧
      action.job.expiredIn request.queue request.nowMs = true ∧
      action.target = action.job.expiredTo := by
  obtain ⟨job, hjob, rfl⟩ := List.mem_map.mp h
  have hmem := List.mem_filter.mp ((List.mem_insertionSort _).mp (List.mem_of_mem_take hjob))
  exact ⟨hmem.1, hmem.2, rfl⟩

/-- No job is repaired twice. -/
theorem planMaintenance_nodup (db : Db) (request : ClaimRequest) :
    ((planMaintenance db request).map fun action => action.job.spec.jobId).Nodup := by
  simp only [planMaintenance, List.map_map, Function.comp_def]
  refine (((List.take_sublist _ _).map _).nodup ?_)
  refine ((List.perm_insertionSort _ _).map _).nodup_iff.mpr ?_
  exact (List.filter_sublist.map _).nodup (Table.nodup_keys jobs_unique db.jobs)

theorem activeIn_iff {queue partitionKey : String} {job : JobRow} :
    job.activeIn queue partitionKey = true ↔ job.spec.queue = queue ∧
      job.spec.partitionKey = partitionKey ∧ job.state.isTerminal = false := by
  simp [JobRow.activeIn, and_assoc]

/-- The head is the first nonterminal job of its partition. -/
theorem partitionHead_spec {db : Db} {queue partitionKey : String} {job : JobRow}
    (h : partitionHead db queue partitionKey = some job) :
    job ∈ db.jobs.rows ∧ job.activeIn queue partitionKey = true ∧
      ∀ other ∈ db.jobs.rows, other.activeIn queue partitionKey = true →
        job.enqueueSequence ≤ other.enqueueSequence := by
  let le : JobRow → JobRow → Prop := fun a b => a.enqueueSequence ≤ b.enqueueSequence
  have : Std.Total le := ⟨fun a b => Int64.le_total _ _⟩
  have : IsTrans JobRow le := ⟨fun a b c => Int64.le_trans⟩
  unfold partitionHead at h
  have hsorted := List.pairwise_insertionSort le
    (db.jobs.rows.filter (JobRow.activeIn queue partitionKey))
  have hperm := List.perm_insertionSort le
    (db.jobs.rows.filter (JobRow.activeIn queue partitionKey))
  obtain ⟨rest, hlist⟩ := List.head?_eq_some_iff.mp h
  rw [hlist] at hsorted hperm
  have hmem := List.mem_filter.mp (hperm.mem_iff.mp List.mem_cons_self)
  refine ⟨hmem.1, hmem.2, fun other hother hactive => ?_⟩
  rcases List.mem_cons.mp (hperm.mem_iff.mpr (List.mem_filter.mpr ⟨hother, hactive⟩)) with rfl | ho
  · exact Int64.le_refl _
  · exact (List.pairwise_cons.mp hsorted).1 other ho

/-- A ready job has no lease. -/
theorem state_of_ready {nowMs : Int64} {job : JobRow} (h : job.ready nowMs = true) :
    job.state = .pending ∨ job.state = .retryWait := by
  unfold JobRow.ready at h
  split at h
  · next hs => exact .inl hs
  · next hs => exact .inr hs
  · cases h

/-- A property of the plan that every grant keeps. -/
theorem leasePartitions_induction {db : Db} {request : ClaimRequest} {P : LeasePlan → Prop}
    (grant : ∀ plan partition job leaseToken entropy, P plan →
      plan.leases.length < request.limit →
      partitionHead db request.queue partition = some job → job.ready request.nowMs = true →
      Id.new plan.entropy = .ok (leaseToken, entropy) →
      P ⟨plan.leases ++ [⟨job, leaseToken⟩], some partition, entropy⟩)
    {partitions : List String} {plan plan' : LeasePlan}
    (h : leasePartitions db request partitions plan = .ok plan') (hP : P plan) : P plan' := by
  fun_induction leasePartitions db request partitions plan with
  | case1 plan => cases h; exact hP
  | case2 partition rest plan hfull => cases h; exact hP
  | case3 partition rest plan hfull hhead ih => exact ih h hP
  | case4 partition rest plan hfull job hhead hready ih =>
    obtain ⟨⟨leaseToken, entropy⟩, hnew, h⟩ := bind_ok h
    exact ih leaseToken entropy h
      (grant plan partition job leaseToken entropy hP (Nat.lt_of_not_le hfull) hhead hready hnew)
  | case5 partition rest plan hfull job hhead hready ih => exact ih h hP

theorem new_ok {entropy rest : Entropy} {id : Id} (h : Id.new entropy = .ok (id, rest)) :
    entropy.map Id.ofRandom = id :: rest.map Id.ofRandom := by
  cases entropy with
  | nil => cases h
  | cons bytes entropy => cases h; rfl

/-- Every lease of the plan is for a ready partition head, and the tokens are
what the generator delivered, in order. -/
theorem planLeases_spec {db : Db} {request : ClaimRequest} {entropy : Entropy} {plan : LeasePlan}
    (h : planLeases db request entropy = .ok plan) :
    (∀ lease ∈ plan.leases, lease.job.ready request.nowMs = true ∧
      ∃ partition, partitionHead db request.queue partition = some lease.job) ∧
    entropy.map Id.ofRandom =
      plan.leases.map ProposedLease.leaseToken ++ plan.entropy.map Id.ofRandom := by
  unfold planLeases at h
  split at h
  · cases h
    exact ⟨by simp, rfl⟩
  · refine leasePartitions_induction (P := fun plan =>
      (∀ lease ∈ plan.leases, lease.job.ready request.nowMs = true ∧
        ∃ partition, partitionHead db request.queue partition = some lease.job) ∧
      entropy.map Id.ofRandom =
        plan.leases.map ProposedLease.leaseToken ++ plan.entropy.map Id.ofRandom) ?_ h
      ⟨by simp, rfl⟩
    rintro plan partition job leaseToken rest ⟨hleases, hdrawn⟩ - hhead hready hnew
    refine ⟨fun lease hlease => ?_, ?_⟩
    · rcases List.mem_append.mp hlease with hlease | hlease
      · exact hleases lease hlease
      · obtain rfl := List.mem_singleton.mp hlease
        exact ⟨hready, partition, hhead⟩
    · simp [hdrawn, new_ok hnew]

/-- A lease of the plan is for the head of the partition of its job. -/
theorem planLeases_head {db : Db} {request : ClaimRequest} {entropy : Entropy} {plan : LeasePlan}
    (h : planLeases db request entropy = .ok plan) {lease : ProposedLease}
    (hlease : lease ∈ plan.leases) :
    partitionHead db request.queue lease.job.spec.partitionKey = some lease.job := by
  obtain ⟨-, partition, hhead⟩ := (planLeases_spec h).1 lease hlease
  rwa [(activeIn_iff.mp (partitionHead_spec hhead).2.1).2.1]

/-- The partition has a head that is ready. -/
def servable (db : Db) (request : ClaimRequest) (partition : String) : Bool :=
  (partitionHead db request.queue partition).any (JobRow.ready request.nowMs)

/-- The loop serves the servable partitions in the order in which it visits them,
up to the limit. -/
theorem leasePartitions_served {db : Db} {request : ClaimRequest} {partitions : List String}
    {plan plan' : LeasePlan} (h : leasePartitions db request partitions plan = .ok plan') :
    ∃ served, served = (partitions.filter (servable db request)).take
        (request.limit - plan.leases.length) ∧
      (plan'.leases.map fun lease => lease.job.spec.partitionKey) =
        (plan.leases.map fun lease => lease.job.spec.partitionKey) ++ served ∧
      plan'.lastLeased = served.getLast?.or plan.lastLeased := by
  refine ⟨_, rfl, ?_⟩
  fun_induction leasePartitions db request partitions plan with
  | case1 plan => cases h; simp
  | case2 partition rest plan hfull =>
    cases h
    simp [Nat.sub_eq_zero_of_le hfull]
  | case3 partition rest plan hfull hhead ih =>
    rw [List.filter_cons_of_neg (by simp [servable, hhead])]
    exact ih h
  | case4 partition rest plan hfull job hhead hready ih =>
    obtain ⟨⟨leaseToken, entropy⟩, hnew, h⟩ := bind_ok h
    obtain ⟨hleases, hlast⟩ := ih leaseToken entropy h
    have hkey := (activeIn_iff.mp (partitionHead_spec hhead).2.1).2.1
    have hroom : request.limit - plan.leases.length =
        request.limit - (plan.leases.length + 1) + 1 := by omega
    rw [List.filter_cons_of_pos (by simp [servable, hhead, hready]), hroom, List.take_succ_cons]
    rw [List.length_append, List.length_singleton] at hleases hlast
    constructor
    · rw [hleases]
      simp [hkey]
    · rw [hlast, List.getLast?_cons]
      cases ((rest.filter (servable db request)).take _).getLast? <;> rfl
  | case5 partition rest plan hfull job hhead hready ih =>
    rw [List.filter_cons_of_neg (by simp [servable, hhead, hready])]
    exact ih h

/-- A plan serves the servable partitions from the cursor on, up to the limit. -/
theorem planLeases_served {db : Db} {request : ClaimRequest} {entropy : Entropy} {plan : LeasePlan}
    (h : planLeases db request entropy = .ok plan) :
    ∃ served, served = ((partitionsFromCursor db request.queue).filter (servable db request)).take
        request.limit ∧
      (plan.leases.map fun lease => lease.job.spec.partitionKey) = served ∧
      plan.lastLeased = served.getLast? := by
  unfold planLeases at h
  split at h
  · next hzero =>
    cases h
    exact ⟨_, rfl, by simp [hzero], by simp [hzero]⟩
  · obtain ⟨served, hserved, hleases, hlast⟩ := leasePartitions_served h
    exact ⟨served, hserved, hleases, by simpa using hlast⟩

/-- The partitions of a queue, each once. -/
theorem partitionsFromCursor_perm (db : Db) (queue : String) :
    (partitionsFromCursor db queue).Perm
      ((db.activePartitions.rows.filter fun row => decide (row.queue = queue)).map
        ActivePartitionRow.partitionKey) := by
  unfold partitionsFromCursor
  refine List.perm_append_comm.trans ?_
  rw [List.take_append_drop]
  exact List.perm_insertionSort _ _

theorem partitionsFromCursor_length_le (db : Db) (queue : String) :
    (partitionsFromCursor db queue).length ≤ db.activePartitions.rows.length := by
  rw [(partitionsFromCursor_perm db queue).length_eq, List.length_map]
  exact List.length_filter_le _ _

theorem partitionsFromCursor_nodup (db : Db) (queue : String) :
    (partitionsFromCursor db queue).Nodup := by
  refine (partitionsFromCursor_perm db queue).nodup_iff.mpr ?_
  -- Within one queue the PRIMARY KEY is the partition.
  refine List.Nodup.of_map (fun partition => (queue, partition)) ?_
  have hkeys : (((db.activePartitions.rows.filter fun row => decide (row.queue = queue)).map
      ActivePartitionRow.partitionKey).map fun partition => (queue, partition)) =
      (db.activePartitions.rows.filter fun row => decide (row.queue = queue)).map
        fun row => (row.queue, row.partitionKey) := by
    rw [List.map_map]
    exact List.map_congr_left fun row hrow => by
      simp [← of_decide_eq_true (List.mem_filter.mp hrow).2]
  rw [hkeys]
  exact (List.filter_sublist.map _).nodup
    (Table.nodup_keys (Schema.keyed_unique _) db.activePartitions)

/-- A plan leases no partition twice, and so no job. -/
theorem planLeases_nodup {db : Db} {request : ClaimRequest} {entropy : Entropy} {plan : LeasePlan}
    (h : planLeases db request entropy = .ok plan) :
    (plan.leases.map fun lease => lease.job.spec.jobId).Nodup := by
  obtain ⟨served, rfl, hleases, -⟩ := planLeases_served h
  have hnodup : (plan.leases.map fun lease => lease.job.spec.partitionKey).Nodup := by
    rw [hleases]
    exact ((List.take_sublist _ _).trans List.filter_sublist).nodup
      (partitionsFromCursor_nodup db request.queue)
  refine List.Nodup.map_on (fun lease hlease lease' hlease' he => ?_) (List.Nodup.of_map _ hnodup)
  have hhead := partitionHead_spec (planLeases_head h hlease)
  have hhead' := partitionHead_spec (planLeases_head h hlease')
  have hjob := eq_of_found (job_of_mem hhead'.1) hhead.1 he
  exact List.inj_on_of_nodup_map hnodup hlease hlease' (by rw [hjob])

/-- The two plans are about different jobs: a repaired job was leased, and a leased
job is not ready. -/
theorem plans_apart {db : Db} {request : ClaimRequest} {entropy : Entropy} {plan : LeasePlan}
    (h : planLeases db request entropy = .ok plan) {lease : ProposedLease}
    (hlease : lease ∈ plan.leases) {action : MaintenanceAction}
    (haction : action ∈ planMaintenance db request) :
    action.job.spec.jobId ≠ lease.job.spec.jobId := by
  intro he
  obtain ⟨hmem, hexpired, -⟩ := planMaintenance_spec haction
  have hhead := partitionHead_spec (planLeases_head h hlease)
  rw [eq_of_found (job_of_mem hhead.1) hmem he] at hexpired
  have hstate := (expiredIn_iff.mp hexpired).2.1
  rcases state_of_ready ((planLeases_spec h).1 lease hlease).1 with hs | hs <;>
    rw [hs] at hstate <;> cases hstate

/-! ## The writes -/

/-- What a claim does to the stored row of the job `jobId`, if any. -/
inductive ClaimChange (db : Db) (request : ClaimRequest) (transactionId : Id) (expiryMs : Int64)
    (leases : List ProposedLease) (jobId : Id) : Option JobRow → Option JobRow → Prop
  | same (notLeased : ∀ lease ∈ leases, lease.job.spec.jobId ≠ jobId) (job : Option JobRow) :
      ClaimChange db request transactionId expiryMs leases jobId job job
  | repaired {job : JobRow} (notLeased : ∀ lease ∈ leases, lease.job.spec.jobId ≠ jobId)
      (expired : job.expiredIn request.queue request.nowMs = true) :
      ClaimChange db request transactionId expiryMs leases jobId (some job)
        (some ((job.repair transactionId request.nowMs).set job))
  | leased {lease : ProposedLease} {partitionKey : String} (granted : lease ∈ leases)
      (about : lease.job.spec.jobId = jobId)
      (head : partitionHead db request.queue partitionKey = some lease.job)
      (ready : lease.job.ready request.nowMs = true) :
      ClaimChange db request transactionId expiryMs leases jobId (some lease.job)
        (some ((JobUpdate.lease lease.leaseToken request.workerId expiryMs transactionId).set
          lease.job))

/-- The receipt that a claim inserts for a lease. -/
def ProposedLease.receipt (transactionId : Id) (request : ClaimRequest) (expiryMs : Int64)
    (lease : ProposedLease) : ClaimReceiptRow :=
  ⟨transactionId, lease.job.spec.jobId, lease.leaseToken, lease.job.attempt + 1, request.workerId,
    expiryMs⟩

/-- Everything that a claim writes. -/
structure ClaimWrite (db : Db) (request : ClaimRequest) (entropy : Entropy) (staged : StagedClaim)
    (leases : List ProposedLease) (expiryMs : Int64) : Prop where
  expiry : leaseExpiry request = .ok expiryMs
  jobs : staged.jobs = leases.map (ProposedLease.claimed request expiryMs)
  transactions : ∃ operationCount sequence,
    nextSequence (db.transactions.rows.map TransactionRow.transactionSequence) = some sequence ∧
    staged.db.transactions.rows = db.transactions.rows ++
      [claimRow staged.transactionId request operationCount sequence]
  free : ∀ r ∈ db.transactions.rows, r.transactionId ≠ staged.transactionId
  events : staged.db.events = db.events
  streams : staged.db.streams = db.streams
  projectionMeta : staged.db.projectionMeta = db.projectionMeta
  projectionEntries : staged.db.projectionEntries = db.projectionEntries
  receipts : staged.db.claimReceipts.rows = db.claimReceipts.rows ++
    leases.map (ProposedLease.receipt staged.transactionId request expiryMs)
  change : ∀ jobId, ClaimChange db request staged.transactionId expiryMs leases jobId
    (db.job jobId) (staged.db.job jobId)
  nodup : (leases.map fun lease => lease.job.spec.jobId).Nodup
  stored : ∀ lease ∈ leases, db.job lease.job.spec.jobId = some lease.job
  head : ∀ lease ∈ leases, ∃ partitionKey,
    partitionHead db request.queue partitionKey = some lease.job
  ready : ∀ lease ∈ leases, lease.job.ready request.nowMs = true
  drawn : ∃ rest, entropy.map Id.ofRandom =
    leases.map ProposedLease.leaseToken ++ staged.transactionId :: rest

/-! ## Inversion of the write phase -/

namespace ClaimLemmas

open EffectLemmas

variable {db db' : Db} {request : ClaimRequest} {tid : Id}

theorem applyMaintenance_ok {now : Int64} {action : MaintenanceAction}
    (htarget : action.target = action.job.expiredTo)
    (h : applyMaintenance tid now db action = .ok db') :
    RowOnly db db' action.job (action.job.repair tid now) := by
  obtain ⟨_, -, h⟩ := bind_ok h
  rw [JobRow.repair, ← htarget]
  split at h
  · next hdead =>
    rw [hdead, if_pos rfl]
    exact setTerminal_ok rfl h
  · next hdead =>
    rw [if_neg hdead]
    refine setNonterminal_ok ?_ h
    rw [htarget] at hdead ⊢
    rcases expiredTo_cases action.job with hto | ⟨hto, -⟩ | ⟨hto, -⟩
    · rw [hto]; rfl
    · rw [hto]; rfl
    · exact absurd hto hdead

theorem grantLease_ok {expiryMs : Int64} {lease : ProposedLease}
    (h : grantLease tid request expiryMs db lease = .ok db') :
    ∃ jobs receipts, db' = { db with jobs := jobs, claimReceipts := receipts } ∧
      RowWrite db db' lease.job
        (.lease lease.leaseToken request.workerId expiryMs tid) ∧
      receipts.rows = db.claimReceipts.rows ++ [lease.receipt tid request expiryMs] := by
  obtain ⟨_, hupdate, h⟩ := bind_ok h
  obtain ⟨jobs, rfl, hrows⟩ := updateJob_ok hupdate
  obtain ⟨_, -, h⟩ := bind_ok h
  obtain ⟨receipts, hinsert, h⟩ := bind_ok h
  cases h
  exact ⟨jobs, receipts, rfl, ⟨hrows, rfl⟩, (Table.insert_eq_some (execute_ok.mp hinsert)).1⟩

/-- A write of one job, as `foldlM_view` wants it. -/
theorem job_view {jobId : Id} {u : JobUpdate} (rows : db'.jobs.rows =
    db.jobs.rows.map fun row => if row.spec.jobId = jobId then u.set row else row) :
    db'.job jobId = (db.job jobId).map u.set ∧ ∀ id, id ≠ jobId → db'.job id = db.job id :=
  ⟨by rw [job_map rows, if_pos rfl], fun id hid => by rw [job_map rows, if_neg hid]⟩

/-- The maintenance phase repairs its jobs and touches no others. -/
theorem maintenance_ok {now : Int64} {actions : List MaintenanceAction}
    (target : ∀ action ∈ actions, action.target = action.job.expiredTo)
    (nodup : (actions.map fun action => action.job.spec.jobId).Nodup)
    (h : actions.foldlM (applyMaintenance tid now) db = .ok db') :
    (∃ jobs parts, db' = { db with jobs := jobs, activePartitions := parts }) ∧
      (∀ action ∈ actions, db'.job action.job.spec.jobId =
        (db.job action.job.spec.jobId).map (action.job.repair tid now).set) ∧
      ∀ id, (∀ action ∈ actions, action.job.spec.jobId ≠ id) → db'.job id = db.job id := by
  refine ⟨?_, ?_⟩
  · refine foldlM_induction (P := fun d => ∃ jobs parts,
      d = { db with jobs := jobs, activePartitions := parts }) ?_ h ⟨_, _, rfl⟩
    rintro _ t action haction ⟨jobs, parts, rfl⟩ hstep
    obtain ⟨-, jobs', parts', rfl⟩ := applyMaintenance_ok (target action haction) hstep
    exact ⟨jobs', parts', rfl⟩
  · obtain ⟨hself, hother⟩ := foldlM_view Db.job
      (fun action : MaintenanceAction => action.job.spec.jobId)
      (fun action before after => after = before.map (action.job.repair tid now).set)
      (fun s t action haction hstep => by
        exact job_view (applyMaintenance_ok (target action haction) hstep).1.rows) nodup h
    exact ⟨hself, fun id hid => hother id (by simpa using hid)⟩

/-- The leasing phase writes the job and a receipt of each of its leases. -/
theorem leases_ok {expiryMs : Int64} {leases : List ProposedLease}
    (h : leases.foldlM (grantLease tid request expiryMs) db = .ok db') :
    (∃ jobs receipts, db' = { db with jobs := jobs, claimReceipts := receipts }) ∧
      db'.claimReceipts.rows =
        db.claimReceipts.rows ++ leases.map (ProposedLease.receipt tid request expiryMs) ∧
      (leases.map fun lease => lease.job.spec.jobId).Nodup ∧
      (∀ lease ∈ leases, db'.job lease.job.spec.jobId = (db.job lease.job.spec.jobId).map
        (JobUpdate.lease lease.leaseToken request.workerId expiryMs tid).set) ∧
      ∀ id, (∀ lease ∈ leases, lease.job.spec.jobId ≠ id) → db'.job id = db.job id := by
  have hreceipts : db'.claimReceipts.rows =
      db.claimReceipts.rows ++ leases.map (ProposedLease.receipt tid request expiryMs) := by
    rw [foldlM_appends (fun d : Db => d.claimReceipts.rows)
      (fun lease => [lease.receipt tid request expiryMs]) ?_ h, List.map_eq_flatMap]
    intro s t lease _ hstep
    obtain ⟨jobs, receipts, rfl, -, hrows⟩ := grantLease_ok hstep
    exact hrows
  -- The receipts of one claim have one transaction id, so their PRIMARY KEY
  -- keeps the jobs apart.
  have hnodup : (leases.map fun lease => lease.job.spec.jobId).Nodup := by
    have hkeys := Table.nodup_keys (Schema.keyed_unique _) db'.claimReceipts
    rw [hreceipts, List.map_append, List.map_map] at hkeys
    refine List.Nodup.of_map (fun jobId => (tid, jobId)) ?_
    rw [List.map_map]
    exact (List.nodup_append.mp hkeys).2.1
  refine ⟨?_, hreceipts, hnodup, ?_⟩
  · refine foldlM_induction (P := fun d => ∃ jobs receipts,
      d = { db with jobs := jobs, claimReceipts := receipts }) ?_ h ⟨_, _, rfl⟩
    rintro _ t lease - ⟨jobs, receipts, rfl⟩ hstep
    obtain ⟨jobs', receipts', rfl, -⟩ := grantLease_ok hstep
    exact ⟨jobs', receipts', rfl⟩
  · obtain ⟨hself, hother⟩ := foldlM_view Db.job
      (fun lease : ProposedLease => lease.job.spec.jobId)
      (fun lease before after => after = before.map
        (JobUpdate.lease lease.leaseToken request.workerId expiryMs tid).set)
      (fun s t lease _ hstep => by
        obtain ⟨_, _, -, hwrite, -⟩ := grantLease_ok hstep
        exact job_view hwrite.rows) hnodup h
    exact ⟨hself, fun id hid => hother id (by simpa using hid)⟩

end ClaimLemmas

open ClaimLemmas

/-! ## The pipeline -/

/-- A staged claim, phase by phase: `db₁` has its transaction, `db₂` the repairs
and `db₃` the leases. -/
structure ClaimPhases (db : Db) (request : ClaimRequest) (entropy : Entropy)
    (staged : StagedClaim) (expiryMs : Int64) (plan : LeasePlan) (db₁ db₂ db₃ : Db) : Prop where
  expiry : leaseExpiry request = .ok expiryMs
  planned : planLeases db request entropy = .ok plan
  drawn : ∃ rest, Id.new plan.entropy = .ok (staged.transactionId, rest)
  transaction : insertClaimTransaction db staged.transactionId request
    ((planMaintenance db request).length + plan.leases.length) = .ok db₁
  maintenance : (planMaintenance db request).foldlM
    (applyMaintenance staged.transactionId request.nowMs) db₁ = .ok db₂
  leasing : plan.leases.foldlM (grantLease staged.transactionId request expiryMs) db₂ = .ok db₃
  result : staged.db = advanceCursor db₃ request.queue plan.lastLeased
  jobs : staged.jobs = plan.leases.map (ProposedLease.claimed request expiryMs)

theorem stageClaim_phases {db : Db} {request : ClaimRequest} {entropy : Entropy}
    {staged : StagedClaim} (h : stageClaim db request entropy = .ok (some staged)) :
    ∃ expiryMs plan db₁ db₂ db₃,
      ClaimPhases db request entropy staged expiryMs plan db₁ db₂ db₃ := by
  obtain ⟨expiryMs, hexpiry, h⟩ := bind_ok h
  obtain ⟨plan, hplan, h⟩ := bind_ok h
  split at h
  · cases h
  obtain ⟨staged', hwrite, h⟩ := bind_ok h
  cases h
  obtain ⟨⟨tid, rest⟩, hnew, h⟩ := bind_ok hwrite
  obtain ⟨db₁, hinsert, h⟩ := bind_ok h
  obtain ⟨db₂, hmaintenance, h⟩ := bind_ok h
  obtain ⟨db₃, hleases, h⟩ := bind_ok h
  cases h
  exact ⟨expiryMs, plan, db₁, db₂, db₃, hexpiry, hplan, ⟨rest, hnew⟩, hinsert, hmaintenance,
    hleases, rfl, rfl⟩

theorem insertClaimTransaction_ok {db db₁ : Db} {tid : Id} {request : ClaimRequest}
    {operationCount : Nat} (h : insertClaimTransaction db tid request operationCount = .ok db₁) :
    ∃ transactions sequence, db₁ = { db with transactions := transactions } ∧
      nextSequence (db.transactions.rows.map TransactionRow.transactionSequence) = some sequence ∧
      transactions.rows = db.transactions.rows ++ [claimRow tid request operationCount sequence] ∧
      ∀ r ∈ db.transactions.rows, r.transactionId ≠ tid := by
  obtain ⟨⟨_, sequence⟩, hinsert, h⟩ := bind_ok h
  cases h
  obtain ⟨transactions, rfl, hseq, hrows, hfree⟩ := insertTransaction_ok hinsert
  exact ⟨transactions, sequence, rfl, hseq, hrows, hfree⟩

theorem advanceCursor_cursors (db : Db) (queue : String) (lastLeased : Option String) :
    ∃ cursors, advanceCursor db queue lastLeased = { db with queueCursors := cursors } := by
  cases lastLeased <;> exact ⟨_, rfl⟩

namespace ClaimPhases

variable {db db₁ db₂ db₃ : Db} {request : ClaimRequest} {entropy : Entropy} {staged : StagedClaim}
  {expiryMs : Int64} {plan : LeasePlan}

theorem maintenance_repairs (h : ClaimPhases db request entropy staged expiryMs plan db₁ db₂ db₃) :
    (∃ jobs parts, db₂ = { db₁ with jobs := jobs, activePartitions := parts }) ∧
      (∀ action ∈ planMaintenance db request, db₂.job action.job.spec.jobId =
        (db₁.job action.job.spec.jobId).map
          (action.job.repair staged.transactionId request.nowMs).set) ∧
      ∀ id, (∀ action ∈ planMaintenance db request, action.job.spec.jobId ≠ id) →
        db₂.job id = db₁.job id :=
  maintenance_ok (fun _ haction => (planMaintenance_spec haction).2.2) (planMaintenance_nodup _ _)
    h.maintenance

theorem stored (h : ClaimPhases db request entropy staged expiryMs plan db₁ db₂ db₃)
    {lease : ProposedLease} (hlease : lease ∈ plan.leases) :
    db.job lease.job.spec.jobId = some lease.job :=
  job_of_mem (partitionHead_spec (planLeases_head h.planned hlease)).1

/-- The repairs leave the jobs alone that are going to be leased. -/
theorem unrepaired (h : ClaimPhases db request entropy staged expiryMs plan db₁ db₂ db₃)
    {lease : ProposedLease} (hlease : lease ∈ plan.leases) :
    db₂.job lease.job.spec.jobId = some lease.job := by
  obtain ⟨transactions, _, rfl, -⟩ := insertClaimTransaction_ok h.transaction
  rw [h.maintenance_repairs.2.2 _ fun _ haction => plans_apart h.planned hlease haction,
    ← h.stored hlease]
  rfl

/-- What every row write of a claim preserves, the claim preserves: the other
writes are to other tables. Each job is written in the state in which the plan
found it. -/
theorem induction (h : ClaimPhases db request entropy staged expiryMs plan db₁ db₂ db₃)
    {P : Db → Prop}
    (frame : ∀ d d', d'.jobs = d.jobs → d'.activePartitions = d.activePartitions → P d → P d')
    (repair : ∀ d d' job, d.job job.spec.jobId = some job →
      job.expiredIn request.queue request.nowMs = true →
      RowWrite d d' job (job.repair staged.transactionId request.nowMs) → P d → P d')
    (lease : ∀ d d' lease, lease ∈ plan.leases → d.job lease.job.spec.jobId = some lease.job →
      RowWrite d d' lease.job (.lease lease.leaseToken request.workerId expiryMs
        staged.transactionId) → P d → P d')
    (hdb : P db) : P staged.db := by
  obtain ⟨transactions, _, hdb₁, -⟩ := insertClaimTransaction_ok h.transaction
  have htarget : ∀ action ∈ planMaintenance db request, action.target = action.job.expiredTo :=
    fun _ haction => (planMaintenance_spec haction).2.2
  have h₁ : P db₁ := frame db db₁ (by rw [hdb₁]) (by rw [hdb₁]) hdb
  have h₂ : P db₂ := by
    refine foldlM_passes (fun pre action post t u hxs hpre hpass hP => ?_) h.maintenance h₁
    have hmem : ∀ a ∈ pre ++ [action], a ∈ planMaintenance db request := fun a ha => by
      rw [hxs]
      simp only [List.mem_append, List.mem_cons, List.not_mem_nil, or_false] at ha ⊢
      tauto
    have hnodup := planMaintenance_nodup db request
    rw [hxs, List.map_append, List.map_cons] at hnodup
    obtain ⟨hpreNodup, -, hapart⟩ := List.nodup_append.mp hnodup
    obtain ⟨hstored, hexpired, -⟩ := planMaintenance_spec (hmem action (by simp))
    refine repair t u action.job ?_ hexpired
      (applyMaintenance_ok (htarget action (hmem action (by simp))) hpass).1 hP
    -- The repairs before this one were of other jobs.
    rw [(maintenance_ok (fun a ha => htarget a (hmem a (by simp [ha]))) hpreNodup hpre).2.2,
      ← job_of_mem hstored, hdb₁]
    · rfl
    · exact fun a ha he => hapart _ (List.mem_map_of_mem ha) _ List.mem_cons_self he
  have h₃ : P db₃ := by
    refine foldlM_passes (fun pre l post t u hxs hpre hpass hP => ?_) h.leasing h₂
    have hnodup := (leases_ok h.leasing).2.2.1
    rw [hxs, List.map_append, List.map_cons] at hnodup
    obtain ⟨-, -, hapart⟩ := List.nodup_append.mp hnodup
    have hl : l ∈ plan.leases := by simp [hxs]
    obtain ⟨_, _, -, hwrite, -⟩ := grantLease_ok hpass
    refine lease t u l hl ?_ hwrite hP
    rw [(leases_ok hpre).2.2.2.2, h.unrepaired hl]
    exact fun a ha he => hapart _ (List.mem_map_of_mem ha) _ List.mem_cons_self he
  obtain ⟨cursors, hcursors⟩ := advanceCursor_cursors db₃ request.queue plan.lastLeased
  rw [h.result, hcursors]
  exact frame db₃ _ rfl rfl h₃

/-- The view of one job. -/
theorem change (h : ClaimPhases db request entropy staged expiryMs plan db₁ db₂ db₃) (jobId : Id) :
    ClaimChange db request staged.transactionId expiryMs plan.leases jobId (db.job jobId)
      (staged.db.job jobId) := by
  obtain ⟨cursors, hcursors⟩ := advanceCursor_cursors db₃ request.queue plan.lastLeased
  obtain ⟨-, -, -, hleased, hkept₃⟩ := leases_ok h.leasing
  rw [h.result, hcursors]
  show ClaimChange _ _ _ _ _ _ _ (db₃.job jobId)
  by_cases hlease : ∃ lease ∈ plan.leases, lease.job.spec.jobId = jobId
  · obtain ⟨lease, hlease, rfl⟩ := hlease
    obtain ⟨hready, partition, hhead⟩ := (planLeases_spec h.planned).1 lease hlease
    rw [hleased lease hlease, h.unrepaired hlease, h.stored hlease]
    exact .leased hlease rfl hhead hready
  · have hlease : ∀ lease ∈ plan.leases, lease.job.spec.jobId ≠ jobId := by
      simpa only [not_exists, not_and] using hlease
    obtain ⟨-, hrepaired, hkept₂⟩ := h.maintenance_repairs
    obtain ⟨transactions, _, rfl, -⟩ := insertClaimTransaction_ok h.transaction
    rw [hkept₃ jobId hlease]
    by_cases haction : ∃ action ∈ planMaintenance db request, action.job.spec.jobId = jobId
    · obtain ⟨action, haction, rfl⟩ := haction
      obtain ⟨hmem, hexpired, -⟩ := planMaintenance_spec haction
      rw [hrepaired action haction]
      show ClaimChange _ _ _ _ _ _ (db.job _) ((db.job _).map _)
      rw [job_of_mem hmem]
      exact .repaired hlease hexpired
    · rw [hkept₂ jobId (by simpa only [not_exists, not_and] using haction)]
      exact .same hlease _

theorem write (h : ClaimPhases db request entropy staged expiryMs plan db₁ db₂ db₃) :
    ClaimWrite db request entropy staged plan.leases expiryMs := by
  obtain ⟨transactions, sequence, hdb₁, hseq, hrows, hfree⟩ :=
    insertClaimTransaction_ok h.transaction
  obtain ⟨⟨jobs₂, parts₂, hdb₂⟩, -⟩ := h.maintenance_repairs
  obtain ⟨⟨jobs₃, receipts₃, hdb₃⟩, hreceipts, hnodup, -⟩ := leases_ok h.leasing
  obtain ⟨hspec, hdrawn⟩ := planLeases_spec h.planned
  obtain ⟨cursors, hcursors⟩ := advanceCursor_cursors db₃ request.queue plan.lastLeased
  have hdb : staged.db = { db₃ with queueCursors := cursors } := h.result.trans hcursors
  constructor
  case expiry => exact h.expiry
  case jobs => exact h.jobs
  case transactions => exact ⟨_, sequence, hseq, by rw [hdb, hdb₃, hdb₂, hdb₁, hrows]⟩
  case free => exact hfree
  case receipts => rw [hdb, hreceipts, hdb₂, hdb₁]
  case nodup => exact hnodup
  case stored => exact fun lease hlease => h.stored hlease
  case head => exact fun lease hlease => (hspec lease hlease).2
  case ready => exact fun lease hlease => (hspec lease hlease).1
  case drawn =>
    obtain ⟨rest, hnew⟩ := h.drawn
    exact ⟨rest.map Id.ofRandom, by rw [hdrawn, new_ok hnew]⟩
  case change => exact h.change
  all_goals rw [hdb, hdb₃, hdb₂, hdb₁]

end ClaimPhases

/-- A staged claim has written its two plans. -/
theorem stageClaim_write {db : Db} {request : ClaimRequest} {entropy : Entropy}
    {staged : StagedClaim} (h : stageClaim db request entropy = .ok (some staged)) :
    ∃ leases expiryMs, ClaimWrite db request entropy staged leases expiryMs := by
  obtain ⟨expiryMs, plan, _, _, _, hphases⟩ := stageClaim_phases h
  exact ⟨plan.leases, expiryMs, hphases.write⟩

/-- The repair of a job takes its lease away. -/
theorem repair_leaseToken (job : JobRow) (tid : Id) (now : Int64) :
    ((job.repair tid now).set job).leaseToken = none := by
  unfold JobRow.repair
  split <;> rfl

theorem repair_state (job : JobRow) (tid : Id) (now : Int64) :
    ((job.repair tid now).set job).state = job.expiredTo := by
  unfold JobRow.repair
  split
  · next hdead => exact hdead.symm
  · rfl

theorem repair_not_leased (job : JobRow) (tid : Id) (now : Int64) :
    ((job.repair tid now).set job).state ≠ .leased := by
  rw [repair_state]
  rcases expiredTo_cases job with h | ⟨h, -⟩ | ⟨h, -⟩ <;> simp [h]

section Granted

variable {db : Db} {request : ClaimRequest} {entropy : Entropy} {staged : StagedClaim}
  {leases : List ProposedLease} {expiryMs : Int64}

theorem ClaimWrite.token_drawn (h : ClaimWrite db request entropy staged leases expiryMs)
    {lease : ProposedLease} (hlease : lease ∈ leases) :
    lease.leaseToken ∈ entropy.map Id.ofRandom := by
  obtain ⟨rest, hdrawn⟩ := h.drawn
  rw [hdrawn]
  exact List.mem_append_left _ (List.mem_map_of_mem hlease)

theorem ClaimWrite.id_drawn (h : ClaimWrite db request entropy staged leases expiryMs) :
    staged.transactionId ∈ entropy.map Id.ofRandom := by
  obtain ⟨rest, hdrawn⟩ := h.drawn
  rw [hdrawn]
  exact List.mem_append_right _ List.mem_cons_self

/-- A granted lease is on its job's row. -/
theorem ClaimWrite.granted (h : ClaimWrite db request entropy staged leases expiryMs)
    {lease : ProposedLease} (hlease : lease ∈ leases) : staged.db.job lease.job.spec.jobId = some
      ((JobUpdate.lease lease.leaseToken request.workerId expiryMs staged.transactionId).set
        lease.job) := by
  have hchange := h.change lease.job.spec.jobId
  generalize db.job lease.job.spec.jobId = before, hafter : staged.db.job _ = after at hchange ⊢
  cases hchange with
  | same notLeased => exact absurd rfl (notLeased lease hlease)
  | repaired notLeased => exact absurd rfl (notLeased lease hlease)
  | leased hmem about => rw [List.inj_on_of_nodup_map h.nodup hmem hlease about]

example : (controlPlane.after [Sample.enqueue .requiresReconciliation,
    Sample.claim 20 5 .done]).db.job Sample.jobId =
      some { Sample.spec .requiresReconciliation |>.row 1 (.ofU128 10) with
        state := .leased, attempt := 1, leaseToken := some (.ofU128 20), workerId := some "worker",
        leaseExpiresAtMs := some 105, updatedTransactionId := .ofU128 21 } := by decide

end Granted

end Minisqlite
