import Mathlib.Data.List.Dedup
import Mathlib.Data.List.Find
import Minisqlite.Claims
import Minisqlite.Effects.ClaimRows
import Minisqlite.Fairness

/-!
# The reference scheduler

What `claim_jobs` is for, said with the jobs table and the cursor of the queue alone:
there is no partition index in it, no search for the cursor and no loop that stops
early.

1. `Scheduler`: the reference. `Scheduler.leases` are the jobs that a claim grants,
   `Scheduler.Repairs` the expired leases that it repairs, `Scheduler.row` what
   becomes of a job.
2. `leases_eq`: the plan of the store serves the same jobs in the same order. The index
   lists every partition with a head, and a round has only one order.
3. `claim_refines_scheduler`: a claim does what the reference says.
-/

namespace Minisqlite

open Tables Runs RoundRobin

/-! ## The reference -/

namespace Scheduler

/-- The nonterminal job of the partition that was enqueued first. -/
def head (jobs : List JobRow) (queue partition : String) : Option JobRow :=
  let active := jobs.filter fun job => decide (job.spec.queue = queue ∧
    job.spec.partitionKey = partition ∧ job.state.isTerminal = false)
  active.find? fun job =>
    active.all fun other => decide (job.enqueueSequence ≤ other.enqueueSequence)

/-- The job may be leased at `nowMs`. -/
def isReady (nowMs : Int64) (job : JobRow) : Bool :=
  decide (job.spec.notBeforeMs ≤ nowMs) &&
    (decide (job.state = .pending) ||
      decide (job.state = .retryWait) && job.retryAfterMs.any fun ms => decide (ms ≤ nowMs))

/-- The partitions of the queue in bytewise cyclic order, those after the cursor first. -/
def partitions (jobs : List JobRow) (queue : String) (cursor : Option String) : List String :=
  let keys := (jobs.filter fun job => decide (job.spec.queue = queue)).map (·.spec.partitionKey)
  let sorted := keys.dedup.insertionSort fun a b => utf8 a ≤ utf8 b
  let passed := fun p => cursor.any fun c => decide (utf8 p ≤ utf8 c)
  sorted.filter (fun p => !passed p) ++ sorted.filter passed

/-- The heads that are ready, in the order of their partitions. -/
def readyHeads (jobs : List JobRow) (request : ClaimRequest) (cursor : Option String) :
    List JobRow :=
  (partitions jobs request.queue cursor).filterMap fun partition =>
    (head jobs request.queue partition).filter (isReady request.nowMs)

/-- The jobs that the claim leases. -/
def leases (jobs : List JobRow) (request : ClaimRequest) (cursor : Option String) : List JobRow :=
  (readyHeads jobs request cursor).take request.limit

/-- The leases of the queue that are over. -/
def expired (jobs : List JobRow) (request : ClaimRequest) : List JobRow :=
  jobs.filter (JobRow.expiredIn request.queue request.nowMs)

/-- The claim repairs at most 64 expired leases, and those that expired first. -/
structure Repairs (jobs : List JobRow) (request : ClaimRequest) (repaired : List JobRow) :
    Prop where
  nodup : repaired.Nodup
  expired : ∀ job ∈ repaired, job ∈ expired jobs request
  count : repaired.length = min 64 (Scheduler.expired jobs request).length
  first : ∀ job ∈ repaired, ∀ other ∈ Scheduler.expired jobs request, other ∉ repaired →
    ∀ a b, job.leaseExpiresAtMs = some a → other.leaseExpiresAtMs = some b → a ≤ b

/-- Where a repair takes a job. -/
def target (job : JobRow) : JobState :=
  if job.spec.effectMode = .requiresReconciliation then .uncertain
  else if job.attempt ≥ job.spec.maxAttempts then .dead
  else .pending

section Rows

variable (request : ClaimRequest) (transactionId : Id)

/-- The repaired job. -/
def repair (job : JobRow) : JobRow :=
  { job with
    state := target job
    leaseToken := none
    workerId := none
    leaseExpiresAtMs := none
    retryAfterMs := none
    terminalAtMs := if target job = .dead then some request.nowMs else job.terminalAtMs
    errorSummary :=
      if target job = .dead then some "lease expired at final attempt" else job.errorSummary
    updatedTransactionId := transactionId }

/-- The leased job. -/
def grant (leaseToken : Id) (job : JobRow) : JobRow :=
  { job with
    state := .leased
    attempt := job.attempt + 1
    leaseToken := some leaseToken
    workerId := some request.workerId
    leaseExpiresAtMs := some (request.nowMs + request.leaseMs)
    retryAfterMs := none
    updatedTransactionId := transactionId }

/-- What becomes of a job, for the repaired jobs and the leased ones with their tokens. -/
def row (repaired : List JobRow) (grants : List (JobRow × Id)) (job : JobRow) : JobRow :=
  match grants.find? fun g => decide (g.1 = job) with
  | some g => grant request transactionId g.2 job
  | none => if job ∈ repaired then repair request transactionId job else job

/-- What the worker gets for a lease. -/
def claimed (g : JobRow × Id) : ClaimedJob where
  jobId := g.1.spec.jobId
  queue := g.1.spec.queue
  partitionKey := g.1.spec.partitionKey
  payload := g.1.spec.payload
  workerId := request.workerId
  leaseToken := g.2
  attempt := g.1.attempt + 1
  leaseExpiresAtMs := request.nowMs + request.leaseMs
  idempotencyKey := g.1.spec.idempotencyKey

/-- The answer of the claim. -/
def outcome (repaired : List JobRow) (grants : List (JobRow × Id)) : ClaimOutcome :=
  if repaired = [] ∧ grants = [] then .noop
  else if grants = [] then .maintenanceCommitted ⟨transactionId⟩
  else .committed ⟨transactionId, grants.map (claimed request), []⟩

end Rows

/-- A claim that finds `db`, leaves `db'` and answers with `answer` does what the
reference says, for the repaired jobs and the leased ones with their tokens. -/
structure Conforms (db : Db) (request : ClaimRequest) (entropy : Entropy) (db' : Db)
    (answer : Except ClaimError ClaimOutcome) (repaired : List JobRow)
    (grants : List (JobRow × Id)) (transactionId : Id) : Prop where
  repairs : Repairs db.jobs.rows request repaired
  leases : grants.map Prod.fst = leases db.jobs.rows request (db.cursor request.queue)
  fresh : grants.map Prod.snd ++ [transactionId] <+: entropy.map Id.ofRandom
  answer : answer = .ok (outcome request transactionId repaired grants)
  rows : db'.jobs.rows = db.jobs.rows.map (row request transactionId repaired grants)
  cursor : ∀ queue, db'.cursor queue =
    if queue = request.queue then
      ((grants.map Prod.fst).getLast?.map (·.spec.partitionKey)).or (db.cursor queue)
    else db.cursor queue

end Scheduler

namespace SchedulerLemmas

open ClaimLemmas ClaimTotalLemmas FairnessLemmas

variable {db : Db} {request : ClaimRequest} {entropy : Entropy} {plan : LeasePlan}

/-! ## Heads -/

theorem head_eq (db : Db) (queue partition : String) :
    Scheduler.head db.jobs.rows queue partition = partitionHead db queue partition := by
  have hfilter : (db.jobs.rows.filter fun job => decide (job.spec.queue = queue ∧
      job.spec.partitionKey = partition ∧ job.state.isTerminal = false)) =
        db.jobs.rows.filter (JobRow.activeIn queue partition) :=
    List.filter_congr fun job _ => by
      rw [Bool.eq_iff_iff, decide_eq_true_iff, activeIn_iff]
  unfold Scheduler.head
  rw [hfilter]
  cases hhead : partitionHead db queue partition with
  | none =>
    have hperm := List.perm_insertionSort
      (fun a b : JobRow => a.enqueueSequence ≤ b.enqueueSequence)
      (db.jobs.rows.filter (JobRow.activeIn queue partition))
    rw [List.head?_eq_none_iff.mp hhead] at hperm
    rw [hperm.symm.eq_nil]
    rfl
  | some job =>
    obtain ⟨hjob, hactive, hfirst⟩ := partitionHead_spec hhead
    have hmem := List.mem_filter.mpr ⟨hjob, hactive⟩
    cases hfind : (db.jobs.rows.filter (JobRow.activeIn queue partition)).find? fun job =>
        (db.jobs.rows.filter (JobRow.activeIn queue partition)).all fun other =>
          decide (job.enqueueSequence ≤ other.enqueueSequence) with
    | none =>
      refine absurd (List.all_eq_true.mpr fun other hother => ?_)
        (List.find?_eq_none.mp hfind job hmem)
      obtain ⟨hother, hactive'⟩ := List.mem_filter.mp hother
      exact decide_eq_true (hfirst other hother hactive')
    | some other =>
      obtain ⟨hother, hactive'⟩ := List.mem_filter.mp (List.mem_of_find?_eq_some hfind)
      have hall := List.find?_some hfind
      have hle := List.all_eq_true.mp hall job hmem
      exact congrArg some (Table.eq_of_key jobs_unique_sequence db.jobs hother hjob
        (Int64.le_antisymm (of_decide_eq_true hle) (hfirst other hother hactive')))

/-- A job that waits for a retry has a retry time. -/
theorem isReady_eq {job : JobRow} (hjob : job ∈ db.jobs.rows) (nowMs : Int64) :
    Scheduler.isReady nowMs job = job.ready nowMs := by
  have hretry := (TotalLemmas.check_iff.mp (db.jobs.checked job hjob)).2.2.2.1
  unfold Scheduler.isReady JobRow.ready
  cases hstate : job.state with
  | retryWait =>
    obtain ⟨ms, hms⟩ := Option.isSome_iff_exists.mp (hretry hstate)
    simp [hms]
  | _ => simp

/-- The head of a partition, if it is ready. -/
def readyHead (db : Db) (request : ClaimRequest) (partition : String) : Option JobRow :=
  (partitionHead db request.queue partition).filter (JobRow.ready request.nowMs)

theorem readyHead_eq (db : Db) (request : ClaimRequest) (partition : String) :
    (Scheduler.head db.jobs.rows request.queue partition).filter
      (Scheduler.isReady request.nowMs) = readyHead db request partition := by
  unfold readyHead
  rw [head_eq]
  cases hhead : partitionHead db request.queue partition with
  | none => rfl
  | some job =>
    rw [Option.filter_some, Option.filter_some, isReady_eq (partitionHead_spec hhead).1]

theorem readyHead_isSome (db : Db) (request : ClaimRequest) (partition : String) :
    (readyHead db request partition).isSome = servable db request partition := by
  unfold readyHead servable
  cases partitionHead db request.queue partition with
  | none => rfl
  | some job => cases hready : job.ready request.nowMs <;> simp [Option.filter_some, hready]

/-! ## The round -/

theorem mem_partitions {jobs : List JobRow} {queue p : String} {cursor : Option String} :
    p ∈ Scheduler.partitions jobs queue cursor ↔
      ∃ job ∈ jobs, job.spec.queue = queue ∧ job.spec.partitionKey = p := by
  unfold Scheduler.partitions
  simp only [List.mem_append, List.mem_filter, List.mem_insertionSort, List.mem_dedup, List.mem_map,
    decide_eq_true_eq, ← and_or_left, Bool.not_eq_true', Bool.eq_false_or_eq_true_self, and_true,
    and_assoc]

theorem partitions_nodup (jobs : List JobRow) (queue : String) (cursor : Option String) :
    (Scheduler.partitions jobs queue cursor).Nodup := by
  unfold Scheduler.partitions
  refine (List.perm_append_comm.trans (List.filter_append_perm _ _)).nodup_iff.mpr ?_
  exact (List.perm_insertionSort _ _).nodup_iff.mpr (List.nodup_dedup _)

theorem partitions_before (jobs : List JobRow) (queue : String) (cursor : Option String) :
    (Scheduler.partitions jobs queue cursor).Pairwise
      fun a b => Before (cursor.map utf8) (utf8 a) (utf8 b) := by
  let le : String → String → Prop := fun a b => utf8 a ≤ utf8 b
  have : Std.Total le := ⟨fun a b => Std.le_total⟩
  have : IsTrans String le := ⟨fun a b c => Std.le_trans⟩
  refine round_before (cursor.map utf8) _ ?_ fun p => ?_
  · exact ((List.pairwise_insertionSort le _).and
      ((List.perm_insertionSort le _).nodup_iff.mpr (List.nodup_dedup _))).imp
      fun {a b} h => Std.lt_of_le_of_ne h.1 fun he => h.2 (utf8_inj he)
  · simp [Passed, Option.any_eq_true]

/-- The store and the reference visit the partitions that can be served in one order. -/
theorem visited_eq (h : Indexed db) (request : ClaimRequest) :
    (partitionsFromCursor db request.queue).filter (servable db request) =
      (Scheduler.partitions db.jobs.rows request.queue (db.cursor request.queue)).filter
        (servable db request) := by
  refine round_unique ((visited_before db request.queue).filter _)
    ((partitions_before _ _ _).filter _) ?_
  refine (List.perm_ext_iff_of_nodup ((partitionsFromCursor_nodup db request.queue).filter _)
    ((partitions_nodup _ _ _).filter _)).mpr fun p => ?_
  simp only [List.mem_filter]
  refine and_congr_left fun hserved => iff_of_true (visited_of_servable h hserved) ?_
  obtain ⟨job, hhead, -⟩ := Option.any_eq_true _ _ |>.mp hserved
  obtain ⟨hjob, hactive, -⟩ := partitionHead_spec hhead
  obtain ⟨hqueue, hpartition, -⟩ := activeIn_iff.mp hactive
  exact mem_partitions.mpr ⟨job, hjob, hqueue, hpartition⟩

/-! ## Leases -/

theorem take_filterMap {α β : Type} {f : α → Option β} {xs : List α}
    (h : ∀ a ∈ xs, (f a).isSome = true) (n : Nat) :
    (xs.take n).filterMap f = (xs.filterMap f).take n := by
  induction xs generalizing n with
  | nil => simp
  | cons a xs ih =>
    obtain ⟨b, hb⟩ := Option.isSome_iff_exists.mp (h a List.mem_cons_self)
    cases n with
    | zero => simp
    | succ n =>
      rw [List.take_succ_cons, List.filterMap_cons_some hb, List.filterMap_cons_some hb,
        List.take_succ_cons, ih fun c hc => h c (List.mem_cons_of_mem _ hc)]

/-- The heads of the partitions that a plan serves are the leases of the reference. -/
theorem leases_eq (hindexed : Indexed db) (hplan : planLeases db request entropy = .ok plan) :
    plan.leases.map ProposedLease.job =
      Scheduler.leases db.jobs.rows request (db.cursor request.queue) := by
  obtain ⟨served, hserved, hkeys, -⟩ := planLeases_served hplan
  rw [visited_eq hindexed] at hserved
  have hleases : plan.leases.map ProposedLease.job = served.filterMap (readyHead db request) := by
    rw [← hkeys, List.filterMap_map, ← List.filterMap_eq_map]
    refine List.filterMap_congr fun lease hlease => ?_
    rw [Function.comp_apply, Function.comp_apply, readyHead, planLeases_head hplan hlease,
      Option.filter_some, if_pos ((planLeases_spec hplan).1 lease hlease).1]
  rw [hleases, hserved, take_filterMap fun p hp => ?_]
  · rw [List.filterMap_filter, Scheduler.leases, Scheduler.readyHeads]
    simp only [readyHead_eq]
    refine congrArg (List.take request.limit) (List.filterMap_congr fun p _ => ?_)
    rw [← readyHead_isSome]
    cases readyHead db request p <;> rfl
  · rw [readyHead_isSome]
    exact (List.mem_filter.mp hp).2

/-- The last partition that a plan serves is that of the last lease. -/
theorem lastLeased_eq (hplan : planLeases db request entropy = .ok plan) :
    plan.lastLeased = (plan.leases.map ProposedLease.job).getLast?.map (·.spec.partitionKey) := by
  obtain ⟨served, -, hkeys, hlast⟩ := planLeases_served hplan
  rw [hlast, ← hkeys, List.getLast?_map, List.getLast?_map, Option.map_map]
  rfl

/-! ## Repairs -/

theorem repairs_planned (db : Db) (request : ClaimRequest) :
    Scheduler.Repairs db.jobs.rows request (repairedJobs db request) := by
  let le : JobRow → JobRow → Prop := fun a b =>
    a.leaseExpiresAtMs.getD Int64.minValue ≤ b.leaseExpiresAtMs.getD Int64.minValue
  have : Std.Total le := ⟨fun a b => Int64.le_total _ _⟩
  have : IsTrans JobRow le := ⟨fun a b c => Int64.le_trans⟩
  have hrepaired : repairedJobs db request =
      ((Scheduler.expired db.jobs.rows request).insertionSort le).take 64 := by
    simp [repairedJobs, planMaintenance, Function.comp_def, maintenanceLimit, Scheduler.expired, le]
  have hperm := List.perm_insertionSort le (Scheduler.expired db.jobs.rows request)
  have hsorted := List.pairwise_insertionSort le (Scheduler.expired db.jobs.rows request)
  rw [hrepaired]
  refine ⟨?_, fun job hjob => hperm.mem_iff.mp (List.mem_of_mem_take hjob), ?_, ?_⟩
  · refine List.Nodup.of_map (fun job => job.spec.jobId) ?_
    rw [← hrepaired, repairedJobs, List.map_map]
    exact planMaintenance_nodup db request
  · rw [List.length_take, hperm.length_eq]
  · intro job hjob other hother hnot a b ha hb
    rw [← List.take_append_drop 64 ((Scheduler.expired db.jobs.rows request).insertionSort le)]
      at hsorted hperm
    have hdrop := (List.mem_append.mp (hperm.mem_iff.mpr hother)).resolve_left hnot
    have hle := (List.pairwise_append.mp hsorted).2.2 job hjob other hdrop
    simpa [le, ha, hb] using hle

/-! ## Rows -/

theorem target_eq (job : JobRow) : Scheduler.target job = job.expiredTo := by
  unfold Scheduler.target JobRow.expiredTo JobRow.exhausted
  cases job.spec.effectMode <;> simp

theorem repair_eq (request : ClaimRequest) (tid : Id) (job : JobRow) :
    Scheduler.repair request tid job = (job.repair tid request.nowMs).set job := by
  unfold Scheduler.repair JobRow.repair
  rw [target_eq]
  split
  · next hdead =>
    rw [hdead]
    rfl
  · rfl

/-- The leases of a plan, with their tokens. -/
def grantsOf (plan : LeasePlan) : List (JobRow × Id) :=
  plan.leases.map fun lease => (lease.job, lease.leaseToken)

theorem row_eq {tid : Id} {expiryMs : Int64} (hexpiry : expiryMs = request.nowMs + request.leaseMs)
    (hplan : planLeases db request entropy = .ok plan) {job : JobRow} (hjob : job ∈ db.jobs.rows) :
    claimedRow tid request expiryMs (repairedJobs db request) plan.leases job =
      Scheduler.row request tid (repairedJobs db request) (grantsOf plan) job := by
  have hsame : ∀ other ∈ db.jobs.rows, other.spec.jobId = job.spec.jobId ↔ other = job :=
    fun other hother => ⟨Table.eq_of_key jobs_unique db.jobs hother hjob, fun he => he ▸ rfl⟩
  have hfind : ((grantsOf plan).find? fun g => decide (g.1 = job)) =
      (plan.leases.find? fun lease => decide (lease.job.spec.jobId = job.spec.jobId)).map
        fun lease => (lease.job, lease.leaseToken) := by
    rw [grantsOf, List.find?_map]
    refine congrArg _ (List.find?_congr fun lease hlease => ?_)
    rw [Function.comp_apply,
      decide_eq_decide.mpr (hsame _ (partitionHead_spec (planLeases_head hplan hlease)).1)]
  have hrepaired : (repairedJobs db request).any (fun other => decide (other.spec.jobId =
      job.spec.jobId)) = true ↔ job ∈ repairedJobs db request := by
    simp only [List.any_eq_true, decide_eq_true_eq]
    constructor
    · rintro ⟨other, hother, hid⟩
      obtain ⟨action, haction, rfl⟩ := List.mem_map.mp hother
      rwa [← (hsame _ (planMaintenance_spec haction).1).mp hid]
    · exact fun hmem => ⟨job, hmem, rfl⟩
  unfold claimedRow Scheduler.row
  rw [hfind]
  cases plan.leases.find? fun lease => decide (lease.job.spec.jobId = job.spec.jobId) with
  | some lease =>
    subst hexpiry
    rfl
  | none =>
    simp only [Option.map_none, hrepaired, repair_eq]

/-- There is nothing to write. -/
theorem idle_iff : repairedJobs db request = [] ∧ grantsOf plan = [] ↔
    planMaintenance db request = [] ∧ plan.leases = [] :=
  and_congr List.map_eq_nil_iff List.map_eq_nil_iff

/-! ## Claims -/

/-- What a plan hands out, in the order in which it was drawn. -/
theorem drawn_of_plan (hplan : planLeases db request entropy = .ok plan) {tid : Id}
    {rest : Entropy} (hnew : Id.new plan.entropy = .ok (tid, rest)) :
    (grantsOf plan).map Prod.snd ++ [tid] <+: entropy.map Id.ofRandom := by
  refine ⟨rest.map Id.ofRandom, ?_⟩
  rw [(planLeases_spec hplan).2, new_ok hnew]
  simp [grantsOf, Function.comp_def]

theorem conforms_of_noop (hindexed : Indexed db) (hplan : planLeases db request entropy = .ok plan)
    {tid : Id} {rest : Entropy} (hnew : Id.new plan.entropy = .ok (tid, rest))
    (hnone : planMaintenance db request = [] ∧ plan.leases = []) :
    Scheduler.Conforms db request entropy db (.ok .noop) (repairedJobs db request)
      (grantsOf plan) tid where
  repairs := repairs_planned db request
  leases := by rw [← leases_eq hindexed hplan, grantsOf, List.map_map]; rfl
  fresh := drawn_of_plan hplan hnew
  answer := by rw [Scheduler.outcome, if_pos (idle_iff.mpr hnone)]
  rows := by
    obtain ⟨hrepaired, hgrants⟩ := idle_iff.mpr hnone
    rw [hrepaired, hgrants]
    exact (List.map_id _).symm
  cursor queue := by
    rw [(idle_iff.mpr hnone).2]
    simp

theorem conforms_of_staged {db₁ db₂ db₃ : Db} {staged : StagedClaim} {expiryMs : Int64}
    (hindexed : Indexed db) (hexpiry : expiryMs = request.nowMs + request.leaseMs)
    (hnone : ¬ (planMaintenance db request = [] ∧ plan.leases = []))
    (h : ClaimPhases db request entropy staged expiryMs plan db₁ db₂ db₃) :
    Scheduler.Conforms db request entropy staged.db (.ok (ControlPlaneStore.claimOutcome staged))
      (repairedJobs db request) (grantsOf plan) staged.transactionId where
  repairs := repairs_planned db request
  leases := by rw [← leases_eq hindexed h.planned, grantsOf, List.map_map]; rfl
  fresh := by
    obtain ⟨rest, hnew⟩ := h.drawn
    exact drawn_of_plan h.planned hnew
  answer := by
    have hjobs : staged.jobs = (grantsOf plan).map (Scheduler.claimed request) := by
      rw [h.jobs, grantsOf, List.map_map, hexpiry]
      rfl
    rw [Scheduler.outcome, if_neg (mt idle_iff.mp hnone), ControlPlaneStore.claimOutcome, hjobs]
    cases grantsOf plan <;> rfl
  rows := by
    rw [h.rows]
    exact List.map_congr_left fun job hjob => row_eq hexpiry h.planned hjob
  cursor queue := by
    obtain ⟨transactions, _, rfl, -⟩ := insertClaimTransaction_ok h.transaction
    obtain ⟨⟨jobs, parts, rfl⟩, -⟩ := h.maintenance_repairs
    obtain ⟨⟨jobs, receipts, rfl⟩, -⟩ := leases_ok h.leasing
    rw [h.result, advanceCursor_cursor, lastLeased_eq h.planned, grantsOf, List.map_map]
    simp only [eq_comm (a := request.queue)]
    rfl

end SchedulerLemmas

open SchedulerLemmas ClaimTotalLemmas

/-- A claim is the reference scheduler's. In every reachable state a valid claim with new
ids leases the jobs that the reference does, each under the next token, and repairs
expired leases as it says. Of the other jobs it changes none; the cursor of its queue
becomes the last partition that it granted, and the other cursors stay. -/
theorem claim_refines_scheduler (calls : List Call) (request : ClaimRequest) (entropy : Entropy)
    (hfile : (controlPlane.after calls).db.WithinFileLimit) (hvalid : request.Valid)
    (hentropy : FreshEntropy (controlPlane.after calls).db request entropy) :
    ∃ repaired grants tid, Scheduler.Conforms (controlPlane.after calls).db request entropy
      ((controlPlane.after calls).claimJobs request entropy .done).1.db
      ((controlPlane.after calls).claimJobs request entropy .done).2 repaired grants tid := by
  have hindexed := indexed_after calls
  obtain ⟨staged, hstage⟩ := stageClaim_valid hfile hvalid hentropy
  unfold ControlPlaneStore.claimJobs
  rw [hstage]
  cases staged with
  | none =>
    obtain ⟨plan, hplan, hleft⟩ := planLeases_total hentropy.enough
    obtain ⟨bytes, rest, hdraw⟩ := List.exists_cons_of_length_pos hleft
    have hnew : Id.new plan.entropy = .ok (Id.ofRandom bytes, rest) := by rw [hdraw]; rfl
    exact ⟨_, _, _, conforms_of_noop hindexed hplan hnew (stageClaim_noop hplan hstage)⟩
  | some staged =>
    obtain ⟨expiryMs, plan, db₁, db₂, db₃, hphases⟩ := stageClaim_phases hstage
    refine ⟨_, _, _, conforms_of_staged hindexed (leaseExpiry_eq hphases.expiry) ?_ hphases⟩
    exact stageClaim_some hphases.planned hstage

/-- The queue has one ready head, in the partition "alice". -/
theorem claim_refines_scheduler_sample : ∃ repaired grants tid,
    Scheduler.Conforms (controlPlane.after [Sample.enqueue .requiresReconciliation]).db
      ⟨"mail", "worker", 5, 100, 1⟩ [.ofU128 20, .ofU128 21]
      ((controlPlane.after [Sample.enqueue .requiresReconciliation]).claimJobs
        ⟨"mail", "worker", 5, 100, 1⟩ [.ofU128 20, .ofU128 21] .done).1.db
      ((controlPlane.after [Sample.enqueue .requiresReconciliation]).claimJobs
        ⟨"mail", "worker", 5, 100, 1⟩ [.ofU128 20, .ofU128 21] .done).2 repaired grants tid :=
  claim_refines_scheduler [Sample.enqueue .requiresReconciliation]
    ⟨"mail", "worker", 5, 100, 1⟩ [.ofU128 20, .ofU128 21] ⟨by decide, by decide, by decide⟩
    ⟨by decide, by decide, by decide, by decide⟩ ⟨by decide, by decide⟩

end Minisqlite
