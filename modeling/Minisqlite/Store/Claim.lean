import Mathlib.Data.List.Sort
import Minisqlite.Store.Jobs

/-!
# Claims

`claim_jobs`, `plan_maintenance`, `plan_leases` and `recover_claim` of
`store/jobs.rs`. Both plans read the state that the claim starts from, so a
lease that is repaired by a call is never granted again by the same call.

`stageClaim` is `claim_jobs` up to its COMMIT.
-/

namespace Minisqlite

open Tables Runs

/-! ## Expired-lease maintenance -/

/-- `MAINTENANCE_LIMIT`. -/
def maintenanceLimit : Nat := 64

structure MaintenanceAction where
  job : JobRow
  target : JobState

/-- Where an expired lease goes. -/
def JobRow.expiredTo (job : JobRow) : JobState :=
  match job.spec.effectMode with
  | .requiresReconciliation => .uncertain
  | .explicitlyIdempotent => if job.exhausted then .dead else .pending

/-- The job holds a lease of this queue that is over at `now_ms`. -/
def JobRow.expiredIn (queue : String) (nowMs : Int64) (job : JobRow) : Bool :=
  decide (job.spec.queue = queue) && decide (job.state = .leased) &&
    job.leaseExpiresAtMs.any fun expiry => decide (expiry < nowMs)

/-- `plan_maintenance`. -/
def planMaintenance (db : Db) (request : ClaimRequest) : List MaintenanceAction :=
  let expired := db.jobs.rows.filter (JobRow.expiredIn request.queue request.nowMs)
  let ordered := expired.insertionSort fun a b =>
    a.leaseExpiresAtMs.getD Int64.minValue ≤ b.leaseExpiresAtMs.getD Int64.minValue
  (ordered.take maintenanceLimit).map fun job => ⟨job, job.expiredTo⟩

/-- One write of the maintenance phase. -/
def applyMaintenance (transactionId : Id) (nowMs : Int64) (db : Db) (action : MaintenanceAction) :
    Except Error Db := do
  ensureTransition action.job action.target
  match action.target with
  | .dead =>
    setTerminal db action.job .dead nowMs transactionId none (some "lease expired at final attempt")
  | target => setNonterminal db action.job.spec.jobId target none transactionId

/-! ## Lease selection -/

structure ProposedLease where
  job : JobRow
  leaseToken : Id

/-- What `plan_leases` has decided so far. -/
structure LeasePlan where
  leases : List ProposedLease
  lastLeased : Option String
  entropy : Entropy

/-- `slice::partition_point` of a list that `p` partitions. -/
def partitionPoint {α : Type} (p : α → Bool) (xs : List α) : Nat := (xs.takeWhile p).length

/-- The nonterminal job of the partition that was enqueued first. -/
def partitionHead (db : Db) (queue partitionKey : String) : Option JobRow :=
  let active := db.jobs.rows.filter (JobRow.activeIn queue partitionKey)
  (active.insertionSort fun a b => a.enqueueSequence ≤ b.enqueueSequence).head?

/-- The head may be leased now. -/
def JobRow.ready (nowMs : Int64) (job : JobRow) : Bool :=
  match job.state with
  | .pending => decide (job.spec.notBeforeMs ≤ nowMs)
  | .retryWait =>
    decide (job.spec.notBeforeMs ≤ nowMs) &&
      decide (job.retryAfterMs.getD Int64.minValue ≤ nowMs)
  | _ => false

/-- The partitions of the queue in the order in which they are visited: those
after the cursor first, in key order. -/
def partitionsFromCursor (db : Db) (queue : String) : List String :=
  let partitions := ((db.activePartitions.rows.filter fun row => decide (row.queue = queue)).map
    ActivePartitionRow.partitionKey).insertionSort fun a b => utf8 a ≤ utf8 b
  let start :=
    match (db.queueCursors.lookup QueueCursorRow.queue queue).bind
      QueueCursorRow.lastPartitionKey with
    | some cursor => partitionPoint (fun p => decide (utf8 p ≤ utf8 cursor)) partitions
    | none => 0
  partitions.drop start ++ partitions.take start

/-- The loop of `plan_leases` over the partitions. -/
def leasePartitions (db : Db) (request : ClaimRequest) :
    List String → LeasePlan → Except Error LeasePlan
  | [], plan => .ok plan
  | partition :: rest, plan =>
    if plan.leases.length ≥ request.limit then .ok plan
    else
      match partitionHead db request.queue partition with
      | none => leasePartitions db request rest plan
      | some job =>
        if job.ready request.nowMs then do
          let (leaseToken, entropy) ← Id.new plan.entropy
          leasePartitions db request rest
            ⟨plan.leases ++ [⟨job, leaseToken⟩], some partition, entropy⟩
        else leasePartitions db request rest plan

/-- `plan_leases`. -/
def planLeases (db : Db) (request : ClaimRequest) (entropy : Entropy) : Except Error LeasePlan :=
  if request.limit = 0 then .ok ⟨[], none, entropy⟩
  else leasePartitions db request (partitionsFromCursor db request.queue) ⟨[], none, entropy⟩

/-! ## The claim transaction -/

/-- `migrations::checksum`, FNV-1a-128. -/
def checksum (text : String) : Bytes :=
  let state := (utf8 text).foldl
    (fun state b => (state ^^^ BitVec.ofNat 128 b.toNat) * 0x0000000001000000000000000000013b#128)
    0x6c62272e07bb014262b821756295c58d#128
  toBeBytes 16 state.toNat

/-- The digest of a claim: 16 bytes, where that of a batch has 32. -/
def claimDigest (transactionId : Id) (request : ClaimRequest) : Bytes :=
  let queue := request.queue
  let workerId := request.workerId
  let nowMs := request.nowMs
  let leaseMs := request.leaseMs
  let limit := request.limit
  checksum s!"claim:{transactionId}:{queue}:{workerId}:{nowMs}:{leaseMs}:{limit}"

@[simp] theorem claimDigest_length (transactionId : Id) (request : ClaimRequest) :
    (claimDigest transactionId request).length = 16 := by
  simp [claimDigest, checksum]

/-- The INSERT that opens every durable transaction, with the next sequence. -/
def insertTransaction {ε : Type} [FromStorage ε] (db : Db) (row : Int64 → TransactionRow) :
    Except ε (Db × Int64) := do
  let sequence ←
    execute (nextSequence (db.transactions.rows.map TransactionRow.transactionSequence))
  let transactions ← execute (db.transactions.insert (row sequence))
  .ok ({ db with transactions := transactions }, sequence)

/-- The row that `insert_claim_transaction` inserts. -/
def claimRow (transactionId : Id) (request : ClaimRequest) (operationCount : Nat)
    (sequence : Int64) : TransactionRow where
  transactionId := transactionId
  transactionSequence := sequence
  committedAtMs := request.nowMs
  correlationId := none
  metadata := []
  requestDigest := claimDigest transactionId request
  operationCount := Int64.ofNat operationCount

/-- `insert_claim_transaction`. -/
def insertClaimTransaction (db : Db) (transactionId : Id) (request : ClaimRequest)
    (operationCount : Nat) : Except Error Db := do
  let (db, _) ← insertTransaction db (claimRow transactionId request operationCount)
  .ok db

/-- One write of the leasing phase: the job row and its receipt. -/
def grantLease (transactionId : Id) (request : ClaimRequest) (leaseExpiresAtMs : Int64) (db : Db)
    (lease : ProposedLease) : Except Error Db := do
  let jobId := lease.job.spec.jobId
  let db ← updateJob db jobId
    (.lease lease.leaseToken request.workerId leaseExpiresAtMs transactionId)
  execute (db.requireTransaction transactionId)
  let claimReceipts ← execute (db.claimReceipts.insert
    ⟨transactionId, jobId, lease.leaseToken, lease.job.attempt + 1, request.workerId,
      leaseExpiresAtMs⟩)
  .ok { db with claimReceipts := claimReceipts }

/-- What the caller gets back for a granted lease. -/
def ProposedLease.claimed (request : ClaimRequest) (leaseExpiresAtMs : Int64)
    (lease : ProposedLease) : ClaimedJob where
  jobId := lease.job.spec.jobId
  queue := lease.job.spec.queue
  partitionKey := lease.job.spec.partitionKey
  payload := lease.job.spec.payload
  workerId := request.workerId
  leaseToken := lease.leaseToken
  attempt := lease.job.attempt + 1
  leaseExpiresAtMs := leaseExpiresAtMs
  idempotencyKey := lease.job.spec.idempotencyKey

/-- The cursor advances only when a lease was granted. -/
def advanceCursor (db : Db) (queue : String) : Option String → Db
  | some partition =>
    { db with
      queueCursors := db.queueCursors.upsert ⟨queue, some partition⟩
        (fun row => { row with lastPartitionKey := some partition }) fun _ => rfl }
  | none => db

/-- The checks of a claim request; the result is the expiry of its leases. -/
def leaseExpiry (request : ClaimRequest) : Except Error Int64 :=
  if request.queue = "" then invalid "claim queue cannot be empty"
  else if request.workerId = "" then invalid "claim worker id cannot be empty"
  else if request.leaseMs ≤ 0 then invalid "claim lease_ms must be positive"
  else
    match checkedAddI64 request.nowMs request.leaseMs with
    | some expiry => .ok expiry
    | none => invalid "lease expiry timestamp overflows i64"

/-- A claim that is ready to COMMIT. -/
structure StagedClaim where
  db : Db
  transactionId : Id
  jobs : List ClaimedJob

/-- The write phase of `claim_jobs`, for its two plans. -/
def writeClaim (db : Db) (request : ClaimRequest) (leaseExpiresAtMs : Int64)
    (maintenance : List MaintenanceAction) (plan : LeasePlan) : Except Error StagedClaim := do
  let (transactionId, _) ← Id.new plan.entropy
  let db ← insertClaimTransaction db transactionId request (maintenance.length + plan.leases.length)
  let db ← maintenance.foldlM (applyMaintenance transactionId request.nowMs) db
  let db ← plan.leases.foldlM (grantLease transactionId request leaseExpiresAtMs) db
  .ok ⟨advanceCursor db request.queue plan.lastLeased, transactionId,
    plan.leases.map (ProposedLease.claimed request leaseExpiresAtMs)⟩

/-- `claim_jobs` up to its COMMIT; `none` is the rolled back `Noop`. -/
def stageClaim (db : Db) (request : ClaimRequest) (entropy : Entropy) :
    Except Error (Option StagedClaim) := do
  let leaseExpiresAtMs ← leaseExpiry request
  let maintenance := planMaintenance db request
  let plan ← planLeases db request entropy
  if maintenance = [] ∧ plan.leases = [] then .ok none
  else do
    let staged ← writeClaim db request leaseExpiresAtMs maintenance plan
    .ok (some staged)

/-! ## Recovery -/

/-- The receipt's lease is still the job's current, unexpired one. -/
def stillCurrent (nowMs : Int64) (receipt : ClaimReceiptRow) (job : JobRow) : Bool :=
  decide (job.state = .leased) && decide (job.leaseToken = some receipt.leaseToken) &&
    job.leaseExpiresAtMs.any fun expiry => decide (nowMs ≤ expiry)

/-- The claim of a receipt and its job, as `recover_claim` rebuilds it. -/
def ClaimReceiptRow.claimed (receipt : ClaimReceiptRow) (job : JobRow) : ClaimedJob where
  jobId := receipt.jobId
  queue := job.spec.queue
  partitionKey := job.spec.partitionKey
  payload := job.spec.payload
  workerId := receipt.workerId
  leaseToken := receipt.leaseToken
  attempt := receipt.attempt
  leaseExpiresAtMs := receipt.leaseExpiresAtMs
  idempotencyKey := job.spec.idempotencyKey

/-- `SELECT … FROM claim_receipts r JOIN jobs j … WHERE r.transaction_id = ?1
ORDER BY r.job_id`. -/
def receiptsOf (db : Db) (transactionId : Id) : List (ClaimReceiptRow × JobRow) :=
  let receipts := (db.claimReceipts.rows.filter fun r => decide (r.transactionId = transactionId))
  (receipts.insertionSort fun a b => a.jobId.bytes ≤ b.jobId.bytes).filterMap fun r =>
    (db.job r.jobId).map fun job => (r, job)

/-- `recover_claim`. -/
def recoverClaim (db : Db) (transactionId : Id) (nowMs : Int64) : ClaimRecovery :=
  let rows := receiptsOf db transactionId
  if rows = [] then
    -- No receipts: the claim never committed, or it committed maintenance only.
    match db.transaction transactionId with
    | some _ => .maintenanceCommitted ⟨transactionId⟩
    | none => .absent
  else
    let current := rows.filter fun row => stillCurrent nowMs row.1 row.2
    let stale := rows.filter fun row => !stillCurrent nowMs row.1 row.2
    .committed ⟨transactionId, current.map fun row => row.1.claimed row.2,
      stale.map fun row => row.1.jobId⟩

end Minisqlite
