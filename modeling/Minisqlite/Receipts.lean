import Minisqlite.Leases

/-!
# Claim receipts and their recovery

A claim leaves a receipt for each lease that it grants: a second copy of the
lease, beside the one on the job's row. `recover_claim` reads both.

* `agree_stateAt`: as long as a receipt's token is current, its expiry is that
  of the job, through extensions of both kinds.
* `receipts_of_persisted`: the receipts of a transaction id are the grants of
  its claim, for good.
* `recoverClaim_reused_counterexample`, `recover_claim_exact`: what recovery
  answers.
-/

namespace Minisqlite

open Tables Runs

/-- The receipts agree with the jobs that they were granted for. -/
structure ReceiptsAgree (db : Db) : Prop where
  stored : ∀ receipt ∈ db.claimReceipts.rows, ∃ job, db.job receipt.jobId = some job
  expiry : ∀ receipt ∈ db.claimReceipts.rows, ∀ job, db.job receipt.jobId = some job →
    job.leaseToken = some receipt.leaseToken →
    job.leaseExpiresAtMs = some receipt.leaseExpiresAtMs

namespace ReceiptLemmas

open LeaseLemmas

variable {batch : CommitBatch} {op : Operation} {db db' : Db} {calls : List Call} {k : Nat}

theorem onReceipt_jobId (op : Operation) (receipt : ClaimReceiptRow) :
    (op.onReceipt receipt).jobId = receipt.jobId :=
  congrArg Grant.jobId (onReceipt_grant op receipt)

theorem onReceipt_leaseToken (op : Operation) (receipt : ClaimReceiptRow) :
    (op.onReceipt receipt).leaseToken = receipt.leaseToken :=
  congrArg Grant.leaseToken (onReceipt_grant op receipt)

/-- An operation keeps the two copies in step. -/
theorem agree_of_change
    (hchange : ∀ jobId, JobChange batch op jobId (db.job jobId) (db'.job jobId))
    (hreceipts : db'.claimReceipts.rows = db.claimReceipts.rows.map op.onReceipt)
    (h : ReceiptsAgree db) : ReceiptsAgree db' := by
  constructor
  · intro receipt' hreceipt'
    rw [hreceipts] at hreceipt'
    obtain ⟨receipt, hreceipt, rfl⟩ := List.mem_map.mp hreceipt'
    obtain ⟨job, hjob⟩ := h.stored receipt hreceipt
    have hstep := hchange receipt.jobId
    rw [hjob] at hstep
    rw [onReceipt_jobId]
    generalize db'.job receipt.jobId = after at hstep
    cases hstep <;> exact ⟨_, rfl⟩
  · intro receipt' hreceipt' job' hjob' htoken
    rw [hreceipts] at hreceipt'
    obtain ⟨receipt, hreceipt, rfl⟩ := List.mem_map.mp hreceipt'
    rw [onReceipt_jobId] at hjob'
    rw [onReceipt_leaseToken] at htoken
    have hstep := hchange receipt.jobId
    obtain ⟨job, hjob⟩ := h.stored receipt hreceipt
    rw [hjob, hjob'] at hstep
    cases hstep with
    | same other =>
      have hkept : op.onReceipt receipt = receipt := by
        cases op with
        | extendLease extension =>
          refine if_neg fun ⟨hid, _⟩ => other ?_
          rw [hid, Operation.jobId]
        | _ => rfl
      rw [hkept]
      exact h.expiry receipt hreceipt job' hjob htoken
    | step about hstep =>
      cases hstep with
      | @extend extension _ _ current =>
        -- The only operation that keeps the token writes both copies.
        have hboth : receipt.jobId = extension.jobId ∧ receipt.leaseToken = extension.leaseToken :=
          ⟨(Option.some.inj about).symm, Option.some.inj (htoken.symm.trans current)⟩
        simp [Operation.onReceipt, hboth, JobUpdate.expiry]
      | _ => cases htoken

/-- A claim adds its leases to both copies, and takes no token that a receipt has. -/
theorem agree_of_claim {request : ClaimRequest} {entropy : Entropy} {staged : StagedClaim}
    {leases : List ProposedLease} {expiryMs : Int64}
    (hwrite : ClaimWrite db request entropy staged leases expiryMs)
    (fresh : ∀ receipt ∈ db.claimReceipts.rows, receipt.leaseToken ∉ entropy.map Id.ofRandom)
    (h : ReceiptsAgree db) : ReceiptsAgree staged.db := by
  constructor
  · intro receipt hreceipt
    rw [hwrite.receipts] at hreceipt
    rcases List.mem_append.mp hreceipt with hold | hnew
    · obtain ⟨job, hjob⟩ := h.stored receipt hold
      have hchange := hwrite.change receipt.jobId
      rw [hjob] at hchange
      generalize staged.db.job receipt.jobId = after at hchange
      cases hchange <;> exact ⟨_, rfl⟩
    · obtain ⟨lease, hlease, rfl⟩ := List.mem_map.mp hnew
      exact ⟨_, hwrite.granted hlease⟩
  · intro receipt hreceipt job' hjob' htoken
    rw [hwrite.receipts] at hreceipt
    rcases List.mem_append.mp hreceipt with hold | hnew
    · have hchange := hwrite.change receipt.jobId
      obtain ⟨job, hjob⟩ := h.stored receipt hold
      rw [hjob, hjob'] at hchange
      cases hchange with
      | same => exact h.expiry receipt hold job' hjob htoken
      | repaired =>
        rw [repair_leaseToken] at htoken
        cases htoken
      | @leased lease _ granted =>
        have htoken : lease.leaseToken = receipt.leaseToken := Option.some.inj htoken
        exact absurd (htoken ▸ hwrite.token_drawn granted) (fresh receipt hold)
    · obtain ⟨lease, hlease, rfl⟩ := List.mem_map.mp hnew
      obtain rfl := Option.some.inj ((hwrite.granted hlease).symm.trans hjob')
      rfl

/-- The token of a receipt was drawn by one of the calls made so far. -/
theorem drawn_of_receipt {receipt : ClaimReceiptRow}
    (h : receipt ∈ (controlPlane.stateAt calls k).db.claimReceipts.rows) :
    receipt.leaseToken ∈ (calls.take k).flatMap Call.drawn := by
  obtain ⟨entry, hentry, hgrant⟩ := entry_of_receipt h
  cases entry with
  | batch b => cases hgrant
  | claim transactionId request jobs =>
    obtain ⟨i, hik, staged, ⟨entropy, step, hcall, -, staging⟩, -, rfl⟩ :=
      mem_journal_claim.mp hentry
    obtain ⟨leases, expiryMs, hwrite⟩ := stageClaim_write staging
    obtain ⟨claimed, hclaimed, hgrant⟩ := List.mem_map.mp hgrant
    rw [hwrite.jobs] at hclaimed
    obtain ⟨lease, hlease, rfl⟩ := List.mem_map.mp hclaimed
    have htoken : lease.leaseToken = receipt.leaseToken := congrArg Grant.leaseToken hgrant
    have hmade : Call.claimJobs request entropy step ∈ calls.take k :=
      List.mem_of_getElem? (i := i) (by rw [List.getElem?_take, if_pos hik, hcall])
    exact List.mem_flatMap.mpr ⟨_, hmade, htoken ▸ hwrite.token_drawn hlease⟩

/-- One call keeps the two copies in step, if it draws no token of a receipt. -/
theorem agree_of_call {call : Call} {entries : List Entry}
    (heffect : CallEffect db call db' entries)
    (fresh : ∀ receipt ∈ db.claimReceipts.rows, receipt.leaseToken ∉ call.drawn)
    (h : ReceiptsAgree db) : ReceiptsAgree db' := by
  cases heffect with
  | unchanged => exact h
  | commit persists staged =>
    exact stageBatch_induction (P := ReceiptsAgree) (fun _ _ _ h => ⟨h.stored, h.expiry⟩)
      (fun _ _ _ happlies => agree_of_change (applyOperation_change happlies.apply)
        (applyOperation_receipts happlies.apply)) (stageCommit_staged staged).2.2 h
  | claim persists staging =>
    obtain ⟨leases, expiryMs, hwrite⟩ := stageClaim_write staging
    exact agree_of_claim hwrite fresh h
  | extend persists staged =>
    obtain ⟨batch, hwrite⟩ := applyExtendLease_direct staged
    exact agree_of_change hwrite.effect.change hwrite.receipts h

/-- The two copies of a lease are in step at every point of a run. -/
theorem agree_stateAt (fresh : FreshIds calls) (hk : k ≤ calls.length) :
    ReceiptsAgree (controlPlane.stateAt calls k).db := by
  refine Machine.stateAt_le_induction (M := controlPlane)
    (P := fun _ s => ReceiptsAgree (ControlPlaneStore.db s)) ?_ ?_ (Nat.zero_le k) hk
  · exact ⟨nofun, nofun⟩
  · intro m call _ hcall ih
    exact agree_of_call (next_effect _ call)
      (fun receipt hreceipt => not_drawn_again fresh hcall (drawn_of_receipt hreceipt)) ih

/-! ### The receipts of one transaction id -/

/-- The grants on record under a transaction id. -/
def grantsUnder (db : Db) (transactionId : Id) : List Grant :=
  (db.claimReceipts.rows.map ClaimReceiptRow.grant).filter fun g =>
    decide (g.transactionId = transactionId)

theorem mem_grantsUnder {transactionId : Id} {g : Grant} : g ∈ grantsUnder db transactionId ↔
    ∃ receipt ∈ db.claimReceipts.rows,
      receipt.transactionId = transactionId ∧ receipt.grant = g := by
  simp only [grantsUnder, List.mem_filter, List.mem_map, decide_eq_true_eq]
  constructor
  · rintro ⟨⟨receipt, hreceipt, rfl⟩, hid⟩
    exact ⟨receipt, hreceipt, hid, rfl⟩
  · rintro ⟨receipt, hreceipt, hid, rfl⟩
    exact ⟨⟨receipt, hreceipt, rfl⟩, hid⟩

/-- A call that adds no entry under the id leaves its grants as they are. -/
theorem grantsUnder_of_call {call : Call} {entries : List Entry} {transactionId : Id}
    (heffect : CallEffect db call db' entries)
    (other : ∀ entry ∈ entries, entry.transactionId ≠ transactionId) :
    grantsUnder db' transactionId = grantsUnder db transactionId := by
  have hnone : (entries.flatMap Entry.grants).filter
      (fun g => decide (g.transactionId = transactionId)) = [] := by
    refine List.filter_eq_nil_iff.mpr fun g hg hid => ?_
    obtain ⟨entry, hentry, hgrant⟩ := List.mem_flatMap.mp hg
    refine other entry hentry ?_
    rw [← Entry.grants_transactionId hgrant]
    exact of_decide_eq_true hid
  rw [grantsUnder, heffect.receipts, List.filter_append, hnone, List.append_nil]
  rfl

/-- The receipts under a recorded id were written with it. -/
theorem grantsUnder_of_unrecorded {transactionId : Id}
    (h : ∀ entry ∈ journal (calls.take k), entry.transactionId ≠ transactionId) :
    grantsUnder (controlPlane.stateAt calls k).db transactionId = [] := by
  refine List.eq_nil_iff_forall_not_mem.mpr fun g hg => ?_
  obtain ⟨receipt, hreceipt, hid, -⟩ := mem_grantsUnder.mp hg
  obtain ⟨entry, hentry, hgrant⟩ := entry_of_receipt hreceipt
  exact h entry hentry ((Entry.grants_transactionId hgrant).symm.trans hid)

/-- An id that is not on record has no entry. -/
theorem unrecorded_of_free {transactionId : Id}
    (h : (controlPlane.stateAt calls k).db.transaction transactionId = none) :
    ∀ entry ∈ journal (calls.take k), entry.transactionId ≠ transactionId := by
  rintro entry hentry rfl
  obtain ⟨row, hrow, hrecorded⟩ :=
    (recorded_of_mem (journal_recorded (calls.take k))).1 entry hentry
  exact Table.lookup_eq_none.mp h row hrow hrecorded.transactionId

variable {i : Nat} {request : ClaimRequest} {staged : StagedClaim}

/-- The grants on record under the id of a claim are those that it returned. -/
theorem receipts_of_persisted (h : ClaimPersisted calls i request staged) (hik : i < k)
    (hk : k ≤ calls.length) : grantsUnder (controlPlane.stateAt calls k).db staged.transactionId =
      staged.jobs.map (ClaimedJob.grant staged.transactionId) := by
  have hnext := h.next
  have hrecorded : ∀ m, i < m → ∃ row,
      (controlPlane.stateAt calls m).db.transaction staged.transactionId = some row := by
    intro m him
    obtain ⟨operationCount, sequence, hrow⟩ := h.recorded (k := m) him
    exact ⟨_, hrow⟩
  obtain ⟨entropy, step, -, -, staging⟩ := h
  obtain ⟨leases, expiryMs, hwrite⟩ := stageClaim_write staging
  refine Machine.stateAt_le_induction (M := controlPlane) (i := i + 1) (P := fun _ s =>
    grantsUnder (ControlPlaneStore.db s) staged.transactionId =
      staged.jobs.map (ClaimedJob.grant staged.transactionId)) ?_ ?_ hik hk
  · -- The id was free before the claim, so no older receipt has it.
    have hbefore := grantsUnder_of_unrecorded
      (unrecorded_of_free (k := i) (Table.lookup_eq_none.mpr hwrite.free))
    have hgrants : (leases.map (ProposedLease.receipt staged.transactionId request expiryMs)).map
        ClaimReceiptRow.grant = staged.jobs.map (ClaimedJob.grant staged.transactionId) := by
      rw [hwrite.jobs, List.map_map, List.map_map]
      rfl
    rw [hnext, grantsUnder, hwrite.receipts, List.map_append, List.filter_append, hgrants]
    unfold grantsUnder at hbefore
    rw [hbefore, List.nil_append]
    refine List.filter_eq_self.mpr fun g hg => ?_
    obtain ⟨claimed, -, rfl⟩ := List.mem_map.mp hg
    exact decide_eq_true rfl
  · -- By now the id is on record, so no later entry has it.
    intro m call him _ ih
    have heffect := next_effect (controlPlane.stateAt calls m) call
    refine (grantsUnder_of_call heffect fun entry hentry hid => ?_).trans ih
    obtain ⟨row, hrow⟩ := hrecorded m him
    rw [← hid, heffect.free hentry] at hrow
    cases hrow

/-! ### What `recover_claim` reads -/

theorem mem_receiptsOf {transactionId : Id} {receipt : ClaimReceiptRow} {job : JobRow} :
    (receipt, job) ∈ receiptsOf db transactionId ↔ receipt ∈ db.claimReceipts.rows ∧
      receipt.transactionId = transactionId ∧ db.job receipt.jobId = some job := by
  simp only [receiptsOf, List.mem_filterMap, List.mem_insertionSort, List.mem_filter,
    decide_eq_true_eq, Option.map_eq_some_iff, Prod.mk.injEq]
  constructor
  · rintro ⟨_, ⟨hreceipt, hid⟩, _, hjob, rfl, rfl⟩
    exact ⟨hreceipt, hid, hjob⟩
  · rintro ⟨hreceipt, hid, hjob⟩
    exact ⟨receipt, ⟨hreceipt, hid⟩, job, hjob, rfl, rfl⟩

/-- The join drops no receipt. -/
theorem receiptsOf_perm (h : ReceiptsAgree db) (transactionId : Id) :
    ((receiptsOf db transactionId).map fun row => row.1.jobId).Perm
      ((grantsUnder db transactionId).map Grant.jobId) := by
  have hgrants : (grantsUnder db transactionId).map Grant.jobId =
      (db.claimReceipts.rows.filter fun r => decide (r.transactionId = transactionId)).map
        ClaimReceiptRow.jobId := by
    rw [grantsUnder, List.filter_map, List.map_map]
    rfl
  have hsorted := List.perm_insertionSort
    (fun a b : ClaimReceiptRow => a.jobId.bytes ≤ b.jobId.bytes)
    (db.claimReceipts.rows.filter fun r => decide (r.transactionId = transactionId))
  rw [hgrants, receiptsOf, List.map_filterMap]
  refine List.Perm.trans (.of_eq ?_) (hsorted.map ClaimReceiptRow.jobId)
  rw [← List.filterMap_eq_map]
  refine List.filterMap_congr fun receipt hreceipt => ?_
  obtain ⟨job, hjob⟩ :=
    h.stored receipt (List.mem_of_mem_filter ((List.mem_insertionSort _).mp hreceipt))
  simp [hjob]

end ReceiptLemmas

open ReceiptLemmas

/-! ## Recovery -/

/-- The job is still leased under the token, until `expiryMs`. -/
def LeasedUntil (db : Db) (jobId token : Id) (expiryMs : Int64) : Prop :=
  ∃ job, db.job jobId = some job ∧ job.state = .leased ∧ job.leaseToken = some token ∧
    job.leaseExpiresAtMs = some expiryMs

/-- The recovered claims are exact for the leases that the claim returned: the
jobs whose lease still holds at `nowMs`, as they were returned but with the
current expiry, and the ids of all others. -/
structure RecoveredExactly (db : Db) (nowMs : Int64) (original : List ClaimedJob)
    (claims : CommittedClaims) : Prop where
  once : (original.map ClaimedJob.jobId).Nodup
  all : (claims.jobs.map ClaimedJob.jobId ++ claims.staleJobs).Perm (original.map ClaimedJob.jobId)
  executable : ∀ claimed ∈ original, claimed.jobId ∈ claims.jobs.map ClaimedJob.jobId ↔
    ∃ expiryMs, LeasedUntil db claimed.jobId claimed.leaseToken expiryMs ∧ nowMs ≤ expiryMs
  returned : ∀ recovered ∈ claims.jobs, ∃ claimed ∈ original,
    LeasedUntil db claimed.jobId claimed.leaseToken recovered.leaseExpiresAtMs ∧
      recovered = { claimed with leaseExpiresAtMs := recovered.leaseExpiresAtMs }

namespace ReceiptLemmas

variable {db : Db} {calls : List Call} {i k : Nat} {request : ClaimRequest} {staged : StagedClaim}
  {nowMs : Int64}

theorem stillCurrent_iff {receipt : ClaimReceiptRow} {job : JobRow} (h : ReceiptsAgree db)
    (hreceipt : receipt ∈ db.claimReceipts.rows) (hjob : db.job receipt.jobId = some job) :
    stillCurrent nowMs receipt job = true ↔
      LeasedUntil db receipt.jobId receipt.leaseToken receipt.leaseExpiresAtMs ∧
        nowMs ≤ receipt.leaseExpiresAtMs := by
  simp only [stillCurrent, Bool.and_eq_true, decide_eq_true_eq, Option.any_eq_true]
  constructor
  · rintro ⟨⟨hleased, htoken⟩, expiry, hexpiry, hnow⟩
    have hagree := h.expiry receipt hreceipt job hjob htoken
    obtain rfl := Option.some.inj (hexpiry.symm.trans hagree)
    exact ⟨⟨job, hjob, hleased, htoken, hagree⟩, hnow⟩
  · rintro ⟨⟨job', hjob', hleased, htoken, hexpiry⟩, hnow⟩
    obtain rfl := Option.some.inj (hjob'.symm.trans hjob)
    exact ⟨⟨hleased, htoken⟩, _, hexpiry, hnow⟩

/-- The claim that is rebuilt from a receipt is the one that was returned. -/
theorem claimed_of_receipt (h : ClaimPersisted calls i request staged) (hik : i < k)
    {claimed : ClaimedJob} (hclaimed : claimed ∈ staged.jobs) {receipt : ClaimReceiptRow}
    (hgrant : receipt.grant = claimed.grant staged.transactionId) {job : JobRow}
    (hjob : (controlPlane.stateAt calls k).db.job receipt.jobId = some job) :
    receipt.claimed job = { claimed with leaseExpiresAtMs := receipt.leaseExpiresAtMs } := by
  have hnext := h.next
  obtain ⟨entropy, step, -, -, staging⟩ := h
  obtain ⟨leases, expiryMs, hwrite⟩ := stageClaim_write staging
  rw [hwrite.jobs] at hclaimed
  obtain ⟨lease, hlease, rfl⟩ := List.mem_map.mp hclaimed
  obtain ⟨-, hid, htoken, hattempt, hworker⟩ := Grant.mk.inj hgrant
  have hspec := spec_persists calls hik
    (congrArg (Option.map JobRow.spec) (hnext ▸ hwrite.granted hlease))
  rw [← show receipt.jobId = lease.job.spec.jobId from hid, hjob] at hspec
  have hspec : job.spec = lease.job.spec := Option.some.inj hspec
  simp only [ClaimReceiptRow.claimed, hid, htoken, hattempt, hworker, hspec]
  rfl

/-- Nothing is on record under an id that no entry of the journal has. -/
theorem absent_of_unrecorded {transactionId : Id}
    (h : ∀ entry ∈ journal (calls.take k), entry.transactionId ≠ transactionId) :
    recoverClaim (controlPlane.stateAt calls k).db transactionId nowMs = .absent := by
  have hrows : receiptsOf (controlPlane.stateAt calls k).db transactionId = [] := by
    refine List.eq_nil_iff_forall_not_mem.mpr fun ⟨receipt, job⟩ hrow => ?_
    obtain ⟨hreceipt, hid, -⟩ := mem_receiptsOf.mp hrow
    have hmem := mem_grantsUnder.mpr ⟨receipt, hreceipt, hid, rfl⟩
    rw [grantsUnder_of_unrecorded h] at hmem
    cases hmem
  have hfree : (controlPlane.stateAt calls k).db.transaction transactionId = none := by
    refine Option.eq_none_iff_forall_ne_some.mpr fun row hrow => ?_
    obtain ⟨-, entry, hentry, -, hid⟩ := transaction_iff.mp hrow
    exact h entry hentry hid
  simp [recoverClaim, hrows, hfree]

/-- A claim that persisted without grants. -/
theorem maintenance_of_persisted (h : ClaimPersisted calls i request staged) (hik : i < k)
    (hk : k ≤ calls.length) (hnone : staged.jobs = []) :
    recoverClaim (controlPlane.stateAt calls k).db staged.transactionId nowMs =
      .maintenanceCommitted ⟨staged.transactionId⟩ := by
  obtain ⟨operationCount, sequence, hrow⟩ := h.recorded hik
  have hrows : receiptsOf (controlPlane.stateAt calls k).db staged.transactionId = [] := by
    refine List.eq_nil_iff_forall_not_mem.mpr fun ⟨receipt, job⟩ hrow => ?_
    obtain ⟨hreceipt, hid, -⟩ := mem_receiptsOf.mp hrow
    have hmem := mem_grantsUnder.mpr ⟨receipt, hreceipt, hid, rfl⟩
    rw [receipts_of_persisted h hik hk, hnone] at hmem
    cases hmem
  simp [recoverClaim, hrows, hrow]

/-- A receipt under the id of a claim and a lease that the claim returned are one grant. -/
theorem grant_of_receipt (h : ClaimPersisted calls i request staged) (hik : i < k)
    (hk : k ≤ calls.length) {receipt : ClaimReceiptRow}
    (hreceipt : receipt ∈ (controlPlane.stateAt calls k).db.claimReceipts.rows)
    (hid : receipt.transactionId = staged.transactionId) :
    ∃ claimed ∈ staged.jobs, receipt.grant = claimed.grant staged.transactionId := by
  have hmem := mem_grantsUnder.mpr ⟨receipt, hreceipt, hid, rfl⟩
  rw [receipts_of_persisted h hik hk] at hmem
  obtain ⟨claimed, hclaimed, hgrant⟩ := List.mem_map.mp hmem
  exact ⟨claimed, hclaimed, hgrant.symm⟩

theorem receipt_of_grant (h : ClaimPersisted calls i request staged) (hik : i < k)
    (hk : k ≤ calls.length) {claimed : ClaimedJob} (hclaimed : claimed ∈ staged.jobs) :
    ∃ receipt ∈ (controlPlane.stateAt calls k).db.claimReceipts.rows,
      receipt.transactionId = staged.transactionId ∧
      receipt.grant = claimed.grant staged.transactionId := by
  refine mem_grantsUnder.mp ?_
  rw [receipts_of_persisted h hik hk]
  exact List.mem_map_of_mem hclaimed

/-- What `recover_claim` makes of the receipts of a claim. -/
theorem recoveredExactly (fresh : FreshIds calls) (h : ClaimPersisted calls i request staged)
    (hik : i < k) (hk : k ≤ calls.length) {rows : List (ClaimReceiptRow × JobRow)}
    (hrows : rows = receiptsOf (controlPlane.stateAt calls k).db staged.transactionId) :
    RecoveredExactly (controlPlane.stateAt calls k).db nowMs staged.jobs
      ⟨staged.transactionId,
        (rows.filter fun row => stillCurrent nowMs row.1 row.2).map fun row => row.1.claimed row.2,
        (rows.filter fun row => !stillCurrent nowMs row.1 row.2).map fun row => row.1.jobId⟩ := by
  subst hrows
  have hagree := agree_stateAt fresh hk
  have honce := h.jobIds_nodup
  constructor
  case once => exact honce
  case all =>
    have hperm := receiptsOf_perm hagree staged.transactionId
    rw [receipts_of_persisted h hik hk, List.map_map] at hperm
    refine List.Perm.trans ?_ hperm
    rw [List.map_map]
    refine List.Perm.trans (.of_eq List.map_append.symm) ?_
    exact (List.filter_append_perm _ _).map fun row : ClaimReceiptRow × JobRow => row.1.jobId
  case executable =>
    intro claimed hclaimed
    constructor
    · intro hmem
      obtain ⟨recovered, hrecovered, hid⟩ := List.mem_map.mp hmem
      obtain ⟨⟨receipt, job⟩, hrow, rfl⟩ := List.mem_map.mp hrecovered
      obtain ⟨hrow, hcurrent⟩ := List.mem_filter.mp hrow
      obtain ⟨hreceipt, htid, hjob⟩ := mem_receiptsOf.mp hrow
      obtain ⟨claimed', hclaimed', hgrant⟩ := grant_of_receipt h hik hk hreceipt htid
      have hsame : receipt.jobId = claimed'.jobId := congrArg Grant.jobId hgrant
      obtain rfl : claimed' = claimed :=
        List.inj_on_of_nodup_map honce hclaimed' hclaimed (hsame.symm.trans hid)
      have htoken : receipt.leaseToken = claimed'.leaseToken := congrArg Grant.leaseToken hgrant
      rw [← hsame, ← htoken]
      exact ⟨_, (stillCurrent_iff hagree hreceipt hjob).mp hcurrent⟩
    · rintro ⟨expiryMs, hleased, hnow⟩
      obtain ⟨receipt, hreceipt, htid, hgrant⟩ := receipt_of_grant h hik hk hclaimed
      have hsame : receipt.jobId = claimed.jobId := congrArg Grant.jobId hgrant
      have htoken : receipt.leaseToken = claimed.leaseToken := congrArg Grant.leaseToken hgrant
      rw [← hsame, ← htoken] at hleased
      obtain ⟨job, hjob, hstate, hjobToken, hexpiry⟩ := hleased
      -- The row and the receipt are two copies of one lease.
      have hboth := hagree.expiry receipt hreceipt job hjob hjobToken
      obtain rfl := Option.some.inj (hexpiry.symm.trans hboth)
      have hcurrent := (stillCurrent_iff hagree hreceipt hjob).mpr
        ⟨⟨job, hjob, hstate, hjobToken, hexpiry⟩, hnow⟩
      rw [← hsame]
      exact List.mem_map.mpr ⟨receipt.claimed job, List.mem_map.mpr ⟨(receipt, job),
        List.mem_filter.mpr ⟨mem_receiptsOf.mpr ⟨hreceipt, htid, hjob⟩, hcurrent⟩, rfl⟩, rfl⟩
  case returned =>
    intro recovered hrecovered
    obtain ⟨⟨receipt, job⟩, hrow, rfl⟩ := List.mem_map.mp hrecovered
    obtain ⟨hrow, hcurrent⟩ := List.mem_filter.mp hrow
    obtain ⟨hreceipt, htid, hjob⟩ := mem_receiptsOf.mp hrow
    obtain ⟨claimed, hclaimed, hgrant⟩ := grant_of_receipt h hik hk hreceipt htid
    have hsame : receipt.jobId = claimed.jobId := congrArg Grant.jobId hgrant
    have htoken : receipt.leaseToken = claimed.leaseToken := congrArg Grant.leaseToken hgrant
    refine ⟨claimed, hclaimed, ?_, claimed_of_receipt h hik hclaimed hgrant hjob⟩
    rw [← hsame, ← htoken]
    exact ((stillCurrent_iff hagree hreceipt hjob).mp hcurrent).1

end ReceiptLemmas

/-- A client that gives its own batch the id of a lost claim: the claim did not
persist, but its recovery finds the batch and says `MaintenanceCommitted`. -/
def Sample.reusedId : List Call :=
  [Sample.enqueue .requiresReconciliation, Sample.claim 20 5 (.lost false "disk I/O error"),
    Sample.commit 21 6 []]

theorem recoverClaim_reused_counterexample : FreshIds Sample.reusedId ∧
    controlPlane.replyAt Sample.reusedId 1 =
      some (.claimJobs (.error (.indeterminate ⟨.ofU128 21, [Sample.jobId], "disk I/O error"⟩))) ∧
    (∀ request jobs, Entry.claim (.ofU128 21) request jobs ∉ journal Sample.reusedId) ∧
    recoverClaim (controlPlane.stateAt Sample.reusedId 3).db (.ofU128 21) 7 ≠ .absent := by
  refine ⟨by decide, by decide, fun request jobs hentry => ?_, by decide⟩
  have hjournal : journal Sample.reusedId =
      [.batch (Sample.batch 10 0 [.enqueueJob (Sample.spec .requiresReconciliation)]),
        .batch (Sample.batch 21 6 [])] := by decide
  simp [hjournal] at hentry

/-- Recovery of claims at every point of a run. It says `Absent` if nothing
persisted under the id, and for a claim that persisted, what became of it: that
it granted nothing, or exactly which of its leases still hold. -/
theorem recover_claim_exact {calls : List Call} (fresh : FreshIds calls) {k : Nat}
    (hk : k ≤ calls.length) (nowMs : Int64) :
    (∀ transactionId, (∀ entry ∈ journal (calls.take k), entry.transactionId ≠ transactionId) →
      recoverClaim (controlPlane.stateAt calls k).db transactionId nowMs = .absent) ∧
    ∀ i request staged, ClaimPersisted calls i request staged → i < k →
      (staged.jobs = [] →
        recoverClaim (controlPlane.stateAt calls k).db staged.transactionId nowMs =
          .maintenanceCommitted ⟨staged.transactionId⟩) ∧
      (staged.jobs ≠ [] → ∃ jobs stale,
        recoverClaim (controlPlane.stateAt calls k).db staged.transactionId nowMs =
          .committed ⟨staged.transactionId, jobs, stale⟩ ∧
        RecoveredExactly (controlPlane.stateAt calls k).db nowMs staged.jobs
          ⟨staged.transactionId, jobs, stale⟩) := by
  refine ⟨fun _ => absent_of_unrecorded, fun i request staged hpersisted hik =>
    ⟨maintenance_of_persisted hpersisted hik hk, fun hsome => ?_⟩⟩
  refine ⟨_, _, ?_, recoveredExactly fresh hpersisted hik hk rfl⟩
  refine if_neg fun hnone => hsome ?_
  have hperm := receiptsOf_perm (agree_stateAt fresh hk) staged.transactionId
  rw [hnone, receipts_of_persisted hpersisted hik hk, List.map_map] at hperm
  exact List.map_eq_nil_iff.mp hperm.nil_eq.symm

/-- A claim whose COMMIT persisted but was not reported. -/
def Sample.lostClaim : List Call :=
  [Sample.enqueue .requiresReconciliation, Sample.claim 20 5 (.lost true "disk I/O error")]

theorem recover_claim_exact_sample :
    ∃ jobs stale, recoverClaim (controlPlane.stateAt Sample.lostClaim 2).db (.ofU128 21) 7 =
        .committed ⟨.ofU128 21, jobs, stale⟩ ∧
      RecoveredExactly (controlPlane.stateAt Sample.lostClaim 2).db 7
        [⟨Sample.jobId, "mail", "alice", [1], "worker", .ofU128 20, 1, 105, none⟩]
        ⟨.ofU128 21, jobs, stale⟩ := by
  have hmem : Entry.claim (.ofU128 21) ⟨"mail", "worker", 5, 100, 1⟩
      [⟨Sample.jobId, "mail", "alice", [1], "worker", .ofU128 20, 1, 105, none⟩] ∈
      journal (Sample.lostClaim.take 2) := by decide
  obtain ⟨i, hik, staged, hpersisted, hid, hjobs⟩ := mem_journal_claim.mp hmem
  have hexact := ((recover_claim_exact (by decide) (by decide) 7).2 i _ staged hpersisted hik).2
  rw [hid, hjobs] at hexact
  exact hexact (by simp)

end Minisqlite
