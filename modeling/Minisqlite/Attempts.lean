import Minisqlite.JobRows

/-!
# Attempt accounting

A claim raises the attempt of a job without a look at `max_attempts`. The bound
is kept by the steps that bring a job back: none of them leaves a job `Pending`
or in `RetryWait` that has used up its attempts.

* `Bounded`: the bound, a property of single rows.
* `Counted`: the receipts of a job are numbered from 1 up to its attempt.
* `attempt_accounting`: both in every reachable state, and so no job is granted
  more often than it may be.
-/

namespace Minisqlite

open Tables Runs

/-- The attempts of a job that is to be leased are not used up. -/
structure Bounded (job : JobRow) : Prop where
  le : job.attempt ≤ job.spec.maxAttempts
  lt : job.state = .pending ∨ job.state = .retryWait → job.attempt < job.spec.maxAttempts

/-- The attempt numbers on the receipts of a job, in the order of the grants. -/
def receiptAttempts (receipts : List ClaimReceiptRow) (jobId : Id) : List Nat :=
  (receipts.filter fun r => decide (r.jobId = jobId)).map fun r => r.attempt.toNat

/-- The attempt of a job; a job that does not exist has none. -/
def Db.attempt (db : Db) (jobId : Id) : Nat :=
  ((db.job jobId).map fun job => job.attempt.toNat).getD 0

/-- Each job has the receipts `1, …, attempt`. -/
def Counted (db : Db) : Prop :=
  ∀ jobId, receiptAttempts db.claimReceipts.rows jobId =
    (List.range (db.attempt jobId)).map fun i => i + 1

namespace AttemptLemmas

variable {db db' : Db} {job : JobRow}

/-! ## The bound -/

theorem lt_of_left (h : job.exhausted = false) : job.attempt < job.spec.maxAttempts := by
  simpa [JobRow.exhausted] using h

/-- A granted attempt does not wrap around. -/
theorem attempt_succ (h : job.attempt < job.spec.maxAttempts) :
    (job.attempt + 1).toNat = job.attempt.toNat + 1 := by
  have hlt := UInt32.lt_iff_toNat_lt.mp h
  have hmax := job.spec.maxAttempts.toNat_lt
  rw [UInt32.toNat_add]
  exact Nat.mod_eq_of_lt (by simpa using by omega)

theorem bounded_row (spec : JobSpec) (sequence : Int64) (tid : Id)
    (h : (spec.row sequence tid).check = true) : Bounded (spec.row sequence tid) := by
  have hpos : (0 : UInt32) < spec.maxAttempts := by
    simp only [JobRow.check, Bool.and_eq_true, decide_eq_true_eq] at h
    exact h.1.1.1.1
  exact ⟨UInt32.le_of_lt hpos, fun _ => hpos⟩

theorem bounded_terminal {state : JobState} (hstate : state.isTerminal = true) (h : Bounded job)
    (now : Int64) (tid : Id) (digest : Option Bytes) (summary : Option String) :
    Bounded ((JobUpdate.terminal state now tid digest summary).set job) :=
  ⟨h.le, by rintro (rfl | rfl) <;> cases hstate⟩

theorem bounded_operation {batch : CommitBatch} {op : Operation} {u : JobUpdate}
    (hstep : JobStep batch job op u) (h : Bounded job) : Bounded (u.set job) := by
  cases hstep with
  | ack => exact bounded_terminal rfl h _ _ _ _
  | failDead => exact bounded_terminal rfl h _ _ _ _
  | failRetry _ _ left => exact ⟨h.le, fun _ => lt_of_left left⟩
  | cancelPending => exact bounded_terminal rfl h _ _ _ _
  | cancelLeased => exact bounded_terminal rfl h _ _ _ _
  | resolveRetry _ left => exact ⟨h.le, fun _ => lt_of_left left⟩
  | resolveTerminal _ terminal => exact bounded_terminal terminal h _ _ _ _
  | extend => exact ⟨h.le, h.lt⟩

theorem bounded_repair (tid : Id) (now : Int64) (h : Bounded job) :
    Bounded ((job.repair tid now).set job) := by
  unfold JobRow.repair
  rcases expiredTo_cases job with hto | ⟨hto, hleft⟩ | ⟨hto, -⟩ <;> rw [hto]
  · exact ⟨h.le, by simp [JobUpdate.nonterminal]⟩
  · exact ⟨h.le, fun _ => lt_of_left hleft⟩
  · exact bounded_terminal rfl h _ _ _ _

theorem bounded_step {u : JobUpdate} (hstep : RowStep job u) (h : Bounded job) :
    Bounded (u.set job) := by
  cases hstep with
  | operation step => exact bounded_operation step h
  | repair => exact bounded_repair _ _ h
  | lease _ _ ready =>
    refine ⟨UInt32.le_iff_toNat_le.mpr ?_, by simp [JobUpdate.lease]⟩
    have hlt := h.lt (state_of_ready ready)
    show (job.attempt + 1).toNat ≤ job.spec.maxAttempts.toNat
    rw [attempt_succ hlt]
    exact UInt32.lt_iff_toNat_lt.mp hlt

theorem bounded_after (calls : List Call) :
    ∀ job ∈ (controlPlane.after calls).db.jobs.rows, Bounded job :=
  rows_after (rowInvariant_of_rows bounded_row fun _ _ _ hstep => bounded_step hstep)
    (by simp [Db.empty, Table.empty]) calls

/-! ## The receipts -/

theorem attempt_of_step {batch : CommitBatch} {op : Operation} {u : JobUpdate}
    (hstep : JobStep batch job op u) : (u.set job).attempt = job.attempt := by
  cases hstep <;> rfl

theorem attempt_of_repair (job : JobRow) (tid : Id) (now : Int64) :
    ((job.repair tid now).set job).attempt = job.attempt := by
  unfold JobRow.repair
  split <;> rfl

/-- No operation touches an attempt, on the row or on a receipt. -/
theorem attempt_of_change {batch : CommitBatch} {op : Operation} {jobId : Id}
    (h : JobChange batch op jobId (db.job jobId) (db'.job jobId)) :
    db'.attempt jobId = db.attempt jobId := by
  unfold Db.attempt
  generalize db.job jobId = before, db'.job jobId = after at h
  cases h with
  | same => rfl
  | enqueued => rfl
  | step about step =>
    show (JobUpdate.set _ _).attempt.toNat = _
    rw [attempt_of_step step]
    rfl

theorem receiptAttempts_onReceipt (op : Operation) (receipts : List ClaimReceiptRow) (jobId : Id) :
    receiptAttempts (receipts.map op.onReceipt) jobId = receiptAttempts receipts jobId := by
  have hkept : ∀ r : ClaimReceiptRow,
      (op.onReceipt r).jobId = r.jobId ∧ (op.onReceipt r).attempt = r.attempt := fun r => by
    have := onReceipt_grant op r
    simp only [ClaimReceiptRow.grant, Grant.mk.injEq] at this
    exact ⟨this.2.1, this.2.2.2.1⟩
  simp only [receiptAttempts, List.filter_map, List.map_map, Function.comp_def, hkept]

theorem receiptAttempts_append (receipts more : List ClaimReceiptRow) (jobId : Id) :
    receiptAttempts (receipts ++ more) jobId =
      receiptAttempts receipts jobId ++ receiptAttempts more jobId := by
  simp [receiptAttempts]

theorem counted_of_operation
    {op : Operation} (hreceipts : db'.claimReceipts.rows = db.claimReceipts.rows.map op.onReceipt)
    (hattempt : ∀ jobId, db'.attempt jobId = db.attempt jobId) (h : Counted db) : Counted db' := by
  intro jobId
  rw [hreceipts, receiptAttempts_onReceipt, hattempt, h]

/-- A claim adds a receipt for each lease, with the job's next number. -/
theorem counted_of_claim {request : ClaimRequest} {entropy : Entropy} {staged : StagedClaim}
    {leases : List ProposedLease} {expiryMs : Int64}
    (hwrite : ClaimWrite db request entropy staged leases expiryMs)
    (hbounded : ∀ job ∈ db.jobs.rows, Bounded job) (h : Counted db) : Counted staged.db := by
  intro jobId
  rw [hwrite.receipts, receiptAttempts_append, h]
  have hnone (hnot : ∀ lease ∈ leases, lease.job.spec.jobId ≠ jobId) : receiptAttempts
      (leases.map (ProposedLease.receipt staged.transactionId request expiryMs)) jobId = [] := by
    simpa [receiptAttempts, ProposedLease.receipt] using hnot
  have hchange := hwrite.change jobId
  simp only [Db.attempt]
  generalize hbefore : db.job jobId = before, staged.db.job jobId = after at hchange ⊢
  cases hchange with
  | same notLeased => rw [hnone notLeased, List.append_nil]
  | @repaired job notLeased =>
    rw [hnone notLeased, List.append_nil, Option.map_some, Option.map_some, attempt_of_repair]
  | @leased lease _ granted about _ ready =>
    have hlt := (hbounded _ (job_eq_some.mp hbefore).1).lt (state_of_ready ready)
    -- The job was leased once, so one receipt is its.
    have hone : receiptAttempts
        (leases.map (ProposedLease.receipt staged.transactionId request expiryMs)) jobId =
        [lease.job.attempt.toNat + 1] := by
      rw [receiptAttempts, List.filter_map, ← about]
      show ((leases.filter fun l =>
        decide (l.job.spec.jobId = lease.job.spec.jobId)).map _).map _ = _
      rw [Table.filter_key hwrite.nodup granted, ← attempt_succ hlt]
      rfl
    rw [hone]
    show _ = (List.range (lease.job.attempt + 1).toNat).map _
    rw [attempt_succ hlt, List.range_succ, List.map_append]
    rfl

theorem counted_of_call {call : Call} {entries : List Entry} (h : CallEffect db call db' entries)
    (hbounded : ∀ job ∈ db.jobs.rows, Bounded job) (hcounted : Counted db) : Counted db' := by
  cases h with
  | unchanged => exact hcounted
  | commit persists staged =>
    exact stageBatch_induction (P := Counted) (fun _ _ _ h => h)
      (fun _ _ _ happlies => counted_of_operation (applyOperation_receipts happlies.apply)
        fun jobId => attempt_of_change (applyOperation_change happlies.apply jobId))
      (stageCommit_staged staged).2.2 hcounted
  | claim persists staging =>
    obtain ⟨leases, expiryMs, hwrite⟩ := stageClaim_write staging
    exact counted_of_claim hwrite hbounded hcounted
  | extend persists staged =>
    obtain ⟨batch, hwrite⟩ := applyExtendLease_direct staged
    exact counted_of_operation hwrite.receipts
      (fun jobId => attempt_of_change (hwrite.effect.change jobId)) hcounted

theorem counted_after (calls : List Call) : Counted (controlPlane.after calls).db :=
  controlPlane.after_induction (P := fun _ store => Counted store.db) (fun _ => rfl)
    (fun calls call ih => counted_of_call (next_effect _ call) (bounded_after calls) ih) calls

end AttemptLemmas

open AttemptLemmas

/-- Attempt accounting in every reachable state. A job has not been attempted
more often than it may be, and less often when it is to be leased again; its
receipts carry the numbers `1, …, attempt`; so the run has granted it at most
`max_attempts` leases; and no claim makes its attempt wrap around. -/
theorem attempt_accounting (calls : List Call) :
    (∀ job ∈ (controlPlane.after calls).db.jobs.rows,
      job.attempt ≤ job.spec.maxAttempts ∧
      (job.state = .pending ∨ job.state = .retryWait → job.attempt < job.spec.maxAttempts) ∧
      receiptAttempts (controlPlane.after calls).db.claimReceipts.rows job.spec.jobId =
        (List.range job.attempt.toNat).map (fun i => i + 1) ∧
      ((grants calls).filter fun g => decide (g.jobId = job.spec.jobId)).length ≤
        job.spec.maxAttempts.toNat) ∧
    (∀ g ∈ grants calls, ∃ job ∈ (controlPlane.after calls).db.jobs.rows,
      job.spec.jobId = g.jobId) ∧
    ∀ request entropy plan, planLeases (controlPlane.after calls).db request entropy = .ok plan →
      ∀ lease ∈ plan.leases, lease.job.attempt.toNat + 1 < 2 ^ 32 := by
  have hbounded := bounded_after calls
  have hcounted := counted_after calls
  have hgrants := receipts_granted calls
  generalize (controlPlane.after calls).db = db at hbounded hcounted hgrants ⊢
  have hcount : ∀ jobId, ((grants calls).filter fun g => decide (g.jobId = jobId)).length =
      db.attempt jobId := by
    intro jobId
    rw [← hgrants, List.filter_map, List.length_map]
    have := congrArg List.length (hcounted jobId)
    rwa [receiptAttempts, List.length_map, List.length_map, List.length_range] at this
  have hattempt : ∀ job ∈ db.jobs.rows, db.attempt job.spec.jobId = job.attempt.toNat :=
    fun job hjob => by rw [Db.attempt, job_of_mem hjob]; rfl
  refine ⟨fun job hjob => ?_, fun g hg => ?_, fun request entropy plan hplan lease hlease => ?_⟩
  · have h := hbounded job hjob
    refine ⟨h.le, h.lt, ?_, ?_⟩
    · rw [hcounted, hattempt job hjob]
    · rw [hcount, hattempt job hjob]
      exact UInt32.le_iff_toNat_le.mp h.le
  · by_contra hno
    have hnone : db.job g.jobId = none :=
      Table.lookup_eq_none.mpr fun job hjob he => hno ⟨job, hjob, he⟩
    have hzero := hcount g.jobId
    rw [Db.attempt, hnone] at hzero
    exact absurd (List.mem_filter.mpr ⟨hg, by simp⟩)
      (List.length_eq_zero_iff.mp hzero ▸ List.not_mem_nil)
  · obtain ⟨hready, partition, hhead⟩ := (planLeases_spec hplan).1 lease hlease
    have hlt := (hbounded lease.job (partitionHead_spec hhead).1).lt (state_of_ready hready)
    have hmax := lease.job.spec.maxAttempts.toNat_lt
    have := UInt32.lt_iff_toNat_lt.mp hlt
    omega

end Minisqlite
