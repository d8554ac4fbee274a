import Minisqlite.Journal
import Minisqlite.Lib.Line

/-!
# Partition order

The jobs of a partition are a waiting line in the order of their enqueue
sequences. Only its head is ever worked on: every other nonterminal job is
`Pending` and has never been leased.

* `fifo_step`: one call keeps the order; the claim is the case that needs the
  choice of the head, the operations only ever meet jobs that were leased.
* `partition_fifo`: every reachable state, and what it means for a grant.
-/

namespace Minisqlite

open Tables Runs Lines

/-- Partitions as waiting lines. -/
def partitionLine : Discipline JobRow (String × String) Int where
  key job := (job.spec.queue, job.spec.partitionKey)
  rank job := job.enqueueSequence.toInt
  active job := job.state.isTerminal = false
  fresh job := job.state = .pending ∧ job.attempt = 0

/-- Every nonterminal job behind another one of its partition is untouched. -/
def Fifo (db : Db) : Prop := HeadOnly partitionLine db.jobs.rows

namespace PartitionLemmas

variable {db db' : Db}

theorem key_update (u : JobUpdate) (job : JobRow) :
    partitionLine.key (u.set job) = partitionLine.key job ∧
      partitionLine.rank (u.set job) = partitionLine.rank job := by
  simp [partitionLine, u.spec, u.enqueueSequence]

/-- A job that is or was leased has been started. -/
theorem started_of_resolvable {job : JobRow} (h : job.resolvable) :
    partitionLine.active job ∧ ¬ partitionLine.fresh job := by
  rcases h with h | h <;> simp [partitionLine, h, JobState.isTerminal]

/-- An operation on a stored job keeps it active only if it was started. -/
theorem started_of_jobStep {batch : CommitBatch} {job : JobRow} {op : Operation} {u : JobUpdate}
    (hstep : JobStep batch job op u) (hactive : partitionLine.active (u.set job)) :
    job.resolvable := by
  cases hstep with
  | failRetry leased => exact .inl leased
  | resolveRetry resolvable => exact resolvable
  | extend leased => exact .inl leased
  | resolveTerminal resolvable => exact resolvable
  | ack leased => exact .inl leased
  | failDead leased => exact .inl leased
  | cancelLeased leased => exact .inl leased
  | cancelPending pending => cases hactive

/-- A call or an operation that rewrites rows one by one: each active row was
there, unchanged, or started, or a head. -/
theorem fifo_rewrite (h : Fifo db)
    (rows : ∀ b' ∈ db'.jobs.rows, partitionLine.active b' → ∃ b ∈ db.jobs.rows,
      partitionLine.key b = partitionLine.key b' ∧ partitionLine.rank b = partitionLine.rank b' ∧
      partitionLine.active b ∧
      (b = b' ∨ ¬ partitionLine.fresh b ∨ IsHead partitionLine db.jobs.rows b)) : Fifo db' := by
  refine HeadOnly.step h (fun b' hb' hactive hstarted => ?_) fun a' ha' hactive => ?_
  · obtain ⟨b, hb, hkey, hrank, hact, rfl | hmoved⟩ := rows b' hb' hactive
    · exact ⟨b, hb, hkey, hrank, hact, .inl hstarted⟩
    · exact ⟨b, hb, hkey, hrank, hact, hmoved⟩
  · obtain ⟨a, ha, hkey, hrank, hact, -⟩ := rows a' ha' hactive
    exact .inl ⟨a, ha, hkey, hrank, hact⟩

theorem fifo_of_jobEffect {batch : CommitBatch} {op : Operation}
    (heffect : JobEffect batch db db' op) (h : Fifo db) : Fifo db' := by
  cases heffect with
  | enqueued write =>
    -- The new job is fresh and goes to the end of every line.
    refine HeadOnly.step h (fun b' hb' hactive hstarted => ?_) fun a' ha' hactive => ?_
    · rw [write.rows] at hb'
      rcases List.mem_append.mp hb' with hb' | hb'
      · exact ⟨b', hb', rfl, rfl, hactive, .inl hstarted⟩
      · obtain rfl := List.mem_singleton.mp hb'
        exact absurd ⟨rfl, rfl⟩ hstarted
    · rw [write.rows] at ha'
      rcases List.mem_append.mp ha' with ha' | ha'
      · exact .inl ⟨a', ha', rfl, rfl, hactive⟩
      · obtain rfl := List.mem_singleton.mp ha'
        exact .inr fun b hb => Int64.lt_iff_toInt_lt.mp (write.last b hb)
  | @updated _ job u found write about step =>
    refine fifo_rewrite h fun b' hb' hactive => ?_
    rw [write.rows] at hb'
    obtain ⟨b, hb, rfl⟩ := List.mem_map.mp hb'
    by_cases hid : b.spec.jobId = job.spec.jobId
    · rw [if_pos hid] at hactive ⊢
      obtain rfl := eq_of_found found hb hid
      obtain ⟨hact, hstarted⟩ := started_of_resolvable (started_of_jobStep step hactive)
      exact ⟨b, hb, (key_update u b).1.symm, (key_update u b).2.symm, hact, .inr (.inl hstarted)⟩
    · rw [if_neg hid] at hactive ⊢
      exact ⟨b, hb, rfl, rfl, hactive, .inl rfl⟩

theorem fifo_of_operation {batch : CommitBatch} {op : Operation} {tx tx' : OpenBatch}
    (happly : applyOperation batch tx op = .ok tx') (h : Fifo tx.db) : Fifo tx'.db := by
  cases hid : op.jobId with
  | none =>
    rw [Fifo, (applyOperation_noJob hid happly).1]
    exact h
  | some jobId => exact fifo_of_jobEffect (applyOperation_job hid happly).2.effect h

/-- The head that a claim leases is the head of its line. -/
theorem isHead_of_partitionHead {queue partitionKey : String} {job : JobRow}
    (h : partitionHead db queue partitionKey = some job) :
    partitionLine.active job ∧ IsHead partitionLine db.jobs.rows job := by
  obtain ⟨-, hactive, hfirst⟩ := partitionHead_spec h
  obtain ⟨hqueue, hpartition, hstate⟩ := activeIn_iff.mp hactive
  refine ⟨hstate, fun a ha hkey haa => Int64.le_iff_toInt_le.mp (hfirst a ha ?_)⟩
  simp only [partitionLine, Prod.mk.injEq, hqueue, hpartition] at hkey
  exact activeIn_iff.mpr ⟨hkey.1, hkey.2, haa⟩

/-- The first job of a line that has been started is its head. -/
theorem partitionHead_of_started (h : Fifo db) {job : JobRow} (hjob : job ∈ db.jobs.rows)
    (hactive : partitionLine.active job) (hstarted : ¬ partitionLine.fresh job) :
    partitionHead db job.spec.queue job.spec.partitionKey = some job := by
  have hmem := activeIn_iff.mpr ⟨rfl, rfl, hactive⟩
  cases hhead : partitionHead db job.spec.queue job.spec.partitionKey with
  | none =>
    have hsorted := (List.mem_insertionSort fun a b : JobRow =>
      a.enqueueSequence ≤ b.enqueueSequence).mpr (List.mem_filter.mpr ⟨hjob, hmem⟩)
    rw [List.head?_eq_none_iff.mp hhead] at hsorted
    cases hsorted
  | some head =>
    obtain ⟨hhead, hactive', hfirst⟩ := partitionHead_spec hhead
    obtain ⟨hqueue, hpartition, hstate⟩ := activeIn_iff.mp hactive'
    have hle := h.isHead hjob hactive hstarted head hhead (Prod.ext hqueue hpartition) hstate
    rw [Table.eq_of_key jobs_unique_sequence db.jobs hhead hjob
      (Int64.le_antisymm (hfirst job hjob hmem) (Int64.le_iff_toInt_le.mpr hle))]

theorem fifo_of_claim {request : ClaimRequest} {entropy : Entropy} {staged : StagedClaim}
    (hstage : stageClaim db request entropy = .ok (some staged)) (h : Fifo db) :
    Fifo staged.db := by
  obtain ⟨leases, expiryMs, hwrite⟩ := stageClaim_write hstage
  refine fifo_rewrite h fun b' hb' hactive => ?_
  have hchange := hwrite.change b'.spec.jobId
  rw [job_of_mem hb'] at hchange
  generalize hbefore : db.job b'.spec.jobId = before at hchange
  cases hchange with
  | same => exact ⟨b', (job_eq_some.mp hbefore).1, rfl, rfl, hactive, .inl rfl⟩
  | @repaired job _ expired =>
    -- An expired job was leased, so it had been started before.
    obtain ⟨hact, hstarted⟩ := started_of_resolvable (.inl (expiredIn_iff.mp expired).2.1)
    exact ⟨job, (job_eq_some.mp hbefore).1, (key_update _ job).1.symm, (key_update _ job).2.symm,
      hact, .inr (.inl hstarted)⟩
  | @leased lease partitionKey granted about head ready =>
    obtain ⟨hact, hhead⟩ := isHead_of_partitionHead head
    exact ⟨lease.job, (job_eq_some.mp hbefore).1, (key_update _ _).1.symm, (key_update _ _).2.symm,
      hact, .inr (.inr hhead)⟩

end PartitionLemmas

open PartitionLemmas

/-- One call keeps the order. -/
theorem CallEffect.fifo {db db' : Db} {call : Call} {entries : List Entry}
    (heffect : CallEffect db call db' entries) (h : Fifo db) : Fifo db' := by
  cases heffect with
  | unchanged => exact h
  | commit persists staged =>
    exact stageBatch_induction (P := Fifo) (fun _ _ _ h => h)
      (fun _ _ _ happlies => fifo_of_operation happlies.apply) (stageCommit_staged staged).2.2 h
  | claim persists staging => exact fifo_of_claim staging h
  | extend persists staged =>
    obtain ⟨batch, hwrite⟩ := applyExtendLease_direct staged
    exact fifo_of_jobEffect hwrite.effect h

theorem fifo_after (calls : List Call) : Fifo (controlPlane.after calls).db :=
  controlPlane.after_induction (P := fun _ store => Fifo store.db) (by intro a ha; cases ha)
    (fun _ call ih => (next_effect _ call).fifo ih) calls

/-- Two jobs of one partition. -/
def JobRow.samePartition (a b : JobRow) : Prop :=
  a.spec.queue = b.spec.queue ∧ a.spec.partitionKey = b.spec.partitionKey

/-- The states in which a job blocks the rest of its partition. -/
def JobState.blocking (state : JobState) : Prop :=
  state = .leased ∨ state = .retryWait ∨ state = .uncertain

theorem PartitionLemmas.started_of_blocking {job : JobRow} (h : job.state.blocking) :
    partitionLine.active job ∧ ¬ partitionLine.fresh job := by
  rcases h with h | h | h <;> simp [partitionLine, h, JobState.isTerminal]

theorem PartitionLemmas.key_of_samePartition {a b : JobRow} (h : a.samePartition b) :
    partitionLine.key a = partitionLine.key b :=
  Prod.ext h.1 h.2

/-- Partition order in every reachable state: a nonterminal job behind another
one is `Pending` and was never leased; at most one job of a partition is leased,
waits for a retry or is uncertain, and no nonterminal job is ahead of it; and
when a claim leases a job, every earlier job of its partition is terminal. -/
theorem partition_fifo (calls : List Call) :
    (∀ a ∈ (controlPlane.after calls).db.jobs.rows, ∀ b ∈ (controlPlane.after calls).db.jobs.rows,
      a.samePartition b → a.state.isTerminal = false → b.state.isTerminal = false →
      a.enqueueSequence < b.enqueueSequence → b.state = .pending ∧ b.attempt = 0) ∧
    (∀ a ∈ (controlPlane.after calls).db.jobs.rows, ∀ b ∈ (controlPlane.after calls).db.jobs.rows,
      a.samePartition b → a.state.blocking → b.state.blocking → a = b) ∧
    (∀ a ∈ (controlPlane.after calls).db.jobs.rows, ∀ b ∈ (controlPlane.after calls).db.jobs.rows,
      a.samePartition b → a.state.isTerminal = false → b.state.blocking →
      b.enqueueSequence ≤ a.enqueueSequence) ∧
    ∀ request entropy staged,
      stageClaim (controlPlane.after calls).db request entropy = .ok (some staged) →
      ∀ claimed ∈ staged.jobs, ∃ job,
        (controlPlane.after calls).db.job claimed.jobId = some job ∧
        ∀ other ∈ (controlPlane.after calls).db.jobs.rows, other.samePartition job →
          other.enqueueSequence < job.enqueueSequence → other.state.isTerminal = true := by
  have hfifo := fifo_after calls
  generalize (controlPlane.after calls).db = db at hfifo ⊢
  refine ⟨?_, ?_, ?_, ?_⟩
  · intro a ha b hb hsame haa hba hlt
    exact hfifo a ha b hb (key_of_samePartition hsame) haa hba (Int64.lt_iff_toInt_lt.mp hlt)
  · intro a ha b hb hsame hblocking hblocking'
    obtain ⟨haa, has⟩ := started_of_blocking hblocking
    obtain ⟨hba, hbs⟩ := started_of_blocking hblocking'
    have hrank := hfifo.rank_eq ha hb (key_of_samePartition hsame) haa hba has hbs
    exact Table.eq_of_key jobs_unique_sequence db.jobs ha hb (Int64.toInt_inj.mp hrank)
  · intro a ha b hb hsame haa hblocking
    obtain ⟨hba, hbs⟩ := started_of_blocking hblocking
    exact Int64.le_iff_toInt_le.mpr
      (hfifo.isHead hb hba hbs a ha (key_of_samePartition hsame) haa)
  · intro request entropy staged hstage claimed hclaimed
    obtain ⟨leases, expiryMs, hwrite⟩ := stageClaim_write hstage
    rw [hwrite.jobs] at hclaimed
    obtain ⟨lease, hlease, rfl⟩ := List.mem_map.mp hclaimed
    refine ⟨lease.job, hwrite.stored lease hlease, fun other hother hsame hlt => ?_⟩
    obtain ⟨partitionKey, hhead⟩ := hwrite.head lease hlease
    by_contra hactive
    obtain ⟨-, hfirst⟩ := isHead_of_partitionHead hhead
    have := hfirst other hother (key_of_samePartition hsame) (Bool.eq_false_of_not_eq_true hactive)
    exact absurd (Int64.lt_iff_toInt_lt.mp hlt) (Int.not_lt.mpr this)

end Minisqlite
