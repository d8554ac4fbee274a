import Minisqlite.Claims
import Minisqlite.Effects.ClaimRows
import Minisqlite.Fairness

/-!
# What a claim reads

Queues share their tables, and two queues may use the same partition keys. A claim
still reads nothing of another queue.

1. `AgreeOn`: two databases agree on what a claim of the queue reads. Its plans are the
   same on both (`planMaintenance_agree`, `planLeases_agree`), and so is its answer
   (`staged_agree`, `claimJobs_answer`).
2. `sameJobs_of_update`, `sameJobs_of_insert`: a write of another queue's job keeps that,
   so a claim on another queue does (`agreeOn_of_claim`), and a batch that names only
   jobs of other queues (`agreeOn_of_commit`).
-/

namespace Minisqlite

open Tables Runs

/-! ## What a claim reads -/

/-- The two databases have the same jobs and partitions of the queue. -/
structure SameJobs (queue : String) (db db' : Db) : Prop where
  jobs : db'.jobs.rows.filter (fun job => decide (job.spec.queue = queue)) =
    db.jobs.rows.filter fun job => decide (job.spec.queue = queue)
  partitions : db'.activePartitions.rows.filter (fun row => decide (row.queue = queue)) =
    db.activePartitions.rows.filter fun row => decide (row.queue = queue)

/-- Two databases agree on all that a claim of the queue reads. -/
structure AgreeOn (queue : String) (db db' : Db) : Prop extends SameJobs queue db db' where
  cursor : db'.cursor queue = db.cursor queue

/-- The job operations of the batch name only jobs of other queues. -/
def CommitBatch.Elsewhere (batch : CommitBatch) (queue : String) (db : Db) : Prop :=
  ∀ op ∈ batch.operations,
    (∀ spec, op = .enqueueJob spec → spec.queue ≠ queue) ∧
    ∀ jobId job, op.jobId = some jobId → db.job jobId = some job → job.spec.queue ≠ queue

/-- A row of `transactions` without its sequence. -/
def TransactionRow.unnumbered (row : TransactionRow) : TransactionRow :=
  { row with transactionSequence := 0 }

/-- The same tables, but for the sequences of the transactions and the order of the
rows that no sequence orders. -/
structure SameContents (db db' : Db) : Prop where
  jobs : db'.jobs.rows = db.jobs.rows
  activePartitions : db'.activePartitions.rows = db.activePartitions.rows
  queueCursors : db'.queueCursors.rows.Perm db.queueCursors.rows
  claimReceipts : db'.claimReceipts.rows.Perm db.claimReceipts.rows
  transactions : (db'.transactions.rows.map TransactionRow.unnumbered).Perm
    (db.transactions.rows.map TransactionRow.unnumbered)
  events : db'.events = db.events
  streams : db'.streams = db.streams
  projectionMeta : db'.projectionMeta = db.projectionMeta
  projectionEntries : db'.projectionEntries = db.projectionEntries

namespace AgreementLemmas

open EffectLemmas ClaimLemmas ClaimTotalLemmas IndexLemmas FairnessLemmas

section Plans

variable {queue : String} {db db' : Db}

/-- A query on the queue's jobs sees only these. -/
theorem filter_agree (h : SameJobs queue db db') {p : JobRow → Bool}
    (hp : ∀ job, p job = true → job.spec.queue = queue) :
    db'.jobs.rows.filter p = db.jobs.rows.filter p := by
  have hsplit : ∀ rows : List JobRow, rows.filter p =
      (rows.filter fun job => decide (job.spec.queue = queue)).filter p := fun rows => by
    rw [List.filter_filter]
    refine List.filter_congr fun job _ => ?_
    cases hjob : p job with
    | false => rfl
    | true => simp [hp job hjob]
  rw [hsplit, h.jobs, ← hsplit]

theorem planMaintenance_agree {request : ClaimRequest} (h : AgreeOn request.queue db db') :
    planMaintenance db' request = planMaintenance db request := by
  unfold planMaintenance
  rw [filter_agree h.toSameJobs fun job hjob => (expiredIn_iff.mp hjob).1]

theorem partitionHead_agree (h : AgreeOn queue db db') (partition : String) :
    partitionHead db' queue partition = partitionHead db queue partition := by
  unfold partitionHead
  rw [filter_agree h.toSameJobs fun job hjob => (activeIn_iff.mp hjob).1]

theorem partitionsFromCursor_agree (h : AgreeOn queue db db') :
    partitionsFromCursor db' queue = partitionsFromCursor db queue := by
  have hcursor := h.cursor
  unfold Db.cursor at hcursor
  unfold partitionsFromCursor
  rw [h.partitions, hcursor]

theorem servable_agree {request : ClaimRequest} (h : AgreeOn request.queue db db') :
    servable db' request = servable db request := by
  funext partition
  rw [servable, partitionHead_agree h]
  rfl

theorem leaseCount_agree {request : ClaimRequest} (h : AgreeOn request.queue db db') :
    leaseCount db' request = leaseCount db request := by
  rw [leaseCount, servable_agree h, partitionsFromCursor_agree h]
  rfl

theorem leasePartitions_agree {request : ClaimRequest} (h : AgreeOn request.queue db db')
    (partitions : List String) (plan : LeasePlan) :
    leasePartitions db' request partitions plan = leasePartitions db request partitions plan := by
  induction partitions generalizing plan with
  | nil => rfl
  | cons partition rest ih =>
    unfold leasePartitions
    rw [partitionHead_agree h]
    simp only [ih]

theorem planLeases_agree {request : ClaimRequest} (h : AgreeOn request.queue db db')
    (entropy : Entropy) : planLeases db' request entropy = planLeases db request entropy := by
  unfold planLeases
  rw [partitionsFromCursor_agree h, leasePartitions_agree h]

end Plans

/-! ## What it does not read -/

section Writes

variable {queue : String} {db d d' : Db}

theorem sameJobs_refl (queue : String) (db : Db) : SameJobs queue db db := ⟨rfl, rfl⟩

theorem sameJobs_trans (h : SameJobs queue db d) (h' : SameJobs queue d d') :
    SameJobs queue db d' :=
  ⟨h'.jobs.trans h.jobs, h'.partitions.trans h.partitions⟩

theorem sameJobs_frame (hjobs : d'.jobs = d.jobs)
    (hpartitions : d'.activePartitions = d.activePartitions) : SameJobs queue d d' :=
  ⟨by rw [hjobs], by rw [hpartitions]⟩

/-- An `UPDATE` of another queue's job. -/
theorem sameJobs_of_update {job : JobRow} {u : JobUpdate} (found : d.job job.spec.jobId = some job)
    (hqueue : job.spec.queue ≠ queue) (hwrite : RowWrite d d' job u) : SameJobs queue d d' where
  jobs := by
    rw [hwrite.rows, List.filter_map]
    have hspec : ((fun job : JobRow => decide (job.spec.queue = queue)) ∘
        fun row => if row.spec.jobId = job.spec.jobId then u.set row else row) =
          fun job => decide (job.spec.queue = queue) := by
      funext row
      rw [Function.comp_apply]
      split
      · rw [u.spec]
      · rfl
    rw [hspec]
    refine (List.map_congr_left fun row hrow => ?_).trans (List.map_id _)
    obtain ⟨hmem, hrow⟩ := List.mem_filter.mp hrow
    refine if_neg fun hid => hqueue ?_
    rw [← eq_of_found found hmem hid]
    exact of_decide_eq_true hrow
  partitions := by
    rw [hwrite.index]
    split
    · show (d.activePartitions.rows.filter _).filter _ = _
      rw [List.filter_filter]
      refine List.filter_congr fun row _ => ?_
      by_cases hrow : row.queue = queue
      · simp [hrow, Ne.symm hqueue]
      · simp [hrow]
    · rfl

/-- The `INSERT` of another queue's job. -/
theorem sameJobs_of_insert {spec : JobSpec} {sequence : Int64} {tid : Id}
    (hqueue : spec.queue ≠ queue) (hinsert : RowInsert d d' spec sequence tid) :
    SameJobs queue d d' where
  jobs := by
    rw [hinsert.rows, List.filter_append]
    simp [JobSpec.row, hqueue]
  partitions := by
    rw [hinsert.index]
    rcases Table.insertOrIgnore_rows d.activePartitions
      ⟨spec.queue, spec.partitionKey, sequence⟩ with hrows | ⟨hrows, -⟩
    · rw [hrows, List.filter_append]
      simp [hqueue]
    · rw [hrows]

end Writes

/-! ## Claims of another queue -/

section Claims

variable {queue : String} {db db' db₁ db₂ db₃ : Db} {request : ClaimRequest} {entropy : Entropy}
  {staged : StagedClaim} {expiryMs : Int64} {plan : LeasePlan}

theorem agreeOn_of_claim (hqueue : request.queue ≠ queue)
    (h : stageClaim db request entropy = .ok (some staged)) : AgreeOn queue db staged.db where
  toSameJobs := by
    obtain ⟨expiryMs, plan, db₁, db₂, db₃, hphases⟩ := stageClaim_phases h
    refine hphases.induction (P := SameJobs queue db)
      (fun d d' hjobs hparts hd => sameJobs_trans hd (sameJobs_frame hjobs hparts)) ?_ ?_
      (sameJobs_refl _ _)
    · intro d d' job found hexpired hwrite hd
      exact sameJobs_trans hd
        (sameJobs_of_update found ((expiredIn_iff.mp hexpired).1 ▸ hqueue) hwrite)
    · intro d d' lease hlease found hwrite hd
      have hhead := partitionHead_spec (planLeases_head hphases.planned hlease)
      exact sameJobs_trans hd
        (sameJobs_of_update found ((activeIn_iff.mp hhead.2.1).1 ▸ hqueue) hwrite)
  cursor := by
    obtain ⟨served, -, -, hcursor⟩ := served_of_claim h
    rw [hcursor, if_neg hqueue]

/-- On databases that agree, a claim has the same plans and hands out the same ids. -/
theorem phases_agree {db₁' db₂' db₃' : Db} {staged' : StagedClaim} {expiryMs' : Int64}
    {plan' : LeasePlan} (h : AgreeOn request.queue db db')
    (hphases : ClaimPhases db request entropy staged expiryMs plan db₁ db₂ db₃)
    (hphases' : ClaimPhases db' request entropy staged' expiryMs' plan' db₁' db₂' db₃') :
    plan' = plan ∧ expiryMs' = expiryMs ∧ staged'.transactionId = staged.transactionId := by
  have hplan := (planLeases_agree h entropy).trans hphases.planned
  obtain rfl : plan' = plan := Except.ok.inj (hphases'.planned.symm.trans hplan)
  obtain ⟨rest, hnew⟩ := hphases.drawn
  obtain ⟨rest', hnew'⟩ := hphases'.drawn
  exact ⟨rfl, Except.ok.inj (hphases'.expiry.symm.trans hphases.expiry),
    (Prod.mk.inj (Except.ok.inj (hnew'.symm.trans hnew))).1⟩

/-- Where two databases agree on a queue, a claim of it stages the same leases in both. -/
theorem staged_agree (h : AgreeOn request.queue db db') {s s' : Option StagedClaim}
    (hs : stageClaim db request entropy = .ok s) (hs' : stageClaim db' request entropy = .ok s') :
    (s'.map fun staged => (staged.transactionId, staged.jobs)) =
      s.map fun staged => (staged.transactionId, staged.jobs) := by
  cases s with
  | none =>
    cases s' with
    | none => rfl
    | some staged' =>
      obtain ⟨_, plan, _, _, _, hphases⟩ := stageClaim_phases hs'
      refine absurd ?_ (stageClaim_some hphases.planned hs')
      rw [planMaintenance_agree h]
      exact stageClaim_noop ((planLeases_agree h entropy).symm.trans hphases.planned) hs
  | some staged =>
    obtain ⟨expiryMs, plan, _, _, _, hphases⟩ := stageClaim_phases hs
    have hplan' := (planLeases_agree h entropy).trans hphases.planned
    cases s' with
    | none =>
      refine absurd ?_ (stageClaim_some hphases.planned hs)
      rw [← planMaintenance_agree h]
      exact stageClaim_noop hplan' hs'
    | some staged' =>
      obtain ⟨expiryMs', plan', _, _, _, hphases'⟩ := stageClaim_phases hs'
      obtain ⟨rfl, rfl, htid⟩ := phases_agree h hphases hphases'
      rw [Option.map_some, Option.map_some, htid, hphases'.jobs, hphases.jobs]

/-- What a claim answers is known from what it has staged. -/
theorem claimJobs_answer {store store' : ControlPlaneStore} {s s' : Option StagedClaim}
    (hs : stageClaim store.db request entropy = .ok s)
    (hs' : stageClaim store'.db request entropy = .ok s')
    (h : (s'.map fun staged => (staged.transactionId, staged.jobs)) =
      s.map fun staged => (staged.transactionId, staged.jobs)) (step : CommitStep) :
    (store'.claimJobs request entropy step).2 = (store.claimJobs request entropy step).2 := by
  unfold ControlPlaneStore.claimJobs
  rw [hs, hs']
  cases s with
  | none =>
    cases s' with
    | none => rfl
    | some staged' => cases h
  | some staged =>
    cases s' with
    | none => cases h
    | some staged' =>
      obtain ⟨htid, hjobs⟩ := Prod.mk.inj (Option.some.inj h)
      cases step <;> simp [ControlPlaneStore.finish, ControlPlaneStore.claimOutcome, htid, hjobs]

/-- The database that a claim leaves. -/
theorem claimJobs_db {store : ControlPlaneStore} {s : Option StagedClaim}
    (hs : stageClaim store.db request entropy = .ok s) (step : CommitStep) :
    (store.claimJobs request entropy step).1.db =
      if step.persists then (s.map StagedClaim.db).getD store.db else store.db := by
  cases s with
  | none => simp [ControlPlaneStore.claimJobs, hs]
  | some staged =>
    rw [ControlPlaneStore.claimJobs_of_staged hs, ControlPlaneStore.finish_db]
    rfl

theorem agreeOn_refl (queue : String) (db : Db) : AgreeOn queue db db := ⟨⟨rfl, rfl⟩, rfl⟩

theorem agreeOn_of_call {store : ControlPlaneStore} {s : Option StagedClaim}
    (hqueue : request.queue ≠ queue) (hs : stageClaim store.db request entropy = .ok s)
    (step : CommitStep) :
    AgreeOn queue store.db (store.claimJobs request entropy step).1.db := by
  rw [claimJobs_db hs]
  split
  · cases s with
    | none => exact agreeOn_refl queue store.db
    | some staged => exact agreeOn_of_claim hqueue hs
  · exact agreeOn_refl queue store.db

end Claims

/-! ## Batches of other queues -/

section Batches

variable {queue : String} {db db' : Db} {batch : CommitBatch} {tx tx' : OpenBatch} {op : Operation}

theorem agreeOn_of_operation (helsewhere : batch.Elsewhere queue db) (hop : op ∈ batch.operations)
    (happly : applyOperation batch tx op = .ok tx') (h : AgreeOn queue db tx.db) :
    AgreeOn queue db tx'.db := by
  obtain ⟨henqueue, hnamed⟩ := helsewhere op hop
  cases hid : op.jobId with
  | none =>
    obtain ⟨hjobs, hparts, -, -, hcursors, -⟩ := applyOperation_noJob hid happly
    refine ⟨sameJobs_trans h.toSameJobs (sameJobs_frame hjobs hparts), ?_⟩
    rw [← h.cursor, Db.cursor, Db.cursor, hcursors]
  | some jobId =>
    have hwrite := (applyOperation_job hid happly).2
    refine ⟨sameJobs_trans h.toSameJobs ?_,
      by rw [← h.cursor, Db.cursor, Db.cursor, hwrite.queueCursors]⟩
    cases hwrite.effect with
    | enqueued write => exact sameJobs_of_insert (henqueue _ rfl) write
    | @updated _ job u found write about =>
      refine sameJobs_of_update found (fun hqueue => ?_) write
      -- The queue's jobs are those that the batch has found.
      have hmem : job ∈ tx.db.jobs.rows.filter fun job => decide (job.spec.queue = queue) :=
        List.mem_filter.mpr ⟨(job_eq_some.mp found).1, decide_eq_true hqueue⟩
      rw [h.jobs] at hmem
      exact hnamed _ job about (job_of_mem (List.mem_filter.mp hmem).1) hqueue

theorem agreeOn_of_batch {receipt : CommitReceipt} (helsewhere : batch.Elsewhere queue db)
    (h : stageBatch db batch = .ok (db', receipt)) : AgreeOn queue db db' := by
  refine stageBatch_induction (P := AgreeOn queue db) (fun d transactions streams hd =>
    ⟨⟨hd.jobs, hd.partitions⟩, hd.cursor⟩) ?_ h
    (agreeOn_refl queue db)
  rintro tx tx' op ⟨_, _, pre, post, -, hops, -, happly⟩ htx
  exact agreeOn_of_operation helsewhere (by simp [hops]) happly htx

theorem agreeOn_of_commit {store : ControlPlaneStore} (helsewhere : batch.Elsewhere queue store.db)
    (limits : Limits) (step : CommitStep) :
    AgreeOn queue store.db (store.commit limits batch step).1.db := by
  have heffect := next_effect store (.commit limits batch step)
  change CallEffect store.db _ (store.commit limits batch step).1.db _ at heffect
  generalize (store.commit limits batch step).1.db = db', store.entries _ = entries at heffect ⊢
  cases heffect with
  | unchanged => exact agreeOn_refl queue store.db
  | commit persists staged => exact agreeOn_of_batch helsewhere (stageCommit_staged staged).2.2

end Batches

end AgreementLemmas

end Minisqlite
