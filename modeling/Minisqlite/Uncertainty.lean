import Minisqlite.Effects.ClaimRows
import Minisqlite.Journal
import Minisqlite.Store.Export

/-!
# The age of uncertain jobs

No column of a job says since when it is `Uncertain`. `stats` reads it off the
transaction that wrote the row last. That is the age because no operation writes
the row of a job and leaves it `Uncertain`, and because only the maintenance of a
claim makes a job `Uncertain`.

* `uncertain_of_change`: an operation leaves no job `Uncertain` that it has written.
* `uncertain_of_call`: the row of an `Uncertain` job is that of the state before the
  call, or the call is a claim and has moved the job there.
* `UncertainSince`: the claim that began the current period, and there is one.
* `uncertainty_age_truthful`: over runs, with what `stats` answers.
-/

namespace Minisqlite

open Tables Runs

/-- The maintenance of the claim moves the job to `Uncertain`. -/
def MovesToUncertain (db : Db) (request : ClaimRequest) (jobId : Id) : Prop :=
  ∃ action ∈ planMaintenance db request, db.job jobId = some action.job ∧
    action.job.state ≠ .uncertain ∧ action.target = .uncertain

/-- Call `i` is a persisted claim whose maintenance moved the job to `Uncertain`,
where it has been ever since. -/
structure UncertainSince (calls : List Call) (i : Nat) (request : ClaimRequest)
    (staged : StagedClaim) (jobId : Id) : Prop where
  persisted : ClaimPersisted calls i request staged
  moved : MovesToUncertain (controlPlane.stateAt calls i).db request jobId
  since : ∀ k, i < k → k ≤ calls.length →
    ∃ row, (controlPlane.stateAt calls k).db.job jobId = some row ∧ row.state = .uncertain

namespace UncertaintyLemmas

/-! ## One call -/

theorem step_not_uncertain {batch : CommitBatch} {job : JobRow} {op : Operation} {u : JobUpdate}
    (h : JobStep batch job op u) : (u.set job).state ≠ .uncertain := by
  cases h with
  | ack | failDead | failRetry | cancelPending | cancelLeased | resolveRetry => exact nofun
  | @resolveTerminal _ _ state _ _ terminal =>
    intro hstate
    rw [show state = .uncertain from hstate] at terminal
    cases terminal
  | extend leased =>
    intro hstate
    rw [show job.state = .uncertain from hstate] at leased
    cases leased

/-- An operation leaves no job `Uncertain` that it has written. -/
theorem uncertain_of_change {batch : CommitBatch} {op : Operation} {jobId : Id}
    {before : Option JobRow} {job : JobRow} (h : JobChange batch op jobId before (some job))
    (huncertain : job.state = .uncertain) : before = some job := by
  cases h with
  | same => rfl
  | enqueued => cases huncertain
  | step _ step => exact absurd huncertain (step_not_uncertain step)

/-- What a claim leaves `Uncertain` it has not written, or it is in the maintenance
plan. -/
theorem uncertain_of_claim {db : Db} {request : ClaimRequest} {entropy : Entropy}
    {staged : StagedClaim} (h : stageClaim db request entropy = .ok (some staged)) {job : JobRow}
    (hjob : staged.db.job job.spec.jobId = some job) (huncertain : job.state = .uncertain) :
    db.job job.spec.jobId = some job ∨ job.updatedTransactionId = staged.transactionId ∧
      MovesToUncertain db request job.spec.jobId := by
  obtain ⟨expiryMs, plan, _, _, _, hphases⟩ := stageClaim_phases h
  obtain ⟨hmem, -⟩ := job_eq_some.mp hjob
  rw [hphases.rows] at hmem
  obtain ⟨before, hbefore, hrow⟩ := List.mem_map.mp hmem
  have hid : before.spec.jobId = job.spec.jobId := by rw [← hrow, claimedRow_spec]
  rcases hphases.row_cases hbefore hrow.symm with ⟨lease, -, -, hset⟩ |
    ⟨action, haction, rfl, hset⟩ | ⟨-, -, hsame⟩
  · rw [hset] at huncertain
    cases huncertain
  · obtain ⟨hstored, hexpired, htarget⟩ := planMaintenance_spec haction
    have hleased := (expiredIn_iff.mp hexpired).2.1
    right
    -- The repair went to `Uncertain`, so it was not that of an exhausted job.
    rw [JobRow.repair] at hset
    split at hset
    · rw [hset] at huncertain
      cases huncertain
    · refine ⟨by rw [hset]; rfl, action, haction, by rw [← hid]; exact job_of_mem hstored, ?_, ?_⟩
      · rw [hleased]
        decide
      · rw [htarget]
        rw [hset] at huncertain
        exact huncertain
  · obtain rfl := hsame
    exact .inl (job_of_mem hbefore)

/-- The row of an `Uncertain` job is that of the state before the call, or the call is
a claim and has moved the job there. -/
theorem uncertain_of_call {db db' : Db} {call : Call} {entries : List Entry}
    (heffect : CallEffect db call db' entries) {job : JobRow}
    (hjob : db'.job job.spec.jobId = some job) (huncertain : job.state = .uncertain) :
    db.job job.spec.jobId = some job ∨ ∃ request entropy step staged,
      call = .claimJobs request entropy step ∧ step.persists = true ∧
      stageClaim db request entropy = .ok (some staged) ∧
      job.updatedTransactionId = staged.transactionId ∧
      MovesToUncertain db request job.spec.jobId := by
  cases heffect with
  | unchanged => exact .inl hjob
  | commit persists staged =>
    refine .inl (stageBatch_induction (P := fun d =>
      d.job job.spec.jobId = some job → db.job job.spec.jobId = some job)
      (fun _ _ _ h => h) (fun tx tx' op happlies h hafter => h ?_) (stageCommit_staged staged).2.2
      id hjob)
    have hchange := applyOperation_change happlies.apply job.spec.jobId
    rw [hafter] at hchange
    exact uncertain_of_change hchange huncertain
  | claim persists staging =>
    rcases uncertain_of_claim staging hjob huncertain with hkept | hmoved
    · exact .inl hkept
    · exact .inr ⟨_, _, _, _, rfl, persists, staging, hmoved⟩
  | extend persists staged =>
    obtain ⟨batch, hwrite⟩ := applyExtendLease_direct staged
    have hchange := hwrite.effect.change job.spec.jobId
    rw [hjob] at hchange
    exact .inl (uncertain_of_change hchange huncertain)

/-! ## Runs -/

variable {calls : List Call} {i j : Nat} {request other : ClaimRequest}
  {staged staged' : StagedClaim} {jobId : Id} {job : JobRow}

/-- There is a claim that began the period, and the row has its transaction id. -/
theorem uncertainSince_of_job (hjob : (controlPlane.after calls).db.job job.spec.jobId = some job)
    (huncertain : job.state = .uncertain) :
    ∃ i request staged, UncertainSince calls i request staged job.spec.jobId ∧
      job.updatedTransactionId = staged.transactionId := by
  rw [← Machine.stateAt_length] at hjob
  obtain ⟨i, _, -, -, ⟨request, staged, hpersisted, hid, hmoved⟩, hsince⟩ :=
    Machine.stateAt_since (M := controlPlane)
      (P := fun store : ControlPlaneStore => store.db.job job.spec.jobId = some job)
      (q := fun m store _ => ∃ request staged, ClaimPersisted calls m request staged ∧
        job.updatedTransactionId = staged.transactionId ∧
        MovesToUncertain store.db request job.spec.jobId)
      nofun (fun m call hcall hafter => by
        rcases uncertain_of_call (next_effect _ call) hafter huncertain with hkept |
          ⟨request, entropy, step, staged, rfl, persists, staging, hmoved⟩
        · exact .inl hkept
        · exact .inr ⟨request, staged, ⟨entropy, step, hcall, persists, staging⟩, hmoved⟩) hjob
  exact ⟨i, request, staged, ⟨hpersisted, hmoved,
    fun k hik hk => ⟨job, hsince k hik hk, huncertain⟩⟩, hid⟩

/-- There is only one. -/
theorem uncertainSince_unique (h : UncertainSince calls i request staged jobId)
    (h' : UncertainSince calls j other staged' jobId) :
    j = i ∧ other = request ∧ staged' = staged := by
  have horder : ∀ {i j request other staged staged'}, UncertainSince calls i request staged jobId →
      UncertainSince calls j other staged' jobId → ¬ i < j := by
    intro i j request other staged staged' h h' hij
    obtain ⟨_, _, hcall, -⟩ := h'.persisted
    obtain ⟨row, hrow, huncertain⟩ :=
      h.since j hij (Nat.le_of_lt (List.getElem?_eq_some_iff.mp hcall).1)
    obtain ⟨action, -, hstored, hstate, -⟩ := h'.moved
    rw [hrow] at hstored
    exact hstate (Option.some.inj hstored ▸ huncertain)
  obtain rfl : j = i := Nat.le_antisymm (Nat.not_lt.mp (horder h h')) (Nat.not_lt.mp (horder h' h))
  obtain ⟨_, _, hcall, -, hstaging⟩ := h.persisted
  obtain ⟨_, _, hcall', -, hstaging'⟩ := h'.persisted
  rw [hcall] at hcall'
  cases hcall'
  rw [hstaging] at hstaging'
  cases hstaging'
  exact ⟨rfl, rfl, rfl⟩

/-- The transaction of the row has the time of the claim. -/
theorem committedAt_of_uncertainSince (h : UncertainSince calls i request staged jobId)
    (hid : job.updatedTransactionId = staged.transactionId) :
    ((controlPlane.after calls).db.transaction job.updatedTransactionId).map
      TransactionRow.committedAtMs = some request.nowMs := by
  obtain ⟨_, _, hcall, -⟩ := h.persisted
  obtain ⟨operationCount, sequence, hrow⟩ :=
    h.persisted.recorded (List.getElem?_eq_some_iff.mp hcall).1
  rw [Machine.stateAt_length] at hrow
  rw [hid, hrow]
  rfl

end UncertaintyLemmas

open UncertaintyLemmas

/-- The uncertainty age is truthful. In every reachable state an `Uncertain` job has
the transaction id of the one claim that began its current period there, so `stats`
answers the least time of these claims, and none exactly if no job is `Uncertain`. -/
theorem uncertainty_age_truthful (file : StoreFile) (calls : List Call) :
    (∀ job ∈ (controlPlane.after calls).db.jobsIn .uncertain, ∃ i request staged,
      UncertainSince calls i request staged job.spec.jobId ∧
      job.updatedTransactionId = staged.transactionId ∧
      ∀ j other staged', UncertainSince calls j other staged' job.spec.jobId →
        j = i ∧ other = request ∧ staged' = staged) ∧
    ((stats file (controlPlane.after calls).db).oldestUncertainJobMs = none ↔
      (controlPlane.after calls).db.jobsIn .uncertain = []) ∧
    ∀ ms, (stats file (controlPlane.after calls).db).oldestUncertainJobMs = some ms ↔
      (∃ job ∈ (controlPlane.after calls).db.jobsIn .uncertain, ∃ i request staged,
        UncertainSince calls i request staged job.spec.jobId ∧ request.nowMs = ms) ∧
      ∀ job ∈ (controlPlane.after calls).db.jobsIn .uncertain, ∀ i request staged,
        UncertainSince calls i request staged job.spec.jobId → ms ≤ request.nowMs := by
  have hexists : ∀ job ∈ (controlPlane.after calls).db.jobsIn .uncertain, ∃ i request staged,
      UncertainSince calls i request staged job.spec.jobId ∧
      job.updatedTransactionId = staged.transactionId := fun job hjob => by
    obtain ⟨hmem, hstate⟩ := List.mem_filter.mp hjob
    exact uncertainSince_of_job (job_of_mem hmem) (of_decide_eq_true hstate)
  -- The ages that `stats` joins together are the times of the claims.
  have hage : ∀ job ∈ (controlPlane.after calls).db.jobsIn .uncertain, ∀ i request staged,
      UncertainSince calls i request staged job.spec.jobId →
      ((controlPlane.after calls).db.transaction job.updatedTransactionId).map
        TransactionRow.committedAtMs = some request.nowMs := fun job hjob i request staged h => by
    obtain ⟨j, other, staged', h', hid⟩ := hexists job hjob
    obtain ⟨rfl, rfl, rfl⟩ := uncertainSince_unique h' h
    exact committedAt_of_uncertainSince h' hid
  have hmem : ∀ ms, ms ∈ ((controlPlane.after calls).db.jobsIn .uncertain).filterMap (fun job =>
      ((controlPlane.after calls).db.transaction job.updatedTransactionId).map
        TransactionRow.committedAtMs) ↔
      ∃ job ∈ (controlPlane.after calls).db.jobsIn .uncertain, ∃ i request staged,
        UncertainSince calls i request staged job.spec.jobId ∧ request.nowMs = ms := fun ms => by
    rw [List.mem_filterMap]
    refine exists_congr fun job => and_congr_right fun hjob => ⟨fun hms => ?_, ?_⟩
    · obtain ⟨i, request, staged, h, -⟩ := hexists job hjob
      rw [hage job hjob i request staged h] at hms
      exact ⟨i, request, staged, h, Option.some.inj hms⟩
    · rintro ⟨i, request, staged, h, rfl⟩
      exact hage job hjob i request staged h
  refine ⟨fun job hjob => ?_, ?_, fun ms => ?_⟩
  · obtain ⟨i, request, staged, h, hid⟩ := hexists job hjob
    exact ⟨i, request, staged, h, hid, fun j other staged' => uncertainSince_unique h⟩
  · show List.min? _ = none ↔ _
    rw [List.min?_eq_none_iff, List.filterMap_eq_nil_iff]
    constructor
    · intro hnone
      refine List.eq_nil_iff_forall_not_mem.mpr fun job hjob => ?_
      obtain ⟨i, request, staged, h, -⟩ := hexists job hjob
      have hms := hnone job hjob
      rw [hage job hjob i request staged h] at hms
      cases hms
    · intro hempty job hjob
      rw [hempty] at hjob
      cases hjob
  · show List.min? _ = some ms ↔ _
    rw [List.min?_eq_some_iff, hmem]
    refine and_congr_right fun _ => ⟨fun hleast job hjob i request staged h => ?_, ?_⟩
    · exact hleast _ ((hmem _).mpr ⟨job, hjob, i, request, staged, h, rfl⟩)
    · intro hleast ms' hms'
      obtain ⟨job, hjob, i, request, staged, h, rfl⟩ := (hmem _).mp hms'
      exact hleast job hjob i request staged h

/-- The claim at 200 found the lease over, and the one at 300 had nothing to do. -/
example : (stats ⟨0, 2, fun _ => 1, fun _ => 1⟩ (controlPlane.after
    [Sample.enqueue .requiresReconciliation, Sample.claim 20 5 .done, Sample.claim 30 200 .done,
      Sample.claim 40 300 .done]).db).oldestUncertainJobMs = some 200 := by
  decide

end Minisqlite
