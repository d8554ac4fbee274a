import Minisqlite.Progress

/-!
# Parked jobs

Whether every nonterminal job can still be finished. A job that waits for its retry
has to be leased first, and no claim leases it when its retry time is the last
`i64`: the lease would expire past it.

* `finish_unparked`: any other job can be finished.
* `parked_stays`: no call whatever changes the row of a parked job.
* `unparked_at`, `parked_at`: which calls park a job.
* `job_finishable_iff`: so a job can be finished exactly if it is not parked.
-/

namespace Minisqlite

open Tables Runs

/-- The job waits for the last `i64`. -/
def JobRow.Parked (job : JobRow) : Prop :=
  job.state = .retryWait ∧ job.retryAfterMs = some Int64.maxValue

/-- The retry is at the last `i64`: the failure says so, or the default delay ends
there. -/
def JobFailure.RetriedNever (failure : JobFailure) (committedAtMs : Int64) : Prop :=
  failure.retryAfterMs = some Int64.maxValue ∨ failure.retryAfterMs = none ∧
    committedAtMs.toInt + defaultRetryDelayMs.toInt = Int64.maxValue.toInt

/-- Committing the batch applies such a failure to a job with attempts left. -/
def CommitBatch.Parks (db : Db) (batch : CommitBatch) : Prop :=
  ∃ failure tx tx' job, Applies db batch (.failJob failure) tx tx' ∧
    tx.db.job failure.jobId = some job ∧ job.exhausted = false ∧
    failure.RetriedNever batch.committedAtMs

/-- Call `i` is a persisted commit that parks a job. -/
def ParksJob (calls : List Call) (i : Nat) : Prop :=
  ∃ limits batch receipt, CommitPersisted calls i limits batch receipt ∧
    batch.Parks (controlPlane.stateAt calls i).db

namespace ParkingLemmas

open EffectLemmas ClaimLemmas AttemptLemmas ProgressLemmas

/-! ## A waiting job -/

/-- A job that was leased can be leased again, before the end of time. -/
theorem leasable_after (calls : List Call) : ∀ job ∈ (controlPlane.after calls).db.jobs.rows,
    1 ≤ job.attempt → job.spec.queue ≠ "" ∧ job.spec.notBeforeMs < Int64.maxValue := by
  refine rows_after (rowInvariant_of_rows (fun spec sequence tid _ hattempt => ?_)
    fun job u _ hstep h => ?_) (by simp [Db.empty, Table.empty]) calls
  · exact absurd (show (1 : UInt32) ≤ 0 from hattempt) (by decide)
  · rw [u.spec]
    cases hstep with
    | operation step => rwa [attempt_of_step step]
    | repair => rwa [attempt_of_repair]
    | @lease request _ _ _ expiry queue ready =>
      obtain ⟨hqueue, hnow⟩ := leaseExpiry_ok expiry
      have hbefore : job.spec.notBeforeMs ≤ request.nowMs := by
        unfold JobRow.ready at ready
        split at ready <;> simp_all
      exact fun _ => ⟨queue ▸ hqueue, Int64.lt_of_le_of_lt hbefore hnow⟩

/-- A time at which the waiting job is ready, unless it is parked. -/
theorem ready_before_end {job : JobRow} (hstate : job.state = .retryWait)
    (hbefore : job.spec.notBeforeMs < Int64.maxValue) (hparked : ¬ job.Parked) :
    ∃ nowMs, job.ready nowMs = true ∧ nowMs < Int64.maxValue := by
  have hretry : job.retryAfterMs.getD Int64.minValue < Int64.maxValue := by
    cases hretry : job.retryAfterMs with
    | none => decide
    | some ms =>
      refine Int64.lt_of_le_of_ne (Int64.le_maxValue ms) fun he => ?_
      rw [show ms = Int64.maxValue from he] at hretry
      exact hparked ⟨hstate, hretry⟩
  have hready : ∀ nowMs, job.spec.notBeforeMs ≤ nowMs →
      job.retryAfterMs.getD Int64.minValue ≤ nowMs → job.ready nowMs = true := by
    intro nowMs h₁ h₂
    simp [JobRow.ready, hstate, h₁, h₂]
  rcases Int64.le_total job.spec.notBeforeMs (job.retryAfterMs.getD Int64.minValue) with h | h
  · exact ⟨_, hready _ h (Int64.le_refl _), hretry⟩
  · exact ⟨_, hready _ (Int64.le_refl _) h, hbefore⟩

/-! ## A parked job -/

theorem retryAfter_max {failure : JobFailure} {nowMs : Int64} :
    retryAfter nowMs failure.retryAfterMs = .ok Int64.maxValue ↔ failure.RetriedNever nowMs := by
  unfold retryAfter JobFailure.RetriedNever
  cases failure.retryAfterMs with
  | some ms => simp
  | none =>
    cases hadd : checkedAddI64 nowMs defaultRetryDelayMs with
    | some ms =>
      have hms := checkedAddI64_some hadd
      simp only [Except.ok.injEq, reduceCtorEq, true_and, false_or, ← hms]
      exact Int64.toInt_inj.symm
    | none =>
      unfold checkedAddI64 at hadd
      split at hadd
      · cases hadd
      · next hrange =>
        refine iff_of_false (by simp [invalid]) ?_
        rintro (h | ⟨-, h⟩)
        · cases h
        · exact hrange (by rw [h]; decide)

/-- No step starts from a parked row: the only edge that leads out of its state is
a lease, which would have to be claimed at the last `i64`. -/
theorem not_step_of_parked {job : JobRow} {u : JobUpdate} (h : job.Parked) : ¬ RowStep job u := by
  obtain ⟨hstate, hretry⟩ := h
  rintro (@⟨batch, op, _, step⟩ | @⟨_, _, _, expired⟩ | @⟨request, _, _, _, expiry, _, ready⟩)
  · cases step <;> simp_all [JobRow.resolvable]
  · simp [(expiredIn_iff.mp expired).2.1] at hstate
  · have hnow : request.nowMs = Int64.maxValue := by
      simp [JobRow.ready, hstate, hretry] at ready
      exact ready.2
    exact Int64.ne_of_lt (leaseExpiry_ok expiry).2 hnow

theorem parked_invariant {job : JobRow} (h : job.Parked) :
    RowInvariant fun db => db.job job.spec.jobId = some job := by
  have hrow : RowInvariant fun db => ∃ row, db.job job.spec.jobId = some row ∧ row = job :=
    rowInvariant_of_job fun row u hstep he => absurd (he ▸ hstep) (not_step_of_parked h)
  simpa only [exists_eq_right] using hrow

/-! ## Who parks -/

/-- No job is parked. -/
def Unparked (db : Db) : Prop := ∀ job ∈ db.jobs.rows, ¬ job.Parked

theorem unparked_of_update {db db' : Db} {job : JobRow} {u : JobUpdate}
    (found : db.job job.spec.jobId = some job) (hwrite : RowWrite db db' job u)
    (hu : ¬ (u.set job).Parked) (h : Unparked db) : Unparked db' := by
  intro row hrow
  rcases mem_rows_of_write found hwrite hrow with rfl | ⟨hrow, -⟩
  · exact hu
  · exact h row hrow

/-- Of all operations only a failure makes a job wait. -/
theorem failure_of_parked {batch : CommitBatch} {job : JobRow} {op : Operation} {u : JobUpdate}
    (hstep : JobStep batch job op u) (h : (u.set job).Parked) : ∃ failure, op = .failJob failure ∧
      job.exhausted = false ∧ failure.RetriedNever batch.committedAtMs := by
  obtain ⟨hstate, hretry⟩ := h
  cases hstep with
  | @failRetry failure retryAfterMs leased token left retry =>
    obtain rfl : retryAfterMs = Int64.maxValue := Option.some.inj hretry
    exact ⟨failure, rfl, left, retryAfter_max.mp retry⟩
  | extend leased => cases leased.symm.trans hstate
  | resolveTerminal _ terminal =>
    cases hstate
    cases terminal
  | _ => cases hstate

theorem unparked_of_effect {batch : CommitBatch} {db db' : Db} {op : Operation}
    (heffect : JobEffect batch db db' op)
    (hop : ∀ failure job, op = .failJob failure → db.job failure.jobId = some job →
      job.exhausted = false → ¬ failure.RetriedNever batch.committedAtMs) (h : Unparked db) :
    Unparked db' := by
  cases heffect with
  | @enqueued spec sequence write =>
    intro row hrow
    rw [write.rows] at hrow
    rcases List.mem_append.mp hrow with hrow | hrow
    · exact h row hrow
    · rw [List.mem_singleton.mp hrow]
      exact fun hparked => nomatch hparked.1
  | @updated op job u found write about step =>
    refine unparked_of_update found write (fun hparked => ?_) h
    obtain ⟨failure, rfl, left, never⟩ := failure_of_parked step hparked
    obtain hid : failure.jobId = job.spec.jobId := Option.some.inj about
    exact hop failure job rfl (hid ▸ found) left never

theorem unparked_of_batch {batch : CommitBatch} {db db' : Db} {receipt : CommitReceipt}
    (hstage : stageBatch db batch = .ok (db', receipt)) (hparks : ¬ batch.Parks db)
    (h : Unparked db) : Unparked db' := by
  refine stageBatch_induction (P := Unparked) (fun _ _ _ h => h) (fun tx tx' op happlies htx => ?_)
    hstage h
  cases hid : op.jobId with
  | none =>
    unfold Unparked
    rw [(applyOperation_noJob hid happlies.apply).1]
    exact htx
  | some jobId =>
    refine unparked_of_effect (applyOperation_job hid happlies.apply).2.effect ?_ htx
    rintro failure job rfl found left never
    exact hparks ⟨failure, tx, tx', job, happlies, found, left, never⟩

/-- Only a commit parks a job. -/
theorem unparked_of_call {db db' : Db} {call : Call} {entries : List Entry}
    (heffect : CallEffect db call db' entries)
    (hcall : ∀ limits batch step receipt, call = .commit limits batch step →
      step.persists = true → stageCommit limits db batch = .ok (.staged db' receipt) →
      ¬ batch.Parks db) (h : Unparked db) : Unparked db' := by
  cases heffect with
  | unchanged => exact h
  | commit persists staged =>
    exact unparked_of_batch (stageCommit_staged staged).2.2 (hcall _ _ _ _ rfl persists staged) h
  | claim persists staging =>
    obtain ⟨expiryMs, plan, _, _, _, hphases⟩ := stageClaim_phases staging
    refine hphases.induction (P := Unparked) (fun d d' hjobs _ hd => ?_)
      (fun d d' job found _ hwrite hd => unparked_of_update found hwrite ?_ hd)
      (fun d d' lease _ found hwrite hd => unparked_of_update found hwrite ?_ hd) h
    · unfold Unparked
      rwa [hjobs]
    · rintro ⟨hstate, -⟩
      unfold JobRow.repair at hstate
      rcases expiredTo_cases job with hto | ⟨hto, -⟩ | ⟨hto, -⟩ <;> rw [hto] at hstate <;>
        cases hstate
    · exact fun hparked => nomatch hparked.1
  | extend persists staged =>
    obtain ⟨batch, hwrite⟩ := applyExtendLease_direct staged
    exact unparked_of_effect hwrite.effect (fun _ _ he => by cases he) h

/-- A failure that parks leaves a parked job. -/
theorem parked_of_operation {batch : CommitBatch} {tx tx' : OpenBatch} {failure : JobFailure}
    {job : JobRow} (happly : applyOperation batch tx (.failJob failure) = .ok tx')
    (found : tx.db.job failure.jobId = some job) (left : job.exhausted = false)
    (never : failure.RetriedNever batch.committedAtMs) :
    ∃ parked, parked.Parked ∧ tx'.db.job parked.spec.jobId = some parked := by
  have heffect := (applyOperation_job rfl happly).2.effect
  generalize hop : Operation.failJob failure = op at heffect
  cases heffect with
  | enqueued => cases hop
  | @updated op job' u found' write about step =>
    subst hop
    obtain hid : failure.jobId = job'.spec.jobId := Option.some.inj about
    rw [hid, found'] at found
    obtain rfl := Option.some.inj found
    refine ⟨u.set job', ?_, by rw [u.spec]; exact write.found found'⟩
    cases step with
    | failDead _ _ exhausted => simp [left] at exhausted
    | failRetry _ _ _ retry =>
      rw [retryAfter_max.mpr never] at retry
      cases retry
      exact ⟨rfl, rfl⟩

/-- A batch that parks leaves a parked job. -/
theorem parked_of_batch {batch : CommitBatch} {db db' : Db} {receipt : CommitReceipt}
    (hstage : stageBatch db batch = .ok (db', receipt)) (hparks : batch.Parks db) :
    ∃ job, job.Parked ∧ db'.job job.spec.jobId = some job := by
  obtain ⟨failure, tx, tx', job, happlies, found, left, never⟩ := hparks
  obtain ⟨parked, hparked, hfound⟩ := parked_of_operation happlies.apply found left never
  exact ⟨parked, hparked, happlies.rest hstage
    (fun _ _ _ hok => applyOperation_rows hok (parked_invariant hparked)) (fun _ _ => id) hfound⟩

/-- No job is parked as long as no call has parked one. -/
theorem unparked_at {calls : List Call} {k : Nat} (h : ∀ i < k, ¬ ParksJob calls i) :
    Unparked (controlPlane.stateAt calls k).db := by
  induction k with
  | zero =>
    intro job hjob
    cases hjob
  | succ k ih =>
    have hk := ih fun i hi => h i (Nat.lt_succ_of_lt hi)
    cases hcall : calls[k]? with
    | none => rwa [Machine.stateAt_succ_of_ge hcall]
    | some call =>
      rw [Machine.stateAt_succ hcall]
      refine unparked_of_call (next_effect _ call) ?_ hk
      rintro limits batch step receipt rfl persists staged hparks
      exact h k (Nat.lt_succ_self k)
        ⟨limits, batch, receipt, ⟨step, _, hcall, persists, staged⟩, hparks⟩

/-- No call changes the row of a parked job. -/
theorem parked_stays (calls : List Call) {i k : Nat} (hik : i ≤ k) {job : JobRow}
    (hparked : job.Parked)
    (found : (controlPlane.stateAt calls i).db.job job.spec.jobId = some job) :
    (controlPlane.stateAt calls k).db.job job.spec.jobId = some job :=
  Machine.stateAt_rel (M := controlPlane) (R := fun s t : ControlPlaneStore =>
    s.db.job job.spec.jobId = some job → t.db.job job.spec.jobId = some job) (fun _ => id)
    (fun _ _ _ hst htu h => htu (hst h))
    (fun store call _ => (next_effect store call).rows (parked_invariant hparked)) calls hik found

/-- A job that a call has parked is parked from then on. -/
theorem parked_at {calls : List Call} {i k : Nat} (hik : i < k) (h : ParksJob calls i) :
    ∃ job, job.Parked ∧ (controlPlane.stateAt calls k).db.job job.spec.jobId = some job := by
  obtain ⟨limits, batch, receipt, hpersisted, hparks⟩ := h
  obtain ⟨db', hstage, hnext⟩ := hpersisted.next
  obtain ⟨job, hparked, hfound⟩ := parked_of_batch hstage hparks
  exact ⟨job, hparked, parked_stays calls hik hparked (hnext ▸ hfound)⟩

end ParkingLemmas

open ParkingLemmas ProgressLemmas

/-- No calls finish a parked job. -/
theorem not_canFinish_of_parked {limits : Limits} {store : ControlPlaneStore} {jobId : Id}
    {job : JobRow} (found : store.db.job jobId = some job) (hparked : job.Parked) :
    ¬ CanFinish limits store jobId := by
  obtain rfl := job_id found
  rintro ⟨store', hpath, job', hjob', hterminal⟩
  have hstays : store'.db.job job.spec.jobId = some job := by
    clear hjob'
    induction hpath with
    | refl => exact found
    | tail _ hstep ih =>
      obtain ⟨call, rfl⟩ := next_of_succeeds hstep
      exact (next_effect _ call).rows (parked_invariant hparked) ih
  rw [hstays] at hjob'
  rw [← Option.some.inj hjob', hparked.1] at hterminal
  cases hterminal

/-- Every nonterminal job can be finished unless it is parked. -/
theorem finish_unparked {limits : Limits} (hlimits : limits.validate = .ok ()) (calls : List Call)
    (hfile : (controlPlane.after calls).db.WithinFileLimit) {job : JobRow}
    (found : (controlPlane.after calls).db.job job.spec.jobId = some job)
    (hactive : job.state.isTerminal = false) (hparked : ¬ job.Parked) :
    CanFinish limits (controlPlane.after calls) job.spec.jobId := by
  have htransactions := hfile.transactions
  have hroom : (controlPlane.after calls).db.transactions.rows.length < 2 ^ 63 - 1 := by omega
  cases hstate : job.state with
  | pending => exact finish_pending hlimits hroom found hstate
  | leased => exact finish_leased hlimits hroom found hstate
  | uncertain => exact finish_uncertain hlimits hroom found hstate
  | retryWait =>
    have hrow := (job_eq_some.mp found).1
    have hattempt := (columns_after calls job hrow).2.attempted (by rw [hstate]; decide)
      (by rw [hstate]; decide)
    obtain ⟨hqueue, hbefore⟩ := leasable_after calls job hrow hattempt
    obtain ⟨nowMs, hready, hnow⟩ := ready_before_end hstate hbefore hparked
    obtain ⟨call, job', hsucceeds, found', hspec, hleased, hlength⟩ :=
      lease_waiting limits hfile found hstate hqueue hready hnow
    obtain ⟨store', hpath, hfinished⟩ := finish_leased hlimits (by omega) found' hleased
    rw [hspec] at hfinished
    exact ⟨store', .head hsucceeds hpath, hfinished⟩
  | _ => rw [hstate] at hactive; cases hactive

/-- Exactly the parked jobs cannot be finished, whatever calls are made; their rows
stay as they are. So all the nonterminal jobs of a state can be finished if and only
if none of the calls made has parked one. -/
theorem job_finishable_iff {limits : Limits} (hlimits : limits.validate = .ok ())
    (calls : List Call) (k : Nat) (hfile : (controlPlane.stateAt calls k).db.WithinFileLimit) :
    (∀ jobId job, (controlPlane.stateAt calls k).db.job jobId = some job →
      job.state.isTerminal = false →
      (CanFinish limits (controlPlane.stateAt calls k) jobId ↔ ¬ job.Parked)) ∧
    ((∀ jobId job, (controlPlane.stateAt calls k).db.job jobId = some job →
      job.state.isTerminal = false → CanFinish limits (controlPlane.stateAt calls k) jobId) ↔
      ∀ i < k, ¬ ParksJob calls i) ∧
    ∀ l jobId job, k ≤ l → (controlPlane.stateAt calls k).db.job jobId = some job → job.Parked →
      (controlPlane.stateAt calls l).db.job jobId = some job := by
  have hjob : ∀ jobId job, (controlPlane.stateAt calls k).db.job jobId = some job →
      job.state.isTerminal = false →
      (CanFinish limits (controlPlane.stateAt calls k) jobId ↔ ¬ job.Parked) := by
    intro jobId job found hactive
    refine ⟨fun hfinish hparked => not_canFinish_of_parked found hparked hfinish, fun hparked => ?_⟩
    obtain rfl := job_id found
    exact finish_unparked hlimits (calls.take k) hfile found hactive hparked
  refine ⟨hjob, ⟨fun hall i hik hparks => ?_, fun hnone jobId job found hactive => ?_⟩,
    fun l jobId job hkl found hparked => ?_⟩
  · obtain ⟨job, hparked, found⟩ := parked_at hik hparks
    have hactive : job.state.isTerminal = false := by rw [hparked.1]; rfl
    exact (hjob _ job found hactive).mp (hall _ job found hactive) hparked
  · exact (hjob jobId job found hactive).mpr (unparked_at hnone job (job_eq_some.mp found).1)
  · obtain rfl := job_id found
    exact parked_stays calls hkl hparked found

/-- A job that is leased and fails, to be retried at `retryAfterMs`. -/
def Sample.failing (retryAfterMs : Int64) : List Call :=
  [Sample.enqueue .explicitlyIdempotent, Sample.claim 20 5 .done, Sample.commit 30 6
    [.failJob ⟨Sample.jobId, .ofU128 20, "unavailable", some retryAfterMs⟩]]

/-- The row of that job. -/
def Sample.failed (retryAfterMs : Int64) : JobRow :=
  { Sample.spec .explicitlyIdempotent |>.row 1 (.ofU128 10) with
    state := .retryWait, attempt := 1, retryAfterMs := some retryAfterMs,
    errorSummary := some "unavailable", updatedTransactionId := .ofU128 30 }

theorem job_finishable_iff_sample :
    CanFinish .default (controlPlane.stateAt (Sample.failing 500) 3) Sample.jobId := by
  have hfound : (controlPlane.stateAt (Sample.failing 500) 3).db.job Sample.jobId =
      some (Sample.failed 500) := by decide
  have hlimits : Limits.default.validate = .ok () := by decide
  refine ((job_finishable_iff hlimits (Sample.failing 500) 3
    ⟨by decide, by decide, by decide⟩).1 _ _ hfound rfl).mpr ?_
  rintro ⟨-, hretry⟩
  cases hretry

/-- A failure with the last `i64` parks its job, in a store with room for more. -/
theorem job_finishable_counterexample : ¬ ∀ limits calls, limits.validate = .ok () →
    (controlPlane.after calls).db.WithinFileLimit → ∀ jobId job,
      (controlPlane.after calls).db.job jobId = some job → job.state.isTerminal = false →
      CanFinish limits (controlPlane.after calls) jobId := by
  intro h
  have hfound : (controlPlane.after (Sample.failing Int64.maxValue)).db.job Sample.jobId =
      some (Sample.failed Int64.maxValue) := by decide
  have hfinish := h .default (Sample.failing Int64.maxValue) (by decide)
    ⟨by decide, by decide, by decide⟩ Sample.jobId _ hfound rfl
  exact not_canFinish_of_parked hfound ⟨rfl, rfl⟩ hfinish

end Minisqlite
