import Minisqlite.JobColumns

/-!
# A valid claim does not fail

`claim_jobs` makes its two plans from one snapshot and then writes row after row, so a
write could meet a row that an earlier one has changed. It does not: the plans are
about different jobs, and every row is still as it was planned.

1. `leaseExpiry_valid`: the checks of the request.
2. `planLeases_total`: the plan draws one token for each lease, so it needs as many.
3. `repair_legal`, `lease_legal`: the writes of the plans are allowed.
4. `claim_never_fails`: so the claim succeeds, in every reachable state.
-/

namespace Minisqlite

open Tables Runs EffectLemmas ColumnLemmas TotalLemmas AttemptLemmas

/-- The request passes the checks of `claim_jobs`. -/
structure ClaimRequest.Valid (request : ClaimRequest) : Prop where
  queue : request.queue ≠ ""
  workerId : request.workerId ≠ ""
  leaseMs : 0 < request.leaseMs
  expiry : request.nowMs.toInt + request.leaseMs.toInt ≤ Int64.maxValue.toInt

/-- The number of leases that a claim grants. -/
def leaseCount (db : Db) (request : ClaimRequest) : Nat :=
  min request.limit ((partitionsFromCursor db request.queue).filter (servable db request)).length

/-- What `Id::new` delivers to a claim is new to the store, and the operating system does not
run out of it. -/
structure FreshEntropy (db : Db) (request : ClaimRequest) (entropy : Entropy) : Prop where
  fresh : ∀ id ∈ entropy.map Id.ofRandom, ¬ db.Recorded id
  enough : leaseCount db request < entropy.length

namespace ClaimTotalLemmas

variable {db : Db} {request : ClaimRequest} {entropy : Entropy} {plan : LeasePlan}

/-! ## The plans -/

/-- The expiry of a valid request's leases does not overflow, and it is in the future. -/
theorem leaseExpiry_valid (h : request.Valid) : ∃ expiryMs, leaseExpiry request = .ok expiryMs ∧
    expiryMs.toInt = request.nowMs.toInt + request.leaseMs.toInt := by
  have hpos := Int64.lt_iff_toInt_lt.mp h.leaseMs
  have hzero : (0 : Int64).toInt = 0 := rfl
  have hmin := Int64.le_toInt request.nowMs
  have hadd : checkedAddI64 request.nowMs request.leaseMs =
      some (request.nowMs + request.leaseMs) := by
    refine if_pos ⟨?_, h.expiry⟩
    rw [Int64.toInt_minValue]
    omega
  refine ⟨_, ?_, checkedAddI64_some hadd⟩
  rw [leaseExpiry, if_neg h.queue, if_neg h.workerId, if_neg (Int64.not_le.mpr h.leaseMs), hadd]

theorem leaseExpiry_eq {expiryMs : Int64} (h : leaseExpiry request = .ok expiryMs) :
    expiryMs = request.nowMs + request.leaseMs := by
  unfold leaseExpiry at h
  split at h
  · cases h
  split at h
  · cases h
  split at h
  · cases h
  split at h
  · next hadd =>
    cases h
    unfold checkedAddI64 at hadd
    split at hadd
    · exact (Option.some.inj hadd).symm
    · cases hadd
  · cases h

/-- A plan needs a token for each partition that it serves. Some entropy is left. -/
theorem leasePartitions_total {partitions : List String}
    (h : min (request.limit - plan.leases.length)
      (partitions.filter (servable db request)).length < plan.entropy.length) :
    ∃ plan', leasePartitions db request partitions plan = .ok plan' ∧ 0 < plan'.entropy.length := by
  fun_induction leasePartitions db request partitions plan with
  | case1 plan => exact ⟨plan, rfl, by omega⟩
  | case2 partition rest plan => exact ⟨plan, rfl, by omega⟩
  | case3 partition rest plan hfull hhead ih =>
    rw [List.filter_cons_of_neg (by simp [servable, hhead])] at h
    exact ih h
  | case4 partition rest plan hfull job hhead hready ih =>
    rw [List.filter_cons_of_pos (by simp [servable, hhead, hready]), List.length_cons] at h
    obtain ⟨leases, lastLeased, entropy⟩ := plan
    cases entropy with
    | nil => simp at h
    | cons bytes entropy =>
      refine ih _ _ ?_
      simp only [List.length_append, List.length_cons, List.length_nil] at h hfull ⊢
      omega
  | case5 partition rest plan hfull job hhead hready ih =>
    rw [List.filter_cons_of_neg (by simp [servable, hhead, hready])] at h
    exact ih h

theorem planLeases_total (h : leaseCount db request < entropy.length) :
    ∃ plan, planLeases db request entropy = .ok plan ∧ 0 < plan.entropy.length := by
  unfold planLeases
  split
  · exact ⟨_, rfl, Nat.zero_lt_of_lt h⟩
  · exact leasePartitions_total h

/-! ## The writes -/

/-- The repair of an expired lease is in the transition table, and its row meets the
CHECKs. -/
theorem repair_legal {action : MaintenanceAction} (h : action ∈ planMaintenance db request) :
    action.job.state.canTransitionTo action.target = true ∧
      ∀ tid, ((action.job.repair tid request.nowMs).set action.job).check = true := by
  obtain ⟨hstored, hexpired, htarget⟩ := planMaintenance_spec h
  have hleased := (expiredIn_iff.mp hexpired).2.1
  have hactive := active_of_resolvable (.inl hleased)
  have hcheck := db.jobs.checked _ hstored
  rw [hleased, htarget]
  unfold JobRow.repair
  rcases expiredTo_cases action.job with hto | ⟨hto, -⟩ | ⟨hto, -⟩ <;> rw [hto]
  · exact ⟨rfl, fun tid => check_nonterminal hcheck hactive rfl (by decide) (by simp) tid⟩
  · exact ⟨rfl, fun tid => check_nonterminal hcheck hactive rfl (by decide) (by simp) tid⟩
  · exact ⟨rfl, fun tid => check_terminal hcheck rfl _ tid _ _⟩

/-- The row of a planned lease meets the CHECKs, and its attempt fits a `u32`. -/
theorem lease_legal (hbounded : ∀ job ∈ db.jobs.rows, Bounded job)
    (hplan : planLeases db request entropy = .ok plan) {lease : ProposedLease}
    (hlease : lease ∈ plan.leases) : lease.job.attempt.toNat + 1 < 2 ^ 32 ∧
      ∀ expiryMs tid, ((JobUpdate.lease lease.leaseToken request.workerId expiryMs tid).set
        lease.job).check = true := by
  have hstored := (partitionHead_spec (planLeases_head hplan hlease)).1
  have hstate := state_of_ready ((planLeases_spec hplan).1 lease hlease).1
  have hlt := UInt32.lt_iff_toNat_lt.mp ((hbounded _ hstored).lt hstate)
  have hmax := lease.job.spec.maxAttempts.toNat_lt
  refine ⟨by omega, fun expiryMs tid => check_lease (db.jobs.checked _ hstored) ?_ _ _ _ _⟩
  rcases hstate with hs | hs <;> rw [hs] <;> rfl

/-- No job is both repaired and leased, and none twice. -/
theorem plans_nodup (hplan : planLeases db request entropy = .ok plan) :
    (((planMaintenance db request).map fun action => action.job.spec.jobId) ++
      plan.leases.map fun lease => lease.job.spec.jobId).Nodup := by
  refine List.nodup_append.mpr ⟨planMaintenance_nodup db request, planLeases_nodup hplan, ?_⟩
  intro repaired hrepaired leased hleased
  obtain ⟨action, haction, rfl⟩ := List.mem_map.mp hrepaired
  obtain ⟨lease, hlease, rfl⟩ := List.mem_map.mp hleased
  exact plans_apart hplan hlease haction

/-! ## The claim -/

theorem stageClaim_total (hdb : Resolves db)
    (hsequences : Consecutive (db.transactions.rows.map TransactionRow.transactionSequence))
    (hroom : db.transactions.rows.length < 2 ^ 63 - 1) {expiryMs : Int64}
    (hexpiry : leaseExpiry request = .ok expiryMs)
    (hfresh : ∀ id ∈ entropy.map Id.ofRandom, ¬ db.Recorded id)
    (henough : leaseCount db request < entropy.length) :
    ∃ staged, stageClaim db request entropy = .ok staged := by
  obtain ⟨plan, hplan, hleft⟩ := planLeases_total henough
  obtain ⟨bytes, rest, hdraw⟩ := List.exists_cons_of_length_pos hleft
  have hnew : Id.new plan.entropy = .ok (Id.ofRandom bytes, rest) := by rw [hdraw]; rfl
  have hfree : ¬ db.Recorded (Id.ofRandom bytes) := by
    refine hfresh _ ?_
    rw [(planLeases_spec hplan).2, hdraw]
    exact List.mem_append_right _ List.mem_cons_self
  obtain ⟨db₁, sequence, hinsert⟩ := insertTransaction_total (ε := Error)
    (claimRow (Id.ofRandom bytes) request
      ((planMaintenance db request).length + plan.leases.length)) hsequences hroom (fun _ => rfl)
    fun r hr _ he => hfree ⟨r, hr, he⟩
  obtain ⟨staged, hwrite⟩ := writeClaim_total hdb expiryMs hplan hnew
    (bind_eq_ok.mpr ⟨(db₁, sequence), hinsert, rfl⟩)
  by_cases hnone : planMaintenance db request = [] ∧ plan.leases = []
  · refine ⟨none, bind_eq_ok.mpr ⟨expiryMs, hexpiry, bind_eq_ok.mpr ⟨plan, hplan, ?_⟩⟩⟩
    exact if_pos hnone
  · refine ⟨some staged, bind_eq_ok.mpr ⟨expiryMs, hexpiry, bind_eq_ok.mpr ⟨plan, hplan, ?_⟩⟩⟩
    rw [if_neg hnone]
    exact bind_eq_ok.mpr ⟨staged, hwrite, rfl⟩

/-- A claim is a `Noop` exactly if it planned nothing. -/
theorem stageClaim_planned {result : Option StagedClaim}
    (h : stageClaim db request entropy = .ok result) :
    ∃ plan, planLeases db request entropy = .ok plan ∧
      (result = none ↔ planMaintenance db request = [] ∧ plan.leases = []) := by
  obtain ⟨_, -, h⟩ := bind_ok h
  obtain ⟨plan, hplan, h⟩ := bind_ok h
  refine ⟨plan, hplan, ?_⟩
  split at h
  · next hidle => exact iff_of_true (Except.ok.inj h).symm hidle
  · next hidle =>
    obtain ⟨staged, -, h⟩ := bind_ok h
    cases h
    exact iff_of_false (Option.some_ne_none staged) hidle

theorem stageClaim_noop (hplan : planLeases db request entropy = .ok plan)
    (h : stageClaim db request entropy = .ok none) :
    planMaintenance db request = [] ∧ plan.leases = [] := by
  obtain ⟨plan', hplan', hidle⟩ := stageClaim_planned h
  obtain rfl : plan' = plan := Except.ok.inj (hplan'.symm.trans hplan)
  exact hidle.mp rfl

theorem stageClaim_some {staged : StagedClaim} (hplan : planLeases db request entropy = .ok plan)
    (h : stageClaim db request entropy = .ok (some staged)) :
    ¬ (planMaintenance db request = [] ∧ plan.leases = []) := by
  obtain ⟨plan', hplan', hidle⟩ := stageClaim_planned h
  obtain rfl : plan' = plan := Except.ok.inj (hplan'.symm.trans hplan)
  exact mt hidle.mpr (Option.some_ne_none staged)

/-- In a reachable state, for a valid request. -/
theorem stageClaim_valid {calls : List Call}
    (hfile : (controlPlane.after calls).db.WithinFileLimit) (hvalid : request.Valid)
    (hentropy : FreshEntropy (controlPlane.after calls).db request entropy) :
    ∃ staged, stageClaim (controlPlane.after calls).db request entropy = .ok staged := by
  obtain ⟨expiryMs, hexpiry, -⟩ := leaseExpiry_valid hvalid
  have := hfile.transactions
  exact stageClaim_total (resolves_after calls) (transactions_consecutive calls) (by omega) hexpiry
    hentropy.fresh hentropy.enough

end ClaimTotalLemmas

open ClaimTotalLemmas

/-- In every reachable state a claim with a valid request and new ids succeeds; only a
COMMIT whose outcome is lost makes it indeterminate. Its repairs are allowed
transitions, no job is repaired and leased or leased twice, every updated row meets
the CHECKs, every receipt has a new key, and the attempts fit a `u32`. -/
theorem claim_never_fails (calls : List Call) (request : ClaimRequest) (entropy : Entropy)
    (hfile : (controlPlane.after calls).db.WithinFileLimit) (hvalid : request.Valid)
    (hentropy : FreshEntropy (controlPlane.after calls).db request entropy) :
    (∀ step, (∃ outcome,
        ((controlPlane.after calls).claimJobs request entropy step).2 = .ok outcome) ∨
      step ≠ .done ∧ ∃ claim,
        ((controlPlane.after calls).claimJobs request entropy step).2 =
          .error (.indeterminate claim)) ∧
    (∀ action ∈ planMaintenance (controlPlane.after calls).db request,
      action.job.state.canTransitionTo action.target = true ∧
      ∀ tid, ((action.job.repair tid request.nowMs).set action.job).check = true) ∧
    ∃ plan expiryMs, planLeases (controlPlane.after calls).db request entropy = .ok plan ∧
      leaseExpiry request = .ok expiryMs ∧
      (((planMaintenance (controlPlane.after calls).db request).map
          fun action => action.job.spec.jobId) ++
        plan.leases.map fun lease => lease.job.spec.jobId).Nodup ∧
      ∀ lease ∈ plan.leases, lease.job.attempt.toNat + 1 < 2 ^ 32 ∧
        ∀ tid ∈ entropy.map Id.ofRandom,
          ((JobUpdate.lease lease.leaseToken request.workerId expiryMs tid).set
            lease.job).check = true ∧
          ∀ receipt ∈ (controlPlane.after calls).db.claimReceipts.rows,
            (receipt.transactionId, receipt.jobId) ≠ (tid, lease.job.spec.jobId) := by
  refine ⟨fun step => ?_, fun action haction => repair_legal haction, ?_⟩
  · obtain ⟨staged, hstage⟩ := stageClaim_valid hfile hvalid hentropy
    unfold ControlPlaneStore.claimJobs
    rw [hstage]
    cases staged with
    | none => exact .inl ⟨_, rfl⟩
    | some staged =>
      cases step with
      | done => exact .inl ⟨_, rfl⟩
      | lost persisted storageError => exact .inr ⟨by simp, _, rfl⟩
  · obtain ⟨expiryMs, hexpiry, -⟩ := leaseExpiry_valid hvalid
    obtain ⟨plan, hplan, -⟩ := planLeases_total hentropy.enough
    refine ⟨plan, expiryMs, hplan, hexpiry, plans_nodup hplan, fun lease hlease => ?_⟩
    obtain ⟨hattempt, hcheck⟩ := lease_legal (bounded_after calls) hplan hlease
    refine ⟨hattempt, fun tid htid => ⟨hcheck expiryMs tid, fun receipt hreceipt he => ?_⟩⟩
    refine hentropy.fresh tid htid ?_
    rw [← (Prod.mk.inj he).1]
    exact (resolves_after calls).claimed receipt hreceipt

theorem claim_never_fails_sample : ∃ outcome,
    ((controlPlane.after [Sample.enqueue .requiresReconciliation]).claimJobs
      ⟨"mail", "worker", 5, 100, 1⟩ [.ofU128 20, .ofU128 21] .done).2 = .ok outcome := by
  have h := claim_never_fails [Sample.enqueue .requiresReconciliation]
    ⟨"mail", "worker", 5, 100, 1⟩ [.ofU128 20, .ofU128 21] ⟨by decide, by decide, by decide⟩
    ⟨by decide, by decide, by decide, by decide⟩
    ⟨by decide, by decide⟩
  exact (h.1 .done).resolve_right fun hlost => hlost.1 rfl

end Minisqlite
