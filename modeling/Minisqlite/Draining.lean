import Mathlib.Algebra.Order.BigOperators.Group.List
import Minisqlite.Claims
import Minisqlite.Effects.ClaimRows
import Minisqlite.Fairness
import Minisqlite.Partitions

/-!
# Draining a queue

A worker claims with the same request again and again, and nothing else runs. A call
repairs at most 64 leases, and what it repairs may be ready for the next call, so the
number of ready heads can grow on the way.

1. `backlog`: an expired lease counts twice, a job that waits once. A lease of the
   worker itself does not count, as it is not over at the time of the request.
2. `backlog_of_claim`: a call that writes makes the backlog smaller.
3. `Taken`: a partition in which a lease was granted is not served again.
4. `drain_terminates`: so the worker gets its `Noop`, and nothing is left to do then.
-/

namespace Minisqlite

open Tables Runs EffectLemmas ClaimLemmas ClaimTotalLemmas PartitionLemmas FairnessLemmas

/-- The calls, and then `n` claims with one request. -/
def drain (calls : List Call) (request : ClaimRequest) (entropies : Nat → Entropy) (n : Nat) :
    List Call :=
  calls ++ (List.range n).map fun i => .claimJobs request (entropies i) .done

/-- The database after `n` claims. -/
def drainedDb (calls : List Call) (request : ClaimRequest) (entropies : Nat → Entropy) (n : Nat) :
    Db :=
  (controlPlane.after (drain calls request entropies n)).db

/-- The answer to the claim after these. -/
def drainAnswer (calls : List Call) (request : ClaimRequest) (entropies : Nat → Entropy) (n : Nat) :
    Except ClaimError ClaimOutcome :=
  ((controlPlane.after (drain calls request entropies n)).claimJobs request (entropies n) .done).2

/-- The partitions in which an answer grants leases. -/
def grantedBy : Except ClaimError ClaimOutcome → List String
  | .ok (.committed claims) => claims.jobs.map ClaimedJob.partitionKey
  | _ => []

/-- The partitions of the leases that `n` claims have granted. -/
def drainGrants (calls : List Call) (request : ClaimRequest) (entropies : Nat → Entropy) (n : Nat) :
    List String :=
  (List.range n).flatMap fun i => grantedBy (drainAnswer calls request entropies i)

/-- How many of the worker's claims can change this job. -/
def JobRow.claimsLeft (request : ClaimRequest) (job : JobRow) : Nat :=
  if job.expiredIn request.queue request.nowMs then 2
  else if job.spec.queue = request.queue ∧ (job.state = .pending ∨ job.state = .retryWait) then 1
  else 0

/-- What is left to do for the worker, at most. -/
def backlog (db : Db) (request : ClaimRequest) : Nat :=
  (db.jobs.rows.map (JobRow.claimsLeft request)).sum

/-- A job of the partition holds a lease that is not over at the time of the request. -/
def Taken (request : ClaimRequest) (partition : String) (db : Db) : Prop :=
  ∃ job ∈ db.jobs.rows, job.spec.queue = request.queue ∧ job.spec.partitionKey = partition ∧
    job.state = .leased ∧ job.expiredIn request.queue request.nowMs = false

namespace DrainLemmas

variable {calls : List Call} {request : ClaimRequest} {entropies : Nat → Entropy} {n : Nat}
  {db : Db} {entropy : Entropy} {staged : StagedClaim} {expiryMs : Int64} {plan : LeasePlan}
  {db₁ db₂ db₃ : Db} {job : JobRow} {partition : String}

/-! ## One job -/

theorem expiredIn_of_state {queue : String} {nowMs : Int64} (h : job.state ≠ .leased) :
    job.expiredIn queue nowMs = false := by
  simp [JobRow.expiredIn, h]

/-- A lease that was granted now is not over now. -/
theorem expiredIn_lease (hvalid : request.Valid) (hexpiry : leaseExpiry request = .ok expiryMs)
    (token tid : Id) (job : JobRow) :
    ((JobUpdate.lease token request.workerId expiryMs tid).set job).expiredIn request.queue
      request.nowMs = false := by
  obtain ⟨expiryMs', hexpiry', hsum⟩ := leaseExpiry_valid hvalid
  obtain rfl : expiryMs' = expiryMs := Except.ok.inj (hexpiry'.symm.trans hexpiry)
  have hpositive := Int64.lt_iff_toInt_lt.mp hvalid.leaseMs
  rw [show (0 : Int64).toInt = 0 from rfl] at hpositive
  have hlater : ¬ expiryMs' < request.nowMs := fun h => by
    have := Int64.lt_iff_toInt_lt.mp h
    omega
  simp [JobRow.expiredIn, JobUpdate.lease, hlater]

theorem claimsLeft_le (job : JobRow) : job.claimsLeft request ≤ 2 := by
  unfold JobRow.claimsLeft
  split
  · exact Nat.le_refl 2
  · split <;> decide

theorem claimsLeft_lease (hvalid : request.Valid) (hexpiry : leaseExpiry request = .ok expiryMs)
    (token tid : Id) (job : JobRow) :
    ((JobUpdate.lease token request.workerId expiryMs tid).set job).claimsLeft request = 0 := by
  rw [JobRow.claimsLeft, expiredIn_lease hvalid hexpiry]
  simp [JobUpdate.lease]

theorem claimsLeft_ready (hqueue : job.spec.queue = request.queue)
    (hready : job.ready request.nowMs = true) : job.claimsLeft request = 1 := by
  have hstate := state_of_ready hready
  have hexpired : job.expiredIn request.queue request.nowMs = false :=
    expiredIn_of_state (by rcases hstate with h | h <;> simp [h])
  simp [JobRow.claimsLeft, hexpired, hqueue, hstate]

theorem claimsLeft_repair (tid : Id) (job : JobRow) :
    ((job.repair tid request.nowMs).set job).claimsLeft request ≤ 1 := by
  rw [JobRow.claimsLeft, expiredIn_of_state (repair_not_leased _ _ _), if_neg Bool.false_ne_true]
  split <;> decide

/-! ## One claim -/

theorem leased_job (h : ClaimPhases db request entropy staged expiryMs plan db₁ db₂ db₃)
    {lease : ProposedLease} (hlease : lease ∈ plan.leases) :
    lease.job ∈ db.jobs.rows ∧ lease.job.spec.queue = request.queue ∧
      lease.job.ready request.nowMs = true := by
  obtain ⟨hstored, hactive, -⟩ := partitionHead_spec (planLeases_head h.planned hlease)
  exact ⟨hstored, (activeIn_iff.mp hactive).1, ((planLeases_spec h.planned).1 lease hlease).1⟩

/-- A claim brings every job of its plans closer to its end and leaves the others alone. -/
theorem claimsLeft_row (hvalid : request.Valid)
    (h : ClaimPhases db request entropy staged expiryMs plan db₁ db₂ db₃)
    (hjob : job ∈ db.jobs.rows) {row : JobRow}
    (hrow : row = claimedRow staged.transactionId request expiryMs (repairedJobs db request)
      plan.leases job) :
    row.claimsLeft request < job.claimsLeft request ∨
      (∀ lease ∈ plan.leases, lease.job ≠ job) ∧
        (∀ action ∈ planMaintenance db request, action.job ≠ job) ∧ row = job := by
  rcases h.row_cases hjob hrow with ⟨lease, hlease, rfl, hrow⟩ | ⟨action, haction, rfl, hrow⟩ |
    hsame
  · left
    obtain ⟨-, hqueue, hready⟩ := leased_job h hlease
    rw [hrow, claimsLeft_lease hvalid h.expiry, claimsLeft_ready hqueue hready]
    exact Nat.one_pos
  · left
    have hleft : action.job.claimsLeft request = 2 := if_pos (planMaintenance_spec haction).2.1
    rw [hrow, hleft]
    exact Nat.lt_succ_of_le (claimsLeft_repair _ _)
  · exact .inr hsame

/-- A claim that writes makes the backlog smaller. -/
theorem backlog_of_claim (hvalid : request.Valid)
    (h : stageClaim db request entropy = .ok (some staged)) :
    backlog staged.db request < backlog db request := by
  obtain ⟨expiryMs, plan, db₁, db₂, db₃, hphases⟩ := stageClaim_phases h
  unfold backlog
  rw [hphases.rows, List.map_map]
  refine List.sum_lt_sum _ _ (fun job hjob => ?_) ?_
  · rcases claimsLeft_row hvalid hphases hjob rfl with hless | ⟨-, -, hsame⟩
    · exact Nat.le_of_lt hless
    · exact Nat.le_of_eq (congrArg (JobRow.claimsLeft request) hsame)
  · have hsome := stageClaim_some hphases.planned h
    have hplanned : ∃ job ∈ db.jobs.rows, (∃ lease ∈ plan.leases, lease.job = job) ∨
        ∃ action ∈ planMaintenance db request, action.job = job := by
      cases hmaintenance : planMaintenance db request with
      | cons action rest =>
        have haction : action ∈ planMaintenance db request := by simp [hmaintenance]
        exact ⟨_, (planMaintenance_spec haction).1, .inr ⟨action, by simp, rfl⟩⟩
      | nil =>
        obtain ⟨lease, hlease⟩ := List.exists_mem_of_ne_nil _ fun hnil => hsome ⟨hmaintenance, hnil⟩
        exact ⟨_, (leased_job hphases hlease).1, .inl ⟨lease, hlease, rfl⟩⟩
    obtain ⟨job, hjob, hplans⟩ := hplanned
    refine ⟨job, hjob, (claimsLeft_row hvalid hphases hjob rfl).resolve_right fun hnot => ?_⟩
    rcases hplans with ⟨lease, hlease, he⟩ | ⟨action, haction, he⟩
    · exact hnot.1 lease hlease he
    · exact hnot.2.1 action haction he

/-- A claim leaves a lease alone that is not over. -/
theorem taken_of_claim (h : stageClaim db request entropy = .ok (some staged))
    (htaken : Taken request partition db) : Taken request partition staged.db := by
  obtain ⟨expiryMs, plan, db₁, db₂, db₃, hphases⟩ := stageClaim_phases h
  obtain ⟨job, hjob, hqueue, hpartition, hstate, hexpired⟩ := htaken
  refine ⟨job, ?_, hqueue, hpartition, hstate, hexpired⟩
  rw [hphases.rows]
  refine List.mem_map.mpr ⟨job, hjob, ?_⟩
  rcases hphases.row_cases hjob rfl with ⟨lease, hlease, rfl, -⟩ | ⟨action, haction, rfl, -⟩ |
    hsame
  · rcases state_of_ready (leased_job hphases hlease).2.2 with hs | hs <;> simp [hs] at hstate
  · simp [(planMaintenance_spec haction).2.1] at hexpired
  · exact hsame.2.2

/-- A partition in which a claim grants a lease is taken after it. -/
theorem taken_of_grant (hvalid : request.Valid)
    (h : stageClaim db request entropy = .ok (some staged))
    (hgranted : partition ∈ staged.jobs.map ClaimedJob.partitionKey) :
    Taken request partition staged.db := by
  obtain ⟨leases, expiryMs, hwrite⟩ := stageClaim_write h
  rw [hwrite.jobs, List.map_map] at hgranted
  obtain ⟨lease, hlease, rfl⟩ := List.mem_map.mp hgranted
  obtain ⟨key, hhead⟩ := hwrite.head lease hlease
  have hactive := activeIn_iff.mp (partitionHead_spec hhead).2.1
  exact ⟨_, (job_eq_some.mp (hwrite.granted hlease)).1, hactive.1, rfl, rfl,
    expiredIn_lease hvalid hwrite.expiry _ _ _⟩

/-- A partition that is taken is not served: the lease is at its head. -/
theorem not_servable_of_taken (hfifo : Fifo db) (h : Taken request partition db) :
    servable db request partition = false := by
  obtain ⟨job, hjob, hqueue, rfl, hstate, -⟩ := h
  obtain ⟨hactive, hstarted⟩ := started_of_blocking (.inl hstate)
  have hhead := partitionHead_of_started hfifo hjob hactive hstarted
  rw [hqueue] at hhead
  simp [servable, hhead, JobRow.ready, hstate]

/-- A `Noop` leaves no lease of the queue that is over, and no head that is ready. -/
theorem idle_of_noop (hindexed : Indexed db) (hlimit : 1 ≤ request.limit)
    (h : stageClaim db request entropy = .ok none) :
    (∀ job ∈ db.jobs.rows, job.expiredIn request.queue request.nowMs = false) ∧
      ∀ partition, servable db request partition = false := by
  obtain ⟨plan, hplan, hidle⟩ := stageClaim_planned h
  obtain ⟨hmaintenance, hleases⟩ := hidle.mp rfl
  constructor
  · intro job hjob
    by_contra hexpired
    have hsorted : (db.jobs.rows.filter
        (JobRow.expiredIn request.queue request.nowMs)).insertionSort (fun a b =>
          a.leaseExpiresAtMs.getD Int64.minValue ≤ b.leaseExpiresAtMs.getD Int64.minValue) =
        [] := by
      simpa [planMaintenance, maintenanceLimit, List.take_eq_nil_iff] using hmaintenance
    have hmem := (List.mem_insertionSort fun a b : JobRow =>
      a.leaseExpiresAtMs.getD Int64.minValue ≤ b.leaseExpiresAtMs.getD Int64.minValue).mpr
      (List.mem_filter.mpr ⟨hjob, by simpa using hexpired⟩)
    rw [hsorted] at hmem
    cases hmem
  · intro partition
    by_contra hserved
    have hserved : servable db request partition = true := by simpa using hserved
    obtain ⟨served, hall, hkeys, -⟩ := planLeases_served hplan
    rw [hleases, List.map_nil] at hkeys
    have hmem := List.mem_filter.mpr ⟨visited_of_servable hindexed hserved, hserved⟩
    rcases List.take_eq_nil_iff.mp (hall.symm.trans hkeys.symm) with hzero | hnil
    · omega
    · rw [hnil] at hmem
      cases hmem

/-! ## The run -/

theorem drainedDb_zero (calls : List Call) (request : ClaimRequest) (entropies : Nat → Entropy) :
    drainedDb calls request entropies 0 = (controlPlane.after calls).db := by
  simp [drainedDb, drain]

theorem drain_succ : drain calls request entropies (n + 1) =
    drain calls request entropies n ++ [.claimJobs request (entropies n) .done] := by
  simp [drain, List.range_succ]

theorem drainedDb_succ : drainedDb calls request entropies (n + 1) =
    ((controlPlane.after (drain calls request entropies n)).claimJobs request (entropies n)
      .done).1.db := by
  rw [drainedDb, drain_succ, Machine.after_append_singleton]
  rfl

theorem drainGrants_succ : drainGrants calls request entropies (n + 1) =
    drainGrants calls request entropies n ++ grantedBy (drainAnswer calls request entropies n) := by
  simp [drainGrants, List.range_succ]

theorem grantedBy_outcome (staged : StagedClaim) :
    grantedBy (.ok (ControlPlaneStore.claimOutcome staged)) =
      staged.jobs.map ClaimedJob.partitionKey := by
  unfold ControlPlaneStore.claimOutcome
  split
  · next hnone => rw [hnone]; rfl
  · rfl

/-- What claim `n` does: it fails, or it is a `Noop`, or it commits what it has staged. -/
theorem drain_step (calls : List Call) (request : ClaimRequest) (entropies : Nat → Entropy)
    (n : Nat) : (∃ e, stageClaim (drainedDb calls request entropies n) request (entropies n) =
      .error e ∧ drainAnswer calls request entropies n = .error (errorToClaim e) ∧
      drainedDb calls request entropies (n + 1) = drainedDb calls request entropies n) ∨
    (stageClaim (drainedDb calls request entropies n) request (entropies n) = .ok none ∧
      drainAnswer calls request entropies n = .ok .noop ∧
      drainedDb calls request entropies (n + 1) = drainedDb calls request entropies n) ∨
    ∃ staged, stageClaim (drainedDb calls request entropies n) request (entropies n) =
      .ok (some staged) ∧
      drainAnswer calls request entropies n = .ok (ControlPlaneStore.claimOutcome staged) ∧
      drainedDb calls request entropies (n + 1) = staged.db := by
  rw [drainedDb_succ]
  unfold drainAnswer ControlPlaneStore.claimJobs
  cases hstage : stageClaim (drainedDb calls request entropies n) request (entropies n) with
  | error e =>
    rw [drainedDb] at hstage
    exact .inl ⟨e, rfl, by rw [hstage], by rw [hstage]; rfl⟩
  | ok staged =>
    rw [drainedDb] at hstage
    cases staged with
    | none => exact .inr (.inl ⟨rfl, by rw [hstage], by rw [hstage]; rfl⟩)
    | some staged => exact .inr (.inr ⟨staged, rfl, by rw [hstage]; rfl, by rw [hstage]; rfl⟩)

/-- Each claim of the drain writes at most one transaction. -/
theorem drain_room (calls : List Call) (request : ClaimRequest) (entropies : Nat → Entropy)
    (n : Nat) : (drainedDb calls request entropies n).transactions.rows.length ≤
      (controlPlane.after calls).db.transactions.rows.length + n := by
  induction n with
  | zero => rw [drainedDb_zero]; exact Nat.le_refl _
  | succ n ih =>
    have hroom := transactions_room (drain calls request entropies n)
      (.claimJobs request (entropies n) .done)
    rw [← drain_succ] at hroom
    unfold drainedDb at ih ⊢
    omega

/-- The partitions that were served stay taken, so none is served twice. -/
theorem drainGrants_nodup (hvalid : request.Valid) (n : Nat) :
    (drainGrants calls request entropies n).Nodup ∧
      ∀ partition ∈ drainGrants calls request entropies n,
        Taken request partition (drainedDb calls request entropies n) := by
  induction n with
  | zero => exact ⟨List.nodup_nil, fun partition h => by cases h⟩
  | succ n ih =>
    obtain ⟨hnodup, htaken⟩ := ih
    rw [drainGrants_succ]
    rcases drain_step calls request entropies n with
      ⟨e, -, hanswer, hdb⟩ | ⟨-, hanswer, hdb⟩ | ⟨staged, hstage, hanswer, hdb⟩
    · rw [hanswer, hdb, show grantedBy (.error (errorToClaim e)) = [] from rfl, List.append_nil]
      exact ⟨hnodup, htaken⟩
    · rw [hanswer, hdb, show grantedBy (.ok .noop) = [] from rfl, List.append_nil]
      exact ⟨hnodup, htaken⟩
    · rw [hanswer, hdb, grantedBy_outcome]
      obtain ⟨served, hall, hserved, -⟩ := served_of_claim hstage
      have hvisited :=
        partitionsFromCursor_nodup (drainedDb calls request entropies n) request.queue
      refine ⟨List.nodup_append.mpr ⟨hnodup, ?_, ?_⟩, fun partition hmem => ?_⟩
      · rw [hserved, hall]
        exact (List.take_sublist _ _).nodup (hvisited.filter _)
      · rintro partition hbefore partition' hnow rfl
        have hnot := not_servable_of_taken (fifo_after _) (htaken partition hbefore)
        rw [hserved, hall] at hnow
        have hserve := (List.mem_filter.mp (List.mem_of_mem_take hnow)).2
        unfold drainedDb at hserve
        rw [hnot] at hserve
        cases hserve
      · rcases List.mem_append.mp hmem with hbefore | hnow
        · exact taken_of_claim hstage (htaken partition hbefore)
        · exact taken_of_grant hvalid hstage hnow

end DrainLemmas

open DrainLemmas

/-- A worker that claims with one valid request again and again gets a `Noop` after
finitely many calls, at most as many as the backlog counts, and no call before it
fails. No partition is granted two leases on the way. At the `Noop` no lease of the
queue is over, and no head of a partition is ready. What `Id::new` draws for the calls
is new to the store, and the store that the worker starts from fits a file. -/
theorem drain_terminates (calls : List Call) (request : ClaimRequest) (entropies : Nat → Entropy)
    (hfile : (controlPlane.after calls).db.WithinFileLimit)
    (hjobs : (controlPlane.after calls).db.jobs.rows.length < 2 ^ 48)
    (hvalid : request.Valid) (hlimit : 1 ≤ request.limit)
    (hentropy : ∀ n ≤ backlog (controlPlane.after calls).db request,
      FreshEntropy (drainedDb calls request entropies n) request (entropies n)) :
    ∃ n ≤ backlog (controlPlane.after calls).db request,
      drainAnswer calls request entropies n = .ok .noop ∧
      (∀ i < n, ∃ outcome, drainAnswer calls request entropies i = .ok outcome) ∧
      (drainGrants calls request entropies n).Nodup ∧
      (∀ job ∈ (drainedDb calls request entropies n).jobs.rows,
        job.expiredIn request.queue request.nowMs = false) ∧
      ∀ partition job,
        partitionHead (drainedDb calls request entropies n) request.queue partition = some job →
        job.ready request.nowMs = false := by
  have hzero := drainedDb_zero calls request entropies
  have hfew : backlog (controlPlane.after calls).db request ≤ 2 ^ 49 := by
    have hbound := List.sum_le_card_nsmul
      ((controlPlane.after calls).db.jobs.rows.map (JobRow.claimsLeft request)) 2
      fun left hleft => by
        obtain ⟨job, -, rfl⟩ := List.mem_map.mp hleft
        exact claimsLeft_le job
    rw [List.length_map, Nat.nsmul_eq_mul] at hbound
    unfold backlog
    omega
  have hrooms := hfile.transactions
  obtain ⟨expiryMs, hexpiry, -⟩ := leaseExpiry_valid hvalid
  obtain ⟨n, hn, hnoop, hanswers⟩ := exists_of_descent
    (fun n => backlog (drainedDb calls request entropies n) request)
    (fun n => stageClaim (drainedDb calls request entropies n) request (entropies n) = .ok none ∧
      drainAnswer calls request entropies n = .ok .noop)
    (fun n => ∃ outcome, drainAnswer calls request entropies n = .ok outcome)
    fun n hn => by
      rw [hzero] at hn
      have hroom := drain_room calls request entropies n
      have hfresh := hentropy n (by omega)
      rcases drain_step calls request entropies n with
        ⟨e, hstage, -⟩ | ⟨hstage, hanswer, -⟩ | ⟨staged, hstage, hanswer, hdb⟩
      · obtain ⟨staged, hok⟩ := stageClaim_total (resolves_after (drain calls request entropies n))
          (transactions_consecutive _) (Nat.lt_of_le_of_lt hroom (by omega)) hexpiry
          hfresh.fresh hfresh.enough
        cases hstage.symm.trans hok
      · exact .inl ⟨hstage, hanswer⟩
      · exact .inr ⟨⟨_, hanswer⟩, by rw [hdb]; exact backlog_of_claim hvalid hstage⟩
  rw [hzero] at hn
  obtain ⟨hexpired, hheads⟩ := idle_of_noop (indexed_after _) hlimit hnoop.1
  refine ⟨n, by omega, hnoop.2, hanswers, (drainGrants_nodup hvalid n).1, hexpired, ?_⟩
  intro partition job hhead
  have := hheads partition
  unfold drainedDb at hhead
  rw [servable, hhead] at this
  simpa using this

/-- A lease that is over is repaired, granted again, and then nothing is left. -/
theorem drain_terminates_sample :
    ∃ n ≤ 2, drainAnswer [Sample.enqueue .explicitlyIdempotent, Sample.claim 20 5 .done]
      ⟨"mail", "worker", 200, 100, 1⟩
      (fun n => [.ofU128 (BitVec.ofNat 128 (2 * n + 30)), .ofU128 (BitVec.ofNat 128 (2 * n + 31))])
      n = .ok .noop := by
  obtain ⟨n, hn, hnoop, -⟩ := drain_terminates
    [Sample.enqueue .explicitlyIdempotent, Sample.claim 20 5 .done]
    ⟨"mail", "worker", 200, 100, 1⟩
    (fun n => [.ofU128 (BitVec.ofNat 128 (2 * n + 30)), .ofU128 (BitVec.ofNat 128 (2 * n + 31))])
    ⟨by decide, by decide, by decide⟩ (by decide) ⟨by decide, by decide, by decide, by decide⟩
    (by decide) (fun n hn => by
      have hn : n ≤ 2 := hn
      obtain rfl | rfl | rfl : n = 0 ∨ n = 1 ∨ n = 2 := by omega
      · exact ⟨by decide, by decide⟩
      · exact ⟨by decide, by decide⟩
      · exact ⟨by decide, by decide⟩)
  exact ⟨n, hn, hnoop⟩

end Minisqlite
