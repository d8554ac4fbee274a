import Mathlib.Logic.Relation
import Minisqlite.Claims
import Minisqlite.Fairness
import Minisqlite.Leases
import Minisqlite.Partitions

/-!
# Progress

Calls that succeed. A commit of one operation under a new transaction id does if
the operation does; a claim does if it asks for a lease that ends, draws new
identifiers and finds a partition to serve. So a job that can be worked on can be
finished.

* `commit_single`, `claim_total`: when the two succeed.
* `finish_pending`, `finish_leased`, `finish_uncertain`: one commit each.
* `lease_waiting`: a job that waits for its retry is leased first.
-/

namespace Minisqlite

open Tables Runs

/-- One call that succeeds. A client commits under the limits of its store, and what
`Id::new` draws in a claim is new to the store. -/
inductive Succeeds (limits : Limits) (store : ControlPlaneStore) : ControlPlaneStore → Prop
  | commit {batch : CommitBatch} {step : CommitStep} {receipt : CommitReceipt}
      (ok : (store.commit limits batch step).2 = .ok receipt) :
      Succeeds limits store (store.commit limits batch step).1
  | claimJobs {request : ClaimRequest} {entropy : Entropy} {step : CommitStep}
      {outcome : ClaimOutcome} (distinct : (entropy.map Id.ofRandom).Nodup)
      (fresh : ∀ id ∈ entropy.map Id.ofRandom, ¬ store.db.Recorded id)
      (ok : (store.claimJobs request entropy step).2 = .ok outcome) :
      Succeeds limits store (store.claimJobs request entropy step).1
  | extendLease {jobId leaseToken : Id} {newExpiryMs nowMs : Int64} {step : CommitStep}
      {receipt : LeaseExtensionReceipt}
      (ok : (store.extendLease jobId leaseToken newExpiryMs nowMs step).2 = .ok receipt) :
      Succeeds limits store (store.extendLease jobId leaseToken newExpiryMs nowMs step).1

/-- The job is over. -/
def Finished (jobId : Id) (db : Db) : Prop :=
  ∃ job, db.job jobId = some job ∧ job.state.isTerminal = true

/-- Some calls that all succeed finish the job. -/
def CanFinish (limits : Limits) (store : ControlPlaneStore) (jobId : Id) : Prop :=
  ∃ store', Relation.ReflTransGen (Succeeds limits) store store' ∧ Finished jobId store'.db

namespace ProgressLemmas

open EffectLemmas TotalLemmas ClaimLemmas ClaimTotalLemmas ColumnLemmas LeaseLemmas
open PartitionLemmas FairnessLemmas

/-- A call that succeeds is a call. -/
theorem next_of_succeeds {limits : Limits} {store store' : ControlPlaneStore}
    (h : Succeeds limits store store') : ∃ call, store' = controlPlane.next store call := by
  cases h with
  | @commit batch step => exact ⟨.commit limits batch step, rfl⟩
  | @claimJobs request entropy step => exact ⟨.claimJobs request entropy step, rfl⟩
  | @extendLease jobId leaseToken newExpiryMs nowMs step =>
    exact ⟨.extendLease jobId leaseToken newExpiryMs nowMs step, rfl⟩

/-! ## New identifiers -/

theorem ofU128_inj {a b : BitVec 128} (h : Id.ofU128 a = Id.ofU128 b) : a = b :=
  BitVec.eq_of_toNat_eq (toBeBytes_inj (by simpa using a.isLt) (by simpa using b.isLt)
    (congrArg Id.bytes h))

theorem ofRandom_ne_zero (id : Id) : Id.ofRandom id ≠ Id.zero := by
  unfold Id.ofRandom
  split
  · decide
  · next hne => exact hne

/-- There are more identifiers than a store can hold. -/
theorem new_ids (taken : List Id) (n : Nat) (hroom : taken.length + n < 2 ^ 100) :
    ∃ ids : List Id, ids.length = n ∧ ids.Nodup ∧ ∀ id ∈ ids, id ≠ Id.zero ∧ id ∉ taken := by
  let all : List Id :=
    (List.range (taken.length + n)).map fun i => Id.ofU128 (BitVec.ofNat 128 (i + 1))
  have hvalue : ∀ i < taken.length + n, (BitVec.ofNat 128 (i + 1)).toNat = i + 1 := fun i hi => by
    rw [BitVec.toNat_ofNat]
    exact Nat.mod_eq_of_lt (by omega)
  have hall : all.Nodup := by
    refine List.Nodup.map_on (fun i hi j hj he => ?_) List.nodup_range
    have := congrArg BitVec.toNat (ofU128_inj he)
    rw [hvalue i (List.mem_range.mp hi), hvalue j (List.mem_range.mp hj)] at this
    omega
  have hzero : ∀ id ∈ all, id ≠ Id.zero := by
    intro id hid
    obtain ⟨i, hi, rfl⟩ := List.mem_map.mp hid
    intro he
    have := congrArg BitVec.toNat (ofU128_inj (b := 0) (he.trans (by decide)))
    rw [hvalue i (List.mem_range.mp hi)] at this
    simp at this
  -- Those that are taken are not more than `taken`.
  have htaken : (all.filter (· ∈ taken)).length ≤ taken.length :=
    (List.subperm_of_subset (hall.filter _) fun id hid =>
      of_decide_eq_true (List.mem_filter.mp hid).2).length_le
  have hsplit := List.length_eq_length_filter_add (l := all) (· ∈ taken)
  have hlength : all.length = taken.length + n := by simp [all]
  refine ⟨(all.filter fun id => !decide (id ∈ taken)).take n, ?_, ?_, fun id hid => ?_⟩
  · rw [List.length_take]
    omega
  · exact ((List.take_sublist _ _).trans List.filter_sublist).nodup hall
  · obtain ⟨hmem, hfree⟩ := List.mem_filter.mp (List.mem_of_mem_take hid)
    exact ⟨hzero id hmem, by simpa using hfree⟩

/-! ## One commit -/

/-- A batch of one operation. -/
def single (transactionId : Id) (op : Operation) : CommitBatch :=
  ⟨transactionId, 0, none, [], [], [op]⟩

theorem validate_single {limits : Limits} (hlimits : limits.validate = .ok ()) {tid : Id}
    (hzero : tid ≠ Id.zero) {op : Operation} (hop : validateOperation limits op = .ok ()) :
    validateBatch limits (single tid op) = .ok () := by
  unfold Limits.validate at hlimits
  split at hlimits
  · cases hlimits
  · next hcount =>
    have hone : ¬ 1 > limits.maxOperationsPerCommit := by omega
    have hops : (single tid op).operations.forM (validateOperation limits) = .ok ⟨⟩ :=
      bind_eq_ok.mpr ⟨⟨⟩, hop, rfl⟩
    have hempty : limits.validateMetadata (single tid op).metadata.length = .ok () := by
      unfold Limits.validateMetadata Limits.validateSize
      exact if_neg (Nat.not_lt_zero _)
    refine bind_eq_ok.mpr ⟨⟨⟩, if_neg (by simp [single, hzero]), ?_⟩
    refine bind_eq_ok.mpr ⟨⟨⟩, if_neg (by simpa [single] using hone), ?_⟩
    exact bind_eq_ok.mpr ⟨⟨⟩, hempty, bind_eq_ok.mpr ⟨⟨⟩, rfl, hops⟩⟩

section Commits

variable {limits : Limits} (hlimits : limits.validate = .ok ()) {store : ControlPlaneStore}
  (hsequences : Consecutive (store.db.transactions.rows.map TransactionRow.transactionSequence))
  (hroom : store.db.transactions.rows.length < 2 ^ 63 - 1)
include hlimits hsequences hroom

/-- An operation that is valid and succeeds on the jobs of the store is committed,
under a new transaction id. -/
theorem commit_single {op : Operation} {P : Db → Prop}
    (hop : validateOperation limits op = .ok ())
    (happly : ∀ tid db, db.jobs = store.db.jobs → ∃ db',
      applyOperation (single tid op) ⟨db, ∅⟩ op = .ok ⟨db', ∅⟩ ∧ P db') :
    ∃ store', Succeeds limits store store' ∧ P store'.db := by
  obtain ⟨ids, hlength, -, hids⟩ :=
    new_ids (store.db.transactions.rows.map TransactionRow.transactionId) 1
      (by rw [List.length_map]; omega)
  obtain ⟨tid, rfl⟩ := List.length_eq_one_iff.mp hlength
  obtain ⟨hzero, hfree⟩ := hids tid (List.mem_singleton_self tid)
  obtain ⟨db₁, sequence, hinsert⟩ := insertTransaction_total (ε := CommitError)
    (single tid op).row hsequences hroom (fun _ => rfl) fun r hr _ he =>
      hfree (List.mem_map.mpr ⟨r, hr, he⟩)
  obtain ⟨transactions, rfl, -⟩ := insertTransaction_ok hinsert
  obtain ⟨db', happly, hP⟩ := happly tid { store.db with transactions := transactions } rfl
  have hfound : store.db.transaction (single tid op).transactionId = none :=
    Table.lookup_eq_none.mpr fun r hr he => hfree (List.mem_map.mpr ⟨r, hr, he⟩)
  have hstage : stageBatch store.db (single tid op) =
      .ok (db', ((single tid op).row sequence).receipt) := by
    have hopen : openBatch store.db (single tid op) =
        .ok (⟨{ store.db with transactions := transactions }, ∅⟩,
          ((single tid op).row sequence).receipt) :=
      bind_eq_ok.mpr ⟨∅, rfl, bind_eq_ok.mpr ⟨_, hinsert, rfl⟩⟩
    have hops : (single tid op).operations.foldlM (applyOperation (single tid op))
        ⟨{ store.db with transactions := transactions }, ∅⟩ = .ok ⟨db', ∅⟩ :=
      bind_eq_ok.mpr ⟨_, happly, rfl⟩
    exact bind_eq_ok.mpr ⟨_, hopen, bind_eq_ok.mpr ⟨_, hops, rfl⟩⟩
  have hstaged : stageCommit limits store.db (single tid op) =
      .ok (.staged db' ((single tid op).row sequence).receipt) := by
    unfold stageCommit
    rw [validate_single hlimits hzero hop, hfound]
    exact bind_eq_ok.mpr ⟨⟨⟩, rfl, bind_eq_ok.mpr ⟨_, hstage, rfl⟩⟩
  refine ⟨_, .commit ((ControlPlaneStore.commit_of_staged hstaged).2 rfl), ?_⟩
  rw [(ControlPlaneStore.commit_of_staged hstaged).1]
  exact hP

end Commits

section Finish

variable {limits : Limits} (hlimits : limits.validate = .ok ()) {calls : List Call}
  (hroom : (controlPlane.after calls).db.transactions.rows.length < 2 ^ 63 - 1) {job : JobRow}
  (found : (controlPlane.after calls).db.job job.spec.jobId = some job)
include hlimits hroom found

/-- An operation that makes the job terminal, committed on its own. -/
theorem finish_single (op : Operation) (state : JobState)
    (hop : validateOperation limits op = .ok ()) (hstate : state.isTerminal = true)
    (happly : ∀ tid db, db.job job.spec.jobId = some job → ∃ digest summary,
      applyOperation (single tid op) ⟨db, ∅⟩ op =
        OpenBatch.run ⟨db, ∅⟩ (setTerminal db job state 0 tid digest summary)) :
    CanFinish limits (controlPlane.after calls) job.spec.jobId := by
  obtain ⟨store', hsucceeds, hfinished⟩ := commit_single (P := Finished job.spec.jobId) hlimits
    (transactions_consecutive calls) hroom hop fun tid db hjobs => by
      have hfound : db.job job.spec.jobId = some job := by
        rw [Db.job, hjobs]
        exact found
      obtain ⟨digest, summary, happly⟩ := happly tid db hfound
      obtain ⟨db', hset⟩ := setTerminal_total hfound hstate 0 tid digest summary
      exact ⟨db', by rw [happly, hset]; rfl, _, (setTerminal_ok hstate hset).1.found hfound, hstate⟩
  exact ⟨store', .single hsucceeds, hfinished⟩

theorem finish_pending (hstate : job.state = .pending) :
    CanFinish limits (controlPlane.after calls) job.spec.jobId := by
  refine finish_single hlimits hroom found (.cancelJob ⟨job.spec.jobId, none⟩) .cancelled rfl rfl
    fun tid db hfound => ⟨none, none, ?_⟩
  have htransition : ensureTransition job .cancelled = .ok () :=
    ensureTransition_ok.mpr (by rw [hstate]; rfl)
  have hcancellable : ensureCancellable job none = .ok () := if_pos hstate
  simp only [applyOperation, applyCancel, requireJob_ok.mpr hfound]
  show OpenBatch.run _ (ensureTransition job .cancelled >>= _) = _
  rw [htransition]
  show OpenBatch.run _ (ensureCancellable job none >>= _) = _
  rw [hcancellable]
  rfl

theorem finish_leased (hstate : job.state = .leased) :
    CanFinish limits (controlPlane.after calls) job.spec.jobId := by
  obtain ⟨hrow, -⟩ := job_eq_some.mp found
  have hleased := (columns_after calls job hrow).2.lease hstate
  obtain ⟨token, htoken⟩ := Option.isSome_iff_exists.mp hleased.1
  have hcurrent : Current (controlPlane.stateAt calls calls.length).db job.spec.jobId token :=
    ⟨job, by rwa [Machine.stateAt_length], htoken⟩
  have hzero : token ≠ Id.zero := by
    obtain ⟨call, -, hcall⟩ := List.mem_flatMap.mp (drawn_of_current calls.length hcurrent)
    cases call with
    | claimJobs request entropy step =>
      obtain ⟨bytes, -, rfl⟩ := List.mem_map.mp hcall
      exact ofRandom_ne_zero bytes
    | _ => cases hcall
  refine finish_single hlimits hroom found (.ackJob ⟨job.spec.jobId, token, none⟩) .succeeded ?_ rfl
    fun tid db hfound => ⟨none, none, ?_⟩
  · exact if_neg (by simpa using hzero)
  have htransition : ensureTransition job .succeeded = .ok () :=
    ensureTransition_ok.mpr (by rw [hstate]; rfl)
  simp only [applyOperation, applyAck, requireJob_ok.mpr hfound]
  show OpenBatch.run _ (ensureTransition job .succeeded >>= _) = _
  rw [htransition]
  show OpenBatch.run _ (ensureLeaseToken job token >>= _) = _
  rw [ensureLeaseToken_ok (x := ()) |>.mpr htoken]
  rfl

theorem finish_uncertain (hstate : job.state = .uncertain) :
    CanFinish limits (controlPlane.after calls) job.spec.jobId := by
  refine finish_single hlimits hroom found (.resolveJob ⟨job.spec.jobId, .markDead⟩) .dead rfl rfl
    fun tid db hfound => ⟨none, some "resolved as dead", ?_⟩
  have htransition : ensureTransition job .dead = .ok () :=
    ensureTransition_ok.mpr (by rw [hstate]; rfl)
  simp only [applyOperation, applyResolve, requireJob_ok.mpr hfound]
  show OpenBatch.run _ (ensureTransition job .dead >>= _) = _
  rw [htransition]
  rfl

end Finish

/-! ## One claim -/

/-- A lease expires later than it was claimed. -/
theorem leaseExpiry_ok {request : ClaimRequest} {expiryMs : Int64}
    (h : leaseExpiry request = .ok expiryMs) :
    request.queue ≠ "" ∧ request.nowMs < Int64.maxValue := by
  unfold leaseExpiry at h
  split at h
  · cases h
  next hqueue =>
  split at h
  · cases h
  split at h
  · cases h
  next hpositive =>
  split at h
  · next hadd =>
    have hexpiry := checkedAddI64_some hadd
    have hle := Int64.le_iff_toInt_le.mp (Int64.le_maxValue ‹Int64›)
    rw [Int64.not_le, Int64.lt_iff_toInt_lt] at hpositive
    refine ⟨hqueue, Int64.lt_iff_toInt_lt.mpr ?_⟩
    simp at hpositive
    omega
  · cases h

/-- A claim for one millisecond is valid at any time but the last. -/
theorem leaseExpiry_total {queue : String} {nowMs : Int64} (limit : Nat) (hqueue : queue ≠ "")
    (hnow : nowMs < Int64.maxValue) :
    ∃ expiryMs, leaseExpiry ⟨queue, "worker", nowMs, 1, limit⟩ = .ok expiryMs := by
  have hlt := Int64.lt_iff_toInt_lt.mp hnow
  have hge := Int64.le_iff_toInt_le.mp (Int64.minValue_le nowMs)
  have hadd : checkedAddI64 nowMs 1 = some (nowMs + 1) := if_pos (by simp at hlt hge ⊢; omega)
  refine ⟨nowMs + 1, ?_⟩
  unfold leaseExpiry
  rw [if_neg hqueue, if_neg (by simp), if_neg (by decide : ¬ (1 : Int64) ≤ 0)]
  simp only [hadd]

/-- A claim with enough entropy, on a queue in which a partition can be served. -/
theorem claim_total {db : Db} (hresolves : Resolves db)
    (hsequences : Consecutive (db.transactions.rows.map TransactionRow.transactionSequence))
    (hroom : db.transactions.rows.length < 2 ^ 63 - 1) (request : ClaimRequest) {expiryMs : Int64}
    (hexpiry : leaseExpiry request = .ok expiryMs)
    (hlimit : request.limit = (partitionsFromCursor db request.queue).length)
    {entropy : Entropy} (hentropy : request.limit < entropy.length)
    (hfresh : ∀ id ∈ entropy.map Id.ofRandom, ¬ db.Recorded id) {partition : String}
    (hmem : partition ∈ partitionsFromCursor db request.queue)
    (hserved : servable db request partition = true) :
    ∃ staged plan, stageClaim db request entropy = .ok (some staged) ∧
      planLeases db request entropy = .ok plan ∧
      ∃ lease ∈ plan.leases, lease.job.spec.partitionKey = partition := by
  have henough : leaseCount db request < entropy.length :=
    Nat.lt_of_le_of_lt (Nat.min_le_left _ _) hentropy
  obtain ⟨plan, hplan, -⟩ := planLeases_total henough
  obtain ⟨served, hall, hkeys, -⟩ := planLeases_served hplan
  have hlease : ∃ lease ∈ plan.leases, lease.job.spec.partitionKey = partition := by
    refine List.mem_map.mp (hkeys ▸ hall ▸ ?_)
    rw [hlimit, List.take_of_length_le (List.length_filter_le _ _)]
    exact List.mem_filter.mpr ⟨hmem, hserved⟩
  obtain ⟨staged, hstage⟩ := stageClaim_total hresolves hsequences hroom hexpiry hfresh henough
  cases staged with
  | some staged => exact ⟨staged, plan, hstage, hplan, hlease⟩
  | none =>
    obtain ⟨lease, hmem, -⟩ := hlease
    rw [(stageClaim_noop hplan hstage).2] at hmem
    cases hmem

/-- Entropy from which new identifiers are drawn. -/
theorem fresh_entropy (db : Db) {n : Nat} (hroom : db.transactions.rows.length + n < 2 ^ 100) :
    ∃ entropy : Entropy, entropy.length = n ∧ (entropy.map Id.ofRandom).Nodup ∧
      ∀ id ∈ entropy.map Id.ofRandom, ¬ db.Recorded id := by
  obtain ⟨entropy, hlength, hnodup, hids⟩ :=
    new_ids (db.transactions.rows.map TransactionRow.transactionId) n (by rwa [List.length_map])
  have hrandom : entropy.map Id.ofRandom = entropy :=
    (List.map_congr_left fun id hid => if_neg (hids id hid).1).trans (List.map_id entropy)
  refine ⟨entropy, hlength, hrandom.symm ▸ hnodup, ?_⟩
  rintro id hid ⟨row, hrow, rfl⟩
  rw [hrandom] at hid
  exact (hids _ hid).2 (List.mem_map_of_mem hrow)

/-- A staged claim that commits. -/
theorem claim_commits {calls : List Call} {request : ClaimRequest} {entropy : Entropy}
    {staged : StagedClaim}
    (h : stageClaim (controlPlane.after calls).db request entropy = .ok (some staged)) :
    ((controlPlane.after calls).claimJobs request entropy .done).2 =
        .ok (ControlPlaneStore.claimOutcome staged) ∧
      controlPlane.after (calls ++ [.claimJobs request entropy .done]) = ⟨staged.db, .live⟩ := by
  rw [Machine.after_append_singleton]
  show _ ∧ ((controlPlane.after calls).claimJobs request entropy .done).1 = _
  unfold ControlPlaneStore.claimJobs
  rw [h]
  exact ⟨rfl, rfl⟩

/-- A waiting job that is ready before the end of time can be leased. -/
theorem lease_waiting (limits : Limits) {calls : List Call}
    (hfile : (controlPlane.after calls).db.WithinFileLimit) {job : JobRow}
    (found : (controlPlane.after calls).db.job job.spec.jobId = some job)
    (hstate : job.state = .retryWait) (hqueue : job.spec.queue ≠ "") {nowMs : Int64}
    (hready : job.ready nowMs = true) (hnow : nowMs < Int64.maxValue) :
    ∃ call job', Succeeds limits (controlPlane.after calls) (controlPlane.after (calls ++ [call])) ∧
      (controlPlane.after (calls ++ [call])).db.job job'.spec.jobId = some job' ∧
      job'.spec = job.spec ∧ job'.state = .leased ∧
      (controlPlane.after (calls ++ [call])).db.transactions.rows.length =
        (controlPlane.after calls).db.transactions.rows.length + 1 := by
  have hrow := (job_eq_some.mp found).1
  obtain ⟨hactive, hstarted⟩ := started_of_blocking (.inr (.inl hstate))
  have hhead := partitionHead_of_started (fifo_after calls) hrow hactive hstarted
  let partitions := partitionsFromCursor (controlPlane.after calls).db job.spec.queue
  let request : ClaimRequest := ⟨job.spec.queue, "worker", nowMs, 1, partitions.length⟩
  have hserved : servable (controlPlane.after calls).db request job.spec.partitionKey = true := by
    simp [servable, request, hhead, hready]
  have hpartitions : partitions.length < 2 ^ 48 :=
    Nat.lt_of_le_of_lt (partitionsFromCursor_length_le _ _) hfile.activePartitions
  have htransactions := hfile.transactions
  obtain ⟨entropy, hlength, hnodup, hfresh⟩ := fresh_entropy (controlPlane.after calls).db
    (n := partitions.length + 1) (by omega)
  obtain ⟨expiryMs, hexpiry⟩ := leaseExpiry_total partitions.length hqueue hnow
  obtain ⟨staged, plan, hstage, hplan, lease, hlease, hkey⟩ := claim_total (resolves_after calls)
    (transactions_consecutive calls) (by omega) request hexpiry rfl
    (by rw [hlength]; exact Nat.lt_succ_self _) hfresh
    (visited_of_servable (indexed_after calls) hserved) hserved
  -- The lease in the partition of the job is for its head, which is the job.
  have hleased := planLeases_head hplan hlease
  rw [hkey] at hleased
  have hjob : lease.job = job := Option.some.inj (hleased.symm.trans hhead)
  obtain ⟨expiryMs, plan', db₁, db₂, db₃, hphases⟩ := stageClaim_phases hstage
  obtain rfl : plan' = plan := Except.ok.inj (hphases.planned.symm.trans hplan)
  have hgranted := hphases.write.granted hlease
  rw [hjob] at hgranted
  obtain ⟨operationCount, sequence, -, hinserted⟩ := hphases.write.transactions
  obtain ⟨hok, hnext⟩ := claim_commits hstage
  refine ⟨.claimJobs request entropy .done,
    (JobUpdate.lease lease.leaseToken request.workerId expiryMs staged.transactionId).set job,
    ?_, ?_, rfl, rfl, ?_⟩
  · rw [Machine.after_append_singleton]
    exact .claimJobs hnodup hfresh hok
  · rw [hnext]
    exact hgranted
  · rw [hnext, hinserted, List.length_append]
    rfl

end ProgressLemmas

end Minisqlite
