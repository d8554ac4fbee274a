import Minisqlite.Lib.RoundRobin
import Minisqlite.PartitionIndex

/-!
# Fairness between partitions

A claim serves the partitions of its queue in rounds. The cursor is the last
partition that was granted a lease, and all that a claim leaves behind for the
next one; partitions come and go in between.

* `visited_before`: a claim visits the partitions in the order of its round.
* `Ahead`: a partition is visited before another one by the next claim. A claim
  that passes over a ready partition leaves it ahead of all that it has served.
* `round_robin_fair`: so no partition is served twice while another one waits.
-/

namespace Minisqlite

open Tables Runs RoundRobin ClaimLemmas

/-- `last_partition_key` of the queue. -/
def Db.cursor (db : Db) (queue : String) : Option String :=
  (db.queueCursors.lookup QueueCursorRow.queue queue).bind QueueCursorRow.lastPartitionKey

/-- The next claim on the queue visits `q` before `p`. -/
def Ahead (queue q p : String) (db : Db) : Prop :=
  Before ((db.cursor queue).map utf8) (utf8 q) (utf8 p)

/-- Call `i` is a persisted claim on the queue that granted a lease in the partition. -/
def GrantsIn (calls : List Call) (i : Nat) (queue partition : String) : Prop :=
  ∃ request staged, ClaimPersisted calls i request staged ∧ request.queue = queue ∧
    ∃ claimed ∈ staged.jobs, claimed.partitionKey = partition

namespace FairnessLemmas

variable {db db' : Db} {queue p q : String}

/-! ## One round -/

theorem visited_before (db : Db) (queue : String) :
    (partitionsFromCursor db queue).Pairwise fun a b => Ahead queue a b db := by
  let le : String → String → Prop := fun a b => utf8 a ≤ utf8 b
  have : Std.Total le := ⟨fun a b => Std.le_total⟩
  have : IsTrans String le := ⟨fun a b c => Std.le_trans⟩
  have hnodup := partitionsFromCursor_nodup db queue
  rw [(partitionsFromCursor_perm db queue).nodup_iff] at hnodup
  have hstrict := ((List.pairwise_insertionSort le _).and
    ((List.perm_insertionSort le _).nodup_iff.mpr hnodup)).imp
    fun {a b} h => Std.lt_of_le_of_ne h.1 fun he => h.2 (utf8_inj he)
  unfold partitionsFromCursor Ahead Db.cursor
  cases (db.queueCursors.lookup QueueCursorRow.queue queue).bind
    QueueCursorRow.lastPartitionKey with
  | none =>
    have hnone : ∀ l : List String, l.takeWhile (fun _ => false) = [] := fun l => by
      cases l <;> rfl
    simpa [hnone] using rotate_before none (fun _ => false) hstrict (by simp [Passed])
  | some cursor =>
    exact rotate_before (some (utf8 cursor)) (fun a => decide (utf8 a ≤ utf8 cursor)) hstrict
      (by simp [Passed])

/-- A partition with a head is in the index, so a claim visits it. -/
theorem visited_of_servable (h : Indexed db) {request : ClaimRequest}
    (hq : servable db request q = true) : q ∈ partitionsFromCursor db request.queue := by
  obtain ⟨job, hhead, -⟩ := Option.any_eq_true _ _ |>.mp hq
  obtain ⟨hjob, hactive, -⟩ := partitionHead_spec hhead
  obtain ⟨hqueue, hpartition, hstate⟩ := activeIn_iff.mp hactive
  obtain ⟨row, hrow, hfor⟩ := h.listed job hjob hstate
  refine (partitionsFromCursor_perm db request.queue).mem_iff.mpr (List.mem_map.mpr ⟨row, ?_, ?_⟩)
  · exact List.mem_filter.mpr ⟨hrow, decide_eq_true (hfor.1.trans hqueue)⟩
  · exact hfor.2.trans hpartition

theorem advanceCursor_cursor (db : Db) (claimed queue : String) (lastLeased : Option String) :
    (advanceCursor db claimed lastLeased).cursor queue =
      if claimed = queue then lastLeased.or (db.cursor queue) else db.cursor queue := by
  cases lastLeased with
  | none => simp [advanceCursor]
  | some partition =>
    simp only [advanceCursor, Db.cursor]
    rw [Table.lookup_upsert]
    split
    · cases db.queueCursors.lookup QueueCursorRow.queue queue <;> rfl
    · rfl

/-- What a staged claim serves, and where it leaves the cursor. -/
theorem served_of_claim {request : ClaimRequest} {entropy : Entropy} {staged : StagedClaim}
    (h : stageClaim db request entropy = .ok (some staged)) :
    ∃ served, served = ((partitionsFromCursor db request.queue).filter (servable db request)).take
        request.limit ∧ staged.jobs.map ClaimedJob.partitionKey = served ∧
      ∀ queue, staged.db.cursor queue =
        if request.queue = queue then served.getLast?.or (db.cursor queue)
        else db.cursor queue := by
  obtain ⟨expiryMs, plan, db₁, db₂, db₃, hphases⟩ := stageClaim_phases h
  obtain ⟨served, hserved, hleases, hlast⟩ := planLeases_served hphases.planned
  refine ⟨served, hserved, ?_, fun queue => ?_⟩
  · rw [hphases.jobs, List.map_map]
    exact hleases
  · obtain ⟨transactions, _, rfl, -⟩ := insertClaimTransaction_ok hphases.transaction
    obtain ⟨⟨jobs, parts, rfl⟩, -⟩ := hphases.maintenance_repairs
    obtain ⟨⟨jobs, receipts, rfl⟩, -⟩ := leases_ok hphases.leasing
    rw [hphases.result, advanceCursor_cursor, hlast]
    rfl

/-- A claim on the queue serves a servable partition, or it leaves it ahead of
every partition that it was ahead of or that was served. -/
theorem ahead_of_claim (hindexed : Indexed db) {request : ClaimRequest} {entropy : Entropy}
    {staged : StagedClaim} (h : stageClaim db request entropy = .ok (some staged))
    (hq : servable db request q = true) (hnot : q ∉ staged.jobs.map ClaimedJob.partitionKey) :
    (p ∈ staged.jobs.map ClaimedJob.partitionKey → ¬ Ahead request.queue q p db) ∧
    (Ahead request.queue q p db ∨ p ∈ staged.jobs.map ClaimedJob.partitionKey →
      Ahead request.queue q p staged.db) := by
  obtain ⟨served, rfl, hserved, hcursor⟩ := served_of_claim h
  rw [hserved] at hnot ⊢
  have hvisited := visited_before db request.queue
  have hbefore := served_before hvisited (visited_of_servable hindexed hq) hq hnot
  refine ⟨fun hp hahead => hahead.asymm (hbefore p hp), fun hp => ?_⟩
  unfold Ahead
  rw [hcursor, if_pos rfl]
  cases hlast : (((partitionsFromCursor db request.queue).filter (servable db request)).take
      request.limit).getLast? with
  | none =>
    rw [List.getLast?_eq_none_iff.mp hlast] at hp
    simpa [Ahead] using hp
  | some last =>
    refine (hbefore last (List.mem_of_getLast? hlast)).advance ?_
    rcases hp with hp | hp
    · exact .inl hp
    · rcases last_served hvisited hlast p hp with rfl | hp
      · exact .inr (.inl rfl)
      · exact .inr (.inr hp)

/-! ## Runs -/

/-- Only a claim on the queue that may grant leases moves its cursor. -/
theorem cursor_of_call {call : Call} {entries : List Entry} (h : CallEffect db call db' entries)
    (queue : String) : db'.cursor queue = db.cursor queue ∨
      ∃ request entropy step staged, call = .claimJobs request entropy step ∧
        step.persists = true ∧ stageClaim db request entropy = .ok (some staged) ∧
        request.queue = queue ∧ 1 ≤ request.limit := by
  cases h with
  | unchanged => exact .inl rfl
  | commit persists staged =>
    left
    refine stageBatch_induction (P := fun d => d.cursor queue = db.cursor queue)
      (fun _ _ _ h => h) (fun tx tx' op happlies htx => ?_) (stageCommit_staged staged).2.2 rfl
    rw [← htx, Db.cursor, Db.cursor]
    cases hid : op.jobId with
    | none => rw [(applyOperation_noJob hid happlies.apply).2.2.2.2.1]
    | some jobId => rw [(applyOperation_job hid happlies.apply).2.queueCursors]
  | @claim request entropy step staged persists staging =>
    obtain ⟨served, hserved, -, hcursor⟩ := served_of_claim staging
    by_cases hqueue : request.queue = queue
    · rcases Nat.eq_zero_or_pos request.limit with hlimit | hlimit
      · left
        rw [hcursor, if_pos hqueue, hserved, hlimit]
        rfl
      · exact .inr ⟨request, entropy, step, staged, rfl, persists, staging, hqueue, hlimit⟩
    · exact .inl (by rw [hcursor, if_neg hqueue])
  | extend persists staged =>
    obtain ⟨_, _, _, _, -, -, -, -, -, -, rfl, -⟩ := EffectLemmas.applyExtendLease_ok staged
    exact .inl rfl

/-- A claim that persists grants what its stage has served. -/
theorem grantsIn_of_persisted {calls : List Call} {m : Nat} {request : ClaimRequest}
    {staged : StagedClaim} (h : ClaimPersisted calls m request staged) {partition : String} :
    partition ∈ staged.jobs.map ClaimedJob.partitionKey →
      GrantsIn calls m request.queue partition := by
  intro hmem
  obtain ⟨claimed, hclaimed, hkey⟩ := List.mem_map.mp hmem
  exact ⟨request, staged, h, rfl, claimed, hclaimed, hkey⟩

theorem grantsIn_of_entry {calls : List Call} {m : Nat} {call : Call} {transactionId : Id}
    {request : ClaimRequest} {jobs : List ClaimedJob} (hcall : calls[m]? = some call)
    (h : Entry.claim transactionId request jobs ∈ (controlPlane.stateAt calls m).entries call)
    {claimed : ClaimedJob} (hclaimed : claimed ∈ jobs) :
    GrantsIn calls m request.queue claimed.partitionKey := by
  obtain ⟨entropy, step, staged, rfl, persists, staging, -, rfl⟩ := mem_entries_claim.mp h
  exact ⟨request, staged, ⟨entropy, step, hcall, persists, staging⟩, rfl, claimed, hclaimed, rfl⟩

/-- One call keeps `q` ahead of `p` or grants a lease in `q`. -/
theorem ahead_of_call {calls : List Call} {m : Nat} {call : Call} (hcall : calls[m]? = some call)
    (hready : ∀ request entropy step, call = .claimJobs request entropy step →
      request.queue = queue → 1 ≤ request.limit →
      servable (controlPlane.stateAt calls m).db request q = true)
    (h : Ahead queue q p (controlPlane.stateAt calls m).db) :
    Ahead queue q p (controlPlane.stateAt calls (m + 1)).db ∨ GrantsIn calls m queue q := by
  rcases cursor_of_call (next_effect (controlPlane.stateAt calls m) call) queue with
    hcursor | ⟨request, entropy, step, staged, rfl, persists, staging, rfl, hlimit⟩
  · left
    rw [Machine.stateAt_succ hcall, Ahead, hcursor]
    exact h
  · have hpersisted : ClaimPersisted calls m request staged :=
      ⟨entropy, step, hcall, persists, staging⟩
    by_cases hserved : q ∈ staged.jobs.map ClaimedJob.partitionKey
    · exact .inr (grantsIn_of_persisted hpersisted hserved)
    · rw [hpersisted.next]
      have hq := hready request entropy step rfl rfl hlimit
      exact .inl ((ahead_of_claim (indexed_after _) staging hq hserved).2 (.inl h))

end FairnessLemmas

open FairnessLemmas

/-- The head of the partition is ready for the claims on the queue, of the calls
from `i` to `j`, that may grant a lease. -/
def ReadyThroughout (calls : List Call) (i j : Nat) (queue partition : String) : Prop :=
  ∀ m request entropy step, i ≤ m → m ≤ j →
    calls[m]? = some (.claimJobs request entropy step) → request.queue = queue → 1 ≤ request.limit →
    ∃ job, partitionHead (controlPlane.stateAt calls m).db queue partition = some job ∧
      job.ready request.nowMs = true

/-- Round-robin fairness. If calls `i` and `j` both grant a lease in partition
`p`, and partition `q` has a ready head throughout, then one of the calls from
`i` to `j` grants a lease in `q`. -/
theorem round_robin_fair {calls : List Call} {queue p q : String} {i j : Nat} (hij : i < j)
    (hi : GrantsIn calls i queue p) (hj : GrantsIn calls j queue p)
    (hready : ReadyThroughout calls i j queue q) :
    ∃ m, i ≤ m ∧ m ≤ j ∧ GrantsIn calls m queue q := by
  have hservable : ∀ m request entropy step, i ≤ m → m ≤ j →
      calls[m]? = some (.claimJobs request entropy step) → request.queue = queue →
      1 ≤ request.limit → servable (controlPlane.stateAt calls m).db request q = true := by
    rintro m request entropy step him hmj hm rfl hlimit
    obtain ⟨job, hhead, hjob⟩ := hready m request entropy step him hmj hm rfl hlimit
    simp [servable, hhead, hjob]
  by_contra hnone
  have hnot : ∀ m, i ≤ m → m ≤ j → ¬ GrantsIn calls m queue q := fun m him hmj hgrant =>
    hnone ⟨m, him, hmj, hgrant⟩
  -- A call that grants a lease in `p`, and none in `q`, has not found `q` ahead of
  -- `p` but leaves it so.
  have hgrant : ∀ m, i ≤ m → m ≤ j → GrantsIn calls m queue p →
      ¬ Ahead queue q p (controlPlane.stateAt calls m).db ∧
        Ahead queue q p (controlPlane.stateAt calls (m + 1)).db := by
    rintro m him hmj ⟨request, staged, hpersisted, rfl, claimed, hclaimed, rfl⟩
    have hp := List.mem_map_of_mem (f := ClaimedJob.partitionKey) hclaimed
    have hq : q ∉ staged.jobs.map ClaimedJob.partitionKey := fun hmem =>
      hnot m him hmj (grantsIn_of_persisted hpersisted hmem)
    have hnext := hpersisted.next
    obtain ⟨entropy, step, hm, -, staging⟩ := hpersisted
    have hlimit : 1 ≤ request.limit := by
      obtain ⟨served, hserved, hjobs, -⟩ := served_of_claim staging
      by_contra hzero
      rw [hjobs, hserved, Nat.lt_one_iff.mp (Nat.lt_of_not_le hzero)] at hp
      simp at hp
    obtain ⟨hbehind, hahead⟩ := ahead_of_claim (p := claimed.partitionKey) (indexed_after _) staging
      (hservable m request entropy step him hmj hm rfl hlimit) hq
    rw [hnext]
    exact ⟨hbehind hp, hahead (.inr hp)⟩
  have hjlt : j ≤ calls.length := by
    obtain ⟨_, _, ⟨_, _, hcall, -⟩, -⟩ := hj
    exact Nat.le_of_lt (List.getElem?_eq_some_iff.mp hcall).1
  have hwaiting := Machine.stateAt_le_induction (M := controlPlane) (i := i + 1)
    (P := fun m store => m ≤ j → Ahead queue q p store.db)
    (fun _ => (hgrant i (Nat.le_refl i) (Nat.le_of_lt hij) hi).2)
    (fun m call him hm ih hmj => by
      have hstep := ahead_of_call hm (fun request entropy step hcall => hservable m request entropy
        step (by omega) (by omega) (hcall ▸ hm)) (ih (by omega))
      rw [Machine.stateAt_succ hm] at hstep
      exact hstep.resolve_right (hnot m (by omega) (by omega)))
    (k := j) hij hjlt (Nat.le_refl j)
  exact (hgrant j (Nat.le_of_lt hij) (Nat.le_refl j) hj).1 hwaiting

/-- Two jobs of one partition and one of another: the first claim serves the first
partition, and the second claim, which serves it again, serves the other one too. -/
def Sample.rounds : List Call :=
  let job (n : BitVec 128) (partition : String) : Operation :=
    .enqueueJob { Sample.spec .explicitlyIdempotent with
      jobId := .ofU128 n, partitionKey := partition }
  [Sample.commit 10 0 [job 1 "alice", job 2 "alice", job 3 "bob"], Sample.claim 20 5 .done,
    Sample.commit 30 6 [.ackJob ⟨.ofU128 1, .ofU128 20, none⟩],
    .claimJobs ⟨"mail", "worker", 7, 100, 2⟩ [.ofU128 40, .ofU128 41, .ofU128 42] .done]

theorem round_robin_fair_sample : ∃ m, 1 ≤ m ∧ m ≤ 3 ∧ GrantsIn Sample.rounds m "mail" "bob" := by
  have hfirst : (controlPlane.stateAt Sample.rounds 1).entries (Sample.claim 20 5 .done) =
      [.claim (.ofU128 21) ⟨"mail", "worker", 5, 100, 1⟩
        [⟨.ofU128 1, "mail", "alice", [1], "worker", .ofU128 20, 1, 105, none⟩]] := by decide
  have hsecond : (controlPlane.stateAt Sample.rounds 3).entries (.claimJobs
      ⟨"mail", "worker", 7, 100, 2⟩ [.ofU128 40, .ofU128 41, .ofU128 42] .done) =
      [.claim (.ofU128 42) ⟨"mail", "worker", 7, 100, 2⟩
        [⟨.ofU128 3, "mail", "bob", [1], "worker", .ofU128 40, 1, 107, none⟩,
          ⟨.ofU128 2, "mail", "alice", [1], "worker", .ofU128 41, 1, 107, none⟩]] := by decide
  refine round_robin_fair (p := "alice") (by decide)
    (grantsIn_of_entry rfl (by rw [hfirst]; exact List.mem_singleton_self _)
      (List.mem_singleton_self _))
    (grantsIn_of_entry rfl (by rw [hsecond]; exact List.mem_singleton_self _)
      (List.mem_cons_of_mem _ (List.mem_singleton_self _))) ?_
  have hready₁ : (partitionHead (controlPlane.stateAt Sample.rounds 1).db "mail" "bob").any
      (JobRow.ready 5) = true := by decide
  have hready₃ : (partitionHead (controlPlane.stateAt Sample.rounds 3).db "mail" "bob").any
      (JobRow.ready 7) = true := by decide
  intro m request entropy step him hmj hm hqueue hlimit
  obtain rfl | rfl | rfl : m = 1 ∨ m = 2 ∨ m = 3 := by omega
  · cases hm
    exact (Option.any_eq_true _ _).mp hready₁
  · cases hm
  · cases hm
    exact (Option.any_eq_true _ _).mp hready₃

end Minisqlite
