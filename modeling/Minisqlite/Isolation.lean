import Minisqlite.Agreement

/-!
# Queue isolation

Two claims on different queues can be exchanged: each answers as if the other one had
not run, and both orders leave the same tables.

1. `SameContents`: the tables that must not depend on the order.
2. `sameContents_of_claims`: two claims that are both persisted. Each row of `jobs` is
   written by one of them at most, and the partition index follows from the jobs.
3. `queues_isolated`: any two claims, and a claim after a batch of other queues.
-/

namespace Minisqlite

open Tables Runs

namespace IsolationLemmas

open EffectLemmas ClaimLemmas ClaimTotalLemmas FairnessLemmas AgreementLemmas

/-! ## Two claims -/

/-- A sublist that keeps the elements with `p` is the filter by `p`. -/
theorem eq_filter_of_sublist {α : Type} {xs ys : List α} {p : α → Bool} (h : xs.Sublist ys)
    (nodup : ys.Nodup) (hp : ∀ a ∈ ys, a ∈ xs ↔ p a = true) : xs = ys.filter p := by
  induction h with
  | slnil => rfl
  | @cons xs ys a hsub ih =>
    obtain ⟨hnot, hrest⟩ := List.nodup_cons.mp nodup
    have ha : ¬ p a = true := fun hpa =>
      hnot (hsub.subset ((hp a List.mem_cons_self).mpr hpa))
    rw [List.filter_cons_of_neg ha]
    exact ih hrest fun b hb => hp b (List.mem_cons_of_mem _ hb)
  | @cons_cons xs ys a hsub ih =>
    obtain ⟨hnot, hrest⟩ := List.nodup_cons.mp nodup
    rw [List.filter_cons_of_pos ((hp a List.mem_cons_self).mp List.mem_cons_self)]
    refine congrArg (a :: ·) (ih hrest fun b hb => ?_)
    rw [← hp b (List.mem_cons_of_mem _ hb), List.mem_cons,
      or_iff_right fun he : b = a => hnot (he ▸ hb)]

section Tables

variable {db db₁ db₂ db₃ : Db} {request : ClaimRequest} {entropy : Entropy}
  {staged : StagedClaim} {expiryMs : Int64} {plan : LeasePlan}
  (h : ClaimPhases db request entropy staged expiryMs plan db₁ db₂ db₃)
include h

/-- A claim drains partitions and adds none. -/
theorem partitions_sublist :
    staged.db.activePartitions.rows.Sublist db.activePartitions.rows := by
  have hwrite : ∀ d d' job u, RowWrite d d' job u →
      d'.activePartitions.rows.Sublist d.activePartitions.rows := by
    intro d d' job u hwrite
    rw [hwrite.index]
    split
    · exact List.filter_sublist
    · exact List.Sublist.refl _
  exact h.induction (P := fun d => d.activePartitions.rows.Sublist db.activePartitions.rows)
    (fun d d' _ hparts hd => by rw [hparts]; exact hd)
    (fun d d' job _ _ hrow hd => (hwrite d d' job _ hrow).trans hd)
    (fun d d' lease _ _ hrow hd => (hwrite d d' lease.job _ hrow).trans hd) (List.Sublist.refl _)

theorem transactions_of_claim : ∃ sequence, staged.db.transactions.rows = db.transactions.rows ++
    [claimRow staged.transactionId request
      ((planMaintenance db request).length + plan.leases.length) sequence] := by
  obtain ⟨transactions, sequence, rfl, -, hrows, -⟩ := insertClaimTransaction_ok h.transaction
  obtain ⟨⟨jobs, parts, rfl⟩, -⟩ := h.maintenance_repairs
  obtain ⟨⟨jobs, receipts, rfl⟩, -⟩ := leases_ok h.leasing
  obtain ⟨cursors, hcursors⟩ := advanceCursor_cursors { db with
    transactions := transactions, jobs := jobs, activePartitions := parts,
    claimReceipts := receipts } request.queue plan.lastLeased
  exact ⟨sequence, by rw [h.result, hcursors, hrows]⟩

/-- A claim leaves the jobs of other queues alone, whatever has become of them. -/
theorem claimedRow_elsewhere {job row : JobRow} (hjob : job ∈ db.jobs.rows)
    (hqueue : job.spec.queue ≠ request.queue) (hspec : row.spec = job.spec) :
    claimedRow staged.transactionId request expiryMs (repairedJobs db request) plan.leases row =
      row := by
  refine claimedRow_other (fun lease hlease he => hqueue ?_) fun other hother he => hqueue ?_
  · have hhead := partitionHead_spec (planLeases_head h.planned hlease)
    rw [hspec] at he
    rw [← eq_of_found (job_of_mem hjob) hhead.1 he]
    exact (activeIn_iff.mp hhead.2.1).1
  · obtain ⟨action, haction, rfl⟩ := List.mem_map.mp hother
    obtain ⟨hstored, hexpired, -⟩ := planMaintenance_spec haction
    rw [hspec] at he
    rw [← eq_of_found (job_of_mem hjob) hstored he]
    exact (expiredIn_iff.mp hexpired).1

end Tables

theorem sameContents_refl (db : Db) : SameContents db db :=
  ⟨rfl, rfl, .refl _, .refl _, .refl _, rfl, rfl, rfl, rfl⟩

/-- The index after some claims is known from the jobs. -/
theorem partitions_of_sublist {db db' : Db} (hindexed : Indexed db')
    (hsub : db'.activePartitions.rows.Sublist db.activePartitions.rows) :
    db'.activePartitions.rows = db.activePartitions.rows.filter fun row =>
      db'.jobs.rows.any (JobRow.activeIn row.queue row.partitionKey) := by
  have hunique :=
    Schema.keyed_unique fun row : ActivePartitionRow => (row.queue, row.partitionKey)
  refine eq_filter_of_sublist hsub ((Table.nodup_keys hunique db.activePartitions).of_map _)
    fun row hrow => ⟨fun hmem => List.any_eq_true.mpr (hindexed.busy row hmem), fun hbusy => ?_⟩
  obtain ⟨job, hjob, hactive⟩ := List.any_eq_true.mp hbusy
  obtain ⟨hqueue, hpartition, hstate⟩ := activeIn_iff.mp hactive
  obtain ⟨row', hrow', hfor⟩ := hindexed.listed job hjob hstate
  rwa [Table.eq_of_key hunique db.activePartitions hrow (hsub.subset hrow')
    (by rw [hfor.1, hfor.2, hqueue, hpartition])]

section TwoClaims

variable {db : Db} {a b : ClaimRequest} {ea eb : Entropy} {sa sab sb sba : StagedClaim}

/-- Two claims on different queues, in either order. -/
theorem sameContents_of_claims (hqueue : a.queue ≠ b.queue)
    (ha : stageClaim db a ea = .ok (some sa)) (hab : stageClaim sa.db b eb = .ok (some sab))
    (hb : stageClaim db b eb = .ok (some sb)) (hba : stageClaim sb.db a ea = .ok (some sba))
    (hindexed : Indexed sab.db) (hindexed' : Indexed sba.db) : SameContents sab.db sba.db := by
  have agreeB := agreeOn_of_claim hqueue ha
  have agreeA := agreeOn_of_claim hqueue.symm hb
  have repairedB : repairedJobs sa.db b = repairedJobs db b := by
    rw [repairedJobs, planMaintenance_agree agreeB, ← repairedJobs]
  have repairedA : repairedJobs sb.db a = repairedJobs db a := by
    rw [repairedJobs, planMaintenance_agree agreeA, ← repairedJobs]
  obtain ⟨expiryA, planA, _, _, _, pa⟩ := stageClaim_phases ha
  obtain ⟨expiryB, planB, _, _, _, pb⟩ := stageClaim_phases hb
  obtain ⟨_, _, _, _, _, pab⟩ := stageClaim_phases hab
  obtain ⟨_, _, _, _, _, pba⟩ := stageClaim_phases hba
  obtain ⟨rfl, rfl, tidB⟩ := phases_agree agreeB pb pab
  obtain ⟨rfl, rfl, tidA⟩ := phases_agree agreeA pa pba
  have wa := pa.write
  have wb := pb.write
  have wab := pab.write
  have wba := pba.write
  have hjobs : sba.db.jobs.rows = sab.db.jobs.rows := by
    rw [pba.rows, pab.rows, pa.rows, pb.rows, repairedA, repairedB, tidA, tidB, List.map_map,
      List.map_map]
    refine List.map_congr_left fun job hjob => ?_
    rw [Function.comp_apply, Function.comp_apply]
    -- Each of the claims leaves the jobs of the other queue alone.
    by_cases hjobA : job.spec.queue = a.queue
    · have hnot : job.spec.queue ≠ b.queue := hjobA ▸ hqueue
      rw [claimedRow_elsewhere pb hjob hnot rfl,
        claimedRow_elsewhere pb hjob hnot claimedRow_spec]
    · rw [claimedRow_elsewhere pa hjob hjobA rfl,
        claimedRow_elsewhere pa hjob hjobA claimedRow_spec]
  constructor
  case jobs => exact hjobs
  case activePartitions =>
    rw [partitions_of_sublist hindexed' ((partitions_sublist pba).trans (partitions_sublist pb)),
      partitions_of_sublist hindexed ((partitions_sublist pab).trans (partitions_sublist pa)),
      hjobs]
  case queueCursors =>
    refine Table.perm_of_lookup (Schema.keyed_unique _) fun queue => ?_
    rw [pba.cursors, pb.cursors, pab.cursors, pa.cursors]
    by_cases hqa : a.queue = queue
    · subst hqa
      simp [hqueue.symm]
    · simp [hqa]
  case claimReceipts =>
    rw [wba.receipts, wb.receipts, wab.receipts, wa.receipts, tidA, tidB, List.append_assoc,
      List.append_assoc]
    exact List.perm_append_comm.append_left _
  case transactions =>
    obtain ⟨_, hrowsA⟩ := transactions_of_claim pa
    obtain ⟨_, hrowsB⟩ := transactions_of_claim pb
    obtain ⟨_, hrowsAB⟩ := transactions_of_claim pab
    obtain ⟨_, hrowsBA⟩ := transactions_of_claim pba
    rw [hrowsBA, hrowsB, hrowsAB, hrowsA, tidA, tidB, planMaintenance_agree agreeA,
      planMaintenance_agree agreeB]
    simp only [List.map_append, List.append_assoc]
    exact List.perm_append_comm.append_left _
  case events => rw [wba.events, wb.events, wab.events, wa.events]
  case streams => rw [wba.streams, wb.streams, wab.streams, wa.streams]
  case projectionMeta =>
    rw [wba.projectionMeta, wb.projectionMeta, wab.projectionMeta, wa.projectionMeta]
  case projectionEntries =>
    rw [wba.projectionEntries, wb.projectionEntries, wab.projectionEntries, wa.projectionEntries]

end TwoClaims

/-! ## One call more -/

section OneCall

variable {calls : List Call} {call : Call} {request : ClaimRequest} {entropy : Entropy}

theorem recorded_of_call {id : Id}
    (h : (controlPlane.after (calls ++ [call])).db.Recorded id) :
    (controlPlane.after calls).db.Recorded id ∨
      ∃ entry ∈ (controlPlane.after calls).entries call, entry.transactionId = id := by
  obtain ⟨row, hrow, rfl⟩ := h
  rw [Machine.after_append_singleton] at hrow
  rcases (next_effect (controlPlane.after calls) call).transactions with
    ⟨-, hrows⟩ | ⟨entry, new, hentries, hrecorded, hrows, -⟩
  · exact .inl ⟨row, hrows ▸ hrow, rfl⟩
  · rw [hrows] at hrow
    rcases List.mem_append.mp hrow with hrow | hrow
    · exact .inl ⟨row, hrow, rfl⟩
    · obtain rfl := List.mem_singleton.mp hrow
      exact .inr ⟨entry, by rw [hentries]; exact List.mem_singleton_self _,
        hrecorded.transactionId.symm⟩

/-- A claim does not fail after a call that it does not see, and answers as before it. -/
theorem claim_after_call (hfile : (controlPlane.after calls).db.WithinFileLimit)
    (hvalid : request.Valid) (hentropy : FreshEntropy (controlPlane.after calls).db request entropy)
    (hagree : AgreeOn request.queue (controlPlane.after calls).db
      (controlPlane.after (calls ++ [call])).db)
    (hids : ∀ entry ∈ (controlPlane.after calls).entries call,
      entry.transactionId ∉ entropy.map Id.ofRandom) (step : CommitStep) :
    (∃ staged, stageClaim (controlPlane.after (calls ++ [call])).db request entropy = .ok staged) ∧
      ((controlPlane.after (calls ++ [call])).claimJobs request entropy step).2 =
        ((controlPlane.after calls).claimJobs request entropy step).2 := by
  have hroom := transactions_room calls call
  have hfew := hfile.transactions
  obtain ⟨expiryMs, hexpiry, -⟩ := leaseExpiry_valid hvalid
  obtain ⟨staged, hstage⟩ := stageClaim_valid hfile hvalid hentropy
  obtain ⟨staged', hstage'⟩ := stageClaim_total (resolves_after (calls ++ [call]))
    (transactions_consecutive _) (by omega) hexpiry
    (fun id hid hrecorded => by
      rcases recorded_of_call hrecorded with hrecorded | ⟨entry, hentry, rfl⟩
      · exact hentropy.fresh id hid hrecorded
      · exact hids entry hentry hid)
    (leaseCount_agree hagree ▸ hentropy.enough)
  exact ⟨⟨staged', hstage'⟩,
    claimJobs_answer hstage hstage' (staged_agree hagree hstage hstage') step⟩

/-- The ids that a claim records are those that it has drawn. -/
theorem drawn_of_entry {store : ControlPlaneStore} {step : CommitStep} {entry : Entry}
    (h : entry ∈ store.entries (.claimJobs request entropy step)) :
    entry.transactionId ∈ entropy.map Id.ofRandom := by
  cases entry with
  | batch b =>
    obtain ⟨_, _, _, _, hcall, -⟩ := mem_entries_batch.mp h
    cases hcall
  | claim tid request jobs =>
    obtain ⟨_, _, staged, hcall, -, hstage, rfl, -⟩ := mem_entries_claim.mp h
    cases hcall
    obtain ⟨leases, expiryMs, hwrite⟩ := stageClaim_write hstage
    exact hwrite.id_drawn

theorem id_of_entry {store : ControlPlaneStore} {limits : Limits} {batch : CommitBatch}
    {step : CommitStep} {entry : Entry} (h : entry ∈ store.entries (.commit limits batch step)) :
    entry.transactionId = batch.transactionId := by
  cases entry with
  | batch b =>
    obtain ⟨_, _, _, _, hcall, -⟩ := mem_entries_batch.mp h
    cases hcall
    rfl
  | claim tid request jobs =>
    obtain ⟨_, _, _, hcall, -⟩ := mem_entries_claim.mp h
    cases hcall

end OneCall

/-- A claim that had nothing to write, or whose COMMIT was rolled back. -/
theorem db_after_idle {calls : List Call} {request : ClaimRequest} {entropy : Entropy}
    {step : CommitStep} {s : Option StagedClaim}
    (hs : stageClaim (controlPlane.after calls).db request entropy = .ok s)
    (hidle : s = none ∨ step.persists = false) :
    (controlPlane.after (calls ++ [.claimJobs request entropy step])).db =
      (controlPlane.after calls).db := by
  rw [Machine.after_append_singleton]
  show ((controlPlane.after calls).claimJobs request entropy step).1.db = _
  rw [claimJobs_db hs]
  rcases hidle with rfl | hidle
  · simp
  · rw [hidle]
    rfl

theorem db_after_persisted {calls : List Call} {request : ClaimRequest} {entropy : Entropy}
    {step : CommitStep} {staged : StagedClaim}
    (hs : stageClaim (controlPlane.after calls).db request entropy = .ok (some staged))
    (hpersists : step.persists = true) :
    (controlPlane.after (calls ++ [.claimJobs request entropy step])).db = staged.db := by
  rw [Machine.after_append_singleton]
  show ((controlPlane.after calls).claimJobs request entropy step).1.db = _
  rw [claimJobs_db hs, hpersists]
  rfl

/-- The database after a claim depends on the database before it. -/
theorem db_after_congr {calls calls' : List Call}
    (h : (controlPlane.after calls').db = (controlPlane.after calls).db) {request : ClaimRequest}
    {entropy : Entropy} {s : Option StagedClaim}
    (hs : stageClaim (controlPlane.after calls).db request entropy = .ok s) (step : CommitStep) :
    (controlPlane.after (calls' ++ [.claimJobs request entropy step])).db =
      (controlPlane.after (calls ++ [.claimJobs request entropy step])).db := by
  rw [Machine.after_append_singleton, Machine.after_append_singleton]
  show ((controlPlane.after calls').claimJobs request entropy step).1.db =
    ((controlPlane.after calls).claimJobs request entropy step).1.db
  rw [claimJobs_db hs, claimJobs_db (h ▸ hs), h]

/-- The tables after two claims, each of which finds something to write in both orders
or in none. -/
theorem sameContents_of_calls {calls : List Call} {a b : ClaimRequest} {ea eb : Entropy}
    {sa sb : CommitStep} {pa pb pab pba : Option StagedClaim} (hqueue : a.queue ≠ b.queue)
    (ha : stageClaim (controlPlane.after calls).db a ea = .ok pa)
    (hb : stageClaim (controlPlane.after calls).db b eb = .ok pb)
    (hab : stageClaim (controlPlane.after (calls ++ [.claimJobs a ea sa])).db b eb = .ok pab)
    (hba : stageClaim (controlPlane.after (calls ++ [.claimJobs b eb sb])).db a ea = .ok pba)
    (agreeA : pba = none ↔ pa = none) (agreeB : pab = none ↔ pb = none) :
    SameContents (controlPlane.after (calls ++ [.claimJobs a ea sa] ++ [.claimJobs b eb sb])).db
      (controlPlane.after (calls ++ [.claimJobs b eb sb] ++ [.claimJobs a ea sa])).db := by
  have indexedAB := indexed_after (calls ++ [.claimJobs a ea sa] ++ [.claimJobs b eb sb])
  have indexedBA := indexed_after (calls ++ [.claimJobs b eb sb] ++ [.claimJobs a ea sa])
  by_cases idleA : pa = none ∨ sa.persists = false
  · rw [db_after_idle hba (idleA.imp_left agreeA.mpr),
      db_after_congr (db_after_idle ha idleA) hb sb]
    exact sameContents_refl _
  by_cases idleB : pb = none ∨ sb.persists = false
  · rw [db_after_idle hab (idleB.imp_left agreeB.mpr),
      db_after_congr (db_after_idle hb idleB) ha sa]
    exact sameContents_refl _
  simp only [not_or, Bool.not_eq_false] at idleA idleB
  obtain ⟨stagedA, rfl⟩ := Option.ne_none_iff_exists'.mp idleA.1
  obtain ⟨stagedB, rfl⟩ := Option.ne_none_iff_exists'.mp idleB.1
  obtain ⟨stagedAB, rfl⟩ := Option.ne_none_iff_exists'.mp (mt agreeB.mp idleB.1)
  obtain ⟨stagedBA, rfl⟩ := Option.ne_none_iff_exists'.mp (mt agreeA.mp idleA.1)
  rw [db_after_persisted hab idleB.2] at indexedAB ⊢
  rw [db_after_persisted hba idleA.2] at indexedBA ⊢
  rw [db_after_persisted ha idleA.2] at hab
  rw [db_after_persisted hb idleB.2] at hba
  exact sameContents_of_claims hqueue ha hab hb hba indexedAB indexedBA

end IsolationLemmas

open IsolationLemmas AgreementLemmas ClaimTotalLemmas

/-- Queues are isolated. In every reachable state two valid claims on different queues,
with new and different ids, answer each as if the other one had not run, and leave the
same tables in either order. A batch that names only jobs of other queues changes
neither the repairs nor the leases of a claim after it. -/
theorem queues_isolated (calls : List Call) (a b : ClaimRequest) (ea eb : Entropy)
    (sa sb : CommitStep) (hqueue : a.queue ≠ b.queue)
    (hfile : (controlPlane.after calls).db.WithinFileLimit) (ha : a.Valid) (hb : b.Valid)
    (hea : FreshEntropy (controlPlane.after calls).db a ea)
    (heb : FreshEntropy (controlPlane.after calls).db b eb)
    (hdisjoint : List.Disjoint (ea.map Id.ofRandom) (eb.map Id.ofRandom)) :
    ((controlPlane.after (calls ++ [.claimJobs b eb sb])).claimJobs a ea sa).2 =
        ((controlPlane.after calls).claimJobs a ea sa).2 ∧
    ((controlPlane.after (calls ++ [.claimJobs a ea sa])).claimJobs b eb sb).2 =
        ((controlPlane.after calls).claimJobs b eb sb).2 ∧
    SameContents (controlPlane.after (calls ++ [.claimJobs a ea sa] ++ [.claimJobs b eb sb])).db
      (controlPlane.after (calls ++ [.claimJobs b eb sb] ++ [.claimJobs a ea sa])).db ∧
    ∀ limits batch step, batch.Elsewhere a.queue (controlPlane.after calls).db →
      batch.transactionId ∉ ea.map Id.ofRandom →
      repairedJobs (controlPlane.after (calls ++ [.commit limits batch step])).db a =
        repairedJobs (controlPlane.after calls).db a ∧
      ((controlPlane.after (calls ++ [.commit limits batch step])).claimJobs a ea sa).2 =
        ((controlPlane.after calls).claimJobs a ea sa).2 := by
  obtain ⟨pa, hstageA⟩ := stageClaim_valid hfile ha hea
  obtain ⟨pb, hstageB⟩ := stageClaim_valid hfile hb heb
  have agreeA : AgreeOn a.queue (controlPlane.after calls).db
      (controlPlane.after (calls ++ [.claimJobs b eb sb])).db := by
    rw [Machine.after_append_singleton]
    exact agreeOn_of_call hqueue.symm hstageB sb
  have agreeB : AgreeOn b.queue (controlPlane.after calls).db
      (controlPlane.after (calls ++ [.claimJobs a ea sa])).db := by
    rw [Machine.after_append_singleton]
    exact agreeOn_of_call hqueue hstageA sa
  obtain ⟨⟨pba, hstageBA⟩, hanswerA⟩ := claim_after_call hfile ha hea agreeA
    (fun entry hentry hid => hdisjoint hid (drawn_of_entry hentry)) sa
  obtain ⟨⟨pab, hstageAB⟩, hanswerB⟩ := claim_after_call hfile hb heb agreeB
    (fun entry hentry hid => hdisjoint (drawn_of_entry hentry) hid) sb
  refine ⟨hanswerA, hanswerB, ?_, fun limits batch step helsewhere hid => ?_⟩
  · have none_of_map {s s' : Option StagedClaim} (h : (s'.map fun staged =>
        (staged.transactionId, staged.jobs)) = s.map fun staged =>
          (staged.transactionId, staged.jobs)) : s' = none ↔ s = none := by
      rw [← Option.map_eq_none_iff, h, Option.map_eq_none_iff]
    exact sameContents_of_calls hqueue hstageA hstageB hstageAB hstageBA
      (none_of_map (staged_agree agreeA hstageA hstageBA))
      (none_of_map (staged_agree agreeB hstageB hstageAB))
  · have agree : AgreeOn a.queue (controlPlane.after calls).db
        (controlPlane.after (calls ++ [.commit limits batch step])).db := by
      rw [Machine.after_append_singleton]
      exact agreeOn_of_commit helsewhere limits step
    refine ⟨by rw [repairedJobs, planMaintenance_agree agree, ← repairedJobs], ?_⟩
    exact (claim_after_call hfile ha hea agree (fun entry hentry => id_of_entry hentry ▸ hid) sa).2

/-- A job in each of two queues, in partitions of one key. -/
def Sample.twoQueues : List Call :=
  [Sample.commit 10 0 [.enqueueJob (Sample.spec .explicitlyIdempotent), .enqueueJob
    { Sample.spec .explicitlyIdempotent with jobId := .ofU128 2, queue := "post" }]]

theorem queues_isolated_sample :
    ((controlPlane.after (Sample.twoQueues ++ [.claimJobs ⟨"post", "worker", 5, 100, 1⟩
      [.ofU128 30, .ofU128 31] .done])).claimJobs ⟨"mail", "worker", 5, 100, 1⟩
        [.ofU128 20, .ofU128 21] .done).2 =
      ((controlPlane.after Sample.twoQueues).claimJobs ⟨"mail", "worker", 5, 100, 1⟩
        [.ofU128 20, .ofU128 21] .done).2 := by
  have h := queues_isolated Sample.twoQueues ⟨"mail", "worker", 5, 100, 1⟩
    ⟨"post", "worker", 5, 100, 1⟩ [.ofU128 20, .ofU128 21] [.ofU128 30, .ofU128 31] .done .done
    (by decide) ⟨by decide, by decide, by decide⟩ ⟨by decide, by decide, by decide, by decide⟩
    ⟨by decide, by decide, by decide, by decide⟩ ⟨by decide, by decide⟩
    ⟨by decide, by decide⟩ (List.disjoint_iff_ne.mpr (by decide))
  exact h.1

end Minisqlite
