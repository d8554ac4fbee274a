import Minisqlite.Journal

/-!
# Transaction ids: resubmission and recovery

A transaction id that is on record answers for itself: the same batch gets its
original receipt back, any other batch under the id is refused, and nothing is
written. So a client that lost the outcome of a COMMIT can resubmit or recover
as often as it likes.

* `commit_idempotent`: resubmission at any later point of any run.
* `commit_recovery`: an indeterminate commit is recovered exactly, and its batch
  is applied at most once.

SHA-256 may collide in principle; `NoCollision` says that it does not on the two
batches at hand.
-/

namespace Minisqlite

open Runs ControlPlaneStore

/-- The two batches do not share a digest without sharing what is digested. -/
def NoCollision (b b' : CommitBatch) : Prop :=
  requestDigest b = requestDigest b' → requestBytes b = requestBytes b'

/-- The batch is turned away because of its id or its own shape, and nothing is
written. -/
def Refused (store : ControlPlaneStore) (limits : Limits) (batch : CommitBatch)
    (step : CommitStep) : Prop :=
  store.commit limits batch step = (store.connection, .error .duplicateIdWithDifferentContent) ∨
    ∃ v, validateBatch limits batch = .error v ∧
      store.commit limits batch step = (store.connection, .error (.validation v))

/-- Batches without a collision and with one digest differ in their id only. -/
theorem eq_of_requestDigest {b b' : CommitBatch} (hb : b.Fits) (hb' : b'.Fits)
    (hc : NoCollision b b') (hid : b.transactionId = b'.transactionId)
    (h : requestDigest b = requestDigest b') : b = b' := by
  obtain ⟨hat, hcorrelation, hmeta, hexpected, hops⟩ := requestBytes_injective hb hb' (hc h)
  cases b
  cases b'
  simp only [CommitBatch.mk.injEq]
  exact ⟨hid, hat, hcorrelation, hmeta, hexpected, hops⟩

namespace TransactionLemmas

variable {store : ControlPlaneStore} {limits : Limits} {batch : CommitBatch} {step : CommitStep}
  {row : TransactionRow}

/-- The duplicate check comes before every check that reads other tables. -/
theorem commit_of_recorded (valid : validateBatch limits batch = .ok ())
    (recorded : store.db.transaction batch.transactionId = some row)
    (same : row.requestDigest = requestDigest batch) :
    store.commit limits batch step = (store.connection, .ok row.receipt) := by
  have hstage : stageCommit limits store.db batch = .ok (.resubmitted row.receipt) := by
    simp [stageCommit, valid, recorded, same, Except.mapError, bind, Except.bind]
  simp [commit, hstage]

theorem refused_of_recorded (recorded : store.db.transaction batch.transactionId = some row)
    (different : row.requestDigest ≠ requestDigest batch) : Refused store limits batch step := by
  cases hvalid : validateBatch limits batch with
  | error v =>
    have hstage : stageCommit limits store.db batch = .error (.validation v) := by
      simp [stageCommit, hvalid, Except.mapError, bind, Except.bind]
    exact .inr ⟨v, hvalid, by simp [commit, hstage]⟩
  | ok _ =>
    have hstage : stageCommit limits store.db batch =
        .error .duplicateIdWithDifferentContent := by
      simp [stageCommit, hvalid, recorded, different, Except.mapError, bind, Except.bind]
    exact .inl (by simp [commit, hstage])

end TransactionLemmas

open TransactionLemmas

/-- Idempotent resubmission. Once a batch has persisted, committing it again
returns the original receipt, a different batch under its id is refused, and so
is every batch under the id of a claim; none of these calls writes anything. -/
theorem commit_idempotent {calls : List Call} {i k : Nat} (hik : i < k) :
    (∀ limits batch receipt, CommitPersisted calls i limits batch receipt →
      (∀ step, (controlPlane.stateAt calls k).commit limits batch step =
        ((controlPlane.stateAt calls k).connection, .ok receipt)) ∧
      ∀ limits' batch' step, batch'.transactionId = batch.transactionId → batch' ≠ batch →
        batch.Fits → batch'.Fits → NoCollision batch batch' →
        Refused (controlPlane.stateAt calls k) limits' batch' step) ∧
    ∀ request staged, ClaimPersisted calls i request staged →
      ∀ limits batch step, batch.transactionId = staged.transactionId →
        Refused (controlPlane.stateAt calls k) limits batch step := by
  constructor
  · intro limits batch receipt hpersisted
    obtain ⟨sequence, hrecorded, rfl⟩ := hpersisted.recorded hik
    constructor
    · intro step
      obtain ⟨_, _, -, -, hstaged⟩ := hpersisted
      exact commit_of_recorded (stageCommit_staged hstaged).1 hrecorded rfl
    · intro limits' batch' step hid hne hfits hfits' hcollision
      rw [← hid] at hrecorded
      exact refused_of_recorded hrecorded fun hdigest =>
        hne (eq_of_requestDigest hfits hfits' hcollision hid.symm hdigest).symm
  · intro request staged hpersisted limits batch step hid
    obtain ⟨operationCount, sequence, hrecorded⟩ := hpersisted.recorded hik
    rw [← hid] at hrecorded
    refine refused_of_recorded hrecorded fun hdigest => ?_
    -- A claim's digest has 16 bytes, a batch's has 32.
    have := congrArg List.length hdigest
    simp [claimRow] at this

/-- A batch that appends an event. -/
def Sample.submission (n : BitVec 128) (committedAtMs : Int64) : CommitBatch :=
  Sample.batch n committedAtMs [.appendEvent ⟨.ofU128 n, "s", "t", 1, 0, none, none, [], []⟩]

theorem Sample.submission_fits (n : BitVec 128) (committedAtMs : Int64) :
    (Sample.submission n committedAtMs).Fits where
  metadata := Nat.two_pow_pos 64
  expectedCount := Nat.two_pow_pos 64
  expected := List.forall_mem_nil _
  operationCount := Nat.one_lt_two_pow (by decide)
  operations := by
    have hs : fitsStr "s" := by decide
    have ht : fitsStr "t" := by decide
    exact List.forall_mem_singleton.mpr ⟨hs, ht, Nat.two_pow_pos 64, Nat.two_pow_pos 64⟩

theorem commit_idempotent_sample :
    ∃ receipt, (∀ step,
      (controlPlane.stateAt [.commit .default (Sample.submission 1 7) .done] 1).commit
        .default (Sample.submission 1 7) step =
      ((controlPlane.stateAt [.commit .default (Sample.submission 1 7) .done] 1).connection,
        .ok receipt)) ∧
    Refused (controlPlane.stateAt [.commit .default (Sample.submission 1 7) .done] 1) .default
      (Sample.submission 1 8) .done := by
  have hmem : Entry.batch (Sample.submission 1 7) ∈
      journal ([.commit .default (Sample.submission 1 7) .done].take 1) := by
    decide
  obtain ⟨i, hi, limits, receipt, hpersisted⟩ := mem_journal_batch.mp hmem
  obtain ⟨hsame, hother⟩ := (commit_idempotent hi).1 limits _ receipt hpersisted
  obtain rfl := Nat.lt_one_iff.mp hi
  obtain ⟨_, _, hcall, -⟩ := hpersisted
  obtain rfl : Limits.default = limits := (Call.commit.inj (Option.some.inj hcall)).1
  exact ⟨receipt, hsame, hother _ _ _ rfl (by decide) (Sample.submission_fits 1 7)
    (Sample.submission_fits 1 8) fun h => absurd h (by decide +kernel)⟩

/-- The batch was applied by call `i`. -/
def AppliedAt (calls : List Call) (batch : CommitBatch) (i : Nat) : Prop :=
  ∃ limits receipt, CommitPersisted calls i limits batch receipt

namespace TransactionLemmas

variable {calls : List Call} {batch : CommitBatch}

/-- A batch that is on record is not applied again. -/
theorem appliedAt_unique {i j : Nat} (hi : AppliedAt calls batch i) (hj : AppliedAt calls batch j) :
    i = j := by
  have hfree : ∀ {i j}, AppliedAt calls batch i → AppliedAt calls batch j → ¬ i < j := by
    rintro i j ⟨_, _, hi⟩ ⟨_, _, hj⟩ hij
    obtain ⟨sequence, hrecorded, -⟩ := hi.recorded hij
    obtain ⟨_, _, -, -, hstaged⟩ := hj
    rw [(stageCommit_staged hstaged).2.1] at hrecorded
    cases hrecorded
  exact Nat.le_antisymm (Nat.not_lt.mp (hfree hj hi)) (Nat.not_lt.mp (hfree hi hj))

/-- An attempt that did not apply the batch wrote nothing. -/
theorem unchanged_of_not_appliedAt {i : Nat} {limits : Limits} {step : CommitStep}
    (hi : calls[i]? = some (.commit limits batch step)) (h : ¬ AppliedAt calls batch i) :
    (controlPlane.stateAt calls (i + 1)).db = (controlPlane.stateAt calls i).db := by
  have hcases {db' : Db} {added : List Entry} (heffect : CallEffect
      (controlPlane.stateAt calls i).db (.commit limits batch step) db' added) :
      db' = (controlPlane.stateAt calls i).db := by
    cases heffect with
    | unchanged => rfl
    | commit persists staged => exact absurd ⟨_, _, _, _, hi, persists, staged⟩ h
  rw [Machine.stateAt_succ hi]
  exact hcases (next_effect _ _)

/-- A transaction id that only this batch uses is on record once it was applied. -/
theorem transaction_iff_appliedAt
    (only : ∀ limits b step, Call.commit limits b step ∈ calls →
      b.transactionId = batch.transactionId → b = batch)
    (notDrawn : ∀ call ∈ calls, batch.transactionId ∉ call.drawn) {k : Nat} {row : TransactionRow}
    (h : (controlPlane.stateAt calls k).db.transaction batch.transactionId = some row) :
    ∃ i < k, ∃ limits, CommitPersisted calls i limits batch row.receipt := by
  obtain ⟨-, entry, hentry, hrecorded, hid⟩ := transaction_iff.mp h
  cases entry with
  | batch b =>
    obtain ⟨i, hik, limits, receipt, hpersisted⟩ := mem_journal_batch.mp hentry
    obtain ⟨step, db', hi, persists, staged⟩ := hpersisted
    obtain rfl := only limits b step (List.mem_of_getElem? hi) hid
    have hpersisted : CommitPersisted calls i limits b receipt := ⟨step, db', hi, persists, staged⟩
    obtain ⟨sequence, hrow, rfl⟩ := hpersisted.recorded hik
    obtain rfl := Option.some.inj (hrow.symm.trans h)
    exact ⟨i, hik, limits, hpersisted⟩
  | claim transactionId request jobs =>
    obtain ⟨i, -, staged, ⟨entropy, step, hi, -, staging⟩, rfl, -⟩ := mem_journal_claim.mp hentry
    obtain ⟨_, _, hwrite⟩ := stageClaim_write staging
    refine absurd ?_ (notDrawn _ (List.mem_of_getElem? hi))
    rw [← hid]
    exact hwrite.id_drawn

end TransactionLemmas

/-- The client has been told that its batch is durable: a commit returned `Ok`,
or a recovery returned the receipt. -/
def Confirmed (calls : List Call) (batch : CommitBatch) (k : Nat) : Prop :=
  ∃ i < k, ∃ receipt,
    (∃ limits step, calls[i]? = some (.commit limits batch step) ∧
      controlPlane.replyAt calls i = some (.commit (.ok receipt))) ∨
    (calls[i]? = some (.recoverTransaction batch.transactionId) ∧
      controlPlane.replyAt calls i = some (.recoverTransaction (.committed receipt)))

namespace TransactionLemmas

/-- `Ok` means that the batch is on record after the call, with this receipt. -/
theorem recorded_of_ok {calls : List Call} {batch : CommitBatch} {i : Nat} {limits : Limits}
    {step : CommitStep} {receipt : CommitReceipt}
    (hi : calls[i]? = some (.commit limits batch step))
    (h : controlPlane.replyAt calls i = some (.commit (.ok receipt))) :
    ∃ row, (controlPlane.stateAt calls (i + 1)).db.transaction batch.transactionId = some row ∧
      row.receipt = receipt := by
  rw [Machine.replyAt, hi] at h
  have hreply : ((controlPlane.stateAt calls i).commit limits batch step).2 = .ok receipt :=
    Reply.commit.inj (Option.some.inj h)
  match hstage : stageCommit limits (controlPlane.stateAt calls i).db batch with
  | .error e => simp [commit, hstage] at hreply
  | .ok (.resubmitted r) =>
    -- A resubmission found the row of the original.
    obtain ⟨_, -, hlookup⟩ := bind_ok hstage
    split at hlookup
    · next row hrow =>
      refine ⟨row, transaction_persists calls (Nat.le_succ i) hrow, ?_⟩
      split at hlookup
      · cases hlookup
        simpa [commit, hstage] using hreply
      · cases hlookup
    · obtain ⟨_, -, hlookup⟩ := bind_ok hlookup
      cases hlookup
  | .ok (.staged db r) =>
    cases step with
    | done =>
      have hpersisted : CommitPersisted calls i limits batch r := ⟨.done, db, hi, rfl, hstage⟩
      obtain ⟨sequence, hrow, hreceipt⟩ := hpersisted.recorded (Nat.lt_succ_self i)
      refine ⟨_, hrow, hreceipt.symm.trans ?_⟩
      simpa [commit, hstage, finish] using hreply
    | lost persisted e => simp [commit, hstage, finish] at hreply

end TransactionLemmas

/-- Recovery of an indeterminate commit, for a transaction id that no other
batch uses and no claim draws. At every point of the run: recovery returns the
receipt exactly if the batch has been applied, and `Absent` exactly if it has
not; an attempt either applies the whole batch or changes nothing; the batch is
applied at most once, and it has been applied once the client has been told so. -/
theorem commit_recovery {calls : List Call} {batch : CommitBatch}
    (only : ∀ limits b step, Call.commit limits b step ∈ calls →
      b.transactionId = batch.transactionId → b = batch)
    (notDrawn : ∀ call ∈ calls, batch.transactionId ∉ call.drawn) (k : Nat) :
    (∀ receipt, recoverTransaction (controlPlane.stateAt calls k).db batch.transactionId =
        .committed receipt ↔ ∃ i < k, ∃ limits, CommitPersisted calls i limits batch receipt) ∧
    (recoverTransaction (controlPlane.stateAt calls k).db batch.transactionId = .absent ↔
      ¬ ∃ i < k, AppliedAt calls batch i) ∧
    (∀ i limits receipt, CommitPersisted calls i limits batch receipt →
      ∃ db', stageBatch (controlPlane.stateAt calls i).db batch = .ok (db', receipt) ∧
        (controlPlane.stateAt calls (i + 1)).db = db') ∧
    (∀ i limits step, calls[i]? = some (.commit limits batch step) → ¬ AppliedAt calls batch i →
      (controlPlane.stateAt calls (i + 1)).db = (controlPlane.stateAt calls i).db) ∧
    (∀ i j, AppliedAt calls batch i → AppliedAt calls batch j → i = j) ∧
    (Confirmed calls batch k → ∃ i < k, AppliedAt calls batch i) := by
  have hiff : ∀ k receipt,
      recoverTransaction (controlPlane.stateAt calls k).db batch.transactionId =
        .committed receipt ↔ ∃ i < k, ∃ limits, CommitPersisted calls i limits batch receipt := by
    intro k receipt
    constructor
    · intro h
      unfold recoverTransaction at h
      split at h
      · next row hrow =>
        obtain rfl := TransactionRecovery.committed.inj h
        exact transaction_iff_appliedAt only notDrawn hrow
      · cases h
    · rintro ⟨i, hik, limits, hpersisted⟩
      obtain ⟨sequence, hrow, rfl⟩ := hpersisted.recorded hik
      simp [recoverTransaction, hrow]
  refine ⟨hiff k, ?_, fun _ _ _ h => h.next, fun _ _ _ hi h => unchanged_of_not_appliedAt hi h,
    fun _ _ => appliedAt_unique, ?_⟩
  · constructor
    · rintro h ⟨i, hik, limits, receipt, hpersisted⟩
      rw [(hiff k receipt).mpr ⟨i, hik, limits, hpersisted⟩] at h
      cases h
    · intro h
      cases hrecovery :
        recoverTransaction (controlPlane.stateAt calls k).db batch.transactionId with
      | absent => rfl
      | committed receipt =>
        obtain ⟨i, hik, limits, hpersisted⟩ := (hiff k receipt).mp hrecovery
        exact absurd ⟨i, hik, limits, receipt, hpersisted⟩ h
  · rintro ⟨i, hik, receipt, ⟨limits, step, hi, hreply⟩ | ⟨hi, hreply⟩⟩
    · obtain ⟨row, hrow, -⟩ := recorded_of_ok hi hreply
      obtain ⟨j, hj, limits, hpersisted⟩ := transaction_iff_appliedAt only notDrawn hrow
      exact ⟨j, Nat.lt_of_lt_of_le hj hik, limits, _, hpersisted⟩
    · rw [Machine.replyAt, hi] at hreply
      have hrecovery : recoverTransaction (controlPlane.stateAt calls i).db batch.transactionId =
          .committed receipt := Reply.recoverTransaction.inj (Option.some.inj hreply)
      obtain ⟨j, hj, limits, hpersisted⟩ := (hiff i receipt).mp hrecovery
      exact ⟨j, Nat.lt_trans hj hik, limits, receipt, hpersisted⟩

theorem commit_recovery_sample :
    ∃ i < 3, AppliedAt [.commit .default (Sample.submission 1 7) (.lost true "disk"),
      .recoverTransaction (.ofU128 1), .commit .default (Sample.submission 1 7) .done]
      (Sample.submission 1 7) i := by
  refine (commit_recovery ?_ ?_ 3).2.2.2.2.2 ?_
  · intro limits b step hmem _
    simp at hmem
    rcases hmem with ⟨-, rfl, -⟩ | ⟨-, rfl, -⟩ <;> rfl
  · simp [Call.drawn]
  · exact ⟨1, by decide, ⟨.ofU128 1, 1, 7⟩, .inr ⟨rfl, by decide⟩⟩

end Minisqlite
