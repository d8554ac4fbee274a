import Minisqlite.JobColumns
import Minisqlite.Projections

/-!
# Typed rejections

A caller tries a commit again when the storage failed, and must not do so when the
batch was refused. So a batch that cannot be committed should be answered with a
conflict or a validation error, and never with `CommitError::Storage`.

1. `openBatch_error`, `appendEvent_storage`, and for the other operations
   `applyProjectionPatch_total` and `applyOperation_storage`: the one statement of a
   batch that can fail is the INSERT of an event whose id is taken. Nothing looks for
   the id before, so its UNIQUE constraint answers.
2. `commit_typed_iff`: a commit answers with a storage error if and only if it comes
   to such an event.
-/

namespace Minisqlite

open Tables Runs ControlPlaneStore EffectLemmas ReferenceLemmas ColumnLemmas ProjectionLemmas

/-- The error is about the batch and not about the storage. -/
def CommitError.Logical : CommitError → Prop
  | .conflict _ | .validation _ | .duplicateIdWithDifferentContent => True
  | .indeterminate _ | .storage _ => False

/-- SQLite's largest database has 2^48 bytes: neither the tables nor the batch have
more rows than that. -/
structure FitsFile (db : Db) (batch : CommitBatch) : Prop where
  file : db.WithinFileLimit
  jobs : db.jobs.rows.length < 2 ^ 48
  operations : batch.operations.length < 2 ^ 48

/-- The operations of the batch succeed up to an `AppendEvent` whose event id is
persisted already or is that of an earlier event of the batch. -/
def CommitBatch.RepeatsEventId (batch : CommitBatch) (db : Db) : Prop :=
  ∃ tx₀ receipt pre event post tx, openBatch db batch = .ok (tx₀, receipt) ∧
    batch.operations = pre ++ .appendEvent event :: post ∧
    pre.foldlM (applyOperation batch) tx₀ = .ok tx ∧
    ((∃ row ∈ db.events.rows, row.event.eventId = event.eventId) ∨
      ∃ earlier ∈ pre.filterMap Operation.event, earlier.eventId = event.eventId)

namespace RejectionLemmas

/-! ## The open transaction -/

/-- An open transaction whose next statements have what they rest on. -/
structure Ready (batch : CommitBatch) (tx : OpenBatch) : Prop where
  log : EventLog tx.db.events.rows tx.version
  recorded : tx.db.Recorded batch.transactionId
  events : tx.db.events.rows.length < 2 ^ 63 - 1
  numbered : Consecutive (tx.db.jobs.rows.map JobRow.enqueueSequence)
  jobs : tx.db.jobs.rows.length < 2 ^ 63 - 1

section Statements

variable {batch : CommitBatch} {tx : OpenBatch} {s : StorageError}

theorem nextVersion_total (h : Ready batch tx) (streamId : String) :
    ∃ next, tx.nextVersion streamId = .ok next ∧
      next.toInt64.toInt = (streamRows tx.db.events.rows streamId).length + 1 := by
  have hle : (streamRows tx.db.events.rows streamId).length ≤ tx.db.events.rows.length :=
    List.length_filter_le _ _
  have hcount := h.log.current streamId
  have hroom := h.events
  have hone : (1 : UInt64).toNat = 1 := rfl
  have hadd : checkedAddU64 (tx.version streamId) 1 = some (tx.version streamId + 1) := by
    unfold checkedAddU64
    exact if_pos (by omega)
  have hnext := checkedAddU64_some hadd
  refine ⟨_, by rw [OpenBatch.nextVersion, hadd], ?_⟩
  rw [toInt_toInt64 (by omega), hnext, hcount, hone]
  rfl

/-- To append an event is to insert a row whose id alone may be taken: its global
sequence and the version of its stream are new. -/
theorem appendEvent_insert (h : Ready batch tx) (event : Event) : ∃ next row,
    appendEvent tx batch.transactionId event =
      (execute (tx.db.events.insert row) >>= fun events =>
        .ok ⟨{ tx.db with events := events }, tx.streamVersions.insert event.streamId next⟩) ∧
    ∀ old ∈ tx.db.events.rows,
      eventsSchema.clash old row = decide (old.event.eventId = event.eventId) := by
  obtain ⟨next, hnext, hversion⟩ := nextVersion_total h event.streamId
  obtain ⟨globalSequence, hglobal⟩ := h.log.global.next_total (by simpa using h.events)
  refine ⟨next, ⟨globalSequence, batch.transactionId, next.toInt64, event⟩, ?_, fun old hold => ?_⟩
  · rw [appendEvent, hnext]
    show (insertEvent _ _ _ _ >>= _) = _
    rw [insertEvent, hglobal, requireTransaction_recorded h.recorded]
    show ((execute (tx.db.events.insert _) >>= _) >>= _) = _
    rw [bind_assoc]
    rfl
  · have hsequence : old.globalSequence ≠ globalSequence :=
      Int64.ne_of_lt (lt_nextSequence hglobal _ (List.mem_map_of_mem hold))
    have hstream : ¬ (old.event.streamId = event.streamId ∧ old.streamVersion = next.toInt64) := by
      rintro ⟨hs, hv⟩
      have hmem : old ∈ streamRows tx.db.events.rows event.streamId :=
        List.mem_filter.mpr ⟨hold, by simpa using hs⟩
      have hbound := ((h.log.stream event.streamId).bounds (List.mem_map_of_mem hmem)).2
      rw [hv, hversion, List.length_map] at hbound
      omega
    simp [eventsSchema, hsequence, hstream]

/-- The INSERT of an event fails if and only if its id is taken. -/
theorem appendEvent_storage (h : Ready batch tx) (event : Event) {e : CommitError} :
    appendEvent tx batch.transactionId event = .error e ↔
      e = .storage (.sqlite "statement failed") ∧
        ∃ row ∈ tx.db.events.rows, row.event.eventId = event.eventId := by
  obtain ⟨next, row, happend, hclash⟩ := appendEvent_insert h event
  have htaken : tx.db.events.insert row = none ↔
      ∃ old ∈ tx.db.events.rows, old.event.eventId = event.eventId := by
    rw [Table.insert_eq_none rfl]
    exact exists_congr fun old => and_congr_right fun hold => by
      rw [hclash old hold, decide_eq_true_iff]
  rw [happend, ← htaken]
  cases hevents : tx.db.events.insert row with
  | none =>
    constructor
    · rintro ⟨⟩
      exact ⟨rfl, rfl⟩
    · rintro ⟨rfl, -⟩
      rfl
  | some events => exact iff_of_false (by simp [execute, bind, Except.bind]) (by simp)

/-- A helper's error is about the batch, unless a statement failed. -/
theorem run_error {result : Except Error Db} {e : CommitError} (h : tx.run result = .error e) :
    e.Logical ∨ ∃ s, result = .error (.storage s) ∧ e = .storage s := by
  rcases bind_error h with h | ⟨_, -, h⟩
  · cases result with
    | ok db => cases h
    | error error =>
      cases h
      cases error with
      | storage s => exact .inr ⟨s, rfl, rfl⟩
      | validation v => exact .inl trivial
      | conflict c => exact .inl trivial
  · cases h

theorem applyProjectionPatch_storage {db : Db} {patch : ProjectionPatch} :
    applyProjectionPatch db patch ≠ .error (.storage s) := by
  intro h
  cases hvalid : patch.validate with
  | error e =>
    rw [applyProjectionPatch, hvalid] at h
    cases h
  | ok _ =>
    by_cases hversion : db.projectionVersion patch.projection = patch.expectedVersion
    · exact ok_of_total (applyProjectionPatch_total hvalid hversion) h
    · rw [applyProjectionPatch, hvalid] at h
      change (if _ then _ else _) = _ at h
      rw [if_pos hversion] at h
      cases h

/-- An operation fails with a typed error, or it is an event whose id is taken. -/
theorem applyOperation_error {limits : Limits} {op : Operation} {e : CommitError}
    (ready : Ready batch tx) (valid : validateOperation limits op = .ok ())
    (h : applyOperation batch tx op = .error e) :
    e.Logical ∨ ∃ event, op = .appendEvent event ∧
      ∃ row ∈ tx.db.events.rows, row.event.eventId = event.eventId := by
  have hpatch {patch : ProjectionPatch}
      (h : tx.run (applyProjectionPatch tx.db patch) = .error e) : e.Logical :=
    (run_error h).resolve_right fun ⟨_, hs, _⟩ => applyProjectionPatch_storage hs
  -- On a job, the only statement that could fail is an INSERT, and it has a sequence left.
  have hjob {jobId : Id} {result : Except Error Db} (about : op.jobId = some jobId)
      (hrun : applyOperation batch tx op = tx.run result) : e.Logical := by
    refine (run_error (hrun.symm.trans h)).resolve_right ?_
    rintro ⟨s, -, rfl⟩
    obtain ⟨_, -, hnone⟩ := applyOperation_storage about valid ready.recorded h
    obtain ⟨sequence, hsome⟩ := ready.numbered.next_total (by simpa using ready.jobs)
    rw [hsome] at hnone
    cases hnone
  cases op with
  | appendEvent event => exact .inr ⟨event, rfl, ((appendEvent_storage ready event).mp h).2⟩
  | projectionPatch patch => exact .inl (hpatch h)
  | enqueueJob spec => exact .inl (hjob rfl rfl)
  | ackJob ack => exact .inl (hjob rfl rfl)
  | failJob failure => exact .inl (hjob rfl rfl)
  | cancelJob cancellation => exact .inl (hjob rfl rfl)
  | resolveJob resolution => exact .inl (hjob rfl rfl)
  | extendLease extension =>
    rcases bind_error h with h | ⟨_, -, h⟩
    · cases hextend : applyExtendLease tx.db extension batch.committedAtMs with
      | ok result => rw [hextend] at h; cases h
      | error lease =>
        obtain ⟨conflict, rfl⟩ := applyExtendLease_error hextend
        rw [hextend] at h
        cases h
        exact .inl trivial
    · cases h

end Statements

/-! ## Opening and reaching -/

/-- Opening a batch with a new id fails only on an expectation. -/
theorem openBatch_error {db : Db} {batch : CommitBatch} {e : CommitError}
    (hsequences : Consecutive (db.transactions.rows.map TransactionRow.transactionSequence))
    (hroom : db.transactions.rows.length < 2 ^ 63 - 1)
    (free : db.transaction batch.transactionId = none) (h : openBatch db batch = .error e) :
    e.Logical := by
  rcases bind_error h with h | ⟨streamVersions, -, h⟩
  · obtain ⟨_, expected, _, _, -, -, hfail⟩ := foldlM_error_split h
    simp only [checkExpected] at hfail
    split at hfail
    · cases hfail; trivial
    · cases hfail
  · obtain ⟨db', sequence, hinsert⟩ := insertTransaction_total (ε := CommitError) batch.row
      hsequences hroom (fun _ => rfl) fun r hr _ => Table.lookup_eq_none.mp free r hr
    rw [hinsert] at h
    cases h

theorem operations_jobs_length {batch : CommitBatch} {ops : List Operation} {tx tx' : OpenBatch}
    (h : ops.foldlM (applyOperation batch) tx = .ok tx') :
    tx'.db.jobs.rows.length ≤ tx.db.jobs.rows.length + ops.length := by
  induction ops generalizing tx with
  | nil => cases h; simp
  | cons op ops ih =>
    obtain ⟨t, hop, hrest⟩ := foldlM_cons_ok h
    have hlast := ih hrest
    have hone : t.db.jobs.rows.length ≤ tx.db.jobs.rows.length + 1 := by
      cases hid : op.jobId with
      | none => rw [(applyOperation_noJob hid hop).1]; omega
      | some id =>
        cases (applyOperation_job hid hop).2.effect with
        | enqueued write => rw [write.rows]; simp
        | updated _ write => rw [write.rows]; simp
    rw [List.length_cons]
    omega

section Reached

variable {calls : List Call} {batch : CommitBatch} {tx₀ tx : OpenBatch} {receipt : CommitReceipt}
  {pre post : List Operation}
  (hopen : openBatch (controlPlane.after calls).db batch = .ok (tx₀, receipt))
  (hpre : pre.foldlM (applyOperation batch) tx₀ = .ok tx)
include hopen hpre

/-- The event log of the open transaction, after the operations `pre`. -/
theorem log_of_reached : EventLog tx.db.events.rows tx.version ∧ ∃ rows,
    tx.db.events.rows = (controlPlane.after calls).db.events.rows ++ rows ∧
    rows.map (·.event) = pre.filterMap Operation.event := by
  obtain ⟨hversion, hevents, -⟩ := openBatch_version hopen
  obtain ⟨hlog, rows, hrows, hsubmitted⟩ := applyOperations_eventLog hpre
    (by rw [hversion, hevents]; exact (eventLog_after calls).1)
  refine ⟨hlog, rows, by rw [hrows, hevents], ?_⟩
  have := congrArg (List.map Prod.snd) hsubmitted
  simpa [List.map_map, Function.comp_def, EventRow.submitted] using this

theorem ready_of_reached (fits : FitsFile (controlPlane.after calls).db batch)
    (hops : batch.operations = pre ++ post) : Ready batch tx := by
  obtain ⟨hlog, rows, hrows, hevents⟩ := log_of_reached hopen hpre
  obtain ⟨_, _, -, htx₀, -⟩ := openBatch_ok hopen
  have hlength : pre.length ≤ batch.operations.length := by simp [hops]
  have hoperations := fits.operations
  refine ⟨hlog, (resolves_of_operations hpre (resolves_of_open hopen (resolves_after calls))).1,
    ?_, ?_, ?_⟩
  · have hcount : rows.length ≤ pre.length := by
      have := congrArg List.length hevents
      rw [List.length_map] at this
      exact this ▸ List.length_filterMap_le _ _
    have := fits.file.events
    rw [hrows, List.length_append]
    omega
  · refine foldlM_induction (P := fun t : OpenBatch =>
      Consecutive (t.db.jobs.rows.map JobRow.enqueueSequence))
      (fun t t' op _ ht hop => applyOperation_rows hop numbered_invariant ht) hpre ?_
    rw [htx₀]
    exact jobs_consecutive calls
  · have hjobs := operations_jobs_length hpre
    have hroom := fits.jobs
    rw [htx₀] at hjobs
    change _ ≤ (controlPlane.after calls).db.jobs.rows.length + _ at hjobs
    omega

/-- The event ids that an `AppendEvent` after `pre` can meet. -/
theorem taken_of_reached (event : Event) :
    (∃ row ∈ tx.db.events.rows, row.event.eventId = event.eventId) ↔
      (∃ row ∈ (controlPlane.after calls).db.events.rows, row.event.eventId = event.eventId) ∨
        ∃ earlier ∈ pre.filterMap Operation.event, earlier.eventId = event.eventId := by
  obtain ⟨-, rows, hrows, hevents⟩ := log_of_reached hopen hpre
  rw [hrows, ← hevents]
  simp only [List.mem_append, List.mem_map, or_and_right, exists_or, exists_exists_and_eq_and]

end Reached

/-- A batch with a new id is refused for a typed reason, unless it comes to an event
whose id is taken. -/
theorem stageBatch_typed_iff {calls : List Call} {batch : CommitBatch}
    (fits : FitsFile (controlPlane.after calls).db batch)
    (free : (controlPlane.after calls).db.transaction batch.transactionId = none)
    {limits : Limits} (valid : validateBatch limits batch = .ok ()) :
    (∀ e, stageBatch (controlPlane.after calls).db batch = .error e → e.Logical) ↔
      ¬ batch.RepeatsEventId (controlPlane.after calls).db := by
  have htransactions := fits.file.transactions
  constructor
  · rintro htyped ⟨tx₀, receipt, pre, event, post, tx, hopen, hops, hpre, htaken⟩
    refine htyped (.storage (.sqlite "statement failed")) (stageBatch_opError hopen hops hpre ?_)
    exact (appendEvent_storage (ready_of_reached hopen hpre fits hops) event).mpr
      ⟨rfl, (taken_of_reached hopen hpre event).mpr htaken⟩
  · intro hno e h
    rcases bind_error h with h | ⟨⟨tx₀, receipt⟩, hopen, h⟩
    · exact openBatch_error (transactions_consecutive calls) (by omega) free h
    rcases bind_error h with h | ⟨_, -, h⟩
    · obtain ⟨pre, op, post, tx, hops, hpre, hop⟩ := foldlM_error_split h
      refine (applyOperation_error (ready_of_reached hopen hpre fits hops)
        (validateBatch_operation valid op (by simp [hops])) hop).resolve_right ?_
      rintro ⟨event, rfl, htaken⟩
      exact hno ⟨tx₀, receipt, pre, event, post, tx, hopen, hops, hpre,
        (taken_of_reached hopen hpre event).mp htaken⟩
    · cases h

/-- A commit whose COMMIT is done fails as its staging does, and then nothing is
persisted. -/
theorem commit_error_iff {store : ControlPlaneStore} {limits : Limits} {batch : CommitBatch}
    {e : CommitError} : (store.commit limits batch .done).2 = .error e ↔
      stageCommit limits store.db batch = .error e := by
  cases hstage : stageCommit limits store.db batch with
  | error e' => simp [commit_of_error hstage]
  | ok staged =>
    cases staged with
    | resubmitted receipt => simp [ControlPlaneStore.commit, hstage]
    | staged db receipt => simp [(commit_of_staged hstage).2 rfl]

theorem stageCommit_typed_iff {calls : List Call} {limits : Limits} {batch : CommitBatch}
    (fits : FitsFile (controlPlane.after calls).db batch) :
    (∀ e, stageCommit limits (controlPlane.after calls).db batch = .error e → e.Logical) ↔
      (validateBatch limits batch = .ok () →
        (controlPlane.after calls).db.transaction batch.transactionId = none →
        ¬ batch.RepeatsEventId (controlPlane.after calls).db) := by
  constructor
  · exact fun htyped valid free =>
      (stageBatch_typed_iff fits free valid).mp fun e h => htyped e (stageCommit_error valid free h)
  · intro hno e h
    rcases bind_error h with h | ⟨_, hvalid, h⟩
    · cases hvalid : validateBatch limits batch with
      | ok _ => rw [hvalid] at h; cases h
      | error v => rw [hvalid] at h; cases h; trivial
    have valid := mapError_eq_ok.mp hvalid
    split at h
    · split at h <;> cases h
      trivial
    · next free =>
      rcases bind_error h with h | ⟨_, -, h⟩
      · exact (stageBatch_typed_iff fits free valid).mpr (hno valid free) e h
      · cases h

end RejectionLemmas

open RejectionLemmas

/-- In every reachable state a commit fails with a conflict or a validation error, and
never with a storage error, if and only if it does not come to an event whose id is
taken, by a persisted event or by an earlier one of the batch. Whatever the error,
nothing is persisted. -/
theorem commit_typed_iff (calls : List Call) (limits : Limits) (batch : CommitBatch)
    (fits : FitsFile (controlPlane.after calls).db batch) :
    ((∀ e, ((controlPlane.after calls).commit limits batch .done).2 = .error e → e.Logical) ↔
      (validateBatch limits batch = .ok () →
        (controlPlane.after calls).db.transaction batch.transactionId = none →
        ¬ batch.RepeatsEventId (controlPlane.after calls).db)) ∧
    ∀ e, ((controlPlane.after calls).commit limits batch .done).2 = .error e →
      ((controlPlane.after calls).commit limits batch .done).1.db =
        (controlPlane.after calls).db := by
  constructor
  · rw [← stageCommit_typed_iff fits]
    exact forall_congr' fun e => imp_congr_left commit_error_iff
  · intro e h
    rw [commit_of_error (commit_error_iff.mp h), connection_db]

/-- A batch of one event, in the stream `streamId`, with the event id 7. -/
def Sample.appending (n : BitVec 128) (streamId : String) : CommitBatch :=
  Sample.batch n 0 [.appendEvent ⟨.ofU128 7, streamId, "t", 1, 0, none, none, [], []⟩]

/-- The second batch appends to another stream, and its event has the id of the
first one. -/
theorem commit_typed_counterexample : ¬ ∀ calls limits batch e,
    FitsFile (controlPlane.after calls).db batch →
    ((controlPlane.after calls).commit limits batch .done).2 = .error e → e.Logical := by
  intro h
  refine h [.commit .default (Sample.appending 10 "s") .done] .default (Sample.appending 11 "r")
    (.storage (.sqlite "statement failed"))
    ⟨⟨by decide, by decide, by decide⟩, by decide, by decide⟩ (by decide)

theorem commit_typed_iff_sample :
    ((controlPlane.after [.commit .default (Sample.appending 10 "s") .done]).commit .default
      ⟨.ofU128 11, 0, none, [], [⟨"s", 0⟩], []⟩ .done).2 =
        .error (.conflict (.streamVersion "s" 0 1)) ∧
    CommitError.Logical (.conflict (.streamVersion "s" 0 1)) := by
  have hconflict : ((controlPlane.after [.commit .default (Sample.appending 10 "s") .done]).commit
      .default ⟨.ofU128 11, 0, none, [], [⟨"s", 0⟩], []⟩ .done).2 =
        .error (.conflict (.streamVersion "s" 0 1)) := by decide
  refine ⟨hconflict, (commit_typed_iff [.commit .default (Sample.appending 10 "s") .done] .default
    ⟨.ofU128 11, 0, none, [], [⟨"s", 0⟩], []⟩
    ⟨⟨by decide, by decide, by decide⟩, by decide, by decide⟩).1.mpr ?_ _ hconflict⟩
  rintro - - ⟨_, _, pre, event, post, _, -, hops, -⟩
  exact absurd hops (by simp)

end Minisqlite
