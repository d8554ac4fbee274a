import Minisqlite.Journal

/-!
# The event log

`EventLog` says when the rows of `events` number their events correctly, given
the version that each stream is held to have. An open batch keeps it with the
versions it has cached, the store with those of the `streams` table.

* `EventLog.append`: one more event.
* `stageBatch_eventLog`: one batch.
* `event_log_integrity`: every reachable state, with the journal as the record
  of what was submitted.
-/

namespace Minisqlite

open Tables Runs

/-- The rows of one stream. -/
def streamRows (rows : List EventRow) (streamId : String) : List EventRow :=
  rows.filter fun row => decide (row.event.streamId = streamId)

/-- Global sequences count all events and stream versions those of a stream. -/
structure EventLog (rows : List EventRow) (version : String → UInt64) : Prop where
  global : Consecutive (rows.map EventRow.globalSequence)
  stream : ∀ streamId, Consecutive ((streamRows rows streamId).map EventRow.streamVersion)
  current : ∀ streamId, (version streamId).toNat = (streamRows rows streamId).length

theorem streamRows_append (rows : List EventRow) (row : EventRow) (streamId : String) :
    streamRows (rows ++ [row]) streamId =
      streamRows rows streamId ++ if row.event.streamId = streamId then [row] else [] := by
  simp only [streamRows, List.filter_append]
  by_cases h : row.event.streamId = streamId <;> simp [h]

/-- Appending an event with the next global sequence and the next version of
its stream. -/
theorem EventLog.append {rows : List EventRow} {version version' : String → UInt64}
    (h : EventLog rows version) {event : Event} {tid : Id} {next : UInt64} {globalSequence : Int64}
    (hnext : checkedAddU64 (version event.streamId) 1 = some next)
    (hglobal : nextSequence (rows.map EventRow.globalSequence) = some globalSequence)
    (hversion : ∀ streamId, version' streamId =
      if event.streamId = streamId then next else version streamId) :
    EventLog (rows ++ [⟨globalSequence, tid, next.toInt64, event⟩]) version' := by
  have hn : next.toNat = (streamRows rows event.streamId).length + 1 := by
    rw [checkedAddU64_some hnext, h.current]
    rfl
  -- The stream is no longer than the log, whose next sequence fits an `i64`.
  have hfits : next.toNat < 2 ^ 63 := by
    have hg := h.global.next hglobal
    have hlt := Int64.toInt_lt globalSequence
    have hle : (streamRows rows event.streamId).length ≤ rows.length := List.length_filter_le _ _
    rw [List.length_map] at hg
    omega
  constructor
  · rw [List.map_append]
    exact h.global.append_next hglobal
  · intro streamId
    rw [streamRows_append, List.map_append]
    by_cases hs : event.streamId = streamId
    · subst hs
      rw [if_pos rfl]
      refine (h.stream event.streamId).append ?_
      rw [toInt_toInt64 hfits, hn, List.length_map]
      rfl
    · rw [if_neg hs, List.map_nil, List.append_nil]
      exact h.stream streamId
  · intro streamId
    rw [streamRows_append, hversion, List.length_append]
    by_cases hs : event.streamId = streamId
    · subst hs
      simp [hn]
    · simp [hs, h.current]

/-! ## One batch -/

/-- The event that an operation appends. -/
def Operation.event : Operation → Option Event
  | .appendEvent event => some event
  | _ => none

theorem eq_of_event {op : Operation} {event : Event} (h : op.event = some event) :
    op = .appendEvent event := by
  cases op with
  | appendEvent e => rw [Option.some.inj h]
  | _ => cases h

/-- The events of a batch, in order, under its transaction id. -/
def CommitBatch.events (batch : CommitBatch) : List (Id × Event) :=
  (batch.operations.filterMap Operation.event).map fun event => (batch.transactionId, event)

/-- What was submitted, of a persisted event. -/
def EventRow.submitted (row : EventRow) : Id × Event := (row.transactionId, row.event)

section Batch

variable {batch : CommitBatch} {tx tx' : OpenBatch} {op : Operation} {db db' : Db}
  {receipt : CommitReceipt}

theorem applyOperation_noEvent (hop : op.event = none) (h : applyOperation batch tx op = .ok tx') :
    tx'.db.events = tx.db.events ∧ tx'.streamVersions = tx.streamVersions := by
  cases hid : op.jobId with
  | some jobId =>
    obtain ⟨hversions, hwrite⟩ := applyOperation_job hid h
    exact ⟨hwrite.events, hversions⟩
  | none =>
    cases op with
    | appendEvent event => cases hop
    | projectionPatch patch =>
      obtain ⟨h, hversions⟩ := EffectLemmas.run_ok h
      obtain ⟨-, -, entries, hdb⟩ := applyProjectionPatch_ok h
      rw [hdb]
      exact ⟨rfl, hversions⟩
    | _ => cases hid

/-- An operation appends its event, if it has one, and keeps the log. -/
theorem applyOperation_eventLog (h : applyOperation batch tx op = .ok tx')
    (hlog : EventLog tx.db.events.rows tx.version) :
    EventLog tx'.db.events.rows tx'.version ∧ ∃ rows,
      tx'.db.events.rows = tx.db.events.rows ++ rows ∧
      rows.map EventRow.submitted =
        op.event.toList.map fun event => (batch.transactionId, event) := by
  cases hop : op.event with
  | none =>
    obtain ⟨hevents, hversions⟩ := applyOperation_noEvent hop h
    have hversion : tx'.version = tx.version := by
      funext streamId
      rw [OpenBatch.version, OpenBatch.version, hversions, Db.streamVersion, Db.streamVersion,
        applyOperation_streams h]
    rw [hevents, hversion]
    exact ⟨hlog, [], by simp, rfl⟩
  | some event =>
    obtain rfl := eq_of_event hop
    obtain ⟨next, globalSequence, events, hnext, hglobal, hrows, rfl⟩ := appendEvent_ok h
    refine ⟨?_, _, hrows, rfl⟩
    show EventLog events.rows _
    rw [hrows]
    refine hlog.append hnext hglobal fun streamId => ?_
    by_cases hs : event.streamId = streamId
    · subst hs
      simp [OpenBatch.version]
    · simp [OpenBatch.version, hs, AList.lookup_insert_ne (Ne.symm hs), Db.streamVersion]

theorem applyOperations_eventLog {ops : List Operation}
    (h : ops.foldlM (applyOperation batch) tx = .ok tx')
    (hlog : EventLog tx.db.events.rows tx.version) :
    EventLog tx'.db.events.rows tx'.version ∧ ∃ rows,
      tx'.db.events.rows = tx.db.events.rows ++ rows ∧ rows.map EventRow.submitted =
        (ops.filterMap Operation.event).map fun event => (batch.transactionId, event) := by
  induction ops generalizing tx with
  | nil => cases h; exact ⟨hlog, [], by simp, rfl⟩
  | cons op ops ih =>
    obtain ⟨t, ht, hrest⟩ := foldlM_cons_ok h
    obtain ⟨hlog, rows, hrows, hsubmitted⟩ := applyOperation_eventLog ht hlog
    obtain ⟨hlog, rows', hrows', hsubmitted'⟩ := ih hrest hlog
    refine ⟨hlog, rows ++ rows', by rw [hrows', hrows, List.append_assoc], ?_⟩
    rw [List.map_append, hsubmitted, hsubmitted']
    cases hop : op.event <;> simp [hop]

/-- The expectations of a batch cache the durable versions and nothing else. -/
theorem checkExpected_version {expected : List ExpectedStreamVersion}
    {streamVersions streamVersions' : StreamVersions}
    (h : expected.foldlM (checkExpected db) streamVersions = .ok streamVersions')
    (hcache : ∀ s v, streamVersions.lookup s = some v → v = db.streamVersion s) :
    (∀ s v, streamVersions'.lookup s = some v → v = db.streamVersion s) ∧
      ∀ e ∈ expected, db.streamVersion e.streamId = e.version := by
  induction expected generalizing streamVersions with
  | nil => cases h; exact ⟨hcache, by simp⟩
  | cons e expected ih =>
    obtain ⟨next, hnext, hrest⟩ := foldlM_cons_ok h
    simp only [checkExpected] at hnext
    split at hnext
    · cases hnext
    · next hversion =>
      cases hnext
      have hversion := not_not.mp hversion
      obtain ⟨hcache', hexpected⟩ := ih hrest (fun s v hs => by
        by_cases he : s = e.streamId
        · subst he
          simpa [eq_comm] using hs
        · rw [AList.lookup_insert_ne he] at hs
          exact hcache s v hs)
      exact ⟨hcache', by simpa [hversion] using hexpected⟩

/-- An open batch starts with the durable versions, which met its expectations. -/
theorem openBatch_version (h : openBatch db batch = .ok (tx, receipt)) :
    tx.version = db.streamVersion ∧ tx.db.events = db.events ∧
      ∀ e ∈ batch.expectedStreamVersions, db.streamVersion e.streamId = e.version := by
  obtain ⟨transactions, sequence, hexpected, htx, -⟩ := openBatch_ok h
  obtain ⟨hcache, hmet⟩ := checkExpected_version hexpected (by simp)
  have hstreams : tx.db.streamVersion = db.streamVersion := by rw [htx]; rfl
  refine ⟨?_, by rw [htx], hmet⟩
  funext streamId
  rw [OpenBatch.version, hstreams]
  cases hs : tx.streamVersions.lookup streamId with
  | none => rfl
  | some v => exact hcache streamId v hs

/-- A batch appends its events in order and keeps the log. -/
theorem stageBatch_eventLog (h : stageBatch db batch = .ok (db', receipt))
    (hlog : EventLog db.events.rows db.streamVersion) :
    EventLog db'.events.rows db'.streamVersion ∧ ∃ rows,
      db'.events.rows = db.events.rows ++ rows ∧ rows.map EventRow.submitted = batch.events := by
  obtain ⟨tx, tx', hopen, hops, rfl⟩ := stageBatch_ok h
  obtain ⟨hversion, hevents, -⟩ := openBatch_version hopen
  rw [← hversion, ← hevents] at hlog
  obtain ⟨streams, hstreams⟩ := writeStreamVersions_streams tx'
  have hevents' : (writeStreamVersions tx').events = tx'.db.events := by rw [hstreams]
  have hversion' : (writeStreamVersions tx').streamVersion = tx'.version :=
    funext (writeStreamVersions_version tx')
  rw [hevents', hversion', ← hevents]
  exact applyOperations_eventLog hops hlog

end Batch

/-! ## Runs -/

/-- The events of an entry; a claim has none. -/
def Entry.events : Entry → List (Id × Event)
  | .batch b => b.events
  | .claim _ _ _ => []

theorem CallEffect.eventLog {db db' : Db} {call : Call} {entries : List Entry}
    (h : CallEffect db call db' entries) (hlog : EventLog db.events.rows db.streamVersion) :
    EventLog db'.events.rows db'.streamVersion ∧ ∃ rows,
      db'.events.rows = db.events.rows ++ rows ∧
      rows.map EventRow.submitted = entries.flatMap Entry.events := by
  cases h with
  | unchanged => exact ⟨hlog, [], by simp, rfl⟩
  | commit persists staged =>
    obtain ⟨hlog, rows, hrows, hsubmitted⟩ :=
      stageBatch_eventLog (stageCommit_staged staged).2.2 hlog
    exact ⟨hlog, rows, hrows, by simp [hsubmitted, Entry.events]⟩
  | @claim _ _ _ staged persists staging =>
    obtain ⟨_, _, hwrite⟩ := stageClaim_write staging
    have hversion : staged.db.streamVersion = db.streamVersion := by
      funext streamId
      rw [Db.streamVersion, Db.streamVersion, hwrite.streams]
    rw [hwrite.events, hversion]
    exact ⟨hlog, [], by simp, rfl⟩
  | extend persists staged =>
    obtain ⟨_, _, _, _, -, -, -, -, -, -, rfl, -⟩ := EffectLemmas.applyExtendLease_ok staged
    exact ⟨hlog, [], by simp, rfl⟩

/-- The log is right in every reachable state, and it is what the journal says. -/
theorem eventLog_after (calls : List Call) :
    EventLog (controlPlane.after calls).db.events.rows (controlPlane.after calls).db.streamVersion ∧
      (controlPlane.after calls).db.events.rows.map EventRow.submitted =
        (journal calls).flatMap Entry.events := by
  refine controlPlane.log_induction (P := fun entries store =>
    EventLog store.db.events.rows store.db.streamVersion ∧
      store.db.events.rows.map EventRow.submitted = entries.flatMap Entry.events)
    ⟨⟨.nil, fun _ => .nil, fun _ => rfl⟩, rfl⟩ ?_ calls
  rintro calls call ⟨hlog, hjournal⟩
  obtain ⟨hlog, rows, hrows, hsubmitted⟩ :=
    (next_effect (controlPlane.after calls) call).eventLog hlog
  exact ⟨hlog, by rw [hrows, List.map_append, hjournal, hsubmitted, List.flatMap_append]⟩

/-- A persisted event stays where it is. -/
theorem events_persist (calls : List Call) {i k : Nat} (hik : i ≤ k) :
    (controlPlane.stateAt calls i).db.events.rows <+:
      (controlPlane.stateAt calls k).db.events.rows := by
  refine Machine.stateAt_rel (M := controlPlane)
    (R := fun s t : ControlPlaneStore => s.db.events.rows <+: t.db.events.rows)
    (fun _ => List.prefix_rfl) (fun _ _ _ => List.IsPrefix.trans) (fun store call hreach => ?_)
    calls hik
  obtain ⟨calls, rfl⟩ := hreach
  obtain ⟨-, rows, hrows, -⟩ :=
    (next_effect (controlPlane.after calls) call).eventLog (eventLog_after calls).1
  exact ⟨rows, hrows.symm⟩

/-- Event log integrity. Global sequences are `1, …, n` and transaction
sequences `1, …, m` in the order of the COMMITs; the log is the concatenation of
the events of the journal's batches, in that order and as submitted; the events
of a stream carry the versions `1, …, k` and `k` is the stream's version; and a
run only ever appends to the log. -/
theorem event_log_integrity (calls : List Call) :
    Consecutive ((controlPlane.after calls).db.events.rows.map EventRow.globalSequence) ∧
    Consecutive ((controlPlane.after calls).db.transactions.rows.map
      TransactionRow.transactionSequence) ∧
    (controlPlane.after calls).db.transactions.rows.map TransactionRow.transactionId =
      (journal calls).map Entry.transactionId ∧
    (controlPlane.after calls).db.events.rows.map EventRow.submitted =
      (journal calls).flatMap Entry.events ∧
    (∀ streamId,
      Consecutive ((streamRows (controlPlane.after calls).db.events.rows streamId).map
        EventRow.streamVersion) ∧
      ((controlPlane.after calls).db.streamVersion streamId).toNat =
        (streamRows (controlPlane.after calls).db.events.rows streamId).length) ∧
    ∀ more, (controlPlane.after calls).db.events.rows <+:
      (controlPlane.after (calls ++ more)).db.events.rows := by
  obtain ⟨hlog, hjournal⟩ := eventLog_after calls
  refine ⟨hlog.global, transactions_consecutive calls, ?_, hjournal,
    fun s => ⟨hlog.stream s, hlog.current s⟩, fun more => ?_⟩
  · refine List.forall₂_eq_eq_eq ▸ ?_
    rw [List.forall₂_map_left_iff, List.forall₂_map_right_iff]
    exact (journal_recorded calls).flip.imp fun _ _ h => h.transactionId
  · have h := events_persist (calls ++ more) (Nat.le_add_right calls.length more.length)
    rw [← List.length_append, Machine.stateAt_length] at h
    simpa [Machine.stateAt] using h

end Minisqlite
