import Minisqlite.Optimistic

/-!
# The rows of the streams table

A batch writes back every stream version that it holds. It holds the versions of the
streams that it appends to, and of those whose version it only expects.

* `CommitBatch.names`: the batch appends to the stream or expects a version of it.
* `stageBatch_listed`: the streams that a batch lists are those that it names.
* `listed_after`, `appended_after`: the streams in the table, and those with events.
-/

namespace Minisqlite

open Tables Runs

/-- The streams table has a row of the stream. -/
def Listed (db : Db) (streamId : String) : Prop :=
  ∃ row ∈ db.streams.rows, row.streamId = streamId

/-- Some event of the stream is persisted. -/
def Appended (db : Db) (streamId : String) : Prop :=
  ∃ row ∈ db.events.rows, row.event.streamId = streamId

/-- The batch expects a version of the stream. -/
def CommitBatch.expects (batch : CommitBatch) (streamId : String) : Prop :=
  ∃ expected ∈ batch.expectedStreamVersions, expected.streamId = streamId

/-- The batch expects a version of the stream or appends to it. -/
def CommitBatch.names (batch : CommitBatch) (streamId : String) : Prop :=
  batch.expects streamId ∨ batch.appendsTo streamId

namespace StreamLemmas

variable {db db' : Db} {batch : CommitBatch} {tx tx' : OpenBatch} {receipt : CommitReceipt}
  {streamId : String}

/-! ## One batch -/

theorem listed_iff : Listed db streamId ↔
    (db.streams.lookup StreamRow.streamId streamId).isSome = true := by
  constructor
  · rintro ⟨row, hrow, rfl⟩
    rw [Table.lookup_of_mem (Schema.keyed_unique _) hrow]
    rfl
  · intro h
    obtain ⟨row, hlookup⟩ := Option.isSome_iff_exists.mp h
    exact ⟨row, Table.lookup_mem hlookup, Table.lookup_key hlookup⟩

theorem listed_set (entry : Sigma fun _ : String => UInt64) :
    Listed (setStreamVersion db entry) streamId ↔ entry.1 = streamId ∨ Listed db streamId := by
  simp only [listed_iff, setStreamVersion]
  rw [Table.lookup_upsert]
  split
  · next h => exact iff_of_true rfl (.inl h)
  · next h => exact (or_iff_right h).symm

theorem listed_write (entries : List (Sigma fun _ : String => UInt64)) :
    Listed (entries.foldl setStreamVersion db) streamId ↔
      Listed db streamId ∨ streamId ∈ entries.keys := by
  induction entries generalizing db with
  | nil => simp
  | cons entry entries ih =>
    rw [List.foldl_cons, ih, listed_set, List.keys_cons, List.mem_cons]
    constructor
    · rintro ((h | h) | h)
      exacts [.inr (.inl h.symm), .inl h, .inr (.inr h)]
    · rintro (h | h | h)
      exacts [.inl (.inr h), .inl (.inl h.symm), .inr h]

theorem mem_checkExpected {expected : List ExpectedStreamVersion}
    {streamVersions streamVersions' : StreamVersions}
    (h : expected.foldlM (checkExpected db) streamVersions = .ok streamVersions') :
    streamId ∈ streamVersions' ↔
      streamId ∈ streamVersions ∨ ∃ e ∈ expected, e.streamId = streamId := by
  induction expected generalizing streamVersions with
  | nil => cases h; simp
  | cons e expected ih =>
    obtain ⟨next, hnext, hrest⟩ := foldlM_cons_ok h
    simp only [checkExpected] at hnext
    split at hnext
    · cases hnext
    · cases hnext
      rw [ih hrest, AList.mem_insert, List.exists_mem_cons_iff]
      constructor
      · rintro ((h | h) | h)
        exacts [.inr (.inl h.symm), .inl h, .inr (.inr h)]
      · rintro (h | h | h)
        exacts [.inl (.inr h), .inl (.inl h.symm), .inr h]

/-- Only an append adds a stream to the versions that the batch holds. -/
theorem mem_applyOperation {op : Operation} (h : applyOperation batch tx op = .ok tx') :
    streamId ∈ tx'.streamVersions ↔ streamId ∈ tx.streamVersions ∨
      ∃ event, op = .appendEvent event ∧ event.streamId = streamId := by
  cases hop : op.event with
  | none =>
    rw [(applyOperation_noEvent hop h).2]
    refine ⟨.inl, fun h => h.resolve_right ?_⟩
    rintro ⟨event, rfl, -⟩
    cases hop
  | some event =>
    obtain rfl := eq_of_event hop
    obtain ⟨next, globalSequence, events, -, -, -, rfl⟩ := appendEvent_ok h
    rw [AList.mem_insert, or_comm]
    simp [eq_comm]

theorem mem_applyOperations {ops : List Operation}
    (h : ops.foldlM (applyOperation batch) tx = .ok tx') :
    streamId ∈ tx'.streamVersions ↔ streamId ∈ tx.streamVersions ∨
      ∃ event, .appendEvent event ∈ ops ∧ event.streamId = streamId := by
  induction ops generalizing tx with
  | nil => cases h; simp
  | cons op ops ih =>
    obtain ⟨t, hop, hops⟩ := foldlM_cons_ok h
    rw [ih hops, mem_applyOperation hop]
    constructor
    · rintro ((hheld | ⟨event, rfl, he⟩) | ⟨event, hmem, he⟩)
      exacts [.inl hheld, .inr ⟨event, List.mem_cons_self, he⟩,
        .inr ⟨event, List.mem_cons_of_mem _ hmem, he⟩]
    · rintro (hheld | ⟨event, hmem, he⟩)
      · exact .inl (.inl hheld)
      · rcases List.mem_cons.mp hmem with rfl | hmem
        exacts [.inl (.inr ⟨event, rfl, he⟩), .inr ⟨event, hmem, he⟩]

/-- A batch lists the streams that it names. -/
theorem stageBatch_listed (h : stageBatch db batch = .ok (db', receipt)) (streamId : String) :
    Listed db' streamId ↔ Listed db streamId ∨ batch.names streamId := by
  obtain ⟨tx, tx', hopen, hops, rfl⟩ := stageBatch_ok h
  obtain ⟨transactions, sequence, hexpected, htx, -⟩ := openBatch_ok hopen
  have hstreams : tx'.db.streams = db.streams := by
    refine foldlM_induction (P := fun t => t.db.streams = db.streams)
      (fun t t' op _ ht hok => (applyOperation_streams hok).trans ht) hops ?_
    rw [htx]
  rw [writeStreamVersions, listed_write, Listed, hstreams]
  refine or_congr Iff.rfl ?_
  rw [show streamId ∈ tx'.streamVersions.entries.keys ↔ streamId ∈ tx'.streamVersions from Iff.rfl,
    mem_applyOperations hops, mem_checkExpected hexpected]
  simp [CommitBatch.names, CommitBatch.expects, CommitBatch.appendsTo]

end StreamLemmas

open StreamLemmas

/-! ## Runs -/

theorem CallEffect.listed {db db' : Db} {call : Call} {entries : List Entry}
    (h : CallEffect db call db' entries) (streamId : String) :
    Listed db' streamId ↔
      Listed db streamId ∨ ∃ b, Entry.batch b ∈ entries ∧ b.names streamId := by
  cases h with
  | unchanged => simp
  | commit persists staged =>
    rw [stageBatch_listed (stageCommit_staged staged).2.2]
    simp
  | claim persists staging =>
    obtain ⟨leases, expiryMs, hwrite⟩ := stageClaim_write staging
    simp [Listed, hwrite.streams]
  | extend persists staged =>
    obtain ⟨_, hwrite⟩ := applyExtendLease_direct staged
    simp [Listed, hwrite.streams]

/-- The streams table lists the streams that a batch of the journal names. -/
theorem listed_after (calls : List Call) (streamId : String) :
    Listed (controlPlane.after calls).db streamId ↔
      ∃ b, Entry.batch b ∈ journal calls ∧ b.names streamId := by
  refine controlPlane.log_induction (P := fun entries store =>
    Listed store.db streamId ↔ ∃ b, Entry.batch b ∈ entries ∧ b.names streamId)
    (by simp [Listed, controlPlane, ControlPlaneStore.start, Db.empty, Table.empty]) ?_ calls
  intro calls call ih
  rw [(next_effect _ call).listed, ih]
  simp only [List.mem_append, or_and_right, exists_or]

/-- Every event was appended by a batch of the journal. -/
theorem event_submitted {calls : List Call} {row : EventRow}
    (hrow : row ∈ (controlPlane.after calls).db.events.rows) :
    ∃ b, Entry.batch b ∈ journal calls ∧ .appendEvent row.event ∈ b.operations := by
  have hmem := List.mem_map_of_mem (f := EventRow.submitted) hrow
  rw [(eventLog_after calls).2] at hmem
  obtain ⟨entry, hentry, hevent⟩ := List.mem_flatMap.mp hmem
  cases entry with
  | claim => cases hevent
  | batch b =>
    obtain ⟨event, hevent, he⟩ := List.mem_map.mp hevent
    obtain ⟨op, hop, hevent⟩ := List.mem_filterMap.mp hevent
    obtain rfl := eq_of_event hevent
    obtain rfl : event = row.event := congrArg Prod.snd he
    exact ⟨b, hentry, hop⟩

/-- The streams with events are those that a batch of the journal appends to. -/
theorem appended_after (calls : List Call) (streamId : String) :
    Appended (controlPlane.after calls).db streamId ↔
      ∃ b, Entry.batch b ∈ journal calls ∧ b.appendsTo streamId := by
  constructor
  · rintro ⟨row, hrow, rfl⟩
    obtain ⟨b, hb, hevent⟩ := event_submitted hrow
    exact ⟨b, hb, row.event, hevent, rfl⟩
  · rintro ⟨b, hb, event, hevent, rfl⟩
    have hmem : (b.transactionId, event) ∈ (journal calls).flatMap Entry.events :=
      List.mem_flatMap.mpr ⟨_, hb, List.mem_map.mpr ⟨event,
        List.mem_filterMap.mpr ⟨_, hevent, rfl⟩, rfl⟩⟩
    rw [← (eventLog_after calls).2] at hmem
    obtain ⟨row, hrow, he⟩ := List.mem_map.mp hmem
    exact ⟨row, hrow, congrArg (fun e : Id × Event => e.2.streamId) he⟩

end Minisqlite
