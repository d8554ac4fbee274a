import Minisqlite.Export
import Mathlib.Data.List.Dedup

/-!
# The streams table and the streams that have events

`commit` caches the version of a stream when the batch appends to it, and also when the
batch only expects a version of it. In the end it writes back all that is in the cache.
So a batch that expects version 0 of a stream that does not exist gives it a row.

1. `streamsExact_iff`: when the table, `stats` and the export of a store are exact.
2. `streams_exact_iff`: they are in every state of a run, exactly if each batch that is
   committed expects versions of streams only that have events then, or that it appends
   to itself, and appends nothing to the stream with the empty id.
-/

namespace Minisqlite

open Tables Keyset Runs

/-- The streams that have events, each once. -/
def eventStreams (db : Db) : List String := (db.events.rows.map fun row => row.event.streamId).dedup

/-- The streams table, `stats` and the export know the streams that have events and no
others. -/
structure StreamsExact (file : StoreFile) (db : Db) : Prop where
  listed : ∀ streamId, Listed db streamId ↔ Appended db streamId
  counted : (stats file db).streams = UInt64.ofNat (eventStreams db).length
  exported : ∃ (enough : Nat) (rows : List StreamRow),
    (∀ fuel, enough ≤ fuel → exportStreams fuel db = some (rows.map StreamRow.record)) ∧
    (∀ row ∈ rows, row ∈ db.streams.rows) ∧
    (rows.map StreamRow.streamId).Perm (eventStreams db)

namespace ListingLemmas

open ExportLemmas

variable {file : StoreFile} {db : Db} {calls : List Call} {k : Nat} {streamId : String}

/-! ## One store -/

theorem mem_eventStreams : streamId ∈ eventStreams db ↔ Appended db streamId := by
  rw [eventStreams, List.mem_dedup, List.mem_map]
  rfl

theorem streams_perm (h : ∀ streamId, Listed db streamId ↔ Appended db streamId) :
    (db.streams.rows.map StreamRow.streamId).Perm (eventStreams db) := by
  have hnodup : (eventStreams db).Nodup := List.nodup_dedup _
  refine (List.perm_ext_iff_of_nodup (Table.nodup_keys (Schema.keyed_unique _) db.streams)
    hnodup).mpr fun streamId => ?_
  rw [mem_eventStreams, ← h, List.mem_map]
  rfl

theorem not_appended_of_exact (h : StreamsExact file db) : ¬ Appended db "" := by
  intro happended
  obtain ⟨enough, rows, hexport, -, hperm⟩ := h.exported
  have hfound := hexport (max enough (db.streams.rows.length + 1)) (le_max_left _ _)
  rw [exportStreams_eq (Nat.lt_of_succ_le (le_max_right _ _))] at hfound
  have hlength := congrArg List.length (Option.some.inj hfound)
  rw [List.length_map, List.length_map, (ordered_perm _ _).length_eq] at hlength
  -- As many rows as streams are exported, but the row of the empty id is not.
  have hall : rows.length = db.streams.rows.length := by
    simpa using (hperm.trans (streams_perm h.listed).symm).length_eq
  obtain ⟨row, hrow, he⟩ := (h.listed "").mpr happended
  have hfewer := List.length_filter_lt_length_iff_exists.mpr
    (show ∃ row ∈ db.streams.rows, ¬ decide (row.streamId ≠ "") = true from
      ⟨row, hrow, by simp [he]⟩)
  omega

end ListingLemmas

open ListingLemmas

/-- The streams of a store are exact, if the table is and no event is in the stream with
the empty id. -/
theorem streamsExact_iff {file : StoreFile} {db : Db} : StreamsExact file db ↔
    (∀ streamId, Listed db streamId ↔ Appended db streamId) ∧ ¬ Appended db "" := by
  constructor
  · exact fun h => ⟨h.listed, not_appended_of_exact h⟩
  · rintro ⟨hlisted, hempty⟩
    have hperm := streams_perm hlisted
    have hall : (db.streams.rows.filter fun row => decide (row.streamId ≠ "")) = db.streams.rows :=
      List.filter_eq_self.mpr fun row hrow => decide_eq_true fun he =>
        hempty ((hlisted "").mp ⟨row, hrow, he⟩)
    refine ⟨hlisted, ?_, db.streams.rows.length + 1, _, fun fuel hfuel =>
      hall ▸ ExportLemmas.exportStreams_eq hfuel, fun row hrow => mem_ordered.mp hrow,
      ((ordered_perm _ _).map _).trans hperm⟩
    rw [← hperm.length_eq, List.length_map]
    rfl

namespace ListingLemmas

variable {calls : List Call} {k : Nat} {streamId : String}

/-! ## Runs -/

/-- A batch of the journal is one that a call has committed. -/
theorem batch_at {P : CommitBatch → Prop} :
    (∃ batch, Entry.batch batch ∈ journal (calls.take k) ∧ P batch) ↔
      ∃ i < k, ∃ limits batch receipt, CommitPersisted calls i limits batch receipt ∧ P batch := by
  constructor
  · rintro ⟨batch, hbatch, hP⟩
    obtain ⟨i, hik, limits, receipt, hpersisted⟩ := mem_journal_batch.mp hbatch
    exact ⟨i, hik, limits, batch, receipt, hpersisted, hP⟩
  · rintro ⟨i, hik, limits, batch, receipt, hpersisted, hP⟩
    exact ⟨batch, mem_journal_batch.mpr ⟨i, hik, limits, receipt, hpersisted⟩, hP⟩

theorem listed_at : Listed (controlPlane.stateAt calls k).db streamId ↔
    ∃ i < k, ∃ limits batch receipt, CommitPersisted calls i limits batch receipt ∧
      batch.names streamId := by
  rw [Machine.stateAt, listed_after, batch_at]

theorem appended_at : Appended (controlPlane.stateAt calls k).db streamId ↔
    ∃ i < k, ∃ limits batch receipt, CommitPersisted calls i limits batch receipt ∧
      batch.appendsTo streamId := by
  rw [Machine.stateAt, appended_after, batch_at]

/-- A call commits one batch at most. -/
theorem batch_unique {i : Nat} {limits limits' : Limits} {batch batch' : CommitBatch}
    {receipt receipt' : CommitReceipt} (h : CommitPersisted calls i limits batch receipt)
    (h' : CommitPersisted calls i limits' batch' receipt') : batch = batch' := by
  obtain ⟨step, db', hcall, -⟩ := h
  obtain ⟨step', db'', hcall', -⟩ := h'
  rw [hcall] at hcall'
  cases hcall'
  rfl

end ListingLemmas

/-- In every state of a run the streams table, `stats` and the export are exact, exactly
if the batches that are committed expect versions of streams only that they append to or
that have events already, and no batch appends to the stream with the empty id. -/
theorem streams_exact_iff (file : StoreFile) (calls : List Call) :
    (∀ k, StreamsExact file (controlPlane.stateAt calls k).db) ↔
      ∀ i limits batch receipt, CommitPersisted calls i limits batch receipt →
        (∀ streamId, batch.expects streamId →
          batch.appendsTo streamId ∨ Appended (controlPlane.stateAt calls i).db streamId) ∧
        ¬ batch.appendsTo "" := by
  constructor
  · intro h i limits batch receipt hpersisted
    have hexact := h (i + 1)
    refine ⟨fun streamId hexpects => ?_, fun hempty => ?_⟩
    · obtain ⟨j, hj, limits', batch', receipt', hpersisted', happends⟩ :=
        appended_at.mp ((hexact.listed streamId).mp
          (listed_at.mpr
            ⟨i, Nat.lt_succ_self i, limits, batch, receipt, hpersisted, .inl hexpects⟩))
      rcases Nat.lt_succ_iff_lt_or_eq.mp hj with hji | rfl
      · exact .inr (appended_at.mpr ⟨j, hji, limits', batch', receipt', hpersisted', happends⟩)
      · exact .inl (batch_unique hpersisted' hpersisted ▸ happends)
    · exact (streamsExact_iff.mp hexact).2
        (appended_at.mpr ⟨i, Nat.lt_succ_self i, limits, batch, receipt, hpersisted, hempty⟩)
  · intro h k
    refine streamsExact_iff.mpr ⟨fun streamId => ⟨fun hlisted => ?_, fun happended => ?_⟩,
      fun hempty => ?_⟩
    · obtain ⟨i, hik, limits, batch, receipt, hpersisted, hnames⟩ := listed_at.mp hlisted
      rcases hnames.imp_left ((h i limits batch receipt hpersisted).1 streamId) with
        (happends | happended) | happends
      · exact appended_at.mpr ⟨i, hik, limits, batch, receipt, hpersisted, happends⟩
      · obtain ⟨j, hji, hbatch⟩ := appended_at.mp happended
        exact appended_at.mpr ⟨j, Nat.lt_trans hji hik, hbatch⟩
      · exact appended_at.mpr ⟨i, hik, limits, batch, receipt, hpersisted, happends⟩
    · obtain ⟨i, hik, limits, batch, receipt, hpersisted, happends⟩ := appended_at.mp happended
      exact listed_at.mpr ⟨i, hik, limits, batch, receipt, hpersisted, .inr happends⟩
    · obtain ⟨i, -, limits, batch, receipt, hpersisted, happends⟩ := appended_at.mp hempty
      exact (h i limits batch receipt hpersisted).2 happends

/-- A batch that appends nothing and expects the stream `s` not to exist. -/
def Sample.expecting : List Call :=
  [.commit .default ⟨.ofU128 10, 0, none, [], [⟨"s", 0⟩], []⟩ .done]

/-- The stream that was not to exist has a row and is counted. -/
theorem streams_exact_counterexample :
    ¬ ∀ k, StreamsExact Sample.file (controlPlane.stateAt Sample.expecting k).db := by
  intro h
  obtain ⟨row, hrow, -⟩ := ((h 1).listed "s").mp ⟨⟨"s", 0⟩, by decide, rfl⟩
  have hnone : (controlPlane.stateAt Sample.expecting 1).db.events.rows = [] := by decide
  rw [hnone] at hrow
  exact absurd hrow List.not_mem_nil

end Minisqlite
