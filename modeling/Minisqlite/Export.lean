import Minisqlite.EventLog
import Minisqlite.JobRows
import Minisqlite.Store.Export
import Minisqlite.Streams

/-!
# The diagnostic export is complete but for one stream

The loops of the export start after a key that no row should have: 0 for a sequence
number, the empty string for a stream id. No row has the key 0. But `validate_batch`
asks of a stream id only that it is not too long, and the empty id is accepted.

1. `plain_record`: no record has a control character in it, so each is one line.
2. `exports_total`: the loops end, for any store.
3. `export_complete_iff`: the export is complete, exactly if no batch that was committed
   names the stream with the empty id.
-/

namespace Minisqlite

open Tables Keyset PlainText Runs StreamLemmas

/-- The records of everything that the store holds. -/
def recordsOf (includePayloads : Bool) (db : Db) : List String :=
  db.transactions.rows.map TransactionRow.record ++
    db.events.rows.map (EventRow.record includePayloads) ++
    db.streams.rows.map StreamRow.record ++
    db.projectionMeta.rows.map ProjectionMetaRow.record ++
    db.projectionEntries.rows.map (ProjectionEntryRow.record includePayloads) ++
    db.jobs.rows.map (JobRow.record includePayloads) ++
    db.activePartitions.rows.map ActivePartitionRow.record ++
    db.claimReceipts.rows.map ClaimReceiptRow.record

/-- The loops end, and the export returns the text. -/
def Exports (file : StoreFile) (includePayloads : Bool) (db : Db) (text : String) : Prop :=
  ∃ enough, ∀ fuel, enough ≤ fuel → diagnosticExport file includePayloads fuel db = some text

/-- The lines after the first two are the records of the store. -/
def ExportComplete (file : StoreFile) (includePayloads : Bool) (db : Db) : Prop :=
  ∃ text records, Exports file includePayloads db text ∧
    textLines text = headerRecord (stats file db) includePayloads ::
      statsRecord (stats file db) :: records ∧
    records.Perm (recordsOf includePayloads db)

/-- Keys that a loop finds that starts at 0. SQLite gives rowids from 1, and none twice. -/
structure Numbered (keys : List Int64) : Prop where
  distinct : keys.Nodup
  positive : ∀ key ∈ keys, 0 < key

namespace ExportLemmas

variable {file : StoreFile} {includePayloads : Bool} {db : Db} {fuel : Nat}

/-! ## Lines -/

theorem plain_quoted {s : String} (h : Plain s) : Plain (quoted s) :=
  plain_append (plain_append (by decide) h) (by decide)

theorem plain_hexDigit (d : UInt8) : 0x20 ≤ (Id.hexDigit d).toNat := by
  have hd := d.toNat_lt
  unfold Id.hexDigit
  split <;> exact plain_ofNat (by omega) (.inl (by omega))

theorem plain_hex (bytes : Bytes) : Plain (hex bytes) := by
  intro c hc
  rw [hex, String.toList_ofList] at hc
  obtain ⟨b, -, hc⟩ := List.mem_flatMap.mp hc
  simp only [List.mem_cons, List.not_mem_nil, or_false] at hc
  rcases hc with rfl | rfl <;> exact plain_hexDigit _

theorem plain_escapeChar (c : Char) : Plain (escapeChar c) := by
  unfold escapeChar
  split
  · decide
  · decide
  · decide
  · decide
  · decide
  · split
    · exact plain_append (by decide) (plain_hex _)
    · next h =>
      intro d hd
      rw [String.toList_singleton, List.mem_singleton] at hd
      rw [hd]
      omega

theorem plain_jsonEscape (s : String) : Plain (jsonEscape s) := by
  refine plain_join fun t ht => ?_
  obtain ⟨c, -, rfl⟩ := List.mem_map.mp ht
  exact plain_escapeChar c

theorem plain_optI64 (value : Option Int64) : Plain (optI64 value) := by
  cases value with
  | none => decide
  | some n => exact plain_int n.toInt

theorem plain_optString (value : Option String) : Plain (optString value) := by
  cases value with
  | none => decide
  | some s => exact plain_quoted (plain_jsonEscape s)

theorem plain_object {fields : Fields} (h : ∀ field ∈ fields, Plain field.1 ∧ Plain field.2) :
    Plain (object fields) := by
  refine plain_append (plain_append (by decide) (plain_intercalate (by decide) fun s hs => ?_))
    (by decide)
  obtain ⟨field, hfield, rfl⟩ := List.mem_map.mp hs
  obtain ⟨hname, hvalue⟩ := h field hfield
  exact plain_append (plain_append (plain_quoted hname) (by decide)) hvalue

theorem plain_uint64 (n : UInt64) : Plain (toString n) := plain_nat n.toNat

theorem plain_uint32 (n : UInt32) : Plain (toString n) := plain_nat n.toNat

theorem plain_uint8 (n : UInt8) : Plain (toString n) := plain_nat n.toNat

theorem plain_int64 (n : Int64) : Plain (toString n) := plain_int n.toInt

theorem plain_payloadFields (payload : Bytes) (includePayloads : Bool) :
    ∀ field ∈ payloadFields payload includePayloads, Plain field.1 ∧ Plain field.2 := by
  cases includePayloads <;> simp +decide [payloadFields, plain_quoted, plain_hex, plain_nat]

theorem plain_errorSummaryFields (errorSummary : Option String) (includePayloads : Bool) :
    ∀ field ∈ errorSummaryFields errorSummary includePayloads, Plain field.1 ∧ Plain field.2 := by
  cases includePayloads <;> simp +decide [errorSummaryFields, plain_optString, plain_optI64]

theorem plain_header (stats : StoreStats) : Plain (headerRecord stats includePayloads) := by
  have hincluded : Plain (toString includePayloads) := by cases includePayloads <;> decide
  refine plain_object ?_
  simp +decide [plain_uint32, hincluded]

theorem plain_stats (stats : StoreStats) : Plain (statsRecord stats) := by
  have hstates : Plain (object (stats.jobsByState.map fun entry =>
      (jsonEscape entry.1, toString entry.2))) := by
    refine plain_object fun field hfield => ?_
    obtain ⟨entry, -, rfl⟩ := List.mem_map.mp hfield
    exact ⟨plain_jsonEscape _, plain_uint64 _⟩
  refine plain_object ?_
  simp +decide [plain_uint64, hstates]

theorem plain_transaction (row : TransactionRow) : Plain row.record := by
  refine plain_object ?_
  simp +decide [plain_quoted, plain_hex, plain_int64]

theorem plain_event (row : EventRow) : Plain (row.record includePayloads) := by
  refine plain_object (List.forall_mem_append.mpr ⟨?_, plain_payloadFields _ _⟩)
  simp +decide [plain_quoted, plain_hex, plain_jsonEscape, plain_int64, plain_uint32]

theorem plain_stream (row : StreamRow) : Plain row.record := by
  refine plain_object ?_
  simp +decide [plain_quoted, plain_jsonEscape, plain_int64]

theorem plain_projection (row : ProjectionMetaRow) : Plain row.record := by
  refine plain_object ?_
  simp +decide [plain_quoted, plain_jsonEscape, plain_int64]

theorem plain_entry (row : ProjectionEntryRow) : Plain (row.record includePayloads) := by
  refine plain_object (List.forall_mem_append.mpr ⟨?_, ?_⟩)
  · simp +decide [plain_quoted, plain_hex, plain_jsonEscape]
  · cases includePayloads <;> simp +decide [plain_quoted, plain_hex, plain_nat]

theorem plain_job (job : JobRow) : Plain (job.record includePayloads) := by
  have hstate : Plain job.state.name := by cases job.state <;> decide
  refine plain_object (List.forall_mem_append.mpr ⟨List.forall_mem_append.mpr
    ⟨?_, plain_errorSummaryFields _ _⟩, plain_payloadFields _ _⟩)
  simp +decide [plain_quoted, plain_hex, plain_jsonEscape, plain_int64, plain_uint32, plain_uint8,
    plain_optString, plain_optI64, hstate]

theorem plain_partition (row : ActivePartitionRow) : Plain row.record := by
  refine plain_object ?_
  simp +decide [plain_quoted, plain_jsonEscape, plain_int64]

theorem plain_receipt (row : ClaimReceiptRow) : Plain row.record := by
  refine plain_object ?_
  simp +decide [plain_quoted, plain_hex, plain_jsonEscape, plain_int64, plain_uint32]

end ExportLemmas

open ExportLemmas

/-- A record has no control character in it. -/
theorem plain_record {includePayloads : Bool} {db : Db} {record : String}
    (h : record ∈ recordsOf includePayloads db) : Plain record := by
  simp only [recordsOf, List.mem_append, List.mem_map] at h
  obtain (((((((⟨row, -, rfl⟩ | ⟨row, -, rfl⟩) | ⟨row, -, rfl⟩) | ⟨row, -, rfl⟩) | ⟨row, -, rfl⟩) |
    ⟨row, -, rfl⟩) | ⟨row, -, rfl⟩) | ⟨row, -, rfl⟩) := h
  exacts [plain_transaction row, plain_event row, plain_stream row, plain_projection row,
    plain_entry row, plain_job row, plain_partition row, plain_receipt row]

namespace ExportLemmas

variable {file : StoreFile} {includePayloads : Bool} {db : Db} {fuel : Nat}

/-! ## Loops -/

section Loops

variable {ρ : Type} {key : ρ → Int64} {rows : List ρ}

theorem numbered_of_consecutive (h : Consecutive (rows.map key)) : Numbered (rows.map key) where
  distinct := by
    refine List.Pairwise.imp ?_ h.pairwise
    rintro a _ hlt rfl
    exact Std.lt_irrefl hlt
  positive k hk := by
    have := (h.bounds hk).1
    rw [Int64.lt_iff_toInt_lt, Int64.toInt_zero]
    omega

/-- A loop from 0 finds all rows. -/
theorem pages_numbered (h : Numbered (rows.map key)) (hfuel : rows.length < fuel) :
    pages key exportPageSize rows fuel 0 = some (ordered key rows) := by
  have hall : (rows.filter fun row => decide (0 < key row)) = rows :=
    List.filter_eq_self.mpr fun row hrow => decide_eq_true (h.positive _ (List.mem_map_of_mem hrow))
  have hpages : (rows.filter fun row => decide (0 < key row)).length < fuel * exportPageSize →
      pages key exportPageSize rows fuel 0 =
        some (ordered key (rows.filter fun row => decide (0 < key row))) :=
    pages_eq h.distinct (by decide)
  rw [hall] at hpages
  exact hpages (Nat.lt_of_lt_of_le hfuel (Nat.le_mul_of_pos_right fuel (by decide)))

end Loops

/-- A loop ends with a unit of fuel for each row, whatever the keys are. -/
theorem loop_total {ρ κ : Type} [LE κ] [LT κ] [DecidableLE κ] [DecidableLT κ]
    [Std.IsLinearOrder κ] [Std.LawfulOrderLT κ] (key : ρ → κ) (rows : List ρ) (last : κ) :
    ∃ found, ∀ fuel, rows.length < fuel → pages key exportPageSize rows fuel last = some found := by
  have hlast : (rows.filter fun row => decide (last < key row)).length < rows.length + 1 :=
    Nat.lt_succ_of_le (List.length_filter_le _ _)
  obtain ⟨found, hfound⟩ := pages_total (by decide : 0 < exportPageSize) hlast
  exact ⟨found, fun fuel hfuel => pages_mono hfuel hfound⟩

/-- What the loops need of the tables. -/
structure Exportable (file : StoreFile) (db : Db) : Prop where
  transactions : Numbered (db.transactions.rows.map TransactionRow.transactionSequence)
  events : Numbered (db.events.rows.map EventRow.globalSequence)
  entries : Numbered (db.projectionEntries.rows.map file.entryRowid)
  jobs : Numbered (db.jobs.rows.map JobRow.enqueueSequence)

theorem exportable_after {calls : List Call}
    (rowids : Numbered ((controlPlane.after calls).db.projectionEntries.rows.map file.entryRowid)) :
    Exportable file (controlPlane.after calls).db where
  transactions := numbered_of_consecutive (transactions_consecutive calls)
  events := numbered_of_consecutive (eventLog_after calls).1.global
  entries := rowids
  jobs := numbered_of_consecutive (jobs_consecutive calls)

/-- The rows that the loops read. -/
def rowCount (db : Db) : Nat :=
  db.transactions.rows.length + db.events.rows.length + db.streams.rows.length +
    db.projectionEntries.rows.length + db.jobs.rows.length

end ExportLemmas

/-- The loops of the export end, for any store. -/
theorem exports_total (file : StoreFile) (includePayloads : Bool) (db : Db) :
    ∃ text, Exports file includePayloads db text := by
  obtain ⟨transactions, ht⟩ := loop_total TransactionRow.transactionSequence db.transactions.rows 0
  obtain ⟨events, he⟩ := loop_total EventRow.globalSequence db.events.rows 0
  obtain ⟨streams, hs⟩ := loop_total (fun row : StreamRow => utf8 row.streamId) db.streams.rows
    (utf8 "")
  obtain ⟨entries, hp⟩ := loop_total file.entryRowid db.projectionEntries.rows 0
  obtain ⟨jobs, hj⟩ := loop_total JobRow.enqueueSequence db.jobs.rows 0
  apply Exists.intro
  refine ⟨rowCount db + 1, fun fuel hfuel => ?_⟩
  unfold rowCount at hfuel
  simp only [diagnosticExport, exportLines, exportTransactions, exportEvents, exportStreams,
    exportProjections, exportJobs]
  rw [ht _ (by omega), he _ (by omega), hs _ (by omega), hp _ (by omega), hj _ (by omega)]
  rfl

namespace ExportLemmas

variable {file : StoreFile} {includePayloads : Bool} {db : Db} {fuel : Nat}

/-- The loop over the streams misses the empty id, from which it starts. -/
theorem exportStreams_eq (hfuel : db.streams.rows.length < fuel) :
    exportStreams fuel db = some ((ordered (fun row : StreamRow => utf8 row.streamId)
      (db.streams.rows.filter fun row => decide (row.streamId ≠ ""))).map StreamRow.record) := by
  have hafter : (fun row : StreamRow => decide (utf8 "" < utf8 row.streamId)) =
      fun row => decide (row.streamId ≠ "") := by
    funext row
    rw [decide_eq_decide]
    constructor
    · rintro hlt he
      rw [he] at hlt
      exact Std.lt_irrefl hlt
    · intro hne
      cases hbytes : utf8 row.streamId with
      | nil => exact absurd (utf8_inj (hbytes.trans (by decide : [] = utf8 ""))) hne
      | cons byte bytes => exact List.nil_lt_cons byte bytes
  have hdistinct : (db.streams.rows.map fun row => utf8 row.streamId).Nodup := by
    have hkeys := (Table.nodup_keys (Schema.keyed_unique _) db.streams).map fun _ _ => utf8_inj
    rwa [List.map_map] at hkeys
  have hfew : (db.streams.rows.filter fun row => decide (utf8 "" < utf8 row.streamId)).length <
      fuel * exportPageSize :=
    Nat.lt_of_le_of_lt (List.length_filter_le _ _)
      (Nat.lt_of_lt_of_le hfuel (Nat.le_mul_of_pos_right fuel (by decide)))
  rw [exportStreams, pages_eq hdistinct (by decide) hfew, hafter]
  rfl

/-- What the export writes of the tables, in its order. -/
def exportedRecords (file : StoreFile) (includePayloads : Bool) (db : Db) : List String :=
  (ordered TransactionRow.transactionSequence db.transactions.rows).map TransactionRow.record ++
    (ordered EventRow.globalSequence db.events.rows).map (EventRow.record includePayloads) ++
    (ordered (fun row : StreamRow => utf8 row.streamId)
      (db.streams.rows.filter fun row => decide (row.streamId ≠ ""))).map StreamRow.record ++
    ((ordered (fun row : ProjectionMetaRow => utf8 row.projection)
      db.projectionMeta.rows).map ProjectionMetaRow.record ++
      (ordered file.entryRowid db.projectionEntries.rows).map
        (ProjectionEntryRow.record includePayloads)) ++
    (ordered JobRow.enqueueSequence db.jobs.rows).map (JobRow.record includePayloads) ++
    exportPartitions db ++ exportClaimReceipts file db

theorem exportLines_eq (h : Exportable file db) (hfuel : rowCount db < fuel) :
    exportLines file includePayloads fuel db = some (headerRecord (stats file db) includePayloads ::
      statsRecord (stats file db) :: exportedRecords file includePayloads db) := by
  unfold rowCount at hfuel
  simp only [exportLines, exportTransactions, exportEvents, exportProjections, exportJobs]
  rw [pages_numbered h.transactions (by omega), pages_numbered h.events (by omega),
    pages_numbered h.entries (by omega), pages_numbered h.jobs (by omega),
    exportStreams_eq (by omega)]
  rfl

/-- The store without the stream of the empty id. -/
def withoutEmpty (db : Db) : Db :=
  { db with streams := db.streams.delete fun row => decide (row.streamId = "") }

theorem streams_withoutEmpty (db : Db) : (withoutEmpty db).streams.rows =
    db.streams.rows.filter fun row => decide (row.streamId ≠ "") :=
  List.filter_congr fun row _ => by simp

theorem exported_perm (file : StoreFile) (includePayloads : Bool) (db : Db) :
    (exportedRecords file includePayloads db).Perm
      (recordsOf includePayloads (withoutEmpty db)) := by
  unfold exportedRecords exportPartitions exportClaimReceipts recordsOf
  rw [streams_withoutEmpty, ← List.append_assoc]
  iterate 7 refine List.Perm.append ?_ ?_
  all_goals exact (ordered_perm _ _).map _

theorem recordsOf_withoutEmpty (h : ¬ Listed db "") :
    recordsOf includePayloads (withoutEmpty db) = recordsOf includePayloads db := by
  have hall : (withoutEmpty db).streams.rows = db.streams.rows := by
    rw [streams_withoutEmpty, List.filter_eq_self]
    exact fun row hrow => decide_eq_true fun he => h ⟨row, hrow, he⟩
  unfold recordsOf
  rw [hall]
  rfl

theorem length_recordsOf_withoutEmpty (h : Listed db "") :
    (recordsOf includePayloads (withoutEmpty db)).length <
      (recordsOf includePayloads db).length := by
  obtain ⟨row, hrow, he⟩ := h
  have hfewer : (withoutEmpty db).streams.rows.length < db.streams.rows.length := by
    rw [streams_withoutEmpty]
    exact List.length_filter_lt_length_iff_exists.mpr ⟨row, hrow, by simp [he]⟩
  simp only [recordsOf, List.length_append, List.length_map]
  simp only [withoutEmpty] at hfewer ⊢
  omega

/-- The lines of the text are the lines that were written. -/
theorem textLines_export (h : Exportable file db) (hfuel : rowCount db < fuel) {text : String}
    (htext : diagnosticExport file includePayloads fuel db = some text) :
    textLines text = headerRecord (stats file db) includePayloads :: statsRecord (stats file db) ::
      exportedRecords file includePayloads db := by
  rw [diagnosticExport, exportLines_eq h hfuel] at htext
  rw [← Option.some.inj htext]
  refine textLines_writeLines ?_
  simp only [List.forall_mem_cons]
  exact ⟨plain_header _, plain_stats _, fun record hrecord =>
    plain_record ((exported_perm file includePayloads db).mem_iff.mp hrecord)⟩

/-- The export of any store is complete but for the stream with the empty id. -/
theorem exportComplete_iff (h : Exportable file db) :
    ExportComplete file includePayloads db ↔ ¬ Listed db "" := by
  constructor
  · rintro ⟨text, records, ⟨enough, htext⟩, hlines, hperm⟩ hlisted
    have hmax := htext (max enough (rowCount db + 1)) (le_max_left _ _)
    rw [textLines_export h (Nat.lt_of_succ_le (le_max_right _ _)) hmax] at hlines
    simp only [List.cons.injEq, true_and] at hlines
    have hfound := (exported_perm file includePayloads db).length_eq
    rw [hlines, hperm.length_eq] at hfound
    exact absurd hfound.symm (Nat.ne_of_lt (length_recordsOf_withoutEmpty hlisted))
  · intro hlisted
    obtain ⟨text, enough, htext⟩ := exports_total file includePayloads db
    have hmax := htext (max enough (rowCount db + 1)) (le_max_left _ _)
    exact ⟨text, _, ⟨enough, htext⟩, textLines_export h (Nat.lt_of_succ_le (le_max_right _ _)) hmax,
      recordsOf_withoutEmpty hlisted ▸ exported_perm file includePayloads db⟩

end ExportLemmas

/-- The loops of the export end in any state, and it is complete, exactly if no batch
that was committed expects a version of the stream with the empty id or appends to it. -/
theorem export_complete_iff (file : StoreFile) (includePayloads : Bool) (calls : List Call)
    (rowids : Numbered ((controlPlane.after calls).db.projectionEntries.rows.map file.entryRowid)) :
    (∃ text, Exports file includePayloads (controlPlane.after calls).db text) ∧
    (ExportComplete file includePayloads (controlPlane.after calls).db ↔
      ∀ batch, Entry.batch batch ∈ journal calls → ¬ batch.names "") := by
  refine ⟨exports_total _ _ _, ?_⟩
  rw [exportComplete_iff (exportable_after rowids), listed_after]
  simp only [not_exists, not_and]

/-- A batch of one event and one projection entry. -/
def Sample.storing (streamId : String) : CommitBatch :=
  Sample.batch 10 0 [.appendEvent ⟨.ofU128 7, streamId, "t", 1, 0, none, none, [], []⟩,
    .projectionPatch ⟨"p", 0, 1, [.put [1] [2]]⟩]

def Sample.stored (streamId : String) : List Call :=
  [.commit .default (Sample.storing streamId) .done]

def Sample.file : StoreFile := ⟨4096, 1, fun _ => 1, fun _ => 1⟩

theorem ExportLemmas.numbered_one {keys : List Int64} (h : keys = [1]) : Numbered keys := by
  subst h
  exact ⟨List.nodup_singleton 1, List.forall_mem_singleton.mpr (by decide)⟩

/-- The event of the stream with the empty id is exported, the stream is not. -/
theorem export_complete_counterexample :
    Numbered ((controlPlane.after (Sample.stored "")).db.projectionEntries.rows.map
      Sample.file.entryRowid) ∧
    ¬ ExportComplete Sample.file false (controlPlane.after (Sample.stored "")).db := by
  have rowids : Numbered ((controlPlane.after (Sample.stored "")).db.projectionEntries.rows.map
      Sample.file.entryRowid) := numbered_one (by decide)
  refine ⟨rowids, fun hcomplete => ?_⟩
  exact (exportComplete_iff (exportable_after rowids)).mp hcomplete ⟨⟨"", 1⟩, by decide, rfl⟩

theorem export_complete_iff_sample :
    ExportComplete Sample.file true (controlPlane.after (Sample.stored "s")).db := by
  refine (export_complete_iff Sample.file true (Sample.stored "s")
    (numbered_one (by decide))).2.mpr fun batch hbatch hnames => ?_
  have hjournal : journal (Sample.stored "s") = [.batch (Sample.storing "s")] := by decide
  rw [hjournal, List.mem_singleton, Entry.batch.injEq] at hbatch
  subst hbatch
  rcases hnames with ⟨expected, hexpected, -⟩ | ⟨event, hevent, he⟩
  · exact absurd hexpected List.not_mem_nil
  · simp only [Sample.storing, Sample.batch, List.mem_cons, Operation.appendEvent.injEq,
      reduceCtorEq, List.not_mem_nil, or_false] at hevent
    rw [hevent] at he
    exact absurd he (by decide)

end Minisqlite
