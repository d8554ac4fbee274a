import Minisqlite.Export
import Minisqlite.Lib.Json

/-!
# The lines of the export are JSON

Each line of the export is put together by hand. Here the columns behind a line are
values again, with one way to write each kind; every record is its columns, written
that way, and a parser of JSON gets the columns back.

1. `spells_jsonEscape`, `unhex_hex`: strings and blobs.
2. `record_line`: the nine records, as columns.
3. `columns_parse`: a line is parsed as the object of its columns.
4. `exportLines_columns`, `export_faithful`: the export of any store.
-/

namespace Minisqlite

open Tables Keyset PlainText

/-! ## Columns -/

/-- A value of the export. The states of jobs with their numbers are one value. -/
inductive Column
  | int (n : Int)
  | str (s : String)
  | blob (bytes : Bytes)
  | flag (b : Bool)
  | tally (entries : List (String × UInt64))
  | null

/-- How the export writes it. -/
def Column.written : Column → String
  | .int n => toString n
  | .str s => quoted (jsonEscape s)
  | .blob bytes => quoted (hex bytes)
  | .flag b => toString b
  | .tally entries => object (entries.map fun entry => (jsonEscape entry.1, toString entry.2))
  | .null => "null"

/-- What it is as JSON. -/
def Column.json : Column → Json.Value
  | .int n => .number n 0
  | .str s => .string s
  | .blob bytes => .string (hex bytes)
  | .flag b => .bool b
  | .tally entries => .object (entries.map fun entry => (entry.1, .number entry.2.toNat 0))
  | .null => .null

/-- The columns behind a line, with their names. -/
abbrev LineColumns := List (String × Column)

def LineColumns.line (columns : LineColumns) : String :=
  object (columns.map fun column => (column.1, column.2.written))

def LineColumns.json (columns : LineColumns) : Json.Value :=
  .object (columns.map fun column => (column.1, column.2.json))

/-! ### Reading a column -/

inductive ColumnType
  | int | str | blob | flag | tally
deriving DecidableEq

def Column.hasType : Column → ColumnType → Bool
  | .int _, .int | .str _, .str | .blob _, .blob | .flag _, .flag | .tally _, .tally => true
  | .null, _ => true
  | _, _ => false

/-- Two hexadecimal digits a byte. -/
def unhex : List Char → Option Bytes
  | [] => some []
  | [_] => none
  | h :: l :: rest => do
    let h ← Json.hexValue h
    let l ← Json.hexValue l
    let bytes ← unhex rest
    some (UInt8.ofNat (h * 16 + l) :: bytes)

def readCount : String × Json.Value → Option (String × UInt64)
  | (name, .number n 0) => some (name, UInt64.ofNat n.toNat)
  | _ => none

/-- The column of this type that a JSON value stands for. -/
def ColumnType.read : ColumnType → Json.Value → Option Column
  | _, .null => some .null
  | .int, .number n 0 => some (.int n)
  | .str, .string s => some (.str s)
  | .blob, .string s => (unhex s.toList).map .blob
  | .flag, .bool b => some (.flag b)
  | .tally, .object members => (members.mapM readCount).map .tally
  | _, _ => none

/-! ### The columns of each record -/

def optional {α : Type} (column : α → Column) (value : Option α) : Column :=
  (value.map column).getD .null

def headerColumns (stats : StoreStats) (includePayloads : Bool) : LineColumns :=
  [("kind", .str "header"), ("format", .str "minisqlite-diagnostic-v1"),
    ("restorable", .flag false), ("schema_version", .int stats.migrationVersion.toNat),
    ("payloads_included", .flag includePayloads)]

def statsColumns (stats : StoreStats) : LineColumns :=
  [("kind", .str "stats"), ("transactions", .int stats.transactions.toNat),
    ("events", .int stats.events.toNat), ("streams", .int stats.streams.toNat),
    ("projections", .int stats.projections.toNat),
    ("projection_entries", .int stats.projectionEntries.toNat),
    ("active_partitions", .int stats.activePartitions.toNat),
    ("file_size_bytes", .int stats.fileSizeBytes.toNat),
    ("jobs_by_state", .tally stats.jobsByState)]

def payloadColumns (payload : Bytes) (includePayloads : Bool) : LineColumns :=
  if includePayloads then [("payload_len", .int payload.length), ("payload_hex", .blob payload)]
  else [("payload_len", .int payload.length)]

def errorSummaryColumns (errorSummary : Option String) (includePayloads : Bool) : LineColumns :=
  if includePayloads then [("error_summary", optional .str errorSummary)]
  else [("error_summary_len", optional (fun s => .int (Int64.ofNat s.utf8ByteSize).toInt)
    errorSummary)]

def TransactionRow.columns (row : TransactionRow) : LineColumns :=
  [("kind", .str "transaction"), ("transaction_sequence", .int row.transactionSequence.toInt),
    ("transaction_id", .blob row.transactionId.bytes),
    ("committed_at_ms", .int row.committedAtMs.toInt),
    ("operation_count", .int row.operationCount.toInt)]

def EventRow.columns (includePayloads : Bool) (row : EventRow) : LineColumns :=
  [("kind", .str "event"), ("global_sequence", .int row.globalSequence.toInt),
    ("event_id", .blob row.event.eventId.bytes), ("transaction_id", .blob row.transactionId.bytes),
    ("stream_id", .str row.event.streamId), ("stream_version", .int row.streamVersion.toInt),
    ("event_type", .str row.event.eventType),
    ("schema_version", .int row.event.schemaVersion.toNat),
    ("occurred_at_ms", .int row.event.occurredAtMs.toInt)] ++
    payloadColumns row.event.payload includePayloads

def StreamRow.columns (row : StreamRow) : LineColumns :=
  [("kind", .str "stream"), ("stream_id", .str row.streamId),
    ("current_version", .int row.currentVersion.toInt)]

def ProjectionMetaRow.columns (row : ProjectionMetaRow) : LineColumns :=
  [("kind", .str "projection"), ("projection", .str row.projection),
    ("version", .int row.version.toInt)]

def ProjectionEntryRow.columns (includePayloads : Bool) (row : ProjectionEntryRow) : LineColumns :=
  [("kind", .str "projection_entry"), ("projection", .str row.projection),
    ("key_hex", .blob row.key)] ++
    if includePayloads then [("value_len", .int row.value.length), ("value_hex", .blob row.value)]
    else [("value_len", .int row.value.length)]

def JobRow.columns (includePayloads : Bool) (job : JobRow) : LineColumns :=
  [("kind", .str "job"), ("enqueue_sequence", .int job.enqueueSequence.toInt),
    ("job_id", .blob job.spec.jobId.bytes), ("queue", .str job.spec.queue),
    ("partition_key", .str job.spec.partitionKey), ("state", .str job.state.name),
    ("attempt", .int job.attempt.toNat), ("max_attempts", .int job.spec.maxAttempts.toNat),
    ("effect_mode", .int job.spec.effectMode.encode.toNat),
    ("not_before_ms", .int job.spec.notBeforeMs.toInt), ("worker_id", optional .str job.workerId),
    ("lease_expires_at_ms", optional (fun ms => .int ms.toInt) job.leaseExpiresAtMs),
    ("retry_after_ms", optional (fun ms => .int ms.toInt) job.retryAfterMs),
    ("terminal_at_ms", optional (fun ms => .int ms.toInt) job.terminalAtMs)] ++
    errorSummaryColumns job.errorSummary includePayloads ++
    payloadColumns job.spec.payload includePayloads

def ActivePartitionRow.columns (row : ActivePartitionRow) : LineColumns :=
  [("kind", .str "active_partition"), ("queue", .str row.queue),
    ("partition_key", .str row.partitionKey),
    ("first_active_sequence", .int row.firstActiveSequence.toInt)]

def ClaimReceiptRow.columns (row : ClaimReceiptRow) : LineColumns :=
  [("kind", .str "claim_receipt"), ("transaction_id", .blob row.transactionId.bytes),
    ("job_id", .blob row.jobId.bytes), ("attempt", .int row.attempt.toNat),
    ("worker_id", .str row.workerId), ("lease_expires_at_ms", .int row.leaseExpiresAtMs.toInt)]

/-- The columns of everything that the store holds. -/
def columnsOf (includePayloads : Bool) (db : Db) : List LineColumns :=
  db.transactions.rows.map TransactionRow.columns ++
    db.events.rows.map (EventRow.columns includePayloads) ++
    db.streams.rows.map StreamRow.columns ++
    db.projectionMeta.rows.map ProjectionMetaRow.columns ++
    db.projectionEntries.rows.map (ProjectionEntryRow.columns includePayloads) ++
    db.jobs.rows.map (JobRow.columns includePayloads) ++
    db.activePartitions.rows.map ActivePartitionRow.columns ++
    db.claimReceipts.rows.map ClaimReceiptRow.columns

/-- The columns of everything that the export reads, in its order. -/
def exportColumns (file : StoreFile) (includePayloads : Bool) (fuel : Nat) (db : Db) :
    Option (List LineColumns) := do
  let stats := stats file db
  let transactions ←
    pages TransactionRow.transactionSequence exportPageSize db.transactions.rows fuel 0
  let events ← pages EventRow.globalSequence exportPageSize db.events.rows fuel 0
  let streams ←
    pages (fun row : StreamRow => utf8 row.streamId) exportPageSize db.streams.rows fuel (utf8 "")
  let projections := ordered (fun row : ProjectionMetaRow => utf8 row.projection)
    db.projectionMeta.rows
  let entries ← pages file.entryRowid exportPageSize db.projectionEntries.rows fuel 0
  let jobs ← pages JobRow.enqueueSequence exportPageSize db.jobs.rows fuel 0
  let partitions := ordered (fun row : ActivePartitionRow =>
    [utf8 row.queue, utf8 row.partitionKey]) db.activePartitions.rows
  let receipts := ordered file.receiptRowid db.claimReceipts.rows
  some (headerColumns stats includePayloads :: statsColumns stats ::
    (transactions.map TransactionRow.columns ++ events.map (EventRow.columns includePayloads) ++
      streams.map StreamRow.columns ++ (projections.map ProjectionMetaRow.columns ++
        entries.map (ProjectionEntryRow.columns includePayloads)) ++
      jobs.map (JobRow.columns includePayloads) ++ partitions.map ActivePartitionRow.columns ++
      receipts.map ClaimReceiptRow.columns))

namespace JsonLemmas

/-! ## 1. Strings and blobs -/

theorem hexValue_hexDigit {d : UInt8} (h : d.toNat < 16) :
    Json.hexValue (Id.hexDigit d) = some d.toNat := by
  have hall : ∀ n < 16, Json.hexValue (Id.hexDigit (UInt8.ofNat n)) = some n := by decide
  have := hall d.toNat h
  rwa [UInt8.ofNat_toNat] at this

/-- The two halves of a byte. -/
theorem halves (b : UInt8) : (b >>> 4).toNat = b.toNat / 16 ∧ (b &&& 0xf).toNat = b.toNat % 16 := by
  constructor
  · rw [UInt8.toNat_shiftRight]
    exact Nat.shiftRight_eq_div_pow b.toNat 4
  · rw [UInt8.toNat_and]
    exact Nat.and_two_pow_sub_one_eq_mod b.toNat 4

theorem hexValue_high (b : UInt8) :
    Json.hexValue (Id.hexDigit (b >>> 4)) = some (b.toNat / 16) := by
  have hb := b.toNat_lt
  rw [hexValue_hexDigit, (halves b).1]
  rw [(halves b).1]
  omega

theorem hexValue_low (b : UInt8) :
    Json.hexValue (Id.hexDigit (b &&& 0xf)) = some (b.toNat % 16) := by
  rw [hexValue_hexDigit, (halves b).2]
  rw [(halves b).2]
  exact Nat.mod_lt _ (by decide)

/-- The hexadecimal digits of a blob are the blob. -/
theorem unhex_hex (bytes : Bytes) : unhex (hex bytes).toList = some bytes := by
  rw [hex, String.toList_ofList]
  induction bytes with
  | nil => rfl
  | cons b bytes ih =>
    rw [List.flatMap_cons, List.cons_append, List.singleton_append, unhex, hexValue_high,
      hexValue_low, ih]
    simp only [Option.bind_eq_bind, Option.bind_some]
    rw [Nat.div_add_mod', UInt8.ofNat_toNat]

/-- `\u` with the four digits of a control character. -/
theorem escape_control {c : Char} (h : c.toNat < 0x20) (rest : List Char) :
    Json.escape ('u' :: ((hex [0, UInt8.ofNat c.toNat]).toList ++ rest)) = some (c, rest) := by
  have hbyte : (UInt8.ofNat c.toNat).toNat = c.toNat :=
    UInt8.toNat_ofNat_of_lt' (h.trans (by decide))
  have hdigits : (hex [0, UInt8.ofNat c.toNat]).toList ++ rest =
      '0' :: '0' :: Id.hexDigit (UInt8.ofNat c.toNat >>> 4) ::
        Id.hexDigit (UInt8.ofNat c.toNat &&& 0xf) :: rest := by
    rw [hex, String.toList_ofList]
    rfl
  have hzero : Json.hexValue '0' = some 0 := rfl
  have hunit : Json.hex4 ((hex [0, UInt8.ofNat c.toNat]).toList ++ rest) =
      some (c.toNat, rest) := by
    rw [hdigits, Json.hex4, hzero, hexValue_high, hexValue_low, hbyte]
    simp only [Option.bind_eq_bind, Option.bind_some, Nat.zero_mul, Nat.zero_add]
    rw [Nat.div_add_mod']
  rw [Json.escape, Json.unicode, hunit]
  simp only [Option.bind_eq_bind, Option.bind_some]
  rw [if_neg (by omega), if_neg (by omega), Char.ofNat_toNat]

/-- A character is read as it was escaped. -/
theorem character_escapeChar (c : Char) :
    (escapeChar c).toList.head? ≠ some '"' ∧
      ∀ rest, Json.character ((escapeChar c).toList ++ rest) = some (c, rest) := by
  unfold escapeChar
  split
  · exact ⟨by decide, fun rest => rfl⟩
  · exact ⟨by decide, fun rest => rfl⟩
  · exact ⟨by decide, fun rest => rfl⟩
  · exact ⟨by decide, fun rest => rfl⟩
  · exact ⟨by decide, fun rest => rfl⟩
  · next hquote hbackslash _ _ _ =>
    split
    · next hcontrol =>
      have hhead : ∀ t : String, ("\\u" ++ t).toList = '\\' :: 'u' :: t.toList := fun t => by
        rw [String.toList_append]
        rfl
      rw [hhead]
      exact ⟨nofun, escape_control hcontrol⟩
    · next hcontrol =>
      rw [String.toList_singleton]
      refine ⟨fun h => hquote (Option.some.inj h), fun rest => ?_⟩
      rw [List.singleton_append, Json.character, if_neg hbackslash,
        if_neg (not_or.mpr ⟨hquote, hcontrol⟩)]

theorem spells_jsonEscape (s : String) : Json.SpellsString (jsonEscape s) s.toList := by
  rw [jsonEscape]
  induction s.toList with
  | nil => exact Json.spellsString_nil
  | cons c cs ih =>
    obtain ⟨hquote, hspelling⟩ := character_escapeChar c
    rw [List.map_cons, String.join_cons]
    exact ih.append hquote hspelling

/-! ## 2. The records -/

theorem optional_str (value : Option String) :
    (optional Column.str value).written = optString value := by
  cases value <;> rfl

theorem optional_int (value : Option Int64) :
    (optional (fun ms => Column.int ms.toInt) value).written = optI64 value := by
  cases value <;> rfl

theorem payload_line (payload : Bytes) (includePayloads : Bool) :
    (payloadColumns payload includePayloads).map (fun column => (column.1, column.2.written)) =
      payloadFields payload includePayloads := by
  cases includePayloads <;> rfl

theorem errorSummary_line (errorSummary : Option String) (includePayloads : Bool) :
    (errorSummaryColumns errorSummary includePayloads).map
      (fun column => (column.1, column.2.written)) =
      errorSummaryFields errorSummary includePayloads := by
  cases includePayloads <;> cases errorSummary <;> rfl

theorem header_line (stats : StoreStats) (includePayloads : Bool) :
    headerRecord stats includePayloads = (headerColumns stats includePayloads).line := by
  rfl

theorem stats_line (stats : StoreStats) : statsRecord stats = (statsColumns stats).line := by
  rfl

theorem job_line (includePayloads : Bool) (job : JobRow) :
    job.record includePayloads = (job.columns includePayloads).line := by
  have hkind : jsonEscape "job" = "job" := rfl
  have hstate : jsonEscape job.state.name = job.state.name := by
    cases job.state <;> rfl
  rw [JobRow.record, JobRow.columns, LineColumns.line, List.map_append, List.map_append,
    payload_line, errorSummary_line]
  simp only [List.map_cons, List.map_nil, optional_str, optional_int]
  simp only [Column.written, hkind, hstate]
  rfl

theorem transaction_line (row : TransactionRow) : row.record = row.columns.line := by
  rfl

theorem event_line (includePayloads : Bool) (row : EventRow) :
    row.record includePayloads = (row.columns includePayloads).line := by
  rw [EventRow.record, EventRow.columns, LineColumns.line, List.map_append, payload_line]
  rfl

theorem stream_line (row : StreamRow) : row.record = row.columns.line := by
  rfl

example : (StreamRow.mk "a\"b" 3).record =
    "\x7b\"kind\":\"stream\",\"stream_id\":\"a\\\"b\",\"current_version\":3\x7d" := by decide

theorem projection_line (row : ProjectionMetaRow) : row.record = row.columns.line := by
  rfl

theorem entry_line (includePayloads : Bool) (row : ProjectionEntryRow) :
    row.record includePayloads = (row.columns includePayloads).line := by
  cases includePayloads <;> rfl

theorem partition_line (row : ActivePartitionRow) : row.record = row.columns.line := by
  rfl

theorem receipt_line (row : ClaimReceiptRow) : row.record = row.columns.line := by
  rfl

/-- Every record is its columns. -/
theorem record_line (includePayloads : Bool) (db : Db) :
    recordsOf includePayloads db = (columnsOf includePayloads db).map LineColumns.line := by
  simp only [recordsOf, columnsOf, List.map_append, List.map_map, Function.comp_def,
    ← transaction_line, ← event_line, ← stream_line, ← projection_line, ← entry_line, ← job_line,
    ← partition_line, ← receipt_line]

/-! ## 3. Parsing -/

theorem object_spells {ms : List Json.Member} (h : ∀ m ∈ ms, m.Spelled) :
    Json.Spells (object (ms.map fun m => (m.nameText, m.valueText)))
      (.object (ms.map Json.Member.member)) := by
  have htext : object (ms.map fun m => (m.nameText, m.valueText)) =
      "\x7b" ++ ",".intercalate (ms.map Json.Member.text) ++ "\x7d" := by
    rw [object, List.map_map]
    rfl
  rw [htext]
  exact Json.spells_object h

theorem string_spells (s : String) : Json.Spells (quoted (jsonEscape s)) (.string s) := by
  have hspells := Json.spells_string (spells_jsonEscape s)
  rwa [String.ofList_toList] at hspells

/-- A string none of whose characters is escaped. -/
theorem jsonEscape_eq_self {s : String} (h : ∀ c ∈ s.toList, (escapeChar c).toList = [c]) :
    jsonEscape s = s := by
  rw [← String.toList_inj, jsonEscape, String.toList_join, List.flatMap_map]
  exact (List.flatMap_congr h).trans (List.flatMap_singleton' _)

/-- A hexadecimal digit is not escaped. -/
theorem jsonEscape_hex (bytes : Bytes) : jsonEscape (hex bytes) = hex bytes := by
  have hall : ∀ n < 16, escapeChar (Id.hexDigit (UInt8.ofNat n)) =
      String.singleton (Id.hexDigit (UInt8.ofNat n)) := by decide
  have hdigit : ∀ d : UInt8, d.toNat < 16 →
      escapeChar (Id.hexDigit d) = String.singleton (Id.hexDigit d) := fun d hd => by
    have := hall d.toNat hd
    rwa [UInt8.ofNat_toNat] at this
  have hplain : ∀ c ∈ (hex bytes).toList, (escapeChar c).toList = [c] := by
    intro c hc
    rw [hex, String.toList_ofList] at hc
    obtain ⟨b, -, hc⟩ := List.mem_flatMap.mp hc
    have hb := b.toNat_lt
    rcases List.mem_pair.mp hc with rfl | rfl
    · rw [hdigit _ (by rw [(halves b).1]; omega), String.toList_singleton]
    · rw [hdigit _ (by rw [(halves b).2]; omega), String.toList_singleton]
  exact jsonEscape_eq_self hplain

theorem hex_spells (bytes : Bytes) : Json.Spells (quoted (hex bytes)) (.string (hex bytes)) := by
  have hspells := string_spells (hex bytes)
  rwa [jsonEscape_hex] at hspells

theorem written_spells (column : Column) : Json.Spells column.written column.json := by
  cases column with
  | int n => exact Json.spells_int n
  | str s => exact string_spells s
  | blob bytes => exact hex_spells bytes
  | flag b => exact Json.spells_bool b
  | null => exact Json.spells_null
  | tally entries =>
    have hmembers : ∀ m ∈ entries.map fun entry => (⟨jsonEscape entry.1, entry.1, toString entry.2,
        .number entry.2.toNat 0⟩ : Json.Member), m.Spelled := by
      intro m hm
      obtain ⟨entry, -, rfl⟩ := List.mem_map.mp hm
      exact ⟨spells_jsonEscape entry.1, Json.spells_nat entry.2.toNat⟩
    have hspells := object_spells hmembers
    rw [List.map_map, List.map_map] at hspells
    exact hspells

/-- No name is there twice, and the names are written as they are. -/
structure Named (columns : LineColumns) : Prop where
  distinct : (columns.map Prod.fst).Nodup
  unescaped : ∀ column ∈ columns, jsonEscape column.1 = column.1

/-- A line is parsed as the object of its columns. -/
theorem columns_parse {columns : LineColumns} (h : Named columns) :
    Json.parse columns.line = some columns.json := by
  have hmembers : ∀ m ∈ columns.map fun column => (⟨column.1, column.1, column.2.written,
      column.2.json⟩ : Json.Member), m.Spelled := by
    intro m hm
    obtain ⟨column, hcolumn, rfl⟩ := List.mem_map.mp hm
    have hname := spells_jsonEscape column.1
    rw [h.unescaped column hcolumn] at hname
    exact ⟨hname, written_spells column.2⟩
  have hspells := object_spells hmembers
  rw [List.map_map, List.map_map] at hspells
  exact hspells.parse

/-- The names of the columns of all kinds of lines. -/
def columnNames : List String :=
  ["kind", "payload_len", "payload_hex", "queue", "partition_key", "job_id", "transaction_id",
    "worker_id", "lease_expires_at_ms", "attempt", "stream_id", "projection", "schema_version",
    "enqueue_sequence", "state", "max_attempts", "effect_mode", "not_before_ms", "retry_after_ms",
    "terminal_at_ms", "error_summary", "error_summary_len", "global_sequence", "event_id",
    "stream_version", "event_type", "occurred_at_ms", "transaction_sequence", "committed_at_ms",
    "operation_count", "transactions", "events", "streams", "projections", "projection_entries",
    "active_partitions", "file_size_bytes", "jobs_by_state", "format", "restorable",
    "payloads_included", "current_version", "version", "key_hex", "value_len", "value_hex",
    "first_active_sequence"]

theorem columnNames_lower : ∀ name ∈ columnNames,
    name.toList.all fun c => c.isLower || c == '_' := by
  decide +kernel

theorem escapeChar_lower {c : Char} (h : c.isLower = true ∨ c = '_') :
    (escapeChar c).toList = [c] := by
  unfold escapeChar
  split
  case h_6 =>
    have hcontrol : ¬ c.toNat < 0x20 := by
      rcases h with h | rfl
      · have hlow := UInt32.le_iff_toNat_le.mp (of_decide_eq_true (Bool.and_eq_true_iff.mp h).1)
        exact Nat.not_lt.mpr (Nat.le_trans (by decide) hlow)
      · decide
    rw [if_neg hcontrol, String.toList_singleton]
  all_goals exact absurd h (by decide)

theorem columnNames_unescaped {name : String} (h : name ∈ columnNames) : jsonEscape name = name :=
  jsonEscape_eq_self fun c hc =>
    escapeChar_lower (by simpa using List.all_eq_true.mp (columnNames_lower name h) c hc)

theorem Named.of_names {columns : LineColumns} (h : (columns.map Prod.fst).Nodup ∧
    columns.map Prod.fst ⊆ columnNames) : Named columns :=
  ⟨h.1, fun _ hcolumn => columnNames_unescaped (h.2 (List.mem_map_of_mem hcolumn))⟩

theorem header_named (stats : StoreStats) (includePayloads : Bool) :
    Named (headerColumns stats includePayloads) := by
  apply Named.of_names
  simp only [headerColumns, List.map_cons, List.map_nil]
  decide

theorem stats_named (stats : StoreStats) : Named (statsColumns stats) := by
  apply Named.of_names
  simp only [statsColumns, List.map_cons, List.map_nil]
  decide

theorem transaction_named (row : TransactionRow) : Named row.columns := by
  apply Named.of_names
  simp only [TransactionRow.columns, List.map_cons, List.map_nil]
  decide

theorem event_named (includePayloads : Bool) (row : EventRow) :
    Named (row.columns includePayloads) := by
  apply Named.of_names
  cases includePayloads
  all_goals
    simp only [EventRow.columns, payloadColumns, Bool.false_eq_true, if_true, if_false,
      List.map_append, List.map_cons, List.map_nil]
    decide

theorem stream_named (row : StreamRow) : Named row.columns := by
  apply Named.of_names
  simp only [StreamRow.columns, List.map_cons, List.map_nil]
  decide

theorem projection_named (row : ProjectionMetaRow) : Named row.columns := by
  apply Named.of_names
  simp only [ProjectionMetaRow.columns, List.map_cons, List.map_nil]
  decide

theorem entry_named (includePayloads : Bool) (row : ProjectionEntryRow) :
    Named (row.columns includePayloads) := by
  apply Named.of_names
  cases includePayloads
  all_goals
    simp only [ProjectionEntryRow.columns, Bool.false_eq_true, if_true, if_false, List.map_append,
      List.map_cons, List.map_nil]
    decide

theorem job_named (includePayloads : Bool) (job : JobRow) :
    Named (job.columns includePayloads) := by
  apply Named.of_names
  cases includePayloads
  all_goals
    simp only [JobRow.columns, payloadColumns, errorSummaryColumns, Bool.false_eq_true, if_true,
      if_false, List.map_append, List.map_cons, List.map_nil]
    decide

theorem partition_named (row : ActivePartitionRow) : Named row.columns := by
  apply Named.of_names
  simp only [ActivePartitionRow.columns, List.map_cons, List.map_nil]
  decide

theorem receipt_named (row : ClaimReceiptRow) : Named row.columns := by
  apply Named.of_names
  simp only [ClaimReceiptRow.columns, List.map_cons, List.map_nil]
  decide

theorem columnsOf_named {includePayloads : Bool} {db : Db} {columns : LineColumns}
    (h : columns ∈ columnsOf includePayloads db) : Named columns := by
  simp only [columnsOf, List.mem_append, List.mem_map] at h
  obtain (((((((⟨row, -, rfl⟩ | ⟨row, -, rfl⟩) | ⟨row, -, rfl⟩) | ⟨row, -, rfl⟩) | ⟨row, -, rfl⟩) |
    ⟨row, -, rfl⟩) | ⟨row, -, rfl⟩) | ⟨row, -, rfl⟩) := h
  exacts [transaction_named row, event_named _ row, stream_named row, projection_named row,
    entry_named _ row, job_named _ row, partition_named row, receipt_named row]

theorem mapM_readCount (entries : List (String × UInt64)) :
    (entries.map fun entry => (entry.1, Json.Value.number entry.2.toNat 0)).mapM readCount =
      some entries := by
  induction entries with
  | nil => rfl
  | cons entry entries ih =>
    rw [List.map_cons, List.mapM_cons, ih, readCount]
    simp

/-- A column comes back from its JSON. -/
theorem read_json {type : ColumnType} {column : Column} (h : column.hasType type = true) :
    type.read column.json = some column := by
  cases column with
  | null => cases type <;> rfl
  | int n => cases type <;> first | rfl | cases h
  | str s => cases type <;> first | rfl | cases h
  | flag b => cases type <;> first | rfl | cases h
  | blob bytes =>
    cases type with
    | blob =>
      change (unhex (hex bytes).toList).map Column.blob = _
      rw [unhex_hex]
      rfl
    | _ => cases h
  | tally entries =>
    cases type with
    | tally =>
      change (List.mapM readCount _).map Column.tally = _
      rw [mapM_readCount]
      rfl
    | _ => cases h

/-! ## 4. The export -/

/-- A loop ends, with rows of its table. -/
theorem loop_rows {ρ κ : Type} [LE κ] [LT κ] [DecidableLE κ] [DecidableLT κ]
    [Std.IsLinearOrder κ] [Std.LawfulOrderLT κ] (key : ρ → κ) (rows : List ρ) (last : κ) :
    ∃ found, found ⊆ rows ∧
      ∀ fuel, rows.length < fuel → pages key exportPageSize rows fuel last = some found := by
  obtain ⟨found, hfound⟩ := ExportLemmas.loop_total key rows last
  exact ⟨found, pages_subset (hfound _ (Nat.lt_succ_self _)), hfound⟩

/-- The export writes a line for each record that it reads. -/
theorem exportLines_columns (file : StoreFile) (includePayloads : Bool) (fuel : Nat) (db : Db) :
    exportLines file includePayloads fuel db =
      (exportColumns file includePayloads fuel db).map (List.map LineColumns.line) := by
  simp only [exportLines, exportColumns, exportTransactions, exportEvents, exportStreams,
    exportProjections, exportJobs, exportPartitions, exportClaimReceipts, Option.bind_eq_bind,
    Option.map_bind, Option.bind_map, Function.comp_def]
  iterate 5 refine Option.bind_congr fun _ _ => ?_
  simp only [Option.map_some, List.map_cons, List.map_append, List.map_map, Function.comp_def,
    ← header_line, ← stats_line, ← transaction_line, ← event_line,
    ← stream_line, ← projection_line, ← entry_line, ← job_line, ← partition_line, ← receipt_line]

/-- The export ends with what it read, rows of the store. -/
theorem exports_columns (file : StoreFile) (includePayloads : Bool) (db : Db) :
    ∃ rest, rest ⊆ columnsOf includePayloads db ∧ ∃ enough, ∀ fuel, enough ≤ fuel →
      exportColumns file includePayloads fuel db = some
        (headerColumns (stats file db) includePayloads ::
          statsColumns (stats file db) :: rest) := by
  obtain ⟨transactions, hts, ht⟩ := loop_rows TransactionRow.transactionSequence
    db.transactions.rows 0
  obtain ⟨events, hes, he⟩ := loop_rows EventRow.globalSequence db.events.rows 0
  obtain ⟨streams, hss, hs⟩ := loop_rows (fun row : StreamRow => utf8 row.streamId)
    db.streams.rows (utf8 "")
  obtain ⟨entries, hps, hp⟩ := loop_rows file.entryRowid db.projectionEntries.rows 0
  obtain ⟨jobs, hjs, hj⟩ := loop_rows JobRow.enqueueSequence db.jobs.rows 0
  apply Exists.intro
  refine ⟨?_, ExportLemmas.rowCount db + 1, fun fuel hfuel => ?_⟩
  rotate_left
  · unfold ExportLemmas.rowCount at hfuel
    unfold exportColumns
    rw [ht _ (by omega), he _ (by omega), hs _ (by omega), hp _ (by omega), hj _ (by omega)]
    rfl
  · have happend : ∀ {xs xs' ys ys' : List LineColumns}, xs ⊆ xs' → ys ⊆ ys' →
        xs ++ ys ⊆ xs' ++ ys' := fun h h' =>
      List.append_subset.mpr ⟨List.subset_append_of_subset_left _ h,
        List.subset_append_of_subset_right _ h'⟩
    unfold columnsOf
    rw [← List.append_assoc]
    refine happend (happend (happend (happend (happend (happend (happend ?_ ?_) ?_) ?_) ?_) ?_) ?_)
      ?_
    exacts [List.map_subset _ hts, List.map_subset _ hes, List.map_subset _ hss,
      List.map_subset _ fun _ => mem_ordered.mp, List.map_subset _ hps, List.map_subset _ hjs,
      List.map_subset _ fun _ => mem_ordered.mp, List.map_subset _ fun _ => mem_ordered.mp]

end JsonLemmas

open JsonLemmas

/-- Every line of the export is JSON, in any store and so in any state that can be
reached. The export returns its text, which is cut at the line feeds into a line for each
record that it reads: the header, the statistics and the rows. Each line is parsed as an
object that has the columns of the record, and from which they can be read. A string
comes back from its literal, which has no control character in it, and a blob from its
digits. -/
theorem export_faithful (file : StoreFile) (includePayloads : Bool) (db : Db) :
    (∃ text rest, Exports file includePayloads db text ∧
      (∃ enough, ∀ fuel, enough ≤ fuel → exportColumns file includePayloads fuel db = some
        (headerColumns (stats file db) includePayloads :: statsColumns (stats file db) :: rest)) ∧
      textLines text = (headerColumns (stats file db) includePayloads ::
        statsColumns (stats file db) :: rest).map LineColumns.line ∧
      (∀ columns ∈ rest, columns ∈ columnsOf includePayloads db) ∧
      ∀ columns ∈ headerColumns (stats file db) includePayloads ::
        statsColumns (stats file db) :: rest,
        Json.parse columns.line = some columns.json ∧ (columns.map Prod.fst).Nodup) ∧
    (∀ (type : ColumnType) (column : Column), column.hasType type = true →
      type.read column.json = some column) ∧
    (∀ s : String, Json.parse (quoted (jsonEscape s)) = some (.string s) ∧ Plain (jsonEscape s)) ∧
    ∀ bytes : Bytes, unhex (hex bytes).toList = some bytes := by
  refine ⟨?_, fun _ _ => read_json,
    fun s => ⟨(string_spells s).parse, ExportLemmas.plain_jsonEscape s⟩, unhex_hex⟩
  obtain ⟨rest, hrest, enough, hread⟩ := exports_columns file includePayloads db
  refine ⟨_, rest, ⟨enough, fun fuel hfuel => ?_⟩, ⟨enough, hread⟩, textLines_writeLines ?_,
    fun columns hcolumns => hrest hcolumns, ?_⟩
  · rw [diagnosticExport, exportLines_columns, hread fuel hfuel]
    rfl
  · rw [List.map_cons, List.map_cons, ← header_line, ← stats_line]
    simp only [List.forall_mem_cons]
    refine ⟨ExportLemmas.plain_header _, ExportLemmas.plain_stats _, fun line hline => ?_⟩
    obtain ⟨columns, hcolumns, rfl⟩ := List.mem_map.mp hline
    have hrecord : columns.line ∈ recordsOf includePayloads db := by
      rw [record_line]
      exact List.mem_map_of_mem (hrest hcolumns)
    exact plain_record hrecord
  · simp only [List.forall_mem_cons]
    have hall : ∀ {columns : LineColumns}, Named columns →
        Json.parse columns.line = some columns.json ∧ (columns.map Prod.fst).Nodup :=
      fun h => ⟨columns_parse h, h.distinct⟩
    exact ⟨hall (header_named _ _), hall (stats_named _),
      fun columns hcolumns => hall (columnsOf_named (hrest hcolumns))⟩

end Minisqlite
