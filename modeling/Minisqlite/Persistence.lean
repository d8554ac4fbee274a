import Minisqlite.Lib.Keyset
import Minisqlite.Lib.Sql.Encoded
import Minisqlite.References
import Minisqlite.Store.Tables
import Minisqlite.Upgrade

/-!
# The store in its file

The store of this development is a record of typed tables; the code keeps its rows in the
columns of a database that two migrations have defined, and reads them back with SQL.

1. Comparisons of stored values are comparisons of what was stored.
2. `holds`: the tables of the file, and the rows in them.
3. `reads_refine`: every read of the store, done by its SQL on the file, has the answer that
   it has on the typed tables.
4. `inserts_refine`, `tables_sound`: the constraints of the definitions are those of the
   typed tables, and every reachable state of the store meets them all.
5. `openings_keep_store`: opening a file of version 1 or 2 with these rows, or an empty one,
   over and over, each opening stopped anywhere.
-/

namespace Minisqlite.TableReads

open Sql Tables Runs Migrations Migrations.UpgradeLemmas Migrations.MigrationLemmas

/-! ## 1. Stored values -/

section Values

theorem textValue_inj {s t : String} : textValue s = textValue t ↔ s = t :=
  ⟨fun h => utf8_inj (Value.text.inj h), congrArg textValue⟩

theorem idValue_inj {a b : Id} : idValue a = idValue b ↔ a = b :=
  ⟨fun h => Id.bytes_inj (Value.blob.inj h), congrArg idValue⟩

theorem encodeState_inj {a b : JobState} : encodeState a = encodeState b ↔ a = b := by
  cases a <;> cases b <;> decide

theorem integer_inj {m n : Int64} : Value.integer m = .integer n ↔ m = n := by
  rw [Value.integer.injEq]

theorem blob_inj {a b : Bytes} : Value.blob a = .blob b ↔ a = b := by rw [Value.blob.injEq]

theorem same_text (s t : String) : (textValue s).same (textValue t) = decide (s = t) :=
  Value.same_eq textValue_inj rfl rfl

theorem same_id (a b : Id) : (idValue a).same (idValue b) = decide (a = b) :=
  Value.same_eq idValue_inj rfl rfl

theorem same_blob (a b : Bytes) : (Value.blob a).same (.blob b) = decide (a = b) :=
  Value.same_eq blob_inj rfl rfl

theorem getU32_u32Value (n : UInt32) : getU32 (u32Value n) = some n := by
  have hvalue := toInt_stored n
  have hlt := n.toNat_lt
  have hlow : (0 : Int64) ≤ n.toUInt64.toInt64 := by
    rw [Int64.le_iff_toInt_le, hvalue]
    exact Int.natCast_nonneg _
  have hhigh : n.toUInt64.toInt64 < (2 : Int64) ^ 32 := by
    rw [Int64.lt_iff_toInt_lt, hvalue, show ((2 : Int64) ^ 32).toInt = 2 ^ 32 by decide]
    omega
  rw [u32Value, getU32, if_pos ⟨hlow, hhigh⟩]
  simp

/-! Orders. -/

theorem ge_integer (m n : Int64) :
    Comparison.holds (.integer m) (.integer n) .ge = decide (n ≤ m) := by
  show (!decide (m < n)) = _
  rw [← decide_not, decide_eq_decide, Int64.not_lt]

theorem ge_blob (b c : Bytes) : Comparison.holds (.blob b) (.blob c) .ge = decide (c ≤ b) := by
  show (!decide (b < c)) = _
  rw [← decide_not, decide_eq_decide, List.not_lt]

theorem before_integer (m n : Int64) :
    Direction.ascending.before (.integer m) (.integer n) ↔ m ≤ n := by
  show decide (n < m) = false ↔ _
  rw [decide_eq_false_iff_not, Int64.not_lt]

theorem before_integer_descending (m n : Int64) :
    Direction.descending.before (.integer m) (.integer n) ↔ n ≤ m := before_integer n m

theorem before_text (s t : String) :
    Direction.ascending.before (textValue s) (textValue t) ↔ utf8 s ≤ utf8 t := by
  show decide (utf8 t < utf8 s) = false ↔ _
  rw [decide_eq_false_iff_not, List.not_lt]

theorem before_blob (b c : Bytes) : Direction.ascending.before (.blob b) (.blob c) ↔ b ≤ c := by
  show decide (c < b) = false ↔ _
  rw [decide_eq_false_iff_not, List.not_lt]

variable {row : String → Value} {name : String}

theorem eval_text {s t : String} (h : row name = textValue s) :
    (columnIs name (ofString t)).eval row = some (decide (s = t)) :=
  Condition.eval_eq h rfl textValue_inj rfl rfl rfl

theorem eval_id {a b : Id} (h : row name = idValue a) :
    (columnIs name (ofId b)).eval row = some (decide (a = b)) :=
  Condition.eval_eq h rfl idValue_inj rfl rfl rfl

theorem eval_bytes {a b : Bytes} (h : row name = .blob a) :
    (columnIs name (ofBytes b)).eval row = some (decide (a = b)) :=
  Condition.eval_eq h rfl blob_inj rfl rfl rfl

theorem eval_state {a b : JobState} (h : row name = .integer (encodeState a)) :
    (columnIs name (ofI64 (encodeState b))).eval row = some (decide (a = b)) :=
  Condition.eval_eq h rfl (integer_inj.trans encodeState_inj) rfl rfl rfl

/-- A comparison of a column that is there with a parameter. -/
theorem eval_bound {v w : Value} (op : Comparison) (h : row name = v) (hv : v.isNull = false)
    (hw : w.isNull = false) :
    Condition.eval row (.compare op (.column name) (.value w)) = some (op.holds v w) := by
  subst h
  exact Condition.eval_compare (v := .column name) (w := .value w) hv hw

/-- A filter that is not there lets everything pass. -/
theorem eval_filterBy {α : Type} {value : α → Term} {is : α → Bool}
    (hvalue : ∀ a, (value a).eval row ≠ .null)
    (his : ∀ a, (columnIs name (value a)).eval row = some (is a)) (x : Option α) :
    (filterBy name (x.map value)).eval row = some (x.all is) := by
  cases x with
  | none =>
    show Condition.eval row
      (.or (.isNull (.value .null)) (columnIs name (.value .null))) = some true
    rw [Condition.eval, Condition.eval_isNull]
    rfl
  | some a =>
    have hnull : Condition.eval row (.isNull (value a)) = some false := by
      rw [Condition.eval_isNull, isNull_eq_false.mpr (hvalue a)]
    exact Condition.eval_or hnull (his a)

end Values

/-! ## 2. Queries -/

section Queries

variable {ρ α : Type} {file : Sql.Database} {source : Source} {columns names : List String}
  {encode : ρ → Row} {records : List ρ} {condition : Option Condition} {limit : Option Int64}
  {p : ρ → Bool} {f : Row → Except Error α} {g : ρ → α}

theorem bind_of_ok {β : Type} {x : Except Error α} {a : α} (h : x = .ok a)
    {next : α → Except Error β} : x >>= next = next a := by rw [h]; rfl

/-- Rows that can all be read. -/
theorem mapM_rows {read : ρ → Row} (hread : ∀ r ∈ records, f (read r) = .ok (g r)) :
    (records.map read).mapM f = .ok (records.map g) := by
  induction records with
  | nil => rfl
  | cons r records ih =>
    rw [List.map_cons, List.mapM_cons, hread r List.mem_cons_self,
      ih fun r hr => hread r (List.mem_cons_of_mem _ hr)]
    rfl

/-- All rows that are selected. -/
theorem query_all (h : file.source source = .ok ⟨columns, records.map encode⟩)
    (hp : ∀ r ∈ records, condition.all (Condition.selects (valueOf columns (encode r))) = p r) :
    query file { names, source, condition, limit } =
      .ok ((cut limit (records.filter p)).map fun r => names.map (valueOf columns (encode r))) := by
  rw [query, select_plain h hp]
  rfl

/-- `query_row` reads the record that is found first; a record that is read without an error is
one that the row decodes to. -/
theorem queryRow_ok (h : file.source source = .ok ⟨columns, records.map encode⟩)
    (hp : ∀ r ∈ records, condition.all (Condition.selects (valueOf columns (encode r))) = p r)
    (hread : ∀ r ∈ records, f (names.map (valueOf columns (encode r))) = .ok (g r)) :
    queryRow file { names, source, condition } f = .ok ((records.find? p).map g) := by
  rw [queryRow, query_all h hp, ← List.head?_filter]
  show (List.head? (List.map _ (records.filter p))).mapM f = _
  cases hfilter : records.filter p with
  | nil => rfl
  | cons r rest =>
    show some <$> f _ = _
    rw [hread r (List.mem_of_mem_filter (hfilter ▸ List.mem_cons_self))]
    rfl

section Ordered

variable {column : String} {direction : Direction} {before : ρ → ρ → Prop} [DecidableRel before]

/-- All that are selected, in their order. -/
theorem query_rows (h : file.source source = .ok ⟨columns, records.map encode⟩)
    (hp : ∀ r ∈ records, condition.all (Condition.selects (valueOf columns (encode r))) = p r)
    (hbefore : ∀ a b, direction.before (valueOf columns (encode a) column)
      (valueOf columns (encode b) column) ↔ before a b) :
    query file { names, source, condition, order := some (column, direction), limit } =
      .ok ((cut limit ((records.filter p).insertionSort before)).map fun r =>
        names.map (valueOf columns (encode r))) := by
  rw [query, select_ordered h hp hbefore]
  rfl

theorem query_ok (h : file.source source = .ok ⟨columns, records.map encode⟩)
    (hp : ∀ r ∈ records, condition.all (Condition.selects (valueOf columns (encode r))) = p r)
    (hbefore : ∀ a b, direction.before (valueOf columns (encode a) column)
      (valueOf columns (encode b) column) ↔ before a b)
    (hread : ∀ r, f (names.map (valueOf columns (encode r))) = .ok (g r)) :
    (query file { names, source, condition, order := some (column, direction), limit } >>=
        fun rows => rows.mapM f) =
      .ok ((cut limit ((records.filter p).insertionSort before)).map g) := by
  rw [query_rows h hp hbefore]
  exact mapM_rows fun r _ => hread r

end Ordered

end Queries

/-! ## 3. Reads -/

section Reads

variable (db : Db)

theorem transactions_holds : (tables db).Holds "transactions" transactionsTable storedTransaction
    db.transactions.rows := ⟨rfl, rfl⟩

theorem events_holds : (tables db).Holds "events" eventsTable storedEvent db.events.rows :=
  ⟨rfl, rfl⟩

theorem streams_holds : (tables db).Holds "streams" streamsTable storedStream db.streams.rows :=
  ⟨rfl, rfl⟩

theorem projectionMeta_holds : (tables db).Holds "projection_meta" projectionMetaTable
    storedProjectionMeta db.projectionMeta.rows := ⟨rfl, rfl⟩

theorem projectionEntries_holds : (tables db).Holds "projection_entries" projectionEntriesTable
    storedProjectionEntry db.projectionEntries.rows := ⟨rfl, rfl⟩

theorem jobs_holds : (tables db).Holds "jobs" jobsV2Table storedJob db.jobs.rows := ⟨rfl, rfl⟩

theorem claimReceipts_holds : (tables db).Holds "claim_receipts" claimReceiptsTable
    storedClaimReceipt db.claimReceipts.rows := ⟨rfl, rfl⟩

/-! Jobs. -/

theorem getJob_tables [ColumnErrors] (jobId : Id) :
    getJob (tables db) jobId = .ok (Minisqlite.getJob db jobId) := by
  refine (queryRow_ok (jobs_holds db).source (fun job _ => ?_) fun job _ =>
    rowToJob_storedJob job).trans rfl
  exact Condition.selects_eq (eval_id rfl)

/-! The filters of a list of jobs. -/

theorem eval_queue (queue : Option String) (job : JobRow) :
    Condition.eval (jobsV2Table.value (storedJob job)) (filterBy "queue" (queue.map ofString)) =
      some (queue.all fun queue => decide (job.spec.queue = queue)) := by
  have hqueue : jobsV2Table.value (storedJob job) "queue" = textValue job.spec.queue := rfl
  exact eval_filterBy (fun _ => Value.noConfusion) (fun _ => eval_text hqueue) queue

theorem eval_stateIs (state : Option JobState) (job : JobRow) :
    Condition.eval (jobsV2Table.value (storedJob job))
        (filterBy "state" (state.map fun state => ofI64 (encodeState state))) =
      some (state.all fun state => decide (job.state = state)) := by
  have hstate : jobsV2Table.value (storedJob job) "state" = .integer (encodeState job.state) := rfl
  exact eval_filterBy (fun _ => Value.noConfusion) (fun _ => eval_state hstate) state

theorem listJobs_tables [ColumnErrors] (queue : Option String) (state : Option JobState)
    (limit : UInt64) :
    listJobs (tables db) queue state limit = .ok (Minisqlite.listJobs db queue state limit) := by
  rw [listJobs]
  exact query_ok (jobs_holds db).source
    (fun job _ => Condition.selects_eq
      (Condition.eval_and (eval_queue queue job) (eval_stateIs state job)))
    (fun a b => before_integer a.enqueueSequence b.enqueueSequence) rowToJob_storedJob

/-- The page that the rows make, and the cursor behind it. -/
theorem foldlM_page {step : List JobInfo × UInt64 → Row → Except Error (List JobInfo × UInt64)}
    {read : JobRow → Row}
    (hstep : ∀ page job, step page (read job) =
      .ok (page.1 ++ [job.info], job.enqueueSequence.toUInt64))
    (rows : List JobRow) (page : List JobInfo × UInt64) :
    (rows.map read).foldlM step page = .ok (page.1 ++ rows.map JobRow.info,
      (rows.getLast?.map fun job => job.enqueueSequence.toUInt64).getD page.2) := by
  induction rows generalizing page with
  | nil => simp [pure, Except.pure]
  | cons job rows ih =>
    rw [List.map_cons, List.foldlM_cons, hstep, ok_bind, ih, List.getLast?_cons]
    cases rows.getLast? <;> simp

theorem listJobsPage_tables [ColumnErrors] (queue : Option String) (state : Option JobState)
    (afterSequence limit : UInt64) :
    listJobsPage (tables db) queue state afterSequence limit =
      Minisqlite.listJobsPage db queue state afterSequence limit := by
  unfold listJobsPage Minisqlite.listJobsPage
  cases hafter : tryFromI64 afterSequence with
  | none => rfl
  | some after =>
  unfold tryFromI64
  by_cases hlimit : limit.toNat < 2 ^ 63
  · rw [if_pos hlimit]
    simp only [Option.elim_some, ok_bind]
    have hp : ∀ job ∈ db.jobs.rows, Condition.selects (jobsV2Table.value (storedJob job))
        (.and (.and (.compare .gt (.column "enqueue_sequence") (ofI64 after))
          (filterBy "queue" (queue.map ofString)))
          (filterBy "state" (state.map fun state => ofI64 (encodeState state)))) =
        (decide (after < job.enqueueSequence) && job.listed queue state) := fun job _ => by
      have hsequence : jobsV2Table.value (storedJob job) "enqueue_sequence" =
        .integer job.enqueueSequence := rfl
      rw [JobRow.listed, ← Bool.and_assoc]
      exact Condition.selects_eq (Condition.eval_and
        (Condition.eval_and (eval_bound .gt hsequence rfl rfl) (eval_queue queue job))
        (eval_stateIs state job))
    refine Eq.trans (bind_of_ok (by
      exact query_rows (jobs_holds db).source hp
        fun a b => before_integer a.enqueueSequence b.enqueueSequence)) ?_
    refine Eq.trans (foldlM_page (fun page job => ?_) _ ([], afterSequence)) rfl
    refine Eq.trans (bind_of_ok (a := job.enqueueSequence) rfl) ?_
    exact Eq.trans (bind_of_ok (rowToJob_storedJob job)) rfl
  · rw [if_neg hlimit]
    rfl

/-! Events. -/

/-- An event that was written is read back as it was. -/
theorem rowToPersistedEvent_storedEvent [ColumnErrors] (row : EventRow) :
    rowToPersistedEvent (eventColumns.map (eventsTable.value (storedEvent row))) =
      .ok row.persisted := by
  have hrow : eventColumns.map (eventsTable.value (storedEvent row)) = storedEvent row := rfl
  have hid : ∀ x : Option Id, getOption getVec (ofOption idValue x) = some (x.map Id.bytes) :=
    getOption_ofId
  rw [hrow]
  simp only [storedEvent, rowToPersistedEvent, Row.get, List.getD_cons_zero, List.getD_cons_succ,
    ok_bind, getI64, getVec, idValue, getU32_u32Value, textValue, getString_text, hid,
    idFromBlob_bytes, mapM_idFromBlob, Option.elim_some]
  rfl

theorem getEvent_tables [ColumnErrors] (eventId : Id) :
    getEvent (tables db) eventId = .ok (Minisqlite.getEvent db eventId) := by
  rw [getEvent]
  refine (queryRow_ok (events_holds db).source (fun row _ => ?_)
    fun row _ => rowToPersistedEvent_storedEvent row).trans rfl
  have hid : eventsTable.value (storedEvent row) "event_id" = idValue row.event.eventId := rfl
  exact Condition.selects_eq (eval_id hid)

/-- Reads of events by a sequence number, from one on. -/
theorem eventsAfter_tables [ColumnErrors] (after limit : UInt64) :
    eventsAfter (tables db) after limit = .ok (Minisqlite.eventsAfter db after limit) := by
  rw [eventsAfter]
  exact query_ok (events_holds db).source
    (fun row _ => Condition.selects_eq (eval_bound .gt
      (v := .integer row.globalSequence) (w := .integer after.toInt64) rfl rfl rfl))
    (fun a b => before_integer a.globalSequence b.globalSequence) rowToPersistedEvent_storedEvent

theorem streamEvents_tables [ColumnErrors] (streamId : String) (fromVersion limit : UInt64) :
    streamEvents (tables db) streamId fromVersion limit =
      .ok (Minisqlite.streamEvents db streamId fromVersion limit) := by
  rw [streamEvents]
  refine query_ok (events_holds db).source (fun row _ => ?_)
    (fun a b => before_integer a.streamVersion b.streamVersion) rowToPersistedEvent_storedEvent
  have hstream : eventsTable.value (storedEvent row) "stream_id" = textValue row.event.streamId :=
    rfl
  have hversion : eventsTable.value (storedEvent row) "stream_version" =
    .integer row.streamVersion := rfl
  refine (Condition.selects_eq (Condition.eval_and (eval_text hstream)
    (eval_bound .ge hversion rfl rfl))).trans ?_
  rw [ge_integer]

theorem lastEvents_tables [ColumnErrors] (limit : UInt64) :
    lastEvents (tables db) limit = .ok (Minisqlite.lastEvents db limit) := by
  rw [lastEvents, Minisqlite.lastEvents]
  refine Eq.trans (bind_of_ok (by
    exact query_rows (p := fun _ => true) (events_holds db).source (fun _ _ => rfl)
      fun a b => before_integer_descending a.globalSequence b.globalSequence)) ?_
  refine Eq.trans (bind_of_ok (mapM_rows fun row _ => rowToPersistedEvent_storedEvent row)) ?_
  rw [List.filter_true]
  rfl

/-! Recovery. -/

theorem recoverTransaction_tables [ColumnErrors] (transactionId : Id) :
    recoverTransaction (tables db) transactionId =
      .ok (Minisqlite.recoverTransaction db transactionId) := by
  have hid : ∀ row, transactionsTable.value (storedTransaction row) "transaction_id" =
    idValue row.transactionId := fun _ => rfl
  rw [recoverTransaction, Minisqlite.recoverTransaction]
  refine Eq.trans (bind_of_ok (by
    exact queryRow_ok (transactions_holds db).source
      (fun row _ => Condition.selects_eq (eval_id (hid row)))
      (g := fun row => (row.transactionSequence, row.committedAtMs)) fun _ _ => rfl)) ?_
  have hfind : db.transactions.rows.find? (fun row => decide (row.transactionId = transactionId)) =
    db.transaction transactionId := rfl
  rw [hfind]
  cases hrow : db.transaction transactionId with
  | none => rfl
  | some row =>
    rw [← Table.lookup_key hrow]
    rfl

/-! The join of `recover_claim`. -/

/-- The columns of the join. -/
def joinColumns : List String :=
  claimReceiptsTable.names.map (fun column => "r" ++ "." ++ column) ++
    jobsV2Table.names.map fun column => "j" ++ "." ++ column

/-- Receipts with their jobs, in the columns that the loop reads. -/
def joined (row : ClaimReceiptRow × JobRow) : Row :=
  [idValue row.1.jobId, idValue row.1.leaseToken, u32Value row.1.attempt,
    textValue row.1.workerId, .integer row.1.leaseExpiresAtMs, textValue row.2.spec.queue,
    textValue row.2.spec.partitionKey, .blob row.2.spec.payload,
    ofOption textValue row.2.spec.idempotencyKey, .integer (encodeState row.2.state),
    ofOption idValue row.2.leaseToken, ofOption .integer row.2.leaseExpiresAtMs]

theorem eval_join (row : ClaimReceiptRow × JobRow) (transactionId : Id) :
    Condition.eval (valueOf joinColumns (storedClaimReceipt row.1 ++ storedJob row.2))
      (.and (columnIs "j.job_id" (.column "r.job_id"))
        (columnIs "r.transaction_id" (ofId transactionId))) =
      some (decide (row.2.spec.jobId = row.1.jobId) &&
        decide (row.1.transactionId = transactionId)) := by
  have hjob : valueOf joinColumns (storedClaimReceipt row.1 ++ storedJob row.2) "j.job_id" =
    idValue row.2.spec.jobId := rfl
  have hreceipt : valueOf joinColumns (storedClaimReceipt row.1 ++ storedJob row.2) "r.job_id" =
    idValue row.1.jobId := rfl
  have htransaction : valueOf joinColumns (storedClaimReceipt row.1 ++ storedJob row.2)
    "r.transaction_id" = idValue row.1.transactionId := rfl
  exact Condition.eval_and (Condition.eval_eq hjob hreceipt idValue_inj rfl rfl rfl)
    (eval_id htransaction)

theorem filter_job (jobId : Id) :
    (db.jobs.rows.filter fun job => decide (job.spec.jobId = jobId)) = (db.job jobId).toList := by
  cases hjob : db.job jobId with
  | none =>
    have hnone := Table.lookup_eq_none.mp hjob
    exact List.filter_eq_nil_iff.mpr fun job hmem => by simp [hnone job hmem]
  | some job =>
    rw [← Table.lookup_key hjob]
    exact Table.filter_key (Table.nodup_keys jobs_unique db.jobs) (Table.lookup_mem hjob)

/-- The pairs that the join selects, in the order of the receipts. -/
theorem filter_join (transactionId : Id) (receipts : List ClaimReceiptRow) :
    (receipts.flatMap fun receipt => db.jobs.rows.map fun job => (receipt, job)).filter
        (fun row => decide (row.2.spec.jobId = row.1.jobId) &&
          decide (row.1.transactionId = transactionId)) =
      (receipts.filter fun receipt => decide (receipt.transactionId = transactionId)).filterMap
        fun receipt => (db.job receipt.jobId).map fun job => (receipt, job) := by
  induction receipts with
  | nil => rfl
  | cons receipt receipts ih =>
    rw [List.flatMap_cons, List.filter_append, ih, List.filter_map, List.filter_cons]
    by_cases hid : receipt.transactionId = transactionId
    · have hpairs : ((fun row : ClaimReceiptRow × JobRow =>
          decide (row.2.spec.jobId = row.1.jobId) &&
            decide (row.1.transactionId = transactionId)) ∘ fun job => (receipt, job)) =
          fun job => decide (job.spec.jobId = receipt.jobId) := by
        funext job
        simp [hid]
      rw [hpairs, filter_job, if_pos (decide_eq_true hid), List.filterMap_cons]
      cases db.job receipt.jobId <;> rfl
    · have hpairs : ((fun row : ClaimReceiptRow × JobRow =>
          decide (row.2.spec.jobId = row.1.jobId) &&
            decide (row.1.transactionId = transactionId)) ∘ fun job => (receipt, job)) =
          fun _ => false := by
        funext job
        simp [hid]
      rw [hpairs, if_neg (by simpa using hid), List.filter_false]
      rfl

/-- The rows of the join, in their order. -/
theorem ordered_join (transactionId : Id) :
    ((db.claimReceipts.rows.flatMap fun receipt =>
          db.jobs.rows.map fun job => (receipt, job)).filter fun row =>
        decide (row.2.spec.jobId = row.1.jobId) &&
          decide (row.1.transactionId = transactionId)).insertionSort
        (fun a b => a.1.jobId.bytes ≤ b.1.jobId.bytes) = receiptsOf db transactionId := by
  let key : ClaimReceiptRow × JobRow → Bytes := fun row => row.1.jobId.bytes
  let pair : ClaimReceiptRow → Option (ClaimReceiptRow × JobRow) := fun receipt =>
    (db.job receipt.jobId).map fun job => (receipt, job)
  have hpair : ∀ receipt row, pair receipt = some row → row.1 = receipt := fun receipt row h => by
    obtain ⟨job, -, rfl⟩ := Option.map_eq_some_iff.mp h
    rfl
  -- A transaction has one receipt for a job.
  have hstrict : (Keyset.ordered (fun receipt : ClaimReceiptRow => receipt.jobId.bytes)
      (db.claimReceipts.rows.filter fun receipt =>
        decide (receipt.transactionId = transactionId))).Pairwise
      fun a b => a.jobId.bytes < b.jobId.bytes := by
    refine Keyset.ordered_strict (List.pairwise_map.mpr ?_)
    have hkeys := List.pairwise_map.mp
      (Table.nodup_keys (Schema.keyed_unique _) db.claimReceipts)
    refine (hkeys.filter _).imp_of_mem fun {a b} ha hb hne hbytes => hne (Prod.ext ?_ ?_)
    · have hida : a.transactionId = transactionId := by simpa using List.of_mem_filter ha
      have hidb : b.transactionId = transactionId := by simpa using List.of_mem_filter hb
      exact hida.trans hidb.symm
    · exact Id.bytes_inj hbytes
  have hsorted : (receiptsOf db transactionId).Pairwise fun a b => key a < key b := by
    rw [receiptsOf, List.pairwise_filterMap]
    refine hstrict.imp fun {a b} hab row hrow row' hrow' => ?_
    obtain rfl := hpair a row hrow
    obtain rfl := hpair b row' hrow'
    exact hab
  have hperm : (receiptsOf db transactionId).Perm
      ((db.claimReceipts.rows.filter fun receipt =>
        decide (receipt.transactionId = transactionId)).filterMap pair) :=
    (List.perm_insertionSort _ _).filterMap pair
  rw [filter_join]
  show Keyset.ordered key _ = _
  refine Keyset.eq_of_strict (Keyset.ordered_strict ?_) hsorted
    ((Keyset.ordered_perm _ _).trans hperm.symm)
  refine (hperm.map key).nodup_iff.mp ?_
  exact List.pairwise_map.mpr (hsorted.imp fun hlt heq => absurd (heq ▸ hlt) (Std.lt_irrefl))

/-- A pass of the loop puts the job where its lease says. -/
theorem recoverReceipt_joined [ColumnErrors] (nowMs : Int64) (recovered : Recovered)
    (row : ClaimReceiptRow × JobRow) :
    recoverReceipt nowMs recovered (joined row) =
      .ok (if stillCurrent nowMs row.1 row.2 then
          { recovered with jobs := recovered.jobs ++ [row.1.claimed row.2] }
        else { recovered with staleJobs := recovered.staleJobs ++ [row.1.jobId] }) := by
  have htext : getOption getString (ofOption textValue row.2.spec.idempotencyKey) =
      some row.2.spec.idempotencyKey :=
    getOption_ofOption getString_text (fun _ => Value.noConfusion) _
  have hint : ∀ x : Option Int64, getOption getI64 (ofOption .integer x) = some x :=
    getOption_ofOption (fun _ => rfl) fun _ => Value.noConfusion
  have htoken : getOption getVec (ofOption idValue row.2.leaseToken) =
      some (row.2.leaseToken.map Id.bytes) := getOption_ofId _
  simp only [joined, recoverReceipt, Row.get, List.getD_cons_zero, List.getD_cons_succ, ok_bind,
    getVec, getI64, htoken, hint, htext, idValue, u32Value, textValue, getString_text,
    Option.elim_some, idFromBlob_bytes, mapM_idFromBlob, toUInt32_toInt64, encodeState_inj]
  have hcurrent : stillCurrent nowMs row.1 row.2 = (decide (row.2.state = .leased) &&
      (decide (row.2.leaseToken = some row.1.leaseToken) &&
        row.2.leaseExpiresAtMs.any fun expiry => decide (nowMs ≤ expiry))) := Bool.and_assoc _ _ _
  rw [hcurrent]
  by_cases hleased : row.2.state = .leased
  · rw [if_pos hleased, decide_eq_true hleased, Bool.true_and, apply_ite Except.ok]
    rfl
  · rw [if_neg hleased, decide_eq_false hleased, Bool.false_and]
    rfl

/-- The loop sorts the receipts into those that are current and the others. -/
theorem foldlM_recovered [ColumnErrors] (nowMs : Int64) (rows : List (ClaimReceiptRow × JobRow))
    (recovered : Recovered) :
    (rows.map joined).foldlM (recoverReceipt nowMs) recovered =
      .ok ⟨recovered.jobs ++ (rows.filter fun row => stillCurrent nowMs row.1 row.2).map
          fun row => row.1.claimed row.2,
        recovered.staleJobs ++ (rows.filter fun row => !stillCurrent nowMs row.1 row.2).map
          fun row => row.1.jobId⟩ := by
  induction rows generalizing recovered with
  | nil => simp [pure, Except.pure]
  | cons row rows ih =>
    rw [List.map_cons, List.foldlM_cons, recoverReceipt_joined, ok_bind, ih]
    cases hcurrent : stillCurrent nowMs row.1 row.2 <;> simp [hcurrent]

theorem recoverClaim_tables [ColumnErrors] (transactionId : Id) (nowMs : Int64) :
    recoverClaim (tables db) transactionId nowMs =
      .ok (Minisqlite.recoverClaim db transactionId nowMs) := by
  have hbefore : ∀ a b : ClaimReceiptRow × JobRow, Direction.ascending.before
      (valueOf joinColumns (storedClaimReceipt a.1 ++ storedJob a.2) "r.job_id")
      (valueOf joinColumns (storedClaimReceipt b.1 ++ storedJob b.2) "r.job_id") ↔
        a.1.jobId.bytes ≤ b.1.jobId.bytes := fun a b => before_blob _ _
  have hid : ∀ row, transactionsTable.value (storedTransaction row) "transaction_id" =
    idValue row.transactionId := fun _ => rfl
  rw [recoverClaim, Minisqlite.recoverClaim]
  refine Eq.trans (bind_of_ok (by
    exact query_rows ((claimReceipts_holds db).join (jobs_holds db))
      (fun row _ => Condition.selects_eq (eval_join row transactionId)) hbefore)) ?_
  rw [cut, ordered_join]
  refine Eq.trans (bind_of_ok (foldlM_recovered nowMs (receiptsOf db transactionId) ⟨[], []⟩)) ?_
  by_cases hrows : receiptsOf db transactionId = []
  · rw [if_neg (by simp [hrows]), if_pos hrows]
    refine Eq.trans (bind_of_ok (by
      exact queryRow_ok (transactions_holds db).source
        (fun row _ => Condition.selects_eq (eval_id (hid row)))
        (g := fun _ => ()) fun _ _ => rfl)) ?_
    have hfind : db.transactions.rows.find? (fun row =>
      decide (row.transactionId = transactionId)) = db.transaction transactionId := rfl
    rw [hfind]
    cases db.transaction transactionId <;> rfl
  · rw [if_pos (by simpa using hrows), if_neg hrows]
    rfl

/-! Versions and projections. -/

theorem streamVersion_tables [ColumnErrors] (streamId : String) :
    streamVersion (tables db) streamId = .ok (db.streamVersion streamId) := by
  have hstream : ∀ row, streamsTable.value (storedStream row) "stream_id" =
    textValue row.streamId := fun _ => rfl
  rw [streamVersion, versionIn]
  refine Eq.trans (bind_of_ok (by
    exact queryRow_ok (streams_holds db).source
      (fun row _ => Condition.selects_eq (eval_text (hstream row)))
      (g := StreamRow.currentVersion) fun _ _ => rfl)) rfl

theorem projectionVersion_tables [ColumnErrors] (projection : String) :
    projectionVersion (tables db) projection = .ok (db.projectionVersion projection) := by
  have hprojection : ∀ row, projectionMetaTable.value (storedProjectionMeta row) "projection" =
    textValue row.projection := fun _ => rfl
  rw [projectionVersion, versionIn]
  refine Eq.trans (bind_of_ok (by
    exact queryRow_ok (projectionMeta_holds db).source
      (fun row _ => Condition.selects_eq (eval_text (hprojection row)))
      (g := ProjectionMetaRow.version) fun _ _ => rfl)) rfl

/-! The columns of an entry. -/

theorem entry_projection (row : ProjectionEntryRow) :
    projectionEntriesTable.value (storedProjectionEntry row) "projection" =
      textValue row.projection := rfl

theorem entry_key (row : ProjectionEntryRow) :
    projectionEntriesTable.value (storedProjectionEntry row) "key" = .blob row.key := rfl

theorem projectionGet_tables [ColumnErrors] (projection : String) (key : Bytes) :
    projectionGet (tables db) projection key =
      .ok (Minisqlite.projectionGet db projection key) := by
  rw [projectionGet]
  have hp : (fun row : ProjectionEntryRow =>
      decide (row.projection = projection) && decide (row.key = key)) =
      fun row => decide ((row.projection, row.key) = (projection, key)) := by
    funext row
    rw [← Bool.decide_and, decide_eq_decide, Prod.mk.injEq]
  rw [Minisqlite.projectionGet, Db.entry, Table.lookup, ← hp]
  exact queryRow_ok (projectionEntries_holds db).source
    (fun row _ => Condition.selects_eq
      (Condition.eval_and (eval_text (entry_projection row)) (eval_bytes (entry_key row))))
    fun _ _ => rfl

/-- A bound that is given is one more condition. -/
theorem eval_bounded {row : String → Value} {op : Comparison} {condition : Condition} {p : Bool}
    {key : Bytes} (hkey : row "key" = .blob key) (h : condition.eval row = some p)
    (bound : Option Bytes) :
    (bounded op bound condition).eval row =
      some (p && bound.all fun bound => op.holds (.blob key) (.blob bound)) := by
  cases bound with
  | none => simpa [bounded] using h
  | some bound => exact Condition.eval_and h (eval_bound op hkey rfl rfl)

theorem scan_tables [ColumnErrors] (projection : String) (start stop after : Option Bytes)
    (limit : UInt64) :
    scan (tables db) projection start stop after limit =
      .ok (Minisqlite.scan db projection start stop after limit) := by
  rw [scan]
  refine query_ok (projectionEntries_holds db).source (fun row _ => ?_)
    (fun a b => before_blob a.key b.key) (g := ProjectionEntryRow.entry) fun _ => rfl
  have hkey := entry_key row
  refine (Condition.selects_eq (eval_bounded hkey (eval_bounded hkey (eval_bounded hkey
    (eval_text (entry_projection row)) start) stop) after)).trans ?_
  simp only [ge_blob]
  rfl

theorem projectionsList_tables [ColumnErrors] :
    projectionsList (tables db) = .ok (Minisqlite.projectionsList db) := by
  rw [projectionsList, Minisqlite.projectionsList]
  refine Eq.trans (bind_of_ok (by
    exact query_rows (p := fun _ => true) (projectionMeta_holds db).source (fun _ _ => rfl)
      fun a b => before_text a.projection b.projection)) ?_
  rw [List.filter_true]
  refine mapM_rows fun row _ => ?_
  exact Eq.trans (bind_of_ok (get_ok (getString_text row.projection))) rfl

theorem projectionEntryCount_tables (projection : String) :
    projectionEntryCount (tables db) projection =
      .ok (Minisqlite.projectionEntryCount db projection) := by
  rw [projectionEntryCount]
  refine Eq.trans (bind_of_ok (by
    exact query_all (projectionEntries_holds db).source fun row _ =>
      Condition.selects_eq (eval_text (entry_projection row)))) ?_
  rw [List.length_map]
  rfl

end Reads

/-- Every read does with its SQL, on the tables of the file, what it does on the typed ones.
No row of them makes it fail. -/
theorem reads_refine [ColumnErrors] (db : Db) (read : DataRead) :
    read.answer (tables db) = db.read read := by
  cases read with
  | job jobId => exact getJob_tables db jobId
  | jobs queue state limit => exact listJobs_tables db queue state limit
  | jobsPage queue state afterSequence limit =>
    exact listJobsPage_tables db queue state afterSequence limit
  | recoverTransaction transactionId => exact recoverTransaction_tables db transactionId
  | recoverClaim transactionId nowMs => exact recoverClaim_tables db transactionId nowMs
  | eventsAfter after limit => exact eventsAfter_tables db after limit
  | streamEvents streamId fromVersion limit =>
    exact streamEvents_tables db streamId fromVersion limit
  | lastEvents limit => exact lastEvents_tables db limit
  | getEvent eventId => exact getEvent_tables db eventId
  | streamVersion streamId => exact streamVersion_tables db streamId
  | projectionVersion projection => exact projectionVersion_tables db projection
  | projectionGet projection key => exact projectionGet_tables db projection key
  | projectionScanPrefix | projectionScanPrefixPage | projectionScanRange =>
    exact scan_tables db _ _ _ _ _
  | projectionsList => exact projectionsList_tables db
  | projectionEntryCount projection => exact projectionEntryCount_tables db projection

/-! ## 4. Constraints -/

section Encodings

theorem fits_ofOption {α : Type} {value : α → Value} {affinity : Affinity}
    (h : ∀ a, affinity.fits (value a) = true) (x : Option α) :
    affinity.fits (ofOption value x) = true := by
  cases x with
  | none => cases affinity <;> rfl
  | some a => exact h a

theorem transactions_encoding :
    Encoding transactionsSchema transactionsTable storedTransaction where
  fits row := by
    repeat' first | exact List.Forall₂.nil | apply List.Forall₂.cons
    all_goals first | rfl | exact fits_ofOption (fun _ => rfl) _
  present _ := rfl
  allowed _ := rfl
  clash a b := by
    show ((idValue a.transactionId).same (idValue b.transactionId) && true ||
      ((Value.integer a.transactionSequence).same (.integer b.transactionSequence) && true ||
        false)) = _
    simp only [same_id, Value.same_integer, Bool.and_true, Bool.or_false]
    rfl

theorem events_encoding : Encoding eventsSchema eventsTable storedEvent where
  fits row := by
    repeat' first | exact List.Forall₂.nil | apply List.Forall₂.cons
    all_goals first | rfl | exact fits_ofOption (fun _ => rfl) _
  present _ := rfl
  allowed _ := rfl
  clash a b := by
    show ((Value.integer a.globalSequence).same (.integer b.globalSequence) && true ||
      ((idValue a.event.eventId).same (idValue b.event.eventId) && true ||
        ((textValue a.event.streamId).same (textValue b.event.streamId) &&
          ((Value.integer a.streamVersion).same (.integer b.streamVersion) && true) ||
          false))) = _
    simp only [same_id, same_text, Value.same_integer, Bool.and_true, Bool.or_false]
    simp [eventsSchema, Bool.or_assoc, Bool.decide_and]

theorem streams_encoding : Encoding streamsSchema streamsTable storedStream where
  fits _ := .cons rfl (.cons rfl .nil)
  present _ := rfl
  allowed _ := rfl
  clash a b := by
    show ((textValue a.streamId).same (textValue b.streamId) && true || false) = _
    simp only [same_text, Bool.and_true, Bool.or_false]
    rfl

theorem projectionMeta_encoding :
    Encoding projectionMetaSchema projectionMetaTable storedProjectionMeta where
  fits _ := .cons rfl (.cons rfl .nil)
  present _ := rfl
  allowed _ := rfl
  clash a b := by
    show ((textValue a.projection).same (textValue b.projection) && true || false) = _
    simp only [same_text, Bool.and_true, Bool.or_false]
    rfl

theorem projectionEntries_encoding :
    Encoding projectionEntriesSchema projectionEntriesTable storedProjectionEntry where
  fits _ := .cons rfl (.cons rfl (.cons rfl .nil))
  present _ := rfl
  allowed _ := rfl
  clash a b := by
    show ((textValue a.projection).same (textValue b.projection) &&
      ((Value.blob a.key).same (.blob b.key) && true) || false) = _
    simp only [same_text, same_blob, Bool.and_true, Bool.or_false]
    simp [Schema.keyed, Bool.decide_and]

theorem jobs_encoding : Encoding jobsSchema jobsV2Table storedJob where
  fits job := by
    repeat' first | exact List.Forall₂.nil | apply List.Forall₂.cons
    all_goals first | rfl | exact fits_ofOption (fun _ => rfl) _
  present _ := rfl
  allowed job := by
    rw [Bool.eq_iff_iff]
    exact (allowed_iff (rfl : jobsTable.present (storedJob job) = true)).trans
      (legal_storedJob job)
  clash a b := by
    show ((idValue a.spec.jobId).same (idValue b.spec.jobId) && true ||
      ((Value.integer a.enqueueSequence).same (.integer b.enqueueSequence) && true || false)) = _
    simp only [same_id, Value.same_integer, Bool.and_true, Bool.or_false]
    rfl

theorem queueCursors_encoding :
    Encoding queueCursorsSchema queueCursorsTable storedQueueCursor where
  fits row := .cons rfl (.cons (fits_ofOption (fun _ => rfl) _) .nil)
  present _ := rfl
  allowed _ := rfl
  clash a b := by
    show ((textValue a.queue).same (textValue b.queue) && true || false) = _
    simp only [same_text, Bool.and_true, Bool.or_false]
    rfl

theorem activePartitions_encoding :
    Encoding activePartitionsSchema activePartitionsTable storedActivePartition where
  fits _ := .cons rfl (.cons rfl (.cons rfl .nil))
  present _ := rfl
  allowed _ := rfl
  clash a b := by
    show ((textValue a.queue).same (textValue b.queue) &&
      ((textValue a.partitionKey).same (textValue b.partitionKey) && true) || false) = _
    simp only [same_text, Bool.and_true, Bool.or_false]
    simp [Schema.keyed, Bool.decide_and]

theorem claimReceipts_encoding :
    Encoding claimReceiptsSchema claimReceiptsTable storedClaimReceipt where
  fits _ := .cons rfl (.cons rfl (.cons rfl (.cons rfl (.cons rfl (.cons rfl .nil)))))
  present _ := rfl
  allowed _ := rfl
  clash a b := by
    show ((idValue a.transactionId).same (idValue b.transactionId) &&
      ((idValue a.jobId).same (idValue b.jobId) && true) || false) = _
    simp only [same_id, Bool.and_true, Bool.or_false]
    simp [Schema.keyed, Bool.decide_and]

end Encodings

/-- The migrations define the nine tables of the store and no others. -/
theorem currentSchema_entries :
    currentSchema.tables.entries = storeTables.map fun t => ⟨t.name, t.defn⟩ := rfl

theorem storeTables_spec : ∀ t ∈ storeTables, Encoding t.schema t.defn t.encode ∧
    ∀ db, (tables db).Holds t.name t.defn t.encode (t.contents db).rows := by
  simp only [storeTables, List.forall_mem_cons, List.not_mem_nil, false_implies, implies_true,
    and_true]
  exact ⟨⟨jobs_encoding, fun _ => ⟨rfl, rfl⟩⟩, ⟨claimReceipts_encoding, fun _ => ⟨rfl, rfl⟩⟩,
    ⟨activePartitions_encoding, fun _ => ⟨rfl, rfl⟩⟩, ⟨queueCursors_encoding, fun _ => ⟨rfl, rfl⟩⟩,
    ⟨projectionEntries_encoding, fun _ => ⟨rfl, rfl⟩⟩,
    ⟨projectionMeta_encoding, fun _ => ⟨rfl, rfl⟩⟩, ⟨streams_encoding, fun _ => ⟨rfl, rfl⟩⟩,
    ⟨events_encoding, fun _ => ⟨rfl, rfl⟩⟩, transactions_encoding, fun _ => ⟨rfl, rfl⟩⟩

/-- An INSERT into a table of the file succeeds exactly if that into the typed table does, and
leaves the same rows: each enforces the constraints of the other. -/
theorem inserts_refine {coerce : Affinity → Value → Value} (hcoerce : Settled coerce) (db : Db)
    {t : StoreTable} (ht : t ∈ storeTables) (record : t.Record) :
    (insertRow coerce t.defn ((tables db).rows t.name) (t.encode record)).toOption =
      ((t.contents db).insert record).map fun after => after.rows.map t.encode := by
  obtain ⟨hencoding, hholds⟩ := storeTables_spec t ht
  rw [(hholds db).rows]
  exact hencoding.insertRow hcoerce _ record

/-- A job that is leased by nobody. -/
def Sample.unleased : JobRow where
  spec := ⟨.ofU128 2, "q", "p", [], 0, 3, .requiresReconciliation, none⟩
  enqueueSequence := 1
  enqueueTransactionId := .ofU128 1
  state := .leased
  attempt := 1
  leaseToken := none
  workerId := none
  leaseExpiresAtMs := none
  retryAfterMs := none
  terminalAtMs := none
  resultDigest := none
  errorSummary := none
  updatedTransactionId := .ofU128 1

theorem inserts_refine_sample :
    (insertRow (fun _ v => v) jobsV2Table ((tables Db.empty).rows "jobs")
      (storedJob Sample.unleased)).toOption = none := by
  have ht : StoreTable.jobs ∈ storeTables := List.mem_cons_self
  exact (inserts_refine (fun _ _ _ => rfl) Db.empty ht Sample.unleased).trans rfl

section Sound

variable {coerce : Affinity → Value → Value} {db : Db}

/-- A row that names a transaction on record. -/
theorem refers_transaction {defn : TableDef} {row : Row} {column : String} {transactionId : Id}
    (hvalue : defn.value row column = idValue transactionId) (h : db.Recorded transactionId) :
    defn.refers transactionsTable (rowsOf db "transactions")
      (references column "transactions" "transaction_id") row = true := by
  obtain ⟨other, hother, rfl⟩ := h
  exact TableDef.refers_of_mem hvalue (List.mem_map_of_mem hother) rfl rfl

theorem references_hold (h : Resolves db) : ∀ t ∈ storeTables,
    (tables db).referencesHold t.defn ((tables db).rows t.name) = true := by
  have hone : ∀ {p : Bool}, p = true → (p && true) = true := fun hp => by rw [hp]; rfl
  simp only [storeTables, List.forall_mem_cons, List.not_mem_nil, false_implies, implies_true,
    and_true]
  refine ⟨hone ?_, hone ?_, rfl, rfl, hone ?_, rfl, rfl, hone ?_, rfl⟩ <;>
    refine List.all_eq_true.mpr (List.forall_mem_map.mpr fun row hrow => ?_)
  · exact refers_transaction rfl (h.enqueued row hrow)
  · exact refers_transaction rfl (h.claimed row hrow)
  · obtain ⟨parent, hparent, hprojection⟩ := h.projection row hrow
    exact TableDef.refers_of_mem rfl (List.mem_map_of_mem hparent)
      (congrArg textValue hprojection) rfl
  · exact refers_transaction rfl (h.event row hrow)

theorem sound_tables (hcoerce : Settled coerce) (h : Resolves db) : (tables db).Sound coerce := by
  intro entry hentry
  rw [show (tables db).schema.tables.entries = _ from currentSchema_entries] at hentry
  obtain ⟨t, ht, rfl⟩ := List.mem_map.mp hentry
  obtain ⟨hencoding, hholds⟩ := storeTables_spec t ht
  refine ⟨?_, references_hold h t ht⟩
  rw [(hholds db).rows]
  exact hencoding.meets hcoerce _

end Sound

/-- Every reachable state meets all constraints of the definitions that the migrations have
made: NOT NULL, CHECK, UNIQUE, PRIMARY KEY and REFERENCES. -/
theorem tables_sound {coerce : Affinity → Value → Value} (hcoerce : Settled coerce)
    (calls : List Call) : (tables (controlPlane.after calls).db).Sound coerce :=
  sound_tables hcoerce (resolves_after calls)

def Sample.enqueued : List Call :=
  [.commit .default ⟨.ofU128 1, 0, none, [], [],
    [.enqueueJob ⟨.ofU128 2, "q", "p", [], 0, 3, .requiresReconciliation, none⟩]⟩ .done]

theorem tables_sound_sample :
    (tables (controlPlane.after Sample.enqueued).db).Sound fun _ v => v :=
  tables_sound (fun _ _ _ => rfl) Sample.enqueued

/-! ## 5. Opening -/

/-- The contents of a file with the rows of the store, after the first migrations. Before the
first of them it is the empty file. -/
inductive StoreContents (db : Db) : List Migration → Sql.Database → Prop
  | empty (hdb : db = Db.empty) : StoreContents db [] .empty
  | versionOne {contents : Sql.Database} (schema : defineAll initial .empty = .ok contents.schema)
      (rows : contents.rows = rowsOf db) : StoreContents db [toVersionOne] contents
  | current {contents : Sql.Database}
      (schema : defineAll (initial ++ upgrade) .empty = .ok contents.schema)
      (relation : contents.relation = (tables db).relation) :
      StoreContents db [toVersionOne, toVersionTwo] contents

/-- The file of the store, with these migrations recorded. -/
structure HoldsStore (db : Db) (done : List Migration) (file : Migrations.Database Sql.Database) :
    Prop where
  isPrefix : done <+: migrations
  recorded : file.recorded = done.map Migration.record
  contents : StoreContents db done file.contents

/-- A call of `StoreBuilder::open`. -/
structure Opening where
  limits : Limits
  connect : Except Stop Unit
  env : Environment

/-- A file and the attempts to open it. -/
def storeFile (coerce : Affinity → Value → Value) (file : Migrations.Database Sql.Database) :
    Machine (Migrations.Database Sql.Database) Opening (Except OpenStop Unit) where
  start := file
  step file opening :=
    let (result, file) := openStore coerce opening.limits opening.connect opening.env file
    (file, result)

namespace OpeningLemmas

variable {coerce : Affinity → Value → Value} {db : Db} {done : List Migration}
  {contents : Sql.Database} {file : Migrations.Database Sql.Database} {env : Environment}

/-- The definitions of version 1. -/
def initialSchema : Sql.Schema := (defineAll initial .empty).toOption.getD .empty

theorem initialSchema_entries : initialSchema.tables.entries =
    [⟨"claim_receipts", claimReceiptsTable⟩, ⟨"active_partitions", activePartitionsTable⟩,
      ⟨"queue_cursors", queueCursorsTable⟩, ⟨"jobs", jobsTable⟩,
      ⟨"projection_entries", projectionEntriesTable⟩, ⟨"projection_meta", projectionMetaTable⟩,
      ⟨"streams", streamsTable⟩, ⟨"events", eventsTable⟩, ⟨"transactions", transactionsTable⟩] :=
  rfl

theorem rowsOf_empty (name : String) : rowsOf Db.empty name = [] := by
  unfold rowsOf
  split <;> rfl

/-- The first migration creates the tables, without rows. -/
theorem execBatch_initial (coerce : Affinity → Value → Value) :
    ∃ contents, execBatch coerce initial .empty = .ok contents ∧
      defineAll initial .empty = .ok contents.schema ∧ contents.rows = rowsOf Db.empty := by
  obtain ⟨schema, -, hschema, -⟩ := defineAll_initial
  refine ⟨⟨schema, fun _ => []⟩, ?_, hschema, (funext rowsOf_empty).symm⟩
  refine (execBatch_creates (by decide) .empty).trans ?_
  rw [hschema]
  rfl

/-- The tables to which others refer are the same in both versions. -/
theorem parents_same : ∀ t ∈ storeTables, ∀ key ∈ t.defn.foreignKeys,
    initialSchema.table key.parent = currentSchema.table key.parent := by
  have hnames : ∀ t ∈ storeTables, ∀ key ∈ t.defn.foreignKeys,
      key.parent = "transactions" ∨ key.parent = "projection_meta" := by decide
  have htransactions : initialSchema.table "transactions" = some transactionsTable := rfl
  have hmeta : initialSchema.table "projection_meta" = some projectionMetaTable := rfl
  intro t ht key hkey
  rcases hnames t ht key hkey with hname | hname <;> rw [hname]
  · exact htransactions.trans (transactions_holds Db.empty).table.symm
  · exact hmeta.trans (projectionMeta_holds Db.empty).table.symm

/-- A file of version 1 with the rows of a store meets its definitions. -/
theorem sound_versionOne (hcoerce : Settled coerce) (h : Resolves db) :
    Database.Sound coerce ⟨initialSchema, rowsOf db⟩ := by
  have hsound : ∀ t ∈ storeTables, t.defn.Meets coerce (rowsOf db t.name) ∧
      Database.referencesHold ⟨initialSchema, rowsOf db⟩ t.defn (rowsOf db t.name) = true := by
    intro t ht
    obtain ⟨hencoding, hholds⟩ := storeTables_spec t ht
    constructor
    · rw [show rowsOf db t.name = _ from (hholds db).rows]
      exact hencoding.meets hcoerce _
    · exact (@Database.referencesHold_congr (tables db) ⟨initialSchema, rowsOf db⟩ t.defn _ rfl
        (parents_same t ht)).trans (references_hold h t ht)
  simp only [storeTables, List.forall_mem_cons, List.not_mem_nil, false_implies, implies_true,
    and_true] at hsound
  obtain ⟨⟨hjobs, hjobs'⟩, hreceipts, hpartitions, hcursors, hentries, hmeta, hstreams, hevents,
    htransactions⟩ := hsound
  -- The old definition of `jobs` has no CHECK.
  have hshape : jobsV2Table.SameShape jobsTable := ⟨rfl, rfl, rfl⟩
  show ∀ entry ∈ initialSchema.tables.entries, _
  simp only [initialSchema_entries, List.forall_mem_cons, List.not_mem_nil, false_implies,
    implies_true, and_true]
  exact ⟨hreceipts, hpartitions, hcursors, ⟨hshape.meets hjobs fun _ _ => rfl, hjobs'⟩, hentries,
    hmeta, hstreams, hevents, htransactions⟩

/-- Definitions under which some database has the same relations have the same tables and
columns, so they give the same relations on any rows. -/
theorem relation_of_same {schema schema' : Sql.Schema} {rows rows' : String → List Row}
    (h : Database.relation ⟨schema', rows'⟩ = Database.relation ⟨schema, rows⟩) :
    Database.relation ⟨schema', rows⟩ = Database.relation ⟨schema, rows⟩ := by
  funext name
  have hname := congrFun h name
  unfold Database.relation at hname ⊢
  cases htable' : schema'.table name <;> cases htable : schema.table name <;>
    simp_all

/-- The next migration does not fail on the rows of a store. -/
theorem contents_next (hcoerce : Settled coerce) (h : Resolves db)
    (hcontents : StoreContents db done contents) {migration : Migration}
    (hnext : done ++ [migration] <+: migrations) : ∃ contents',
      executeBatch coerce migration.sql contents = .ok contents' ∧
      StoreContents db (done ++ [migration]) contents' := by
  rw [show migrations = [toVersionOne, toVersionTwo] from rfl] at hnext
  cases hcontents with
  | empty hdb =>
    obtain rfl : migration = toVersionOne := (List.cons_prefix_cons.mp hnext).1
    obtain ⟨after, hafter, hschema, hrows⟩ := execBatch_initial coerce
    have hother : toVersionOne.sql ≠ toVersionTwo.sql := by decide +kernel
    exact ⟨after, (if_neg hother).trans ((if_pos rfl).trans hafter),
      .versionOne hschema (hdb ▸ hrows)⟩
  | versionOne hschema hrows =>
    obtain rfl : migration = toVersionTwo :=
      (List.cons_prefix_cons.mp (List.cons_prefix_cons.mp hnext).2).1
    obtain ⟨schema, rows⟩ := contents
    obtain rfl : rows = rowsOf db := hrows
    obtain rfl : initialSchema = schema := Except.ok.inj hschema
    obtain ⟨after, hafter, hrelation, -, hdefined⟩ := execBatch_upgrade hschema
      (sound_versionOne hcoerce h) (legalJobs_of_table db.jobs rfl)
    obtain ⟨schema, rows⟩ := after
    obtain rfl : currentSchema = schema := Except.ok.inj hdefined
    refine ⟨_, (if_pos rfl).trans hafter, .current hdefined ?_⟩
    exact hrelation.trans (relation_of_same hrelation).symm
  | current =>
    have hlength := hnext.length_le
    simp at hlength

/-- The SQL of the migrations that a file lacks, run one after the other, never fails on the rows
of a store, and keeps them. -/
theorem contents_applySql (hcoerce : Settled coerce) (h : Resolves db) {applied : List Migration}
    (hcontents : StoreContents db done contents) (happlied : done ++ applied <+: migrations) :
    ∃ contents', applySql (executeBatch coerce) applied contents = .ok contents' ∧
      StoreContents db (done ++ applied) contents' := by
  induction applied generalizing done contents with
  | nil => exact ⟨contents, rfl, by rwa [List.append_nil]⟩
  | cons migration applied ih =>
    rw [List.append_cons] at happlied ⊢
    obtain ⟨mid, hmid, hnext⟩ := contents_next hcoerce h hcontents
      ((List.prefix_append _ _).trans happlied)
    obtain ⟨contents', hrest, hcontents'⟩ := ih hnext happlied
    refine ⟨contents', ?_, hcontents'⟩
    rw [applySql_cons, hmid]
    exact hrest

theorem migrations_increasing : (migrations.map Migration.version).Pairwise (· < ·) := by decide

/-- What is not recorded are the migrations after those that are. -/
theorem missing_eq {rest : List Migration} (hfile : HoldsStore db done file)
    (hall : done ++ rest = migrations) : missing migrations file = rest := by
  have hversions : file.versions = done.map Migration.version := versions_eq hfile.recorded
  have hdistinct := distinct_of_increasing migrations_increasing
  rw [← hall, List.map_append] at hdistinct
  rw [← hall]
  refine missing_append (fun m hm => ?_) fun m hm hrecorded => ?_
  · rw [hversions]
    exact List.mem_map_of_mem hm
  · rw [hversions] at hrecorded
    exact (List.nodup_append.mp hdistinct).2.2 _ hrecorded _ (List.mem_map_of_mem hm) rfl

theorem run_applies_holds (hfile : HoldsStore db done file) :
    Migrations.Applies (executeBatch coerce) env migrations file
      (Run.on (executeBatch coerce) ⟨migrations, env⟩ file) := by
  refine applies_of_done migrations_increasing hfile.isPrefix List.prefix_rfl hfile.recorded ?_
  rintro ⟨version, hmem, hlt⟩
  rw [versions_eq hfile.recorded] at hmem
  obtain ⟨m, hm, rfl⟩ := List.mem_map.mp hmem
  exact absurd hlt
    (UInt32.not_lt.mpr (le_supported migrations_increasing (hfile.isPrefix.subset hm)))

/-- A run of `migrate`, stopped anywhere, leaves a file of the store; if it is not stopped, one
of the current version. -/
theorem run_keeps (hcoerce : Settled coerce) (h : Resolves db) (hfile : HoldsStore db done file) :
    (∃ done', done <+: done' ∧
      HoldsStore db done' (Run.on (executeBatch coerce) ⟨migrations, env⟩ file).2.db ∧
      ((Run.on (executeBatch coerce) ⟨migrations, env⟩ file).1 = .ok () → done' = migrations)) ∧
    ((∀ e, ¬ env.Faults e) →
      (Run.on (executeBatch coerce) ⟨migrations, env⟩ file).1 = .ok ()) := by
  obtain ⟨rest, hall⟩ := hfile.isPrefix
  have happlies : Migrations.Applies (executeBatch coerce) env migrations file _ :=
    run_applies_holds hfile
  obtain ⟨applied, last, hadvanced, -⟩ := happlies.advanced
  have happlied : done ++ applied <+: migrations := by
    have horder := (List.prefix_append _ _).trans hadvanced.order
    rw [missing_eq hfile hall] at horder
    rw [← hall]
    exact (List.prefix_append_right_inj done).mpr horder
  refine ⟨⟨done ++ applied, List.prefix_append _ _, ⟨happlied, ?_, ?_⟩, fun hok => ?_⟩,
    fun hquiet => happlies.completes hquiet ?_⟩
  · rw [hadvanced.recorded, hfile.recorded, List.map_append]
  · obtain ⟨contents', hsql, hcontents'⟩ :=
      contents_applySql hcoerce h hfile.contents happlied
    rwa [← Except.ok.inj (hsql.symm.trans hadvanced.contents)]
  · -- As many are recorded as there are.
    have hrecorded := hadvanced.recorded.symm.trans (happlies.succeeded hok).1.recorded
    have hlength := congrArg List.length (List.append_cancel_left hrecorded)
    rw [List.length_map, List.length_map, missing_eq hfile hall] at hlength
    refine happlied.eq_of_length ?_
    rw [← hall, List.length_append, List.length_append, hlength]
  · rw [missing_eq hfile hall]
    obtain ⟨contents', hsql, -⟩ :=
      contents_applySql hcoerce h hfile.contents ⟨[], (List.append_nil _).trans hall⟩
    exact ⟨contents', hsql⟩

/-- An opening leaves the rows of the store, wherever it is stopped, and one that nothing stops
succeeds. -/
theorem opening_keeps (hcoerce : Settled coerce) (h : Resolves db) (limits : Limits)
    (connect : Except Stop Unit) (env : Environment) (hfile : HoldsStore db done file) :
    (∃ done', done <+: done' ∧ HoldsStore db done' (openStore coerce limits connect env file).2 ∧
      ((openStore coerce limits connect env file).1 = .ok () → done' = migrations)) ∧
    (limits.validate = .ok () → connect = .ok () → (∀ e, ¬ env.Faults e) →
      (openStore coerce limits connect env file).1 = .ok ()) := by
  have hrun := @run_keeps coerce db done file env hcoerce h hfile
  unfold openStore
  generalize hout : Run.on (executeBatch coerce) ⟨migrations, env⟩ file = out at hrun
  have hexec : Stops.exec (migrate (executeBatch coerce) env migrations) ⟨file, []⟩ = out := hout
  cases limits.validate with
  | error e => exact ⟨⟨done, List.prefix_rfl, hfile, nofun⟩, nofun⟩
  | ok =>
  cases connect with
  | error e => exact ⟨⟨done, List.prefix_rfl, hfile, nofun⟩, nofun⟩
  | ok =>
  simp only [hexec]
  obtain ⟨⟨done', hdone', hfile', hall⟩, hcompletes⟩ := hrun
  refine ⟨⟨done', hdone', hfile', fun hok => hall (mapError_eq_ok.mp hok)⟩, fun _ _ hquiet => ?_⟩
  exact mapError_eq_ok.mpr (hcompletes hquiet)

/-- A file with all migrations recorded is current, and its reads are those of the store. -/
theorem current_of_holds [ColumnErrors] (hfile : HoldsStore db migrations file) :
    requireCurrent migrations file = .ok () ∧
      ∀ read : DataRead, read.answer file.contents = db.read read := by
  have hrecorded : ∀ migration ∈ migrations, migration.record ∈ file.recorded := fun m hm => by
    rw [hfile.recorded]
    exact List.mem_map_of_mem hm
  have hnew : ¬ TooNew migrations file := by
    rintro ⟨version, hmem, hlt⟩
    rw [versions_eq hfile.recorded] at hmem
    obtain ⟨m, hm, rfl⟩ := List.mem_map.mp hmem
    exact absurd hlt (UInt32.not_lt.mpr (le_supported migrations_increasing hm))
  refine ⟨(upToDate hnew hrecorded).current, fun read => ?_⟩
  obtain ⟨-, -, hcontents⟩ := hfile
  rw [show migrations = [toVersionOne, toVersionTwo] from rfl] at hcontents
  cases hcontents with
  | current _ hrelation => rw [answer_congr hrelation, reads_refine]

end OpeningLemmas

open OpeningLemmas

/-- Opening the store keeps what is in its file. Start with an empty file, or with one of
version 1 or 2 that has the rows of some reachable state, and try to open it any number of
times, each stopped anywhere. The file still has these rows, and no fewer migrations than
before; an opening that is not stopped then succeeds, and after one that succeeds the file
has the current version and every read answers as the store does in that state. -/
theorem openings_keep_store [ColumnErrors] {coerce : Affinity → Value → Value}
    (hcoerce : Settled coerce)
    (calls : List Call) {done : List Migration} {file : Migrations.Database Sql.Database}
    (hfile : HoldsStore (controlPlane.after calls).db done file) (openings : List Opening) :
    (∃ done', done <+: done' ∧ HoldsStore (controlPlane.after calls).db done'
      ((storeFile coerce file).after openings)) ∧
    ∀ limits connect env,
      let out := openStore coerce limits connect env ((storeFile coerce file).after openings)
      (limits.validate = .ok () → connect = .ok () → (∀ e, ¬ env.Faults e) → out.1 = .ok ()) ∧
      (out.1 = .ok () → requireCurrent migrations out.2 = .ok () ∧
        ∀ read : DataRead,
          read.answer out.2.contents = (controlPlane.after calls).db.read read) := by
  have hresolves := resolves_after calls
  generalize (controlPlane.after calls).db = db at hfile hresolves
  obtain ⟨done', hdone', hfile'⟩ : ∃ done', done <+: done' ∧
      HoldsStore db done' ((storeFile coerce file).after openings) := by
    refine Machine.after_induction (P := fun _ file => ∃ done', done <+: done' ∧
      HoldsStore db done' file) ⟨done, List.prefix_rfl, hfile⟩ (fun openings opening ih => ?_)
      openings
    obtain ⟨mid, hmid, hfile⟩ := ih
    obtain ⟨⟨done', hdone', hfile', -⟩, -⟩ := opening_keeps hcoerce hresolves opening.limits
      opening.connect opening.env hfile
    exact ⟨done', hmid.trans hdone', hfile'⟩
  refine ⟨⟨done', hdone', hfile'⟩, fun limits connect env => ?_⟩
  obtain ⟨⟨after, -, hafter, hall⟩, hcompletes⟩ :=
    opening_keeps hcoerce hresolves limits connect env hfile'
  refine ⟨hcompletes, fun hok => ?_⟩
  obtain rfl := hall hok
  exact current_of_holds hafter

/-- A file of version 1 with the rows of a state. -/
def Sample.oldFile (db : Db) : Migrations.Database Sql.Database :=
  { Migrations.Sample.versionOne with contents := ⟨initialSchema, rowsOf db⟩ }

theorem Sample.holds_oldFile (db : Db) : HoldsStore db [toVersionOne] (Sample.oldFile db) :=
  ⟨⟨[toVersionTwo], rfl⟩, rfl, .versionOne rfl rfl⟩

@[reducible] def Sample.columnErrors : ColumnErrors := ⟨fun _ _ => "Invalid column type"⟩

def Sample.claimed : List Call :=
  [Minisqlite.Sample.enqueue .requiresReconciliation, Minisqlite.Sample.claim 20 5 .done]

/-- A job has been claimed when the build is replaced. The first opening dies in the COMMIT of its
migration, and this is the second. -/
def Sample.opened : Except OpenStop Unit × Migrations.Database Sql.Database :=
  openStore (fun _ v => v) .default (.ok ()) Migrations.Sample.quiet
    ((storeFile (fun _ v => v) (oldFile (controlPlane.after claimed).db)).after
      [⟨.default, .ok (), Migrations.Sample.dying⟩])

theorem openings_keep_store_sample : Sample.opened.1 = .ok () ∧
    letI := Sample.columnErrors
    ((DataRead.job Minisqlite.Sample.jobId).answer Sample.opened.2.contents).map
      (Option.map JobInfo.state) = .ok (some .leased) := by
  let := Sample.columnErrors
  have hopened := (openings_keep_store (fun _ _ _ => rfl) Sample.claimed (Sample.holds_oldFile _)
    [⟨.default, .ok (), Migrations.Sample.dying⟩]).2 .default (.ok ()) Migrations.Sample.quiet
  unfold Sample.opened
  generalize openStore (fun _ v => v) .default (.ok ()) Migrations.Sample.quiet _ = out
    at hopened ⊢
  have hok : out.1 = .ok () := hopened.1 (by decide) rfl (by rintro e ⟨statement, ⟨⟩⟩)
  refine ⟨hok, ?_⟩
  rw [(hopened.2 hok).2]
  decide

end Minisqlite.TableReads
