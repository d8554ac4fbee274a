import Minisqlite.Effects.Total
import Minisqlite.Migration
import Minisqlite.Store.TableReads
import Minisqlite.Store.Upgrade

/-!
# The upgrade to version 2

The second migration is the recipe of `Sql.rebuild` on `jobs`, in a transaction with the
row that records it. Its definition of `jobs` has the columns and keys of the old one in
the old order, so the only rows that it refuses are those that break a CHECK.

1. `allowed_iff`: the CHECKs are `Legal`, the job state machine on the columns of a row.
2. `execBatch_upgrade`, `execBatch_refused`: what the SQL makes of a database of version 1.
3. `run_versionOne`: the run of `migrate` on it, stopped anywhere.
4. `rowToJob_storedJob`, `legal_storedJob`: the jobs that the store itself writes, which are
   legal, and what a read makes of them.
5. `upgrade_lossless`: opening the store.
-/

namespace Minisqlite.Migrations

open Sql Tables Runs Stops TableReads MigrationLemmas

/-! ## 1. The CHECKs -/

/-- A job row that the state machine can have produced, by the values of its columns. -/
structure Legal (value : String → Value) : Prop where
  maxAttempts : (Value.integer 0).lt (value "max_attempts") = true
  attempt : (value "attempt").lt (.integer 0) = false
  state : (value "state").lt (.integer 0) = false ∧ (Value.integer 6).lt (value "state") = false
  leased : (value "state").same (.integer 1) = true →
    value "lease_token" ≠ .null ∧ value "worker_id" ≠ .null ∧ value "lease_expires_at_ms" ≠ .null
  unleased : (value "state").same (.integer 1) = false →
    value "lease_token" = .null ∧ value "worker_id" = .null ∧ value "lease_expires_at_ms" = .null
  retryWait : (value "state").same (.integer 2) = true → value "retry_after_ms" ≠ .null
  terminal : (value "state").same (.integer 4) = true ∨ (value "state").same (.integer 5) = true ∨
    (value "state").same (.integer 6) = true ↔ value "terminal_at_ms" ≠ .null

/-- Every job of the database is such a row. -/
def LegalJobs (db : Sql.Database) : Prop := ∀ row ∈ db.rows "jobs", Legal (jobsTable.value row)

/-- A file of version 1: it has the first migration recorded, has been defined by its
statements, and its rows meet their constraints. -/
structure VersionOne (coerce : Affinity → Value → Value) (db : Database Sql.Database) : Prop where
  recorded : ∃ appliedAtMs, db.table.rows = [⟨1, appliedAtMs, checksum toVersionOne.sql⟩]
  schema : defineAll initial .empty = .ok db.contents.schema
  sound : db.contents.Sound coerce

/-- What the second migration makes of it. Every table has the columns and the rows that it
had, and no read can tell the difference. -/
structure Upgraded (coerce : Affinity → Value → Value) (env : Environment)
    (db db' : Database Sql.Database) : Prop where
  version : db'.currentVersion = 2
  recorded : db'.table.rows = db.table.rows ++ [⟨2, env.nowMs 2, checksum toVersionTwo.sql⟩]
  schema : defineAll (initial ++ upgrade) .empty = .ok db'.contents.schema
  relation : ∀ name, db'.contents.relation name = db.contents.relation name
  reads : ∀ [ColumnErrors] (read : DataRead), read.answer db'.contents = read.answer db.contents
  sound : db'.contents.Sound coerce

namespace UpgradeLemmas

variable {coerce : Affinity → Value → Value} {env : Environment}

theorem sameShape : jobsTable.SameShape jobsV2Table := ⟨rfl, rfl, rfl⟩

section Checks

variable {value : String → Value}

theorem isNull_eq_true {v : Value} : v.isNull = true ↔ v = .null := decide_eq_true_iff

theorem isNull_eq_false {v : Value} : v.isNull = false ↔ v ≠ .null := decide_eq_false_iff_not

/-- The comparison of a column with a number. -/
theorem eval_column (op : Comparison) (n : Int64) {name : String}
    (h : (value name).isNull = false) :
    Condition.eval value (.compare op (column name) (int n)) =
      some (op.holds (value name) (.integer n)) :=
  Condition.eval_compare h rfl

/-- Where the counters and the state are there, each CHECK is true or false. -/
theorem checks_eq (hmax : (value "max_attempts").isNull = false)
    (hattempt : (value "attempt").isNull = false) (hstate : (value "state").isNull = false) :
    jobChecks.all (Condition.allows value) =
      ((Value.integer 0).lt (value "max_attempts") &&
        ((!(value "state").lt (.integer 0) && !(Value.integer 6).lt (value "state")) &&
        (!(value "attempt").lt (.integer 0) &&
        ((!(value "state").same (.integer 1) || ((!(value "lease_token").isNull &&
          !(value "worker_id").isNull) && !(value "lease_expires_at_ms").isNull)) &&
        (((value "state").same (.integer 1) || (((value "lease_token").isNull &&
          (value "worker_id").isNull) && (value "lease_expires_at_ms").isNull)) &&
        ((!(value "state").same (.integer 2) || !(value "retry_after_ms").isNull) &&
        ((((value "state").same (.integer 4) || (value "state").same (.integer 5)) ||
          (value "state").same (.integer 6)) == !(value "terminal_at_ms").isNull))))))) := by
  have hnull : ∀ name, Condition.eval value (.isNull (column name)) = some _ := fun name =>
    Condition.eval_isNull (column name)
  have hset : ∀ name, Condition.eval value (.notNull (column name)) = some _ := fun name =>
    Condition.eval_notNull (column name)
  have hne : ∀ n, Condition.eval value (.ne (column "state") (int n)) = some _ := fun n =>
    Condition.eval_not (eval_column .eq n hstate)
  have hbetween : Condition.eval value (.between (column "state") (int 0) (int 6)) = some _ :=
    Condition.eval_and (eval_column .ge 0 hstate) (eval_column .le 6 hstate)
  have hleased := Condition.eval_or (hne 1)
    (Condition.eval_and (Condition.eval_and (hset "lease_token") (hset "worker_id"))
      (hset "lease_expires_at_ms"))
  have hunleased := Condition.eval_or (eval_column .eq 1 hstate)
    (Condition.eval_and (Condition.eval_and (hnull "lease_token") (hnull "worker_id"))
      (hnull "lease_expires_at_ms"))
  have hin : Condition.eval value
      (.isIn (column "state") (.integer 4) [.integer 5, .integer 6]) = some _ :=
    Condition.eval_or (Condition.eval_or (eval_column .eq 4 hstate) (eval_column .eq 5 hstate))
      (eval_column .eq 6 hstate)
  simp only [jobChecks, List.all_cons, List.all_nil, Bool.and_true]
  rw [Condition.allows_eq (eval_column .gt 0 hmax), Condition.allows_eq hbetween,
    Condition.allows_eq (eval_column .ge 0 hattempt), Condition.allows_eq hleased,
    Condition.allows_eq hunleased, Condition.allows_eq (Condition.eval_or (hne 2) (hset _)),
    Condition.allows_eq (Condition.eval_iff hin (hset _))]
  rfl

theorem eq_false_or_iff {b : Bool} {P : Prop} : b = false ∨ P ↔ (b = true → P) := by
  cases b <;> simp

theorem eq_true_or_iff {b : Bool} {P : Prop} : b = true ∨ P ↔ (b = false → P) := by
  cases b <;> simp

/-- The CHECKs say of such a row that it is `Legal`. -/
theorem checks_iff (hmax : (value "max_attempts").isNull = false)
    (hattempt : (value "attempt").isNull = false) (hstate : (value "state").isNull = false) :
    jobChecks.all (Condition.allows value) = true ↔ Legal value := by
  have hterminal : ∀ {p q r s : Bool}, ((p || q) || r) = (!s) ↔
      (p = true ∨ q = true ∨ r = true ↔ s = false) := fun {p q r s} => by
    rw [Bool.eq_iff_iff]
    simp only [Bool.or_eq_true, Bool.not_eq_true', or_assoc]
  rw [checks_eq hmax hattempt hstate]
  simp only [Bool.and_eq_true, beq_iff_eq, hterminal, Bool.or_eq_true, Bool.not_eq_true',
    isNull_eq_true, isNull_eq_false, and_assoc]
  constructor
  · rintro ⟨hmax, hlow, hhigh, hattempt, hleased, hunleased, hretry, hterminal⟩
    exact ⟨hmax, hattempt, ⟨hlow, hhigh⟩, eq_false_or_iff.mp hleased, eq_true_or_iff.mp hunleased,
      eq_false_or_iff.mp hretry, hterminal⟩
  · rintro ⟨hmax, hattempt, ⟨hlow, hhigh⟩, hleased, hunleased, hretry, hterminal⟩
    exact ⟨hmax, hlow, hhigh, hattempt, eq_false_or_iff.mpr hleased, eq_true_or_iff.mpr hunleased,
      eq_false_or_iff.mpr hretry, hterminal⟩

end Checks

/-- Where a row has a value in each column that must have one, the CHECKs are what the new
definition adds. -/
theorem allowed_iff {row : Row} (h : jobsTable.present row = true) :
    jobsV2Table.allowed row = true ↔ Legal (jobsTable.value row) := by
  have hpresent : ∀ column ∈ jobsTable.columns, column.notNull = true →
      (jobsTable.value row column.name).isNull = false := fun column hcolumn hrequired => by
    simpa [hrequired] using List.all_eq_true.mp h column hcolumn
  show jobChecks.all (Condition.allows (jobsV2Table.value row)) = true ↔ _
  rw [sameShape.value]
  exact checks_iff (hpresent ⟨"max_attempts", .integer, true⟩ (by decide) rfl)
    (hpresent ⟨"attempt", .integer, true⟩ (by decide) rfl)
    (hpresent ⟨"state", .integer, true⟩ (by decide) rfl)

/-! ## 2. The SQL -/

/-- The first migration defines `jobs`, to which nobody refers, and leaves the name that the
second one uses for itself; on these definitions the second one fails in no statement. -/
theorem defineAll_initial : ∃ schema after, defineAll initial .empty = .ok schema ∧
    schema.table "jobs" = some jobsTable ∧ schema.table "jobs_v2" = none ∧
    schema.refersTo "jobs" = false ∧ schema.refersTo "jobs_v2" = false ∧
    defineAll upgrade schema = .ok after :=
  ⟨_, _, rfl, rfl, rfl, rfl, rfl, rfl⟩

/-- The second migration is the recipe, and the indexes that went with the old table. -/
theorem upgrade_eq : ∃ indexes : List Index, upgrade =
    rebuild "jobs" "jobs_v2" jobsV2Table ++ indexes.map .createIndex :=
  ⟨[_, _, _, _], rfl⟩

variable {db : Sql.Database}

/-- On legal jobs the SQL changes no relation. -/
theorem execBatch_upgrade (hschema : defineAll initial .empty = .ok db.schema)
    (hsound : db.Sound coerce) (hlegal : LegalJobs db) :
    ∃ db', execBatch coerce upgrade db = .ok db' ∧ db'.relation = db.relation ∧ db'.Sound coerce ∧
      defineAll (initial ++ upgrade) .empty = .ok db'.schema := by
  obtain ⟨schema, after, hinitial, hjobs, htemp, hrefJobs, hrefTemp, hafter⟩ := defineAll_initial
  obtain rfl : schema = db.schema := Except.ok.inj (hinitial.symm.trans hschema)
  obtain ⟨indexes, hupgrade⟩ := upgrade_eq
  obtain ⟨hmeets, href⟩ := sound_iff.mp hsound "jobs" jobsTable hjobs
  have hallowed : ∀ row ∈ db.rows "jobs", jobsV2Table.allowed row = true := fun row hrow =>
    (allowed_iff (hmeets.present row hrow)).mpr (hlegal row hrow)
  obtain ⟨mid, hmid, hrebuilt⟩ :=
    rebuild_ok hjobs htemp sameShape hrefJobs hrefTemp hmeets href hallowed
  -- The indexes can be created: the definitions do not depend on the rows.
  have hindexes : defineAll (indexes.map .createIndex) mid.schema = .ok after := by
    rwa [hupgrade, defineAll_append, defineAll_of_execBatch hmid] at hafter
  obtain ⟨hcreated, htables⟩ : execBatch coerce (indexes.map .createIndex) mid = _ ∧ _ :=
    execBatch_createIndex hindexes
  have hmidSound : mid.Sound coerce := hrebuilt.sound hsound hjobs sameShape hrefJobs hallowed
  refine ⟨⟨after, mid.rows⟩, ?_, ?_, sound_of_tables htables hmidSound, ?_⟩
  · rw [hupgrade, execBatch_append, hmid]
    exact hcreated
  · rw [← hrebuilt.relation hjobs sameShape]
    funext name
    rw [Database.relation, Database.relation, Schema.table, htables]
    rfl
  · rw [defineAll_append, hschema]
    exact hafter

/-- A job that is not legal stops it. -/
theorem execBatch_refused (hschema : defineAll initial .empty = .ok db.schema)
    (hsound : db.Sound coerce) (hillegal : ¬ LegalJobs db) :
    ∃ e, execBatch coerce upgrade db = .error e := by
  obtain ⟨schema, after, hinitial, hjobs, htemp, -, -, -⟩ := defineAll_initial
  obtain rfl : schema = db.schema := Except.ok.inj (hinitial.symm.trans hschema)
  obtain ⟨indexes, hupgrade⟩ := upgrade_eq
  obtain ⟨hmeets, -⟩ := sound_iff.mp hsound "jobs" jobsTable hjobs
  obtain ⟨row, hrow, hbroken⟩ := not_forall₂.mp hillegal
  obtain ⟨e, he⟩ := rebuild_error hjobs htemp sameShape hmeets hrow
    (Bool.eq_false_iff.mpr fun h => hbroken ((allowed_iff (hmeets.present row hrow)).mp h))
  refine ⟨e, ?_⟩
  rw [hupgrade, execBatch_append, he]
  rfl

/-! ## 3. The run -/

/-- A read asks the database for the rows of its queries, and for nothing else. -/
theorem answer_congr [ColumnErrors] {db' : Sql.Database} (h : db'.relation = db.relation)
    (read : DataRead) :
    read.answer db' = read.answer db := by
  have hquery : query db' = query db := by
    funext select
    rw [query, query, select_congr h]
  have hqueryRow : ∀ {α : Type}, queryRow (α := α) db' = queryRow db := fun {α} => by
    funext select f
    rw [queryRow, queryRow, hquery]
  cases read with
  | job | getEvent | projectionGet =>
    simp only [DataRead.answer, TableReads.getJob, TableReads.getEvent, TableReads.projectionGet,
      hqueryRow]
    rfl
  | streamVersion | projectionVersion =>
    simp only [DataRead.answer, TableReads.streamVersion, TableReads.projectionVersion, versionIn,
      hqueryRow]
    rfl
  | recoverTransaction | recoverClaim =>
    simp only [DataRead.answer, TableReads.recoverTransaction, TableReads.recoverClaim, hquery,
      hqueryRow]
    rfl
  | jobs | jobsPage =>
    simp only [DataRead.answer, TableReads.listJobs, TableReads.listJobsPage, hquery]
    rfl
  | eventsAfter | streamEvents | lastEvents =>
    simp only [DataRead.answer, TableReads.eventsAfter, TableReads.streamEvents,
      TableReads.lastEvents, hquery]
    rfl
  | projectionScanPrefix | projectionScanPrefixPage | projectionScanRange =>
    simp only [DataRead.answer, TableReads.projectionScanPrefix,
      TableReads.projectionScanPrefixPage, TableReads.projectionScanRange, TableReads.scan,
      hquery]
    rfl
  | projectionsList | projectionEntryCount =>
    simp only [DataRead.answer, TableReads.projectionsList, TableReads.projectionEntryCount, hquery]
    rfl

variable {file file' : Database Sql.Database}

/-- A file in which something is recorded has the table. -/
theorem eq_of_sameFile (h : SameFile file file') (hrows : file.table.rows ≠ []) : file' = file := by
  obtain ⟨contents, _ | table⟩ := file
  · exact absurd rfl hrows
  obtain ⟨contents', _ | table'⟩ := file'
  · rw [← h.table] at hrows
    exact absurd rfl hrows
  · obtain rfl : contents' = contents := h.contents
    obtain rfl : table' = table := h.table
    rfl

/-- What the second migration leaves, once it is there. -/
theorem upgraded_of_commits {t : Session Sql.Database} (h : VersionOne coerce file)
    (hcommits : Commits (executeBatch coerce) ⟨file, []⟩ toVersionTwo t)
    (happends : Appends env toVersionTwo file t.db) :
    Upgraded coerce env file t.db ∧ LegalJobs file.contents := by
  have hbatch : execBatch coerce upgrade file.contents = .ok t.db.contents :=
    (if_pos rfl).symm.trans hcommits.contents
  have hlegal : LegalJobs file.contents := by
    by_contra hillegal
    obtain ⟨e, he⟩ := execBatch_refused h.schema h.sound hillegal
    rw [he] at hbatch
    cases hbatch
  obtain ⟨after, hafter, hrelation, hsound, hschema⟩ := execBatch_upgrade h.schema h.sound hlegal
  obtain rfl : after = t.db.contents := Except.ok.inj (hafter.symm.trans hbatch)
  obtain ⟨appliedAtMs, hrows⟩ := h.recorded
  have hversion : t.db.currentVersion = 2 := by
    unfold Database.currentVersion
    rw [happends, hrows]
    rfl
  exact ⟨⟨hversion, happends, hschema, congrFun hrelation, answer_congr hrelation, hsound⟩, hlegal⟩

/-- The run stops and leaves the file as it was, and there was a reason. -/
structure Refused (env : Environment) (file file' : Database Sql.Database) (e : Stop) : Prop where
  unchanged : file' = file
  cause : env.Faults e ∨ ¬ LegalJobs file.contents

/-- A run of `migrate` on a file of version 1: it verifies the first migration and executes
the second. -/
theorem run_versionOne (h : VersionOne coerce file) :
    Ends (fun _ t => Upgraded coerce env file t.db ∧ LegalJobs file.contents)
      (fun e t => Refused env file t.db e ∨
        env.Unreported 2 e ∧ Upgraded coerce env file t.db)
      (Run.on (executeBatch coerce) ⟨migrations, env⟩ file) := by
  obtain ⟨appliedAtMs, hrows⟩ := h.recorded
  have hversions : file.versions = [1] := congrArg (List.map MigrationRow.version) hrows
  have hrecorded : file.recorded = [toVersionOne.record] :=
    congrArg (List.map MigrationRow.record) hrows
  have hone : file.appliedChecksum toVersionOne.version = some (checksum toVersionOne.sql) := by
    rw [appliedChecksum_iff, hrecorded]
    exact List.mem_singleton.mpr rfl
  have htwo : file.appliedChecksum toVersionTwo.version = none := by
    rw [appliedChecksum_eq_none, hversions]
    decide
  have hsame : ∀ {file'}, SameFile file file' → file' = file := fun hfile =>
    eq_of_sameFile hfile (by simp [hrows])
  refine run_spec (fun e file' hfile hfault => .inl ⟨hsame hfile, .inl hfault⟩)
    (fun hnew => ?_) fun _ file' hfile => ?_
  · obtain ⟨version, hversion, hlt⟩ := hnew
    rw [hversions, List.mem_singleton] at hversion
    subst hversion
    exact absurd hlt (by decide)
  obtain rfl := hsame hfile
  -- The pass over the first migration, and the pass over the second.
  show Triple _ (migrateOne (executeBatch coerce) env toVersionOne >>= fun _ =>
    migrateOne (executeBatch coerce) env toVersionTwo >>= fun _ => pure PUnit.unit) _ _
  refine Triple.bind (Q := fun _ t => t = ⟨file', []⟩) ((migrateOne_recorded hone).conseq
    (fun _ ht => ht) (fun _ t ht => ht.1) fun e t ht => ?_) fun _ => ?_
  · obtain ⟨rfl, hfault | ⟨⟨stored, hstored, hdiffers⟩, -⟩⟩ := ht
    · exact .inl ⟨rfl, .inl hfault⟩
    · exact absurd (Option.some.inj (hstored.symm.trans hone)) hdiffers
  refine Triple.bind ((migrateOne_appends htwo).conseq (fun _ ht => ht)
    (fun _ t ht => upgraded_of_commits h ht.1 ht.2) fun e t ht => ?_) fun _ t ht => ht
  rcases ht with ⟨hfault, rfl⟩ | ⟨hcommit, ht, happends⟩ | ⟨outcome, ht⟩
  · exact .inl ⟨rfl, .inl hfault⟩
  · exact .inr ⟨hcommit, (upgraded_of_commits h ht happends).1⟩
  · refine .inl ⟨ht.unchanged, ht.cause.imp_right ?_⟩
    rintro ⟨-, message, hsql⟩ hlegal
    obtain ⟨after, hafter, -⟩ := execBatch_upgrade h.schema h.sound hlegal
    rw [show executeBatch coerce toVersionTwo.sql file'.contents = .ok after from
      (if_pos rfl).trans hafter] at hsql
    cases hsql

/-! ## 4. The jobs of a store -/

section Codec

theorem getString_text (s : String) : getString (.text (utf8 s)) = some s := by
  have hbytes : (⟨(utf8 s).toArray⟩ : ByteArray) = s.toUTF8 := by simp [utf8]
  have hvalid : String.fromUTF8? s.toUTF8 = some s := dif_pos s.isValidUTF8
  rw [getString, hbytes, hvalid]

theorem idFromBlob_bytes (id : Id) : idFromBlob id.bytes = .ok id := dif_pos id.length_bytes

theorem mapM_idFromBlob (x : Option Id) : (x.map Id.bytes).mapM idFromBlob = .ok x := by
  cases x with
  | none => rfl
  | some id =>
    show some <$> idFromBlob id.bytes = _
    rw [idFromBlob_bytes]
    rfl

theorem decodeState_encodeState (state : JobState) :
    decodeState (encodeState state) = some state := by
  cases state <;> rfl

theorem decodeEffectMode_encode (mode : EffectMode) :
    decodeEffectMode mode.encode.toUInt64.toInt64 = some mode := by
  cases mode <;> rfl

theorem toUInt32_toInt64 (n : UInt32) : n.toUInt64.toInt64.toUInt64.toUInt32 = n := by simp

theorem ofOption_ne_null {α : Type} {value : α → Value} (h : ∀ a, value a ≠ .null) {x : Option α} :
    ofOption value x ≠ .null ↔ x.isSome = true := by
  cases x with
  | none => simp [ofOption]
  | some a => simp [ofOption, h a]

theorem null_iff {α : Type} {v : Value} {x : Option α} (h : v ≠ .null ↔ x.isSome = true) :
    v = .null ↔ x = none := by
  rw [← Option.not_isSome_iff_eq_none, ← h, not_not]

theorem getOption_ofOption {α : Type} {get : Value → Option α} {value : α → Value}
    (hget : ∀ a, get (value a) = some a) (h : ∀ a, value a ≠ .null) (x : Option α) :
    getOption get (ofOption value x) = some x := by
  cases x with
  | none => rfl
  | some a =>
    show getOption get (value a) = _
    unfold getOption
    split
    · next hnull => exact absurd hnull (h a)
    · rw [hget]
      rfl

theorem getOption_ofId (x : Option Id) :
    getOption getVec (ofOption (fun id => .blob id.bytes) x) = some (x.map Id.bytes) := by
  cases x <;> rfl

theorem get_ok [ColumnErrors] {α : Type} {row : Row} {i : Nat} {f : Value → Option α} {a : α}
    (h : f (row.getD i .null) = some a) : Row.get row i f = .ok a := by
  rw [Row.get, h]
  rfl

theorem ok_bind {α β : Type} (a : α) (f : α → Except Error β) : Except.ok a >>= f = f a := rfl

/-- The columns that a read of jobs asks for. -/
theorem value_storedJob (job : JobRow) : jobColumns.map (jobsTable.value (storedJob job)) =
    [.blob job.spec.jobId.bytes, .integer job.enqueueSequence, .text (utf8 job.spec.queue),
      .text (utf8 job.spec.partitionKey), .blob job.spec.payload, .integer job.spec.notBeforeMs,
      .integer job.spec.maxAttempts.toUInt64.toInt64,
      .integer job.spec.effectMode.encode.toUInt64.toInt64,
      ofOption (fun s => .text (utf8 s)) job.spec.idempotencyKey,
      .integer (encodeState job.state), .integer job.attempt.toUInt64.toInt64,
      ofOption (fun id => .blob id.bytes) job.leaseToken,
      ofOption (fun s => .text (utf8 s)) job.workerId, ofOption .integer job.leaseExpiresAtMs,
      ofOption .integer job.retryAfterMs, ofOption .integer job.terminalAtMs,
      ofOption .blob job.resultDigest, ofOption (fun s => .text (utf8 s)) job.errorSummary] :=
  rfl

/-! Comparisons of what is stored. -/

theorem toInt_stored (n : UInt32) : n.toUInt64.toInt64.toInt = n.toNat := by
  have hlt := n.toNat_lt
  rw [toInt_toInt64 (by rw [UInt32.toNat_toUInt64]; omega), UInt32.toNat_toUInt64]

theorem zero_lt_stored (n : UInt32) :
    (Value.integer 0).lt (.integer n.toUInt64.toInt64) = true ↔ 0 < n := by
  show decide _ = true ↔ _
  rw [decide_eq_true_iff, Int64.lt_iff_toInt_lt, toInt_stored, UInt32.lt_iff_toNat_lt]
  exact Int.natCast_pos

theorem stored_nonneg (n : UInt32) :
    (Value.integer n.toUInt64.toInt64).lt (.integer 0) = false := by
  show decide _ = false
  rw [decide_eq_false_iff_not, Int64.lt_iff_toInt_lt, toInt_stored]
  exact Int.not_lt.mpr (Int.natCast_nonneg _)

theorem state_inRange (state : JobState) :
    (Value.integer (encodeState state)).lt (.integer 0) = false ∧
      (Value.integer 6).lt (.integer (encodeState state)) = false := by
  cases state <;> decide

theorem same_state (state other : JobState) :
    (Value.integer (encodeState state)).same (.integer (encodeState other)) = true ↔
      state = other := by
  cases state <;> cases other <;> decide

theorem same_terminal (state : JobState) :
    (Value.integer (encodeState state)).same (.integer 4) = true ∨
      (Value.integer (encodeState state)).same (.integer 5) = true ∨
      (Value.integer (encodeState state)).same (.integer 6) = true ↔ state.isTerminal = true := by
  cases state <;> decide

end Codec

end UpgradeLemmas

open UpgradeLemmas

/-- A job that was written is read back as it was. -/
theorem rowToJob_storedJob [ColumnErrors] (job : JobRow) :
    rowToJob (jobColumns.map (jobsTable.value (storedJob job))) = .ok job.info := by
  have htext : ∀ x : Option String, getOption getString (ofOption _ x) = some x :=
    getOption_ofOption getString_text fun _ => Value.noConfusion
  have hint : ∀ x : Option Int64, getOption getI64 (ofOption .integer x) = some x :=
    getOption_ofOption (fun _ => rfl) fun _ => Value.noConfusion
  have hblob : ∀ x : Option Bytes, getOption getVec (ofOption .blob x) = some x :=
    getOption_ofOption (fun _ => rfl) fun _ => Value.noConfusion
  rw [value_storedJob]
  simp only [rowToJob, Row.get, List.getD_cons_zero, List.getD_cons_succ, ok_bind, getVec, getI64,
    getString_text, htext, hint, hblob, getOption_ofId, idFromBlob_bytes, mapM_idFromBlob,
    decodeState_encodeState, decodeEffectMode_encode, Option.elim_some, toUInt32_toInt64]
  rfl

/-- The CHECKs of the store's own model of `jobs` are those of the second migration. -/
theorem legal_storedJob (job : JobRow) :
    Legal (jobsTable.value (storedJob job)) ↔ job.check = true := by
  have hmax : jobsTable.value (storedJob job) "max_attempts" =
      .integer job.spec.maxAttempts.toUInt64.toInt64 := rfl
  have hattempt : jobsTable.value (storedJob job) "attempt" =
      .integer job.attempt.toUInt64.toInt64 := rfl
  have hstate : jobsTable.value (storedJob job) "state" = .integer (encodeState job.state) := rfl
  have htoken : jobsTable.value (storedJob job) "lease_token" ≠ .null ↔ job.leaseToken.isSome :=
    ofOption_ne_null fun _ => Value.noConfusion
  have hworker : jobsTable.value (storedJob job) "worker_id" ≠ .null ↔ job.workerId.isSome :=
    ofOption_ne_null fun _ => Value.noConfusion
  have hexpiry : jobsTable.value (storedJob job) "lease_expires_at_ms" ≠ .null ↔
      job.leaseExpiresAtMs.isSome := ofOption_ne_null fun _ => Value.noConfusion
  have hretry : jobsTable.value (storedJob job) "retry_after_ms" ≠ .null ↔
      job.retryAfterMs.isSome := ofOption_ne_null fun _ => Value.noConfusion
  have hterminal : jobsTable.value (storedJob job) "terminal_at_ms" ≠ .null ↔
      job.terminalAtMs.isSome := ofOption_ne_null fun _ => Value.noConfusion
  have hleased := same_state job.state .leased
  have hwaiting := same_state job.state .retryWait
  rw [TotalLemmas.check_iff]
  constructor
  · rintro ⟨hpositive, -, -, hlease, hnoLease, htime, hend⟩
    rw [hmax] at hpositive
    rw [hstate] at hlease hnoLease htime hend
    refine ⟨(zero_lt_stored _).mp hpositive, fun hs => ?_, fun hs => ?_,
      fun hs => hretry.mp (htime (hwaiting.mpr hs)), ?_⟩
    · obtain ⟨ht, hw, he⟩ := hlease (hleased.mpr hs)
      exact ⟨htoken.mp ht, hworker.mp hw, hexpiry.mp he⟩
    · obtain ⟨ht, hw, he⟩ := hnoLease (Bool.eq_false_iff.mpr (mt hleased.mp hs))
      exact ⟨(null_iff htoken).mp ht, (null_iff hworker).mp hw, (null_iff hexpiry).mp he⟩
    · exact hterminal.symm.trans (hend.symm.trans (same_terminal _))
  · rintro ⟨hpositive, hlease, hnoLease, htime, hend⟩
    refine ⟨?_, ?_, ?_, fun hs => ?_, fun hs => ?_, fun hs => ?_, ?_⟩
    · rw [hmax]
      exact (zero_lt_stored _).mpr hpositive
    · rw [hattempt]
      exact stored_nonneg _
    · rw [hstate]
      exact state_inRange _
    · rw [hstate] at hs
      obtain ⟨ht, hw, he⟩ := hlease (hleased.mp hs)
      exact ⟨htoken.mpr ht, hworker.mpr hw, hexpiry.mpr he⟩
    · rw [hstate] at hs
      obtain ⟨ht, hw, he⟩ := hnoLease fun hs' => Bool.eq_false_iff.mp hs (hleased.mpr hs')
      exact ⟨(null_iff htoken).mpr ht, (null_iff hworker).mpr hw, (null_iff hexpiry).mpr he⟩
    · rw [hstate] at hs
      exact hretry.mpr (htime (hwaiting.mp hs))
    · rw [hstate]
      exact (same_terminal _).trans (hend.symm.trans hterminal.symm)

/-- Jobs that the state machine has written are legal, whatever happened to them. -/
theorem legalJobs_of_table {db : Sql.Database} (jobs : Table jobsSchema)
    (h : db.rows "jobs" = jobs.rows.map storedJob) : LegalJobs db := by
  intro row hrow
  rw [h] at hrow
  obtain ⟨job, hjob, rfl⟩ := List.mem_map.mp hrow
  exact (legal_storedJob job).mpr (jobs.checked job hjob)

/-! ## 5. Opening -/

/-- The upgrade of a file of version 1 loses nothing, and it is atomic. Whatever happens to the
calls of SQLite, either the store is opened and the file is upgraded, or it is not opened and
the file is what it was, unless it was COMMIT itself that was not reported. If nothing
happens to them, the store is opened exactly if all jobs are legal. -/
theorem upgrade_lossless (coerce : Affinity → Value → Value) (limits : Limits)
    (connect : Except Stop Unit) (env : Environment) {db : Database Sql.Database}
    (h : VersionOne coerce db) :
    ((openStore coerce limits connect env db).1 = .ok () ∧
        Upgraded coerce env db (openStore coerce limits connect env db).2 ∨
      ∃ stop, (openStore coerce limits connect env db).1 = .error stop ∧
        ((openStore coerce limits connect env db).2 = db ∨
          (∃ e, stop = .stop e ∧ env.Unreported 2 e) ∧
            Upgraded coerce env db (openStore coerce limits connect env db).2)) ∧
    (limits.validate = .ok () → connect = .ok () → (∀ e, ¬ env.Faults e) →
      ((openStore coerce limits connect env db).1 = .ok () ↔ LegalJobs db.contents)) := by
  have hrun : Ends _ _ (Run.on (executeBatch coerce) ⟨migrations, env⟩ db) := run_versionOne h
  unfold openStore
  generalize hout : Run.on (executeBatch coerce) ⟨migrations, env⟩ db = out at hrun
  have hexec : exec (migrate (executeBatch coerce) env migrations) ⟨db, []⟩ = out := hout
  cases hvalidate : limits.validate with
  | error e => exact ⟨.inr ⟨_, rfl, .inl rfl⟩, nofun⟩
  | ok =>
  cases connect with
  | error e => exact ⟨.inr ⟨_, rfl, .inl rfl⟩, nofun⟩
  | ok =>
  simp only [hexec]
  rcases out with ⟨e | _, t⟩
  · refine ⟨.inr ⟨_, rfl, hrun.imp Refused.unchanged fun ht => ⟨⟨e, rfl, ht.1⟩, ht.2⟩⟩, ?_⟩
    refine fun _ _ hquiet => ⟨nofun, fun hlegal => ?_⟩
    rcases hrun with ⟨-, hfault | hillegal⟩ | ⟨⟨-, hfault⟩, -⟩
    · exact (hquiet e hfault).elim
    · exact absurd hlegal hillegal
    · exact (hquiet e ⟨_, hfault⟩).elim
  · exact ⟨.inl ⟨rfl, hrun.1⟩, fun _ _ _ => ⟨fun _ => hrun.2, fun _ => rfl⟩⟩

def Sample.id : Value := .blob (List.replicate 16 1)

/-- A job that is leased until 100. -/
def Sample.leasedJob : Row :=
  [id, .integer 1, id, .text [113], .text [112], .blob [], .integer 0, .integer 3, .integer 0,
    .null, .integer 1, .integer 1, id, .text [119], .integer 100, .null, .null, .null, .null, id]

/-- The file of a store of version 1 with a transaction and a job. -/
def Sample.versionOne : Database Sql.Database where
  contents :=
    { schema := (defineAll initial .empty).toOption.getD .empty
      rows := fun name =>
        if name = "transactions" then
          [[id, .integer 1, .integer 10, .null, .blob [], .blob [], .integer 2]]
        else if name = "jobs" then [leasedJob]
        else [] }
  schemaMigrations := some
    ⟨[⟨1, 5, checksum toVersionOne.sql⟩], List.pairwise_singleton _ _, fun _ _ => rfl⟩

theorem upgrade_lossless_sample :
    (openStore (fun _ v => v) Limits.default (.ok ()) Sample.quiet Sample.versionOne).1 =
      .ok () := by
  have hone : VersionOne (fun _ v => v) Sample.versionOne := ⟨⟨5, rfl⟩, rfl, by decide⟩
  have hlegal : LegalJobs Sample.versionOne.contents := fun row hrow => by
    obtain rfl := List.mem_singleton.mp hrow
    exact (allowed_iff (by decide)).mp (by decide)
  exact ((upgrade_lossless _ _ _ _ hone).2 (by decide) rfl
    (by rintro e ⟨statement, ⟨⟩⟩)).mpr hlegal

end Minisqlite.Migrations
