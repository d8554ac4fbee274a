import Mathlib.Data.List.Infix
import Minisqlite.Lib.Machine
import Minisqlite.Store.Migrate

/-!
# Migration

A run of `migrate` verifies the migrations that are recorded and executes the
others, all in one loop. It is safe to stop it anywhere: the recorded migrations
come first in every list that the file has seen, so the verification is over
before the first execution, and every transaction records its migration together
with what the SQL has done.

* `migrateOne_recorded`, `migrateOne_missing`: one pass of the loop.
* `verify_spec`, `advance_spec`: the loop over each of the two parts.
* `run_tooNew`, `run_diverges`, `run_applies`: one run.
* `recorded_isPrefix`: what any number of runs, each stopped anywhere, leave behind.
* `migration_forward_only`: all of it.
-/

namespace Minisqlite.Migrations

open Tables Runs Stops

/-! ## Runs -/

/-- One run of `migrate`: the list of this build, and what happens. -/
structure Run where
  migrations : List Migration
  env : Environment

section Runs

variable {σ : Type} (executeBatch : String → σ → Except String σ)

/-- The result of a run, the file after it, and what was executed. -/
def Run.on (run : Run) (db : Database σ) : Except Stop Unit × Session σ :=
  exec (migrate executeBatch run.env run.migrations) ⟨db, []⟩

/-- A file and the runs of `migrate` on it. It starts without the table. -/
def file (contents : σ) : Machine (Database σ) Run (Except Stop Unit) where
  start := ⟨contents, none⟩
  step db run := ((run.on executeBatch db).2.db, (run.on executeBatch db).1)

/-- The SQL of the migrations, one after the other. -/
def applySql (migrations : List Migration) (contents : σ) : Except String σ :=
  migrations.foldlM (fun contents migration => executeBatch migration.sql contents) contents

end Runs

/-- Some call of SQLite stops the run with `e`. -/
def Environment.Faults (env : Environment) (e : Stop) : Prop :=
  ∃ statement, (env.fate statement).result = .error e

/-- The COMMIT of a migration stops the run with `e`, and takes effect all the same. -/
def Environment.Unreported (env : Environment) (version : UInt32) (e : Stop) : Prop :=
  (env.fate (.commit version)).written = true ∧ (env.fate (.commit version)).result = .error e

/-! ## What is recorded -/

/-- What a migration leaves in `schema_migrations`, the time apart. -/
def Migration.record (migration : Migration) : UInt32 × Bytes :=
  (migration.version, checksum migration.sql)

def MigrationRow.record (row : MigrationRow) : UInt32 × Bytes := (row.version, row.checksum)

section Recorded

variable {σ : Type}

def Database.recorded (db : Database σ) : List (UInt32 × Bytes) :=
  db.table.rows.map MigrationRow.record

def Database.versions (db : Database σ) : List UInt32 := db.table.rows.map MigrationRow.version

/-- The migrations that are not recorded. -/
def missing (migrations : List Migration) (db : Database σ) : List Migration :=
  migrations.filter fun migration => decide (migration.version ∉ db.versions)

/-- A recorded version exceeds the last supported one. -/
def TooNew (migrations : List Migration) (db : Database σ) : Prop :=
  ∃ version ∈ db.versions, supported migrations < version

/-- The stored checksum of the migration differs from this build's. -/
def Diverges (db : Database σ) (migration : Migration) : Prop :=
  ∃ stored, db.appliedChecksum migration.version = some stored ∧ stored ≠ checksum migration.sql

/-- The recorded migrations are the first ones of the list. -/
def RecordedFirst (migrations : List Migration) (db : Database σ) : Prop :=
  ∃ old new, migrations = old ++ new ∧ (∀ migration ∈ old, migration.version ∈ db.versions) ∧
    ∀ migration ∈ new, migration.version ∉ db.versions

end Recorded

namespace MigrationLemmas

variable {σ : Type} {executeBatch : String → σ → Except String σ} {env : Environment}
  {migrations build : List Migration} {migration : Migration} {db db' : Database σ}
  {s : Session σ}

theorem recorded_fst : db.recorded.map Prod.fst = db.versions := by
  simp [Database.recorded, Database.versions, Function.comp_def, MigrationRow.record]

theorem versions_of_recorded (h : db'.recorded = db.recorded ++ migrations.map Migration.record) :
    db'.versions = db.versions ++ migrations.map Migration.version := by
  rw [← recorded_fst, h, List.map_append, recorded_fst, List.map_map]
  rfl

theorem versions_eq (h : db.recorded = migrations.map Migration.record) :
    db.versions = migrations.map Migration.version := by
  rw [← recorded_fst, h, List.map_map]
  rfl

theorem mem_versions {version : UInt32} {stored : Bytes} (h : (version, stored) ∈ db.recorded) :
    version ∈ db.versions := by
  rw [← recorded_fst]
  exact List.mem_map_of_mem h

theorem appliedChecksum_iff {version : UInt32} {stored : Bytes} :
    db.appliedChecksum version = some stored ↔ (version, stored) ∈ db.recorded := by
  unfold Database.appliedChecksum Database.recorded
  rw [Option.map_eq_some_iff, List.mem_map]
  refine exists_congr fun row => ?_
  rw [Table.lookup_iff migrations_unique]
  simp [MigrationRow.record, and_assoc]

theorem appliedChecksum_eq_none {version : UInt32} :
    db.appliedChecksum version = none ↔ version ∉ db.versions := by
  unfold Database.appliedChecksum Database.versions
  rw [Option.map_eq_none_iff, Table.lookup_eq_none]
  simp

theorem appliedChecksum_of_mem {version : UInt32} (h : version ∈ db.versions) :
    ∃ stored, db.appliedChecksum version = some stored :=
  Option.ne_none_iff_exists'.mp fun hnone => appliedChecksum_eq_none.mp hnone h

theorem currentVersion_gt {version : UInt32} :
    version < db.currentVersion ↔ ∃ v ∈ db.versions, version < v := by
  unfold Database.currentVersion
  show _ < db.versions.max?.getD 0 ↔ _
  cases hmax : db.versions.max? with
  | none =>
    rw [List.max?_eq_none_iff.mp hmax]
    simp
  | some top =>
    obtain ⟨hmem, hle⟩ := List.max?_eq_some_iff.mp hmax
    constructor
    · exact fun h => ⟨top, hmem, h⟩
    · rintro ⟨v, hv, h⟩
      exact UInt32.lt_of_lt_of_le h (hle v hv)

/-! ## One pass of the loop -/

theorem exec_call {s : Session σ} (statement : Statement) :
    exec (call env statement) s = ((env.fate statement).result, s) := by
  unfold call
  rw [exec_ofExcept]

theorem exec_write {s : Session σ} (statement : Statement) :
    exec (write env statement db) s = ((env.fate statement).result,
      if (env.fate statement).written then { s with db := db } else s) := by
  unfold write
  simp only [exec_bind, exec_modify, exec_call]

/-- A recorded migration is verified and nothing is written. -/
theorem migrateOne_recorded {s : Session σ} {stored : Bytes}
    (h : s.db.appliedChecksum migration.version = some stored) :
    Triple (· = s) (migrateOne executeBatch env migration)
      (fun _ t => t = s ∧ ¬ Diverges s.db migration)
      fun e t => t = s ∧ (env.Faults e ∨ Diverges s.db migration ∧
        e = .error (.migrationChecksumMismatch migration.version)) := by
  intro t ht
  subst ht
  have hdiverges : Diverges t.db migration ↔ stored ≠ checksum migration.sql := by
    simp [Diverges, h]
  unfold migrateOne
  rw [exec_bind, exec_call]
  cases hfate : (env.fate (.selectChecksum migration.version)).result with
  | error e => exact ⟨rfl, .inl ⟨_, hfate⟩⟩
  | ok =>
    show Ends _ _ (exec (get >>= _) t)
    rw [exec_bind, exec_get]
    simp only [h]
    by_cases hsame : stored = checksum migration.sql
    · rw [if_neg (not_not.mpr hsame)]
      exact ⟨rfl, fun hd => hdiverges.mp hd hsame⟩
    · rw [if_pos hsame]
      exact ⟨rfl, .inr ⟨hdiverges.mpr hsame, rfl⟩⟩

/-- The migration was executed on the file and recorded in it. -/
structure Commits (executeBatch : String → σ → Except String σ) (s : Session σ)
    (migration : Migration) (t : Session σ) : Prop where
  recorded : t.db.recorded = s.db.recorded ++ [migration.record]
  contents : executeBatch migration.sql s.db.contents = .ok t.db.contents
  executed : t.executed = s.executed ++ [⟨migration, .ok ()⟩]

/-- The migration was executed, and `e` came before its COMMIT. -/
structure Aborts (executeBatch : String → σ → Except String σ) (env : Environment) (s : Session σ)
    (migration : Migration) (e : Stop) (t : Session σ) (outcome : Except Stop Unit) : Prop where
  unchanged : t.db = s.db
  executed : t.executed = s.executed ++ [⟨migration, outcome⟩]
  passed_on : ∀ e', outcome = .error e' → e' = e
  cause : env.Faults e ∨ outcome = .error e ∧
    ∃ message, executeBatch migration.sql s.db.contents = .error message

/-- A change that was not written stopped the run. -/
theorem stops_of_unwritten {fate : Fate} (h : fate.written = false) :
    ∃ e, fate.result = .error e := by
  cases fate with
  | done => cases h
  | fails => exact ⟨_, rfl⟩
  | dies => exact ⟨_, rfl⟩

/-- The outcome of `execute_batch` is that of the SQL, or of the environment. -/
theorem batchOutcome_error {contents : σ} {e : Stop}
    (h : batchOutcome executeBatch env migration contents = .error e) :
    env.Faults e ∨ ∃ message, executeBatch migration.sql contents = .error message := by
  rcases bind_error h with hfault | ⟨_, -, hsql⟩
  · exact .inl ⟨_, hfault⟩
  · cases hbatch : executeBatch migration.sql contents with
    | error message => exact .inr ⟨message, rfl⟩
    | ok =>
      rw [hbatch] at hsql
      cases hsql

theorem batchOutcome_ok {contents contents' : σ}
    (h : batchOutcome executeBatch env migration contents = .ok contents') :
    executeBatch migration.sql contents = .ok contents' := by
  obtain ⟨_, -, hsql⟩ := bind_ok h
  exact mapError_eq_ok.mp hsql

/-- `schema_migrations` has a row more: that of the migration. -/
def Appends (env : Environment) (migration : Migration) (db db' : Database σ) : Prop :=
  db'.table.rows = db.table.rows ++
    [⟨migration.version, env.nowMs migration.version, checksum migration.sql⟩]

/-- A migration that is not recorded is executed in a transaction of its own, and what is
left is the file before it or after it. -/
theorem migrateOne_appends {s : Session σ}
    (h : s.db.appliedChecksum migration.version = none) :
    Triple (· = s) (migrateOne executeBatch env migration)
      (fun _ t => Commits executeBatch s migration t ∧ Appends env migration s.db t.db)
      fun e t => env.Faults e ∧ t = s ∨
        env.Unreported migration.version e ∧
          Commits executeBatch s migration t ∧ Appends env migration s.db t.db ∨
        ∃ outcome, Aborts executeBatch env s migration e t outcome := by
  intro t ht
  subst ht
  obtain ⟨table, htable⟩ : ∃ table, t.db.table.insert
      ⟨migration.version, env.nowMs migration.version, checksum migration.sql⟩ = some table :=
    Table.insert_isSome rfl fun row hrow => decide_eq_false fun he => by
      refine appliedChecksum_eq_none.mp h ?_
      rw [← show row.version = migration.version from he]
      exact List.mem_map_of_mem hrow
  have hrows := (Table.insert_eq_some htable).1
  unfold migrateOne
  rw [exec_bind, exec_call]
  cases hselect : (env.fate (.selectChecksum migration.version)).result with
  | error e => exact .inl ⟨⟨_, hselect⟩, rfl⟩
  | ok =>
  show Ends _ _ (exec (get >>= _) t)
  rw [exec_bind, exec_get]
  simp only [h]
  unfold applyMigration
  rw [exec_bind, exec_call]
  cases hbegin : (env.fate (.beginImmediate migration.version)).result with
  | error e => exact .inl ⟨⟨_, hbegin⟩, rfl⟩
  | ok =>
  show Ends _ _ (exec (get >>= _) t)
  rw [exec_bind, exec_get]
  show Ends _ _ (exec (modify _ >>= _) t)
  rw [exec_bind, exec_modify]
  show Ends _ _ (exec (MonadExcept.ofExcept _ >>= _) _)
  rw [exec_bind, exec_ofExcept]
  cases houtcome : batchOutcome executeBatch env migration t.db.contents with
  | error e =>
    exact .inr (.inr ⟨.error e, rfl, rfl, fun _ he => (Except.error.inj he).symm,
      (batchOutcome_error houtcome).imp_right fun hsql => ⟨rfl, hsql⟩⟩)
  | ok contents =>
  show Ends _ _ (exec (call env _ >>= _) _)
  rw [exec_bind, exec_call]
  cases hinsert : (env.fate (.insert migration.version)).result with
  | error e => exact .inr (.inr ⟨.ok (), rfl, rfl, nofun, .inl ⟨_, hinsert⟩⟩)
  | ok =>
  show Ends _ _ (exec (MonadExcept.ofExcept _ >>= _) _)
  rw [exec_bind, exec_ofExcept, htable]
  show Ends _ _ (exec (write env _ _) _)
  rw [exec_write]
  have hcommits : Commits executeBatch t migration ⟨⟨contents, some table⟩,
      t.executed ++ [⟨migration, .ok ()⟩]⟩ := by
    refine ⟨?_, batchOutcome_ok houtcome, rfl⟩
    show table.rows.map MigrationRow.record = _
    rw [hrows, List.map_append]
    rfl
  cases hwritten : (env.fate (.commit migration.version)).written with
  | true =>
    cases hresult : (env.fate (.commit migration.version)).result with
    | error e => exact .inr (.inl ⟨⟨hwritten, hresult⟩, hcommits, hrows⟩)
    | ok => exact ⟨hcommits, hrows⟩
  | false =>
    obtain ⟨e, hresult⟩ := stops_of_unwritten hwritten
    rw [hresult]
    exact .inr (.inr ⟨.ok (), rfl, rfl, nofun, .inl ⟨_, hresult⟩⟩)

/-- Where a migration that is not recorded is executed, whatever the clock says. -/
theorem migrateOne_missing {s : Session σ}
    (h : s.db.appliedChecksum migration.version = none) :
    Triple (· = s) (migrateOne executeBatch env migration)
      (fun _ => Commits executeBatch s migration)
      fun e t => env.Faults e ∧ (t = s ∨ Commits executeBatch s migration t) ∨
        ∃ outcome, Aborts executeBatch env s migration e t outcome := by
  refine (migrateOne_appends h).conseq (fun _ ht => ht) (fun _ _ ht => ht.1) fun e t ht => ?_
  rcases ht with ⟨hfault, ht⟩ | ⟨⟨-, hfault⟩, ht, -⟩ | ht
  · exact .inl ⟨hfault, .inl ht⟩
  · exact .inl ⟨⟨_, hfault⟩, .inr ht⟩
  · exact .inr ht

/-! ## The loop -/

/-- Over recorded migrations the loop only verifies. -/
theorem verify_spec {s : Session σ} {old : List Migration}
    (hold : ∀ migration ∈ old, migration.version ∈ s.db.versions) :
    Triple (· = s) (old.forM (migrateOne executeBatch env))
      (fun _ t => t = s ∧ ∀ migration ∈ old, ¬ Diverges s.db migration)
      fun e t => t = s ∧ (env.Faults e ∨ ∃ migration ∈ old, Diverges s.db migration ∧
        e = .error (.migrationChecksumMismatch migration.version)) := by
  refine (Triple.forM (fun pre t => t = s ∧ ∀ m ∈ pre, ¬ Diverges s.db m) ?_).conseq
    (fun t ht => ⟨ht, by simp⟩) (fun _ _ h => h) fun _ _ h => h
  rintro pre migration post rfl t ⟨rfl, hpre⟩
  obtain ⟨stored, hstored⟩ := appliedChecksum_of_mem (hold migration (by simp))
  refine (migrateOne_recorded hstored t rfl).mono (fun _ u hu => ?_) fun e u hu => ?_
  · obtain ⟨rfl, hsame⟩ := hu
    refine ⟨rfl, fun m hm => ?_⟩
    rcases List.mem_append.mp hm with hm | hm
    · exact hpre m hm
    · rwa [List.mem_singleton.mp hm]
  · obtain ⟨rfl, hfault | ⟨hdiverges, rfl⟩⟩ := hu
    · exact ⟨rfl, .inl hfault⟩
    · exact ⟨rfl, .inr ⟨migration, by simp, hdiverges, rfl⟩⟩

end MigrationLemmas

/-- The migrations `applied` of `rest` were executed on the file and recorded in it, each
in a transaction of its own, and `last` was executed in one that is not there. -/
structure Advanced {σ : Type} (executeBatch : String → σ → Except String σ) (db : Database σ)
    (rest applied : List Migration) (last : Option Execution) (t : Session σ) : Prop where
  order : applied ++ last.toList.map Execution.migration <+: rest
  recorded : t.db.recorded = db.recorded ++ applied.map Migration.record
  contents : applySql executeBatch applied db.contents = .ok t.db.contents
  executed : t.executed = applied.map (fun migration => ⟨migration, .ok ()⟩) ++ last.toList

/-- Nothing was recorded and no SQL of a migration took effect. -/
structure Unchanged {σ : Type} (db db' : Database σ) : Prop where
  recorded : db'.recorded = db.recorded
  contents : db'.contents = db.contents

/-- The run executes no SQL of a migration, changes nothing and returns the error, if no
call of SQLite stopped it before. -/
structure Refuses {σ : Type} (env : Environment) (db : Database σ) (error : StorageError)
    (out : Except Stop Unit × Session σ) : Prop where
  executed : out.2.executed = []
  unchanged : Unchanged db out.2.db
  result : out.1 = .error (.error error) ∨ ∃ fault, out.1 = .error fault ∧ env.Faults fault

/-- The run executes no SQL of a migration, changes nothing and succeeds, if no call of
SQLite stopped it. -/
structure Repeats {σ : Type} (env : Environment) (db : Database σ)
    (out : Except Stop Unit × Session σ) : Prop where
  executed : out.2.executed = []
  unchanged : Unchanged db out.2.db
  result : out.1 = .ok () ∨ ∃ fault, out.1 = .error fault ∧ env.Faults fault

/-- Why a run over migrations that are not recorded stopped with `e`. -/
structure StoppedBy {σ : Type} (executeBatch : String → σ → Except String σ) (env : Environment)
    (last : Option Execution) (t : Session σ) (e : Stop) : Prop where
  passed_on : ∀ x ∈ last, ∀ e', x.outcome = .error e' → e' = e
  cause : env.Faults e ∨ ∃ x ∈ last, x.outcome = .error e ∧
    ∃ message, executeBatch x.migration.sql t.db.contents = .error message

namespace MigrationLemmas

variable {σ : Type} {executeBatch : String → σ → Except String σ} {env : Environment}
  {migrations build : List Migration} {migration : Migration} {db db' : Database σ}

theorem applySql_append (pre post : List Migration) (contents : σ) :
    applySql executeBatch (pre ++ post) contents =
      applySql executeBatch pre contents >>= applySql executeBatch post :=
  List.foldlM_append

theorem applySql_cons (post : List Migration) (contents : σ) :
    applySql executeBatch (migration :: post) contents =
      executeBatch migration.sql contents >>= applySql executeBatch post :=
  List.foldlM_cons

/-- Over migrations that are not recorded the loop executes one after the other. -/
theorem advance_spec {rest : List Migration}
    (hrest : ∀ migration ∈ rest, migration.version ∉ db.versions)
    (hdistinct : (rest.map Migration.version).Nodup) :
    Triple (· = ⟨db, []⟩) (rest.forM (migrateOne executeBatch env))
      (fun _ => Advanced executeBatch db rest rest none)
      fun e t => ∃ applied last, Advanced executeBatch db rest applied last t ∧
        StoppedBy executeBatch env last t e := by
  refine (Triple.forM (fun pre t => Advanced executeBatch db rest pre none t ∧ pre <+: rest)
    ?_).conseq ?_ (fun _ _ h => h.1) fun _ _ h => h
  · rintro pre migration post rfl s ⟨hs, hprefix⟩
    have hnext : pre ++ [migration] <+: pre ++ migration :: post := by simp
    -- Neither the file nor the passes before have recorded this version.
    have hmissing : s.db.appliedChecksum migration.version = none := by
      rw [appliedChecksum_eq_none, versions_of_recorded hs.recorded, List.mem_append, not_or]
      refine ⟨hrest migration (by simp), fun hmem => ?_⟩
      rw [List.map_append, List.nodup_append] at hdistinct
      exact hdistinct.2.2 _ hmem _ (by simp) rfl
    have hcommits : ∀ t, Commits executeBatch s migration t →
        Advanced executeBatch db (pre ++ migration :: post) (pre ++ [migration]) none t :=
      fun t ht =>
        { order := by simp
          recorded := by simp [ht.recorded, hs.recorded]
          contents := by
            rw [applySql_append, hs.contents]
            exact (applySql_cons [] _).trans (bind_eq_ok.mpr ⟨_, ht.contents, rfl⟩)
          executed := by simp [ht.executed, hs.executed] }
    refine (migrateOne_missing hmissing s rfl).mono (fun _ t ht => ⟨hcommits t ht, hnext⟩)
      fun e t ht => ?_
    rcases ht with ⟨hfault, rfl | ht⟩ | ⟨outcome, ht⟩
    · exact ⟨pre, none, hs, nofun, .inl hfault⟩
    · exact ⟨_, none, hcommits t ht, nofun, .inl hfault⟩
    · refine ⟨pre, some ⟨migration, outcome⟩,
        { order := hnext
          recorded := by rw [ht.unchanged]; exact hs.recorded
          contents := by rw [ht.unchanged]; exact hs.contents
          executed := by simp [ht.executed, hs.executed] }, ?_, ?_⟩
      · rintro x ⟨⟩ e' he'
        exact ht.passed_on e' he'
      · refine ht.cause.imp_right fun hsql => ⟨_, rfl, hsql.1, ?_⟩
        rw [ht.unchanged]
        exact hsql.2
  · rintro s rfl
    exact ⟨⟨by simp, by simp, rfl, rfl⟩, by simp⟩

/-! ## One run -/

/-- Two states of the file that differ in nothing, or in whether the table was created. -/
structure SameFile (db db' : Database σ) : Prop where
  table : db'.table = db.table
  contents : db'.contents = db.contents

namespace SameFile

theorem recorded (h : SameFile db db') : db'.recorded = db.recorded := by
  unfold Database.recorded
  rw [h.table]

theorem versions (h : SameFile db db') : db'.versions = db.versions := by
  unfold Database.versions
  rw [h.table]

theorem diverges (h : SameFile db db') : Diverges db' migration ↔ Diverges db migration := by
  unfold Diverges Database.appliedChecksum
  rw [h.table]

theorem unchanged (h : SameFile db db') : Unchanged db db' := ⟨h.recorded, h.contents⟩

end SameFile

theorem refuses_of_ends {out : Except Stop Unit × Session σ} {error : StorageError}
    (h : Ends (fun _ _ => False) (fun e t => t.executed = [] ∧ Unchanged db t.db ∧
      (e = .error error ∨ env.Faults e)) out) : Refuses env db error out := by
  rcases out with ⟨e | _, t⟩
  · obtain ⟨hexecuted, hfile, hcause⟩ := h
    refine ⟨hexecuted, hfile, ?_⟩
    rcases hcause with rfl | hfault
    · exact .inl rfl
    · exact .inr ⟨e, rfl, hfault⟩
  · exact h.elim

theorem missing_append {old new : List Migration}
    (hold : ∀ migration ∈ old, migration.version ∈ db.versions)
    (hnew : ∀ migration ∈ new, migration.version ∉ db.versions) :
    missing (old ++ new) db = new := by
  unfold missing
  rw [List.filter_append, List.filter_eq_nil_iff.mpr fun m hm => by simpa using hold m hm,
    List.filter_eq_self.mpr fun m hm => by simpa using hnew m hm, List.nil_append]

/-- A run checks the version, and then it is the loop. -/
theorem run_spec {Q : Unit → Session σ → Prop} {E : Stop → Session σ → Prop}
    (hfault : ∀ e db', SameFile db db' → env.Faults e → E e ⟨db', []⟩)
    (hnew : TooNew build db → ∀ db', SameFile db db' →
      E (.error (.schemaTooNew db.currentVersion (supported build))) ⟨db', []⟩)
    (hloop : ¬ TooNew build db → ∀ db', SameFile db db' →
      Triple (· = ⟨db', []⟩) (build.forM (migrateOne executeBatch env)) Q E) :
    Ends Q E (Run.on executeBatch ⟨build, env⟩ db) := by
  have hcreated : SameFile db { db with schemaMigrations := some db.table } := ⟨rfl, rfl⟩
  obtain ⟨db', hdb', hsame⟩ : ∃ db', (if (env.fate .createTable).written then
      (⟨{ db with schemaMigrations := some db.table }, []⟩ : Session σ) else ⟨db, []⟩) = ⟨db', []⟩ ∧
      SameFile db db' := by
    split
    · exact ⟨_, rfl, hcreated⟩
    · exact ⟨db, rfl, rfl, rfl⟩
  unfold Run.on migrate
  rw [exec_bind, exec_get]
  show Ends Q E (exec (write env .createTable _ >>= _) _)
  rw [exec_bind, exec_write]
  simp only [hdb']
  cases hcreate : (env.fate .createTable).result with
  | error e => exact hfault e db' hsame ⟨_, hcreate⟩
  | ok =>
  show Ends Q E (exec (call env .selectVersion >>= _) _)
  rw [exec_bind, exec_call]
  cases hselect : (env.fate .selectVersion).result with
  | error e => exact hfault e db' hsame ⟨_, hselect⟩
  | ok =>
  show Ends Q E (exec (get >>= _) _)
  rw [exec_bind, exec_get]
  have hversion : db'.currentVersion = db.currentVersion := by
    unfold Database.currentVersion
    rw [hsame.table]
  have htoo : TooNew build db ↔ supported build < db'.currentVersion := by
    rw [hversion, currentVersion_gt]
    rfl
  by_cases hnewer : supported build < db'.currentVersion
  · simp only [gt_iff_lt, if_pos hnewer]
    rw [hversion]
    exact hnew (htoo.mpr hnewer) db' hsame
  · simp only [gt_iff_lt, if_neg hnewer]
    exact hloop (mt htoo.mp hnewer) db' hsame _ rfl

/-- A file with a version beyond the last supported one is left alone. -/
theorem run_tooNew (hnew : TooNew build db) :
    Refuses env db (.schemaTooNew db.currentVersion (supported build))
      (Run.on executeBatch ⟨build, env⟩ db) := by
  refine refuses_of_ends (run_spec (fun e db' hsame hfault => ?_) (fun _ db' hsame => ?_)
    fun hold => absurd hnew hold)
  · exact ⟨rfl, hsame.unchanged, .inr hfault⟩
  · exact ⟨rfl, hsame.unchanged, .inl rfl⟩

variable (hfirst : RecordedFirst build db)
include hfirst

/-- The recorded migrations are all verified before the first execution. -/
theorem run_diverges (hnew : ¬ TooNew build db)
    (hdiverges : ∃ migration ∈ build, Diverges db migration) :
    ∃ migration ∈ build, Diverges db migration ∧
      Refuses env db (.migrationChecksumMismatch migration.version)
        (Run.on executeBatch ⟨build, env⟩ db) := by
  obtain ⟨old, new, rfl, hold, hmissing⟩ := hfirst
  have hmem : ∀ migration ∈ old ++ new, Diverges db migration → migration ∈ old := by
    rintro m hm ⟨stored, hstored, -⟩
    exact (List.mem_append.mp hm).resolve_right fun hm =>
      hmissing m hm (mem_versions (appliedChecksum_iff.mp hstored))
  have hends : Ends (fun _ _ => False) (fun e t => t.executed = [] ∧ Unchanged db t.db ∧
      (env.Faults e ∨ ∃ migration ∈ old ++ new, Diverges db migration ∧
        e = .error (.migrationChecksumMismatch migration.version)))
      (Run.on executeBatch ⟨old ++ new, env⟩ db) := by
    refine run_spec (fun e db' hsame hfault => ⟨rfl, hsame.unchanged, .inl hfault⟩)
      (fun h => absurd h hnew) fun _ db' hsame => ?_
    refine Triple.forM_append (R := fun _ => False) ((verify_spec fun m hm => ?_).conseq
      (fun _ h => h) (fun _ t h => ?_) fun e t h => ?_) fun _ h => h.elim
    · rw [hsame.versions]
      exact hold m hm
    · obtain ⟨m, hm, hd⟩ := hdiverges
      exact h.2 m (hmem m hm hd) (hsame.diverges.mpr hd)
    · obtain ⟨rfl, hfault | ⟨m, hm, hd, rfl⟩⟩ := h
      · exact ⟨rfl, hsame.unchanged, .inl hfault⟩
      · exact ⟨rfl, hsame.unchanged,
          .inr ⟨m, List.mem_append_left _ hm, hsame.diverges.mp hd, rfl⟩⟩
  generalize Run.on executeBatch ⟨old ++ new, env⟩ db = out at hends ⊢
  rcases out with ⟨e | _, t⟩
  · obtain ⟨hexecuted, hfile, hfault | ⟨m, hm, hd, rfl⟩⟩ := hends
    · obtain ⟨m, hm, hd⟩ := hdiverges
      exact ⟨m, hm, hd, hexecuted, hfile, .inr ⟨e, rfl, hfault⟩⟩
    · exact ⟨m, hm, hd, hexecuted, hfile, .inl rfl⟩
  · exact hends.elim

/-- The missing migrations are executed. -/
theorem run_applies (hnew : ¬ TooNew build db)
    (hsame : ∀ migration ∈ build, ¬ Diverges db migration)
    (hdistinct : (build.map Migration.version).Nodup) :
    Ends (fun _ => Advanced executeBatch db (missing build db) (missing build db) none)
      (fun e t => ∃ applied last, Advanced executeBatch db (missing build db) applied last t ∧
        StoppedBy executeBatch env last t e) (Run.on executeBatch ⟨build, env⟩ db) := by
  obtain ⟨old, new, rfl, hold, hmissing⟩ := hfirst
  rw [missing_append hold hmissing]
  have hadvanced : ∀ {db' applied last t}, SameFile db db' →
      Advanced executeBatch db' new applied last t → Advanced executeBatch db new applied last t :=
    fun hfile h => ⟨h.order, by rw [h.recorded, hfile.recorded],
      by rw [← hfile.contents]; exact h.contents, h.executed⟩
  refine run_spec (fun e db' hfile hfault => ?_) (fun h => absurd h hnew) fun _ db' hfile => ?_
  · exact ⟨[], none, hadvanced hfile ⟨by simp, by simp, rfl, rfl⟩, nofun, .inl hfault⟩
  · refine Triple.forM_append ((verify_spec fun m hm => ?_).conseq
      (fun _ h => h) (fun _ _ h => h.1) fun e t h => ?_) ?_
    · rw [hfile.versions]
      exact hold m hm
    · obtain ⟨rfl, hfault | ⟨m, hm, hdiverges, -⟩⟩ := h
      · exact ⟨[], none, hadvanced hfile ⟨by simp, by simp, rfl, rfl⟩, nofun, .inl hfault⟩
      · exact absurd (hfile.diverges.mp hdiverges) (hsame m (List.mem_append_left _ hm))
    · refine (advance_spec (fun m hm => ?_) ?_).conseq (fun _ h => h)
        (fun _ _ h => hadvanced hfile h) fun _ _ h => ?_
      · rw [hfile.versions]
        exact hmissing m hm
      · rw [List.map_append] at hdistinct
        exact hdistinct.of_append_right
      · obtain ⟨applied, last, h, hstopped⟩ := h
        exact ⟨applied, last, hadvanced hfile h, hstopped⟩

omit hfirst in
/-- Over a file that has all of the list recorded a run executes nothing. -/
theorem run_again (hnew : ¬ TooNew build db)
    (hall : ∀ migration ∈ build, migration.record ∈ db.recorded) :
    Repeats env db (Run.on executeBatch ⟨build, env⟩ db) := by
  have hdiverges : ∀ migration ∈ build, ¬ Diverges db migration := by
    rintro m hm ⟨stored, hstored, hdiffers⟩
    rw [appliedChecksum_iff.mpr (hall m hm)] at hstored
    exact hdiffers (Option.some.inj hstored).symm
  have hends : Ends (fun _ t => t.executed = [] ∧ Unchanged db t.db)
      (fun e t => t.executed = [] ∧ Unchanged db t.db ∧ env.Faults e)
      (Run.on executeBatch ⟨build, env⟩ db) := by
    refine run_spec (fun e db' hsame hfault => ⟨rfl, hsame.unchanged, hfault⟩)
      (fun h => absurd h hnew) fun _ db' hsame => ?_
    refine (verify_spec fun m hm => ?_).conseq (fun _ h => h) (fun _ t h => ?_) fun e t h => ?_
    · rw [hsame.versions]
      exact mem_versions (hall m hm)
    · rw [h.1]
      exact ⟨rfl, hsame.unchanged⟩
    · obtain ⟨rfl, hfault | ⟨m, hm, hd, -⟩⟩ := h
      · exact ⟨rfl, hsame.unchanged, hfault⟩
      · exact absurd (hsame.diverges.mp hd) (hdiverges m hm)
  generalize Run.on executeBatch ⟨build, env⟩ db = out at hends ⊢
  rcases out with ⟨e | _, t⟩
  · exact ⟨hends.1, hends.2.1, .inr ⟨e, rfl, hends.2.2⟩⟩
  · exact ⟨hends.1, hends.2, .inl rfl⟩

end MigrationLemmas

/-- Every migration of the build is recorded with its checksum, and `require_current` and
`status` say so. -/
structure UpToDate {σ : Type} (build : List Migration) (db : Database σ) : Prop where
  recorded : ∀ migration ∈ build, migration.record ∈ db.recorded
  current : requireCurrent build db = .ok ()
  reported : ∃ statuses, status build db = .ok statuses ∧
    statuses.map MigrationStatus.version = build.map Migration.version ∧
    ∀ entry ∈ statuses, entry.checksumOk = true

/-- The run executes the migrations that are not recorded, in their order, and records each
with what its SQL has done, until it is over or something stops it. -/
structure Applies {σ : Type} (executeBatch : String → σ → Except String σ) (env : Environment)
    (build : List Migration) (db : Database σ) (out : Except Stop Unit × Session σ) : Prop where
  /-- Wherever it stops, the file has the first of them and nothing of the others. -/
  advanced : ∃ applied last, Advanced executeBatch db (missing build db) applied last out.2 ∧
    ∀ e, out.1 = .error e → StoppedBy executeBatch env last out.2 e
  /-- If it succeeds, all were executed once and are recorded, and the next run of this build
  has nothing to do. -/
  succeeded : out.1 = .ok () →
    Advanced executeBatch db (missing build db) (missing build db) none out.2 ∧
      UpToDate build out.2.db ∧
      ∀ env', Repeats env' out.2.db (Run.on executeBatch ⟨build, env'⟩ out.2.db)
  /-- It succeeds if no call of SQLite and no SQL fails. -/
  completes : (∀ e, ¬ env.Faults e) →
    (∃ contents, applySql executeBatch (missing build db) db.contents = .ok contents) →
      out.1 = .ok ()
  /-- If the SQL of a migration fails, exactly the migrations before it are recorded. -/
  failed : ∀ x ∈ out.2.executed, ∀ e, x.outcome = .error e → out.1 = .error e ∧
    ∃ pre post, build = pre ++ x.migration :: post ∧
      ∀ migration ∈ build, migration.version ∈ out.2.db.versions ↔ migration ∈ pre

namespace MigrationLemmas

variable {σ : Type} {executeBatch : String → σ → Except String σ} {env : Environment}
  {all build : List Migration} {migration : Migration} {db db' : Database σ}

theorem distinct_of_increasing (h : (build.map Migration.version).Pairwise (· < ·)) :
    (build.map Migration.version).Nodup :=
  h.imp fun hlt => UInt32.ne_of_lt hlt

/-- In a list with increasing versions none exceeds the last. -/
theorem le_supported (hincreasing : (build.map Migration.version).Pairwise (· < ·))
    (hmem : migration ∈ build) : migration.version ≤ supported build := by
  obtain ⟨rest, last, rfl⟩ := (List.eq_nil_or_concat build).resolve_left (List.ne_nil_of_mem hmem)
  rw [List.concat_eq_append] at hmem hincreasing ⊢
  rw [List.map_append, List.pairwise_append] at hincreasing
  have hlast : supported (rest ++ [last]) = last.version := by simp [supported]
  rw [hlast]
  rcases List.mem_append.mp hmem with hmem | hmem
  · exact UInt32.le_of_lt (hincreasing.2.2 _ (List.mem_map_of_mem hmem) _ (by simp))
  · rw [List.mem_singleton.mp hmem]
    exact UInt32.le_refl _

/-- Files and builds whose versions are first parts of one list. -/
theorem recordedFirst_of_isPrefix {versions : List UInt32} (hdistinct : versions.Nodup)
    (hdb : db.versions <+: versions) (hbuild : build.map Migration.version <+: versions) :
    RecordedFirst build db := by
  refine ⟨build.take db.versions.length, build.drop db.versions.length,
    (List.take_append_drop _ _).symm, fun m hm => ?_, fun m hm hrecorded => ?_⟩
  · have hmem : m.version ∈ (build.map Migration.version).take db.versions.length := by
      rw [← List.map_take]
      exact List.mem_map_of_mem hm
    rw [List.prefix_iff_eq_take.mp hdb]
    exact (hbuild.take _).subset hmem
  · have hmem : m.version ∈ (build.map Migration.version).drop db.versions.length := by
      rw [← List.map_drop]
      exact List.mem_map_of_mem hm
    rw [List.prefix_iff_eq_take.mp hdb] at hrecorded
    rw [← List.take_append_drop db.versions.length versions] at hdistinct
    exact (List.nodup_append.mp hdistinct).2.2 _ hrecorded _ ((hbuild.drop _).subset hmem) rfl

/-- What the two functions that only look make of a file with all of the list recorded. -/
theorem upToDate (hnew : ¬ TooNew build db)
    (hall : ∀ migration ∈ build, migration.record ∈ db.recorded) : UpToDate build db := by
  have hrows : ∀ m ∈ build, ∃ row, db.table.lookup MigrationRow.version m.version = some row ∧
      row.checksum = checksum m.sql := fun m hm =>
    Option.map_eq_some_iff.mp (appliedChecksum_iff.mpr (hall m hm))
  refine ⟨hall, ?_, ?_⟩
  · have hlast : ¬ db.currentVersion < supported build := by
      intro hlt
      cases hlast : build.getLast? with
      | none =>
        rw [supported, hlast] at hlt
        exact UInt32.not_lt.mpr (UInt32.zero_le) hlt
      | some last =>
        rw [supported, hlast] at hlt
        have hmem : last.version ∈ db.versions :=
          mem_versions (hall last (List.mem_of_getLast? hlast))
        exact UInt32.lt_irrefl _ (currentVersion_gt.mpr ⟨_, hmem, hlt⟩)
    unfold requireCurrent
    simp only [gt_iff_lt]
    rw [if_neg fun h => hnew (currentVersion_gt.mp h), if_neg hlast]
  · unfold status
    cases hcreated : db.schemaMigrations with
    | none =>
      have hnothing : build = [] := List.eq_nil_iff_forall_not_mem.mpr fun m hm => by
        obtain ⟨row, hrow, -⟩ := hrows m hm
        rw [Database.table, hcreated] at hrow
        cases hrow
      subst hnothing
      exact ⟨[], rfl, rfl, by simp⟩
    | some table =>
      have htable : db.table = table := by
        rw [Database.table, hcreated]
        rfl
      rw [htable] at hrows
      refine ⟨_, rfl, ?_, fun entry hentry => ?_⟩
      · rw [List.map_filterMap, ← List.filterMap_eq_map]
        refine List.filterMap_congr fun m hm => ?_
        obtain ⟨row, hrow, -⟩ := hrows m hm
        rw [hrow]
        rfl
      · obtain ⟨m, hm, hentry⟩ := List.mem_filterMap.mp hentry
        obtain ⟨row, hrow, hchecksum⟩ := hrows m hm
        rw [hrow] at hentry
        obtain rfl := Option.some.inj hentry
        exact decide_eq_true hchecksum

section Applied

variable {out : Except Stop Unit × Session σ}
  (hends : Ends (fun _ => Advanced executeBatch db (missing build db) (missing build db) none)
    (fun e t => ∃ applied last, Advanced executeBatch db (missing build db) applied last t ∧
      StoppedBy executeBatch env last t e) out)
include hends

theorem completes_of_ends (hquiet : ∀ e, ¬ env.Faults e) {contents : σ}
    (hsql : applySql executeBatch (missing build db) db.contents = .ok contents) :
    out.1 = .ok () := by
  rcases out with ⟨e | _, t⟩
  · obtain ⟨applied, last, hadvanced, hstopped⟩ := hends
    obtain ⟨x, hx, -, message, hfails⟩ := hstopped.cause.resolve_left (hquiet e)
    -- The SQL that failed is the next one of `hsql`.
    obtain ⟨post, hpost⟩ := hadvanced.order
    rw [Option.mem_def.mp hx] at hpost
    rw [← hpost, List.append_assoc, applySql_append, hadvanced.contents] at hsql
    obtain ⟨_, hnext, -⟩ := bind_ok ((applySql_cons _ _).symm.trans hsql)
    rw [hfails] at hnext
    cases hnext
  · rfl

theorem failed_of_ends (hfirst : RecordedFirst build db)
    (hdistinct : (build.map Migration.version).Nodup) {x : Execution} (hx : x ∈ out.2.executed)
    {e : Stop} (houtcome : x.outcome = .error e) : out.1 = .error e ∧
      ∃ pre post, build = pre ++ x.migration :: post ∧
        ∀ migration ∈ build, migration.version ∈ out.2.db.versions ↔ migration ∈ pre := by
  rcases out with ⟨e' | _, t⟩
  · obtain ⟨applied, last, hadvanced, hstopped⟩ := hends
    have hlast : x ∈ last := by
      rw [hadvanced.executed, List.mem_append] at hx
      rcases hx with hx | hx
      · obtain ⟨_, -, rfl⟩ := List.mem_map.mp hx
        cases houtcome
      · exact Option.mem_toList.mp hx
    refine ⟨by rw [hstopped.passed_on x hlast e houtcome], ?_⟩
    obtain ⟨old, new, rfl, hold, hnew⟩ := hfirst
    obtain ⟨post, hpost⟩ := hadvanced.order
    rw [missing_append hold hnew, Option.mem_def.mp hlast] at hpost
    refine ⟨old ++ applied, post, by simp [← hpost], fun m hm => ?_⟩
    rw [versions_of_recorded hadvanced.recorded, List.mem_append, List.mem_append]
    refine or_congr ⟨fun hrecorded => ?_, hold m⟩ ⟨fun happlied => ?_, List.mem_map_of_mem⟩
    · exact (List.mem_append.mp hm).resolve_right fun hm => hnew m hm hrecorded
    · obtain ⟨m', hm', hversion⟩ := List.mem_map.mp happlied
      have hbuild : m' ∈ old ++ new := by
        rw [← hpost]
        simp [hm']
      rwa [← List.inj_on_of_nodup_map hdistinct hbuild hm hversion]
  · rw [hends.executed] at hx
    obtain ⟨_, -, rfl⟩ := List.mem_map.mp (by simpa using hx)
    cases houtcome

end Applied

/-- All that a run does which is not refused. -/
theorem applies_of_run (hfirst : RecordedFirst build db)
    (hincreasing : (build.map Migration.version).Pairwise (· < ·)) (hnew : ¬ TooNew build db)
    (hsame : ∀ migration ∈ build, ¬ Diverges db migration) :
    Applies executeBatch env build db (Run.on executeBatch ⟨build, env⟩ db) := by
  have hdistinct : (build.map Migration.version).Nodup := distinct_of_increasing hincreasing
  have hends : Ends _ _ (Run.on executeBatch ⟨build, env⟩ db) :=
    run_applies hfirst hnew hsame hdistinct
  refine ⟨?_, fun hok => ?_, fun hquiet hsql => ?_, fun x hx e houtcome =>
    failed_of_ends hends hfirst hdistinct hx houtcome⟩
  · generalize Run.on executeBatch ⟨build, env⟩ db = out at hends
    rcases out with ⟨e | _, t⟩
    · obtain ⟨applied, last, hadvanced, hstopped⟩ := hends
      exact ⟨applied, last, hadvanced, fun _ he => Except.error.inj he ▸ hstopped⟩
    · exact ⟨_, none, hends, nofun⟩
  · generalize Run.on executeBatch ⟨build, env⟩ db = out at hends hok ⊢
    rcases out with ⟨e | _, t⟩
    · cases hok
    have hadvanced : Advanced executeBatch db (missing build db) (missing build db) none t := hends
    have hrecorded : ∀ migration ∈ build, migration.record ∈ t.db.recorded := fun m hm => by
      rw [hadvanced.recorded, List.mem_append]
      by_cases hm' : m.version ∈ db.versions
      · obtain ⟨stored, hstored⟩ := appliedChecksum_of_mem hm'
        have hchecksum : stored = checksum m.sql := by
          by_contra hdiffers
          exact hsame m hm ⟨stored, hstored, hdiffers⟩
        rw [hchecksum] at hstored
        exact .inl (appliedChecksum_iff.mp hstored)
      · exact .inr (List.mem_map_of_mem (List.mem_filter.mpr ⟨hm, decide_eq_true hm'⟩))
    have hnew' : ¬ TooNew build t.db := by
      rintro ⟨version, hmem, hlt⟩
      rw [versions_of_recorded hadvanced.recorded, List.mem_append] at hmem
      rcases hmem with hmem | hmem
      · exact hnew ⟨version, hmem, hlt⟩
      · obtain ⟨m, hm, rfl⟩ := List.mem_map.mp hmem
        exact absurd hlt
          (UInt32.not_lt.mpr (le_supported hincreasing (List.mem_of_mem_filter hm)))
    exact ⟨hadvanced, upToDate hnew' hrecorded, fun env' => run_again hnew' hrecorded⟩
  · obtain ⟨contents, hsql⟩ := hsql
    exact completes_of_ends hends hquiet hsql

/-! ## Any number of runs -/

/-- What is missing in a first part of the list continues what is recorded. -/
theorem extends_isPrefix {done applied : List Migration}
    (hdistinct : (all.map Migration.version).Nodup) (hdone : done <+: all) (hbuild : build <+: all)
    (hversions : db.versions = done.map Migration.version)
    (happlied : applied <+: missing build db) : done ++ applied <+: all := by
  have hrecorded : ∀ migration ∈ done, migration.version ∈ db.versions := fun m hm => by
    rw [hversions]
    exact List.mem_map_of_mem hm
  rcases List.prefix_or_prefix_of_prefix hdone hbuild with ⟨rest, rfl⟩ | hshorter
  · have hrest : ∀ migration ∈ rest, migration.version ∉ db.versions := fun m hm hmem => by
      have hnodup := (hbuild.map Migration.version).sublist.nodup hdistinct
      rw [hversions] at hmem
      rw [List.map_append] at hnodup
      exact (List.nodup_append.mp hnodup).2.2 _ hmem _ (List.mem_map_of_mem hm) rfl
    rw [missing_append hrecorded hrest] at happlied
    exact ((List.prefix_append_right_inj done).mpr happlied).trans hbuild
  · have hnothing : missing build db = [] := by
      have h : missing (build ++ []) db = [] :=
        missing_append (fun m hm => hrecorded m (hshorter.subset hm)) (by simp)
      rwa [List.append_nil] at h
    rw [hnothing, List.prefix_nil] at happlied
    rwa [happlied, List.append_nil]

section Runs

variable {contents : σ} (hincreasing : (all.map Migration.version).Pairwise (· < ·))
include hincreasing

/-- A build finds nothing to object to in what another build of its list has recorded. -/
theorem applies_of_done {done : List Migration} (hdone : done <+: all) (hbuild : build <+: all)
    (hrecorded : db.recorded = done.map Migration.record) (hnew : ¬ TooNew build db) :
    Applies executeBatch env build db (Run.on executeBatch ⟨build, env⟩ db) := by
  have hdistinct : (all.map Migration.version).Nodup := distinct_of_increasing hincreasing
  have hprefix : db.versions <+: all.map Migration.version := by
    rw [versions_eq hrecorded]
    exact hdone.map _
  refine applies_of_run (recordedFirst_of_isPrefix hdistinct hprefix (hbuild.map _))
    (hincreasing.sublist (hbuild.map _).sublist) hnew ?_
  rintro m hm ⟨stored, hstored, hdiffers⟩
  rw [appliedChecksum_iff, hrecorded] at hstored
  obtain ⟨m', hm', he⟩ := List.mem_map.mp hstored
  have hversion : m'.version = m.version := congrArg Prod.fst he
  obtain rfl := List.inj_on_of_nodup_map hdistinct (hdone.subset hm') (hbuild.subset hm) hversion
  exact hdiffers (congrArg Prod.snd he).symm

/-- What the runs of builds of one list leave behind is a first part of it, recorded with
what its SQL makes of the file. -/
theorem recorded_isPrefix {runs : List Run} (hruns : ∀ run ∈ runs, run.migrations <+: all) :
    ∃ done, done <+: all ∧
      ((file executeBatch contents).after runs).recorded = done.map Migration.record ∧
      applySql executeBatch done contents =
        .ok ((file executeBatch contents).after runs).contents := by
  refine Machine.after_induction (M := file executeBatch contents) (P := fun runs db =>
    (∀ run ∈ runs, run.migrations <+: all) → ∃ done, done <+: all ∧
      db.recorded = done.map Migration.record ∧
      applySql executeBatch done contents = .ok db.contents)
    (fun _ => ⟨[], List.nil_prefix, rfl, rfl⟩) (fun runs run ih hruns => ?_) runs hruns
  obtain ⟨done, hdone, hrecorded, hcontents⟩ := ih fun r hr => hruns r (by simp [hr])
  generalize (file executeBatch contents).after runs = db at hrecorded hcontents ⊢
  obtain ⟨build, env⟩ := run
  have hbuild : build <+: all := hruns ⟨build, env⟩ (by simp)
  by_cases hnew : TooNew build db
  · have h : Unchanged db (Run.on executeBatch ⟨build, env⟩ db).2.db := (run_tooNew hnew).unchanged
    exact ⟨done, hdone, h.recorded.trans hrecorded, h.contents ▸ hcontents⟩
  · have h : Applies executeBatch env build db (Run.on executeBatch ⟨build, env⟩ db) :=
      applies_of_done hincreasing hdone hbuild hrecorded hnew
    obtain ⟨applied, last, hadvanced, -⟩ := h.advanced
    refine ⟨done ++ applied, ?_, ?_, ?_⟩
    · exact extends_isPrefix (distinct_of_increasing hincreasing) hdone hbuild
        (versions_eq hrecorded) ((List.prefix_append _ _).trans hadvanced.order)
    · show (Run.on executeBatch ⟨build, env⟩ db).2.db.recorded = _
      rw [hadvanced.recorded, hrecorded, List.map_append]
    · show _ = Except.ok (Run.on executeBatch ⟨build, env⟩ db).2.db.contents
      rw [applySql_append, hcontents]
      exact hadvanced.contents

end Runs

end MigrationLemmas

open MigrationLemmas

/-- Migration is forward-only, restartable and all-or-nothing. Take a list of migrations
with increasing versions and a file on which builds of first parts of it have run, each
stopped anywhere. The file has a first part of the list recorded and is what the SQL of
that part makes of it, so a run of the whole list applies the rest. A build with a first
part of the versions may find them too new, or, with other texts or after somebody wrote
to the recorded checksums, may find that they diverge; it refuses both before it executes
anything, and otherwise applies what is missing. -/
theorem migration_forward_only {σ : Type} (executeBatch : String → σ → Except String σ)
    (contents : σ) {all : List Migration}
    (hincreasing : (all.map Migration.version).Pairwise (· < ·)) {runs : List Run}
    (hruns : ∀ run ∈ runs, run.migrations <+: all) :
    (∃ done, done <+: all ∧
      ((file executeBatch contents).after runs).recorded = done.map Migration.record ∧
      applySql executeBatch done contents =
        .ok ((file executeBatch contents).after runs).contents) ∧
    (∀ env, Applies executeBatch env all ((file executeBatch contents).after runs)
      (Run.on executeBatch ⟨all, env⟩ ((file executeBatch contents).after runs))) ∧
    ∀ (db : Database σ) build env,
      db.versions = ((file executeBatch contents).after runs).versions →
      build.map Migration.version <+: all.map Migration.version →
      (TooNew build db → Refuses env db (.schemaTooNew db.currentVersion (supported build))
        (Run.on executeBatch ⟨build, env⟩ db)) ∧
      (¬ TooNew build db → (∃ migration ∈ build, Diverges db migration) →
        ∃ migration ∈ build, Diverges db migration ∧
          Refuses env db (.migrationChecksumMismatch migration.version)
            (Run.on executeBatch ⟨build, env⟩ db)) ∧
      (¬ TooNew build db → (∀ migration ∈ build, ¬ Diverges db migration) →
        Applies executeBatch env build db (Run.on executeBatch ⟨build, env⟩ db)) := by
  obtain ⟨done, hdone, hrecorded, hcontents⟩ :=
    @recorded_isPrefix σ executeBatch all contents hincreasing runs hruns
  have hversions : ((file executeBatch contents).after runs).versions =
      done.map Migration.version := versions_eq hrecorded
  refine ⟨⟨done, hdone, hrecorded, hcontents⟩, fun env => ?_, fun db build env hdb hbuild => ?_⟩
  · refine applies_of_done hincreasing hdone List.prefix_rfl hrecorded ?_
    rintro ⟨version, hmem, hlt⟩
    rw [hversions] at hmem
    obtain ⟨m, hm, rfl⟩ := List.mem_map.mp hmem
    exact absurd hlt (UInt32.not_lt.mpr (le_supported hincreasing (hdone.subset hm)))
  · have hfirst : RecordedFirst build db :=
      recordedFirst_of_isPrefix (distinct_of_increasing hincreasing)
        (hdb.trans hversions ▸ hdone.map _) hbuild
    exact ⟨run_tooNew, run_diverges hfirst,
      applies_of_run hfirst (hincreasing.sublist hbuild.sublist)⟩

/-- The contents are the SQL executed so far. -/
def Sample.executeBatch (sql : String) (contents : List String) : Except String (List String) :=
  .ok (contents ++ [sql])

def Sample.quiet : Environment := ⟨fun _ => .done, fun _ => 0⟩

/-- The process dies in the second COMMIT, which has not arrived. -/
def Sample.dying : Environment :=
  ⟨fun statement => if statement = .commit 2 then .dies false else .done, fun _ => 0⟩

theorem migration_forward_only_sample :
    (Run.on Sample.executeBatch ⟨migrations, Sample.quiet⟩
      ((file Sample.executeBatch []).after [⟨migrations, Sample.dying⟩])).1 = .ok () ∧
    (Run.on Sample.executeBatch ⟨migrations, Sample.quiet⟩
      ((file Sample.executeBatch []).after [⟨migrations, Sample.dying⟩])).2.executed.map
        (fun x => x.migration.version) = [2] := by
  have hruns : ∀ run ∈ [(⟨migrations, Sample.dying⟩ : Run)], run.migrations <+: migrations := by
    simp
  have happlies :=
    (migration_forward_only Sample.executeBatch [] (by decide) hruns).2.1 Sample.quiet
  have hok := happlies.completes (by rintro e ⟨statement, ⟨⟩⟩) ⟨_, rfl⟩
  refine ⟨hok, ?_⟩
  rw [(happlies.succeeded hok).1.executed]
  decide

end Minisqlite.Migrations
