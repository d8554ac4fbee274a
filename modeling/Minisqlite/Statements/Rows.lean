import Minisqlite.Lib.Lockstep
import Minisqlite.Persistence
import Minisqlite.Store.TableWrites

/-!
# Statements on the tables of a store

A file `Stores` a store if its tables have the rows of the store. From such a file a query
finds the records of the store, and a statement leaves a file that stores what the typed
statement leaves, or both fail.

1. `Stores`.
2. Queries: `nextOf_stores`, `streamVersion_stores`, `projectionVersion_stores`.
3. References: `refers_transaction_stores`, `refers_projection_stores`.
4. Statements: `insert_agrees`, `insertOrIgnore_agrees`, `update_agrees`, `upsert_agrees`,
   `delete_agrees`.
-/

namespace Minisqlite.TableWrites

open Sql Tables TableReads Runs Migrations Migrations.UpgradeLemmas

/-! ## 1. Files -/

/-- The file has the tables of the current version with the rows of the store in them. -/
structure Stores (file : Sql.Database) (db : Db) : Prop where
  schema : file.schema = currentSchema
  rows : ∀ t ∈ storeTables, file.rows t.name = rowsOf db t.name

theorem stores_tables (db : Db) : Stores (tables db) db := ⟨rfl, fun _ _ => rfl⟩

theorem rowsOf_eq_update {db db' : Db} {name : String} {rows : List Row}
    (hrows : rowsOf db' name = rows)
    (hothers : ∀ other ≠ name, rowsOf db' other = rowsOf db other) :
    rowsOf db' = Function.update (rowsOf db) name rows := by
  funext other
  by_cases hname : other = name
  · rw [hname, Function.update_self, hrows]
  · rw [Function.update_of_ne hname, hothers other hname]

/-- A store that differs in one table. -/
theorem rowsOf_replace : ∀ t ∈ storeTables, ∀ db x, rowsOf (t.replace x db) =
    Function.update (rowsOf db) t.name (x.rows.map t.encode) := by
  simp only [storeTables, List.forall_mem_cons, List.not_mem_nil, false_implies, implies_true,
    and_true]
  refine ⟨?_, ?_, ?_, ?_, ?_, ?_, ?_, ?_, ?_⟩ <;>
    · intro db x
      refine rowsOf_eq_update rfl fun other hother => ?_
      unfold rowsOf
      split <;> first | rfl | exact absurd rfl hother

namespace Stores

variable {file : Sql.Database} {db : Db} {t : StoreTable}

theorem holds (h : Stores file db) (ht : t ∈ storeTables) :
    file.Holds t.name t.defn t.encode (t.contents db).rows := by
  obtain ⟨-, hholds⟩ := storeTables_spec t ht
  refine ⟨?_, (h.rows t ht).trans (hholds db).rows⟩
  rw [h.schema]
  exact (hholds db).table

theorem jobs (h : Stores file db) : file.Holds "jobs" jobsV2Table storedJob db.jobs.rows :=
  h.holds StoreTable.jobs_mem

theorem activePartitions (h : Stores file db) : file.Holds "active_partitions"
    activePartitionsTable storedActivePartition db.activePartitions.rows :=
  h.holds StoreTable.activePartitions_mem

theorem queueCursors (h : Stores file db) : file.Holds "queue_cursors" queueCursorsTable
    storedQueueCursor db.queueCursors.rows :=
  h.holds StoreTable.queueCursors_mem

theorem transactions (h : Stores file db) : file.Holds "transactions" transactionsTable
    storedTransaction db.transactions.rows :=
  h.holds StoreTable.transactions_mem

/-- New rows in one of the tables. -/
theorem put (h : Stores file db) (ht : t ∈ storeTables) (x : Table t.schema) :
    Stores (file.put t.name (x.rows.map t.encode)) (t.replace x db) := by
  refine ⟨h.schema, fun other hother => ?_⟩
  rw [rowsOf_replace t ht]
  show Function.update file.rows t.name _ other.name = _
  by_cases hname : other.name = t.name
  · rw [hname, Function.update_self, Function.update_self]
  · rw [Function.update_of_ne hname, Function.update_of_ne hname]
    exact h.rows other hother

theorem relation (h : Stores file db) : file.relation = (tables db).relation := by
  funext name
  rw [Database.relation, Database.relation, h.schema]
  refine Option.map_congr fun defn hdefn => ?_
  have hmem := AList.mem_lookup_iff.mp (Option.mem_def.mpr hdefn)
  rw [currentSchema_entries] at hmem
  obtain ⟨t, ht, hname⟩ := List.mem_map.mp hmem
  obtain rfl : t.name = name := congrArg Sigma.fst hname
  rw [h.rows t ht]
  rfl

/-- A read sees the store. -/
theorem answer [ColumnErrors] (h : Stores file db) (read : DataRead) :
    read.answer file = db.read read :=
  (answer_congr h.relation read).trans (reads_refine db read)

end Stores

/-! ## 2. Queries -/

section Queries

variable {file : Sql.Database} {db : Db}

theorem fetch_ok {ε α : Type} [FromStorage ε] {x : Except Error α} {a : α} (h : x = .ok a) :
    (fetch x : Except ε α) = .ok a := by
  rw [h]
  rfl

/-- The next number of a column. -/
theorem nextOf_stores {ε : Type} [FromStorage ε] (h : Stores file db) {t : StoreTable}
    (ht : t ∈ storeTables) {column : String} {key : t.Record → Int64}
    (hkey : ∀ r, t.defn.value (t.encode r) column = .integer (key r)) :
    (nextOf file t.name column : Except ε Int64) =
      execute (nextSequence ((t.contents db).rows.map key)) := by
  have hselect : file.select { names := [column], source := .table t.name } =
      .ok ((t.contents db).rows.map fun r => [t.defn.value (t.encode r) column]) := by
    refine (select_plain (p := fun _ => true) (h.holds ht).source fun _ _ => rfl).trans ?_
    rw [List.filter_true]
    rfl
  have hcolumn : ((t.contents db).rows.map fun r => [t.defn.value (t.encode r) column]).filterMap
      (fun row => row.head?.bind integerOf) = (t.contents db).rows.map key := by
    rw [List.filterMap_map, ← List.filterMap_eq_map]
    refine List.filterMap_congr fun r _ => ?_
    rw [Function.comp_apply, hkey]
    rfl
  rw [nextOf, hselect]
  show execute (nextSequence _) = _
  rw [hcolumn]

theorem streamVersion_stores [ColumnErrors] (h : Stores file db) (streamId : String) :
    streamVersion file streamId = .ok (db.streamVersion streamId) :=
  h.answer (.streamVersion streamId)

theorem projectionVersion_stores [ColumnErrors] (h : Stores file db) (projection : String) :
    projectionVersion file projection = .ok (db.projectionVersion projection) :=
  h.answer (.projectionVersion projection)

end Queries

/-! ## 3. References -/

section References

variable {file : Sql.Database} {db : Db} {defn : TableDef} {name column : String} {row : Row}

/-- A row that names a transaction. -/
theorem refers_transaction_stores (h : Stores file db) {transactionId : Id}
    (hkeys : defn.foreignKeys = [references column "transactions" "transaction_id"])
    (hname : "transactions" ≠ name) (hvalue : defn.value row column = idValue transactionId)
    (rows : List Row) : (file.put name rows).referencesHold defn [row] =
      (db.requireTransaction transactionId).isSome := by
  have hid : ∀ parent ∈ db.transactions.rows, (defn.value row column).same
      (transactionsTable.value (storedTransaction parent) "transaction_id") =
        decide (parent.transactionId = transactionId) := fun parent _ => by
    rw [hvalue, decide_eq_decide.mpr (eq_comm (a := parent.transactionId))]
    exact same_id transactionId parent.transactionId
  refine (h.transactions.referencesHold hkeys hname (by rw [hvalue]; rfl)
    hid rows).trans ?_
  rw [Db.requireTransaction, Option.isSome_map]
  exact Bool.eq_iff_iff.mpr (List.any_eq_true.trans List.find?_isSome.symm)

/-- A row that names a projection. -/
theorem refers_projection_stores (h : Stores file db) {projection : String}
    (hkeys : defn.foreignKeys = [references column "projection_meta" "projection"])
    (hname : "projection_meta" ≠ name) (hvalue : defn.value row column = textValue projection)
    (rows : List Row) : (file.put name rows).referencesHold defn [row] =
      (db.requireProjection projection).isSome := by
  have htext : ∀ parent ∈ db.projectionMeta.rows, (defn.value row column).same
      (projectionMetaTable.value (storedProjectionMeta parent) "projection") =
        decide (parent.projection = projection) := fun parent _ => by
    rw [hvalue, decide_eq_decide.mpr (eq_comm (a := parent.projection))]
    exact same_text projection parent.projection
  refine ((h.holds StoreTable.projectionMeta_mem).referencesHold hkeys hname
    (by rw [hvalue]; rfl) htext rows).trans ?_
  rw [Db.requireProjection, Option.isSome_map]
  exact Bool.eq_iff_iff.mpr (List.any_eq_true.trans List.find?_isSome.symm)

end References

/-! ## 4. Statements -/

section Statements

variable {ε : Type} [FromStorage ε] {coerce : Affinity → Value → Value} {file : Sql.Database}
  {db : Db} {t : StoreTable}

/-- A statement that does not fail. -/
theorem executeSql_ok {write : Write} {after : Sql.Database} {db' : Db}
    (hexec : (write.exec coerce file).toOption = some after) (h : Stores after db') :
    Agree Stores (executeSql coerce write file : Except ε Sql.Database) (.ok db') := by
  unfold executeSql
  rw [hexec]
  exact .ok h

/-- A statement that succeeds if the typed one does. -/
theorem executeSql_agrees (h : Stores file db) (ht : t ∈ storeTables) {write : Write}
    {result : Option (Table t.schema)} (hexec : (write.exec coerce file).toOption =
      result.map fun x => file.put t.name (x.rows.map t.encode)) :
    Agree Stores (executeSql coerce write file : Except ε Sql.Database)
      (execute result >>= fun x => .ok (t.replace x db)) := by
  unfold executeSql
  rw [hexec]
  cases result with
  | none => exact .error _
  | some x => exact .ok (h.put ht x)

section Insert

variable {columns : List String} {values : Row} {r : t.Record}

/-- `INSERT`, of a row that has its parents. -/
theorem insert_agrees (hcoerce : Settled coerce) (h : Stores file db) (ht : t ∈ storeTables)
    (hcolumns : columns ⊆ t.defn.names) (hrow : t.defn.inserted columns values = t.encode r)
    (hrefs : ∀ rows, (file.put t.name rows).referencesHold t.defn [t.encode r] = true) :
    Agree Stores (executeSql coerce (.insert t.name columns values) file : Except ε Sql.Database)
      (execute ((t.contents db).insert r) >>= fun x => .ok (t.replace x db)) :=
  executeSql_agrees h ht
    ((storeTables_spec t ht).1.exec_insert hcoerce (h.holds ht) hcolumns hrow hrefs)

/-- `INSERT`, of a row whose parent is looked for. -/
theorem insert_child_agrees (hcoerce : Settled coerce) (h : Stores file db) (ht : t ∈ storeTables)
    {parent : Option Unit} (hcolumns : columns ⊆ t.defn.names)
    (hrow : t.defn.inserted columns values = t.encode r)
    (hrefs : ∀ rows, (file.put t.name rows).referencesHold t.defn [t.encode r] = parent.isSome) :
    Agree Stores (executeSql coerce (.insert t.name columns values) file : Except ε Sql.Database)
      (execute parent >>= fun _ =>
        execute ((t.contents db).insert r) >>= fun x => .ok (t.replace x db)) := by
  cases parent with
  | some _ => exact insert_agrees hcoerce h ht hcolumns hrow hrefs
  | none =>
    have hexec :=
      (storeTables_spec t ht).1.exec_insert hcoerce (h.holds ht) hcolumns hrow hrefs
    unfold executeSql
    rw [hexec]
    exact .error _

/-- `INSERT OR IGNORE`. -/
theorem insertOrIgnore_agrees (hcoerce : Settled coerce) (h : Stores file db)
    (ht : t ∈ storeTables) (hcolumns : columns ⊆ t.defn.names)
    (hrow : t.defn.inserted columns values = t.encode r)
    (hrefs : ∀ rows, (file.put t.name rows).referencesHold t.defn [t.encode r] = true) :
    Agree Stores
      (executeSql coerce (.insertOrIgnore t.name columns values) file : Except ε Sql.Database)
      (.ok (t.replace ((t.contents db).insertOrIgnore r) db)) :=
  executeSql_ok ((storeTables_spec t ht).1.exec_insertOrIgnore hcoerce (h.holds ht) hcolumns hrow
    hrefs) (h.put ht _)

end Insert

/-- `UPDATE`. -/
theorem update_agrees (hcoerce : Settled coerce) (h : Stores file db) (ht : t ∈ storeTables)
    {set : Assignments} {condition : Condition} {q : t.Record → Bool} {g : t.Record → t.Record}
    (keeps : Tables.Keeps t.schema g) (hcolumns : set.map Prod.fst ⊆ t.defn.names)
    (hcondition : ∀ r ∈ (t.contents db).rows,
      condition.selects (t.defn.value (t.encode r)) = q r)
    (hset : ∀ r ∈ (t.contents db).rows, q r = true →
      t.defn.assigned set (t.defn.value (t.encode r)) (t.encode r) = t.encode (g r))
    (hlinked : (set.any fun assignment => currentSchema.linked t.name assignment.1) = false) :
    Agree Stores (executeSql coerce (.update t.name set condition) file : Except ε Sql.Database)
      (execute ((t.contents db).update q g keeps) >>= fun x => .ok (t.replace x db)) := by
  rw [← h.schema] at hlinked
  exact executeSql_agrees h ht ((storeTables_spec t ht).1.exec_update hcoerce (h.holds ht) keeps
    hcolumns hcondition hset hlinked)

/-- `DELETE`. -/
theorem delete_agrees (h : Stores file db) (ht : t ∈ storeTables) {condition : Condition}
    {absent : Option (String × Condition)} {q : t.Record → Bool} {found : Bool}
    (hfound : (absent.elim (.ok false) fun other => file.hasRow other.1 other.2) = .ok found)
    (hcondition : ∀ r ∈ (t.contents db).rows,
      (condition.selects (t.defn.value (t.encode r)) && !found) = q r)
    (hrefers : currentSchema.refersTo t.name = false) :
    Agree Stores
      (executeSql coerce (.delete t.name condition absent) file : Except ε Sql.Database)
      (.ok (t.replace ((t.contents db).delete q) db)) := by
  rw [← h.schema] at hrefers
  exact executeSql_ok (Encoding.exec_delete (h.holds ht) hfound hcondition hrefers) (h.put ht _)

/-- `DELETE` without a subquery. -/
theorem delete_where_agrees (h : Stores file db) (ht : t ∈ storeTables) {condition : Condition}
    {q : t.Record → Bool}
    (hcondition : ∀ r ∈ (t.contents db).rows, condition.selects (t.defn.value (t.encode r)) = q r)
    (hrefers : currentSchema.refersTo t.name = false) :
    Agree Stores
      (executeSql coerce (.delete t.name condition none) file : Except ε Sql.Database)
      (.ok (t.replace ((t.contents db).delete q) db)) := by
  have hnone : (Option.elim (none : Option (String × Condition)) (.ok false)
      fun other => file.hasRow other.1 other.2) = .ok false := rfl
  refine delete_agrees h ht hnone (fun r hr => ?_) hrefers
  rw [Bool.not_false, Bool.and_true]
  exact hcondition r hr

/-- An upsert, in a table with one key. -/
theorem upsert_agrees {ρ κ : Type} [DecidableEq κ] {key : ρ → κ} {defn : TableDef}
    {encode : ρ → Row} {name : String} {x : Table (Schema.keyed key)}
    {columns keyColumns : List String} {values : Row} {set : Assignments} {r : ρ} {g : ρ → ρ}
    (hcoerce : Settled coerce) (hencoding : Encoding (Schema.keyed key) defn encode)
    (h : Stores file db) (hholds : file.Holds name defn encode x.rows)
    (replace : Table (Schema.keyed key) → Db)
    (hput : ∀ after, Stores (file.put name (after.rows.map encode)) (replace after))
    (keeps : ∀ a, key (g a) = key a) (hkeys : defn.keys = [keyColumns])
    (hcolumns : columns ++ keyColumns ++ set.map Prod.fst ⊆ defn.names)
    (hrow : defn.inserted columns values = encode r)
    (hset : ∀ a, key a = key r →
      defn.assigned set (defn.excluding (encode r) (encode a)) (encode a) = encode (g a))
    (hlinked : (set.any fun assignment => currentSchema.linked name assignment.1) = false)
    (hrefs : ∀ rows, (file.put name rows).referencesHold defn [encode r] = true) :
    Agree Stores
      (executeSql coerce (.upsert name columns values keyColumns set) file :
        Except ε Sql.Database)
      (.ok (replace (x.upsert r g keeps))) := by
  rw [← h.schema] at hlinked
  exact executeSql_ok (hencoding.exec_upsert hcoerce hholds keeps hkeys hcolumns hrow hset hlinked
    hrefs) (hput _)

end Statements

end Minisqlite.TableWrites
