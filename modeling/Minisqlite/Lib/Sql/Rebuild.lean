import Minisqlite.Lib.Machine
import Minisqlite.Lib.Sql.Statements

/-!
# Rebuilding a table

SQLite cannot add a CHECK to a table that exists. So another one is created with it, all
rows are inserted there, the old table is dropped and the new one gets its name.

* `Meets`: the rows meet the constraints of a definition, as they do when they are the
  contents of a table.
* `insertAll_ok`, `insertAll_error`: such rows can all be inserted into a table with the
  same columns and keys, when none of them breaks a CHECK of it.
* `rebuild_ok`, `rebuild_error`: the whole recipe. Afterwards no query can tell the
  difference, under any name.
-/

namespace Sql

open Runs

variable {coerce : Affinity → Value → Value}

/-- The rows of a table: each is as wide as the table, its values are what is stored for
them, and none breaks a constraint. -/
structure TableDef.Meets (coerce : Affinity → Value → Value) (defn : TableDef) (rows : List Row) :
    Prop where
  width : ∀ row ∈ rows, row.length = defn.columns.length
  stored : ∀ row ∈ rows, defn.stored coerce row = row
  present : ∀ row ∈ rows, defn.present row = true
  allowed : ∀ row ∈ rows, defn.allowed row = true
  unique : rows.Pairwise fun a b => defn.clash a b = false

instance (defn : TableDef) (rows : List Row) : Decidable (defn.Meets coerce rows) :=
  decidable_of_iff ((∀ row ∈ rows, row.length = defn.columns.length) ∧
    (∀ row ∈ rows, defn.stored coerce row = row) ∧ (∀ row ∈ rows, defn.present row = true) ∧
    (∀ row ∈ rows, defn.allowed row = true) ∧ rows.Pairwise fun a b => defn.clash a b = false)
    ⟨fun h => ⟨h.1, h.2.1, h.2.2.1, h.2.2.2.1, h.2.2.2.2⟩,
      fun h => ⟨h.width, h.stored, h.present, h.allowed, h.unique⟩⟩

/-- The rows of every table of the database are such, and its references hold. -/
def Database.Sound (coerce : Affinity → Value → Value) (db : Database) : Prop :=
  ∀ entry ∈ db.schema.tables.entries, entry.2.Meets coerce (db.rows entry.1) ∧
    db.referencesHold entry.2 (db.rows entry.1) = true

instance (db : Database) : Decidable (db.Sound coerce) :=
  inferInstanceAs (Decidable (∀ entry ∈ db.schema.tables.entries, _ ∧ _))

theorem sound_iff {db : Database} : db.Sound coerce ↔
    ∀ name defn, db.schema.table name = some defn →
      defn.Meets coerce (db.rows name) ∧ db.referencesHold defn (db.rows name) = true := by
  constructor
  · exact fun h name defn htable => h ⟨name, defn⟩ (AList.mem_lookup_iff.mp htable)
  · rintro h ⟨name, defn⟩ hentry
    exact h name defn (AList.mem_lookup_iff.mpr hentry)

/-- The same table but for its CHECKs. -/
structure TableDef.SameShape (defn new : TableDef) : Prop where
  columns : new.columns = defn.columns
  keys : new.keys = defn.keys
  foreignKeys : new.foreignKeys = defn.foreignKeys

namespace TableDef

variable {defn new : TableDef}

theorem SameShape.names (h : defn.SameShape new) : new.names = defn.names := by
  rw [TableDef.names, h.columns]
  rfl

theorem SameShape.value (h : defn.SameShape new) : new.value = defn.value := by
  funext row name
  rw [TableDef.value, h.names]
  rfl

theorem SameShape.clash (h : defn.SameShape new) : new.clash = defn.clash := by
  funext a b
  rw [TableDef.clash, h.keys, h.value]
  rfl

theorem SameShape.present (h : defn.SameShape new) : new.present = defn.present := by
  funext row
  rw [TableDef.present, h.columns, h.value]
  rfl

theorem SameShape.stored (h : defn.SameShape new) : new.stored coerce = defn.stored coerce := by
  funext row
  rw [TableDef.stored, h.columns]
  rfl

theorem SameShape.refers (h : defn.SameShape new) : new.refers = defn.refers := by
  funext parent rows key row
  rw [TableDef.refers, h.value]
  rfl

end TableDef

/-! ## Inserting rows -/

section Insert

variable {defn : TableDef} {row : Row} {rows : List Row}

theorem insertRow_ok (hwidth : row.length = defn.columns.length)
    (hstored : defn.stored coerce row = row) (hpresent : defn.present row = true)
    (hallowed : defn.allowed row = true) (hunique : ∀ other ∈ rows, defn.clash other row = false) :
    insertRow coerce defn rows row = .ok (rows ++ [row]) := by
  have hfree : (rows.any fun other => defn.clash other row) = false :=
    List.any_eq_false.mpr fun other hother => by simp [hunique other hother]
  simp [insertRow, hwidth, hstored, hpresent, hallowed, hfree]

/-- What is in a table after an INSERT has passed its CHECKs. -/
theorem allowed_of_insertRow {rows' : List Row} (h : insertRow coerce defn rows row = .ok rows') :
    defn.allowed (defn.stored coerce row) = true := by
  by_contra hbroken
  unfold insertRow at h
  simp only [hbroken, not_false_eq_true, if_true] at h
  repeat' split at h
  all_goals cases h

/-- Rows that meet the constraints are inserted one after the other. -/
theorem insertAll_ok (h : defn.Meets coerce rows) :
    rows.foldlM (insertRow coerce defn) [] = .ok rows := by
  have hrest : ∀ post pre, defn.Meets coerce (pre ++ post) →
      post.foldlM (insertRow coerce defn) pre = .ok (pre ++ post) := by
    intro post
    induction post with
    | nil =>
      intro pre _
      rw [List.append_nil]
      rfl
    | cons row post ih =>
      intro pre h
      have hmem : row ∈ pre ++ row :: post := by simp
      have hunique : ∀ other ∈ pre, defn.clash other row = false := fun other hother =>
        (List.pairwise_append.mp h.unique).2.2 other hother row List.mem_cons_self
      rw [List.foldlM_cons, insertRow_ok (h.width row hmem) (h.stored row hmem) (h.present row hmem)
        (h.allowed row hmem) hunique]
      show post.foldlM (insertRow coerce defn) (pre ++ [row]) = _
      rw [ih (pre ++ [row]) (by simpa using h), List.append_assoc]
      rfl
  exact hrest rows [] h

/-- A row that breaks a CHECK stops the INSERT. -/
theorem insertAll_error (hrow : row ∈ rows) (hstored : defn.stored coerce row = row)
    (hbroken : defn.allowed row = false) (start : List Row) :
    ∃ e, rows.foldlM (insertRow coerce defn) start = .error e := by
  cases hall : rows.foldlM (insertRow coerce defn) start with
  | error e => exact ⟨e, rfl⟩
  | ok rows' =>
    obtain ⟨t, u, -, hpass⟩ :=
      foldlM_mem (P := fun _ => True) (fun _ _ _ _ _ => trivial) hall trivial row hrow
    have hallowed := allowed_of_insertRow hpass
    rw [hstored, hbroken] at hallowed
    cases hallowed

end Insert

/-- The rows of a table meet the constraints of another of its shape, if they pass its CHECKs. -/
theorem TableDef.SameShape.meets {defn new : TableDef} {rows : List Row}
    (hshape : defn.SameShape new) (h : defn.Meets coerce rows)
    (hallowed : ∀ row ∈ rows, new.allowed row = true) : new.Meets coerce rows where
  width := hshape.columns ▸ h.width
  stored := by rw [hshape.stored]; exact h.stored
  present := hshape.present ▸ h.present
  allowed := hallowed
  unique := hshape.clash ▸ h.unique

/-! ## References -/

namespace Schema

variable {schema : Schema} {name : String}

theorem refersTo_iff : schema.refersTo name = true ↔
    ∃ other defn, schema.table other = some defn ∧ ∃ key ∈ defn.foreignKeys, key.parent = name := by
  unfold refersTo table
  simp only [List.any_eq_true, decide_eq_true_eq, ← Option.mem_def, AList.mem_lookup_iff]
  constructor
  · rintro ⟨⟨other, defn⟩, hentry, hkey⟩
    exact ⟨other, defn, hentry, hkey⟩
  · rintro ⟨other, defn, hentry, hkey⟩
    exact ⟨⟨other, defn⟩, hentry, hkey⟩

theorem parent_ne (h : schema.refersTo name = false) {other : String} {defn : TableDef}
    (htable : schema.table other = some defn) {key : ForeignKey} (hkey : key ∈ defn.foreignKeys) :
    key.parent ≠ name := fun hparent => by
  rw [refersTo_iff.mpr ⟨other, defn, htable, key, hkey, hparent⟩] at h
  cases h

end Schema

/-! ## One table more -/

namespace Database

/-- The database with an empty table under the name. -/
def withTable (db : Database) (name : String) (defn : TableDef) : Database where
  schema := { db.schema with tables := db.schema.tables.insert name defn }
  rows := Function.update db.rows name []

variable {db : Database} {name other : String} {defn : TableDef}

theorem withTable_table_self : (db.withTable name defn).schema.table name = some defn :=
  AList.lookup_insert _

theorem withTable_table_of_ne (h : other ≠ name) :
    (db.withTable name defn).schema.table other = db.schema.table other :=
  AList.lookup_insert_ne h

theorem withTable_rows_self : (db.withTable name defn).rows name = [] := Function.update_self _ _ _

theorem withTable_rows_of_ne (h : other ≠ name) :
    (db.withTable name defn).rows other = db.rows other :=
  Function.update_of_ne h _ _

end Database

/-! ## One statement -/

section Statements

variable {db : Database} {name : String} {defn : TableDef}

theorem exec_ok {statement : Statement} {schema : Schema} {rows : String → List Row}
    (hdefine : statement.define db.schema = .ok schema)
    (hfill : statement.fill coerce db = .ok rows) :
    Statement.exec coerce db statement = .ok ⟨schema, rows⟩ :=
  bind_eq_ok.mpr ⟨schema, hdefine, bind_eq_ok.mpr ⟨rows, hfill, rfl⟩⟩

theorem exec_createTable (h : db.schema.table name = none) :
    Statement.exec coerce db (.createTable name defn) = .ok (db.withTable name defn) :=
  exec_ok (by simp [Statement.define, h]) rfl

/-- The rows of the source can be inserted, and have their parents. -/
theorem exec_insertAll {source : String} {rows : List Row}
    (htarget : db.schema.table name = some defn) (hsource : db.schema.table source ≠ none)
    (hrows : (db.rows source).foldlM (insertRow coerce defn) (db.rows name) = .ok rows)
    (href : Database.referencesHold ⟨db.schema, Function.update db.rows name rows⟩ defn rows =
      true) :
    Statement.exec coerce db (.insertAll name source) =
      .ok ⟨db.schema, Function.update db.rows name rows⟩ := by
  refine exec_ok (by simp [Statement.define, htarget, hsource]) ?_
  simp only [Statement.fill, htarget]
  exact bind_eq_ok.mpr ⟨rows, hrows, if_pos href⟩

theorem exec_insertAll_error {source e : String} (htarget : db.schema.table name = some defn)
    (hsource : db.schema.table source ≠ none)
    (hrows : (db.rows source).foldlM (insertRow coerce defn) (db.rows name) = .error e) :
    Statement.exec coerce db (.insertAll name source) = .error e := by
  have hdefine : (Statement.insertAll name source).define db.schema = .ok db.schema := by
    simp [Statement.define, htarget, hsource]
  simp only [Statement.exec, hdefine, Statement.fill, htarget, hrows]
  rfl

theorem exec_dropTable (h : db.schema.table name = some defn)
    (href : db.schema.refersTo name = false) :
    Statement.exec coerce db (.dropTable name) =
      .ok ⟨⟨db.schema.tables.erase name, db.schema.indexes.filter fun index => index.table ≠ name⟩,
        Function.update db.rows name []⟩ :=
  exec_ok (by simp [Statement.define, h, href]) rfl

theorem exec_renameTable {new : String} (h : db.schema.table name = some defn)
    (hnew : db.schema.table new = none) (href : db.schema.refersTo name = false) :
    Statement.exec coerce db (.renameTable name new) =
      .ok ⟨⟨(db.schema.tables.erase name).insert new defn, db.schema.indexes.map fun index =>
          if index.table = name then { index with table := new } else index⟩,
        Function.update (Function.update db.rows new (db.rows name)) name []⟩ :=
  exec_ok (by simp [Statement.define, h, hnew, href]) rfl

end Statements

/-! ## The recipe -/

/-- `CREATE`, `INSERT … SELECT *`, `DROP` and `RENAME`. -/
def rebuild (table temp : String) (new : TableDef) : List Statement :=
  [.createTable temp new, .insertAll temp table, .dropTable table, .renameTable temp table]

section Rebuild

variable {db : Database} {table temp : String} {defn new : TableDef}

theorem ne_of_tables (htable : db.schema.table table = some defn)
    (htemp : db.schema.table temp = none) : temp ≠ table := fun he => by
  rw [he, htable] at htemp
  cases htemp

/-- While there are both tables, nobody refers to either of them. -/
theorem refersTo_withTable {name : String} (htable : db.schema.table table = some defn)
    (hshape : defn.SameShape new) (href : db.schema.refersTo name = false) :
    (db.withTable temp new).schema.refersTo name = false := by
  refine Bool.eq_false_iff.mpr fun hrefers => ?_
  obtain ⟨other, defn', hother, key, hkey, hparent⟩ := Schema.refersTo_iff.mp hrefers
  by_cases hname : other = temp
  · subst hname
    obtain rfl : new = defn' := Option.some.inj (Database.withTable_table_self.symm.trans hother)
    exact Schema.parent_ne href htable (hshape.foreignKeys ▸ hkey) hparent
  · rw [Database.withTable_table_of_ne hname] at hother
    exact Schema.parent_ne href hother hkey hparent

theorem refersTo_erase {schema : Schema} {name other : String} {indexes : List Index}
    (href : schema.refersTo name = false) :
    Schema.refersTo ⟨schema.tables.erase other, indexes⟩ name = false := by
  refine Bool.eq_false_iff.mpr fun hrefers => ?_
  obtain ⟨child, defn', hchild, key, hkey, hparent⟩ := Schema.refersTo_iff.mp hrefers
  have hne : child ≠ other := fun he => by
    rw [he, Schema.table, AList.lookup_erase] at hchild
    cases hchild
  exact Schema.parent_ne href ((AList.lookup_erase_ne hne).symm.trans hchild) hkey hparent

/-- The references of the rows hold also while there are both tables. -/
theorem referencesHold_withTable (htemp : db.schema.table temp = none)
    (hshape : defn.SameShape new) {rows : List Row} (href : db.referencesHold defn rows = true)
    (copied : List Row) : Database.referencesHold ⟨(db.withTable temp new).schema,
      Function.update (db.withTable temp new).rows temp copied⟩ new rows = true := by
  unfold Database.referencesHold at href ⊢
  rw [hshape.foreignKeys, List.all_eq_true] at *
  intro key hkey
  have hold := href key hkey
  have hne : key.parent ≠ temp := fun hparent => by
    rw [hparent, htemp] at hold
    cases hold
  simp only [Database.withTable_table_of_ne hne, Function.update_of_ne hne,
    Database.withTable_rows_of_ne hne, hshape.refers]
  exact hold

/-- The tables when the new one has the old name. -/
theorem lookup_renamed {tables : AList fun _ : String => TableDef}
    (htemp : tables.lookup temp = none) (name : String) :
    ((((tables.insert temp new).erase table).erase temp).insert table new).lookup name =
      if name = table then some new else tables.lookup name := by
  split
  · next hname => rw [hname, AList.lookup_insert]
  · next hname =>
    rw [AList.lookup_insert_ne hname]
    by_cases hname' : name = temp
    · rw [hname', AList.lookup_erase]
      exact htemp.symm
    · rw [AList.lookup_erase_ne hname', AList.lookup_erase_ne hname, AList.lookup_insert_ne hname']

/-- The rows then, if those of the old table were copied before. -/
theorem rows_renamed {rows copied : String → List Row} (hne : temp ≠ table)
    (hcopied : copied temp = rows table) (hother : ∀ other ≠ temp, copied other = rows other)
    {name : String} (hname : name ≠ temp) :
    Function.update (Function.update (Function.update copied table []) table
      (Function.update copied table [] temp)) temp [] name = rows name := by
  rw [Function.update_of_ne hname, Function.update_idem, Function.update_of_ne hne, hcopied]
  by_cases htable : name = table
  · rw [htable, Function.update_self]
  · rw [Function.update_of_ne htable, hother name hname]

/-- What the recipe does: one table has another definition, and no table has other rows. -/
structure Rebuilt (table : String) (new : TableDef) (db db' : Database) : Prop where
  defined : ∀ name, db'.schema.table name = if name = table then some new else db.schema.table name
  rows : ∀ name, db'.schema.table name ≠ none → db'.rows name = db.rows name

/-- The rows are copied, and nothing else happens to them. -/
theorem rebuild_ok (htable : db.schema.table table = some defn)
    (htemp : db.schema.table temp = none) (hshape : defn.SameShape new)
    (hrefTable : db.schema.refersTo table = false) (hrefTemp : db.schema.refersTo temp = false)
    (hmeets : defn.Meets coerce (db.rows table))
    (href : db.referencesHold defn (db.rows table) = true)
    (hallowed : ∀ row ∈ db.rows table, new.allowed row = true) :
    ∃ db', execBatch coerce (rebuild table temp new) db = .ok db' ∧ Rebuilt table new db db' := by
  have hne : temp ≠ table := ne_of_tables htable htemp
  -- The database after each of the four statements.
  let created : Database := db.withTable temp new
  let copied : Database :=
    ⟨created.schema, Function.update created.rows temp (db.rows table)⟩
  let dropped : Database := ⟨⟨created.schema.tables.erase table,
    db.schema.indexes.filter fun index => index.table ≠ table⟩,
    Function.update copied.rows table []⟩
  let renamed : Database := ⟨⟨(dropped.schema.tables.erase temp).insert table new,
    dropped.schema.indexes.map fun index =>
      if index.table = temp then { index with table := table } else index⟩,
    Function.update (Function.update dropped.rows table (dropped.rows temp)) temp []⟩
  have hold : created.schema.table table = some defn :=
    (Database.withTable_table_of_ne hne.symm).trans htable
  have hcreate : Statement.exec coerce db (.createTable temp new) = .ok created :=
    exec_createTable htemp
  have hcopy : Statement.exec coerce created (.insertAll temp table) = .ok copied := by
    refine exec_insertAll Database.withTable_table_self (by simp [hold]) ?_
      (referencesHold_withTable htemp hshape href _)
    rw [Database.withTable_rows_of_ne hne.symm, Database.withTable_rows_self]
    exact insertAll_ok (hshape.meets hmeets hallowed)
  have hdrop : Statement.exec coerce copied (.dropTable table) = .ok dropped :=
    exec_dropTable hold (refersTo_withTable htable hshape hrefTable)
  have hrename : Statement.exec coerce dropped (.renameTable temp table) = .ok renamed :=
    exec_renameTable ((AList.lookup_erase_ne hne).trans Database.withTable_table_self)
      (AList.lookup_erase _ _) (refersTo_erase (refersTo_withTable htable hshape hrefTemp))
  refine ⟨renamed, bind_eq_ok.mpr ⟨_, hcreate, bind_eq_ok.mpr ⟨_, hcopy, bind_eq_ok.mpr ⟨_, hdrop,
    bind_eq_ok.mpr ⟨_, hrename, rfl⟩⟩⟩⟩, ?_⟩
  have hdefined : ∀ name, renamed.schema.table name =
      if name = table then some new else db.schema.table name :=
    lookup_renamed htemp
  refine ⟨hdefined, fun name hname => ?_⟩
  have hname' : name ≠ temp := fun he => hname (by
    rw [he]
    exact (hdefined temp).trans ((if_neg hne).trans htemp))
  have hcopied : copied.rows temp = db.rows table := Function.update_self _ _ _
  have hother : ∀ other ≠ temp, copied.rows other = db.rows other := fun other hother =>
    (Function.update_of_ne hother _ _).trans (Database.withTable_rows_of_ne hother)
  rw [← rows_renamed hne hcopied hother hname']

/-- A row that breaks a CHECK stops it, and what was done so far is for nothing. -/
theorem rebuild_error (htable : db.schema.table table = some defn)
    (htemp : db.schema.table temp = none) (hshape : defn.SameShape new)
    (hmeets : defn.Meets coerce (db.rows table)) {row : Row} (hrow : row ∈ db.rows table)
    (hbroken : new.allowed row = false) :
    ∃ e, execBatch coerce (rebuild table temp new) db = .error e := by
  have hne : temp ≠ table := ne_of_tables htable htemp
  have hold : (db.withTable temp new).schema.table table ≠ none := by
    rw [Database.withTable_table_of_ne hne.symm, htable]
    simp
  have hrow' : row ∈ (db.withTable temp new).rows table := by
    rwa [Database.withTable_rows_of_ne hne.symm]
  have hstored : new.stored coerce row = row := by
    rw [hshape.stored, hmeets.stored row hrow]
  obtain ⟨e, he⟩ := insertAll_error hrow' hstored hbroken ((db.withTable temp new).rows temp)
  refine ⟨e, ?_⟩
  rw [execBatch, rebuild, List.foldlM_cons, exec_createTable htemp]
  show Statement.exec coerce (db.withTable temp new) (.insertAll temp table) >>= _ = _
  rw [exec_insertAll_error Database.withTable_table_self hold he]
  rfl

namespace Rebuilt

variable {db' : Database}

/-- No query can tell the difference. -/
theorem relation (h : Rebuilt table new db db') (htable : db.schema.table table = some defn)
    (hshape : defn.SameShape new) : db'.relation = db.relation := by
  funext name
  have hrows := h.rows name
  unfold Database.relation
  rw [h.defined] at hrows ⊢
  split at hrows
  · next hname =>
    rw [if_pos hname, hname, htable, ← hname, Option.map_some, Option.map_some, hshape.names,
      hrows (by simp)]
  · next hname =>
    rw [if_neg hname]
    cases htable' : db.schema.table name with
    | none => rfl
    | some other => rw [Option.map_some, Option.map_some, hrows (by simp [htable'])]

/-- A table keeps its references, as nobody refers to the one that was rebuilt. -/
theorem referencesHold (h : Rebuilt table new db db') (href : db.schema.refersTo table = false)
    {child : String} {old other : TableDef} (hchild : db.schema.table child = some old)
    (hshape : old.SameShape other) {rows : List Row} (hold : db.referencesHold old rows = true) :
    db'.referencesHold other rows = true := by
  unfold Database.referencesHold at hold ⊢
  rw [hshape.foreignKeys, List.all_eq_true] at *
  intro key hkey
  have hparent : db'.schema.table key.parent = db.schema.table key.parent := by
    rw [h.defined, if_neg (Schema.parent_ne href hchild hkey)]
  have hkeyed := hold key hkey
  have hrows : db'.rows key.parent = db.rows key.parent := h.rows _ fun hnone => by
    rw [← hparent, hnone] at hkeyed
    cases hkeyed
  simp only [hparent, hrows, hshape.refers]
  exact hkeyed

/-- All constraints hold, the new ones and the old ones. -/
theorem sound (h : Rebuilt table new db db') (hsound : db.Sound coerce)
    (htable : db.schema.table table = some defn) (hshape : defn.SameShape new)
    (href : db.schema.refersTo table = false)
    (hallowed : ∀ row ∈ db.rows table, new.allowed row = true) : db'.Sound coerce := by
  rw [sound_iff] at hsound ⊢
  intro name other hother
  rw [h.rows name (by simp [hother])]
  rw [h.defined] at hother
  split at hother
  · next hname =>
    obtain rfl := Option.some.inj hother
    obtain ⟨hmeets, hold⟩ := hsound table defn htable
    rw [hname]
    exact ⟨hshape.meets hmeets hallowed, h.referencesHold href htable hshape hold⟩
  · obtain ⟨hmeets, hold⟩ := hsound name other hother
    exact ⟨hmeets, h.referencesHold href hother ⟨rfl, rfl, rfl⟩ hold⟩

end Rebuilt

end Rebuild

/-! ## Batches -/

section Batches

variable {db db' : Database} {schema : Schema} {batch more : List Statement}

theorem execBatch_append : execBatch coerce (batch ++ more) db =
    execBatch coerce batch db >>= execBatch coerce more :=
  List.foldlM_append

theorem defineAll_append : defineAll (batch ++ more) schema =
    defineAll batch schema >>= defineAll more :=
  List.foldlM_append

/-- The definitions after a batch do not depend on the rows. -/
theorem defineAll_of_execBatch (h : execBatch coerce batch db = .ok db') :
    defineAll batch db.schema = .ok db'.schema := by
  induction batch generalizing db with
  | nil =>
    cases h
    rfl
  | cons statement batch ih =>
    obtain ⟨mid, hstatement, hrest⟩ := foldlM_cons_ok h
    obtain ⟨schema, hdefine, hfill⟩ := bind_ok hstatement
    obtain ⟨rows, -, ⟨⟩⟩ := bind_ok hfill
    exact bind_eq_ok.mpr ⟨schema, hdefine, ih hrest⟩

theorem define_createIndex {index : Index} {schema' : Schema}
    (h : (Statement.createIndex index).define schema = .ok schema') :
    schema'.tables = schema.tables := by
  simp only [Statement.define] at h
  split at h
  · cases h
  · split at h
    · cases h
    · split at h
      · cases h
        rfl
      · cases h

/-- Indexes change no row. -/
theorem execBatch_createIndex {indexes : List Index}
    (h : defineAll (indexes.map .createIndex) db.schema = .ok schema) :
    execBatch coerce (indexes.map .createIndex) db = .ok ⟨schema, db.rows⟩ ∧
      schema.tables = db.schema.tables := by
  induction indexes generalizing db with
  | nil =>
    cases h
    exact ⟨rfl, rfl⟩
  | cons index indexes ih =>
    obtain ⟨mid, hdefine, hrest⟩ := foldlM_cons_ok h
    obtain ⟨hexec, htables⟩ := @ih ⟨mid, db.rows⟩ hrest
    exact ⟨bind_eq_ok.mpr ⟨_, exec_ok hdefine rfl, hexec⟩,
      htables.trans (define_createIndex hdefine)⟩

/-- The constraints of a file are those of its tables, whatever indexes it has. -/
theorem sound_of_tables (htables : schema.tables = db.schema.tables) (h : db.Sound coerce) :
    Database.Sound coerce ⟨schema, db.rows⟩ := by
  obtain ⟨tables, indexes⟩ := schema
  obtain rfl := htables
  exact h

end Batches

end Sql
