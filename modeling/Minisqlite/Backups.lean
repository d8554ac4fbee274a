import Minisqlite.Store.Backup
import Minisqlite.Store.Events
import Minisqlite.Transactions

/-!
# Backups and the files of the store

`backup` removes a destination that exists, and does not ask whether it is the store's own
file. If the new file cannot be opened then, the store has lost its database: every reader
that is opened later finds that there is none, and the next process creates an empty one. A
destination beside which SQLite expects the store's file, or one that is a side file of the
store, does no less harm.

1. `Serves`: the path names a database, and every handle has its files open.
2. What each program does from there.
3. What a backup does. It touches the destination and the names beside it, and nothing else.
4. `serves_stateAt`: by induction, the database is that of `controlPlane` after the calls
   that reached it, with no file in sight.
5. `backup_keeps_commits`: so nothing is lost in a run whose backups touch no name of the
   store, and `backup_own_path_counterexample` is a run where one does.
-/

namespace Minisqlite

open Files Runs Stops FileStore

section Claims

variable {ν : Type} [DecidableEq ν] (dir : Directory ν) (unspecified : FileM ν Content)

/-- Recovery finds the transaction, and so does every read: it is a query on a database that
has it. -/
structure Finds (store : FileStore ν) (transactionId : Id) (receipt : CommitReceipt) : Prop where
  recovery : ∀ upkeep, (exec (onWriter dir unspecified (.recoverTransaction transactionId) .done
    upkeep) store).1 = .ok (.recoverTransaction (.committed receipt))
  reads : ∃ db : Db, (∃ row, db.transaction transactionId = some row ∧ row.receipt = receipt) ∧
    ∀ (α : Type) (f : Db → Except Error α),
      (exec (FileStore.withReader dir unspecified f .done) store).1 = f db

/-- Every commit that returned `Ok` is found, by the store and by one that is opened anew on
its path. -/
def Keeps (volume : Volume ν Content) (path : String) (maxIdle : Nat) (calls : List FileCall) :
    Prop :=
  let M := fileStore dir unspecified volume path maxIdle
  ∀ i limits batch step opening upkeep receipt,
    calls[i]? = some (.onWriter (.commit limits batch step) opening upkeep) →
    M.replyAt calls i = some (.onWriter (.commit (.ok receipt))) →
    Finds dir unspecified (M.after calls) batch.transactionId receipt ∧
    ∀ tidied,
      (exec (reopen dir unspecified tidied .done (.ok ())) (M.after calls)).1 = .ok () ∧
      Finds dir unspecified (exec (reopen dir unspecified tidied .done (.ok ())) (M.after calls)).2
        batch.transactionId receipt

/-- The names that the connection to the destination creates or removes. -/
def BackupSteps.touches (dest : String) (steps : BackupSteps) : List ν :=
  match steps.opening with
  | .fails false _ => []
  | .fails true _ => [dir.entry dest]
  | .done => dir.entry dest ::
    (SideFile.all.filter fun side => (steps.beside side).touched).map (dir.beside dest)

/-- The names that a call creates or removes for a destination. One that exists is refused, or
removed first. -/
def FileCall.touches (store : FileStore ν) : FileCall → List ν
  | .backup dest overwrite steps =>
    match exec (connection dir steps.connection) store with
    | (.error _, _) => []
    | (.ok _, store) =>
      match store.volume.named (dir.entry dest), overwrite, steps.remove with
      | none, _, _ => steps.touches dir dest
      | some _, true, .ok _ => dir.entry dest :: steps.touches dir dest
      | _, _, _ => []
  | _ => []

/-- The call is a backup that creates or removes one of the files of the store. -/
def TouchesStore (store : FileStore ν) (call : FileCall) : Prop :=
  ∃ name ∈ call.touches dir store, name ∈ dir.names store.path

/-- The call, if it got to the database. -/
def FileCall.applied (store : FileStore ν) : FileCall → List Call
  | .onWriter call opening upkeep =>
    match (exec (FileStore.onWriter dir unspecified call opening upkeep) store).1 with
    | .ok _ => [call]
    | .error _ => []
  | _ => []

/-- The calls of a run that got to the database. -/
def appliedCalls (volume : Volume ν Content) (path : String) (maxIdle : Nat)
    (calls : List FileCall) : List Call :=
  (fileStore dir unspecified volume path maxIdle).log (FileCall.applied dir unspecified) calls

end Claims

/-! ## 1. The database and its handles -/

/-- The state of a database whose main file is at `base`, with what its WAL says. -/
inductive Latest (base : Db) : Option Content → Db → Prop
  | closed : Latest base none base
  | clean : Latest base (some (.wal none)) base
  | ahead (db : Db) : Latest base (some (.wal (some db))) db

section Serves

variable {ν : Type} (dir : Directory ν) (path : String) (main : Nat) (db : Db)

/-- The path names this database. -/
structure Stored (volume : Volume ν Content) : Prop where
  named : volume.named (dir.entry path) = some main
  journal : volume.named (dir.beside path .journal) = none
  latest : ∃ base, volume.content main = .database base ∧
    Latest base ((volume.named (dir.beside path .wal)).map volume.content) db

/-- The connection has the files open that the names of the database name. -/
structure Connected (volume : Volume ν Content) (conn : Connection) : Prop where
  main : conn.main = main
  wal : volume.named (dir.beside path .wal) = some conn.wal
  shm : volume.named (dir.beside path .shm) = some conn.shm

/-- The path names the database, and every handle has its files open. -/
structure Serves (store : FileStore ν) : Prop where
  stored : Stored dir path main db store.volume
  writer : ∀ conn ∈ store.writer, Connected dir path main store.volume conn
  idle : ∀ conn ∈ store.readers.idle, Connected dir path main store.volume conn
  readersPath : store.readers.path = path
  path : store.path = path

end Serves

section Files

variable {ν : Type} {dir : Directory ν} {path : String} {main : Nat} {db : Db}
  {volume volume' : Volume ν Content} {conn : Connection}

namespace Directory

theorem entry_mem : dir.entry path ∈ dir.names path := List.mem_cons_self

theorem beside_mem (side : SideFile) : dir.beside path side ∈ dir.names path := by
  refine List.mem_cons_of_mem _ (List.mem_map_of_mem ?_)
  cases side <;> decide

theorem entry_ne_beside (side : SideFile) : dir.entry path ≠ dir.beside path side :=
  (dir.suffix_ne path side).symm

theorem beside_ne (side side' : SideFile) (h : side ≠ side') :
    dir.beside path side ≠ dir.beside path side' :=
  dir.suffixes_ne path side side' h

end Directory

open Directory

namespace Stored

/-- What happens under other names leaves a database alone. -/
theorem same (h : Stored dir path main db volume)
    (hsame : Volume.Same (· ∈ dir.names path) volume volume') :
    Stored dir path main db volume' where
  named := (hsame.named _ entry_mem).trans h.named
  journal := (hsame.named _ (beside_mem .journal)).trans h.journal
  latest := by
    obtain ⟨base, hbase, hlatest⟩ := h.latest
    refine ⟨base, (hsame.content _ _ entry_mem h.named).trans hbase, ?_⟩
    rw [hsame.named _ (beside_mem .wal)]
    cases hwal : volume.named (dir.beside path .wal) with
    | none => rwa [hwal] at hlatest
    | some wal =>
      rw [hwal] at hlatest
      rwa [Option.map_some, hsame.content _ _ (beside_mem .wal) hwal]

theorem content (h : Stored dir path main db volume) :
    ∃ base, volume.content main = .database base :=
  h.latest.imp fun _ hlatest => hlatest.1

/-- What the WAL says, if there is one. -/
theorem wal (h : Stored dir path main db volume) {file : Nat}
    (hwal : volume.named (dir.beside path .wal) = some file) :
    volume.content file = .wal none ∧ volume.content main = .database db ∨
      volume.content file = .wal (some db) := by
  obtain ⟨base, hbase, hlatest⟩ := h.latest
  rw [hwal, Option.map_some] at hlatest
  generalize hcontent : volume.content file = content at hlatest ⊢
  cases hlatest with
  | clean => exact .inl ⟨rfl, hbase⟩
  | ahead => exact .inr rfl

theorem wal_ne (h : Stored dir path main db volume) {file : Nat}
    (hwal : volume.named (dir.beside path .wal) = some file) : file ≠ main := by
  rintro rfl
  obtain ⟨base, hbase⟩ := h.content
  rcases h.wal hwal with ⟨hcontent, -⟩ | hcontent <;>
    · rw [hbase] at hcontent
      cases hcontent

/-- A COMMIT, with or without a checkpoint. -/
theorem write (h : Stored dir path main db volume) {file : Nat}
    (hwal : volume.named (dir.beside path .wal) = some file) (db' : Db) (checkpoint : Bool) :
    Stored dir path main db'
      (if checkpoint then (volume.write main (.database db')).write file (.wal none)
        else volume.write file (.wal (some db'))) := by
  have hne := h.wal_ne hwal
  cases checkpoint with
  | true =>
    refine ⟨h.named, h.journal, db', ?_, ?_⟩
    · exact (Function.update_of_ne hne.symm _ _).trans (Volume.content_write ..)
    · show Latest db' ((volume.named (dir.beside path .wal)).map _) db'
      rw [hwal, Option.map_some, if_pos rfl, Volume.content_write]
      exact .clean
  | false =>
    obtain ⟨base, hbase⟩ := h.content
    refine ⟨h.named, h.journal, base, ?_, ?_⟩
    · exact (Function.update_of_ne hne.symm _ _).trans hbase
    · show Latest base ((volume.named (dir.beside path .wal)).map _) db'
      rw [hwal, Option.map_some, if_neg Bool.false_ne_true, Volume.content_write]
      exact .ahead db'

variable [DecidableEq ν]

/-- A checkpoint, after which there is no WAL. -/
theorem tidy (h : Stored dir path main db volume) :
    Stored dir path main db (((volume.write main (.database db)).unlink
      (dir.beside path .wal)).unlink (dir.beside path .shm)) where
  named := by
    rw [Volume.named_unlink_of_ne (entry_ne_beside .shm),
      Volume.named_unlink_of_ne (entry_ne_beside .wal)]
    exact h.named
  journal := by
    rw [Volume.named_unlink_of_ne (beside_ne .journal .shm nofun),
      Volume.named_unlink_of_ne (beside_ne .journal .wal nofun)]
    exact h.journal
  latest := by
    refine ⟨db, Volume.content_write .., ?_⟩
    rw [Volume.named_unlink_of_ne (beside_ne .wal .shm nofun), Volume.named_unlink]
    exact .closed

end Stored

namespace Connected

theorem same (h : Connected dir path main volume conn)
    (hsame : Volume.Same (· ∈ dir.names path) volume volume') :
    Connected dir path main volume' conn where
  main := h.main
  wal := (hsame.named _ (beside_mem .wal)).trans h.wal
  shm := (hsame.named _ (beside_mem .shm)).trans h.shm

theorem mono (h : Connected dir path main volume conn) (hext : volume.Extends volume') :
    Connected dir path main volume' conn where
  main := h.main
  wal := hext.named h.wal
  shm := hext.named h.shm

end Connected

/-- The first statement of a connection leaves every file that is there as it is. -/
theorem Stored.attached [DecidableEq ν] (h : Stored dir path main db volume) :
    volume.Extends (attached dir path main volume).2 ∧
      Stored dir path main db (FileStore.attached dir path main volume).2 ∧
      Connected dir path main (FileStore.attached dir path main volume).2
        (FileStore.attached dir path main volume).1 := by
  obtain ⟨base, hbase, hlatest⟩ := h.latest
  simp only [FileStore.attached, hbase]
  have hwal : volume.Extends (volume.provide (dir.beside path .wal) (.wal none)).2 :=
    Volume.provide_extends ..
  have hnamed : (volume.provide (dir.beside path .wal) (.wal none)).2.named
      (dir.beside path .wal) = some (volume.provide (dir.beside path .wal) (.wal none)).1 :=
    Volume.named_provide ..
  have hjournal : (volume.provide (dir.beside path .wal) (.wal none)).2.named
      (dir.beside path .journal) = none :=
    (Volume.named_provide_of_ne (beside_ne .journal .wal nofun) _).trans h.journal
  have hcontent : Latest base (some ((volume.provide (dir.beside path .wal) (.wal none)).2.content
      (volume.provide (dir.beside path .wal) (.wal none)).1)) db := by
    cases hbefore : volume.named (dir.beside path .wal) with
    | some file =>
      rw [hbefore] at hlatest
      rwa [Volume.provide_named hbefore]
    | none =>
      rw [hbefore] at hlatest
      rw [Volume.provide_free hbefore, Volume.content_create]
      cases hlatest
      exact .clean
  generalize volume.provide (dir.beside path .wal) (.wal none) = provided at *
  obtain ⟨wal, volume₁⟩ := provided
  have hshm : volume₁.Extends (volume₁.provide (dir.beside path .shm) .shm).2 :=
    Volume.provide_extends ..
  have hall := hwal.trans hshm
  refine ⟨hall, ⟨hall.named h.named, ?_, base, (hall.content h.named).trans hbase, ?_⟩, rfl,
    hshm.named hnamed, Volume.named_provide ..⟩
  · exact (Volume.named_provide_of_ne (beside_ne .journal .shm nofun) _).trans hjournal
  · rw [hshm.named hnamed, Option.map_some, hshm.content hnamed]
    exact hcontent

end Files

namespace Serves

variable {ν : Type} {dir : Directory ν} {path : String} {main : Nat} {db db' : Db}
  {store : FileStore ν} {volume : Volume ν Content} {conn : Connection}

/-- The handles stay as they are when the volume changes. -/
theorem onVolume (h : Serves dir path main db store)
    (hstored : Stored dir path main db' volume)
    (hconnected : ∀ conn, Connected dir path main store.volume conn →
      Connected dir path main volume conn) :
    Serves dir path main db' { store with volume := volume } where
  stored := hstored
  writer := fun conn hconn => hconnected conn (h.writer conn hconn)
  idle := fun conn hconn => hconnected conn (h.idle conn hconn)
  readersPath := h.readersPath
  path := h.path

theorem same (h : Serves dir path main db store)
    (hsame : Volume.Same (· ∈ dir.names path) store.volume volume) :
    Serves dir path main db { store with volume := volume } :=
  h.onVolume (h.stored.same hsame) fun _ hconn => hconn.same hsame

theorem connected (h : Serves dir path main db store)
    (hconn : Connected dir path main store.volume conn) :
    Serves dir path main db { store with writer := some conn } :=
  { h with writer := fun _ he => Option.some.inj he ▸ hconn }

/-- A connection goes back to the pool. -/
theorem returned (h : Serves dir path main db store)
    (hconn : Connected dir path main store.volume conn) :
    Serves dir path main db
      (if store.readers.idle.length < store.readers.maxIdle then
        { store with readers := { store.readers with idle := conn :: store.readers.idle } }
      else store) := by
  split
  · exact { h with idle := List.forall_mem_cons.mpr ⟨hconn, h.idle⟩ }
  · exact h

/-- A connection finds its files in place. -/
theorem inPlace (h : Serves dir path main db store)
    (hconn : Connected dir path main store.volume conn) : InPlace dir store conn := by
  obtain ⟨hmain, hwal, hshm⟩ := hconn
  unfold InPlace
  rw [h.path, hmain]
  exact ⟨h.stored.named, hwal, hshm, h.stored.journal⟩

end Serves

namespace BackupLemmas

variable {ν : Type} {dir : Directory ν} {unspecified : FileM ν Content} {path : String}
  {main : Nat} {db : Db} {store : FileStore ν} {conn : Connection}

/-! ## 2. What a call does -/

/-- Every connection sees the database. -/
theorem exec_seen (h : Serves dir path main db store)
    (hconn : Connected dir path main store.volume conn) :
    exec (seen dir unspecified conn) store = (.ok (.database db), store) := by
  simp only [seen, exec_bind, exec_get, if_pos (h.inPlace hconn)]
  rcases h.stored.wal hconn.wal with ⟨hwal, hmain⟩ | hwal
  · rw [hwal, hconn.main, hmain]
    rfl
  · rw [hwal]
    rfl

/-- What a COMMIT leaves in the files. -/
theorem write_spec (h : Serves dir path main db store)
    (hconn : Connected dir path main store.volume conn) (db' : Db) (checkpoint : Bool) :
    ∃ store', exec (write conn db' checkpoint) store = (.ok (), store') ∧
      Serves dir path main db' store' ∧ Connected dir path main store'.volume conn := by
  have hnamed : ∀ {conn'}, Connected dir path main store.volume conn' →
      Connected dir path main (if checkpoint then
        (store.volume.write conn.main (.database db')).write conn.wal (.wal none)
        else store.volume.write conn.wal (.wal (some db'))) conn' := fun hconn' => by
    split <;> exact ⟨hconn'.main, hconn'.wal, hconn'.shm⟩
  refine ⟨_, rfl, h.onVolume ?_ fun _ => hnamed, hnamed hconn⟩
  obtain rfl := hconn.main
  exact h.stored.write hconn.wal db' checkpoint

variable [DecidableEq ν]

theorem exec_connectTo (h : Stored dir path main db store.volume) :
    exec (connectTo dir path main) store = (.ok (attached dir path main store.volume).1,
      { store with volume := (attached dir path main store.volume).2 }) := by
  obtain ⟨base, hbase⟩ := h.content
  simp only [connectTo, exec_bind, exec_get, hbase, attach, setVolume, exec_modify, exec_pure]

/-- The connection to a file that exists, or the error. -/
theorem exec_openWriter (h : Stored dir path main db store.volume) (opening : Opening) :
    exec (openWriter dir path opening) store =
      match opening with
      | .done => (.ok (attached dir path main store.volume).1,
          { store with volume := (attached dir path main store.volume).2 })
      | .fails _ e => (.error (.storage e), store) := by
  cases opening with
  | done =>
    simp only [openWriter, openFile, exec_bind, exec_get, h.named, exec_pure]
    exact exec_connectTo h
  | fails created e =>
    simp [openWriter, openFile, h.named]

/-- The writer is connected; one that is poisoned may fail to be reopened. -/
theorem connection_spec (h : Serves dir path main db store) (opening : Opening) :
    (∃ conn volume, exec (connection dir opening) store =
        (.ok conn, { store with volume := volume, writer := some conn }) ∧
      store.volume.Extends volume ∧ (store.writer ≠ none → volume = store.volume) ∧
      Serves dir path main db { store with volume := volume, writer := some conn } ∧
      Connected dir path main volume conn) ∨
    opening ≠ .done ∧
      ∃ e, exec (connection dir opening) store = (.error (.storage e), store) := by
  cases hwriter : store.writer with
  | some conn =>
    have hconn := h.writer conn hwriter
    refine .inl ⟨conn, store.volume, ?_, .refl _, fun _ => rfl, h.connected hconn, hconn⟩
    simp only [connection, exec_bind, exec_get, hwriter, exec_pure]
    rw [← hwriter]
  | none =>
    cases opening with
    | fails created e =>
      refine .inr ⟨nofun, e, ?_⟩
      simp only [connection, exec_bind, exec_get, hwriter, h.path, exec_openWriter h.stored]
    | done =>
      obtain ⟨hextends, hstored, hconn⟩ := h.stored.attached
      refine .inl ⟨_, _, ?_, hextends, fun hne => absurd rfl hne,
        (h.onVolume hstored fun _ hother => hother.mono hextends).connected hconn, hconn⟩
      simp only [connection, exec_bind, exec_get, hwriter, h.path, exec_openWriter h.stored,
        exec_modify, exec_pure]

/-- A pooled connection, or one that is opened for lack of it. -/
theorem take_spec (h : Serves dir path main db store) (opening : Opening) :
    (∃ conn store', exec (take dir opening) store = (.ok conn, store') ∧
      Serves dir path main db store' ∧ Connected dir path main store'.volume conn) ∨
    opening ≠ .done ∧ ∃ e, exec (take dir opening) store = (.error (.storage e), store) := by
  cases hidle : store.readers.idle with
  | cons conn idle =>
    obtain ⟨hconn, hrest⟩ := List.forall_mem_cons.mp (hidle ▸ h.idle)
    refine .inl ⟨conn, { store with readers := { store.readers with idle := idle } }, ?_,
      { h with idle := hrest }, hconn⟩
    simp only [take, exec_bind, exec_get, hidle, exec_modify, exec_pure]
  | nil =>
    have hnamed := h.stored.named
    cases opening with
    | fails created e =>
      refine .inr ⟨nofun, e, ?_⟩
      simp only [take, exec_bind, exec_get, hidle, openReader, h.readersPath, hnamed, exec_throw]
    | done =>
      obtain ⟨hextends, hstored, hconn⟩ := h.stored.attached
      refine .inl ⟨_, _, ?_, h.onVolume hstored fun _ hother => hother.mono hextends, hconn⟩
      simp only [take, exec_bind, exec_get, hidle, openReader, h.readersPath, hnamed]
      exact exec_connectTo h.stored

/-- A read is a query on the database, and the connection goes back to the pool. -/
theorem withReader_spec (h : Serves dir path main db store) {α : Type}
    (f : Db → Except Error α) (opening : Opening) :
    Serves dir path main db (exec (FileStore.withReader dir unspecified f opening) store).2 ∧
      (opening = .done →
        (exec (FileStore.withReader dir unspecified f opening) store).1 = f db) := by
  simp only [FileStore.withReader, exec_bind]
  rcases take_spec h opening with ⟨conn, store', htake, h', hconn⟩ | ⟨hopening, e, htake⟩
  · simp only [htake, exec_seen h' hconn, put, exec_modify, exec_ofExcept, Content.query]
    exact ⟨h'.returned hconn, fun _ => trivial⟩
  · rw [htake]
    exact ⟨h, fun hdone => absurd hdone hopening⟩

/-- The writer is dropped. -/
theorem closeWriter_spec (unspecified : FileM ν Content) (h : Serves dir path main db store)
    (hconn : Connected dir path main store.volume conn) (tidied : Bool) :
    ∃ store', exec (closeWriter dir unspecified conn tidied) store = (.ok (), store') ∧
      Serves dir path main db store' := by
  have hclosed : Serves dir path main db { store with writer := none } :=
    { h with writer := nofun }
  simp only [closeWriter, exec_bind, exec_modify, exec_get]
  split
  · next htidied =>
    simp only [exec_bind, exec_seen hclosed hconn, exec_get, setVolume, exec_modify]
    refine ⟨_, rfl, ?_, nofun, ?_, h.readersPath, h.path⟩
    · rw [h.path, hconn.main]
      exact h.stored.tidy
    · rw [List.isEmpty_iff.mp htidied.2]
      exact nofun
  · exact ⟨_, rfl, hclosed⟩

/-- A call to the writer is answered by the store without files, on the same database. -/
theorem onWriter_spec (unspecified : FileM ν Content) (h : Serves dir path main db store)
    (call : Call) (opening : Opening) (upkeep : Upkeep) :
    (∃ store', exec (onWriter dir unspecified call opening upkeep) store =
        (.ok ((ControlPlaneStore.mk db .live).answer call).2, store') ∧
      Serves dir path main ((ControlPlaneStore.mk db .live).answer call).1.db store') ∨
    opening ≠ .done ∧
      ∃ e, exec (onWriter dir unspecified call opening upkeep) store = (.error e, store) := by
  simp only [onWriter, exec_bind]
  rcases connection_spec h opening with
    ⟨conn, volume, hconnection, -, -, h', hconn⟩ | ⟨hopening, e, hconnection⟩
  · refine .inl ?_
    obtain ⟨store', hwrite, hserves, hstill⟩ := write_spec h' hconn
      ((ControlPlaneStore.mk db .live).answer call).1.db upkeep.checkpoint
    simp only [hconnection, exec_seen h' hconn, Content.query, exec_ofExcept, hwrite]
    split
    · obtain ⟨store'', hclose, hclosed⟩ :=
        closeWriter_spec unspecified hserves hstill upkeep.tidied
      simp only [exec_bind, hclose, exec_pure]
      exact ⟨store'', rfl, hclosed⟩
    · exact ⟨store', rfl, hserves⟩
  · rw [hconnection]
    exact .inr ⟨hopening, _, rfl⟩

/-- A store without handles, to be opened anew. -/
theorem close_spec (unspecified : FileM ν Content) (h : Serves dir path main db store)
    (tidied : Bool) :
    ∃ store', exec (close dir unspecified tidied) store = (.ok (), store') ∧
      Serves dir path main db store' := by
  have hdropped : ∀ {store}, Serves dir path main db store →
      Serves dir path main db { store with readers := { store.readers with idle := [] } } :=
    fun h => { h with idle := nofun }
  simp only [close, exec_bind, exec_get]
  cases hwriter : store.writer with
  | none =>
    simp only [exec_modify]
    exact ⟨_, rfl, hdropped h⟩
  | some conn =>
    obtain ⟨store', hclose, hclosed⟩ :=
      closeWriter_spec unspecified h (h.writer conn hwriter) tidied
    simp only [exec_bind, hclose, exec_modify]
    exact ⟨_, rfl, hdropped hclosed⟩

/-- The store that is opened on the path has the same database. -/
theorem reopen_spec (unspecified : FileM ν Content) (h : Serves dir path main db store)
    (tidied : Bool) (opening : Opening) (migrated : Except StorageError Unit) :
    Serves dir path main db (exec (reopen dir unspecified tidied opening migrated) store).2 ∧
      (opening = .done → migrated = .ok () →
        (exec (reopen dir unspecified tidied opening migrated) store).1 = .ok ()) := by
  obtain ⟨closed, hclose, hclosed⟩ := close_spec unspecified h tidied
  have hopen := exec_openWriter hclosed.stored opening
  simp only [reopen, exec_bind, hclose, exec_get, hclosed.path]
  cases opening with
  | fails created e =>
    rw [hopen]
    exact ⟨hclosed, nofun⟩
  | done =>
    obtain ⟨hextends, hstored, hconn⟩ := hclosed.stored.attached
    have hopened := hclosed.onVolume hstored fun _ hother => hother.mono hextends
    rw [hopen]
    cases migrated with
    | error e => exact ⟨hopened, nofun⟩
    | ok _ =>
      simp only [Except.mapError, exec_ofExcept, exec_seen hopened hconn, exec_modify]
      exact ⟨hopened.connected hconn, fun _ _ => trivial⟩

/-! ## 3. What a backup does -/

theorem leave_same {p : ν → Prop} {name : ν} {volume : Volume ν Content} {beside : Beside}
    (hname : beside.touched = true → ¬ p name) :
    Volume.Same p volume (leave name volume beside) := by
  cases beside with
  | kept => exact .refl p volume
  | removed => exact .unlink (hname rfl)
  | left content => exact .create (hname rfl) content

/-- Whatever is done beside the destination, the names of the store stay as they are. -/
theorem leaveAll_same {p : ν → Prop} {dest : String} {beside : SideFile → Beside}
    (sides : List SideFile) (volume : Volume ν Content)
    (hsides : ∀ side, (beside side).touched = true → ¬ p (dir.beside dest side)) :
    Volume.Same p volume (sides.foldl
      (fun volume side => leave (dir.beside dest side) volume (beside side)) volume) := by
  induction sides generalizing volume with
  | nil => exact .refl p volume
  | cons side sides ih => exact (leave_same (hsides side)).trans (ih _)

/-- A backup that has its connection, and spares the names of the store from here on. -/
structure Sparing (dir : Directory ν) (path : String) (main : Nat) (db : Db) (conn : Connection)
    (names : List ν) (store : FileStore ν) : Prop where
  serves : Serves dir path main db store
  connected : Connected dir path main store.volume conn
  spares : ∀ name ∈ names, name ∉ dir.names path

namespace Sparing

variable {names names' : List ν} {volume : Volume ν Content}

omit [DecidableEq ν] in
theorem same (h : Sparing dir path main db conn names store)
    (hsame : Volume.Same (· ∈ dir.names path) store.volume volume)
    (hspares : ∀ name ∈ names', name ∉ dir.names path) :
    Sparing dir path main db conn names' { store with volume := volume } :=
  ⟨h.serves.same hsame, h.connected.same hsame, hspares⟩

end Sparing

/-- The destination is free afterwards. -/
theorem clearDestination_spec {dest : String} {overwrite : Bool} {steps : BackupSteps}
    (hserves : Serves dir path main db store)
    (hconn : Connected dir path main store.volume conn)
    (hspares : ∀ name ∈ (match store.volume.named (dir.entry dest), overwrite, steps.remove with
      | none, _, _ => steps.touches dir dest
      | some _, true, .ok _ => dir.entry dest :: steps.touches dir dest
      | _, _, _ => []), name ∉ dir.names path) :
    Ends (fun _ t => Sparing dir path main db conn (steps.touches dir dest) t ∧
        t.volume.named (dir.entry dest) = none)
      (fun _ => Serves dir path main db)
      (exec (clearDestination dir dest overwrite steps.remove) store) := by
  simp only [clearDestination, exec_bind, exec_get]
  cases hnamed : store.volume.named (dir.entry dest) with
  | none =>
    simp only [hnamed] at hspares
    exact ⟨⟨hserves, hconn, hspares⟩, hnamed⟩
  | some old =>
    cases overwrite with
    | false => exact hserves
    | true =>
      cases hremove : steps.remove with
      | error e => exact hserves
      | ok _ =>
        simp only [hnamed, hremove] at hspares
        obtain ⟨hdest, hrest⟩ := List.forall_mem_cons.mp hspares
        have hsame : Volume.Same (· ∈ dir.names path) store.volume
            (store.volume.unlink (dir.entry dest)) := .unlink hdest
        exact ⟨⟨hserves.same hsame, hconn.same hsame, hrest⟩, Volume.named_unlink ..⟩

/-- A free name gets a new file, which is none of the store's. -/
theorem openFile_spec {dest : String} {steps : BackupSteps} :
    Triple (fun t => Sparing dir path main db conn (steps.touches dir dest) t ∧
        t.volume.named (dir.entry dest) = none)
      (openFile dir dest steps.opening)
      (fun file t => Sparing dir path main db conn
          ((SideFile.all.filter fun side => (steps.beside side).touched).map (dir.beside dest)) t ∧
        ∀ name ∈ dir.names path, t.volume.named name ≠ some file)
      (fun _ => Serves dir path main db) := by
  rintro store ⟨h, hfree⟩
  have hspares := h.spares
  unfold BackupSteps.touches at hspares
  cases hopening : steps.opening with
  | done =>
    rw [hopening] at hspares
    obtain ⟨hdest, hrest⟩ := List.forall_mem_cons.mp hspares
    have hsame : Volume.Same (· ∈ dir.names path) store.volume
        (store.volume.create (dir.entry dest) .blank) := .create hdest Content.blank
    simp only [openFile, exec_bind, exec_get, hfree, setVolume, exec_modify, exec_pure]
    refine ⟨h.same hsame hrest, fun name hname hnamed => ?_⟩
    exact Nat.lt_irrefl _ (store.volume.lt_next ((hsame.named name hname).symm.trans hnamed))
  | fails created e =>
    cases created with
    | false =>
      simp only [openFile, exec_bind, exec_get, hfree]
      exact h.serves
    | true =>
      rw [hopening] at hspares
      have hsame : Volume.Same (· ∈ dir.names path) store.volume
          (store.volume.create (dir.entry dest) .blank) :=
        .create (hspares _ List.mem_cons_self) Content.blank
      simp only [openFile, exec_bind, exec_get, hfree]
      exact h.serves.same hsame

omit [DecidableEq ν] in
theorem copyTo_spec {names : List ν} {file : Nat} (copy : Except (Content × StorageError) Unit) :
    Triple (fun t => Sparing dir path main db conn names t ∧
        ∀ name ∈ dir.names path, t.volume.named name ≠ some file)
      (copyTo dir unspecified conn file copy)
      (fun _ => Serves dir path main db) (fun _ => Serves dir path main db) := by
  rintro store ⟨h, hfile⟩
  cases copy with
  | ok _ =>
    simp only [copyTo, exec_bind, exec_seen h.serves h.connected, setVolume, exec_modify]
    exact h.serves.same (.write hfile _)
  | error left => exact h.serves.same (.write hfile _)

/-- What the connection to the destination does beside it. -/
theorem leaveAll_spec {dest : String} {steps : BackupSteps} {file : Nat}
    {E : Error → FileStore ν → Prop} :
    Triple (fun t => Sparing dir path main db conn
          ((SideFile.all.filter fun side => (steps.beside side).touched).map (dir.beside dest)) t ∧
        ∀ name ∈ dir.names path, t.volume.named name ≠ some file)
      (setVolume fun volume => SideFile.all.foldl
        (fun volume side => leave (dir.beside dest side) volume (steps.beside side)) volume)
      (fun _ t => Sparing dir path main db conn [] t ∧
        ∀ name ∈ dir.names path, t.volume.named name ≠ some file)
      E := by
  rintro store ⟨h, hfile⟩
  have hsame := leaveAll_same (p := (· ∈ dir.names path)) SideFile.all store.volume
    (fun side htouched hname => h.spares _ (List.mem_map_of_mem (List.mem_filter.mpr
      ⟨by cases side <;> decide, htouched⟩)) hname)
  simp only [setVolume, exec_modify]
  refine ⟨h.same hsame nofun, fun name hname => ?_⟩
  rw [hsame.named name hname]
  exact hfile name hname

theorem backupFile_spec {dest : String} {overwrite : Bool} {steps : BackupSteps}
    (hserves : Serves dir path main db store)
    (hconn : Connected dir path main store.volume conn)
    (hspares : ∀ name ∈ (match store.volume.named (dir.entry dest), overwrite, steps.remove with
      | none, _, _ => steps.touches dir dest
      | some _, true, .ok _ => dir.entry dest :: steps.touches dir dest
      | _, _, _ => []), name ∉ dir.names path) :
    Serves dir path main db
      (exec (backupFile dir unspecified conn dest overwrite steps) store).2 := by
  have hclear : Triple (· = store) (clearDestination dir dest overwrite steps.remove)
      (fun _ t => Sparing dir path main db conn (steps.touches dir dest) t ∧
        t.volume.named (dir.entry dest) = none)
      (fun _ => Serves dir path main db) := by
    rintro _ rfl
    exact clearDestination_spec hserves hconn hspares
  have hverified : Triple (Serves dir path main db) ((do
      let integrity ← MonadExcept.ofExcept (steps.integrityCheck.mapError Error.storage)
      if integrity ≠ "ok" then
        throw (.storage (.io s!"backup at {dest} failed integrity check: {integrity}"))) :
        FileM ν Unit)
      (fun _ => Serves dir path main db) (fun _ => Serves dir path main db) := by
    refine ((Triple.ofExcept _).conseq (fun _ h => h) (fun _ _ h => h.2) fun _ _ h => h.2).bind
      fun integrity => ?_
    intro store h
    split <;> exact h
  exact (hclear.bind fun _ => openFile_spec.bind fun _ => leaveAll_spec.bind fun _ =>
    (copyTo_spec steps.copy).bind fun _ => hverified) store rfl |>.state

/-- Whatever comes of a backup, the database is served that was served. -/
theorem backup_spec (h : Serves dir path main db store) {dest : String} {overwrite : Bool}
    {steps : BackupSteps} (hspares : ¬ TouchesStore dir store (.backup dest overwrite steps)) :
    Serves dir path main db (exec (backup dir unspecified dest overwrite steps) store).2 := by
  simp only [backup, exec_bind]
  rcases connection_spec h steps.connection with
    ⟨conn, volume, hconnection, -, -, h', hconn⟩ | ⟨-, e, hconnection⟩
  · simp only [TouchesStore, FileCall.touches, hconnection, not_exists, not_and, h.path] at hspares
    simp only [hconnection]
    exact backupFile_spec h' hconn hspares
  · rw [hconnection]
    exact h

/-- A destination that exists is refused, and every file is left as it was. Where the writer was
given up, a connection is opened first, whose side files may be new. -/
theorem backup_refused (unspecified : FileM ν Content) (h : Serves dir path main db store)
    {dest : String} (steps : BackupSteps) (hexists : store.volume.named (dir.entry dest) ≠ none) :
    ∃ e, (exec (backup dir unspecified dest false steps) store).1 = .error e ∧
      (steps.connection = .done → e = .validation
        ⟨s!"backup destination {dest} already exists (pass overwrite to replace it)"⟩) ∧
      store.volume.Extends (exec (backup dir unspecified dest false steps) store).2.volume ∧
      (store.writer ≠ none →
        (exec (backup dir unspecified dest false steps) store).2.volume = store.volume) := by
  simp only [backup, exec_bind]
  rcases connection_spec h steps.connection with
    ⟨conn, volume, hconnection, hextends, hopen, -, -⟩ | ⟨hopening, e, hconnection⟩
  · obtain ⟨old, hold⟩ := Option.ne_none_iff_exists'.mp hexists
    simp only [hconnection, backupFile, clearDestination, exec_bind, exec_get,
      hextends.named hold, exec_throw]
    exact ⟨_, rfl, fun _ => rfl, hextends, hopen⟩
  · rw [hconnection]
    exact ⟨_, rfl, fun hdone => absurd hdone hopening, .refl _, fun _ => rfl⟩

/-! ## 4. Runs -/

section Runs

variable {volume : Volume ν Content} {maxIdle : Nat} {calls : List FileCall}

theorem next_eq (store : FileStore ν) (call : FileCall) :
    (fileStore dir unspecified volume path maxIdle).next store call =
      (exec (call.program dir unspecified) store).2 := by
  unfold Machine.next fileStore
  dsimp only
  rcases exec (call.program dir unspecified) store with ⟨e | reply, t⟩ <;> rfl

open Directory in
/-- A new store. -/
theorem serves_create : Serves dir path volume.next .empty
    (FileStore.create dir volume path maxIdle) := by
  have hwal : (FileStore.create dir volume path maxIdle).volume.named (dir.beside path .wal) =
      some (volume.next + 1) := by
    refine (Volume.named_create_of_ne (beside_ne .wal .shm nofun) _).trans ?_
    exact Volume.named_create ..
  have hmain : (FileStore.create dir volume path maxIdle).volume.content volume.next =
      .database .empty := by
    refine (Volume.content_create_of_lt (Nat.lt_add_right 1 (Nat.lt_succ_self _)) _).trans ?_
    refine (Volume.content_create_of_lt (Nat.lt_succ_self _) _).trans ?_
    exact Volume.content_create ..
  have hclean : (FileStore.create dir volume path maxIdle).volume.content (volume.next + 1) =
      .wal none := by
    refine (Volume.content_create_of_lt (Nat.lt_succ_self _) _).trans ?_
    exact Volume.content_create ..
  refine ⟨⟨?_, ?_, .empty, hmain, ?_⟩, ?_, nofun, rfl, rfl⟩
  · refine (Volume.named_create_of_ne (entry_ne_beside .shm) _).trans ?_
    refine (Volume.named_create_of_ne (entry_ne_beside .wal) _).trans ?_
    exact Volume.named_create ..
  · refine (Volume.named_create_of_ne (beside_ne .journal .shm nofun) _).trans ?_
    refine (Volume.named_create_of_ne (beside_ne .journal .wal nofun) _).trans ?_
    refine (Volume.named_create_of_ne (entry_ne_beside .journal).symm _).trans ?_
    exact Volume.named_unlink ..
  · rw [hwal, Option.map_some, hclean]
    exact .clean
  · rintro conn hconn
    obtain rfl := Option.some.inj hconn
    exact ⟨rfl, hwal, Volume.named_create ..⟩

omit [DecidableEq ν] in
theorem answer_writer (db : Db) (writer : Writer) (call : Call) :
    (ControlPlaneStore.mk db writer).answer call = (ControlPlaneStore.mk db .live).answer call := by
  cases call <;> rfl

/-- One call: the store without files makes the same step, if the call got to it. -/
theorem serves_next (h : Serves dir path main db store) {call : FileCall}
    (hspares : ¬ TouchesStore dir store call) (plane : ControlPlaneStore) (hplane : plane.db = db) :
    Serves dir path main
      ((call.applied dir unspecified store).foldl controlPlane.next plane).db
      (exec (call.program dir unspecified) store).2 := by
  cases call with
  | onWriter call opening upkeep =>
    simp only [FileCall.program, FileCall.applied, exec_map]
    rcases onWriter_spec unspecified h call opening upkeep with
      ⟨t, hexec, hserves⟩ | ⟨-, e, hexec⟩
    · rw [hexec]
      obtain ⟨db', writer⟩ := plane
      obtain rfl : db' = db := hplane
      show Serves dir path main ((ControlPlaneStore.mk db' writer).answer call).1.db t
      rwa [answer_writer]
    · rw [hexec]
      exact hplane ▸ h
  | read opening =>
    simp only [FileCall.program, exec_map]
    exact hplane ▸ (withReader_spec h .ok opening).1
  | backup dest overwrite steps =>
    simp only [FileCall.program, exec_map]
    exact hplane ▸ backup_spec h hspares
  | reopen tidied opening migrated =>
    simp only [FileCall.program, exec_map]
    exact hplane ▸ (reopen_spec unspecified h tidied opening migrated).1

/-- A run whose backups spare the names of the store: at each point the files serve the database
that the calls so far make of an empty one. -/
theorem serves_stateAt
    (hspares : ∀ i call, calls[i]? = some call →
      ¬ TouchesStore dir ((fileStore dir unspecified volume path maxIdle).stateAt calls i) call)
    {k : Nat} (hk : k ≤ calls.length) :
    Serves dir path volume.next
      (controlPlane.after (appliedCalls dir unspecified volume path maxIdle (calls.take k))).db
      ((fileStore dir unspecified volume path maxIdle).stateAt calls k) := by
  refine Machine.stateAt_le_induction (P := fun k store => Serves dir path volume.next
    (controlPlane.after (appliedCalls dir unspecified volume path maxIdle (calls.take k))).db store)
    serves_create (fun m call _ hm ih => ?_) (Nat.zero_le k) hk
  rw [Machine.take_succ_of_getElem? hm, appliedCalls, Machine.log_append_singleton, next_eq,
    Machine.after, List.foldl_append]
  exact serves_next ih (hspares m call hm) _ rfl

theorem replyAt_eq {i : Nat} {call : FileCall} (hi : calls[i]? = some call) :
    (fileStore dir unspecified volume path maxIdle).replyAt calls i = some
      (match (exec (call.program dir unspecified)
          ((fileStore dir unspecified volume path maxIdle).stateAt calls i)).1 with
        | .ok reply => reply
        | .error e => .failed e) := by
  rw [Machine.replyAt, hi, Option.map_some]
  unfold fileStore
  dsimp only
  split <;> simp_all

/-- What a store gives that serves a database with the transaction. -/
theorem finds_of_serves (h : Serves dir path main db store) {transactionId : Id}
    {row : TransactionRow} (hrow : db.transaction transactionId = some row) :
    Finds dir unspecified store transactionId row.receipt where
  recovery upkeep := by
    rcases onWriter_spec unspecified h (.recoverTransaction transactionId) .done upkeep with
      ⟨t, hexec, -⟩ | ⟨hopening, -⟩
    · rw [hexec]
      simp [ControlPlaneStore.answer, recoverTransaction, hrow]
    · exact absurd rfl hopening
  reads := ⟨db, ⟨row, hrow, rfl⟩, fun _ f => (withReader_spec h f .done).2 rfl⟩

/-- A commit that returned `Ok` is on record in the database that is served. -/
theorem recorded_of_reply
    (hspares : ∀ i call, calls[i]? = some call →
      ¬ TouchesStore dir ((fileStore dir unspecified volume path maxIdle).stateAt calls i) call)
    {i : Nat} {limits : Limits} {batch : CommitBatch} {step : CommitStep} {opening : Opening}
    {upkeep : Upkeep} {receipt : CommitReceipt}
    (hi : calls[i]? = some (.onWriter (.commit limits batch step) opening upkeep))
    (hreply : (fileStore dir unspecified volume path maxIdle).replyAt calls i =
      some (.onWriter (.commit (.ok receipt)))) :
    ∃ row, (controlPlane.after
        (appliedCalls dir unspecified volume path maxIdle calls)).db.transaction
      batch.transactionId = some row ∧ row.receipt = receipt := by
  have hlt := (List.getElem?_eq_some_iff.mp hi).1
  have hserves := serves_stateAt hspares (Nat.le_of_lt hlt)
  rw [replyAt_eq hi, FileCall.program, exec_map] at hreply
  rcases onWriter_spec unspecified hserves (.commit limits batch step) opening upkeep with
    ⟨t, hexec, -⟩ | ⟨-, e, hexec⟩
  · rw [hexec] at hreply
    -- The commit is a call of the run without files, after those that came before it.
    obtain ⟨post, hpost⟩ : ∃ post, (fileStore dir unspecified volume path maxIdle).log
      (FileCall.applied dir unspecified) calls = _ ++ _ ++ post := Machine.log_at hi
    simp only [FileCall.applied, hexec] at hpost
    rw [appliedCalls, hpost]
    generalize hpre : (fileStore dir unspecified volume path maxIdle).log
      (FileCall.applied dir unspecified) (calls.take i) = pre
    rw [appliedCalls, hpre] at hexec hreply
    have hcall : (pre ++ [Call.commit limits batch step] ++ post)[pre.length]? =
        some (.commit limits batch step) := by simp
    have hstate : controlPlane.stateAt (pre ++ [Call.commit limits batch step] ++ post)
        pre.length = controlPlane.after pre := by simp [Machine.stateAt]
    have hok : controlPlane.replyAt (pre ++ [Call.commit limits batch step] ++ post) pre.length =
        some (.commit (.ok receipt)) := by
      rw [Machine.replyAt, hcall, hstate, Option.map_some]
      refine congrArg some ?_
      have hanswer := FileReply.onWriter.inj (Option.some.inj hreply)
      rwa [← answer_writer _ (controlPlane.after pre).writer] at hanswer
    obtain ⟨row, hrow, hreceipt⟩ := TransactionLemmas.recorded_of_ok hcall hok
    refine ⟨row, ?_, hreceipt⟩
    have hlater := transaction_persists (pre ++ [Call.commit limits batch step] ++ post)
      (show pre.length + 1 ≤ (pre ++ [Call.commit limits batch step] ++ post).length by simp) hrow
    rwa [Machine.stateAt_length] at hlater
  · rw [hexec] at hreply
    cases hreply

end Runs

end BackupLemmas

open BackupLemmas

/-! ## 5. A backup to the path of the store -/

namespace Sample

/-- Paths that are the names themselves. -/
def directory : Directory String where
  entry path := path
  suffix_ne path side := by
    intro h
    have hlength := congrArg String.length h
    rw [String.length_append] at hlength
    cases side <;> simp [SideFile.suffix] at hlength
  suffixes_ne path side side' hne := by
    intro h
    have hsuffix := (String.append_right_inj path).mp h
    cases side <;> cases side' <;> simp_all [SideFile.suffix]

/-- A volume without files. -/
def emptyVolume : Volume String Content where
  named := fun _ => none
  content := fun _ => .blank
  next := 0
  lt_next := by simp

def keepOpen : Upkeep := ⟨false, false⟩

/-- A backup where nothing goes wrong, from a database without side files to one. -/
def backupTo (dest : String) (overwrite : Bool) : FileCall :=
  .backup dest overwrite ⟨.done, .ok (), .done, fun _ => .kept, .ok (), .ok "ok"⟩

/-- A backup to the path of the store itself, which comes as far as the removal. -/
def replaced : List FileCall :=
  [.onWriter (.commit .default (submission 1 7) .done) .done keepOpen,
    .backup "store.db" true ⟨.done, .ok (), .fails false (.sqlite "unable to open database file"),
      fun _ => .kept, .ok (), .ok "ok"⟩]

/-- Between two commits, a backup to another path. -/
def beside : List FileCall :=
  [.onWriter (.commit .default (submission 1 7) .done) .done keepOpen, backupTo "backup.db" true,
    .onWriter (.commit .default (submission 2 7) .done) .done keepOpen]

end Sample

/-- The commit returns `Ok`, and then there is no database, whatever the writer may still see. -/
theorem backup_own_path_counterexample :
    ¬ ∃ unspecified, Keeps Sample.directory unspecified Sample.emptyVolume "store.db" 4
      Sample.replaced := by
  rintro ⟨unspecified, hkeeps⟩
  have hreply : (fileStore Sample.directory unspecified Sample.emptyVolume "store.db" 4).replyAt
      Sample.replaced 0 = some (.onWriter (.commit (.ok ⟨.ofU128 1, 1, 7⟩))) := by
    rfl
  have hread : (exec (FileStore.withReader Sample.directory unspecified (fun _ => .ok ()) .done)
      ((fileStore Sample.directory unspecified Sample.emptyVolume "store.db" 4).after
        Sample.replaced)).1 = .error (.storage (.io "database file store.db does not exist")) := by
    rfl
  obtain ⟨db, -, hreads⟩ :=
    (hkeeps 0 .default (Sample.submission 1 7) .done .done Sample.keepOpen _ rfl hreply).1.reads
  have hok := hreads Unit fun _ => .ok ()
  rw [hread] at hok
  cases hok

/-! ## 6. All other runs -/

/-- In a run whose backups neither create nor remove a name of the store: every commit that
returned `Ok` is found, also after the path was opened again; every read is a query on the
database of the run without its backups; and a backup that is refused for its destination
leaves every file as it was. -/
theorem backup_keeps_commits {ν : Type} [DecidableEq ν] (dir : Directory ν)
    (unspecified : FileM ν Content) (volume : Volume ν Content) (path : String) (maxIdle : Nat)
    (calls : List FileCall)
    (hspares : ∀ i call, calls[i]? = some call →
      ¬ TouchesStore dir ((fileStore dir unspecified volume path maxIdle).stateAt calls i) call) :
    let M := fileStore dir unspecified volume path maxIdle
    Keeps dir unspecified volume path maxIdle calls ∧
    (∀ (α : Type) (f : Db → Except Error α),
      (exec (FileStore.withReader dir unspecified f .done) (M.after calls)).1 =
        f (controlPlane.after (appliedCalls dir unspecified volume path maxIdle calls)).db) ∧
    ∀ i dest steps, calls[i]? = some (.backup dest false steps) →
      (M.stateAt calls i).volume.named (dir.entry dest) ≠ none →
      ∃ e, M.replyAt calls i = some (.failed e) ∧
        (steps.connection = .done → e = .validation
          ⟨s!"backup destination {dest} already exists (pass overwrite to replace it)"⟩) ∧
        (M.stateAt calls i).volume.Extends (M.stateAt calls (i + 1)).volume ∧
        ((M.stateAt calls i).writer ≠ none →
          (M.stateAt calls (i + 1)).volume = (M.stateAt calls i).volume) := by
  have hserves := serves_stateAt hspares (Nat.le_refl _)
  rw [Machine.stateAt_length, List.take_length] at hserves
  refine ⟨?_, fun _ f => (withReader_spec hserves f .done).2 rfl, ?_⟩
  · intro i limits batch step opening upkeep receipt hi hreply
    obtain ⟨row, hrow, rfl⟩ := recorded_of_reply hspares hi hreply
    refine ⟨finds_of_serves hserves hrow, fun tidied => ?_⟩
    obtain ⟨hreopened, hok⟩ := reopen_spec unspecified hserves tidied .done (.ok ())
    exact ⟨hok rfl rfl, finds_of_serves hreopened hrow⟩
  · intro i dest steps hi hexists
    have hlt := (List.getElem?_eq_some_iff.mp hi).1
    obtain ⟨e, he, htext, hextends, hopen⟩ := backup_refused unspecified
      (serves_stateAt hspares (Nat.le_of_lt hlt)) steps hexists
    refine ⟨e, ?_, htext, ?_⟩
    · rw [replyAt_eq hi, FileCall.program, exec_map, he]
      rfl
    · rw [Machine.stateAt_succ hi, next_eq, FileCall.program, exec_map]
      exact ⟨hextends, hopen⟩

/-- A backup beside the store, between two commits. -/
theorem backup_keeps_commits_sample :
    (exec (FileStore.withReader Sample.directory (pure .blank)
      (fun db => .ok (eventsAfter db 0 10)) .done)
      ((fileStore Sample.directory (pure .blank) Sample.emptyVolume "store.db" 4).after
        Sample.beside)).1.map List.length = .ok 2 := by
  rw [(backup_keeps_commits _ _ _ _ _ _ ?_).2.1]
  · decide +kernel
  · rintro i call hi ⟨name, htouched, hname⟩
    rcases i with _ | _ | _ | i
    · obtain rfl := Option.some.inj hi
      cases htouched
    · obtain rfl := Option.some.inj hi
      have hspares : ∀ name ∈ FileCall.touches Sample.directory
          ((fileStore Sample.directory (pure .blank) Sample.emptyVolume "store.db" 4).stateAt
            Sample.beside 1) (Sample.backupTo "backup.db" true),
          name ∉ Sample.directory.names "store.db" := by
        decide +kernel
      exact hspares name htouched hname
    · obtain rfl := Option.some.inj hi
      cases htouched
    · cases hi

end Minisqlite
