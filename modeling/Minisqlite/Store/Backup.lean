import Minisqlite.Lib.Stops
import Minisqlite.Lib.Volume
import Minisqlite.Store.ControlPlane

/-!
# The store among files

The store of `store/mod.rs` with its handles: the writer, the pool of `read_pool.rs` and
the path they are opened by, and `backup` of `ops.rs`.

SQLite keeps a database in more than one file: what has been committed since the last
checkpoint is in a WAL beside it, and a rollback journal beside it would be played back. So a
database has several names, and a connection several files. A database whose files are
removed or replaced while it is open is one for which SQLite promises nothing: what a
connection then sees is a parameter, `unspecified`. What the operating system and SQLite make of
a call otherwise is part of the call.
-/

namespace Minisqlite

open Files

/-- The files that SQLite keeps beside a database. -/
inductive SideFile
  | wal
  | shm
  | journal
deriving DecidableEq

def SideFile.suffix : SideFile → String
  | .wal => "-wal"
  | .shm => "-shm"
  | .journal => "-journal"

def SideFile.all : List SideFile := [.wal, .shm, .journal]

/-- The names that paths spell in a file system. Two paths can spell one name, but those of a
database and of its side files spell different ones. -/
structure Directory (ν : Type) where
  entry : String → ν
  suffix_ne : ∀ path (side : SideFile), entry (path ++ side.suffix) ≠ entry path
  suffixes_ne : ∀ path (side side' : SideFile), side ≠ side' →
    entry (path ++ side.suffix) ≠ entry (path ++ side'.suffix)

namespace Directory

variable {ν : Type} (dir : Directory ν)

def beside (path : String) (side : SideFile) : ν := dir.entry (path ++ side.suffix)

/-- All names of a database. -/
def names (path : String) : List ν := dir.entry path :: SideFile.all.map (dir.beside path)

end Directory

/-- What is in a file. -/
inductive Content
  | blank
  /-- The tables of a store, as of the last checkpoint. -/
  | database (db : Db)
  /-- What has been committed since, if anything. -/
  | wal (committed : Option Db)
  /-- The index of a WAL. -/
  | shm
  | other (bytes : Bytes)

/-- A query on such a database. -/
def Content.query {α : Type} (f : Db → Except Error α) : Content → Except Error α
  | .blank => .error (.storage (.sqlite "no such table"))
  | .database db => f db
  | _ => .error (.storage (.sqlite "file is not a database"))

/-- The files that a connection has open. -/
structure Connection where
  main : Nat
  wal : Nat
  shm : Nat

/-- `ReadPool`; the idle connection that was put back last is the first. -/
structure ReadPool where
  path : String
  idle : List Connection
  maxIdle : Nat

/-- `ControlPlaneStore`, with the volume that its files are on. -/
structure FileStore (ν : Type) where
  volume : Volume ν Content
  writer : Option Connection
  readers : ReadPool
  path : String

/-- How the opening of a file ends. One that fails may have created it. -/
inductive Opening
  | done
  | fails (created : Bool) (error : StorageError)
deriving DecidableEq

/-- What becomes of a name beside a new database while it is written. A side file of an older
one is in the way. -/
inductive Beside
  | kept
  | removed
  | left (content : Content)

def Beside.touched : Beside → Bool
  | .kept => false
  | _ => true

/-- What comes of the steps of a backup, those that it gets to. -/
structure BackupSteps where
  connection : Opening
  remove : Except String Unit
  opening : Opening
  beside : SideFile → Beside
  /-- A copy that fails leaves something in the file. -/
  copy : Except (Content × StorageError) Unit
  integrityCheck : Except StorageError String

/-- What SQLite does by itself: a checkpoint after a COMMIT, and that the last connection to a
database removes its WAL. -/
structure Upkeep where
  checkpoint : Bool
  tidied : Bool

namespace FileStore

/-- Code that can fail after it has changed something. -/
abbrev FileM (ν : Type) := ExceptT Error (StateM (FileStore ν))

section Handles

variable {ν : Type} [DecidableEq ν] (dir : Directory ν) (unspecified : FileM ν Content)

def setVolume (f : Volume ν Content → Volume ν Content) : FileM ν Unit :=
  modify fun store => { store with volume := f store.volume }

/-- The first statement of a connection opens the side files. An empty database has none, so that
those that are there are removed. -/
def attached (path : String) (main : Nat) (volume : Volume ν Content) :
    Connection × Volume ν Content :=
  let volume := match volume.content main with
    | .blank => SideFile.all.foldl (fun v side => Volume.unlink v (dir.beside path side)) volume
    | _ => volume
  let (wal, volume) := volume.provide (dir.beside path .wal) (.wal none)
  let (shm, volume) := volume.provide (dir.beside path .shm) .shm
  (⟨main, wal, shm⟩, volume)

def attach (path : String) (main : Nat) : FileM ν Connection := do
  let (conn, volume) := attached dir path main (← get).volume
  setVolume fun _ => volume
  pure conn

/-- The names of the database name the files that the connection has open. -/
def InPlace (store : FileStore ν) (conn : Connection) : Prop :=
  store.volume.named (dir.entry store.path) = some conn.main ∧
    store.volume.named (dir.beside store.path .wal) = some conn.wal ∧
    store.volume.named (dir.beside store.path .shm) = some conn.shm ∧
    store.volume.named (dir.beside store.path .journal) = none

instance (store : FileStore ν) (conn : Connection) : Decidable (InPlace dir store conn) :=
  inferInstanceAs (Decidable (_ ∧ _ ∧ _ ∧ _))

/-- What a connection sees. -/
def seen (conn : Connection) : FileM ν Content := do
  let store ← get
  if InPlace dir store conn then
    match store.volume.content conn.wal with
    | .wal none => pure (store.volume.content conn.main)
    | .wal (some db) => pure (.database db)
    | _ => unspecified
  else unspecified

/-- `Connection::open`. -/
def openFile (path : String) (opening : Opening) : FileM ν Nat := do
  let volume := (← get).volume
  match opening, volume.named (dir.entry path) with
  | .done, some file => pure file
  | .done, none =>
    setVolume fun volume => volume.create (dir.entry path) .blank
    pure volume.next
  | .fails created e, file =>
    if created ∧ file = none then setVolume fun volume => volume.create (dir.entry path) .blank
    throw (.storage e)

/-- A connection to a file that has been opened. -/
def connectTo (path : String) (main : Nat) : FileM ν Connection := do
  match (← get).volume.content main with
  | .blank | .database _ => attach dir path main
  | _ => throw (.storage (.sqlite "file is not a database"))

/-- `connection::open`, whose pragmas read the file. -/
def openWriter (path : String) (opening : Opening) : FileM ν Connection := do
  let main ← openFile dir path opening
  connectTo dir path main

/-- `connection::open_reader`, and the first statement. -/
def openReader (path : String) (opening : Opening) : FileM ν Connection := do
  match (← get).volume.named (dir.entry path), opening with
  | none, _ => throw (.storage (.io s!"database file {path} does not exist"))
  | some _, .fails _ e => throw (.storage e)
  | some main, .done => connectTo dir path main

/-- `connection`. -/
def connection (opening : Opening) : FileM ν Connection := do
  match (← get).writer with
  | some conn => pure conn
  | none =>
    let conn ← openWriter dir (← get).path opening
    modify fun store => { store with writer := some conn }
    pure conn

/-- A COMMIT writes to the WAL, and a checkpoint from there to the database. -/
def write (conn : Connection) (db : Db) (checkpoint : Bool) : FileM ν Unit :=
  setVolume fun volume =>
    if checkpoint then (volume.write conn.main (.database db)).write conn.wal (.wal none)
    else volume.write conn.wal (.wal (some db))

/-- The writer is dropped. If it was the last connection, SQLite can tidy up. -/
def closeWriter (conn : Connection) (tidied : Bool) : FileM ν Unit := do
  modify fun store => { store with writer := none }
  if tidied ∧ (← get).readers.idle.isEmpty then
    let content ← seen dir unspecified conn
    let path := (← get).path
    setVolume fun volume => ((volume.write conn.main content).unlink (dir.beside path .wal)).unlink
      (dir.beside path .shm)

/-- `ReadPool::take`. -/
def take (opening : Opening) : FileM ν Connection := do
  let readers := (← get).readers
  match readers.idle with
  | conn :: idle =>
    modify fun store => { store with readers := { readers with idle := idle } }
    pure conn
  | [] => openReader dir readers.path opening

/-- `ReadPool::put`. -/
def put (conn : Connection) : FileM ν Unit :=
  modify fun store =>
    if store.readers.idle.length < store.readers.maxIdle then
      { store with readers := { store.readers with idle := conn :: store.readers.idle } }
    else store

/-- `with_reader`: every read of the store is one. -/
def withReader {α : Type} (f : Db → Except Error α) (opening : Opening) : FileM ν α := do
  let conn ← take dir opening
  let content ← seen dir unspecified conn
  put conn
  MonadExcept.ofExcept (content.query f)

/-- A call that goes to the writer. One whose COMMIT failed gives it up. -/
def onWriter (call : Call) (opening : Opening) (upkeep : Upkeep) : FileM ν Reply := do
  let conn ← connection dir opening
  let content ← seen dir unspecified conn
  let db ← MonadExcept.ofExcept (content.query .ok)
  let answer := (ControlPlaneStore.mk db .live).answer call
  write conn answer.1.db upkeep.checkpoint
  if answer.1.writer = .poisoned then closeWriter dir unspecified conn upkeep.tidied
  pure answer.2

/-- The store is dropped, or its process has died. -/
def close (tidied : Bool) : FileM ν Unit := do
  match (← get).writer with
  | some conn => closeWriter dir unspecified conn tidied
  | none => pure ()
  modify fun store => { store with readers := { store.readers with idle := [] } }

/-- `ControlPlaneStore::open` on the path of the store, once that is closed. Where it fails there
is no store, and only another opening can follow. -/
def reopen (tidied : Bool) (opening : Opening) (migrated : Except StorageError Unit) :
    FileM ν Unit := do
  close dir unspecified tidied
  let conn ← openWriter dir (← get).path opening
  MonadExcept.ofExcept (migrated.mapError Error.storage)
  match ← seen dir unspecified conn with
  | .blank => write conn .empty true
  | _ => pure ()
  modify fun store => { store with writer := some conn }

/-! ## `backup` -/

/-- The destination is checked, and made free. -/
def clearDestination (dest : String) (overwrite : Bool) (remove : Except String Unit) :
    FileM ν Unit := do
  match (← get).volume.named (dir.entry dest), overwrite with
  | none, _ => pure ()
  | some _, false => throw (.validation
      ⟨s!"backup destination {dest} already exists (pass overwrite to replace it)"⟩)
  | some _, true =>
    MonadExcept.ofExcept (remove.mapError fun e => Error.storage (.io s!"remove {dest}: {e}"))
    setVolume fun volume => volume.unlink (dir.entry dest)

/-- What the connection to the destination does beside it. -/
def leave (name : ν) (volume : Volume ν Content) : Beside → Volume ν Content
  | .kept => volume
  | .removed => volume.unlink name
  | .left content => volume.create name content

/-- `Backup::new` and `run_to_completion`. -/
def copyTo (conn : Connection) (file : Nat) (copy : Except (Content × StorageError) Unit) :
    FileM ν Unit := do
  match copy with
  | .ok _ =>
    let content ← seen dir unspecified conn
    setVolume fun volume => volume.write file content
  | .error (left, e) =>
    setVolume fun volume => volume.write file left
    throw (.storage e)

/-- `ops::backup`. -/
def backupFile (conn : Connection) (dest : String) (overwrite : Bool) (steps : BackupSteps) :
    FileM ν Unit := do
  clearDestination dir dest overwrite steps.remove
  let file ← openFile dir dest steps.opening
  setVolume fun volume =>
    SideFile.all.foldl (fun volume side => leave (dir.beside dest side) volume (steps.beside side))
      volume
  copyTo dir unspecified conn file steps.copy
  let integrity ← MonadExcept.ofExcept (steps.integrityCheck.mapError Error.storage)
  if integrity ≠ "ok" then
    throw (.storage (.io s!"backup at {dest} failed integrity check: {integrity}"))

/-- `ControlPlaneStore::backup`. -/
def backup (dest : String) (overwrite : Bool) (steps : BackupSteps) : FileM ν Unit := do
  let conn ← connection dir steps.connection
  backupFile dir unspecified conn dest overwrite steps

end Handles

end FileStore

/-! ## Calls and runs -/

inductive FileCall
  | onWriter (call : Call) (opening : Opening) (upkeep : Upkeep)
  | read (opening : Opening)
  | backup (dest : String) (overwrite : Bool) (steps : BackupSteps)
  | reopen (tidied : Bool) (opening : Opening) (migrated : Except StorageError Unit)

inductive FileReply
  | onWriter (reply : Reply)
  /-- What the query of a read is asked of. -/
  | read (db : Db)
  | done
  | failed (error : Error)

section Runs

variable {ν : Type} [DecidableEq ν] (dir : Directory ν) (unspecified : FileStore.FileM ν Content)

open FileStore in
/-- One call, as a program. -/
def FileCall.program : FileCall → FileM ν FileReply
  | .onWriter call opening upkeep =>
    .onWriter <$> FileStore.onWriter dir unspecified call opening upkeep
  | .read opening => .read <$> withReader dir unspecified .ok opening
  | .backup dest overwrite steps =>
    (fun _ => .done) <$> FileStore.backup dir unspecified dest overwrite steps
  | .reopen tidied opening migrated =>
    (fun _ => .done) <$> FileStore.reopen dir unspecified tidied opening migrated

/-- A new store at `path`, on a volume with other files. -/
def FileStore.create (volume : Volume ν Content) (path : String) (maxIdle : Nat) : FileStore ν where
  volume := (((volume.unlink (dir.beside path .journal)).create (dir.entry path)
    (.database .empty)).create (dir.beside path .wal) (.wal none)).create (dir.beside path .shm)
    .shm
  writer := some ⟨volume.next, volume.next + 1, volume.next + 2⟩
  readers := ⟨path, [], maxIdle⟩
  path := path

/-- The store with its files as a machine. -/
def fileStore (volume : Volume ν Content) (path : String) (maxIdle : Nat) :
    Runs.Machine (FileStore ν) FileCall FileReply where
  start := .create dir volume path maxIdle
  step store call :=
    match Stops.exec (call.program dir unspecified) store with
    | (.ok reply, store) => (store, reply)
    | (.error e, store) => (store, .failed e)

end Runs

end Minisqlite
