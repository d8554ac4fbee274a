import Minisqlite.Store.TableReads

/-!
# Every read of the store's data

`get_job`, `get_event`, `projections_list` and `projection_entry_count` on the tables of the
store, and with them the answer to any `DataRead`.
-/

namespace Minisqlite

open Tables TableReads

/-- `get_job`. -/
def getJob (db : Db) (jobId : Id) : Option JobInfo := (db.job jobId).map JobRow.info

/-- `get_event`. -/
def getEvent (db : Db) (eventId : Id) : Option PersistedEvent :=
  (db.events.lookup (fun row => row.event.eventId) eventId).map EventRow.persisted

/-- `projections_list`. -/
def projectionsList (db : Db) : List (String × UInt64) :=
  (db.projectionMeta.rows.insertionSort fun a b => utf8 a.projection ≤ utf8 b.projection).map
    fun row => (row.projection, row.version.toUInt64)

/-- `projection_entry_count`. -/
def projectionEntryCount (db : Db) (projection : String) : UInt64 :=
  UInt64.ofNat (db.projectionEntries.rows.filter fun row =>
    decide (row.projection = projection)).length

/-- The read, of the store. -/
def Db.read (db : Db) : (read : DataRead) → Except Error read.Result
  | .job jobId => .ok (getJob db jobId)
  | .jobs queue state limit => .ok (listJobs db queue state limit)
  | .jobsPage queue state afterSequence limit => listJobsPage db queue state afterSequence limit
  | .recoverTransaction transactionId => .ok (recoverTransaction db transactionId)
  | .recoverClaim transactionId nowMs => .ok (recoverClaim db transactionId nowMs)
  | .eventsAfter after limit => .ok (eventsAfter db after limit)
  | .streamEvents streamId fromVersion limit => .ok (streamEvents db streamId fromVersion limit)
  | .lastEvents limit => .ok (lastEvents db limit)
  | .getEvent eventId => .ok (getEvent db eventId)
  | .streamVersion streamId => .ok (db.streamVersion streamId)
  | .projectionVersion projection => .ok (db.projectionVersion projection)
  | .projectionGet projection key => .ok (projectionGet db projection key)
  | .projectionScanPrefix projection keyPrefix limit =>
    .ok (projectionScanPrefix db projection keyPrefix limit)
  | .projectionScanPrefixPage projection keyPrefix after limit =>
    .ok (projectionScanPrefixPage db projection keyPrefix after limit)
  | .projectionScanRange projection start stop after limit =>
    .ok (projectionScanRange db projection start stop after limit)
  | .projectionsList => .ok (projectionsList db)
  | .projectionEntryCount projection => .ok (projectionEntryCount db projection)

end Minisqlite
