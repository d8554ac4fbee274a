import Minisqlite.Store.Events

/-!
# Reading projections

`projection_get` and the scans of `store/projections.rs`; `projection_version` is
`Db.projectionVersion`. SQLite compares BLOBs byte by byte, as lists of bytes do.
-/

namespace Minisqlite

open Tables

/-- `SELECT … FROM projection_entries WHERE projection = ?1 AND key = ?2`. -/
def Db.entry (db : Db) (projection : String) (key : Bytes) : Option ProjectionEntryRow :=
  db.projectionEntries.lookup (fun row => (row.projection, row.key)) (projection, key)

/-- `projection_get`. -/
def projectionGet (db : Db) (projection : String) (key : Bytes) : Option Bytes :=
  (db.entry projection key).map ProjectionEntryRow.value

/-! ## Scans -/

/-- The loop of `prefix_upper_bound`, over the bytes from the last one on. -/
def boundLoop : Bytes → Option Bytes
  | [] => none
  | last :: bound => if last = 0xFF then boundLoop bound else some (bound.reverse ++ [last + 1])

/-- `prefix_upper_bound`. -/
def prefixUpperBound (keyPrefix : Bytes) : Option Bytes := boundLoop keyPrefix.reverse

def ProjectionEntryRow.entry (row : ProjectionEntryRow) : ProjectionEntry := ⟨row.key, row.value⟩

/-- `scan`: each bound that is given adds a condition. -/
def scan (db : Db) (projection : String) (start stop after : Option Bytes) (limit : UInt64) :
    List ProjectionEntry :=
  let rows := db.projectionEntries.rows.filter fun row =>
    decide (row.projection = projection) && start.all (fun start => decide (start ≤ row.key)) &&
      stop.all (fun stop => decide (row.key < stop)) &&
      after.all fun after => decide (after < row.key)
  let ordered := rows.insertionSort fun a b => a.key ≤ b.key
  (limitRows limit ordered).map ProjectionEntryRow.entry

/-- `projection_scan_prefix_page`. -/
def projectionScanPrefixPage (db : Db) (projection : String) (keyPrefix : Bytes)
    (after : Option Bytes) (limit : UInt64) : List ProjectionEntry :=
  scan db projection (some keyPrefix) (prefixUpperBound keyPrefix) after limit

/-- `projection_scan_prefix`. -/
def projectionScanPrefix (db : Db) (projection : String) (keyPrefix : Bytes) (limit : UInt64) :
    List ProjectionEntry :=
  projectionScanPrefixPage db projection keyPrefix none limit

/-- `projection_scan_range`. -/
def projectionScanRange (db : Db) (projection : String) (start stop after : Option Bytes)
    (limit : UInt64) : List ProjectionEntry :=
  scan db projection start stop after limit

end Minisqlite
