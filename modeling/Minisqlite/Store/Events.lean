import Minisqlite.Store.ControlPlane

/-!
# Reading the event log

`events_after`, `stream_events` and `last_events` of `store/events.rs`, with
`row_to_persisted_event`. A `usize` limit has 64 bits here, as the cast to the
`i64` of SQLite's LIMIT matters: a negative LIMIT is none.
-/

namespace Minisqlite

open Tables

/-- `PersistedEvent`. -/
structure PersistedEvent where
  transactionId : Id
  globalSequence : UInt64
  streamVersion : UInt64
  event : Event
deriving DecidableEq

/-- `row_to_persisted_event`. -/
def EventRow.persisted (row : EventRow) : PersistedEvent :=
  ⟨row.transactionId, row.globalSequence.toUInt64, row.streamVersion.toUInt64, row.event⟩

/-- `LIMIT ?`, of `limit as i64`. -/
def limitRows {ρ : Type} (limit : UInt64) (rows : List ρ) : List ρ :=
  if limit.toInt64 < 0 then rows else rows.take limit.toInt64.toInt.toNat

theorem limitRows_map {ρ σ : Type} (f : ρ → σ) (limit : UInt64) (rows : List ρ) :
    limitRows limit (rows.map f) = (limitRows limit rows).map f := by
  unfold limitRows
  split
  · rfl
  · exact List.map_take.symm

/-- A limit within `i64` is that limit, and a larger one is none. -/
theorem limitRows_cases {ρ : Type} (limit : UInt64) (rows : List ρ) :
    limitRows limit rows = rows.take limit.toNat ∨
      2 ^ 63 ≤ limit.toNat ∧ limitRows limit rows = rows := by
  unfold limitRows
  split
  · next hneg =>
    refine .inr ⟨?_, rfl⟩
    by_contra hlt
    rw [Int64.lt_iff_toInt_lt, toInt_toInt64 (by omega)] at hneg
    exact absurd hneg (by simp)
  · next hnonneg =>
    have hvalue := toNat_toUInt64 (Int64.le_iff_toInt_le.mp (Int64.not_lt.mp hnonneg))
    rw [UInt64.toUInt64_toInt64] at hvalue
    rw [← hvalue, Int.toNat_natCast]
    exact .inl rfl

/-- No table is so large that a limit without a sign cuts what the cast one does not. -/
theorem limitRows_eq {ρ : Type} {limit : UInt64} {rows : List ρ}
    (h : limit.toNat < 2 ^ 63 ∨ rows.length < 2 ^ 63) :
    limitRows limit rows = rows.take limit.toNat := by
  rcases limitRows_cases limit rows with htake | ⟨hlarge, hall⟩
  · exact htake
  · rw [hall, List.take_of_length_le (by omega)]

/-- `events_after`. -/
def eventsAfter (db : Db) (after limit : UInt64) : List PersistedEvent :=
  let rows := db.events.rows.filter fun row => decide (after.toInt64 < row.globalSequence)
  let ordered := rows.insertionSort fun a b => a.globalSequence ≤ b.globalSequence
  (limitRows limit ordered).map EventRow.persisted

/-- `stream_events`. -/
def streamEvents (db : Db) (streamId : String) (fromVersion limit : UInt64) : List PersistedEvent :=
  let rows := db.events.rows.filter fun row =>
    decide (row.event.streamId = streamId) && decide (fromVersion.toInt64 ≤ row.streamVersion)
  let ordered := rows.insertionSort fun a b => a.streamVersion ≤ b.streamVersion
  (limitRows limit ordered).map EventRow.persisted

/-- `last_events`. -/
def lastEvents (db : Db) (limit : UInt64) : List PersistedEvent :=
  let ordered := db.events.rows.insertionSort fun a b => b.globalSequence ≤ a.globalSequence
  ((limitRows limit ordered).map EventRow.persisted).reverse

end Minisqlite
