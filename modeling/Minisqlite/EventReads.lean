import Minisqlite.EventLog
import Minisqlite.Lib.Keyset
import Minisqlite.Store.Events

/-!
# Reading at a position

What the three event queries should answer is said here over the log as the API
shows it, with `u64` positions. The store casts a position to the `i64` of the
column before it compares: above `i64::MAX` it becomes negative, and a query
that should select nothing selects everything. `jobs_page` checks that range;
these queries do not. A limit above `i64::MAX` becomes a negative LIMIT, which is
none, and no table is that long.

* `eventsAfter_overflow_counterexample`: such a position.
* `event_reads_exact_iff`: exactly when each query is right.
-/

namespace Minisqlite

open Tables Runs

/-! ## What the queries should answer -/

/-- The log, as the API shows it. -/
def Db.persistedEvents (db : Db) : List PersistedEvent := db.events.rows.map EventRow.persisted

/-- The first `limit` events behind a position. -/
def firstEventsAfter (db : Db) (after limit : UInt64) : List PersistedEvent :=
  (db.persistedEvents.filter fun event => decide (after < event.globalSequence)).take limit.toNat

/-- The first `limit` events of a stream from a version on. -/
def firstStreamEvents (db : Db) (streamId : String) (fromVersion limit : UInt64) :
    List PersistedEvent :=
  (db.persistedEvents.filter fun event => decide (event.event.streamId = streamId) &&
    decide (fromVersion ≤ event.streamVersion)).take limit.toNat

/-- The last `limit` events. -/
def newestEvents (db : Db) (limit : UInt64) : List PersistedEvent :=
  db.persistedEvents.drop (db.persistedEvents.length - limit.toNat)

namespace EventReadLemmas

variable {rows : List EventRow} {key : EventRow → Int64} {db : Db} {limit position : UInt64}

/-- A position above `i64::MAX` is cast to a negative one. -/
theorem toInt64_neg {n : UInt64} (h : ¬ n.toNat < 2 ^ 63) : n.toInt64.toInt < 0 := by
  by_contra hneg
  have hvalue := toNat_toUInt64 (not_lt.mp hneg)
  rw [UInt64.toUInt64_toInt64] at hvalue
  have := n.toInt64.toInt_lt
  omega

/-- Two filters that agree on small positions, while a large one passes every row
through the first and none through the second. -/
theorem take_filter_iff {p q : EventRow → Bool}
    (small : position.toNat < 2 ^ 63 → ∀ row ∈ rows, p row = q row)
    (large : ¬ position.toNat < 2 ^ 63 → ∀ row ∈ rows, p row = true ∧ q row = false) :
    ((rows.filter p).take limit.toNat).map EventRow.persisted =
        ((rows.filter q).take limit.toNat).map EventRow.persisted ↔
      position.toNat < 2 ^ 63 ∨ limit = 0 ∨ rows = [] := by
  by_cases hsmall : position.toNat < 2 ^ 63
  · exact iff_of_true (by rw [List.filter_congr (small hsmall)]) (.inl hsmall)
  · have hp : rows.filter p = rows :=
      List.filter_eq_self.mpr fun row hrow => (large hsmall row hrow).1
    have hq : rows.filter q = [] :=
      List.filter_eq_nil_iff.mpr fun row hrow => by simp [(large hsmall row hrow).2]
    rw [hp, hq, List.take_nil, List.map_nil, List.map_eq_nil_iff, List.take_eq_nil_iff,
      or_iff_right hsmall, ← UInt64.toNat_inj]
    rfl

section Column

variable (hkeys : Consecutive (rows.map key))
include hkeys

/-- A stored number as the API shows it. -/
theorem toNat_key {row : EventRow} (hrow : row ∈ rows) :
    ((key row).toUInt64.toNat : Int) = (key row).toInt ∧ 1 ≤ (key row).toInt ∧
      (key row).toUInt64.toNat < 2 ^ 63 := by
  have hpos := (hkeys.bounds (List.mem_map_of_mem hrow)).1
  have hvalue := toNat_toUInt64 (n := key row) (by omega)
  have := (key row).toInt_lt
  exact ⟨hvalue, hpos, by omega⟩

/-- Behind a small position the two comparisons agree. -/
theorem lt_iff (hsmall : position.toNat < 2 ^ 63) {row : EventRow} (hrow : row ∈ rows) :
    position.toInt64 < key row ↔ position < (key row).toUInt64 := by
  obtain ⟨hvalue, -, -⟩ := toNat_key hkeys hrow
  rw [Int64.lt_iff_toInt_lt, UInt64.lt_iff_toNat_lt, toInt_toInt64 hsmall]
  omega

theorem le_iff (hsmall : position.toNat < 2 ^ 63) {row : EventRow} (hrow : row ∈ rows) :
    position.toInt64 ≤ key row ↔ position ≤ (key row).toUInt64 := by
  obtain ⟨hvalue, -, -⟩ := toNat_key hkeys hrow
  rw [Int64.le_iff_toInt_le, UInt64.le_iff_toNat_le, toInt_toInt64 hsmall]
  omega

/-- Behind a large one nothing should be. -/
theorem large_position (hlarge : ¬ position.toNat < 2 ^ 63) {row : EventRow} (hrow : row ∈ rows) :
    position.toInt64 < key row ∧ (key row).toUInt64 < position := by
  obtain ⟨-, hpos, hbound⟩ := toNat_key hkeys hrow
  have := toInt64_neg hlarge
  rw [Int64.lt_iff_toInt_lt, UInt64.lt_iff_toNat_lt]
  omega

end Column

/-! ## The queries -/

theorem eventsAfter_iff (hlog : Consecutive (db.events.rows.map EventRow.globalSequence))
    (after limit : UInt64) : eventsAfter db after limit = firstEventsAfter db after limit ↔
      after.toNat < 2 ^ 63 ∨ limit = 0 ∨ db.events.rows = [] := by
  have hlength := hlog.length_lt
  rw [List.length_map] at hlength
  have hsorted := ((hlog.pairwise_drop 0).filter
    fun row => decide (after.toInt64 < row.globalSequence)).insertionSort_eq
  rw [List.drop_zero] at hsorted
  unfold eventsAfter firstEventsAfter Db.persistedEvents
  dsimp only
  rw [hsorted, limitRows_eq (.inr (Nat.lt_of_le_of_lt (List.length_filter_le _ _) hlength)),
    List.filter_map, ← List.map_take]
  refine take_filter_iff (fun hsmall row hrow => decide_eq_decide.mpr (lt_iff hlog hsmall hrow))
    fun hlarge row hrow => ?_
  obtain ⟨hall, hnone⟩ := large_position hlog hlarge hrow
  exact ⟨decide_eq_true hall, decide_eq_false (UInt64.not_lt.mpr (UInt64.le_of_lt hnone))⟩

/-- A query of one stream reads its rows alone. -/
theorem streamEvents_iff {streamId : String}
    (hstream : Consecutive ((streamRows db.events.rows streamId).map EventRow.streamVersion))
    (fromVersion limit : UInt64) :
    streamEvents db streamId fromVersion limit = firstStreamEvents db streamId fromVersion limit ↔
      fromVersion.toNat < 2 ^ 63 ∨ limit = 0 ∨ streamRows db.events.rows streamId = [] := by
  have hlength := hstream.length_lt
  rw [List.length_map] at hlength
  have hsorted := ((hstream.pairwise_drop 0).filter
    fun row => decide (fromVersion.toInt64 ≤ row.streamVersion)).insertionSort_eq
  rw [List.drop_zero] at hsorted
  have hrows : db.events.rows.filter (fun row => decide (row.event.streamId = streamId) &&
      decide (fromVersion.toInt64 ≤ row.streamVersion)) =
        (streamRows db.events.rows streamId).filter
          fun row => decide (fromVersion.toInt64 ≤ row.streamVersion) := by
    rw [streamRows, List.filter_filter]
    exact List.filter_congr fun _ _ => Bool.and_comm _ _
  have hexact : db.events.rows.filter ((fun event : PersistedEvent =>
      decide (event.event.streamId = streamId) && decide (fromVersion ≤ event.streamVersion)) ∘
        EventRow.persisted) = (streamRows db.events.rows streamId).filter
          fun row => decide (fromVersion ≤ row.streamVersion.toUInt64) := by
    rw [streamRows, List.filter_filter]
    exact List.filter_congr fun _ _ => Bool.and_comm _ _
  unfold streamEvents firstStreamEvents Db.persistedEvents
  dsimp only
  rw [hrows, hsorted, limitRows_eq (.inr (Nat.lt_of_le_of_lt (List.length_filter_le _ _) hlength)),
    List.filter_map, ← List.map_take, hexact]
  refine take_filter_iff
    (fun hsmall row hrow => decide_eq_decide.mpr (le_iff hstream hsmall hrow))
    fun hlarge row hrow => ?_
  obtain ⟨hall, hnone⟩ := large_position hstream hlarge hrow
  exact ⟨decide_eq_true (Int64.le_of_lt hall), decide_eq_false (UInt64.not_le.mpr hnone)⟩

theorem lastEvents_eq (hlog : Consecutive (db.events.rows.map EventRow.globalSequence))
    (limit : UInt64) : lastEvents db limit = newestEvents db limit := by
  have hlength := hlog.length_lt
  rw [List.length_map] at hlength
  unfold lastEvents newestEvents Db.persistedEvents
  dsimp only
  rw [Keyset.insertionSort_reverse (List.pairwise_map.mp hlog.pairwise),
    limitRows_eq (.inr (by rwa [List.length_reverse])), ← List.map_reverse, List.reverse_take,
    List.reverse_reverse, List.length_reverse,
    List.length_map, List.map_drop]

/-- The log is in global order, and each stream in the order of its versions. -/
theorem persistedEvents_pairwise {rows : List EventRow} {key : EventRow → Int64}
    (hkeys : Consecutive (rows.map key)) :
    rows.Pairwise fun a b => (key a).toUInt64 < (key b).toUInt64 := by
  refine (List.pairwise_map.mp hkeys.pairwise).imp_of_mem fun ha hb hlt => ?_
  obtain ⟨hvaluea, -, -⟩ := toNat_key hkeys ha
  obtain ⟨hvalueb, -, -⟩ := toNat_key hkeys hb
  rw [Int64.lt_iff_toInt_lt] at hlt
  rw [UInt64.lt_iff_toNat_lt]
  omega

end EventReadLemmas

open EventReadLemmas

/-- One event on record. -/
def Sample.oneEvent : List Call :=
  [Sample.commit 10 0 [.appendEvent ⟨.ofU128 7, "s", "t", 1, 0, none, none, [], []⟩]]

/-- Behind position 2^63 both queries return the event, which has sequence 1 and version 1. -/
theorem eventsAfter_overflow_counterexample :
    eventsAfter (controlPlane.after Sample.oneEvent).db 9223372036854775808 1 ≠
      firstEventsAfter (controlPlane.after Sample.oneEvent).db 9223372036854775808 1 ∧
    (eventsAfter (controlPlane.after Sample.oneEvent).db 9223372036854775808 1).map
      PersistedEvent.globalSequence = [1] ∧
    streamEvents (controlPlane.after Sample.oneEvent).db "s" 9223372036854775808 1 ≠
      firstStreamEvents (controlPlane.after Sample.oneEvent).db "s" 9223372036854775808 1 ∧
    (streamEvents (controlPlane.after Sample.oneEvent).db "s" 9223372036854775808 1).map
      PersistedEvent.streamVersion = [1] := by
  decide

/-- In every reachable state, for every argument. The log is in global order and each
stream in version order. `events_after` and `stream_events` are exact if and only if
the position fits an `i64`, the limit is zero or there is nothing to select from;
`last_events` is always exact. -/
theorem event_reads_exact_iff (calls : List Call) :
    (controlPlane.after calls).db.persistedEvents.Pairwise
      (fun a b => a.globalSequence < b.globalSequence) ∧
    (∀ streamId, ((controlPlane.after calls).db.persistedEvents.filter
      fun event => decide (event.event.streamId = streamId)).Pairwise
        fun a b => a.streamVersion < b.streamVersion) ∧
    (∀ after limit, eventsAfter (controlPlane.after calls).db after limit =
        firstEventsAfter (controlPlane.after calls).db after limit ↔
      after.toNat < 2 ^ 63 ∨ limit = 0 ∨ (controlPlane.after calls).db.persistedEvents = []) ∧
    (∀ streamId fromVersion limit,
      streamEvents (controlPlane.after calls).db streamId fromVersion limit =
        firstStreamEvents (controlPlane.after calls).db streamId fromVersion limit ↔
      fromVersion.toNat < 2 ^ 63 ∨ limit = 0 ∨
        ∀ event ∈ (controlPlane.after calls).db.persistedEvents,
          event.event.streamId ≠ streamId) ∧
    ∀ limit, lastEvents (controlPlane.after calls).db limit =
      newestEvents (controlPlane.after calls).db limit := by
  have hlog := (eventLog_after calls).1
  refine ⟨?_, fun streamId => ?_, fun after limit => ?_, fun streamId fromVersion limit => ?_,
    lastEvents_eq hlog.global⟩
  · exact List.pairwise_map.mpr (persistedEvents_pairwise hlog.global)
  · rw [Db.persistedEvents, List.filter_map]
    exact List.pairwise_map.mpr (persistedEvents_pairwise (hlog.stream streamId))
  · rw [eventsAfter_iff hlog.global, Db.persistedEvents, List.map_eq_nil_iff]
  · rw [streamEvents_iff (hlog.stream streamId), streamRows, List.filter_eq_nil_iff]
    simp [Db.persistedEvents, EventRow.persisted]

end Minisqlite
