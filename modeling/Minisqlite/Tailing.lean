import Minisqlite.EventLog
import Minisqlite.Lib.Paging
import Minisqlite.Store.Events

/-!
# Tailing consumers

A consumer reads the log page by page while others commit. Its cursor is the
sequence of the last event that it got. As the sequences are `1, …, n`, the rows
after the cursor are those after the first `cursor` of them, so that the
consumer is a reader of a growing log.

* `Tracks`: the consumer as a reader; `tracks_advance`, one call.
* `eventsAfter_page`, `streamEvents_page`: each query answers with a page.
* `tailing_exactly_once`: the results.
-/

namespace Minisqlite

open Tables Runs Paging

/-! ## Consumers -/

/-- One call of a consumer: the point of the run that it sees, and its limit. -/
structure Read where
  point : Nat
  limit : UInt64

/-- Later calls never see an older state, and no limit is zero. -/
structure InOrder (reads : List Read) : Prop where
  points : (reads.map Read.point).Pairwise (· ≤ ·)
  limits : ∀ read ∈ reads, 1 ≤ read.limit

structure Consumer where
  cursor : UInt64
  seen : List PersistedEvent

/-- The page is kept, and the cursor set to its last event. -/
def Consumer.advance (consumer : Consumer) (position : PersistedEvent → UInt64)
    (page : List PersistedEvent) : Consumer :=
  ⟨(page.getLast?.map position).getD consumer.cursor, consumer.seen ++ page⟩

/-- A consumer from the start, with the query that each call makes at its point
of the run, from the consumer's cursor. -/
def tail (query : Nat → UInt64 → UInt64 → List PersistedEvent)
    (position : PersistedEvent → UInt64) (reads : List Read) : Consumer :=
  reads.foldl (fun consumer read =>
    consumer.advance position (query read.point consumer.cursor read.limit)) ⟨0, []⟩

/-- A consumer of the whole log. -/
def tailEvents (calls : List Call) : List Read → Consumer :=
  tail (fun point cursor limit => eventsAfter (controlPlane.stateAt calls point).db cursor limit)
    PersistedEvent.globalSequence

/-- A consumer of one stream, whose cursor is the version of its last event. -/
def tailStream (calls : List Call) (streamId : String) : List Read → Consumer :=
  tail (fun point cursor limit =>
      streamEvents (controlPlane.stateAt calls point).db streamId (cursor + 1) limit)
    PersistedEvent.streamVersion

/-- The consumer has the events up to its cursor, each once and in order. -/
structure ExactlyOnce (items : List PersistedEvent) (position : PersistedEvent → UInt64)
    (consumer : Consumer) : Prop where
  seen : consumer.seen = items.filter fun item => decide (position item ≤ consumer.cursor)
  ordered : consumer.seen.Pairwise fun a b => position a < position b

/-! ## One call -/

/-- The consumer is a reader of the rows, and its cursor counts what it has. -/
def Tracks (log : Nat → List EventRow) (points : List Nat) (consumer : Consumer) : Prop :=
  ∃ rows, Tailed log points rows ∧ consumer.seen = rows.map EventRow.persisted ∧
    consumer.cursor.toNat = rows.length

namespace TailingLemmas

section Reader

variable {log : Nat → List EventRow} {key : EventRow → Int64} {position : PersistedEvent → UInt64}
  {points : List Nat} {consumer : Consumer} {k : Nat}

theorem tracks_start : Tracks log [] ⟨0, []⟩ := ⟨[], .start, rfl, rfl⟩

/-- A consumer that gets a page of the rows is a reader that gets it. -/
theorem tracks_advance (grows : ∀ i k, i ≤ k → log i <+: log k)
    (consecutive : Consecutive ((log k).map key))
    (hposition : ∀ row, position (EventRow.persisted row) = (key row).toUInt64)
    (h : Tracks log points consumer) (later : ∀ p ∈ points, p ≤ k) {page : List EventRow}
    (isPage : IsPage (log k) consumer.cursor.toNat page) :
    Tracks log (points ++ [k]) (consumer.advance position (page.map EventRow.persisted)) := by
  obtain ⟨rows, htailed, hseen, hcursor⟩ := h
  rw [hcursor] at isPage
  refine ⟨rows ++ page, htailed.read later isPage, ?_, ?_⟩
  · rw [Consumer.advance, hseen, List.map_append]
  · by_cases hempty : page = []
    · rw [hempty, List.append_nil]
      exact hcursor
    · -- The last row of the page is the last one that the reader has.
      have hpre := isPage.append (htailed.isPrefix grows later)
      have hlast := (consecutive.of_prefix hpre).key_last
        (List.append_ne_nil_of_right_ne_nil _ hempty)
      rw [List.getLast_append_of_ne_nil _ hempty] at hlast
      have hnext : (consumer.advance position (page.map EventRow.persisted)).cursor =
          (key (page.getLast hempty)).toUInt64 := by
        rw [Consumer.advance, List.getLast?_map, List.getLast?_eq_some_getLast hempty]
        exact hposition _
      have := toNat_toUInt64 (n := key (page.getLast hempty)) (by omega)
      rw [hnext]
      omega

/-- A consumer whose queries answer with pages of the rows is a reader. -/
theorem tail_tracks {query : Nat → UInt64 → UInt64 → List PersistedEvent} {reads : List Read}
    (grows : ∀ i k, i ≤ k → log i <+: log k) (consecutive : ∀ k, Consecutive ((log k).map key))
    (hposition : ∀ row, position (EventRow.persisted row) = (key row).toUInt64)
    (hquery : ∀ k cursor limit, cursor.toNat ≤ (log k).length → 1 ≤ limit →
      ∃ page, IsPage (log k) cursor.toNat page ∧ query k cursor limit = page.map EventRow.persisted)
    (hreads : InOrder reads) :
    Tracks log (reads.map Read.point) (tail query position reads) := by
  induction reads using List.reverseRecOn with
  | nil => exact tracks_start
  | append_singleton reads read ih =>
    obtain ⟨hpoints, hlimits⟩ := hreads
    rw [List.map_append, List.pairwise_append] at hpoints
    obtain ⟨hbefore, -, hlater⟩ := hpoints
    have h := ih ⟨hbefore, fun r hr => hlimits r (List.mem_append_left _ hr)⟩
    have later : ∀ p ∈ reads.map Read.point, p ≤ read.point :=
      fun p hp => hlater p hp read.point (by simp)
    have hcursor : (tail query position reads).cursor.toNat ≤ (log read.point).length := by
      obtain ⟨rows, htailed, -, hcursor⟩ := h
      rw [hcursor]
      exact (htailed.isPrefix grows later).length_le
    obtain ⟨page, isPage, hpage⟩ := hquery read.point _ read.limit hcursor (hlimits read (by simp))
    have hnext := tracks_advance grows (consecutive read.point) hposition h later isPage
    rw [← hpage] at hnext
    simpa [tail] using hnext

/-- What a reader has, in terms of its cursor. -/
theorem tracks_exactlyOnce (grows : ∀ i k, i ≤ k → log i <+: log k)
    (consecutive : Consecutive ((log k).map key))
    (hposition : ∀ row, position (EventRow.persisted row) = (key row).toUInt64)
    (h : Tracks log points consumer) (hk : ∀ p ∈ points, p ≤ k) :
    ExactlyOnce ((log k).map EventRow.persisted) position consumer := by
  obtain ⟨rows, htailed, hseen, hcursor⟩ := h
  have hpre := htailed.isPrefix grows hk
  have hkey : ∀ row ∈ log k, ((position row.persisted).toNat : Int) = (key row).toInt := by
    intro row hrow
    have hpos := consecutive.mem_drop (n := 0) hrow
    rw [hposition]
    exact toNat_toUInt64 (Int.le_of_lt hpos)
  constructor
  · have htake : (log k).filter ((fun item => decide (position item ≤ consumer.cursor)) ∘
        EventRow.persisted) = (log k).take rows.length := by
      refine consecutive.filter_take fun row hrow => ?_
      have := hkey row hrow
      rw [Function.comp_apply, decide_eq_true_iff, UInt64.le_iff_toNat_le, hcursor]
      omega
    rw [hseen, List.filter_map, htake, ← List.prefix_iff_eq_take.mp hpre]
  · have hrows := (consecutive.of_prefix hpre).pairwise
    rw [hseen, List.pairwise_map]
    refine (List.pairwise_map.mp hrows).imp_of_mem fun ha hb hlt => ?_
    have hkeya := hkey _ (hpre.subset ha)
    have hkeyb := hkey _ (hpre.subset hb)
    rw [Int64.lt_iff_toInt_lt] at hlt
    rw [UInt64.lt_iff_toNat_lt]
    omega

end Reader

/-! ## The queries -/

theorem limitRows_isPage {ρ : Type} {items : List ρ} {n : Nat} {limit : UInt64}
    (hlimit : 1 ≤ limit) :
    IsPage items n (limitRows limit (items.drop n)) := by
  rcases limitRows_cases limit (items.drop n) with htake | ⟨-, hall⟩
  · rw [htake]
    exact isPage_take (UInt64.le_iff_toNat_le.mp hlimit)
  · rw [hall]
    exact isPage_drop

/-- The rows after the cursor are the next rows. -/
theorem eventsAfter_page {db : Db} {after limit : UInt64}
    (hlog : Consecutive (db.events.rows.map EventRow.globalSequence))
    (hafter : after.toNat ≤ db.events.rows.length) (hlimit : 1 ≤ limit) :
    ∃ page, IsPage db.events.rows after.toNat page ∧
      eventsAfter db after limit = page.map EventRow.persisted := by
  refine ⟨_, limitRows_isPage hlimit, ?_⟩
  have hfits := hlog.length_lt
  rw [List.length_map] at hfits
  have hfilter : db.events.rows.filter (fun row => decide (after.toInt64 < row.globalSequence)) =
      db.events.rows.drop after.toNat := by
    refine hlog.filter_drop fun row _ => ?_
    rw [decide_eq_true_iff, Int64.lt_iff_toInt_lt, toInt_toInt64 (by omega)]
  unfold eventsAfter
  dsimp only
  rw [hfilter, (hlog.pairwise_drop after.toNat).insertionSort_eq]

theorem streamEvents_page {db : Db} {streamId : String} {last limit : UInt64}
    (hlog : Consecutive ((streamRows db.events.rows streamId).map EventRow.streamVersion))
    (hlast : last.toNat ≤ (streamRows db.events.rows streamId).length)
    (hfits : (streamRows db.events.rows streamId).length < 2 ^ 63 - 1) (hlimit : 1 ≤ limit) :
    ∃ page, IsPage (streamRows db.events.rows streamId) last.toNat page ∧
      streamEvents db streamId (last + 1) limit = page.map EventRow.persisted := by
  refine ⟨_, limitRows_isPage hlimit, ?_⟩
  have hnext : (last + 1).toNat = last.toNat + 1 := by
    rw [UInt64.toNat_add, UInt64.toNat_one]
    exact Nat.mod_eq_of_lt (by omega)
  have hfilter : db.events.rows.filter (fun row => decide (row.event.streamId = streamId) &&
      decide ((last + 1).toInt64 ≤ row.streamVersion)) =
        (streamRows db.events.rows streamId).drop last.toNat := by
    rw [← hlog.filter_drop (p := fun row => decide ((last + 1).toInt64 ≤ row.streamVersion)),
      streamRows, List.filter_filter]
    · simp only [Bool.and_comm]
    · intro row _
      rw [decide_eq_true_iff, Int64.le_iff_toInt_le, toInt_toInt64 (by omega)]
      omega
  unfold streamEvents
  dsimp only
  rw [hfilter, (hlog.pairwise_drop last.toNat).insertionSort_eq]

end TailingLemmas

/-! ## Runs -/

/-- What a tailing consumer is promised, after the calls `reads` and, once the log
has stopped, after as many more as there are events. -/
def TailsExactly (items : Nat → List PersistedEvent) (position : PersistedEvent → UInt64)
    (consumer : List Read → Consumer) (reads : List Read) (stop : Nat) : Prop :=
  (∀ k, (∀ read ∈ reads, read.point ≤ k) → ExactlyOnce (items k) position (consumer reads)) ∧
  ∀ more, InOrder (reads ++ more) → (∀ read ∈ more, stop ≤ read.point) →
    (items stop).length ≤ more.length → (consumer (reads ++ more)).seen = items stop

namespace TailingLemmas

theorem tailsExactly {log : Nat → List EventRow} {key : EventRow → Int64}
    {position : PersistedEvent → UInt64} {query : Nat → UInt64 → UInt64 → List PersistedEvent}
    {reads : List Read} {stop : Nat} (grows : ∀ i k, i ≤ k → log i <+: log k)
    (stopped : ∀ k, stop ≤ k → log k = log stop)
    (consecutive : ∀ k, Consecutive ((log k).map key))
    (hposition : ∀ row, position (EventRow.persisted row) = (key row).toUInt64)
    (hquery : ∀ k cursor limit, cursor.toNat ≤ (log k).length → 1 ≤ limit →
      ∃ page, IsPage (log k) cursor.toNat page ∧ query k cursor limit = page.map EventRow.persisted)
    (hreads : InOrder reads) :
    TailsExactly (fun k => (log k).map EventRow.persisted) position (tail query position) reads
      stop := by
  refine ⟨fun k hk => ?_, fun more hmore hstop henough => ?_⟩
  · have htracks := tail_tracks grows consecutive hposition hquery hreads
    exact tracks_exactlyOnce grows (consecutive k) hposition htracks (List.forall_mem_map.mpr hk)
  · obtain ⟨rows, htailed, hseen, -⟩ := tail_tracks grows consecutive hposition hquery hmore
    rw [List.map_append] at htailed
    have hall := htailed.complete grows stopped (List.forall_mem_map.mpr hstop)
      (by simpa using henough)
    rw [hseen, hall]

theorem stateAt_stopped (calls : List Call) {k : Nat} (hk : calls.length ≤ k) :
    controlPlane.stateAt calls k = controlPlane.stateAt calls calls.length := by
  rw [Machine.stateAt, Machine.stateAt, List.take_of_length_le hk, List.take_length]

end TailingLemmas

open TailingLemmas

/-- A tailing consumer sees every event exactly once, of the whole log or of one
stream, however its calls are interleaved with the run and whatever their limits
are; and once the run is over it sees all of them. -/
theorem tailing_exactly_once (calls : List Call) (reads : List Read) (hreads : InOrder reads) :
    TailsExactly (fun k => (controlPlane.stateAt calls k).db.events.rows.map EventRow.persisted)
        PersistedEvent.globalSequence (tailEvents calls) reads calls.length ∧
    ((controlPlane.after calls).db.WithinFileLimit → ∀ streamId,
      TailsExactly (fun k => (streamRows (controlPlane.stateAt calls k).db.events.rows
          streamId).map EventRow.persisted)
        PersistedEvent.streamVersion (tailStream calls streamId) reads calls.length) := by
  have hlog := fun k => (eventLog_after (calls.take k)).1
  have grows : ∀ i k, i ≤ k → _ := fun i k => events_persist calls (i := i) (k := k)
  have stopped := fun k hk =>
    congrArg (fun s => s.db.events.rows) (stateAt_stopped calls (k := k) hk)
  refine ⟨?_, fun hfile streamId => ?_⟩
  · exact tailsExactly grows stopped (fun k => (hlog k).global) (fun _ => rfl)
      (fun k cursor limit hcursor hlimit => eventsAfter_page (hlog k).global hcursor hlimit) hreads
  · refine tailsExactly (fun i k hik => (grows i k hik).filter _)
      (fun k hk => congrArg (streamRows · streamId) (stopped k hk))
      (fun k => (hlog k).stream streamId) (fun _ => rfl)
      (fun k cursor limit hcursor hlimit => ?_) hreads
    have hlength := (grows k (max k calls.length) (Nat.le_max_left _ _)).length_le
    rw [stopped _ (Nat.le_max_right _ _), Machine.stateAt_length] at hlength
    have hstream : (streamRows (controlPlane.stateAt calls k).db.events.rows streamId).length ≤
        (controlPlane.stateAt calls k).db.events.rows.length := List.length_filter_le _ _
    have hevents := hfile.events
    exact streamEvents_page ((hlog k).stream streamId) hcursor (by omega) hlimit

/-- Two events of one stream, in two batches. -/
def Sample.logged : List Call :=
  let event (n : BitVec 128) : Operation :=
    .appendEvent ⟨.ofU128 n, "s", "t", 1, 0, none, none, [], []⟩
  [Sample.commit 10 0 [event 7], Sample.commit 11 5 [event 8]]

/-- A consumer that reads after the first batch and after the second. -/
def Sample.reads : List Read := [⟨1, 1⟩, ⟨2, 5⟩]

theorem tailing_exactly_once_sample :
    TailsExactly (fun k => (controlPlane.stateAt Sample.logged k).db.events.rows.map
        EventRow.persisted) PersistedEvent.globalSequence (tailEvents Sample.logged)
        Sample.reads 2 ∧
    TailsExactly (fun k => (streamRows (controlPlane.stateAt Sample.logged k).db.events.rows
        "s").map EventRow.persisted) PersistedEvent.streamVersion (tailStream Sample.logged "s")
      Sample.reads 2 := by
  have h := tailing_exactly_once Sample.logged Sample.reads ⟨by decide, by decide⟩
  exact ⟨h.1, h.2 ⟨by decide, by decide, by decide⟩ "s"⟩

example :
    (tailStream Sample.logged "s" Sample.reads).seen.map PersistedEvent.streamVersion = [1, 2] := by
  decide

end Minisqlite
