import Minisqlite.JobRows
import Minisqlite.Lib.Keyset
import Minisqlite.Store.JobReads
import Minisqlite.Tailing

/-!
# Paging through jobs

A reader of `jobs_page` passes on the cursor it was given, while others commit,
claim and extend leases. Rows of `jobs` are never deleted, and what a job was
enqueued as never changes, so that the jobs of a queue are a growing log and the
reader is a reader of it (`Follows`). The cursor is the enqueue sequence of the
last job that it got.

* `jobs_persist`: the growing log.
* `follows_page`: one page.
* `job_paging_stable`: the results.
-/

namespace Minisqlite

open Tables Runs Paging

/-- The listed jobs, in enqueue order. -/
def inEnqueueOrder (db : Db) (queue : Option String) (state : Option JobState) : List JobRow :=
  Keyset.ordered JobRow.enqueueSequence (db.jobs.rows.filter (JobRow.listed queue state))

structure JobReader where
  cursor : UInt64
  seen : List JobInfo

/-- A reader from the start; each call sees its point of the run. -/
def pageJobs (dbs : Nat → Db) (queue : Option String) (state : Option JobState)
    (reads : List Read) : Except Error JobReader :=
  reads.foldlM (fun reader read => do
    let (page, cursor) ← listJobsPage (dbs read.point) queue state reader.cursor read.limit
    .ok ⟨cursor, reader.seen ++ page⟩) ⟨0, []⟩

/-- The limits that `jobs_page` accepts, but zero. -/
structure ValidReads (reads : List Read) : Prop extends InOrder reads where
  supported : ∀ read ∈ reads, read.limit.toNat < 2 ^ 63

namespace JobPagingLemmas

variable {db : Db} {queue : Option String} {state : Option JobState}

/-! ## One page -/

section Rows

variable (hjobs : Consecutive (db.jobs.rows.map JobRow.enqueueSequence))
include hjobs

/-- The rows are stored in enqueue order. -/
theorem listed_strict (queue : Option String) (state : Option JobState) :
    (db.jobs.rows.filter (JobRow.listed queue state)).Pairwise
      fun a b => a.enqueueSequence < b.enqueueSequence :=
  (List.pairwise_map.mp hjobs.pairwise).filter _

theorem inEnqueueOrder_eq (queue : Option String) (state : Option JobState) :
    inEnqueueOrder db queue state = db.jobs.rows.filter (JobRow.listed queue state) :=
  ((listed_strict hjobs queue state).imp Int64.le_of_lt).insertionSort_eq

theorem sequence_pos {job : JobRow} (hjob : job ∈ db.jobs.rows) : 1 ≤ job.enqueueSequence.toInt :=
  (hjobs.bounds (List.mem_map_of_mem hjob)).1

theorem listJobsPage_eq {cursor limit : UInt64} (hcursor : cursor.toNat < 2 ^ 63)
    (hlimit : limit.toNat < 2 ^ 63) {page : List JobRow}
    (hpage : page = (Keyset.behind JobRow.enqueueSequence (some cursor.toInt64)
      (inEnqueueOrder db queue state)).take limit.toNat) :
    listJobsPage db queue state cursor limit = .ok (page.map JobRow.info,
      (page.getLast?.map fun job => job.enqueueSequence.toUInt64).getD cursor) := by
  have hrows : (db.jobs.rows.filter fun job => decide (cursor.toInt64 < job.enqueueSequence) &&
      job.listed queue state) =
      Keyset.behind JobRow.enqueueSequence (some cursor.toInt64)
        (inEnqueueOrder db queue state) := by
    rw [inEnqueueOrder_eq hjobs, Keyset.behind, List.filter_filter]
    rfl
  have hsorted := (((listed_strict hjobs queue state).filter fun job =>
    (some cursor.toInt64).all fun last => decide (last < job.enqueueSequence)).imp
      Int64.le_of_lt).insertionSort_eq
  rw [← inEnqueueOrder_eq hjobs] at hsorted
  unfold listJobsPage tryFromI64
  rw [if_pos hcursor, if_pos hlimit]
  dsimp only
  rw [hrows, Keyset.behind, hsorted, limitRows_eq (.inl hlimit), ← Keyset.behind, ← hpage]

omit hjobs in
theorem listJobs_unlimited : listJobs db queue state 0xFFFFFFFFFFFFFFFF =
    (inEnqueueOrder db queue state).map JobRow.info := by
  have hnone : (0xFFFFFFFFFFFFFFFF : UInt64).toInt64 < 0 := by decide
  unfold listJobs limitRows
  dsimp only
  rw [if_pos hnone]
  rfl

end Rows

/-! ## A reader of a growing log -/

/-- What a reader is to recognize a job by: its place, and some view of its row. -/
def tagged {γ : Type} (view : JobRow → γ) (row : JobRow) : Int64 × γ :=
  (row.enqueueSequence, view row)

/-- The reader has read the log of the listed jobs at these points, and its cursor is
the place of the last one. -/
def Follows {γ : Type} (dbs : Nat → Db) (queue : Option String) (state : Option JobState)
    (view : JobRow → γ) (ofInfo : JobInfo → γ) (points : List Nat) (reader : JobReader) : Prop :=
  ∃ seen, Tailed (fun k => (inEnqueueOrder (dbs k) queue state).map (tagged view)) points seen ∧
    reader.seen.map ofInfo = seen.map Prod.snd ∧
    reader.cursor.toInt64 = (seen.getLast?.map Prod.fst).getD 0 ∧ reader.cursor.toNat < 2 ^ 63

section Reader

variable {γ : Type} {dbs : Nat → Db} {view : JobRow → γ} {ofInfo : JobInfo → γ}
  {points : List Nat} {reader : JobReader} {k : Nat}

theorem follows_start : Follows dbs queue state view ofInfo [] ⟨0, []⟩ :=
  ⟨[], .start, rfl, rfl, by decide⟩

/-- What is behind the cursor of a reader is what it has not read. -/
theorem behind_cursor (view : JobRow → γ)
    (hjobs : Consecutive (db.jobs.rows.map JobRow.enqueueSequence)) {n : Nat} {cursor : UInt64}
    (hcursor : cursor.toInt64 = ((((inEnqueueOrder db queue state).take n).map
      (tagged view)).getLast?.map Prod.fst).getD 0) :
    Keyset.behind JobRow.enqueueSequence (some cursor.toInt64) (inEnqueueOrder db queue state) =
      (inEnqueueOrder db queue state).drop n := by
  have hstrict := listed_strict hjobs queue state
  rw [← inEnqueueOrder_eq hjobs] at hstrict
  have hnone := Keyset.behind_none JobRow.enqueueSequence (inEnqueueOrder db queue state)
  rw [hcursor, List.getLast?_map, Option.map_map]
  cases hlast : ((inEnqueueOrder db queue state).take n).getLast? with
  | none =>
    -- Every sequence is behind zero.
    have hall : Keyset.behind JobRow.enqueueSequence (some 0) (inEnqueueOrder db queue state) =
        inEnqueueOrder db queue state := by
      refine List.filter_eq_self.mpr fun row hrow => ?_
      rw [inEnqueueOrder_eq hjobs] at hrow
      have hpos := sequence_pos hjobs (List.mem_of_mem_filter hrow)
      exact decide_eq_true (Int64.lt_iff_toInt_lt.mpr hpos)
    rw [List.getLast?_eq_none_iff, List.take_eq_nil_iff] at hlast
    rw [Option.map_none, Option.getD_none, hall]
    rcases hlast with rfl | hnil
    · rfl
    · rw [hnil, List.drop_nil]
  | some row =>
    exact Keyset.behind_last hstrict (by rw [hnone, List.take_append_drop]) hlast

/-- One page: it is delivered, and the reader follows the log to this point. -/
theorem follows_page
    (grows : ∀ i k, i ≤ k → (inEnqueueOrder (dbs i) queue state).map (tagged view) <+:
      (inEnqueueOrder (dbs k) queue state).map (tagged view))
    (hview : ∀ row, ofInfo (JobRow.info row) = view row)
    (hjobs : Consecutive ((dbs k).jobs.rows.map JobRow.enqueueSequence))
    (h : Follows dbs queue state view ofInfo points reader) (later : ∀ p ∈ points, p ≤ k)
    {limit : UInt64} (hone : 1 ≤ limit) (hlimit : limit.toNat < 2 ^ 63) :
    ∃ page cursor, listJobsPage (dbs k) queue state reader.cursor limit = .ok (page, cursor) ∧
      Follows dbs queue state view ofInfo (points ++ [k]) ⟨cursor, reader.seen ++ page⟩ ∧
      (page = [] → cursor = reader.cursor ∧ reader.seen.map ofInfo =
        (inEnqueueOrder (dbs k) queue state).map view) := by
  obtain ⟨seen, htailed, hseen, hcursor, hbound⟩ := h
  have hpre := htailed.isPrefix grows later
  obtain ⟨rows, hrows⟩ : ∃ rows, rows = inEnqueueOrder (dbs k) queue state := ⟨_, rfl⟩
  have htake : seen = (rows.take seen.length).map (tagged view) := by
    rw [List.map_take, hrows]
    exact List.prefix_iff_eq_take.mp hpre
  have hbehind := behind_cursor view hjobs (by rw [← hrows, ← htake]; exact hcursor)
  rw [← hrows] at hbehind
  obtain ⟨page, hpage⟩ : ∃ page, page = (rows.drop seen.length).take limit.toNat := ⟨_, rfl⟩
  have hisPage : IsPage (rows.map (tagged view)) seen.length (page.map (tagged view)) := by
    rw [hpage, List.map_take, List.map_drop]
    exact isPage_take (UInt64.le_iff_toNat_le.mp hone)
  rw [hrows] at hisPage
  refine ⟨page.map JobRow.info, _, listJobsPage_eq hjobs hbound hlimit
    (by rw [← hrows, hbehind, hpage]), ⟨_, htailed.read later hisPage, ?_, ?_⟩, ?_⟩
  · rw [List.map_append, List.map_append, hseen]
    simp [tagged, hview, Function.comp_def]
  · cases hlast : page.getLast? with
    | none =>
      obtain rfl := List.getLast?_eq_none_iff.mp hlast
      simpa using ⟨hcursor, hbound⟩
    | some row =>
      have hrow : row ∈ (dbs k).jobs.rows := by
        have hmem := List.mem_of_getLast? hlast
        rw [hpage, hrows, inEnqueueOrder_eq hjobs] at hmem
        exact List.mem_of_mem_filter (List.mem_of_mem_drop (List.mem_of_mem_take hmem))
      have hvalue := toNat_toUInt64 (Int.le_trans (by decide) (sequence_pos hjobs hrow))
      have := row.enqueueSequence.toInt_lt
      simp only [List.getLast?_append, List.getLast?_map, hlast, Option.map_some, Option.some_or,
        Option.getD_some, Int64.toInt64_toUInt64, tagged, true_and]
      omega
  · intro hempty
    obtain rfl := List.map_eq_nil_iff.mp hempty
    refine ⟨rfl, ?_⟩
    have hall : seen = rows.map (tagged view) := by
      rw [hrows]
      refine hpre.eq_of_length_le (Nat.le_of_not_lt fun hmore => ?_)
      exact hisPage.progress hmore rfl
    rw [hseen, hall, hrows, List.map_map]
    rfl

variable (queue state dbs view ofInfo) in
/-- All pages of a reader. -/
theorem pageJobs_follows
    (grows : ∀ i k, i ≤ k → (inEnqueueOrder (dbs i) queue state).map (tagged view) <+:
      (inEnqueueOrder (dbs k) queue state).map (tagged view))
    (hview : ∀ row, ofInfo (JobRow.info row) = view row)
    (hjobs : ∀ k, Consecutive ((dbs k).jobs.rows.map JobRow.enqueueSequence)) {reads : List Read}
    (hreads : ValidReads reads) : ∃ reader, pageJobs dbs queue state reads = .ok reader ∧
      Follows dbs queue state view ofInfo (reads.map Read.point) reader := by
  induction reads using List.reverseRecOn with
  | nil => exact ⟨⟨0, []⟩, rfl, follows_start⟩
  | append_singleton reads read ih =>
    obtain ⟨⟨hpoints, hlimits⟩, hsupported⟩ := hreads
    rw [List.map_append, List.pairwise_append] at hpoints
    obtain ⟨hbefore, -, hlater⟩ := hpoints
    obtain ⟨reader, hreader, hfollows⟩ := ih ⟨⟨hbefore, fun r hr =>
      hlimits r (List.mem_append_left _ hr)⟩, fun r hr => hsupported r (List.mem_append_left _ hr)⟩
    obtain ⟨page, cursor, hpage, hnext, -⟩ := follows_page grows hview (hjobs read.point) hfollows
      (fun p hp => hlater p hp read.point (by simp)) (hlimits read (by simp))
      (hsupported read (by simp))
    refine ⟨⟨cursor, reader.seen ++ page⟩, ?_, by simpa using hnext⟩
    unfold pageJobs at hreader ⊢
    rw [List.foldlM_append, hreader]
    simp only [bind, Except.bind, List.foldlM_cons, List.foldlM_nil, hpage]
    rfl

/-- What a reader has is the first part of the listing. -/
theorem Follows.isPrefix
    (grows : ∀ i k, i ≤ k → (inEnqueueOrder (dbs i) queue state).map (tagged view) <+:
      (inEnqueueOrder (dbs k) queue state).map (tagged view))
    (h : Follows dbs queue state view ofInfo points reader) (later : ∀ p ∈ points, p ≤ k) :
    reader.seen.map ofInfo <+: (inEnqueueOrder (dbs k) queue state).map view := by
  obtain ⟨seen, htailed, hseen, -, -⟩ := h
  have hpre := (htailed.isPrefix grows later).map Prod.snd
  rw [List.map_map] at hpre
  rw [hseen]
  exact hpre

end Reader

theorem listed_nodup (db : Db) (queue : Option String) (state : Option JobState) :
    ((inEnqueueOrder db queue state).map fun job => job.spec.jobId).Nodup :=
  ((Keyset.ordered_perm _ _).map _).nodup_iff.mpr
    ((List.filter_sublist.map _).nodup (Table.nodup_keys jobs_unique db.jobs))

/-! ## The growing log -/

/-- What the jobs were enqueued as, in order. -/
def enqueuedAs (db : Db) : List (Int64 × JobSpec) :=
  db.jobs.rows.map fun job => (job.enqueueSequence, job.spec)

/-- No call changes or deletes what a job was enqueued as. -/
theorem enqueuedAs_invariant (before : List (Int64 × JobSpec)) :
    RowInvariant fun db => before <+: enqueuedAs db where
  frame d d' hjobs _ h := by rwa [enqueuedAs, hjobs]
  inserted d d' spec sequence transactionId hinsert h := by
    rw [enqueuedAs, hinsert.rows, List.map_append]
    exact h.trans (List.prefix_append _ _)
  updated d d' job u _ _ hwrite h := by
    have hkept : enqueuedAs d' = enqueuedAs d := by
      rw [enqueuedAs, enqueuedAs, hwrite.rows, List.map_map]
      refine List.map_congr_left fun row _ => ?_
      show (fun job : JobRow => (job.enqueueSequence, job.spec)) (if _ then _ else _) = _
      split <;> simp [u.enqueueSequence, u.spec]
    rwa [hkept]

theorem jobs_persist (calls : List Call) {i k : Nat} (hik : i ≤ k) :
    enqueuedAs (controlPlane.stateAt calls i).db <+:
      enqueuedAs (controlPlane.stateAt calls k).db :=
  Machine.stateAt_rel (M := controlPlane)
    (R := fun s t : ControlPlaneStore => enqueuedAs s.db <+: enqueuedAs t.db)
    (fun _ => List.prefix_rfl) (fun _ _ _ => List.IsPrefix.trans)
    (fun store call _ => (next_effect store call).rows (enqueuedAs_invariant _) List.prefix_rfl)
    calls hik

/-- The jobs of a queue, by their ids, are a growing log. -/
theorem queue_grows (calls : List Call) (queue : Option String) {i k : Nat} (hik : i ≤ k) :
    (inEnqueueOrder (controlPlane.stateAt calls i).db queue none).map
        (tagged fun row => row.spec.jobId) <+:
      (inEnqueueOrder (controlPlane.stateAt calls k).db queue none).map
        (tagged fun row => row.spec.jobId) := by
  -- The listed ids are a function of what the jobs were enqueued as.
  have hview : ∀ k, (inEnqueueOrder (controlPlane.stateAt calls k).db queue none).map
      (tagged fun row => row.spec.jobId) =
      ((enqueuedAs (controlPlane.stateAt calls k).db).filter fun job =>
        queue.all fun queue => decide (job.2.queue = queue)).map
          fun job => (job.1, job.2.jobId) := by
    intro k
    have hjobs : Consecutive ((controlPlane.stateAt calls k).db.jobs.rows.map
      JobRow.enqueueSequence) := jobs_consecutive (calls.take k)
    rw [inEnqueueOrder_eq hjobs, enqueuedAs, List.filter_map, List.map_map]
    refine congrArg (List.map _) (List.filter_congr fun row _ => ?_)
    simp [JobRow.listed]
  rw [hview, hview]
  exact ((jobs_persist calls hik).filter _).map _

/-- A job of the queue that was there at an earlier point is in the listing. -/
theorem listed_later {calls : List Call} {queue : Option String} {start k : Nat}
    (hstart : start ≤ k) {job : JobRow}
    (hjob : job ∈ (controlPlane.stateAt calls start).db.jobs.rows)
    (hqueue : ∀ q, queue = some q → job.spec.queue = q) :
    job.spec.jobId ∈ (inEnqueueOrder (controlPlane.stateAt calls k).db queue none).map
      fun job => job.spec.jobId := by
  have hlisted : job ∈ inEnqueueOrder (controlPlane.stateAt calls start).db queue none := by
    refine Keyset.mem_ordered.mpr (List.mem_filter.mpr ⟨hjob, ?_⟩)
    cases queue with
    | none => rfl
    | some q => simp [JobRow.listed, hqueue q rfl]
  have hlater := (queue_grows calls queue hstart).subset (List.mem_map_of_mem hlisted)
  have hid := List.mem_map_of_mem (f := Prod.snd) hlater
  rwa [List.map_map] at hid

/-- A reader of a database that stays as it is. An empty page means that it has the records of the
unlimited listing, which as many pages as there are jobs bring about. -/
theorem pageJobs_constant {db : Db} (hjobs : Consecutive (db.jobs.rows.map JobRow.enqueueSequence))
    (queue : Option String) (state : Option JobState) {reads : List Read}
    (hreads : ValidReads reads) :
    ∃ reader, pageJobs (fun _ => db) queue state reads = .ok reader ∧
      (∀ limit, 1 ≤ limit → limit.toNat < 2 ^ 63 → ∃ page cursor,
        listJobsPage db queue state reader.cursor limit = .ok (page, cursor) ∧
        (page = [] → cursor = reader.cursor ∧
          reader.seen = listJobs db queue state 0xFFFFFFFFFFFFFFFF)) ∧
      ((listJobs db queue state 0xFFFFFFFFFFFFFFFF).length ≤ reads.length →
        reader.seen = listJobs db queue state 0xFFFFFFFFFFFFFFFF) := by
  have hgrows : ∀ i k : Nat, i ≤ k → (inEnqueueOrder db queue state).map (tagged JobRow.info) <+:
      (inEnqueueOrder db queue state).map (tagged JobRow.info) := fun _ _ _ => List.prefix_rfl
  have htop : ∀ p ∈ reads.map Read.point, p ≤ (reads.map Read.point).max?.getD 0 :=
    fun p hp => List.le_max?_getD_of_mem hp
  obtain ⟨reader, hreader, hfollows⟩ := pageJobs_follows queue state (fun _ => db) JobRow.info id
    hgrows (fun _ => rfl) (fun _ => hjobs) hreads
  rw [listJobs_unlimited]
  refine ⟨reader, hreader, fun limit hone hlimit => ?_, fun henough => ?_⟩
  · obtain ⟨page, cursor, hpage, -, hempty⟩ := follows_page hgrows (fun _ => rfl) hjobs
      hfollows htop hone hlimit
    rw [List.map_id] at hempty
    exact ⟨page, cursor, hpage, hempty⟩
  · obtain ⟨seen, htailed, hseen, -, -⟩ := hfollows
    rw [← List.nil_append (reads.map Read.point)] at htailed
    have hall := htailed.complete (k := 0) hgrows (fun _ _ => rfl) (fun p _ => Nat.zero_le p)
      (by simpa using henough)
    rw [List.map_id, hall, List.map_map] at hseen
    exact hseen

end JobPagingLemmas

open JobPagingLemmas

/-- A reader that pages through the jobs of a queue, or of all queues, while the run
goes on. It gets each job once, in enqueue order. When a page comes back empty the
cursor stays, and the reader has every job that was there at any earlier point.
While nothing else runs, whatever the filter, an empty page means that it has exactly
the records of the unlimited listing, and as many pages as there are such jobs are
enough for that. -/
theorem job_paging_stable (calls : List Call) (queue : Option String) (reads : List Read)
    (hreads : ValidReads reads) :
    (∃ reader, pageJobs (fun k => (controlPlane.stateAt calls k).db) queue none reads =
        .ok reader ∧
      (reader.seen.map JobInfo.jobId).Nodup ∧
      ∀ k, (∀ read ∈ reads, read.point ≤ k) →
        reader.seen.map JobInfo.jobId <+:
          (inEnqueueOrder (controlPlane.stateAt calls k).db queue none).map
            (fun job => job.spec.jobId) ∧
        ∀ limit, 1 ≤ limit → limit.toNat < 2 ^ 63 → ∃ page cursor,
          listJobsPage (controlPlane.stateAt calls k).db queue none reader.cursor limit =
            .ok (page, cursor) ∧
          (page = [] → cursor = reader.cursor ∧ ∀ start ≤ k,
            ∀ job ∈ (controlPlane.stateAt calls start).db.jobs.rows,
              (∀ q, queue = some q → job.spec.queue = q) →
              job.spec.jobId ∈ reader.seen.map JobInfo.jobId)) ∧
    ∀ (stop : Nat) (state : Option JobState), ∃ reader,
      pageJobs (fun _ => (controlPlane.stateAt calls stop).db) queue state reads = .ok reader ∧
      (∀ limit, 1 ≤ limit → limit.toNat < 2 ^ 63 → ∃ page cursor,
        listJobsPage (controlPlane.stateAt calls stop).db queue state reader.cursor limit =
          .ok (page, cursor) ∧
        (page = [] → cursor = reader.cursor ∧ reader.seen =
          listJobs (controlPlane.stateAt calls stop).db queue state 0xFFFFFFFFFFFFFFFF)) ∧
      ((listJobs (controlPlane.stateAt calls stop).db queue state 0xFFFFFFFFFFFFFFFF).length ≤
        reads.length → reader.seen =
          listJobs (controlPlane.stateAt calls stop).db queue state 0xFFFFFFFFFFFFFFFF) := by
  have hjobs : ∀ k, Consecutive ((controlPlane.stateAt calls k).db.jobs.rows.map
    JobRow.enqueueSequence) := fun k => jobs_consecutive (calls.take k)
  have hgrows := fun i k (hik : i ≤ k) => queue_grows calls queue hik
  refine ⟨?_, fun stop state => pageJobs_constant (hjobs stop) queue state hreads⟩
  obtain ⟨reader, hreader, hfollows⟩ := pageJobs_follows queue none
    (fun k => (controlPlane.stateAt calls k).db) (fun row => row.spec.jobId) JobInfo.jobId hgrows
    (fun _ => rfl) hjobs hreads
  refine ⟨reader, hreader, ?_, fun k hk => ⟨?_, fun limit hone hlimit => ?_⟩⟩
  · have htop : ∀ p ∈ reads.map Read.point, p ≤ (reads.map Read.point).max?.getD 0 :=
      fun p hp => List.le_max?_getD_of_mem hp
    exact (hfollows.isPrefix hgrows htop).sublist.nodup (listed_nodup _ _ _)
  · exact hfollows.isPrefix hgrows (List.forall_mem_map.mpr hk)
  · obtain ⟨page, cursor, hpage, -, hempty⟩ := follows_page hgrows (fun _ => rfl) (hjobs k)
      hfollows (List.forall_mem_map.mpr hk) hone hlimit
    refine ⟨page, cursor, hpage, fun hnil => ⟨(hempty hnil).1,
      fun start hstart job hjob hqueue => ?_⟩⟩
    rw [(hempty hnil).2]
    exact listed_later hstart hjob hqueue

/-- A job that is claimed between the two pages of `Sample.reads`. -/
def Sample.claimedBetween : List Call :=
  [Sample.enqueue .requiresReconciliation, Sample.claim 20 5 .done]

theorem job_paging_stable_sample : ∃ reader,
    pageJobs (fun k => (controlPlane.stateAt Sample.claimedBetween k).db) (some "mail") none
      Sample.reads = .ok reader ∧ (reader.seen.map JobInfo.jobId).Nodup := by
  obtain ⟨reader, hreader, hnodup, -⟩ := (job_paging_stable Sample.claimedBetween (some "mail")
    Sample.reads ⟨⟨by decide, by decide⟩, by decide⟩).1
  exact ⟨reader, hreader, hnodup⟩

end Minisqlite
