import Minisqlite.JobRows

/-!
# The partition index

`active_partitions` lists the partitions that have nonterminal work, and it is
all that a claim ever looks at. It is written by the insert of a job and by the
row steps that end one.

* `Indexed`: the index is exact. `Indexed.insert` and `Indexed.update` are its
  two steps.
* `active_partitions_exact`: every reachable state.
-/

namespace Minisqlite

open Tables Runs

/-- The index row is about this partition. -/
def ActivePartitionRow.isFor (row : ActivePartitionRow) (queue partitionKey : String) : Prop :=
  row.queue = queue ∧ row.partitionKey = partitionKey

/-- The partition index says which partitions are active, and since when. -/
structure Indexed (db : Db) : Prop where
  listed : ∀ job ∈ db.jobs.rows, job.state.isTerminal = false →
    ∃ row ∈ db.activePartitions.rows, row.isFor job.spec.queue job.spec.partitionKey
  busy : ∀ row ∈ db.activePartitions.rows,
    ∃ job ∈ db.jobs.rows, job.activeIn row.queue row.partitionKey = true
  first : ∀ row ∈ db.activePartitions.rows, ∃ job ∈ db.jobs.rows,
    row.isFor job.spec.queue job.spec.partitionKey ∧ row.firstActiveSequence = job.enqueueSequence
  oldest : ∀ row ∈ db.activePartitions.rows, ∀ job ∈ db.jobs.rows,
    job.activeIn row.queue row.partitionKey = true → row.firstActiveSequence ≤ job.enqueueSequence

namespace IndexLemmas

variable {db db' : Db} {job : JobRow} {u : JobUpdate}

theorem activeIn_self (h : job.state.isTerminal = false) :
    job.activeIn job.spec.queue job.spec.partitionKey = true :=
  activeIn_iff.mpr ⟨rfl, rfl, h⟩

theorem isFor_of_activeIn {row : ActivePartitionRow}
    (h : job.activeIn row.queue row.partitionKey = true) :
    row.isFor job.spec.queue job.spec.partitionKey :=
  ⟨(activeIn_iff.mp h).1.symm, (activeIn_iff.mp h).2.1.symm⟩

/-- What an enqueue does to the index: the rows stay, the new job's partition is
listed, and a row that was not there before is that of an idle partition. -/
theorem index_of_insert (h : Indexed db) {spec : JobSpec} {sequence : Int64} {tid : Id}
    (hinsert : RowInsert db db' spec sequence tid) :
    (∀ row ∈ db.activePartitions.rows, row ∈ db'.activePartitions.rows) ∧
    (∃ row ∈ db'.activePartitions.rows, row.isFor spec.queue spec.partitionKey) ∧
    ∀ row ∈ db'.activePartitions.rows, row ∈ db.activePartitions.rows ∨
      row = ⟨spec.queue, spec.partitionKey, sequence⟩ ∧
        ∀ job ∈ db.jobs.rows, job.activeIn spec.queue spec.partitionKey = false := by
  rcases Table.insertOrIgnore_rows db.activePartitions
      ⟨spec.queue, spec.partitionKey, sequence⟩ with
    hindex | ⟨hindex, old, hold, hkey⟩ <;> rw [← hinsert.index] at hindex
  · have hidle : ∀ job ∈ db.jobs.rows, job.activeIn spec.queue spec.partitionKey = false := by
      intro job hjob
      by_contra hactive
      obtain ⟨hqueue, hpartition, hstate⟩ := activeIn_iff.mp (Bool.eq_true_of_not_eq_false hactive)
      obtain ⟨row, hrow, hfor⟩ := h.listed job hjob hstate
      have hkeys := (List.pairwise_append.mp (hindex ▸ db'.activePartitions.unique)).2.2
      have := hkeys row hrow _ (List.mem_singleton_self _)
      simp [Schema.keyed, hfor.1, hfor.2, hqueue, hpartition] at this
    rw [hindex]
    refine ⟨fun row hrow => List.mem_append_left _ hrow,
      ⟨_, List.mem_append_right _ (List.mem_singleton_self _), rfl, rfl⟩, fun row hrow => ?_⟩
    rcases List.mem_append.mp hrow with hrow | hrow
    · exact .inl hrow
    · exact .inr ⟨List.mem_singleton.mp hrow, hidle⟩
  · rw [hindex]
    exact ⟨fun _ => id, ⟨old, hold, by simpa [ActivePartitionRow.isFor] using hkey⟩, fun _ => .inl⟩

theorem indexed_of_insert (h : Indexed db) {spec : JobSpec} {sequence : Int64} {tid : Id}
    (hinsert : RowInsert db db' spec sequence tid) : Indexed db' := by
  obtain ⟨hkept, hlisted, hrows⟩ := index_of_insert h hinsert
  have hnew : spec.row sequence tid ∈ db'.jobs.rows := by simp [hinsert.rows]
  have hold : ∀ job ∈ db.jobs.rows, job ∈ db'.jobs.rows := fun job hjob => by
    simp [hinsert.rows, hjob]
  have hjobs : ∀ job ∈ db'.jobs.rows, job ∈ db.jobs.rows ∨ job = spec.row sequence tid := by
    simp [hinsert.rows]
  constructor
  · intro job hjob hstate
    rcases hjobs job hjob with hjob | rfl
    · obtain ⟨row, hrow, hfor⟩ := h.listed job hjob hstate
      exact ⟨row, hkept row hrow, hfor⟩
    · exact hlisted
  · intro row hrow
    rcases hrows row hrow with hrow | ⟨rfl, -⟩
    · obtain ⟨job, hjob, hactive⟩ := h.busy row hrow
      exact ⟨job, hold job hjob, hactive⟩
    · exact ⟨_, hnew, activeIn_self rfl⟩
  · intro row hrow
    rcases hrows row hrow with hrow | ⟨rfl, -⟩
    · obtain ⟨job, hjob, hfirst⟩ := h.first row hrow
      exact ⟨job, hold job hjob, hfirst⟩
    · exact ⟨_, hnew, ⟨rfl, rfl⟩, rfl⟩
  · intro row hrow job hjob hactive
    rcases hrows row hrow with hrow | ⟨rfl, hidle⟩ <;> rcases hjobs job hjob with hjob | rfl
    · exact h.oldest row hrow job hjob hactive
    · -- The new job is behind the one that the row was made for.
      obtain ⟨first, hfirst, -, hsequence⟩ := h.first row hrow
      rw [hsequence]
      exact Int64.le_of_lt (hinsert.last first hfirst)
    · rw [hidle job hjob] at hactive
      cases hactive
    · exact Int64.le_refl _

/-- What a row step does to the index: it drops no row of a partition that is
still active, and keeps none of one that is not. -/
theorem index_of_update (hwrite : RowWrite db db' job u) :
    (∀ row ∈ db'.activePartitions.rows, row ∈ db.activePartitions.rows) ∧
    (∀ row ∈ db.activePartitions.rows,
      (∃ other ∈ db'.jobs.rows, other.activeIn row.queue row.partitionKey = true) →
      row ∈ db'.activePartitions.rows) ∧
    ((u.set job).state.isTerminal = true → ∀ row ∈ db'.activePartitions.rows,
      row.isFor job.spec.queue job.spec.partitionKey →
      ∃ other ∈ db'.jobs.rows, other.activeIn row.queue row.partitionKey = true) := by
  rw [hwrite.index]
  cases hterminal : (u.set job).state.isTerminal with
  | false => exact ⟨fun _ => id, fun _ hrow _ => hrow, by simp⟩
  | true =>
    simp only [if_true, drainPartitionIfEmpty, Table.mem_delete]
    refine ⟨fun row hrow => hrow.1, fun row hrow hbusy => ⟨hrow, ?_⟩, ?_⟩
    · obtain ⟨other, hother, hactive⟩ := hbusy
      by_contra hdrained
      obtain ⟨⟨hqueue, hpartition⟩, hidle⟩ : row.isFor job.spec.queue job.spec.partitionKey ∧
          ∀ other ∈ db'.jobs.rows,
            other.activeIn job.spec.queue job.spec.partitionKey = false := by
        simpa [ActivePartitionRow.isFor, and_assoc] using hdrained
      rw [hqueue, hpartition, hidle other hother] at hactive
      cases hactive
    · rintro - row ⟨hrow, hkept⟩ ⟨hqueue, hpartition⟩
      simpa [hqueue, hpartition] using hkept

theorem indexed_of_update (h : Indexed db) (found : db.job job.spec.jobId = some job)
    (hstep : RowStep job u) (hwrite : RowWrite db db' job u) : Indexed db' := by
  obtain ⟨hrows, hkept, hdrained⟩ := index_of_update hwrite
  have hjob := (job_eq_some.mp found).1
  -- The jobs before and after, in the same partitions and places.
  have hafter : ∀ a ∈ db.jobs.rows, ∃ b ∈ db'.jobs.rows, b.spec = a.spec ∧
      b.enqueueSequence = a.enqueueSequence ∧ (b = a ∨ a = job ∧ b = u.set job) := by
    intro a ha
    refine ⟨_, hwrite.rows ▸ List.mem_map_of_mem ha, ?_⟩
    split
    · next hid =>
      obtain rfl := eq_of_found found ha hid
      exact ⟨u.spec a, u.enqueueSequence a, .inr ⟨rfl, rfl⟩⟩
    · exact ⟨rfl, rfl, .inl rfl⟩
  have hbefore : ∀ b ∈ db'.jobs.rows, b.state.isTerminal = false → ∃ a ∈ db.jobs.rows,
      b.spec = a.spec ∧ b.enqueueSequence = a.enqueueSequence ∧ a.state.isTerminal = false := by
    intro b hb hstate
    rcases mem_rows_of_write found hwrite hb with rfl | ⟨hb, -⟩
    · exact ⟨job, hjob, u.spec job, u.enqueueSequence job, hstep.active⟩
    · exact ⟨b, hb, rfl, rfl, hstate⟩
  constructor
  · intro b hb hstate
    obtain ⟨a, ha, hspec, -, hactive⟩ := hbefore b hb hstate
    obtain ⟨row, hrow, hfor⟩ := h.listed a ha hactive
    rw [← hspec] at hfor
    exact ⟨row, hkept row hrow ⟨b, hb, activeIn_iff.mpr ⟨hfor.1.symm, hfor.2.symm, hstate⟩⟩, hfor⟩
  · intro row hrow
    obtain ⟨a, ha, hactive⟩ := h.busy row (hrows row hrow)
    obtain ⟨b, hb, hspec, -, rfl | ⟨rfl, rfl⟩⟩ := hafter a ha
    · exact ⟨b, hb, hactive⟩
    · cases hterminal : (u.set a).state.isTerminal with
      | true => exact hdrained hterminal row hrow (isFor_of_activeIn hactive)
      | false =>
        obtain ⟨hqueue, hpartition, -⟩ := activeIn_iff.mp hactive
        exact ⟨_, hb, activeIn_iff.mpr ⟨hspec ▸ hqueue, hspec ▸ hpartition, hterminal⟩⟩
  · intro row hrow
    obtain ⟨a, ha, hfor, hsequence⟩ := h.first row (hrows row hrow)
    obtain ⟨b, hb, hspec, hrank, -⟩ := hafter a ha
    exact ⟨b, hb, hspec ▸ hfor, hrank ▸ hsequence⟩
  · intro row hrow b hb hactive
    obtain ⟨hqueue, hpartition, hstate⟩ := activeIn_iff.mp hactive
    obtain ⟨a, ha, hspec, hrank, hbefore⟩ := hbefore b hb hstate
    rw [hrank]
    rw [hspec] at hqueue hpartition
    exact h.oldest row (hrows row hrow) a ha (activeIn_iff.mpr ⟨hqueue, hpartition, hbefore⟩)

theorem indexed_invariant : RowInvariant Indexed where
  frame d d' hjobs hindex h := by
    constructor <;> rw [hjobs, hindex]
    exacts [h.listed, h.busy, h.first, h.oldest]
  inserted _ _ _ _ _ hinsert h := indexed_of_insert h hinsert
  updated _ _ _ _ found hstep hwrite h := indexed_of_update h found hstep hwrite

end IndexLemmas

open IndexLemmas

theorem indexed_after (calls : List Call) : Indexed (controlPlane.after calls).db :=
  rows_after indexed_invariant ⟨by simp [Db.empty, Table.empty], by simp [Db.empty, Table.empty],
    by simp [Db.empty, Table.empty], by simp [Db.empty, Table.empty]⟩ calls

/-- The index is exact in every reachable state: a partition has a row when one
of its jobs is nonterminal, and only then; and the row's sequence is that of one
of its jobs, and not past any nonterminal one. -/
theorem active_partitions_exact (calls : List Call) (queue partitionKey : String) :
    ((∃ row ∈ (controlPlane.after calls).db.activePartitions.rows, row.isFor queue partitionKey) ↔
      ∃ job ∈ (controlPlane.after calls).db.jobs.rows, job.activeIn queue partitionKey = true) ∧
    ∀ row ∈ (controlPlane.after calls).db.activePartitions.rows, row.isFor queue partitionKey →
      (∃ job ∈ (controlPlane.after calls).db.jobs.rows, job.spec.queue = queue ∧
        job.spec.partitionKey = partitionKey ∧ job.enqueueSequence = row.firstActiveSequence) ∧
      ∀ job ∈ (controlPlane.after calls).db.jobs.rows, job.activeIn queue partitionKey = true →
        row.firstActiveSequence ≤ job.enqueueSequence := by
  have h := indexed_after calls
  generalize (controlPlane.after calls).db = db at h ⊢
  refine ⟨⟨?_, ?_⟩, ?_⟩
  · rintro ⟨row, hrow, rfl, rfl⟩
    exact h.busy row hrow
  · rintro ⟨job, hjob, hactive⟩
    obtain ⟨rfl, rfl, hstate⟩ := activeIn_iff.mp hactive
    exact h.listed job hjob hstate
  · rintro row hrow ⟨rfl, rfl⟩
    obtain ⟨job, hjob, hfor, hsequence⟩ := h.first row hrow
    exact ⟨⟨job, hjob, hfor.1.symm, hfor.2.symm, hsequence.symm⟩, h.oldest row hrow⟩

end Minisqlite
